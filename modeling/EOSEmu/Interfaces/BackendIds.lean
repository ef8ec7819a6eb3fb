import EOSEmu.Lib.Issued
import EOSEmu.Lib.Run
import EOSEmu.Lobby.Node
import EOSEmu.Sessions.Interface
import Mathlib.Data.Set.Function

/-!
# The ids of lobbies and sessions

`NewLobbyId` and `NewSessionId` print the first eight characters of the owner's product user id,
the platform's tick count and a counter of the interface. The three are read off the id again
(`backendId_inj`), so a node never repeats an id as long as its counter does not come round, and
two nodes never meet when their product user ids differ in these eight characters. They are no
longer than eight, so nodes whose ids differ only further on can clash (`ids_unique`).
-/

namespace EOSEmu

open Lib

/-! ## What an id tells -/

/-- The bytes `%.8s` prints of a user id. -/
def firstEight (pid : Bytes) : Bytes := (pid.takeWhile (· ≠ 0)).take 8

/-- An id after its first word: `"%.8s_%llu_%llu"`. -/
def backendId (ownerPid : Bytes) (tick counter : UInt64) : Bytes :=
  firstEight ownerPid ++ str "_" ++ decimal tick ++ str "_" ++ decimal counter

/-- A lobby id is a backend id behind its word. -/
theorem newLobbyId_eq (pid : Bytes) (tick counter : UInt64) :
    newLobbyId pid tick counter = str "lobby_" ++ backendId pid tick counter := by
  simp only [newLobbyId, backendId, firstEight, List.append_assoc]

/-- So is a session id. -/
theorem newSessionId_eq (pid : Bytes) (tick counter : UInt64) :
    newSessionId pid tick counter = str "session_" ++ backendId pid tick counter := by
  simp only [newSessionId, backendId, firstEight, List.append_assoc]

/-- The character between the parts of an id. -/
def underscore : UInt8 := 95

/-- A number is printed without an underscore. -/
theorem underscore_notMem_decimal (n : UInt64) : underscore ∉ decimal n :=
  notMem_decimal (.inr (by decide)) n

/-- The three parts are read off an id. -/
theorem backendId_inj {p q : Bytes} {t t' c c' : UInt64} (h : backendId p t c = backendId q t' c') :
    firstEight p = firstEight q ∧ t = t' ∧ c = c' := by
  have hfields : ∀ (p : Bytes) (t c : UInt64),
      backendId p t c = (firstEight p ++ underscore :: decimal t) ++ underscore :: decimal c := by
    intro p t c
    unfold backendId
    simp only [List.append_assoc, List.cons_append]
    rfl
  rw [hfields, hfields] at h
  obtain ⟨hfront, hcount⟩ := last_field_inj underscore (underscore_notMem_decimal c)
    (underscore_notMem_decimal c') h
  obtain ⟨hfirst, htick⟩ := last_field_inj underscore (underscore_notMem_decimal t)
    (underscore_notMem_decimal t') hfront
  exact ⟨hfirst, decimal_inj htick, decimal_inj hcount⟩

/-! ## What a section creates -/

/-- The id of the session that `UpdateSession` creates. -/
def SessionNode.created (n : SessionNode) : SessionAction → Option Bytes
  | .updateSession tick m =>
      if m.bIsCreate then some (n.sessions.updated (n.sessions.freshSession tick m) m).sessionId
        else none
  | _ => none

/-- A session is created without an explicit id. -/
def SessionAction.NoOverride : SessionAction → Prop
  | .updateSession _ m => m.bIsCreate = true → m.sessionIdOverride = []
  | _ => True

/-- `rewriteSession` leaves the counter. -/
theorem rewriteSession_counter (s : SessionsInterface) (name : Bytes)
    (f : SessionRecord → SessionRecord) :
    (s.rewriteSession name f).state.sessionCounter = s.sessionCounter := by
  unfold SessionsInterface.rewriteSession
  split <;> rfl

/-- A received datagram leaves the counter. -/
theorem onDatagram_counter (s : SessionsInterface) (tick : UInt64) (source : Endpoint)
    (m : SessionMessage) : (s.onDatagram tick source m).sessionCounter = s.sessionCounter := by
  cases m with
  | announce r =>
      simp only [SessionsInterface.onDatagram]
      split <;> rfl
  | withdraw id => rfl

/-- The counter counts the sessions. -/
theorem SessionNode.outcome_counter {n : SessionNode} {a : SessionAction} {o : SessionOutcome}
    (ho : n.outcome a = some o) (hid : a.NoOverride) :
    o.state.sessionCounter =
      (n.created a).elim n.sessions.sessionCounter fun _ => n.sessions.sessionCounter + 1 := by
  cases a with
  | updateSession tick m =>
      cases ho
      unfold SessionNode.created SessionsInterface.updateSession
      dsimp only
      split
      · next hcreate =>
          dsimp only
          rw [if_pos (hid hcreate)]
          rfl
      · split <;> rfl
  | destroySession name =>
      cases ho
      show (SessionsInterface.destroySession _ _).state.sessionCounter = _
      unfold SessionsInterface.destroySession
      split <;> rfl
  | joinSession name i me =>
      obtain ⟨d, _, rfl⟩ := Option.map_eq_some_iff.1 ho
      rfl
  | startSession name | endSession name | registerPlayers name players
  | unregisterPlayers name players =>
      cases ho
      exact rewriteSession_counter _ _ _
  | periodicAnnounce names =>
      obtain ⟨_, ho⟩ := Option.ite_none_right_eq_some.1 ho
      cases ho
      rfl
  | copyKnown id | copyOwned name =>
      cases ho
      rfl

/-! ## The network -/

/-- The processes of the nodes, each known by its product user id, and the ids of the lobbies and
sessions that were created. -/
structure IdWorld where
  tickCount : Bytes → UInt64
  lobby : Bytes → LobbyNode
  sessions : Bytes → SessionNode
  lobbyIds : List Bytes
  sessionIds : List Bytes

/-- A platform tick, or a section of one of a node's interfaces. -/
inductive IdEvent where
  | tick (i : Bytes)
  | lobby (i : Bytes) (a : LobbyAction)
  | session (i : Bytes) (a : SessionAction)
  | sessionDatagram (i : Bytes) (source : Endpoint) (m : SessionMessage)

/-- The node of an event. -/
def IdEvent.node : IdEvent → Bytes
  | .tick i | .lobby i _ | .session i _ | .sessionDatagram i _ _ => i

/-- The section reads the platform's tick count. -/
def LobbyAction.AtTick (tickCount : UInt64) : LobbyAction → Prop
  | .createLobby tick _ | .datagram tick _ _ => tick = tickCount
  | _ => True

@[inherit_doc LobbyAction.AtTick]
def SessionAction.AtTick (tickCount : UInt64) : SessionAction → Prop
  | .updateSession tick _ => tick = tickCount
  | _ => True

instance (tickCount : UInt64) (a : LobbyAction) : Decidable (a.AtTick tickCount) :=
  match a with
  | .createLobby tick _ | .datagram tick _ _ => inferInstanceAs (Decidable (tick = tickCount))
  | .updateLobby _ | .destroyLobby _ | .copyDetails _ | .joinLobby _ _ | .joinLobbyById _
      _ | .leaveLobby _ _
  | .promoteMember _ _ | .kickMember _ _ | .periodicAnnounce _ => .isTrue trivial

instance (tickCount : UInt64) (a : SessionAction) : Decidable (a.AtTick tickCount) :=
  match a with
  | .updateSession tick _ => inferInstanceAs (Decidable (tick = tickCount))
  | .destroySession _ | .joinSession _ _ _ | .startSession _ | .endSession _ | .registerPlayers _ _
  | .unregisterPlayers _ _ | .periodicAnnounce _ | .copyKnown _ | .copyOwned _ => .isTrue trivial

namespace IdWorld

/-- The platforms are created; `port` is the unicast port of each. -/
def start (port : Bytes → UInt16) : IdWorld where
  tickCount _ := 0
  lobby := LobbyNode.start
  sessions i := SessionNode.start i (port i)
  lobbyIds := []
  sessionIds := []

/-- One event. -/
def step (w : IdWorld) : IdEvent → Option IdWorld
  | .tick i => some { w with tickCount := Function.update w.tickCount i (w.tickCount i + 1) }
  | .lobby i a =>
      if a.AtTick (w.tickCount i) then
        ((w.lobby i).step a).map fun n =>
          { w with
            lobby := Function.update w.lobby i n
            lobbyIds := w.lobbyIds ++ ((w.lobby i).created a).toList }
      else none
  | .session i a =>
      if a.AtTick (w.tickCount i) then
        ((w.sessions i).outcome a).map fun o =>
          { w with
            sessions := Function.update w.sessions i ((w.sessions i).after a o)
            sessionIds := w.sessionIds ++ ((w.sessions i).created a).toList }
      else none
  | .sessionDatagram i source m =>
      some
        { w with
          sessions := Function.update w.sessions i
            { w.sessions i with
              sessions := (w.sessions i).sessions.onDatagram (w.tickCount i) source m } }

end IdWorld

/-! ## Uniqueness -/

/-- How many ids a counter has handed out, one more: the counter starts at one, and at zero it has
come round. -/
def handedOut (counter : UInt64) : ℕ := (counter - 1).toNat + 1

/-- A counter that has not come round tells how many ids it has handed out, one more. -/
theorem handedOut_of_ne {c : UInt64} (h : c ≠ 0) : handedOut c = c.toNat := by
  have hpos : 0 < c.toNat := Nat.pos_of_ne_zero fun h0 => h (UInt64.toNat_inj.1 h0)
  have hone : (1 : UInt64).toNat = 1 := rfl
  have hle : (1 : UInt64) ≤ c := UInt64.le_iff_toNat_le.2 (hone ▸ hpos)
  unfold handedOut
  rw [UInt64.toNat_sub_of_le _ _ hle, hone]
  omega

/-- Handing out an id counts one more. -/
theorem handedOut_succ {c : UInt64} (h : c ≠ 0) : handedOut (c + 1) = handedOut c + 1 := by
  rw [handedOut_of_ne h, handedOut, UInt64.add_sub_cancel]

/-- The ids of one kind that a node of `S` may create when its counter stands at `n`. -/
def Mints (word : Bytes) (S : Set Bytes) (i : Bytes) (n : ℕ) (id : Bytes) : Prop :=
  i ∈ S ∧ ∃ pid tick counter, id = word ++ backendId pid tick counter ∧
    firstEight pid = firstEight i ∧ counter.toNat = n

/-- Among nodes whose product user ids differ in eight characters, an id tells its node and
count. -/
theorem telling_mints {S : Set Bytes} (hS : Set.InjOn firstEight S) (word : Bytes) :
    Telling (Mints word S) := by
  rintro i j m n x ⟨hi, p, t, c, hx, hp, hc⟩ ⟨hj, q, t', c', hx', hq, hc'⟩
  obtain ⟨hfirst, _, hcount⟩ := backendId_inj (List.append_cancel_left (hx.symm.trans hx'))
  exact ⟨hS hi hj (hp.symm.trans (hfirst.trans hq)), by rw [← hc, ← hc', hcount]⟩

/-- The nodes in `S` act, and sessions are created without an explicit id. -/
def AmongNodes (S : Set Bytes) (_ : IdWorld) (e : IdEvent) : Prop :=
  e.node ∈ S ∧ ∀ i a, e = .session i a → a.NoOverride

/-- A lobby or session is created for a user whose id starts as the local one, and the counter has
not come round. -/
def OwnUser (w : IdWorld) : IdEvent → Prop
  | .lobby i (.createLobby _ o) => firstEight o.localUserId = firstEight i ∧
      (w.lobby i).lobby.lobbyCounter ≠ 0
  | .session i (.updateSession tick m) => m.bIsCreate = true →
      firstEight ((w.sessions i).sessions.freshSession tick m).ownerProductId = firstEight i ∧
        (w.sessions i).sessions.sessionCounter ≠ 0
  | _ => True

/-- The ids created so far, with the counters of the nodes. -/
structure IdWorld.Unique (S : Set Bytes) (w : IdWorld) : Prop where
  lobby : Issued (Mints (str "lobby_") S) (fun i => handedOut (w.lobby i).lobby.lobbyCounter)
    w.lobbyIds
  session : Issued (Mints (str "session_") S)
    (fun i => handedOut (w.sessions i).sessions.sessionCounter) w.sessionIds

section
variable {S : Set Bytes} {w v : IdWorld} {e : IdEvent}

/-- A counter that stays, or goes up by one. -/
theorem handedOut_elim {c : UInt64} {created : Option Bytes} (hc : ∀ x ∈ created, c ≠ 0) :
    handedOut c ≤ handedOut (created.elim c fun _ => c + 1) ∧
      ∀ x ∈ created, handedOut c < handedOut (created.elim c fun _ => c + 1) := by
  cases created with
  | none => exact ⟨Nat.le_refl _, nofun⟩
  | some x =>
      show handedOut c ≤ handedOut (c + 1) ∧ ∀ y ∈ some x, handedOut c < handedOut (c + 1)
      rw [handedOut_succ (hc x rfl)]
      exact ⟨Nat.le_succ _, fun _ _ => Nat.lt_succ_self _⟩

/-- An id that a node's section creates is the next one of the node. -/
theorem created_lobby {i x : Bytes} {a : LobbyAction} (hi : i ∈ S) (hown : OwnUser w (.lobby i a))
    (hx : x ∈ (w.lobby i).created a) : (w.lobby i).lobby.lobbyCounter ≠ 0 ∧
      Mints (str "lobby_") S i (handedOut (w.lobby i).lobby.lobbyCounter) x := by
  cases a with
  | createLobby tick o =>
      obtain ⟨hfirst, hne⟩ := hown
      obtain ⟨_, hid⟩ := Option.ite_none_right_eq_some.1 hx
      cases hid
      exact ⟨hne, hi, o.localUserId, tick, _, newLobbyId_eq _ _ _, hfirst,
        (handedOut_of_ne hne).symm⟩
  | _ => cases hx

@[inherit_doc created_lobby]
theorem created_session {i x : Bytes} {a : SessionAction} (hi : i ∈ S) (hid : a.NoOverride)
    (hown : OwnUser w (.session i a)) (hx : x ∈ (w.sessions i).created a) :
    (w.sessions i).sessions.sessionCounter ≠ 0 ∧
      Mints (str "session_") S i (handedOut (w.sessions i).sessions.sessionCounter) x := by
  cases a with
  | updateSession tick m =>
      obtain ⟨hcreate, hx⟩ := Option.ite_none_right_eq_some.1 hx
      obtain ⟨hfirst, hne⟩ := hown hcreate
      cases hx
      refine ⟨hne, hi, _, tick, _, ?_, hfirst, (handedOut_of_ne hne).symm⟩
      show (if m.sessionIdOverride = [] then _ else _) = _
      rw [if_pos (hid hcreate)]
      exact newSessionId_eq _ _ _
  | _ => cases hx

/-- A value of one node changes. -/
theorem le_update {α : Type*} (f : Bytes → α) (g : α → ℕ) {i : Bytes} {x : α} (h : g (f i) ≤ g x)
    (j : Bytes) : g (f j) ≤ g (Function.update f i x j) := by
  rcases eq_or_ne j i with rfl | hne
  · rwa [Function.update_self]
  · rw [Function.update_of_ne hne]

/-- The ids stay unique. -/
theorem unique_step (hS : Set.InjOn firstEight S) (h : w.Unique S) (hnode : AmongNodes S w e)
    (hown : OwnUser w e) (hst : w.step e = some v) : v.Unique S := by
  obtain ⟨hlobby, hsession⟩ := h
  cases e with
  | tick i =>
      cases hst
      exact ⟨hlobby, hsession⟩
  | lobby i a =>
      obtain ⟨_, hst⟩ := Option.ite_none_right_eq_some.1 hst
      obtain ⟨n, hn, rfl⟩ := Option.map_eq_some_iff.1 hst
      refine ⟨?_, hsession⟩
      have hi : i ∈ S := hnode.1
      have hcreated := fun x hx => created_lobby (x := x) hi hown hx
      have hcount := (LobbyNode.step_fields hn).2
      obtain ⟨hle, hlt⟩ := handedOut_elim fun x hx => (hcreated x hx).1
      rw [← hcount] at hle hlt
      refine hlobby.step (telling_mints hS _)
        (le_update w.lobby (fun n => handedOut n.lobby.lobbyCounter) hle)
        fun x hx => ⟨(hcreated x hx).2, ?_⟩
      show _ < handedOut (Function.update w.lobby i n i).lobby.lobbyCounter
      rw [Function.update_self]
      exact hlt x hx
  | session i a =>
      obtain ⟨_, hst⟩ := Option.ite_none_right_eq_some.1 hst
      obtain ⟨o, ho, rfl⟩ := Option.map_eq_some_iff.1 hst
      refine ⟨hlobby, ?_⟩
      have hi : i ∈ S := hnode.1
      have hid := hnode.2 i a rfl
      have hcreated := fun x hx => created_session (x := x) hi hid hown hx
      have hcount := SessionNode.outcome_counter ho hid
      obtain ⟨hle, hlt⟩ := handedOut_elim fun x hx => (hcreated x hx).1
      rw [← hcount] at hle hlt
      refine hsession.step (telling_mints hS _)
        (le_update w.sessions (fun n => handedOut n.sessions.sessionCounter) hle) fun x hx =>
          ⟨(hcreated x hx).2, ?_⟩
      show _ < handedOut (Function.update w.sessions i ((w.sessions i).after a o)
        i).sessions.sessionCounter
      rw [Function.update_self]
      exact hlt x hx
  | sessionDatagram i source m =>
      cases hst
      refine ⟨hlobby, hsession.mono
        (le_update w.sessions (fun n => handedOut n.sessions.sessionCounter) (Nat.le_of_eq ?_))⟩
      rw [onDatagram_counter]

/-- A lobby section among the nodes. -/
theorem amongNodes_lobby {i : Bytes} (a : LobbyAction) (hi : i ∈ S) :
    AmongNodes S w (.lobby i a) :=
  ⟨hi, fun _ _ h => IdEvent.noConfusion h⟩

/-- A node creates its first lobby before the first platform tick. -/
theorem step_createLobby {i : Bytes} (hi : i ≠ []) (hstart : w.lobby i = .start i)
    (htick : w.tickCount i = 0) : ∃ v, w.step (.lobby i (.createLobby 0 (sampleLobby i))) = some v ∧
      v.lobbyIds = w.lobbyIds ++ [newLobbyId i 0 1] ∧ v.tickCount = w.tickCount ∧
      ∀ j, j ≠ i → v.lobby j = w.lobby j := by
  have huser : (sampleLobby i).localUserId ≠ [] := hi
  have hat : LobbyAction.AtTick (w.tickCount i) (.createLobby 0 (sampleLobby i)) := htick.symm
  have hresult : ((w.lobby i).lobby.createLobby 0 (sampleLobby i)).result = .success := by
    rw [LobbyInterface.createLobby, if_neg huser]
    rfl
  have hid : (w.lobby i).created (.createLobby 0 (sampleLobby i)) = some (newLobbyId i 0 1) := by
    rw [LobbyNode.created, if_pos hresult, hstart]
    rfl
  rw [IdWorld.step, if_pos hat, hid]
  exact ⟨_, rfl, rfl, rfl, fun j hj => Function.update_of_ne hj _ _⟩

/-- Two nodes create their first lobbies before the first platform tick. -/
theorem run_createTwo (port : Bytes → UInt16) {i j : Bytes} (hi : i ∈ S) (hj : j ∈ S)
    (hS : [] ∉ S) (hne : i ≠ j) :
    ∃ w, Run IdWorld.step (fun w e => AmongNodes S w e ∧ OwnUser w e) (IdWorld.start port) w ∧
      w.lobbyIds = [newLobbyId i 0 1, newLobbyId j 0 1] := by
  have hnonempty : ∀ {k : Bytes}, k ∈ S → k ≠ [] := fun hk h => hS (h ▸ hk)
  have hok : ∀ {u : IdWorld} {k : Bytes}, k ∈ S → u.lobby k = .start k →
      AmongNodes S u (.lobby k (.createLobby 0 (sampleLobby k))) ∧
        OwnUser u (.lobby k (.createLobby 0 (sampleLobby k))) := by
    intro u k hk hstart
    refine ⟨amongNodes_lobby _ hk, rfl, ?_⟩
    rw [hstart]
    show (1 : UInt64) ≠ 0
    decide
  obtain ⟨u, hu, hids, htick, hrest⟩ := step_createLobby (w := .start port) (hnonempty hi) rfl rfl
  have hstart : u.lobby j = .start j := hrest j hne.symm
  obtain ⟨v, hv, hids', _⟩ := step_createLobby (hnonempty hj) hstart (congrFun htick j)
  refine ⟨v, .tail _ (.tail _ .refl (hok hi rfl) hu) (hok hj hstart) hv, ?_⟩
  rw [hids', hids]
  rfl

/-- Two nodes whose ids agree in eight characters create lobbies with one id. -/
theorem clash (port : Bytes → UInt16) {i j : Bytes} (hi : i ∈ S) (hj : j ∈ S) (hS : [] ∉ S)
    (hne : i ≠ j) (hfirst : firstEight i = firstEight j) :
    ∃ w, Run IdWorld.step (fun w e => AmongNodes S w e ∧ OwnUser w e) (IdWorld.start port) w ∧
      ¬ w.lobbyIds.Nodup := by
  obtain ⟨w, hw, hids⟩ := run_createTwo port hi hj hS hne
  refine ⟨w, hw, ?_⟩
  have hsame : newLobbyId i 0 1 = newLobbyId j 0 1 := by
    rw [newLobbyId_eq, newLobbyId_eq, backendId, backendId, hfirst]
  rw [hids, hsame, List.nodup_cons]
  exact fun h => h.1 (List.mem_singleton_self _)

end

/-- **The ids are unique.** Whatever the nodes of `S` do within one lifetime of each platform, each
creating lobbies and sessions for its own user and not so many that a counter comes round, no two
lobbies and no two sessions share an id, if and only if no two of their product user ids agree in
the first eight characters. -/
theorem ids_unique (port : Bytes → UInt16) {S : Set Bytes} (hS : [] ∉ S) :
    (∀ w, Run IdWorld.step (fun w e => AmongNodes S w e ∧ OwnUser w e) (IdWorld.start port) w →
      w.lobbyIds.Nodup ∧ w.sessionIds.Nodup) ↔ Set.InjOn firstEight S := by
  constructor
  · intro h i hi j hj hfirst
    by_contra hne
    obtain ⟨w, hw, hclash⟩ := clash port hi hj hS hne hfirst
    exact hclash (h w hw).1
  · intro hinj w hw
    have hunique : w.Unique S := hw.invariant (P := fun w => w.Unique S) ⟨.nil, .nil⟩
      fun u v e hu hok hst => unique_step hinj hu hok.1 hok.2 hst
    exact ⟨hunique.lobby.nodup, hunique.session.nodup⟩

/-- Two users set in `eosemu.ini`, told apart by the first or the last of 32 digits. -/
def sampleIniUser (first last : String) : Bytes :=
  str (first ++ "000000000000000000000000000000" ++ last)

/-- Told apart by the first digit, the two users create their first lobbies under two ids. -/
theorem ids_unique_sample :
    ∃ w, Run IdWorld.step (fun w e => AmongNodes {sampleIniUser "1" "0", sampleIniUser "2" "0"} w
      e ∧ OwnUser w e) (IdWorld.start fun _ => 0) w ∧
      w.lobbyIds = [newLobbyId (sampleIniUser "1" "0") 0 1,
        newLobbyId (sampleIniUser "2" "0") 0 1] ∧
      w.lobbyIds.Nodup ∧ w.sessionIds.Nodup := by
  have hS : ([] : Bytes) ∉ ({sampleIniUser "1" "0", sampleIniUser "2" "0"} : Set Bytes) := by
    rintro (h | h) <;> exact absurd h (by decide +kernel)
  have hfirst : firstEight (sampleIniUser "1" "0") ≠ firstEight (sampleIniUser "2" "0") := by
    decide +kernel
  have hinj : Set.InjOn firstEight {sampleIniUser "1" "0", sampleIniUser "2" "0"} := by
    rintro i (rfl | rfl) j (rfl | rfl) h
    · rfl
    · exact absurd h hfirst
    · exact absurd h.symm hfirst
    · rfl
  obtain ⟨w, hw, hids⟩ := run_createTwo (S := {sampleIniUser "1" "0", sampleIniUser "2" "0"})
    (fun _ => 0) (Set.mem_insert _ _) (Set.mem_insert_of_mem _ rfl) hS
    fun h => hfirst (congrArg firstEight h)
  exact ⟨w, hw, hids, (ids_unique _ hS).2 hinj w hw⟩

/-- Without the condition this fails: told apart by the last digit, their first lobbies share an
id. -/
theorem not_ids_unique :
    ¬ ∀ (port : Bytes → UInt16) (S : Set Bytes), [] ∉ S → ∀ w,
      Run IdWorld.step (AmongNodes S) (IdWorld.start port) w → w.lobbyIds.Nodup ∧
      w.sessionIds.Nodup := by
  intro h
  have hS : ([] : Bytes) ∉ ({sampleIniUser "0" "1", sampleIniUser "0" "2"} : Set Bytes) := by
    rintro (h | h) <;> exact absurd h (by decide +kernel)
  obtain ⟨w, hw, hclash⟩ := clash (S := {sampleIniUser "0" "1", sampleIniUser "0" "2"})
    (fun _ => 0) (Set.mem_insert _ _) (Set.mem_insert_of_mem _ rfl) hS
    (by decide +kernel : sampleIniUser "0" "1" ≠ sampleIniUser "0" "2") (by decide +kernel)
  exact hclash (h _ _ hS w (hw.mono fun _ _ hok => hok.1)).1

end EOSEmu
