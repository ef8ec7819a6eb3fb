import EOSEmu.Lobby.Merges
import EOSEmu.Lobby.Ownership

/-!
# No member update is lost

A member's `UpdateLobby` asks the node it takes for the host to merge the change. As long as the
calls are typed and each request gets to the node that owns the lobby while that one lists the
member (`ReachesOwner`), what a node asked for is what was merged for it and what is still under
way, in order (`Conserved`), so once nothing is under way the owner's record replays it
(`member_updates_merged`). After a hand-over the old owner knows no host, and its updates are lost:
`not_member_updates_merged`.
-/

namespace EOSEmu

open Lib

/-- The change that a call of `UpdateLobby` reports as done. -/
def LobbyNode.issues (n : LobbyNode) (id pid : Bytes) (b : LobbyAction) : Option MemberChange :=
  match b with
  | .updateLobby m => if (n.lobby.updateLobby m).result = .success then b.change id pid else none
  | _ => none

/-- The change that a section of the owner merges. -/
def LobbyNode.merges (n : LobbyNode) (id pid : Bytes) (b : LobbyAction) : Option MemberChange :=
  if id ∈ n.lobby.owned ∧ n.lists id pid then b.change id pid else none

/-! ## One section -/

section
variable {n : LobbyNode} {b : LobbyAction} {o : LobbyOutcome} {id pid : Bytes}

/-- Normalising the values of a request leaves its change as it was. -/
theorem change_normalised {j p : Bytes} (adds : AttrList) {removes : List Bytes} :
    LobbyMessage.change id pid (.update j p (normalisedAttrs adds) removes) =
      LobbyMessage.change id pid (.update j p adds removes) := by
  have hadds : normalisedAttrs adds ≠ [] ↔ adds ≠ [] := not_congr List.map_eq_nil_iff
  show (if j = id ∧ p = pid ∧ (normalisedAttrs adds ≠ [] ∨ removes ≠ []) then
    some (normalisedAttrs (normalisedAttrs adds), removes) else none) = _
  rw [normalisedAttrs_normalisedAttrs]
  exact if_congr (and_congr_right fun _ => and_congr_right fun _ => or_congr_left hadds) rfl rfl

/-- The change that a datagram asks its receiver for. -/
def LobbyDatagram.change (id pid : Bytes) (d : LobbyDatagram) : Option MemberChange :=
  d.read.bind (LobbyMessage.change id pid)

/-- A message that the codec carries asks its receivers for its own change. -/
theorem LobbyMessage.Carriable.change {m : LobbyMessage} (hm : m.Carriable)
    (hfits : fits m.payload = true) : m.datagram.change id pid = m.change id pid := by
  rw [LobbyDatagram.change, LobbyMessage.read_datagram hm hfits, Option.bind_some]
  cases m with
  | update lobbyId memberPid adds removes => exact change_normalised adds
  | announce | joinRequest | leave => rfl

/-- Only `UpdateLobby` asks the host to merge a change, the one it makes. -/
theorem change_of_sends (ho : n.outcome b = some o) {x : LobbySend} (hx : x ∈ o.sends)
    (hchange : x.message.change id pid ≠ none) :
    b.isDatagram = false ∧ x.message.change id pid = b.change id pid := by
  have hannounce : ∀ r, x ∉ [LobbyInterface.broadcastAnnounce r] := by
    intro r hx
    rw [List.mem_singleton.1 hx] at hchange
    exact hchange rfl
  have hleave : ∀ j p reason, x ∉ [.broadcast (.leave j p reason)] := by
    intro j p reason hx
    rw [List.mem_singleton.1 hx] at hchange
    exact hchange rfl
  have hrequest : ∀ host j, x ∉ n.lobby.requestJoin host j := by
    intro host j hx
    unfold LobbyInterface.requestJoin at hx
    split at hx
    · rw [List.mem_singleton.1 hx] at hchange
      exact hchange rfl
    · cases hx
  cases LobbyNode.outcome_does ho with
  | fails | ignores | copies | hears | closes => cases hx
  | creates | ownerUpdates | promotes | merges | admits => exact absurd hx (hannounce _)
  | @memberUpdates m =>
      dsimp only at hx
      split at hx
      · rw [List.mem_singleton.1 hx]
        exact ⟨rfl, rfl⟩
      · cases hx
  | destroys | leaves => exact absurd hx (hleave _ _ _)
  | joins | joinsById => exact absurd hx (hrequest _ _)
  | migrates | kicks =>
      rcases List.mem_cons.1 hx with hx | hx
      · exact absurd (List.mem_singleton.2 hx) (hleave _ _ _)
      · exact absurd hx (hannounce _)
  | announces =>
      obtain ⟨r, _, rfl⟩ := List.mem_map.1 hx
      exact absurd (List.mem_singleton_self _) (hannounce r)
  | departs =>
      dsimp only at hx
      split at hx
      · exact absurd hx (hannounce _)
      · cases hx

/-- Who changes nothing issues nothing. -/
theorem issues_eq_none (h : b.change id pid = none) : n.issues id pid b = none := by
  cases b with
  | updateLobby m =>
      show (if _ then LobbyAction.change id pid (.updateLobby m) else none) = none
      rw [h, ite_self]
  | _ => rfl

/-- A message that changes nothing is not merged. -/
theorem merges_eq_none (h : b.change id pid = none) : n.merges id pid b = none := by
  rw [LobbyNode.merges, h, ite_self]

/-- A call that is not `UpdateLobby` changes no attributes. -/
theorem change_of_call (hcall : b.isDatagram = false) (h : b.change id pid ≠ none) :
    ∃ m, b = .updateLobby m ∧ m.lobbyId = id ∧ m.localUser = pid := by
  cases b with
  | updateLobby m =>
      obtain ⟨u, hu⟩ := Option.ne_none_iff_exists'.1 h
      obtain ⟨⟨hid, hpid, _⟩, _⟩ := Option.ite_none_right_eq_some.1 hu
      exact ⟨m, rfl, hid, hpid⟩
  | datagram => cases hcall
  | _ => exact absurd rfl h

end

/-! ## The network -/

namespace LobbyWorld

/-- The node whose request a step serves: the caller, or the sender of the datagram. -/
def source : LobbyEvent → Option Bytes
  | .call i _ => some i
  | .receive s _ _ _ _ => some s
  | .send _ _ | .lose _ _ _ => none

section
variable (endpoint : Bytes → Endpoint) (id pid : Bytes)

/-- The changes of a member that a node's calls reported as done, oldest first. -/
def issued (i : Bytes) (l : List LobbyTransition) : List MemberChange :=
  l.filterMap fun x => (actionAt endpoint x.pre i x.action).bind ((x.pre.nodes i).issues id pid)

/-- The changes of a member that the owners of the lobby merged, oldest first. -/
def merged (l : List LobbyTransition) : List MemberChange :=
  l.filterMap fun x => (sectionOf endpoint x.pre x.action).bind fun s =>
    (x.pre.nodes s.1).merges id pid s.2

/-- The ones among them that a node asked for. -/
def mergedFrom (i : Bytes) (l : List LobbyTransition) : List MemberChange :=
  merged endpoint id pid (l.filter fun x => decide (source x.action = some i))

/-- The changes that the datagrams of a link ask for. -/
def asked (l : List (Copy LobbyDatagram)) : List MemberChange :=
  l.filterMap fun c => c.message.change id pid

/-- The changes that the sends of an outbox ask for. -/
def toAsk (xs : List LobbySend) : List MemberChange :=
  xs.filterMap fun x => x.message.change id pid

end

/-- An update of a member's attributes goes to the owner. A call of the owner finds the user in its
record, and no update it asked for earlier is on its way. Another member's call has the endpoint of
exactly one other node for the host's, the request fits a datagram, and what the member asked for
earlier is on its way to that node only. The node that gets a request owns the lobby, and its
record lists the user. -/
def ReachesOwner (endpoint : Bytes → Endpoint) (w : LobbyWorld) : LobbyEvent → Prop
  | .call i (.updateLobby m) => m.addMemberAttrs ≠ [] ∨ m.removeMemberAttrs ≠ [] →
      ∀ r, (w.nodes i).lobby.known.get? m.lobbyId = some r →
        if m.lobbyId ∈ (w.nodes i).lobby.owned then
          r.Lists m.localUser ∧ ∀ d, asked m.lobbyId m.localUser (w.links i d) = []
        else m.hasLobbyScope = false → m.lobbyId ∈ (w.nodes i).lobby.memberOf → ∃ d, d ≠ i ∧
          r.hostEndpoint.valid = true ∧ (∀ e, endpoint e = r.hostEndpoint ↔ e = d) ∧
          fits (LobbyMessage.update m.lobbyId m.localUser m.addMemberAttrs
            m.removeMemberAttrs).payload = true ∧
          ∀ e, e ≠ d → asked m.lobbyId m.localUser (w.links i e) = []
  | .receive s r k _ _ => ∀ c, (w.links s r)[k]? = some c →
    ∀ id pid, c.message.change id pid ≠ none →
      id ∈ (w.nodes r).lobby.owned ∧ (w.nodes r).lists id pid = true
  | _ => True

/-- A step on links that keep the order and lose nothing, where calls are typed, lobbies are
created under vacant ids and updates reach the owner. -/
structure ServesUpdates (endpoint : Bytes → Endpoint) (w : LobbyWorld) (a : LobbyEvent) : Prop where
  fifo : Protocol.Fifo w a
  vacant : CreatesVacant w a
  typed : TypedCalls w a
  reaches : ReachesOwner endpoint w a

/-- What a node asked for is what was merged for it, followed by what is still under way, which is
on its way to the node `d`. -/
structure Conserved (endpoint : Bytes → Endpoint) (id pid i : Bytes) (l : List LobbyTransition)
    (w : LobbyWorld) (d : Bytes) : Prop where
  alone : ∀ r, r ≠ d → asked id pid (w.links i r) = []
  addressed : ∀ x ∈ w.out i .game, x.message.change id pid ≠ none →
    d ≠ i ∧ ∀ r, (lobbyProtocol endpoint).wire x r = if r =
      d then some x.message.datagram else none
  receive : toAsk id pid (w.out i .receive) = []
  total : issued endpoint id pid i l = mergedFrom endpoint id pid i l ++
    (asked id pid (w.links i d) ++ toAsk id pid (w.out i .game))

section
variable {endpoint : Bytes → Endpoint} {id pid i d : Bytes} {l : List LobbyTransition}
  {w w' : LobbyWorld} {a : LobbyEvent} {b : LobbyAction} {o : LobbyOutcome}

/-! ### Histories -/

/-- The changes issued after one more step. -/
theorem issued_snoc (x : LobbyTransition) :
    issued endpoint id pid i (l ++ [x]) = issued endpoint id pid i l ++
    ((actionAt endpoint x.pre i x.action).bind ((x.pre.nodes i).issues id pid)).toList := by
  unfold issued
  rw [List.filterMap_append, List.filterMap_cons]
  cases (actionAt endpoint x.pre i x.action).bind ((x.pre.nodes i).issues id pid) <;> rfl

/-- The requests in two stretches of a link. -/
theorem asked_append (cs cs' : List (Copy LobbyDatagram)) :
    asked id pid (cs ++ cs') = asked id pid cs ++ asked id pid cs' := List.filterMap_append

/-- The requests of a link with one more copy in front. -/
theorem asked_cons (c : Copy LobbyDatagram) (cs : List (Copy LobbyDatagram)) :
    asked id pid (c :: cs) = (c.message.change id pid).toList ++ asked id pid cs := by
  unfold asked
  rw [List.filterMap_cons]
  cases c.message.change id pid <;> rfl

/-- The requests of an outbox with one more message in front. -/
theorem toAsk_cons (x : LobbySend) (xs : List LobbySend) :
    toAsk id pid (x :: xs) = (x.message.change id pid).toList ++ toAsk id pid xs := by
  unfold toAsk
  rw [List.filterMap_cons]
  cases x.message.change id pid <;> rfl

/-- An outbox without a request holds no change. -/
theorem toAsk_eq_nil {xs : List LobbySend} :
    toAsk id pid xs = [] ↔ ∀ x ∈ xs, x.message.change id pid = none :=
  List.filterMap_eq_nil_iff

/-- The changes merged after one more step. -/
theorem merged_snoc (x : LobbyTransition) :
    merged endpoint id pid (l ++ [x]) = merged endpoint id pid l ++
    ((sectionOf endpoint x.pre x.action).bind fun s => (x.pre.nodes s.1).merges id pid
      s.2).toList := by
  unfold merged
  rw [List.filterMap_append, List.filterMap_cons]
  cases (sectionOf endpoint x.pre x.action).bind fun s => (x.pre.nodes s.1).merges id pid s.2 <;>
    rfl

/-- A step that does not serve the node. -/
theorem mergedFrom_other (hsource : source a ≠ some i) :
    mergedFrom endpoint id pid i (l ++ [⟨w, a, w'⟩]) = mergedFrom endpoint id pid i l := by
  unfold mergedFrom
  rw [List.filter_append, List.filter_cons_of_neg (by simpa using hsource), List.filter_nil,
    List.append_nil]

/-- A step that serves the node. -/
theorem mergedFrom_served {j : Bytes} (hsource : source a = some i)
    (hb : actionAt endpoint w j a = some b) : mergedFrom endpoint id pid i (l ++ [⟨w, a, w'⟩]) =
      mergedFrom endpoint id pid i l ++ ((w.nodes j).merges id pid b).toList := by
  have hsec : sectionOf endpoint w a = some (j, b) := sectionOf_eq_some.2 hb
  unfold mergedFrom
  rw [List.filter_append, List.filter_cons_of_pos (by simpa using hsource), List.filter_nil,
    merged_snoc, hsec]
  rfl

/-- A datagram that is not read serves nobody. -/
theorem mergedFrom_idle {s r : Bytes} {k : ℕ} {tick : UInt64} {keep : Bool}
    (hb : actionAt endpoint w r (.receive s r k tick keep) = none) :
    mergedFrom endpoint id pid i (l ++ [⟨w, .receive s r k tick keep, w'⟩]) =
      mergedFrom endpoint id pid i l := by
  have hsec : sectionOf endpoint w (.receive s r k tick keep) = none := by
    show (actionAt endpoint w r (.receive s r k tick keep)).map (r, ·) = none
    rw [hb, Option.map_none]
  unfold mergedFrom
  rw [List.filter_append, List.filter_cons]
  split
  · rw [List.filter_nil, merged_snoc, hsec]
    exact List.append_nil _
  · rw [List.filter_nil, List.append_nil]

/-- Datagrams issue nothing. -/
theorem issued_receive {s r : Bytes} {k : ℕ} {tick : UInt64} {keep : Bool} :
    issued endpoint id pid i (l ++ [⟨w, .receive s r k tick keep, w'⟩]) =
      issued endpoint id pid i l := by
  rw [issued_snoc]
  cases hb : actionAt endpoint w i (.receive s r k tick keep) with
  | none => exact List.append_nil _
  | some b =>
      rcases actionAt_eq_some hb with ⟨heq, _⟩ | ⟨_, _, _, _, _, _, _, _, _, rfl⟩
      · cases heq
      · exact List.append_nil _

/-- The node that calls `UpdateLobby`. -/
def updater : LobbyEvent → Option Bytes
  | .call i (.updateLobby _) => some i
  | _ => none

/-- A node that never calls `UpdateLobby` asks for nothing. -/
theorem issued_eq_nil (h : ∀ x ∈ l, updater x.action ≠ some i) :
    issued endpoint id pid i l = [] := by
  refine List.filterMap_eq_nil_iff.2 fun x hx => Option.bind_eq_none_iff.2 fun b hb => ?_
  rcases actionAt_eq_some hb with ⟨heq, _⟩ | ⟨_, _, _, _, _, _, _, _, _, rfl⟩
  · cases b with
    | updateLobby m => exact absurd (congrArg updater heq) (h x hx)
    | _ => rfl
  · rfl

/-! ### Steps -/

/-- A call touches no link, and leaves its sends in the outbox of the game thread. -/
theorem call_step {j : Bytes} (hst : (lobbyProtocol endpoint).step w (.call j b) = some w') :
    w.out j .game = [] ∧ b.isDatagram = false ∧ w'.links = w.links ∧
    ∃ o, (w.nodes j).outcome b = some o ∧
      w'.out j .game = o.sends ∧ ∀ i th, (i = j → th ≠ .game) → w'.out i th = w.out i th := by
  obtain ⟨hout, s, hs, rfl⟩ := Protocol.step_call hst
  have hcall : b.isDatagram = false := by
    by_contra hb
    simp [lobbyProtocol, hb] at hs
  have hb : actionAt endpoint w j (.call j b) = some b := if_pos ⟨rfl, hcall⟩
  rcases outcome_of_sectionAt (.call hs) with ⟨hnone, _⟩ | ⟨b', o, hb', ho, _, _, hlocked, hlater⟩
  · cases hnone.symm.trans hb
  cases hb'.symm.trans hb
  rw [hlocked, hlater, Protocol.post_nil]
  exact ⟨hout, hcall, rfl, o, ho, if_pos ⟨rfl, rfl⟩, fun i th h => if_neg fun heq => h heq.1 heq.2⟩

/-- What is asked for stays with the node `d` where nothing of it is on its way elsewhere. -/
theorem Conserved.move (h : Conserved endpoint id pid i l w d) (hout : w.out i .game = [])
    {e : Bytes} (he : ∀ r, r ≠ e → asked id pid (w.links i r) = []) :
    issued endpoint id pid i l = mergedFrom endpoint id pid i l ++ asked id pid (w.links i e) := by
  have htotal := h.total
  rw [hout] at htotal
  by_cases hed : e = d
  · rw [htotal, hed]
    exact congrArg _ (List.append_nil _)
  · rw [htotal, he d (Ne.symm hed), h.alone e hed]
    rfl

/-- A call that asks for what it reports and does not merge itself. -/
theorem conserved_of_call (hst : (lobbyProtocol endpoint).step w (.call i b) = some w')
    (ho : (w.nodes i).outcome b = some o) (h : Conserved endpoint id pid i l w d) {e : Bytes}
    (halone : ∀ r, r ≠ e → asked id pid (w.links i r) = [])
    (haddressed : ∀ x ∈ o.sends, x.message.change id pid ≠ none →
      e ≠ i ∧ ∀ r, (lobbyProtocol endpoint).wire x r = if r =
        e then some x.message.datagram else none)
    (htotal : asked id pid (w.links i e) ++ ((w.nodes i).issues id pid b).toList =
      ((w.nodes i).merges id pid b).toList ++
        (asked id pid (w.links i e) ++ toAsk id pid o.sends)) :
    Conserved endpoint id pid i (l ++ [⟨w, .call i b, w'⟩]) w' e := by
  obtain ⟨hout, hcall, hlinks, o', ho', hsends, hothers⟩ := call_step hst
  cases ho.symm.trans ho'
  have hb : actionAt endpoint w i (.call i b) = some b := if_pos ⟨rfl, hcall⟩
  refine ⟨hlinks ▸ halone, hsends ▸ haddressed, (hothers i .receive fun _ => nofun) ▸ h.receive,
    ?_⟩
  rw [issued_snoc, mergedFrom_served rfl hb, hb, Option.bind_some, hlinks, hsends,
    h.move hout halone, List.append_assoc, htotal, List.append_assoc]

/-- A call that neither reports a change nor merges or asks for one. -/
theorem conserved_of_nothing (hst : (lobbyProtocol endpoint).step w (.call i b) = some w')
    (ho : (w.nodes i).outcome b = some o) (h : Conserved endpoint id pid i l w d)
    (hissues : (w.nodes i).issues id pid b = none) (hmerges : (w.nodes i).merges id pid b = none)
    (hnone : ∀ x ∈ o.sends, x.message.change id pid = none) :
    Conserved endpoint id pid i (l ++ [⟨w, .call i b, w'⟩]) w' d := by
  refine conserved_of_call hst ho h h.alone (fun x hx hne => absurd (hnone x hx) hne) ?_
  rw [hissues, hmerges, toAsk_eq_nil.2 hnone]
  exact (List.append_nil _).trans (List.append_nil _).symm

/-- A call of `UpdateLobby` that changes attributes: the owner merges the change, a member asks one
other node to. -/
theorem conserved_updateLobby {m : LobbyModificationObj}
    (hst : (lobbyProtocol endpoint).step w (.call i (.updateLobby m)) = some w')
    (hreaches : ReachesOwner endpoint w (.call i (.updateLobby m)))
    (h : Conserved endpoint m.lobbyId m.localUser i l w d)
    (hchange : m.addMemberAttrs ≠ [] ∨ m.removeMemberAttrs ≠ []) :
    ∃ d', Conserved endpoint m.lobbyId m.localUser i (l ++ [⟨w, .call i (.updateLobby m), w'⟩]) w'
      d' := by
  have hu : (LobbyAction.updateLobby m).change m.lobbyId m.localUser =
      some (normalisedAttrs m.addMemberAttrs, m.removeMemberAttrs) := if_pos ⟨rfl, rfl, hchange⟩
  have hmerges : (w.nodes i).merges m.lobbyId m.localUser (.updateLobby m) =
      if m.lobbyId ∈ (w.nodes i).lobby.owned ∧ (w.nodes i).lists m.lobbyId m.localUser then
        some (normalisedAttrs m.addMemberAttrs, m.removeMemberAttrs) else none := hu ▸ rfl
  obtain ⟨_, _, _, o, ho, _, _⟩ := call_step hst
  have hissues : (w.nodes i).issues m.lobbyId m.localUser (.updateLobby m) =
      if o.result = .success then some (normalisedAttrs m.addMemberAttrs, m.removeMemberAttrs)
        else none := by
    cases ho
    exact hu ▸ rfl
  cases LobbyNode.outcome_does ho with
  | @ownerUpdates _ r hr howner =>
      have hreach := hreaches hchange r hr
      rw [if_pos howner] at hreach
      obtain ⟨hlists, hasked⟩ := hreach
      have hnone : ∀ x ∈ [LobbyInterface.broadcastAnnounce (applyModification r m).bump],
          x.message.change m.lobbyId m.localUser = none := fun x hx => List.mem_singleton.1 hx ▸
            rfl
      refine ⟨d, conserved_of_call hst ho h h.alone (fun x hx hne => absurd (hnone x hx) hne) ?_⟩
      rw [hissues, if_pos rfl, hmerges, if_pos ⟨howner, (lists_iff hr).2 hlists⟩, hasked d,
        toAsk_eq_nil.2 hnone]
      rfl
  | @memberUpdates _ r hr howner hscope hmember =>
      have hreach := hreaches hchange r hr
      rw [if_neg howner] at hreach
      obtain ⟨e, hne, hvalid, hendpoint, hfits, halone⟩ := hreach hscope hmember
      refine ⟨e, conserved_of_call hst ho h halone ?_ ?_⟩
      · dsimp only
        rw [if_pos hvalid]
        intro x hx _
        obtain rfl := List.mem_singleton.1 hx
        refine ⟨hne, fun q => ?_⟩
        rw [wire_sendTo]
        refine if_congr ?_ rfl rfl
        rw [hendpoint]
        exact ⟨fun hand => hand.2.2, fun hq => ⟨hfits, hvalid, hq⟩⟩
      · rw [hissues, if_pos rfl, hmerges, if_neg fun hand => howner hand.1, if_pos hvalid,
          toAsk_cons, LobbySend.message, ← hu]
        exact congrArg _ (List.append_nil _).symm
  | fails hfail _ =>
      refine ⟨d, conserved_of_nothing hst ho h ?_ ?_ fun x hx => absurd hx List.not_mem_nil⟩
      · rw [hissues, if_neg hfail]
      · -- an owner with a record does not fail
        rw [hmerges, if_neg]
        rintro ⟨howner, hlists⟩
        obtain ⟨r, hr, _⟩ := (Option.any_eq_true _ _).1 hlists
        have heq := Option.some.inj ho
        rw [LobbyInterface.updateLobby, hr] at heq
        dsimp only at heq
        rw [if_pos howner] at heq
        exact hfail (congrArg LobbyOutcome.result heq).symm

/-- A call keeps what a node asked for. -/
theorem conserved_call {j : Bytes} (hst : (lobbyProtocol endpoint).step w (.call j b) = some w')
    (hreaches : ReachesOwner endpoint w (.call j b)) (h : Conserved endpoint id pid i l w d) :
    ∃ d', Conserved endpoint id pid i (l ++ [⟨w, .call j b, w'⟩]) w' d' := by
  obtain ⟨_, hcall, hlinks, o, ho, _, hothers⟩ := call_step hst
  by_cases hji : j = i
  · subst hji
    by_cases hchange : b.change id pid = none
    · refine ⟨d, conserved_of_nothing hst ho h (issues_eq_none hchange)
        (merges_eq_none hchange) fun x hx => ?_⟩
      by_contra hne
      exact hne ((change_of_sends ho hx hne).2.trans hchange)
    · obtain ⟨m, rfl, rfl, rfl⟩ := change_of_call hcall hchange
      refine conserved_updateLobby hst hreaches h ?_
      by_contra hno
      exact hchange (if_neg fun hand => hno hand.2.2)
  · have hnone : actionAt endpoint w i (.call j b) = none := if_neg fun hand => hji hand.1
    have hsource : source (.call j b) ≠ some i := fun heq => hji (Option.some.inj heq)
    have hout : ∀ th, w'.out i th = w.out i th := fun th => hothers i th fun heq =>
      absurd heq.symm hji
    refine ⟨d, hlinks ▸ h.alone, hout .game ▸ h.addressed, hout .receive ▸ h.receive, ?_⟩
    rw [issued_snoc, mergedFrom_other hsource, hnone, hlinks, hout .game]
    exact (List.append_nil _).trans h.total

/-- What a send puts on a link asks for what it carries. -/
theorem asked_copies (x : LobbySend) (r : Bytes) :
    asked id pid ((lobbyProtocol endpoint).copies [x] r) =
    ((((lobbyProtocol endpoint).wire x r).bind fun m => m.change id pid)).toList := by
  unfold Protocol.copies asked
  cases hwire : (lobbyProtocol endpoint).wire x r with
  | none => simp [hwire]
  | some m => cases hm : m.change id pid <;> simp [hwire, hm]

/-- What a carriable send puts on a link asks for its own change. -/
theorem change_of_wire {x : LobbySend} {r : Bytes} {m : LobbyDatagram} (hx : x.message.Carriable)
    (hwire : (lobbyProtocol endpoint).wire x r = some m) :
      m.change id pid = x.message.change id pid := by
  obtain ⟨rfl, hfits⟩ := message_of_wire hwire
  exact hx.change hfits

/-- A send keeps what a node asked for: it takes the request from the outbox to the link. -/
theorem conserved_send {j : Bytes} {th : ThreadKind}
    (hst : (lobbyProtocol endpoint).step w (.send j th) = some w')
    (hcarriable : ∀ i th x, x ∈ w.out i th → x.message.Carriable)
    (h : Conserved endpoint id pid i l w d) :
      Conserved endpoint id pid i (l ++ [⟨w, .send j th, w'⟩]) w' d := by
  obtain ⟨x, hsend⟩ := Protocol.transmits_of_step hst
  have hx : x.message.Carriable := hcarriable j th x (hsend.sent ▸ List.mem_cons_self)
  have hissued : issued endpoint id pid i (l ++ [⟨w, .send j th, w'⟩]) =
    issued endpoint id pid i l :=
    (issued_snoc _).trans (List.append_nil _)
  have hmerged : mergedFrom endpoint id pid i (l ++ [⟨w, .send j th, w'⟩]) =
    mergedFrom endpoint id pid i l :=
    mergedFrom_other (by simp [source])
  by_cases hji : j = i
  · subst hji
    -- where the send asks for nothing, the links ask for what they did
    have hsilent : x.message.change id pid = none →
      ∀ r, asked id pid (w'.links j r) = asked id pid (w.links j r) := by
      intro hnone r
      have hcopies : asked id pid ((lobbyProtocol endpoint).copies [x] r) = [] := by
        rw [asked_copies]
        cases hwire : (lobbyProtocol endpoint).wire x r with
        | none => rfl
        | some m =>
            rw [Option.bind_some, change_of_wire hx hwire, hnone]
            rfl
      rw [hsend.link r]
      split
      · rw [asked_append, hcopies, List.append_nil]
      · rfl
    cases th with
    | receive =>
        have hgame : w'.out j .game = w.out j .game := hsend.out j .game (by simp)
        have hreceive := h.receive
        rw [hsend.sent, toAsk_eq_nil] at hreceive
        have hlink := hsilent (hreceive x List.mem_cons_self)
        refine ⟨fun r hr => (hlink r).trans (h.alone r hr), hgame ▸ h.addressed, ?_, ?_⟩
        · rw [toAsk_eq_nil]
          exact fun y hy => hreceive y (List.mem_cons_of_mem x hy)
        · rw [hissued, hmerged, hlink d, hgame]
          exact h.total
    | game =>
        have hreceive : w'.out j .receive = w.out j .receive := hsend.out j .receive (by simp)
        have haddressed := h.addressed
        have htotal := h.total
        rw [hsend.sent] at haddressed htotal
        have hrest : ∀ y ∈ w'.out j .game, y.message.change id pid ≠ none →
            d ≠ j ∧ ∀ r, (lobbyProtocol endpoint).wire y r = if r =
              d then some y.message.datagram else none :=
          fun y hy => haddressed y (List.mem_cons_of_mem x hy)
        cases hchange : x.message.change id pid with
        | none =>
            have hlink := hsilent hchange
            refine ⟨fun r hr => (hlink r).trans (h.alone r hr), hrest, hreceive ▸ h.receive, ?_⟩
            rw [hissued, hmerged, hlink d, htotal, toAsk_cons, hchange]
            rfl
        | some u =>
            obtain ⟨hdj, hwire⟩ := haddressed x List.mem_cons_self
              (hchange ▸ Option.some_ne_none u)
            refine ⟨fun r hr => ?_, hrest, hreceive ▸ h.receive, ?_⟩
            · rw [hsend.link r]
              split
              · rw [asked_append, asked_copies, hwire r, if_neg hr, h.alone r hr]
                rfl
              · exact h.alone r hr
            · have hown : x.message.datagram.change id pid = x.message.change id pid :=
                change_of_wire hx ((hwire d).trans (if_pos rfl))
              rw [hissued, hmerged, hsend.link d, if_pos hdj, htotal, asked_append, asked_copies,
                hwire d, if_pos rfl, Option.bind_some, hown, toAsk_cons, List.append_assoc]
  · have hsame : ∀ th, w'.out i th = w.out i th := fun th' => hsend.out i th' fun heq =>
      absurd heq.symm hji
    have hlink : ∀ r, w'.links i r = w.links i r := fun r => hsend.links i r (Ne.symm hji)
    refine ⟨fun r hr => (hlink r).symm ▸ h.alone r hr, hsame .game ▸ h.addressed, hsame .receive ▸
      h.receive, ?_⟩
    rw [hissued, hmerged, hlink d, hsame .game]
    exact h.total

/-- A delivery keeps what a node asked for: the owner merges the first request of the link. -/
theorem conserved_receive {s r : Bytes} {k : ℕ} {tick : UInt64} {keep : Bool}
    (hst : (lobbyProtocol endpoint).step w (.receive s r k tick keep) = some w')
    (hserves : ServesUpdates endpoint w (.receive s r k tick keep))
    (h : Conserved endpoint id pid i l w d) :
    Conserved endpoint id pid i (l ++ [⟨w, .receive s r k tick keep, w'⟩]) w' d := by
  obtain ⟨rfl, rfl⟩ : k = 0 ∧ keep = false := hserves.fifo
  obtain ⟨c, hdel⟩ := Protocol.delivers_of_step (P := lobbyProtocol endpoint) handle_locked hst
  have hlink := hdel.link
  have hgame : w'.out i .game = w.out i .game := hdel.out i .game (by simp)
  have hreceive : toAsk id pid (w'.out i .receive) = [] := by
    by_cases hir : i = r
    · subst hir
      rw [hdel.later, toAsk_eq_nil]
      intro x hx
      cases hread : c.message.read with
      | none =>
          rw [handle_unread hread] at hx
          cases hx
      | some m =>
          rw [handle_read hread] at hx
          have ho : (w.nodes i).outcome (.datagram tick (endpoint s) m) = some _ := rfl
          by_contra hne
          cases (change_of_sends ho hx hne).1
    · rw [hdel.out i .receive fun heq => absurd heq hir]
      exact h.receive
  by_cases hsi : s = i
  · subst hsi
    have hb : actionAt endpoint w r (.receive s r 0 tick false) =
      c.message.read.map (.datagram tick (endpoint s)) :=
      actionAt_receive (hlink ▸ rfl)
    have hsource : source (.receive s r 0 tick false) = some s := rfl
    -- the links of the node ask for what they did, the delivered request apart
    have hlink' : ∀ q, asked id pid (w.links s q) =
        (if q = r then c.message.change id pid else none).toList ++ asked id pid
          (w'.links s q) := by
      intro q
      by_cases hq : q = r
      · rw [hq, if_pos rfl, hlink, asked_cons]
      · rw [if_neg hq, hdel.links s q fun heq => hq heq.2]
        rfl
    have halone : ∀ q, q ≠ d → asked id pid (w'.links s q) = [] := fun q hq =>
      (List.append_eq_nil_iff.1 ((hlink' q).symm.trans (h.alone q hq))).2
    refine ⟨halone, hgame ▸ h.addressed, hreceive, ?_⟩
    have hserved : mergedFrom endpoint id pid s (l ++ [⟨w, .receive s r 0 tick false, w'⟩]) =
        mergedFrom endpoint id pid s l ++
          (if d = r then c.message.change id pid else none).toList := by
      cases hread : c.message.read with
      | none =>
          have hnone : c.message.change id pid = none := by
            rw [LobbyDatagram.change, hread, Option.bind_none]
          rw [hread] at hb
          rw [mergedFrom_idle hb, hnone, ite_self]
          exact (List.append_nil _).symm
      | some m =>
          have hchange : c.message.change id pid = m.change id pid := by
            rw [LobbyDatagram.change, hread, Option.bind_some]
          rw [hread] at hb
          rw [mergedFrom_served hsource hb, hchange]
          refine congrArg (fun u => _ ++ Option.toList u) ?_
          cases hm : m.change id pid with
          | none => rw [merges_eq_none (b := .datagram tick (endpoint s) m) hm, ite_self]
          | some u =>
              have hasks : c.message.change id pid = some u := hchange.trans hm
              have hdr : d = r := by
                by_contra hne
                have hnil := (hlink' r).symm.trans (h.alone r (Ne.symm hne))
                rw [if_pos rfl, hasks] at hnil
                cases (List.append_eq_nil_iff.1 hnil).1
              have hreached := hserves.reaches c (hlink ▸ rfl) id pid
                (hasks ▸ Option.some_ne_none u)
              rw [if_pos hdr, LobbyNode.merges, if_pos hreached]
              exact hm
    rw [issued_receive, hserved, hgame, h.total, hlink' d, List.append_assoc, List.append_assoc]
  · have hlink' : ∀ q, w'.links i q = w.links i q := fun q => hdel.links i q fun heq =>
      hsi heq.1.symm
    have hsource : source (.receive s r 0 tick false) ≠ some i := fun heq =>
      hsi (Option.some.inj heq)
    refine ⟨fun q hq => (hlink' q).symm ▸ h.alone q hq, hgame ▸ h.addressed, hreceive, ?_⟩
    rw [issued_receive, mergedFrom_other hsource, hlink' d, hgame]
    exact h.total

/-- A step keeps what a node asked for. -/
theorem conserved_step (hst : (lobbyProtocol endpoint).step w a = some w')
    (hserves : ServesUpdates endpoint w a)
    (hcarriable : ∀ i th x, x ∈ w.out i th → x.message.Carriable)
    (h : Conserved endpoint id pid i l w d) :
      ∃ d', Conserved endpoint id pid i (l ++ [⟨w, a, w'⟩]) w' d' := by
  cases a with
  | call j b => exact conserved_call hst hserves.reaches h
  | send j th => exact ⟨d, conserved_send hst hcarriable h⟩
  | receive s r k tick keep => exact ⟨d, conserved_receive hst hserves h⟩
  | lose s r k => exact absurd hserves.fifo not_false

/-- In every history what a node asked for is what was merged for it and what is under way. -/
theorem conserved_of_trace
    (h : Trace (lobbyProtocol endpoint).step (ServesUpdates endpoint) start l w) :
    ∃ d, Conserved endpoint id pid i l w d := by
  refine h.invariant (P := fun l w => ∃ d, Conserved endpoint id pid i l w d) ?_ ?_
  · exact ⟨[], fun _ _ => rfl, fun x hx => absurd hx List.not_mem_nil, rfl, rfl⟩
  · rintro l u v a hl ⟨d, hd⟩ hserves hst
    have hcarries := sound_of_run hl.run fun _ _ hok => hok.typed
    exact conserved_step hst hserves (fun i th x hx => (hcarries.out i th x hx).1) hd

/-- Nothing is merged for a node that asked for nothing. -/
theorem mergedFrom_of_updater
    (h : Trace (lobbyProtocol endpoint).step (ServesUpdates endpoint) start l w)
    (hupdater : ∀ x ∈ l, updater x.action ≠ some i) :
    mergedFrom endpoint id pid i l = issued endpoint id pid i l := by
  have hissued : issued endpoint id pid i l = [] := issued_eq_nil hupdater
  obtain ⟨d, hd⟩ : ∃ d, Conserved endpoint id pid i l w d := conserved_of_trace h
  exact (List.append_eq_nil_iff.1 (hd.total.symm.trans hissued)).1.trans hissued.symm

/-- Nothing that asks for a change of the member is under way. -/
def Settled (id pid : Bytes) (w : LobbyWorld) : Prop :=
  ∀ s, (∀ th, toAsk id pid (w.out s th) = []) ∧ ∀ r, asked id pid (w.links s r) = []

/-- Nothing is under way once everything that was asked for is merged, and the other way round. -/
theorem settled_iff (h : Trace (lobbyProtocol endpoint).step (ServesUpdates endpoint) start l w) :
    Settled id pid w ↔ ∀ i, mergedFrom endpoint id pid i l = issued endpoint id pid i l := by
  constructor
  · intro hsettled i
    obtain ⟨d, hd⟩ : ∃ d, Conserved endpoint id pid i l w d := conserved_of_trace h
    rw [hd.total, (hsettled i).2 d, (hsettled i).1 .game]
    exact (List.append_nil _).symm
  · intro hmerged i
    obtain ⟨d, hd⟩ : ∃ d, Conserved endpoint id pid i l w d := conserved_of_trace h
    have hnil := List.append_right_eq_self.1 ((hmerged i).trans hd.total).symm
    obtain ⟨hlink, hgame⟩ := List.append_eq_nil_iff.1 hnil
    refine ⟨fun th => ?_, fun r => ?_⟩
    · cases th with
      | game => exact hgame
      | receive => exact hd.receive
    · by_cases hr : r = d
      · exact hr ▸ hlink
      · exact hd.alone r hr

/-- The changes merged since the owner's record lists the member are the last ones merged. -/
theorem tally_suffix_merged (l : List LobbyTransition) {us : List MemberChange}
    (h : tally endpoint id pid l = some us) : us <:+ merged endpoint id pid l := by
  induction l using List.reverseRec generalizing us with
  | nil => cases h
  | append_singleton l x ih =>
      rw [merged_snoc]
      rw [tally_snoc] at h
      cases hsec : sectionOf endpoint x.pre x.action with
      | none =>
          rw [hsec] at h
          exact (List.append_nil (merged endpoint id pid l)).symm ▸ ih h
      | some s =>
          rw [hsec] at h
          change (x.pre.nodes s.1).tally (x.post.nodes s.1) id pid s.2 (tally endpoint id pid l) =
            some us at h
          rw [Option.bind_some, LobbyNode.merges]
          unfold LobbyNode.tally at h
          by_cases hacts : id ∈ (x.pre.nodes s.1).lobby.owned ∨
            (x.pre.nodes s.1).created s.2 = some id
          · rw [if_pos hacts] at h
            split at h
            · by_cases hmerges : id ∈ (x.pre.nodes s.1).lobby.owned ∧
                (x.pre.nodes s.1).lists id pid
              · rw [if_pos hmerges] at h
                obtain ⟨us', hus', rfl⟩ := Option.map_eq_some_iff.1 h
                obtain ⟨before, hbefore⟩ := ih hus'
                rw [if_pos hmerges]
                exact ⟨before, by rw [← List.append_assoc, hbefore]⟩
              · rw [if_neg hmerges] at h
                cases h
                exact List.nil_suffix
            · cases h
          · rw [if_neg hacts] at h
            rw [if_neg fun hand => hacts (.inl hand.1)]
            exact (List.append_nil (merged endpoint id pid l)).symm ▸ ih h

end

end LobbyWorld

/-- The owner's record of a member reflects the member's updates: each node's changes were all
merged, in order, and the record of the lobby's owner is their replay, from where the record lists
the member. Where one node alone changes the member, nothing else was merged. -/
structure ReflectsUpdates (endpoint : Bytes → Endpoint) (id pid : Bytes)
    (l : List LobbyTransition) (w : LobbyWorld) : Prop where
  merged : ∀ i, LobbyWorld.mergedFrom endpoint id pid i l = LobbyWorld.issued endpoint id pid i l
  alone : ∀ i, (∀ j, j ≠ i → LobbyWorld.issued endpoint id pid j l = []) →
    LobbyWorld.merged endpoint id pid l = LobbyWorld.issued endpoint id pid i l
  listed : ∀ us, LobbyWorld.tally endpoint id pid l = some us →
    us <:+ LobbyWorld.merged endpoint id pid l
  record : ∀ k r, id ∈ (w.nodes k).lobby.owned → (w.nodes k).lobby.known.get? id = some r →
    r.attrsOf pid = (LobbyWorld.tally endpoint id pid l).map replay

section
variable {endpoint : Bytes → Endpoint} {id pid : Bytes} {l : List LobbyTransition} {w : LobbyWorld}

/-- What was merged was asked for by some node. -/
theorem merged_eq_mergedFrom {i : Bytes}
    (h : ∀ j, j ≠ i → LobbyWorld.mergedFrom endpoint id pid j l = []) :
    LobbyWorld.merged endpoint id pid l = LobbyWorld.mergedFrom endpoint id pid i l := by
  unfold LobbyWorld.mergedFrom LobbyWorld.merged
  rw [List.filterMap_filter]
  refine List.filterMap_congr fun x hx => ?_
  split
  · rfl
  · next hne =>
      cases hsource : LobbyWorld.source x.action with
      | none =>
          cases hsec : LobbyWorld.sectionOf endpoint x.pre x.action with
          | none => rfl
          | some s =>
              have hb := LobbyWorld.sectionOf_eq_some.1 hsec
              rcases LobbyWorld.actionAt_eq_some hb with ⟨heq, _⟩ | ⟨_, _, _, _, _, _, heq, _⟩ <;>
                (rw [heq] at hsource; cases hsource)
      | some j =>
          have hj : j ≠ i := fun heq => hne (by rw [hsource, heq, decide_eq_true rfl])
          refine List.filterMap_eq_nil_iff.1 (h j hj) x (List.mem_filter.2 ⟨hx, ?_⟩)
          rw [hsource, decide_eq_true rfl]

/-- **No member update is lost where each reaches the owner.** Along every history whose steps
serve the updates, once no update of a member is under way, the record of the node that owns the
lobby reflects the member's updates in order, through all hand-overs of the lobby. -/
theorem member_updates_merged
    (h : Trace (lobbyProtocol endpoint).step (LobbyWorld.ServesUpdates endpoint) LobbyWorld.start l
      w)
    (hsettled : LobbyWorld.Settled id pid w) : ReflectsUpdates endpoint id pid l w := by
  have hmerged := (LobbyWorld.settled_iff h).1 hsettled
  refine ⟨hmerged, fun i hi => ?_, fun us => LobbyWorld.tally_suffix_merged l, fun k r hk hr => ?_⟩
  · rw [← hmerged i]
    exact merged_eq_mergedFrom fun j hj => (hmerged j).trans (hi j hj)
  · exact (LobbyWorld.replays_of_trace (fun _ _ hok => ⟨hok.fifo, hok.vacant⟩)
      (fun _ _ hok => hok.typed) h).owner k r hk hr pid

end

/-- An executable condition that implies `ServesUpdates`, without new lobbies and calls of
`UpdateLobby`. -/
def servesTest (w : LobbyWorld) (a : LobbyEvent) : Bool :=
  Protocol.fifoTest w a && match a with
    | .call _ (.createLobby _ _) | .call _ (.updateLobby _) => false
    | .receive s r k _ _ => (w.links s r)[k]?.all fun c => match c.message.read with
        | some (.update id pid _ _) => decide (id ∈ (w.nodes r).lobby.owned) &&
          (w.nodes r).lists id pid
        | _ => true
    | _ => true

/-- A step that passes the test meets `ServesUpdates`. -/
theorem serves_of_test (endpoint : Bytes → Endpoint) (w : LobbyWorld) (a : LobbyEvent)
    (h : servesTest w a = true) : LobbyWorld.ServesUpdates endpoint w a := by
  obtain ⟨hfifo, htest⟩ := Bool.and_eq_true_iff.1 h
  refine ⟨Protocol.fifo_of_test w a hfifo, ?_, ?_, ?_⟩
  · cases a with
    | call i b =>
        cases b with
        | createLobby => cases htest
        | _ => trivial
    | _ => trivial
  · cases a with
    | call i b =>
        cases b with
        | createLobby | updateLobby => cases htest
        | _ => trivial
    | _ => trivial
  · cases a with
    | call i b =>
        cases b with
        | updateLobby => cases htest
        | _ => trivial
    | receive s r k tick keep =>
        intro c hc id pid hchange
        have hall := (Option.all_eq_true _ _).1 htest c hc
        obtain ⟨u, hu⟩ := Option.ne_none_iff_exists'.1 hchange
        obtain ⟨m, hread, hu⟩ := Option.bind_eq_some_iff.1 hu
        rw [hread] at hall
        cases m with
        | update j p adds removes =>
            obtain ⟨⟨rfl, rfl, _⟩, _⟩ := Option.ite_none_right_eq_some.1 hu
            obtain ⟨howned, hlists⟩ := Bool.and_eq_true_iff.1 hall
            exact ⟨of_decide_eq_true howned, hlists⟩
        | announce | joinRequest | leave => cases hu
    | _ => trivial

/-- A node changes its user's own attributes in the lobby. -/
def sampleChange (pid : Bytes) : LobbyEvent :=
  .call pid (.updateLobby { lobbyId := sampleLobbyId (str "a"), localUser := pid
                            addMemberAttrs :=
                              [(str "TEAM", { value := readAttr 3 0 0 0 (some (str "red")) })] })

/-- The first node gets the change of the second one, merges and announces it. -/
def sampleMerge : List LobbyEvent :=
  [.send (str "b") .game, .receive (str "b") (str "a") 0 9 false, .send (str "a") .receive,
    .receive (str "a") (str "b") 0 9 false]

/-- The first node creates a lobby, some actions follow, a node changes its user's attributes, and
more actions follow. -/
def updateRun (before : List LobbyEvent) (pid : Bytes) (after : List LobbyEvent) :
    Option (LobbyWorld × LobbyWorld × LobbyWorld × LobbyWorld) :=
  ((lobbyProtocol sampleEndpoints).step LobbyWorld.start sampleCreate).bind fun t =>
    (execIf (lobbyProtocol sampleEndpoints).step servesTest t before).bind fun u =>
      ((lobbyProtocol sampleEndpoints).step u (sampleChange pid)).bind fun v =>
        (execIf (lobbyProtocol sampleEndpoints).step servesTest v after).map fun w => (t, u, v, w)

/-- The history of such a run up to the change. -/
def updateHistory (before : List LobbyEvent) (t : LobbyWorld) : List LobbyTransition :=
  [⟨LobbyWorld.start, sampleCreate, t⟩] ++ transitions
    (lobbyProtocol sampleEndpoints).step t before

/-- The steps of the sample history are the ones given. -/
theorem action_mem_of_updateHistory {before : List LobbyEvent} {t : LobbyWorld}
    {x : LobbyTransition} (hx : x ∈ updateHistory before t) :
    x.action ∈ sampleCreate :: before := by
  rcases List.mem_append.1 hx with hx | hx
  · rw [List.mem_singleton.1 hx]
    exact List.mem_cons_self
  · exact List.mem_cons_of_mem _ (action_mem_of_transitions hx)

/-- Up to the change the updates are served, and nobody asked for one. -/
theorem updateHistory_settled {before : List LobbyEvent} {t u : LobbyWorld}
    (ht : (lobbyProtocol sampleEndpoints).step LobbyWorld.start sampleCreate = some t)
    (hu : execIf (lobbyProtocol sampleEndpoints).step servesTest t before = some u)
    (hbefore : ∀ x ∈ (sampleCreate :: before).map LobbyWorld.updater, x = none) (id pid : Bytes) :
    Trace (lobbyProtocol sampleEndpoints).step (LobbyWorld.ServesUpdates sampleEndpoints)
      LobbyWorld.start (updateHistory before t) u ∧ LobbyWorld.Settled id pid u := by
  have htyped : LobbyAction.Typed (.createLobby 7 (sampleLobby (str "a"))) := by decide
  have hcreate : LobbyWorld.ServesUpdates sampleEndpoints LobbyWorld.start sampleCreate :=
    ⟨trivial, ⟨rfl, vacant_start _⟩, htyped, trivial⟩
  have hl := Trace.trans (.tail _ .refl hcreate ht)
    (Trace.of_execIf (serves_of_test sampleEndpoints) hu)
  refine ⟨hl, (LobbyWorld.settled_iff hl).2 fun i => LobbyWorld.mergedFrom_of_updater
    hl fun x hx => ?_⟩
  rw [hbefore _ (List.mem_map_of_mem (action_mem_of_updateHistory hx))]
  exact nofun

/-- Only the first node has its endpoint. -/
theorem sampleEndpoints_eq_iff (e : Bytes) : sampleEndpoints e = sampleEndpoints (str "a") ↔
    e = str "a" := by
  constructor
  · intro h
    by_contra hne
    rw [sampleEndpoints, if_neg hne] at h
    exact absurd h (by decide)
  · exact fun h => h ▸ rfl

/-- The second node is no owner, and has the endpoint of the first one for the host's. -/
def sampleMemberTest (w : LobbyWorld) : Bool :=
  decide (sampleLobbyId (str "a") ∉ (w.nodes (str "b")).lobby.owned) &&
    ((w.nodes (str "b")).lobby.known.get? (sampleLobbyId (str "a"))).all fun r =>
      decide (r.hostEndpoint = sampleEndpoints (str "a"))

/-- Its change then gets to the owner, where it asked for nothing before. -/
theorem sampleChange_serves {w : LobbyWorld} (h : sampleMemberTest w = true)
    (hsettled : LobbyWorld.Settled (sampleLobbyId (str "a")) (str "b") w) :
    LobbyWorld.ServesUpdates sampleEndpoints w (sampleChange (str "b")) := by
  obtain ⟨howned, hhost⟩ := Bool.and_eq_true_iff.1 h
  refine ⟨trivial, trivial, ?_, fun _ r hr => ?_⟩
  · show LobbyAction.Typed (.updateLobby _)
    decide
  have hendpoint : r.hostEndpoint = sampleEndpoints (str "a") :=
    of_decide_eq_true ((Option.all_eq_true _ _).1 hhost r hr)
  rw [if_neg (of_decide_eq_true howned), hendpoint]
  exact fun _ _ => ⟨str "a", by decide, by decide, sampleEndpoints_eq_iff, by decide +kernel,
    fun e _ => (hsettled (str "b")).2 e⟩

/-- The second node joins the lobby of the first one and changes its attributes, which the owner
merges. -/
theorem member_updates_merged_sample :
    ∃ l w, Trace (lobbyProtocol sampleEndpoints).step (LobbyWorld.ServesUpdates sampleEndpoints)
      LobbyWorld.start l w ∧
      LobbyWorld.issued sampleEndpoints (sampleLobbyId (str "a")) (str "b") (str "b") l ≠ [] ∧
      ReflectsUpdates sampleEndpoints (sampleLobbyId (str "a")) (str "b") l w := by
  have hrun : (updateRun (sampleVisit (sampleLobby (str "a"))).tail (str "b") sampleMerge).any
    (fun x =>
      let l := updateHistory (sampleVisit (sampleLobby (str "a"))).tail x.1 ++
        ⟨x.2.1, sampleChange (str "b"), x.2.2.1⟩ ::
          transitions (lobbyProtocol sampleEndpoints).step x.2.2.1 sampleMerge
      sampleMemberTest x.2.1 &&
        decide (LobbyWorld.issued sampleEndpoints (sampleLobbyId (str "a")) (str "b") (str "b") l ≠
          [] ∧
          LobbyWorld.mergedFrom sampleEndpoints (sampleLobbyId (str "a")) (str "b") (str "b") l =
            LobbyWorld.issued sampleEndpoints (sampleLobbyId (str "a")) (str "b") (str "b") l)) =
              true := by
    decide +kernel
  obtain ⟨⟨t, u, v, w⟩, hrun, htest⟩ := (Option.any_eq_true _ _).1 hrun
  obtain ⟨hmember, hmerged⟩ := Bool.and_eq_true_iff.1 htest
  obtain ⟨hissued, hmerged⟩ := of_decide_eq_true hmerged
  obtain ⟨t, ht, hrun⟩ := Option.bind_eq_some_iff.1 hrun
  obtain ⟨u, hu, hrun⟩ := Option.bind_eq_some_iff.1 hrun
  obtain ⟨v, hv, hrun⟩ := Option.bind_eq_some_iff.1 hrun
  obtain ⟨w, hw, heq⟩ := Option.map_eq_some_iff.1 hrun
  cases heq
  obtain ⟨hl, hsettled⟩ := updateHistory_settled ht hu (by decide) (sampleLobbyId (str "a"))
    (str "b")
  have hl' := Trace.trans (.tail _ hl (sampleChange_serves hmember hsettled) hv)
    (Trace.of_execIf (serves_of_test sampleEndpoints) hw)
  rw [List.append_assoc] at hl'
  refine ⟨_, w, hl', hissued, member_updates_merged hl'
    ((LobbyWorld.settled_iff hl').2 fun i => ?_)⟩
  rcases eq_or_ne i (str "b") with rfl | hi
  · exact hmerged
  · -- the other nodes ask for nothing
    have hupdaters : ∀ x ∈ ((sampleCreate :: (sampleVisit (sampleLobby (str "a"))).tail) ++
        sampleChange (str "b") :: sampleMerge).map LobbyWorld.updater, x = none ∨
        x = some (str "b") := by decide
    refine LobbyWorld.mergedFrom_of_updater hl' fun x hx heq => hi ?_
    have hmem : x.action ∈ (sampleCreate :: (sampleVisit (sampleLobby (str "a"))).tail) ++
        sampleChange (str "b") :: sampleMerge := by
      rcases List.mem_append.1 hx with hx | hx
      · exact List.mem_append_left _ (action_mem_of_updateHistory hx)
      · rcases List.mem_cons.1 hx with rfl | hx
        · exact List.mem_append_right _ List.mem_cons_self
        · exact List.mem_append_right _ (List.mem_cons_of_mem _ (action_mem_of_transitions hx))
    rcases hupdaters _ (List.mem_map_of_mem hmem) with hnone | hsome
    · cases hnone.symm.trans heq
    · exact (Option.some.inj (hsome.symm.trans heq)).symm

/-- The first node hands the lobby over to the second one. -/
def sampleHandOver : List LobbyEvent :=
  [.call (str "a") (.promoteMember (sampleLobbyId (str "a")) (str "b")), .send (str "a") .game,
    .receive (str "a") (str "b") 0 9 false]

/-- The nodes that acted are present, everything about the lobby is delivered among them, and no
update of the member is under way anywhere. -/
structure Quiescent (present : Finset Bytes) (id pid : Bytes) (l : List LobbyTransition)
    (w : LobbyWorld) : Prop where
  acted : ∀ x ∈ l, ∀ i, Protocol.actor x.action = some i → i ∈ present
  delivered : AllDelivered present w id
  settled : LobbyWorld.Settled id pid w

/-- Without the condition this fails: after the promotion the first node knows no host, and its
change is lost. -/
theorem not_member_updates_merged :
    ¬ ∀ (present : Finset Bytes) (l : List LobbyTransition) (w : LobbyWorld),
    Trace (lobbyProtocol sampleEndpoints).step (fun w a => Protocol.Fifo w a ∧
    LobbyWorld.CreatesVacant w a) LobbyWorld.start l w →
    ∀ id pid, Quiescent present id pid l w → ReflectsUpdates sampleEndpoints id pid l w := by
  intro hall
  have hrun : (updateRun ((sampleVisit (sampleLobby (str "a"))).tail ++ sampleHandOver) (str "a")
    []).any (fun x =>
      let l := updateHistory ((sampleVisit (sampleLobby (str "a"))).tail ++ sampleHandOver) x.1 ++
        [⟨x.2.1, sampleChange (str "a"), x.2.2.1⟩]
      decide (x.2.2.1.out (str "a") .game = [] ∧
        AllDelivered samplePresent x.2.2.1 (sampleLobbyId (str "a")) ∧
        LobbyWorld.mergedFrom sampleEndpoints (sampleLobbyId (str "a")) (str "a") (str "a") l ≠
          LobbyWorld.issued sampleEndpoints (sampleLobbyId (str "a")) (str "a") (str "a") l)) =
            true := by
    decide +kernel
  obtain ⟨⟨t, u, v, w⟩, hrun, htest⟩ := (Option.any_eq_true _ _).1 hrun
  obtain ⟨hout, hdelivered, hlost⟩ := of_decide_eq_true htest
  obtain ⟨t, ht, hrun⟩ := Option.bind_eq_some_iff.1 hrun
  obtain ⟨u, hu, hrun⟩ := Option.bind_eq_some_iff.1 hrun
  obtain ⟨v, hv, hrun⟩ := Option.bind_eq_some_iff.1 hrun
  obtain ⟨w, hw, heq⟩ := Option.map_eq_some_iff.1 hrun
  cases heq
  obtain ⟨hl, hsettled⟩ := updateHistory_settled ht hu (by decide) (sampleLobbyId (str "a"))
    (str "a")
  obtain ⟨_, _, hlinks, _, _, _, hothers⟩ := LobbyWorld.call_step hv
  have hlossless : Trace (lobbyProtocol sampleEndpoints).step
      (fun w a => Protocol.Fifo w a ∧ LobbyWorld.CreatesVacant w a) LobbyWorld.start _ u :=
    hl.mono fun _ _ h => ⟨h.fifo, h.vacant⟩
  have hl' := hlossless.tail (sampleChange (str "a")) ⟨trivial, trivial⟩ hv
  refine hlost (ReflectsUpdates.merged (hall samplePresent _ v hl' _ _
    ⟨fun x hx i hi => ?_, hdelivered, fun s => ⟨fun th => ?_, ?_⟩⟩) _)
  · have hactors : ∀ x ∈
      ((sampleCreate :: ((sampleVisit (sampleLobby (str "a"))).tail ++ sampleHandOver)) ++
        [sampleChange (str "a")]).map Protocol.actor, ∀ i, x = some i → i ∈ samplePresent := by
          decide
    refine hactors _ (List.mem_map_of_mem ?_) i hi
    rcases List.mem_append.1 hx with hx | hx
    · exact List.mem_append_left _ (action_mem_of_updateHistory hx)
    · rw [List.mem_singleton.1 hx]
      exact List.mem_append_right _ (List.mem_singleton_self _)
  · by_cases hacts : s = str "a" ∧ th = .game
    · rw [hacts.1, hacts.2, hout]
      rfl
    · rw [hothers s th fun hs hth => hacts ⟨hs, hth⟩]
      exact (hsettled s).1 th
  · rw [hlinks]
    exact (hsettled s).2

end EOSEmu
