import EOSEmu.Sessions.Discovery

/-!
# Owned sessions

A node owns sessions by name, and `JoinSession` stores a record under any name without touching the
ownership, while `UpdateSession` announces whatever session the name holds. So the owned names hold
sessions the node created, and nothing else is announced or withdrawn, exactly if no section of the
game joins the session of another node under an owned name, or leaves one that it joined public
(`Fits`). What a node created is told from the history (`CreatedBy`).
-/

namespace EOSEmu

open Lib

/-! ## One section -/

/-- The session a datagram is about. -/
def SessionMessage.sessionId : SessionMessage → Bytes
  | .announce r => r.sessionId
  | .withdraw sessionId => sessionId

/-- Every owned name holds a session whose id is among some. -/
def SessionsInterface.OwnsOnly (created : Bytes → Prop) (s : SessionsInterface) : Prop :=
  ∀ name ∈ s.owned, ∃ r, s.localSessions.get? name = some r ∧ created r.sessionId

namespace SessionNode

/-- The id of the session a section creates. -/
def creates (n : SessionNode) : SessionAction → Option Bytes
  | .updateSession tick m => if m.bIsCreate then some (n.sessions.freshSession tick m).sessionId
    else none
  | _ => none

/-- A section that joins no other session under an owned name, and leaves none public that is not
owned. -/
def Fits (created : Bytes → Prop) (n : SessionNode) : SessionAction → Prop
  | .joinSession name i _ => name ∈ n.sessions.owned → ∀ d, n.details[i]? = some d →
      created d.sessionId
  | .updateSession _ m => m.bIsCreate = false → m.sessionName ∉ n.sessions.owned →
      ∀ r, n.sessions.localSessions.get? m.sessionName = some r →
        (if m.bSetPerm then m.perm else r.permission) = publicAdvertised → created r.sessionId
  | _ => True

/-- The owned names hold own sessions after a section, and its datagrams are about own sessions. -/
structure Ours (created : Bytes → Prop) (o : SessionOutcome) : Prop where
  owned : o.state.OwnsOnly created
  sent : ∀ x, x ∈ o.locked ∨ x ∈ o.sends → created x.sessionId

variable {n : SessionNode} {s : SessionsInterface} {created created' : Bytes → Prop} {name : Bytes}
  {a : SessionAction} {o : SessionOutcome}

/-- Sessions created stay created. -/
theorem ownsOnly_mono (himp : ∀ id, created id → created' id) (h : s.OwnsOnly created) :
    s.OwnsOnly created' := by
  intro name hname
  obtain ⟨r, hr, hid⟩ := h name hname
  exact ⟨r, hr, himp _ hid⟩

/-- A record stored under a name. -/
theorem ownsOnly_set (h : s.OwnsOnly created) {r : SessionRecord}
    (hr : name ∈ s.owned → created r.sessionId) :
    SessionsInterface.OwnsOnly created { s with localSessions := s.localSessions.set name r } := by
  intro other hother
  by_cases hne : other = name
  · subst hne
    exact ⟨r, by simp, hr hother⟩
  · obtain ⟨q, hq, hid⟩ := h other hother
    exact ⟨q, by simpa [hne] using hq, hid⟩

/-- What a node owns it has created. -/
theorem created_of_owned (h : s.OwnsOnly created) {r : SessionRecord}
    (hr : s.localSessions.get? name = some r) (hname : name ∈ s.owned) : created r.sessionId := by
  obtain ⟨q, hq, hid⟩ := h name hname
  rw [hr] at hq
  cases hq
  exact hid

/-- What is announced was created, if the record is the node's own. -/
theorem created_of_announceIfPublic {r : SessionRecord} {x : SessionMessage}
    (hx : x ∈ announceIfPublic r) (hr : r.permission = publicAdvertised → created r.sessionId) :
    created x.sessionId := by
  obtain ⟨hpublic, rfl⟩ := SessionsInterface.mem_announceIfPublic.1 hx
  exact hr hpublic

/-- The calls that change a record under its id. -/
theorem ours_rewriteSession (h : s.OwnsOnly created) {f : SessionRecord → SessionRecord}
    (hf : ∀ r, (f r).sessionId = r.sessionId) : Ours created (s.rewriteSession name f) := by
  have hkept : ∀ r, s.localSessions.get? name = some r → name ∈ s.owned →
    created (f r).sessionId := by
    intro r hr hname
    rw [hf]
    exact created_of_owned h hr hname
  unfold SessionsInterface.rewriteSession
  split
  · exact ⟨h, fun x hx => hx.elim nofun nofun⟩
  · next r hr =>
      refine ⟨ownsOnly_set h (hkept r hr), fun x hx => ?_⟩
      rcases hx with hx | hx
      · cases hx
      · dsimp only at hx
        split at hx
        · next hname => exact created_of_announceIfPublic hx fun _ => hkept r hr hname
        · cases hx

/-- Destroying a session takes back one that the node created. -/
theorem ours_destroySession (h : s.OwnsOnly created) : Ours created (s.destroySession name) := by
  unfold SessionsInterface.destroySession
  split
  · exact ⟨h, fun x hx => hx.elim nofun nofun⟩
  · next r hr =>
      refine ⟨fun other hother => ?_, fun x hx => ?_⟩
      · obtain ⟨hne, hmem⟩ := Finset.mem_erase.1 hother
        obtain ⟨q, hq, hid⟩ := h other hmem
        exact ⟨q, by simpa [hne] using hq, hid⟩
      · rcases hx with hx | hx
        · dsimp only at hx
          split at hx
          · next hown =>
              rw [List.mem_singleton.1 hx]
              exact created_of_owned h hr hown.1
          · cases hx
        · cases hx

/-- The periodic announces are about sessions that the node created. -/
theorem ours_periodicAnnounce (h : s.OwnsOnly created) {names : List Bytes}
    (hnames : names.toFinset = s.owned) : Ours created (s.periodicAnnounce names) := by
  refine ⟨h, fun x hx => hx.elim nofun fun hx => ?_⟩
  obtain ⟨r, hr, hx⟩ := List.mem_flatMap.1 hx
  obtain ⟨name, hname, hget⟩ := List.mem_filterMap.1 hr
  exact created_of_announceIfPublic hx fun _ =>
    created_of_owned h hget (hnames ▸ List.mem_toFinset.2 hname)

/-- A creating handle adds its session to the created ones. -/
theorem ours_create (h : s.OwnsOnly created) {tick : UInt64} {m : SessionModificationObj}
    (hm : m.bIsCreate = true) (himp : ∀ id, created id → created' id)
    (hnew : created' (s.freshSession tick m).sessionId) :
    Ours created' (s.updateSession tick m) := by
  unfold SessionsInterface.updateSession
  rw [if_pos hm]
  refine ⟨fun other hother => ?_, fun x hx => hx.elim nofun fun hx => created_of_announceIfPublic
    hx fun _ => hnew⟩
  by_cases hne : other = m.sessionName
  · subst hne
    exact ⟨s.updated (s.freshSession tick m) m, by simp, hnew⟩
  · obtain ⟨q, hq, hid⟩ := h other ((Finset.mem_insert.1 hother).resolve_left hne)
    exact ⟨q, by simpa [hne] using hq, himp _ hid⟩

/-- What `UpdateSession` does with another handle: the record under the name is own if the name is
owned, and the condition covers it otherwise. -/
theorem ours_update (h : s.OwnsOnly created) {tick : UInt64} {m : SessionModificationObj}
    (hm : m.bIsCreate = false)
    (hfit : m.sessionName ∉ s.owned → ∀ r, s.localSessions.get? m.sessionName = some r →
      (if m.bSetPerm then m.perm else r.permission) = publicAdvertised → created r.sessionId) :
    Ours created (s.updateSession tick m) := by
  unfold SessionsInterface.updateSession
  rw [if_neg (by simp [hm])]
  split
  · exact ⟨h, fun x hx => hx.elim nofun nofun⟩
  · next r hr =>
      have hkept : m.sessionName ∈ s.owned → created r.sessionId := created_of_owned h hr
      refine ⟨ownsOnly_set h hkept, fun x hx => hx.elim nofun fun hx => ?_⟩
      refine created_of_announceIfPublic hx fun hpublic => ?_
      by_cases hname : m.sessionName ∈ s.owned
      · exact hkept hname
      · exact hfit hname r hr hpublic

/-- A section that meets the condition leaves the owned names with own sessions, and sends about
own sessions. -/
theorem ours_of_fits (h : n.sessions.OwnsOnly created) (ho : n.outcome a = some o)
    (hfit : Fits created n a) : Ours (fun id => created id ∨ n.creates a = some id) o := by
  have himp : ∀ id, created id → created id ∨ n.creates a = some id := fun _ => .inl
  have hmono := ownsOnly_mono himp h
  cases a with
  | updateSession tick m =>
      cases ho
      cases hm : m.bIsCreate with
      | true => exact ours_create h hm himp (.inr (by simp [creates, hm]))
      | false => exact ours_update hmono hm fun hname r hr hpublic => .inl (hfit hm hname r hr
          hpublic)
  | joinSession name i me =>
      obtain ⟨d, hd, rfl⟩ := Option.map_eq_some_iff.1 ho
      exact ⟨ownsOnly_set hmono fun hname => .inl
        (hfit hname d hd), fun x (hx : x ∈ [] ∨ x ∈ []) =>
        absurd (or_self_iff.1 hx) List.not_mem_nil⟩
  | destroySession name =>
      cases ho
      exact ours_destroySession hmono
  | startSession name | endSession name | registerPlayers name players
  | unregisterPlayers name players =>
      cases ho
      exact ours_rewriteSession hmono fun _ => rfl
  | periodicAnnounce names =>
      simp only [outcome] at ho
      split at ho
      · next hnames =>
          cases ho
          exact ours_periodicAnnounce hmono hnames.2
      · cases ho
  | copyKnown id | copyOwned name =>
      cases ho
      exact ⟨hmono, fun x (hx : x ∈ [] ∨ x ∈ []) => absurd (or_self_iff.1 hx) List.not_mem_nil⟩

/-- And the condition is needed. -/
theorem fits_of_ours (ho : n.outcome a = some o)
    (hours : Ours (fun id => created id ∨ n.creates a = some id) o) : Fits created n a := by
  cases a with
  | updateSession tick m =>
      cases ho
      intro hm hname r hr hpublic
      have hsent : SessionMessage.announce (n.sessions.updated r m) ∈
          (n.sessions.updateSession tick m).sends := by
        unfold SessionsInterface.updateSession
        rw [if_neg (by simp [hm]), hr]
        exact SessionsInterface.mem_announceIfPublic.2 ⟨hpublic, rfl⟩
      have hid : created r.sessionId ∨ n.creates (.updateSession _ m) = some r.sessionId :=
        hours.sent _ (.inr hsent)
      simpa [creates, hm] using hid
  | joinSession name i me =>
      intro hname d hd
      have hjoin : n.outcome (.joinSession name i me) =
        some (n.sessions.joinSession name d me) := by
        simp [outcome, hd]
      rw [hjoin] at ho
      cases ho
      obtain ⟨r, hr, hid⟩ := hours.owned name hname
      have hstored : (n.sessions.joinSession name d me).state.localSessions.get? name =
          some (SessionsInterface.joinedSession name d me) := by
        simp [SessionsInterface.joinSession]
      rw [hstored] at hr
      cases hr
      simpa [creates, SessionsInterface.joinedSession] using hid
  | destroySession | startSession | endSession | registerPlayers | unregisterPlayers
  | periodicAnnounce | copyKnown
  | copyOwned => trivial

end SessionNode

/-! ## Histories -/

/-- A step of a network of session nodes. -/
abbrev SessionTransition := Transition SessionWorld SessionEvent

/-- A node created a session with the id in the history. -/
def CreatedBy (l : List SessionTransition) (i id : Bytes) : Prop :=
  ∃ x ∈ l, ∃ a, x.action = .call i a ∧ (x.pre.nodes i).creates a = some id

/-- After a step, every node owns only names of sessions it created, and it announced or withdrew
no other session in the step: not in its section, and not from what an earlier section left to be
sent. -/
def OursAfter (endpoint : Bytes → Endpoint) (before : List SessionTransition)
    (x : SessionTransition) : Prop :=
  ∀ i, (x.post.nodes i).sessions.OwnsOnly (CreatedBy (before ++ [x]) i) ∧
    (∀ o, Protocol.SectionAt (sessionProtocol endpoint) x.pre i x.action o →
      ∀ m, m ∈ o.locked ∨ m ∈ o.later → CreatedBy (before ++ [x]) i m.sessionId) ∧
    ∀ m, Protocol.Sends (sessionProtocol endpoint) x.pre i x.action m →
      CreatedBy (before ++ [x]) i m.sessionId

/-- A step meets the condition. -/
def FitsAfter (before : List SessionTransition) (x : SessionTransition) : Prop :=
  ∀ i a, x.action = .call i a → SessionNode.Fits (CreatedBy before i) (x.pre.nodes i) a

/-- What every history leaves: owned names of own sessions, and sends about own sessions. -/
structure OwnHistory (l : List SessionTransition) (w : SessionWorld) : Prop where
  nodes : ∀ i, (w.nodes i).sessions.OwnsOnly (CreatedBy l i)
  out : ∀ i th, ∀ m ∈ w.out i th, CreatedBy l i m.sessionId

section
variable {endpoint : Bytes → Endpoint} {l : List SessionTransition} {w w' : SessionWorld}
  {i : Bytes}

/-- What a node has created after one more step. -/
theorem created_snoc {x : SessionTransition} {id : Bytes} : CreatedBy (l ++ [x]) i id ↔
    CreatedBy l i id ∨ ∃ a, x.action = .call i a ∧ (x.pre.nodes i).creates a = some id := by
  unfold CreatedBy
  simp only [List.mem_append, List.mem_singleton, or_and_right, exists_or, exists_eq_left]

/-- A node's section, in a step that meets the condition. -/
theorem OwnHistory.section_ours (h : OwnHistory l w) {a : SessionEvent}
    (hfit : FitsAfter l ⟨w, a, w'⟩) {o : Section SessionNode SessionMessage}
    (ho : Protocol.SectionAt (sessionProtocol endpoint) w i a o) :
    o.node.sessions.OwnsOnly (CreatedBy (l ++ [⟨w, a, w'⟩]) i) ∧
      ∀ m, m ∈ o.locked ∨ m ∈ o.later → CreatedBy (l ++ [⟨w, a, w'⟩]) i m.sessionId := by
  cases ho with
  | @call b o hcall =>
      obtain ⟨out, hout, rfl⟩ := Option.map_eq_some_iff.1 hcall
      have hours := SessionNode.ours_of_fits (h.nodes i) hout (hfit i b rfl)
      have himp : ∀ id, CreatedBy l i id ∨ (w.nodes i).creates b = some id →
          CreatedBy (l ++ [⟨w, .call i b, w'⟩]) i id := fun id hid =>
        created_snoc.2 (hid.imp_right fun hid => ⟨b, rfl, hid⟩)
      exact ⟨SessionNode.ownsOnly_mono himp hours.owned, fun m hm => himp _ (hours.sent m hm)⟩
  | @handle j k d keep c hc =>
      have hmessage : ∀ m, ((w.nodes i).sessions.onDatagram d (endpoint j) m).OwnsOnly
        (CreatedBy l i) := by
        intro m
        unfold SessionsInterface.onDatagram
        split
        · split <;> exact h.nodes i
        · exact h.nodes i
      have hkept : ((c.message.read.map ((w.nodes i).handle d (endpoint j))).getD
        (w.nodes i)).sessions.OwnsOnly (CreatedBy l i) := by
        cases c.message.read with
        | none => exact h.nodes i
        | some m => exact hmessage m
      exact ⟨SessionNode.ownsOnly_mono (fun id hid => created_snoc.2 (.inl hid)) hkept,
        fun m hm => hm.elim nofun nofun⟩

/-- A step that meets the condition keeps the history an own one, and what it leaves is the own
node's. -/
theorem OwnHistory.step (h : OwnHistory l w) {a : SessionEvent}
    (hst : (sessionProtocol endpoint).step w a = some w') (hfit : FitsAfter l ⟨w, a, w'⟩) :
    OwnHistory (l ++ [⟨w, a, w'⟩]) w' ∧ OursAfter endpoint l ⟨w, a, w'⟩ := by
  have hold : ∀ i id, CreatedBy l i id → CreatedBy (l ++ [⟨w, a, w'⟩]) i id :=
    fun i id hid => created_snoc.2 (.inl hid)
  have hnodes : ∀ i, (w'.nodes i).sessions.OwnsOnly (CreatedBy (l ++ [⟨w, a, w'⟩]) i) := by
    intro i
    rcases Protocol.step_node hst i with heq | ⟨o, ho, heq⟩
    · rw [heq]
      exact SessionNode.ownsOnly_mono (hold i) (h.nodes i)
    · rw [heq]
      exact (h.section_ours hfit ho).1
  refine ⟨⟨hnodes, fun i th m hm => ?_⟩,
    fun i => ⟨hnodes i, fun o ho => (h.section_ours hfit ho).2, fun m hm => ?_⟩⟩
  · rcases Protocol.mem_out_of_step hst hm with hm | ⟨o, ho, hm⟩
    · exact hold i _ (h.out i th m hm)
    · exact (h.section_ours hfit ho).2 m (.inr hm)
  · rcases hm with ⟨th, hm⟩ | ⟨o, ho, hm⟩
    · exact hold i _ (h.out i th m hm)
    · exact (h.section_ours hfit ho).2 m (.inl hm)

/-- A history of steps that meet the condition. -/
theorem ownHistory_of_trace
    (h : Trace (sessionProtocol endpoint).step Always (SessionWorld.start endpoint) l w)
    (hfit : ∀ before x after, l = before ++ x :: after → FitsAfter before x) : OwnHistory l w := by
  induction h with
  | refl => exact ⟨fun i name hname => absurd hname (Finset.notMem_empty name), fun i th m hm =>
    nomatch hm⟩
  | @tail l w w' a hl _ hst ih =>
      have hbefore : OwnHistory l w :=
        ih fun before x after heq => hfit before x (after ++ [⟨w, a, w'⟩]) (by simp [heq])
      exact (hbefore.step hst (hfit l ⟨w, a, w'⟩ [] rfl)).1

/-- In a history of session nodes, the owned names hold sessions of their node after every step,
and no other sessions are announced or withdrawn, exactly if every step meets the condition. -/
theorem owned_sessions_ours_iff
    (h : Trace (sessionProtocol endpoint).step Always (SessionWorld.start endpoint) l w) :
    (∀ before x after, l = before ++ x :: after → OursAfter endpoint before x) ↔
      ∀ before x after, l = before ++ x :: after → FitsAfter before x := by
  constructor
  · intro hours before x after heq i a hact
    obtain ⟨_, _, hst⟩ := h.forall_mem heq
    obtain ⟨pre, act, post⟩ := x
    have hact : act = .call i a := hact
    subst hact
    obtain ⟨_, o, ho, hpost⟩ := Protocol.step_call hst
    obtain ⟨out, hout, rfl⟩ := Option.map_eq_some_iff.1 ho
    obtain ⟨howned, hsent, _⟩ := hours before _ after heq i
    have hsame : ∀ id, CreatedBy (before ++ [⟨pre, .call i a, post⟩]) i id →
        CreatedBy before i id ∨ (pre.nodes i).creates a = some id := by
      intro id hid
      rcases created_snoc.1 hid with hid | ⟨b, hb, hid⟩
      · exact .inl hid
      · cases hb
        exact .inr hid
    refine SessionNode.fits_of_ours hout ⟨?_, fun m hm => hsame _ (hsent _ (.call ho) m hm)⟩
    have hnode : (post.nodes i).sessions = out.state := by
      have hself := Function.update_self i ((pre.nodes i).after a out) pre.nodes
      have hnodes : post.nodes = Function.update pre.nodes i ((pre.nodes i).after a out) :=
        congrArg World.nodes (show post = _ from hpost)
      rw [hnodes, hself]
      rfl
    rw [← hnode]
    exact SessionNode.ownsOnly_mono hsame howned
  · intro hfit before x after heq
    obtain ⟨hbefore, _, hst⟩ := h.forall_mem heq
    have hown := ownHistory_of_trace hbefore fun b y c heqb =>
      hfit b y (c ++ x :: after) (by simp [heq, heqb])
    exact (hown.step hst (hfit before x after heq)).2

end

/-- The second node joins the session it has discovered, under a name, and starts it. -/
def sampleJoin (name : Bytes) : List SessionEvent :=
  [.call (str "b") (.copyKnown sampleSessionId), .call (str "b") (.joinSession name 0 (str "b")),
    .call (str "b") (.startSession name)]

/-- An executable condition that implies `FitsAfter`. -/
def fitsTest (w : SessionWorld) : SessionEvent → Bool
  | .call i (.joinSession name _ _) => decide (name ∉ (w.nodes i).sessions.owned)
  | .call _ (.updateSession _ m) => m.bIsCreate
  | _ => true

/-- A step that passes the test meets `FitsAfter`, whatever came before. -/
theorem fits_of_test {before : List SessionTransition} {x : SessionTransition}
    (h : fitsTest x.pre x.action = true) : FitsAfter before x := by
  intro i a ha
  rw [ha] at h
  cases a with
  | joinSession name k me => exact fun hname => absurd hname (of_decide_eq_true h)
  | updateSession tick m =>
      intro hm
      rw [show m.bIsCreate = true from h] at hm
      cases hm
  | _ => trivial

/-- A history that meets the condition: the second node joins the session under a name it does not
own. -/
theorem owned_sessions_ours_sample :
    ∃ l w, Trace (sessionProtocol sampleEndpoints).step Always (SessionWorld.start sampleEndpoints)
      l w ∧ ((w.nodes (str "b")).sessions.localSessions.get? (str "match")).isSome ∧
      ∀ before x after, l = before ++ x :: after → OursAfter sampleEndpoints before x := by
  have hrun : (execIf (sessionProtocol sampleEndpoints).step fitsTest
    (SessionWorld.start sampleEndpoints)
      (sampleDiscovery ++ sampleJoin (str "match"))).map (fun w =>
        ((w.nodes (str "b")).sessions.localSessions.get? (str "match")).isSome) = some true := by
    decide +kernel
  obtain ⟨w, hw, hjoined⟩ := Option.map_eq_some_iff.1 hrun
  have hfit : Trace _ (fun w a => fitsTest w a = true) _ _ w := Trace.of_execIf (fun _ _ h => h) hw
  have hl : Trace _ Always _ _ w := Trace.of_execIf (fun _ _ _ => trivial) hw
  exact ⟨_, w, hl, hjoined, (owned_sessions_ours_iff hl).2 fun before x after heq =>
    fits_of_test (hfit.forall_mem heq).2.1⟩

/-- The second node creates a session under the name it joins the other one under. -/
def sampleOverwrite : List SessionEvent :=
  .call (str "b") (.updateSession 9
      { bIsCreate := true, sessionName := str "game", sessionIdOverride := str "mine" }) ::
    .send (str "b") .game :: (sampleDiscovery ++ (sampleJoin (str "game")).take 2)

/-- Joined under an owned name, the session of another node is announced as an own one. -/
theorem not_owned_sessions_ours :
    ¬ ∀ l w, Trace (sessionProtocol sampleEndpoints).step Always
      (SessionWorld.start sampleEndpoints) l w →
      ∀ before x after, l = before ++ x :: after → OursAfter sampleEndpoints before x := by
  intro h
  have hrun : (exec (sessionProtocol sampleEndpoints).step (SessionWorld.start sampleEndpoints)
    sampleOverwrite).bind
      (fun u => ((sessionProtocol sampleEndpoints).step u
          (.call (str "b") (.startSession (str "game")))).map fun w =>
        (decide (str "game" ∈ (w.nodes (str "b")).sessions.owned),
          ((w.nodes (str "b")).sessions.localSessions.get? (str "game")).map (·.sessionId))) =
      some (true, some sampleSessionId) := by
    decide +kernel
  obtain ⟨u, hu, hrun⟩ := Option.bind_eq_some_iff.1 hrun
  obtain ⟨w, hw, hstate⟩ := Option.map_eq_some_iff.1 hrun
  obtain ⟨howned, hstored⟩ := Prod.ext_iff.1 hstate
  obtain ⟨q, hq, hid⟩ := Option.map_eq_some_iff.1 hstored
  have hl := Trace.tail _ (Trace.of_exec hu) trivial hw
  obtain ⟨r, hr, x, hx, a, hact, hcreates⟩ :=
    (h _ w hl _ _ [] rfl (str "b")).1 (str "game") (of_decide_eq_true howned)
  rw [hq] at hr
  cases hr
  rw [hid] at hcreates
  have hmem : x.action ∈ sampleOverwrite ++ [.call (str "b") (.startSession (str "game"))] := by
    rcases List.mem_append.1 hx with hx | hx
    · exact List.mem_append_left _ (action_mem_of_transitions hx)
    · rw [List.mem_singleton.1 hx]
      exact List.mem_append_right _ List.mem_cons_self
  rw [hact] at hmem
  have hne : str "mine" ≠ sampleSessionId := by decide
  have hab : str "b" ≠ str "a" := by decide
  simp only [sampleOverwrite, sampleDiscovery, sampleJoin, List.take_succ_cons, List.take_zero,
    List.cons_append,
    List.nil_append, List.mem_cons, NetAction.call.injEq, true_and, reduceCtorEq, hab, false_and,
      List.not_mem_nil,
    or_false, false_or] at hmem
  rcases hmem with rfl | rfl | rfl | rfl
  · exact hne (Option.some.inj hcreates)
  · cases hcreates
  · cases hcreates
  · cases hcreates

end EOSEmu
