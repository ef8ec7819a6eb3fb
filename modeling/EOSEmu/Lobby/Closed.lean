import EOSEmu.Lobby.Authority

/-!
# A destroyed lobby stays dead

`DestroyLobby` forgets the lobby and then tells all nodes that it is closed, and a node that is
told so forgets it too. With the lobby the authority over it is gone (`vacant_of_closing`), so
nobody announces it again. What can bring it back is an announce that was copied under the lock
before: `destroyed_stays_dead` shows that the lobby stays dead at a node which is told that it is
closed after the last announce of it, unless it is created again or joined with an old details
handle. `not_destroyed_stays_dead` is a handler of the owner that broadcasts its copy after the
lobby was destroyed.
-/

namespace EOSEmu

open Lib

/-- The message tells that the lobby is closed. -/
def LobbyMessage.closes (id : Bytes) : LobbyMessage → Bool
  | .leave j _ reason => decide (j = id) && decide (reason = lmsClosed)
  | _ => false

/-- The datagram is read as such a message. -/
def LobbyDatagram.closes (id : Bytes) (d : LobbyDatagram) : Bool :=
  d.read.any (LobbyMessage.closes id)

/-- The datagram is read as an announce of the lobby. -/
def LobbyDatagram.Announces (id : Bytes) (d : LobbyDatagram) : Prop :=
  ∃ r, d.read = some (.announce r) ∧ r.lobbyId = id

/-- What tells that the lobby is closed is read so, and nothing else is. -/
theorem LobbyMessage.closes_datagram {m : LobbyMessage} {id : Bytes}
    (hfits : fits m.payload = true) (h : m.datagram.closes id = true) : m.closes id = true := by
  obtain ⟨m', hread, hclose⟩ := (Option.any_eq_true _ _).1 h
  cases readAs_of_read hfits hread with
  | announce | update | joinRequest => cases hclose
  | leave => exact hclose

namespace LobbyWorld
variable (w : LobbyWorld) (id : Bytes)

/-- The news that the lobby is closed is in an outbox or on a link. -/
def Closing : Prop :=
  (∃ i th, ∃ x ∈ w.out i th, x.message.closes id = true) ∨
    ∃ s r, ∃ c ∈ w.links s r, c.message.closes id = true

/-- Nobody has the lobby, and nobody is told that it is closed. -/
def Unused : Prop := w.Vacant id ∧ ¬ w.Closing id

end LobbyWorld

/-- Links keep the order, and a lobby is created by the local user under an unused id. -/
def CreatesUnused (w : LobbyWorld) (a : LobbyEvent) : Prop :=
  Protocol.Fifo w a ∧ ∀ i tick o, a = .call i (.createLobby tick o) →
    o.localUserId = i ∧ w.Unused (newLobbyId o.localUserId tick (w.nodes i).lobby.lobbyCounter)

/-- A node is told that a lobby is closed. -/
def ToldClosed (w : LobbyWorld) (j id : Bytes) (a : LobbyEvent) : Prop :=
  ∃ s k tick keep c, a = .receive s j k tick keep ∧ (w.links s j)[k]? = some c ∧
    c.message.closes id = true

/-- A lobby is created under the id, or the node joins it with a details handle. -/
def Revives (w : LobbyWorld) (j id : Bytes) (a : LobbyEvent) : Prop :=
  (∃ i tick o, a = .call i (.createLobby tick o) ∧
    newLobbyId o.localUserId tick (w.nodes i).lobby.lobbyCounter = id) ∨
  ∃ h me d, a = .call j (.joinLobby h me) ∧ (w.nodes j).details[h]? = some d ∧ d.lobbyId = id

/-- The transition tells the node that the lobby is closed. -/
def ClosedAt (j id : Bytes) (x : LobbyTransition) : Prop := ToldClosed x.pre j id x.action

/-- The transition revives the lobby. -/
def RevivedAt (j id : Bytes) (x : LobbyTransition) : Prop := Revives x.pre j id x.action

/-- A node is told that a lobby is closed when no announce of it is on its way to the node any
more. -/
def ClosesLast (endpoint : Bytes → Endpoint) (w : LobbyWorld) (a : LobbyEvent) : Prop :=
  CreatesUnused w a ∧ ∀ j id, ToldClosed w j id a → ∀ d : LobbyDatagram, d.Announces id →
    ¬ Protocol.Coming (lobbyProtocol endpoint) w j d

/-! ## One section -/

section
variable {n t : LobbyNode} {b : LobbyAction} {o : LobbyOutcome} {id : Bytes}

/-- Only an owner that destroys the lobby tells that it is closed. -/
theorem destroys_of_closes (ho : n.outcome b = some o) {x : LobbySend} (hx : x ∈ o.sends)
    (hclose : x.message.closes id = true) :
    id ∈ n.lobby.owned ∧ b = .destroyLobby id ∧ o = n.lobby.destroyLobby id := by
  have hannounce : ∀ r, x ≠ LobbyInterface.broadcastAnnounce r := by
    rintro r rfl
    cases hclose
  have hgone : ∀ j pid reason, reason ≠ lmsClosed → x ≠ .broadcast (.leave j pid reason) := by
    rintro j pid reason hreason rfl
    obtain ⟨_, heq⟩ := (Bool.and_eq_true _ _).mp hclose
    exact hreason (of_decide_eq_true heq)
  have hrequest : ∀ host j, x ∉ n.lobby.requestJoin host j := by
    intro host j hx
    unfold LobbyInterface.requestJoin at hx
    split at hx
    · rw [List.mem_singleton.1 hx] at hclose
      cases hclose
    · cases hx
  have hdoes := LobbyNode.outcome_does ho
  cases hdoes with
  | fails | ignores | copies | hears | closes => cases hx
  | creates | ownerUpdates | promotes | merges | admits =>
    exact absurd (List.mem_singleton.1 hx) (hannounce _)
  | memberUpdates =>
      dsimp only at hx
      split at hx
      · rw [List.mem_singleton.1 hx] at hclose
        cases hclose
      · cases hx
  | @destroys j howned =>
      rw [List.mem_singleton.1 hx] at hclose
      obtain ⟨hj, _⟩ := (Bool.and_eq_true _ _).mp hclose
      obtain rfl : j = id := of_decide_eq_true hj
      exact ⟨howned, rfl, (Option.some.inj ho).symm⟩
  | joins | joinsById => exact absurd hx (hrequest _ _)
  | @migrates j me =>
      rcases List.mem_cons.1 hx with hx | hx
      · exact absurd hx (hgone j me lmsLeft (by decide))
      · exact absurd (List.mem_singleton.1 hx) (hannounce _)
  | @leaves j me => exact absurd (List.mem_singleton.1 hx) (hgone j me lmsLeft (by decide))
  | @kicks j target =>
      rcases List.mem_cons.1 hx with hx | hx
      · exact absurd hx (hgone j target lmsKicked (by decide))
      · exact absurd (List.mem_singleton.1 hx) (hannounce _)
  | announces =>
      obtain ⟨r, _, rfl⟩ := List.mem_map.1 hx
      exact absurd rfl (hannounce r)
  | departs =>
      dsimp only at hx
      split at hx
      · exact absurd (List.mem_singleton.1 hx) (hannounce _)
      · cases hx

/-- A section keeps a joined lobby cached. -/
theorem cached_step
    (hcached : (n.lobby.view id).member = true → (n.lobby.view id).record.isSome = true)
    (h : n.step b = some t) (hm : (t.lobby.view id).member = true) :
      (t.lobby.view id).record.isSome = true := by
  have hv := LobbyNode.step_view h id
  generalize n.lobby.view id = v at hv hcached
  generalize t.lobby.view id = w at hv hm
  cases hv with
  | keep => exact hcached hm
  | destroy | leave | closed | migrate => cases hm
  | create | ownerUpdate | memberUpdate | join | joinById | promote | kick | announce | update
  | joinRequest | left =>
      rfl

/-- A node that is told that the lobby is closed forgets it. -/
theorem gone_of_closed {s : LobbyInterface} {tick : UInt64} {source : Endpoint} {m : LobbyMessage}
    (hclose : m.closes id = true)
    (hcached : (s.view id).member = true → (s.view id).record.isSome = true) :
    (s.onDatagram tick source m).state.known.get? id = none ∧
    id ∉ (s.onDatagram tick source m).state.memberOf := by
  cases m with
  | announce | update | joinRequest => cases hclose
  | leave j pid reason =>
      obtain ⟨hj, hreason⟩ := (Bool.and_eq_true _ _).mp hclose
      obtain rfl : j = id := of_decide_eq_true hj
      obtain rfl : reason = lmsClosed := of_decide_eq_true hreason
      simp only [LobbyInterface.onDatagram, LobbyInterface.onLeave]
      split
      · next hnone =>
          refine ⟨hnone, fun hm => ?_⟩
          have hsome := hcached (LobbyInterface.view_member.2 hm)
          rw [LobbyInterface.view_record, hnone] at hsome
          cases hsome
      · simp only [if_true]
        exact ⟨by rw [Dict.get?_erase, if_pos rfl], Finset.notMem_erase j _⟩

/-- A section leaves a forgotten lobby forgotten, unless the lobby is created, joined or
announced. -/
theorem forgotten_step (hnone : n.lobby.known.get? id = none) (hnot : id ∉ n.lobby.memberOf)
    (hcreate : ∀ tick o, b = .createLobby tick o →
      newLobbyId o.localUserId tick n.lobby.lobbyCounter ≠ id)
    (hjoin : ∀ i me d, b = .joinLobby i me → n.details[i]? = some d → d.lobbyId ≠ id)
    (hannounce : ∀ tick source r, b = .datagram tick source (.announce r) → r.lobbyId ≠ id)
    (h : n.step b = some t) : t.lobby.known.get? id = none ∧ id ∉ t.lobby.memberOf := by
  have hv := LobbyNode.step_view h id
  have hafter : t.lobby.known.get? id = (t.lobby.view id).record := rfl
  rw [hafter, ← LobbyInterface.view_member, Bool.not_eq_true]
  have hrecord : (n.lobby.view id).record = none := hnone
  have hmember : (n.lobby.view id).member = false :=
    Bool.eq_false_iff.2 fun hm => hnot (LobbyInterface.view_member.1 hm)
  generalize n.lobby.view id = v at hv hrecord hmember
  generalize t.lobby.view id = w at hv
  cases hv with
  | keep => exact ⟨hrecord, hmember⟩
  | @create tick o _ _ hid => exact absurd hid.symm (hcreate tick o rfl)
  | ownerUpdate _ hrec _ | memberUpdate _ hrec _ _ | joinById hrec _ | promote _ hrec _ _
  | kick _ hrec _
  | migrate hrec _ _ _ _ | update hrec _ _ | joinRequest hrec _ _ _ | left hrec _ =>
      rw [hrecord] at hrec
      cases hrec
  | destroy | leave | closed => exact ⟨rfl, rfl⟩
  | @join i me d hd hid _ => exact absurd hid (hjoin i me d rfl hd)
  | @announce tick source r hid _ _ => exact absurd hid (hannounce tick source r rfl)

end

/-! ## The network -/

section
variable {endpoint : Bytes → Endpoint} {w w' : LobbyWorld} {a : LobbyEvent} {id : Bytes}

/-- Where no delivery repeats an announce, a lobby that is created under an unused id is handed
over once. -/
theorem CreatesUnused.handsOverOnce (h : CreatesUnused w a) (huntaken : Protocol.Untaken w) :
    HandsOverOnce w a := by
  cases a with
  | call i b =>
      cases b with
      | createLobby tick o =>
          obtain ⟨huser, hunused⟩ := h.2 i tick o rfl
          exact ⟨huser, hunused.1⟩
      | _ => trivial
  | receive s r k tick keep =>
      exact fun c hc _ _ _ => .inl (huntaken s r c (List.mem_of_getElem? hc))
  | send | lose => trivial

/-- Such runs hand every lobby over once, and no datagram of them is delivered twice. -/
theorem handsOverOnce_of_run
    (h : Run (lobbyProtocol endpoint).step CreatesUnused LobbyWorld.start w) :
    Run (lobbyProtocol endpoint).step HandsOverOnce LobbyWorld.start w ∧ Protocol.Untaken w := by
  refine h.invariant (P := fun w => Run (lobbyProtocol endpoint).step HandsOverOnce
    LobbyWorld.start w ∧ Protocol.Untaken w) ⟨.refl, fun _ _ _ hc => nomatch hc⟩ ?_
  rintro u v a ⟨hrun, huntaken⟩ hok hst
  exact ⟨.tail a hrun (hok.handsOverOnce huntaken) hst, Protocol.untaken_step hst huntaken hok.1⟩

/-- A lobby that nobody has comes back only by being created. -/
theorem vacant_step (h : Run (lobbyProtocol endpoint).step CreatesUnused LobbyWorld.start w)
    (hok : CreatesUnused w a)
    (hst : (lobbyProtocol endpoint).step w a = some w') (hvacant : w.Vacant id)
    (hcreate : ∀ i tick o, a = .call i (.createLobby tick o) →
      newLobbyId o.localUserId tick (w.nodes i).lobby.lobbyCounter ≠ id) : w'.Vacant id := by
  obtain ⟨hrun, huntaken⟩ := handsOverOnce_of_run h
  refine (authority_of_run hrun (hok.handsOverOnce huntaken) hst id).vacant (fun hmint => ?_)
    hvacant
  cases a with
  | call i b =>
      cases b with
      | createLobby tick o => exact hcreate i tick o rfl hmint.symm
      | _ => cases hmint
  | receive s r k tick keep =>
      obtain ⟨c, _, hc, htaken, _⟩ := hmint
      rw [huntaken s r c (List.mem_of_getElem? hc)] at htaken
      cases htaken
  | send | lose => cases hmint

/-- The news that the lobby is closed was on its way, or the node destroys the lobby. -/
theorem closing_of_step (hst : (lobbyProtocol endpoint).step w a = some w')
    (hclosing : w'.Closing id) :
    w.Closing id ∨ ∃ i, a = .call i (.destroyLobby id) ∧ id ∈ (w.nodes i).lobby.owned := by
  have hsection : ∀ i o x, Protocol.SectionAt (lobbyProtocol endpoint) w i a o → x ∈ o.locked ∨
    x ∈ o.later →
      x.message.closes id = true → ∃ i, a = .call i (.destroyLobby id) ∧
      id ∈ (w.nodes i).lobby.owned := by
    intro i o x ho hx hclose
    rcases LobbyWorld.outcome_of_sectionAt ho with ⟨_, rfl⟩ | ⟨b, q, hb, hq, _, _, hlocked, hlater⟩
    · exact absurd hx (by simp)
    rw [hlocked, hlater] at hx
    obtain ⟨howned, rfl, _⟩ := destroys_of_closes hq (hx.resolve_left List.not_mem_nil) hclose
    rcases LobbyWorld.actionAt_eq_some hb with ⟨rfl, _⟩ | ⟨_, _, _, _, _, _, _, _, _, hdata⟩
    · exact ⟨i, rfl, howned⟩
    · cases hdata
  rcases hclosing with ⟨i, th, x, hx, hclose⟩ | ⟨s, r, c, hc, hclose⟩
  · rcases Protocol.mem_out_of_step hst hx with hx | ⟨o, ho, hx⟩
    · exact .inl (.inl ⟨i, th, x, hx, hclose⟩)
    · exact .inr (hsection i o x ho (.inr hx) hclose)
  · rcases Protocol.mem_links_of_step hst hc with hc | ⟨y, hy, hsame, _⟩ | ⟨_, _, x,
      ⟨th, hx⟩ | ⟨o, ho, hx⟩, hwire⟩
    · exact .inl (.inr ⟨s, r, c, hc, hclose⟩)
    · exact .inl (.inr ⟨s, r, y, hy, hsame ▸ hclose⟩)
    · obtain ⟨hmsg, hfits⟩ := LobbyWorld.message_of_wire hwire
      rw [← hmsg] at hclose
      exact .inl (.inl ⟨s, th, x, hx, LobbyMessage.closes_datagram hfits hclose⟩)
    · obtain ⟨hmsg, hfits⟩ := LobbyWorld.message_of_wire hwire
      rw [← hmsg] at hclose
      exact .inr (hsection s o x ho (.inl hx) (LobbyMessage.closes_datagram hfits hclose))

/-- The owner that destroys a lobby leaves nobody who has it. -/
theorem vacant_of_destroy (hsole : Sole (w.authority id)) {i : Bytes}
    (howned : id ∈ (w.nodes i).lobby.owned)
    (hst : (lobbyProtocol endpoint).step w (.call i (.destroyLobby id)) = some w') :
      w'.Vacant id := by
  have hothers : ∀ p, p ≠ .owner i → w.authority id p = 0 := fun p hp =>
    Classical.byContradiction fun hne => hp (hsole.unique hne (authority_owner_ne_zero.2 howned))
  obtain ⟨_, o, ho, rfl⟩ := Protocol.step_call hst
  obtain rfl : (⟨⟨((w.nodes i).lobby.destroyLobby id).state, (w.nodes i).details⟩, [],
    ((w.nodes i).lobby.destroyLobby id).sends⟩ : Section LobbyNode LobbySend) = o :=
      Option.some.inj ho
  have hdestroy : ∀ n : LobbyNode, id ∈ n.lobby.owned → n.lobby.destroyLobby id = {
      state := { n.lobby with
        known := n.lobby.known.erase id
        memberOf := n.lobby.memberOf.erase id
        owned := n.lobby.owned.erase id }
      sends := [.broadcast (.leave id n.lobby.localPid lmsClosed)] } := fun _ h => if_pos h
  rw [Protocol.post_nil, hdestroy _ howned]
  intro p
  cases p with
  | owner j =>
      rcases eq_or_ne j i with rfl | hj
      · refine Classical.byContradiction fun hne => ?_
        have hmem := authority_owner_ne_zero.1 hne
        simp [World.setNode, World.setOut] at hmem
      · refine Nat.le_zero.1 ((Nat.le_of_eq ?_).trans
          (Nat.le_of_eq (hothers (.owner j) (by simpa using hj))))
        simp [LobbyWorld.authority, World.setNode, World.setOut, hj]
  | outbox j th =>
      show List.countP _ (if j = i ∧ th = .game then _ else w.out j th) = 0
      split
      · rfl
      · exact hothers (.outbox j th) (by simp)
  | link s r => exact hothers (.link s r) (by simp)

/-- Nobody has a lobby that somebody is still to be told is closed. -/
theorem vacant_of_closing (h : Run (lobbyProtocol endpoint).step CreatesUnused LobbyWorld.start w)
    (hclosing : w.Closing id) : w.Vacant id := by
  refine h.invariant' (P := fun w : LobbyWorld => w.Closing id → w.Vacant id) ?_ ?_ hclosing
  · rintro (⟨_, _, _, hx, _⟩ | ⟨_, _, _, hc, _⟩)
    · cases hx
    · cases hc
  · intro u v a hrun ih hok hst hclosing
    rcases closing_of_step hst hclosing with hbefore | ⟨i, rfl, howned⟩
    · refine vacant_step hrun hok hst (ih hbefore) fun i tick o hcreate hid => ?_
      -- the id of a new lobby is unused
      have hunused := (hok.2 i tick o hcreate).2
      rw [hid] at hunused
      exact hunused.2 hbefore
    · exact vacant_of_destroy ((governed_of_run (handsOverOnce_of_run hrun).1).sole id) howned hst

/-- A joined lobby is cached, in every run. -/
theorem cached_of_run {ok : LobbyWorld → LobbyEvent → Prop}
    (h : Run (lobbyProtocol endpoint).step ok LobbyWorld.start w) (i id : Bytes)
    (hm : ((w.nodes i).lobby.view id).member = true) :
    ((w.nodes i).lobby.view id).record.isSome = true := by
  refine LobbyWorld.run_invariant (P := fun n => (n.lobby.view id).member = true →
    (n.lobby.view id).record.isSome = true) h (fun _ => nofun) ?_ i hm
  intro _ _ _ b n _ _ hcached hst
  exact cached_step hcached hst

/-- An announce gets on its way from a node that has the lobby. -/
theorem coming_of_vacant (hk : ∀ i, (w'.nodes i).Keyed)
    (hst : (lobbyProtocol endpoint).step w a = some w') (hvacant : w.Vacant id)
    (hvacant' : w'.Vacant id) {j : Bytes} {d : LobbyDatagram} (hannounces : d.Announces id)
    (hd : Protocol.Coming (lobbyProtocol endpoint) w' j d) :
      Protocol.Coming (lobbyProtocol endpoint) w j d := by
  rcases Protocol.coming_of_step hst hd with hd | ⟨i, o, x, _, ho, hx, hwire⟩
  · exact hd
  rcases LobbyWorld.outcome_of_sectionAt ho with ⟨_, rfl⟩ | ⟨b, q, hb, hq, _, _, hlocked, hlater⟩
  · exact absurd hx (by simp)
  rw [hlocked, hlater] at hx
  obtain ⟨q', hq', hstate, _⟩ := LobbyWorld.section_step hst hb
  cases hq.symm.trans hq'
  have hfrom := LobbyNode.sends_from hq (hx.resolve_left List.not_mem_nil)
  obtain ⟨rfl, hfits⟩ := LobbyWorld.message_of_wire hwire
  obtain ⟨m, hread, hid⟩ := hannounces
  have hsame := LobbyMessage.readAs_of_read hfits hread
  rw [← hstate] at hfrom
  cases hfrom with
  | @announce id' r hr howned =>
      have hrid : r.lobbyId = id := hsame.lobbyId.symm.trans hid
      obtain rfl : id' = id := ((hk i).known id' r hr).1.symm.trans hrid
      rcases howned with howned | howned
      · exact absurd (hvacant (.owner i)) (authority_owner_ne_zero.2 howned)
      · exact absurd (hvacant' (.owner i)) (authority_owner_ne_zero.2 howned)
  | update | joinRequest | leave => cases hsame

/-- The lobby is dead at a node: the node has forgotten it, nobody has it, and no announce of it is
on its way to the node. -/
structure Dead (endpoint : Bytes → Endpoint) (w : LobbyWorld) (j id : Bytes) : Prop where
  forgotten : (w.nodes j).lobby.known.get? id = none ∧ id ∉ (w.nodes j).lobby.memberOf
  vacant : w.Vacant id
  quiet : ∀ d : LobbyDatagram, d.Announces id → ¬ Protocol.Coming (lobbyProtocol endpoint) w j d

/-- It is dead once the node is told that it is closed. -/
theorem dead_of_told (h : Run (lobbyProtocol endpoint).step CreatesUnused LobbyWorld.start w)
    (hok : ClosesLast endpoint w a) (hst : (lobbyProtocol endpoint).step w a = some w')
    {j : Bytes} (htold : ToldClosed w j id a) : Dead endpoint w' j id := by
  have h' := Run.tail a h hok.1 hst
  have hcached := cached_of_run h j id
  have hquiet := hok.2 j id htold
  obtain ⟨s, k, tick, keep, c, rfl, hc, hclose⟩ := htold
  have hvacant := vacant_of_closing h (.inr ⟨s, j, c, List.mem_of_getElem? hc, hclose⟩)
  have hvacant' : w'.Vacant id := vacant_step h hok.1 hst hvacant nofun
  refine ⟨?_, hvacant', fun d hid hd => ?_⟩
  · obtain ⟨m, hread, hclose⟩ := (Option.any_eq_true _ _).1 hclose
    have hb : LobbyWorld.actionAt endpoint w j (.receive s j k tick keep) =
      some (.datagram tick (endpoint s) m) := by
      rw [LobbyWorld.actionAt_receive hc, hread, Option.map_some]
    obtain ⟨o, ho, hstate, _⟩ := LobbyWorld.section_step hst hb
    cases ho
    rw [hstate]
    exact gone_of_closed hclose hcached
  · exact hquiet d hid (coming_of_vacant (LobbyWorld.keyed_of_run h') hst hvacant hvacant' hid hd)

/-- It stays dead until it is revived. -/
theorem dead_step (h : Run (lobbyProtocol endpoint).step CreatesUnused LobbyWorld.start w)
    (hok : CreatesUnused w a) (hst : (lobbyProtocol endpoint).step w a = some w') {j : Bytes}
    (hdead : Dead endpoint w j id) (hno : ¬ Revives w j id a) : Dead endpoint w' j id := by
  have h' := Run.tail a h hok hst
  have hcreate : ∀ i tick o, a = .call i (.createLobby tick o) →
      newLobbyId o.localUserId tick (w.nodes i).lobby.lobbyCounter ≠ id :=
    fun i tick o ha heq => hno (.inl ⟨i, tick, o, ha, heq⟩)
  have hvacant' : w'.Vacant id := vacant_step h hok hst hdead.vacant hcreate
  refine ⟨?_, hvacant', fun d hid hd => hdead.quiet d hid
    (coming_of_vacant (LobbyWorld.keyed_of_run h') hst hdead.vacant hvacant' hid hd)⟩
  rcases LobbyWorld.node_step hst j with ⟨_, heq⟩ | ⟨b, hb, hn⟩
  · rw [heq]
    exact hdead.forgotten
  · refine forgotten_step hdead.forgotten.1 hdead.forgotten.2 ?_ ?_ ?_ hn
    · rintro tick o rfl
      rcases LobbyWorld.actionAt_eq_some hb with ⟨ha, _⟩ | ⟨_, _, _, _, _, _, _, _, _, hdata⟩
      · exact hcreate j tick o ha
      · cases hdata
    · rintro i me d rfl hd hid
      rcases LobbyWorld.actionAt_eq_some hb with ⟨ha, _⟩ | ⟨_, _, _, _, _, _, _, _, _, hdata⟩
      · exact hno (.inr ⟨i, me, d, ha, hd, hid⟩)
      · cases hdata
    · rintro tick source r rfl hid
      rcases LobbyWorld.actionAt_eq_some hb with ⟨_, hcall⟩ | ⟨s, _, _, _, c, m, _, hc, hread,
        hdata⟩
      · cases hcall
      · obtain ⟨_, _, rfl⟩ := LobbyAction.datagram.inj hdata
        exact hdead.quiet _ ⟨r, hread, hid⟩ ⟨s, .inr ⟨c, List.mem_of_getElem? hc, rfl⟩⟩

end

/-- **A destroyed lobby stays dead.** In every run on links that keep the order, in which lobbies
are created by the local user under unused ids, and a node is told that a lobby is closed after the
last announce of it: once a node is told so, the lobby is neither known there nor joined, until a
lobby is created under the id again or the node joins it with a details handle. -/
theorem destroyed_stays_dead {endpoint : Bytes → Endpoint} {l : List LobbyTransition}
    {w : LobbyWorld}
    (h : Trace (lobbyProtocol endpoint).step (ClosesLast endpoint) LobbyWorld.start l w)
    {j id : Bytes} (hclosed : Since (ClosedAt j id) (RevivedAt j id) l) :
    (w.nodes j).lobby.known.get? id = none ∧ id ∉ (w.nodes j).lobby.memberOf := by
  refine (h.invariant (P := fun l w => Since (ClosedAt j id) (RevivedAt j id) l →
    Dead endpoint w j id) (fun hnil => absurd hnil not_since_nil) ?_ hclosed).forgotten
  intro l u v a hl ih hok hst hsince
  have hrun := hl.run.mono fun _ _ h => h.1
  rcases since_snoc.1 hsince with htold | ⟨hsince, hno⟩
  · exact dead_of_told hrun hok hst htold
  · exact dead_step hrun hok.1 hst (ih hsince) hno

/-- The executable form of `CreatesUnused`, without new lobbies. -/
def createsUnusedTest (w : LobbyWorld) : LobbyEvent → Bool
  | .call _ (.createLobby _ _) => false
  | a => Protocol.fifoTest w a

/-- A step that passes the test meets `CreatesUnused`. -/
theorem createsUnused_of_test (w : LobbyWorld) (a : LobbyEvent) (h : createsUnusedTest w a = true) :
    CreatesUnused w a := by
  have hcreate : ∀ i tick o, a ≠ .call i (.createLobby tick o) := by
    rintro i tick o rfl
    cases h
  have hfifo : Protocol.fifoTest w a = true := by
    unfold createsUnusedTest at h
    split at h
    · cases h
    · exact h
  exact ⟨Protocol.fifo_of_test w a hfifo, fun i tick o ha => absurd ha (hcreate i tick o)⟩

/-- The executable form of `ClosesLast`, where nobody is told that a lobby is closed. -/
def closesLastTest (w : LobbyWorld) (a : LobbyEvent) : Bool :=
  createsUnusedTest w a && match a with
    | .receive s r k _ _ => (w.links s r)[k]?.all fun c => match c.message.read with
        | some (.leave _ _ reason) => reason != lmsClosed
        | _ => true
    | _ => true

/-- A step that passes the test meets `ClosesLast`. -/
theorem closesLast_of_test (w : LobbyWorld) (a : LobbyEvent) (h : closesLastTest w a = true) :
    ClosesLast sampleEndpoints w a := by
  obtain ⟨hcreates, hopen⟩ := Bool.and_eq_true_iff.1 h
  refine ⟨createsUnused_of_test w a hcreates, ?_⟩
  rintro j id ⟨s, k, tick, keep, c, rfl, hc, hclose⟩
  have hall := (Option.all_eq_true _ _).1 hopen c hc
  obtain ⟨m, hread, hclose⟩ := (Option.any_eq_true _ _).1 hclose
  rw [hread] at hall
  cases m with
  | announce | update | joinRequest => cases hclose
  | leave j' pid reason =>
      obtain ⟨_, hreason⟩ := (Bool.and_eq_true _ _).mp hclose
      exact absurd (of_decide_eq_true hreason) (by simpa using hall)

/-- The first node creates its lobby under an unused id. -/
theorem sampleCreate_unused : CreatesUnused LobbyWorld.start sampleCreate := by
  refine ⟨trivial, fun i tick o h => ?_⟩
  cases h
  refine ⟨rfl, vacant_start _, ?_⟩
  rintro (⟨_, _, _, hx, _⟩ | ⟨_, _, _, hc, _⟩)
  · cases hx
  · cases hc

/-- The first node destroys its lobby, and tells the second one. -/
def sampleDestroy : List LobbyEvent :=
  [.call (str "a") (.destroyLobby (sampleLobbyId (str "a"))), .send (str "a") .game]

/-- The second node is told. -/
def sampleTold : LobbyEvent := .receive (str "a") (str "b") 0 9 false

/-- The first node creates the lobby, some actions follow, and the second node is told that the
lobby is closed. -/
def closingRun (test : LobbyWorld → LobbyEvent → Bool) (as : List LobbyEvent) :
    Option (LobbyWorld × LobbyWorld × LobbyWorld) :=
  ((lobbyProtocol sampleEndpoints).step LobbyWorld.start sampleCreate).bind fun u =>
    (execIf (lobbyProtocol sampleEndpoints).step test u as).bind fun v =>
      ((lobbyProtocol sampleEndpoints).step v sampleTold).map fun w => (u, v, w)

/-- What the second node gets next tells it that the lobby is closed. -/
def tellsNext (w : LobbyWorld) : Bool :=
  (w.links (str "a") (str "b"))[0]?.any fun c => c.message.closes (sampleLobbyId (str "a"))

/-- Once the second node is told of the closing, its lobby is closed. -/
theorem since_told {l : List LobbyTransition} {v w : LobbyWorld} (h : tellsNext v = true) :
    Since (ClosedAt (str "b") (sampleLobbyId (str "a")))
      (RevivedAt (str "b") (sampleLobbyId (str "a"))) (l ++ [⟨v, sampleTold, w⟩]) := by
  obtain ⟨c, hc, hclose⟩ := (Option.any_eq_true _ _).1 h
  exact .now ⟨str "a", 0, 9, false, c, rfl, hc, hclose⟩

/-- The first node has sent everything, and no announce is on its way to the second one. -/
def quietTest (w : LobbyWorld) : Bool :=
  (w.out (str "a") .game).isEmpty && (w.out (str "a") .receive).isEmpty &&
    (w.links (str "b") (str "b")).isEmpty &&
    (w.links (str "a") (str "b")).all fun c => match c.message.read with
      | some (.announce _) => false
      | _ => true

/-- Where nobody but two nodes acts, no announce is on its way to the second one. -/
theorem quiet_of_test {w : LobbyWorld} (h : quietTest w = true)
    (hsilent : ∀ i, i ≠ str "a" → i ≠ str "b" → Protocol.Silent w i) {d : LobbyDatagram}
    {id : Bytes} (hannounces : d.Announces id) : ¬ Protocol.Coming (lobbyProtocol sampleEndpoints) w
      (str "b") d := by
  simp only [quietTest, Bool.and_eq_true, List.isEmpty_iff, List.all_eq_true] at h
  obtain ⟨⟨⟨hgame, hreceive⟩, hself⟩, hlink⟩ := h
  rintro ⟨s, ⟨hne, th, x, hx, _⟩ | ⟨c, hc, hm⟩⟩
  · rcases eq_or_ne s (str "a") with rfl | ha
    · cases th with
      | game => exact List.not_mem_nil (hgame ▸ hx)
      | receive => exact List.not_mem_nil (hreceive ▸ hx)
    · exact List.not_mem_nil ((hsilent s ha (Ne.symm hne)).1 th ▸ hx)
  · rcases eq_or_ne s (str "a") with rfl | ha
    · have hno := hlink c hc
      obtain ⟨r, hread, _⟩ := hannounces
      rw [hm, hread] at hno
      cases hno
    · rcases eq_or_ne s (str "b") with rfl | hb
      · exact List.not_mem_nil (hself ▸ hc)
      · exact List.not_mem_nil ((hsilent s ha hb).2 (str "b") ▸ hc)

/-- The second node joins the lobby, and the first one destroys it. -/
theorem destroyed_stays_dead_sample :
    ∃ l w, Trace (lobbyProtocol sampleEndpoints).step (ClosesLast sampleEndpoints) LobbyWorld.start
      l w ∧
      Since (ClosedAt (str "b") (sampleLobbyId (str "a")))
        (RevivedAt (str "b") (sampleLobbyId (str "a"))) l ∧
      (w.nodes (str "b")).lobby.known.get? (sampleLobbyId (str "a")) = none ∧
      sampleLobbyId (str "a") ∉ (w.nodes (str "b")).lobby.memberOf := by
  have hrun : (closingRun closesLastTest ((sampleVisit (sampleLobby (str "a"))).tail ++
    sampleDestroy)).map
      (fun x => tellsNext x.2.1 && quietTest x.2.1) = some true := by decide +kernel
  obtain ⟨⟨u, v, w⟩, hrun, htest⟩ := Option.map_eq_some_iff.1 hrun
  obtain ⟨htells, hquiet⟩ := Bool.and_eq_true_iff.1 htest
  obtain ⟨u, hu, hrun⟩ := Option.bind_eq_some_iff.1 hrun
  obtain ⟨v, hv, hrun⟩ := Option.bind_eq_some_iff.1 hrun
  obtain ⟨w, hw, heq⟩ := Option.map_eq_some_iff.1 hrun
  cases heq
  have hsilent : ∀ i, i ≠ str "a" → i ≠ str "b" → Protocol.Silent v i := by
    intro i ha hb
    refine Protocol.silent_of_execIf hv (fun hmem => ?_)
      (Protocol.silent_step hu (fun h => ha (Option.some.inj h).symm) ⟨fun _ => rfl, fun _ => rfl⟩)
    have hactors : ∀ x ∈ ((sampleVisit (sampleLobby (str "a"))).tail ++ sampleDestroy).map
      Protocol.actor, x = some (str "a") ∨ x = some (str "b") := by decide
    rcases hactors _ hmem with h | h
    · exact ha (Option.some.inj h)
    · exact hb (Option.some.inj h)
  have hcreate : ClosesLast sampleEndpoints LobbyWorld.start sampleCreate :=
    ⟨sampleCreate_unused, fun j id ⟨_, _, _, _, _, ha, _⟩ => nomatch ha⟩
  have htold : ClosesLast sampleEndpoints v sampleTold := by
    refine ⟨⟨⟨rfl, rfl⟩, nofun⟩, ?_⟩
    rintro j id ⟨s, k, tick, keep, c, ha, _⟩ d hannounces
    cases ha
    exact quiet_of_test hquiet hsilent hannounces
  have hl := Trace.tail _ (Trace.trans (.tail _ .refl hcreate hu)
    (Trace.of_execIf closesLast_of_test hv)) htold hw
  exact ⟨_, w, hl, since_told htells, destroyed_stays_dead hl (since_told htells)⟩

/-- The first node handles the join of the second one, and destroys the lobby before it broadcasts
the copy. -/
def sampleLateAnnounce : List LobbyEvent :=
  (sampleVisit (sampleLobby (str "a"))).tail.take 5 ++ sampleDestroy ++ [.send (str "a") .receive]

/-- The announce arrives after the news that the lobby is closed. -/
def sampleLast : LobbyEvent := .receive (str "a") (str "b") 0 9 false

/-- Without the condition on the announces this fails: the second node knows the lobby again. -/
theorem not_destroyed_stays_dead :
    ¬ ∀ l w, Trace (lobbyProtocol sampleEndpoints).step CreatesUnused LobbyWorld.start l w →
      ∀ j id, Since (ClosedAt j id) (RevivedAt j id) l →
        (w.nodes j).lobby.known.get? id = none ∧ id ∉ (w.nodes j).lobby.memberOf := by
  intro h
  have hrun : (closingRun createsUnusedTest sampleLateAnnounce).bind (fun x =>
      ((lobbyProtocol sampleEndpoints).step x.2.2 sampleLast).map fun y => (tellsNext x.2.1,
        ((y.nodes (str "b")).lobby.known.get? (sampleLobbyId (str "a"))).isSome)) = some
          (true, true) := by
    decide +kernel
  obtain ⟨⟨u, v, w⟩, hrun, hlast⟩ := Option.bind_eq_some_iff.1 hrun
  obtain ⟨y, hy, htest⟩ := Option.map_eq_some_iff.1 hlast
  obtain ⟨htells, hknown⟩ := Prod.ext_iff.1 htest
  obtain ⟨u, hu, hrun⟩ := Option.bind_eq_some_iff.1 hrun
  obtain ⟨v, hv, hrun⟩ := Option.bind_eq_some_iff.1 hrun
  obtain ⟨w, hw, heq⟩ := Option.map_eq_some_iff.1 hrun
  cases heq
  have hreceive : ∀ w, CreatesUnused w sampleTold := fun _ => ⟨⟨rfl, rfl⟩, nofun⟩
  have hl := Trace.tail _ (Trace.trans (.tail _ .refl sampleCreate_unused hu)
    (Trace.of_execIf createsUnused_of_test hv)) (hreceive v) hw
  have hnone := (h _ y (.tail _ hl (hreceive w) hy) (str "b") (sampleLobbyId (str "a"))
    (.later (since_told htells) ?_)).1
  · rw [hnone] at hknown
    cases hknown
  · rintro (⟨_, _, _, ha, _⟩ | ⟨_, _, _, ha, _⟩)
    · cases ha
    · cases ha

end EOSEmu
