import EOSEmu.Lobby.World

/-!
# Joined and listed

A join is entered in the cached record at once, and the owner learns of it later. `joined_listed`
shows that a node that has joined a lobby is listed by its own record, and never told that it left,
as long as each announce it takes in as a member lists it (`StaysListed`). `not_joined_listed` is
an announce that was on its way when the node joined.
-/

namespace EOSEmu

open Lib

namespace LobbyNode
variable {n : LobbyNode} {a : LobbyAction} {o : LobbyOutcome}

/-- A call that fails changes nothing. -/
theorem state_of_failed (ho : n.outcome a = some o) (hfail : o.result ≠ .success) :
    o.state = n.lobby := by
  cases outcome_does ho with
  | fails | ignores | copies | announces => rfl
  | _ => exact absurd rfl hfail

end LobbyNode

/-! ## Joining and departing -/

/-- A section that completes with `EOS_Success`. -/
def LobbyNode.Succeeds (n : LobbyNode) (b : LobbyAction) : Prop :=
  (n.outcome b).map LobbyOutcome.result = some .success

instance (n : LobbyNode) (b : LobbyAction) : Decidable (n.Succeeds b) :=
  inferInstanceAs (Decidable (_ = _))

/-- The node joins the lobby. -/
def Joins (n : LobbyNode) (id : Bytes) (b : LobbyAction) : Prop :=
  n.Succeeds b ∧ match b with
    | .joinLobby i _ => n.details[i]?.map LobbyRecord.lobbyId = some id
    | .joinLobbyById j _ => j = id
    | _ => False

instance (n : LobbyNode) (id : Bytes) (b : LobbyAction) : Decidable (Joins n id b) :=
  match b with
  | .joinLobby i me => inferInstanceAs (Decidable (n.Succeeds (.joinLobby i me) ∧
      n.details[i]?.map LobbyRecord.lobbyId = some id))
  | .joinLobbyById j me => inferInstanceAs (Decidable (n.Succeeds (.joinLobbyById j me) ∧ j = id))
  | .createLobby _ _ | .updateLobby _ | .destroyLobby _ | .copyDetails _ | .leaveLobby _
      _ | .promoteMember _ _
  | .kickMember _ _ | .periodicAnnounce _ | .datagram _ _ _ => .isFalse And.right

/-- The node leaves the lobby or destroys it, kicks itself, is told by a datagram that it left or
was kicked, or that the lobby is closed. -/
def Parts (n : LobbyNode) (id : Bytes) (b : LobbyAction) : Prop :=
  match b with
  | .leaveLobby j _ | .destroyLobby j => j = id ∧ n.Succeeds b
  | .kickMember j target => j = id ∧ target = n.lobby.localPid ∧ n.Succeeds b
  | .datagram _ _ (.leave j pid reason) => j = id ∧ (pid = n.lobby.localPid ∨ reason = lmsClosed)
  | _ => False

instance (n : LobbyNode) (id : Bytes) (b : LobbyAction) : Decidable (Parts n id b) :=
  match b with
  | .leaveLobby j me => inferInstanceAs (Decidable (j = id ∧ n.Succeeds (.leaveLobby j me)))
  | .destroyLobby j => inferInstanceAs (Decidable (j = id ∧ n.Succeeds (.destroyLobby j)))
  | .kickMember j target => inferInstanceAs (Decidable (j = id ∧ target = n.lobby.localPid ∧
      n.Succeeds (.kickMember j target)))
  | .datagram _ _ (.leave j pid reason) =>
      inferInstanceAs (Decidable (j = id ∧ (pid = n.lobby.localPid ∨ reason = lmsClosed)))
  | .createLobby _ _ | .updateLobby _ | .copyDetails _ | .joinLobby _ _ | .joinLobbyById _
      _ | .promoteMember _ _
  | .periodicAnnounce _ | .datagram _ _ (.announce _) | .datagram _ _ (.update _ _ _ _)
  | .datagram _ _ (.joinRequest _ _) => .isFalse False.elim

/-- A section after which the record of the lobby lists a node that belongs to it: the node joins
or creates it as the local user, and takes in no announce that leaves it out. -/
def StaysListed (n : LobbyNode) (id : Bytes) : LobbyAction → Prop
  | .createLobby tick o => newLobbyId o.localUserId tick n.lobby.lobbyCounter = id →
      o.localUserId = [] ∨ versionInRange o.apiVersion createLobbyApiLatest = false ∨
        o.localUserId = n.lobby.localPid
  | .joinLobby i me => ∀ d ∈ n.details[i]?, d.lobbyId = id →
      me = [] ∨ me = n.lobby.localPid ∨ (n.lobby.joined d).Lists n.lobby.localPid
  | .joinLobbyById j me => j = id → ∀ r ∈ n.lobby.known.get? id,
      me = [] ∨ me = n.lobby.localPid ∨ r.Lists n.lobby.localPid
  | .datagram _ _ (.announce r) => r.lobbyId = id → id ∈ n.lobby.memberOf → id ∉ n.lobby.owned →
      r.Lists n.lobby.localPid
  | _ => True

instance (n : LobbyNode) (id : Bytes) (b : LobbyAction) : Decidable (StaysListed n id b) :=
  match b with
  | .createLobby tick o => inferInstanceAs
    (Decidable (newLobbyId o.localUserId tick n.lobby.lobbyCounter = id →
      o.localUserId = [] ∨ versionInRange o.apiVersion createLobbyApiLatest = false ∨
        o.localUserId = n.lobby.localPid))
  | .joinLobby i me => inferInstanceAs (Decidable (∀ d ∈ n.details[i]?, d.lobbyId = id →
      me = [] ∨ me = n.lobby.localPid ∨ (n.lobby.joined d).Lists n.lobby.localPid))
  | .joinLobbyById j me => inferInstanceAs (Decidable (j = id → ∀ r ∈ n.lobby.known.get? id,
      me = [] ∨ me = n.lobby.localPid ∨ r.Lists n.lobby.localPid))
  | .datagram _ _ (.announce r) => inferInstanceAs
    (Decidable (r.lobbyId = id → id ∈ n.lobby.memberOf →
      id ∉ n.lobby.owned → r.Lists n.lobby.localPid))
  | .updateLobby _ | .destroyLobby _ | .copyDetails _ | .leaveLobby _ _ | .promoteMember _
      _ | .kickMember _ _
  | .periodicAnnounce _ | .datagram _ _ (.update _ _ _ _) | .datagram _ _ (.joinRequest _ _)
  | .datagram _ _ (.leave _ _ _) => .isTrue trivial

/-- The node belongs to the lobby, and its record lists it. -/
def Listed (n : LobbyNode) (id : Bytes) : Prop :=
  id ∈ n.lobby.memberOf ∧ ∃ r, n.lobby.known.get? id = some r ∧ r.Lists n.lobby.localPid

section
variable {n t : LobbyNode} {a : LobbyAction} {id : Bytes}

/-- A node that joins is listed. -/
theorem listed_of_joins (hok : StaysListed n id a) (hj : Joins n id a) (h : n.step a = some t) :
    Listed t id := by
  obtain ⟨hsucceeds, hid⟩ := hj
  obtain ⟨o, ho, hsuccess⟩ := Option.map_eq_some_iff.1 hsucceeds
  have ht : t = { lobby := o.state, details := n.held a } := by
    rw [LobbyNode.step, ho] at h
    exact (Option.some.inj h).symm
  subst ht
  cases a with
  | joinLobby i me =>
      obtain ⟨d, hd, rfl⟩ := Option.map_eq_some_iff.1 ho
      have hme : me ≠ [] := by
        rintro rfl
        cases hsuccess
      simp only [hd, Option.map_some, Option.some_inj] at hid
      subst hid
      have hlists := (hok d hd rfl).resolve_left hme
      rw [Listed, LobbyInterface.joinLobby_state hme]
      refine ⟨Finset.mem_insert_self _ _, _, (Dict.get?_set _ _ _ _).trans (if_pos rfl), ?_⟩
      rw [LobbyRecord.lists_withMember]
      exact hlists.symm.imp_right Eq.symm
  | joinLobbyById j me =>
      subst hid
      cases ho
      have hme : me ≠ [] := by
        rintro rfl
        cases hsuccess
      cases hr : n.lobby.known.get? j with
      | none =>
          simp only [LobbyInterface.joinLobbyById, if_neg hme, hr] at hsuccess
          cases hsuccess
      | some r =>
          have hlists := (hok rfl r hr).resolve_left hme
          rw [Listed, LobbyInterface.joinLobbyById_state hme hr]
          refine ⟨Finset.mem_insert_self _ _, _, (Dict.get?_set _ _ _ _).trans (if_pos rfl), ?_⟩
          rw [LobbyRecord.lists_withMember]
          exact hlists.symm.imp_right Eq.symm
  | _ => exact hid.elim

/-- Whether a node counts itself in can be read off its view of the lobby. -/
theorem listed_iff_view {n : LobbyNode} : Listed n id ↔ (n.lobby.view id).member = true ∧
    ∃ r, (n.lobby.view id).record = some r ∧ r.Lists n.lobby.localPid := by
  rw [LobbyInterface.view_member]
  exact Iff.rfl

/-- A node that does not part from the lobby stays listed. -/
theorem listed_step (hk : n.Keyed) (hok : StaysListed n id a) (hnot : ¬ Parts n id a)
    (h : n.step a = some t) (ih : Listed n id) : Listed t id := by
  obtain ⟨o, ho, ht⟩ := Option.map_eq_some_iff.1 h
  by_cases hsuccess : o.result = .success
  · have hs : n.Succeeds a := by rw [LobbyNode.Succeeds, ho, Option.map_some, hsuccess]
    have hv := LobbyNode.step_view h id
    have howned : (n.lobby.view id).owner = true ↔ id ∈ n.lobby.owned := LobbyInterface.view_owner
    have hmember : (n.lobby.view id).member = true ↔ id ∈ n.lobby.memberOf :=
      LobbyInterface.view_member
    have hrecord : (n.lobby.view id).record = n.lobby.known.get? id := rfl
    rw [listed_iff_view, LobbyNode.step_localPid h]
    rw [listed_iff_view] at ih
    clear ht
    generalize n.lobby.view id = v at *
    generalize t.lobby.view id = w at *
    obtain ⟨hm, r, hr, hlists⟩ := ih
    cases hv with
    | keep => exact ⟨hm, r, hr, hlists⟩
    | @create tick o' hpid hversion hid =>
        refine ⟨rfl, _, rfl, ?_⟩
        have hlocal : o'.localUserId = n.lobby.localPid := by
          rcases hok hid.symm with h' | h' | h'
          · exact absurd h' hpid
          · rw [hversion] at h'
            cases h'
          · exact h'
        rw [← hlocal]
        exact List.mem_singleton_self _
    | ownerUpdate _ hrec _ =>
        cases hr.symm.trans hrec
        refine ⟨hm, _, rfl, ?_⟩
        rw [LobbyRecord.lists_bump, LobbyRecord.lists_applyModification]
        exact hlists
    | memberUpdate _ hrec _ _ =>
        cases hr.symm.trans hrec
        refine ⟨hm, _, rfl, ?_⟩
        rw [LobbyRecord.lists_withAttrs]
        exact hlists
    | destroy ho => exact absurd ⟨rfl, hs⟩ hnot
    | migrate | leave => exact absurd ⟨rfl, hs⟩ hnot
    | join hd hid _ =>
        subst hid
        refine ⟨rfl, _, rfl, ?_⟩
        rw [LobbyRecord.lists_withMember, hk.joined (hrecord.symm.trans hr)]
        exact .inl hlists
    | joinById hrec _ =>
        cases hr.symm.trans hrec
        refine ⟨rfl, _, rfl, ?_⟩
        rw [LobbyRecord.lists_withMember]
        exact .inl hlists
    | promote _ hrec _ _ =>
        cases hr.symm.trans hrec
        exact ⟨hm, _, rfl, hlists⟩
    | kick _ hrec _ =>
        cases hr.symm.trans hrec
        refine ⟨hm, _, rfl, ?_⟩
        rw [LobbyRecord.lists_bump, LobbyRecord.lists_eraseMember_of_ne]
        · exact hlists
        · rintro rfl
          exact hnot ⟨rfl, rfl, hs⟩
    | announce hid _ hnotowner =>
        subst hid
        refine ⟨hm, _, rfl, ?_⟩
        refine hok rfl (hmember.1 hm) fun ho => ?_
        rw [howned.2 ho] at hnotowner
        cases hnotowner
    | update hrec _ _ =>
        cases hr.symm.trans hrec
        refine ⟨hm, _, rfl, ?_⟩
        rw [LobbyRecord.lists_bump, LobbyRecord.lists_withAttrs]
        exact hlists
    | joinRequest hrec _ _ _ =>
        cases hr.symm.trans hrec
        refine ⟨hm, _, rfl, ?_⟩
        rw [LobbyRecord.lists_bump, LobbyRecord.lists_addMember]
        exact .inl hlists
    | closed => exact absurd ⟨rfl, .inr rfl⟩ hnot
    | @left tick source pid reason q hrec _ =>
        cases hr.symm.trans hrec
        have hpid : pid ≠ n.lobby.localPid := fun hpid => hnot ⟨rfl, .inl hpid⟩
        refine ⟨?_, _, rfl, ?_⟩
        · simp [hm, hpid]
        · have hstays := (LobbyRecord.lists_eraseMember_of_ne (r := r) (Ne.symm hpid)).2 hlists
          split
          · exact hstays
          · exact hstays
  · have hsame := LobbyNode.state_of_failed ho hsuccess
    subst ht
    rw [Listed, hsame]
    exact ih

/-- The announce of a record that lists the user does not tell that it left. -/
theorem not_left_of_lists {old fresh : LobbyRecord} {pid : Bytes}
    (hl : fresh.lobbyId = id → fresh.Lists pid) :
    .memberStatus id pid lmsLeft ∉ LobbyInterface.announceNotes old fresh := by
  intro hx
  simp only [LobbyInterface.announceNotes, List.mem_append, List.mem_map, List.mem_filter,
    List.mem_ite_nil_right,
    List.mem_singleton, reduceCtorEq, and_false, exists_false, LobbyNote.memberStatus.injEq,
      false_or, or_false] at hx
  rcases hx with (⟨_, _, _, _, hstatus⟩ | ⟨m, ⟨_, hnone⟩, hid, rfl, _⟩) | ⟨_, _, _, hstatus⟩
  · exact absurd hstatus (by decide)
  · have hsome := LobbyRecord.findMember_isSome.2 (hl hid)
    rw [Option.isSome_iff_ne_none] at hsome
    exact hsome (Option.isNone_iff_eq_none.1 hnone)
  · exact absurd hstatus (by decide)

/-- A node that is listed and does not part from the lobby is not told that it left. -/
theorem not_told_left (hok : StaysListed n id a) (hnot : ¬ Parts n id a) {o : LobbyOutcome}
    (ho : n.outcome a = some o) (hl : Listed n id) :
      .memberStatus id n.lobby.localPid lmsLeft ∉ o.notes := by
  intro hx
  by_cases ha : ∀ tick source m, a ≠ .datagram tick source m
  · rw [LobbyNode.notes_of_call ho ha] at hx
    cases hx
  · push Not at ha
    obtain ⟨tick, source, m, rfl⟩ := ha
    cases ho
    cases m with
    | announce fresh =>
        simp only [LobbyInterface.onDatagram, LobbyInterface.onAnnounce] at hx
        split at hx
        · cases hx
        · split at hx
          · cases hx
          · next hnotowned =>
              simp only at hx
              split at hx
              · split at hx
                · refine not_left_of_lists (fun hid => ?_) hx
                  subst hid
                  exact hok rfl hl.1 hnotowned
                · cases hx
              · cases hx
    | update j pid adds removes =>
        simp only [LobbyInterface.onDatagram, LobbyInterface.onUpdate] at hx
        split at hx
        · cases hx
        · split at hx
          · cases List.mem_singleton.1 hx
          · cases hx
    | joinRequest j pid =>
        simp only [LobbyInterface.onDatagram, LobbyInterface.onJoinRequest] at hx
        split at hx
        · cases hx
        · split at hx
          · have hstatus := (LobbyNote.memberStatus.inj (List.mem_singleton.1 hx)).2.2
            exact absurd hstatus (by decide)
          · cases hx
    | leave j pid reason =>
        have hnotes : LobbyNote.memberStatus id n.lobby.localPid lmsLeft ∈
          [LobbyNote.memberStatus j pid reason] := by
          simp only [LobbyInterface.onDatagram, LobbyInterface.onLeave] at hx
          split at hx
          · cases hx
          · split at hx <;> (simp only at hx; split at hx) <;> first | exact hx | cases hx
        obtain ⟨hid, hpid, -⟩ := LobbyNote.memberStatus.inj (List.mem_singleton.1 hnotes)
        exact hnot ⟨hid.symm, .inl hpid.symm⟩

end

/-! ## The network -/

section
variable (endpoint : Bytes → Endpoint) (i id : Bytes)

/-- The node joins the lobby in the transition. -/
def JoinsAt (tr : LobbyTransition) : Prop :=
  ∃ b ∈ LobbyWorld.actionAt endpoint tr.pre i tr.action, Joins (tr.pre.nodes i) id b

instance : DecidablePred (JoinsAt endpoint i id) := fun _ => inferInstanceAs
    (Decidable (∃ b ∈ _, _))

/-- The node parts from the lobby in the transition. -/
def PartsAt (tr : LobbyTransition) : Prop :=
  ∃ b ∈ LobbyWorld.actionAt endpoint tr.pre i tr.action, Parts (tr.pre.nodes i) id b

instance : DecidablePred (PartsAt endpoint i id) := fun _ => inferInstanceAs
    (Decidable (∃ b ∈ _, _))

/-- What the node does in the step leaves it listed. -/
def EachStaysListed (w : LobbyWorld) (a : LobbyEvent) : Prop :=
  ∀ b ∈ LobbyWorld.actionAt endpoint w i a, StaysListed (w.nodes i) id b

instance (w : LobbyWorld) (a : LobbyEvent) : Decidable (EachStaysListed endpoint i id w a) :=
  inferInstanceAs (Decidable (∀ b ∈ _, _))

/-- The node is listed by its own record from when it joined the lobby until it parts from it, and
its game is not told meanwhile that it left. -/
structure JoinedListed (l : List LobbyTransition) (w : LobbyWorld) : Prop where
  listed : Since (JoinsAt endpoint i id) (PartsAt endpoint i id) l → Listed (w.nodes i) id
  not_told : ∀ before tr after b o, l = before ++ tr :: after →
    Since (JoinsAt endpoint i id) (PartsAt endpoint i id) before → ¬ PartsAt endpoint i id tr →
    LobbyWorld.actionAt endpoint tr.pre i tr.action = some b →
      (tr.pre.nodes i).outcome b = some o →
    .memberStatus id i lmsLeft ∉ o.notes

end

section
variable {endpoint : Bytes → Endpoint} {i id : Bytes} {l : List LobbyTransition} {w : LobbyWorld}

/-- A node that joined a lobby and has not parted from it is listed by its record. -/
theorem listed_of_since
    (h : Trace (lobbyProtocol endpoint).step (EachStaysListed endpoint i id) LobbyWorld.start l w)
    (hsince : Since (JoinsAt endpoint i id) (PartsAt endpoint i id) l) : Listed (w.nodes i) id := by
  refine h.invariant (P := fun l w => Since (JoinsAt endpoint i id) (PartsAt endpoint i id) l →
    Listed (w.nodes i) id) (fun hnil => absurd hnil not_since_nil) ?_ hsince
  intro l u v a hl ih hok hst hsince
  rcases since_snoc.1 hsince with ⟨b, hb, hjoins⟩ | ⟨hsince, hnot⟩
  · rcases LobbyWorld.node_step hst i with ⟨hnone, _⟩ | ⟨b', hb', hn⟩
    · rw [hnone] at hb
      cases hb
    · cases hb'.symm.trans hb
      exact listed_of_joins (hok b hb) hjoins hn
  · rcases LobbyWorld.node_step hst i with ⟨_, heq⟩ | ⟨b, hb, hn⟩
    · rw [heq]
      exact ih hsince
    · exact listed_step (LobbyWorld.keyed_of_run hl.run i) (hok b hb)
        (fun hparts => hnot ⟨b, hb, hparts⟩) hn (ih hsince)

/-- Along a run that leaves the node listed, it is listed as long as it belongs to the lobby it
joined. -/
theorem joined_listed
    (h : Trace (lobbyProtocol endpoint).step (EachStaysListed endpoint i id) LobbyWorld.start l w) :
    JoinedListed endpoint i id l w := by
  refine ⟨listed_of_since h, ?_⟩
  intro before tr after b o heq hsince hnot hb ho
  obtain ⟨hbefore, hok, -⟩ := h.forall_mem heq
  have hpid := LobbyWorld.localPid_of_run hbefore.run i
  have hnone := not_told_left (hok b hb) (fun hparts => hnot ⟨b, hb, hparts⟩) ho
    (listed_of_since hbefore hsince)
  rwa [hpid] at hnone

end

/-- The second node visits the first one's lobby, and its record lists it. -/
theorem joined_listed_sample : ∃ l w, Trace (lobbyProtocol sampleEndpoints).step
    (EachStaysListed sampleEndpoints (str "b") (sampleLobbyId (str "a"))) LobbyWorld.start l w ∧
      Listed (w.nodes (str "b")) (sampleLobbyId (str "a")) := by
  have hrun : (execIf (lobbyProtocol sampleEndpoints).step
      (fun w a => decide (EachStaysListed sampleEndpoints (str "b") (sampleLobbyId (str "a")) w a))
        LobbyWorld.start
      (sampleVisit (sampleLobby (str "a")))).isSome = true := by
    decide +kernel
  obtain ⟨w, hw⟩ := Option.isSome_iff_exists.1 hrun
  have hl := Trace.of_execIf (fun _ _ h => of_decide_eq_true h) hw
  have hsince : Since (JoinsAt sampleEndpoints (str "b") (sampleLobbyId (str "a")))
      (PartsAt sampleEndpoints (str "b") (sampleLobbyId (str "a")))
      (transitions (lobbyProtocol sampleEndpoints).step LobbyWorld.start
        (sampleVisit (sampleLobby (str "a")))) := by
    decide +kernel
  exact ⟨_, w, hl, (joined_listed hl).listed hsince⟩

/-- A periodic announce is on its way when the second node joins. -/
def sampleStale : List LobbyEvent :=
  sampleMeeting ++
  [.call (str "a") (.periodicAnnounce [sampleLobbyId (str "a")]), .send (str "a") .game,
    .call (str "b") (.joinLobbyById (sampleLobbyId (str "a")) (str "b")),
      .receive (str "a") (str "b") 0 8 false]

/-- The announce takes the member that has just joined out of its own record. -/
theorem not_joined_listed : ¬ ∀ i id l w,
    Trace (lobbyProtocol sampleEndpoints).step Protocol.Fifo LobbyWorld.start l w →
      JoinedListed sampleEndpoints i id l w := by
  intro hall
  have hrun :
    ((execIf (lobbyProtocol sampleEndpoints).step Protocol.fifoTest LobbyWorld.start
    sampleStale).any fun w => ((w.nodes (str "b")).lobby.known.get? (sampleLobbyId (str "a"))).any
        fun r => !decide (r.Lists (w.nodes (str "b")).lobby.localPid)) = true := by
    decide +kernel
  obtain ⟨w, hw, hrecord⟩ := (Option.any_eq_true _ _).1 hrun
  obtain ⟨r, hr, hnot⟩ := (Option.any_eq_true _ _).1 hrecord
  have hsince : Since (JoinsAt sampleEndpoints (str "b") (sampleLobbyId (str "a")))
      (PartsAt sampleEndpoints (str "b") (sampleLobbyId (str "a")))
      (transitions (lobbyProtocol sampleEndpoints).step LobbyWorld.start sampleStale) := by
    decide +kernel
  obtain ⟨_, r', hr', hlists⟩ :=
    (hall (str "b") (sampleLobbyId (str "a")) _ w
      (Trace.of_execIf Protocol.fifo_of_test hw)).listed hsince
  cases hr.symm.trans hr'
  rw [Bool.not_eq_true', decide_eq_false_iff_not] at hnot
  exact hnot hlists

end EOSEmu
