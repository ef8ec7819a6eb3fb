import EOSEmu.Lobby.World

/-!
# A lobby keeps an owner

An owner that leaves hands its lobby over by an announce that names the next member, and the node
that is named takes the lobby over when it gets the announce. `owned_after_leave` shows that some
member owns the lobby once everything about it is delivered, as long as each owner that gives the
lobby up names a node that is still there (`KeepsOwner`). Without host migration an owner just
leaves: `not_owned_after_leave`.
-/

namespace EOSEmu

open Lib

/-- The node is in the lobby and owns it. -/
def LobbyNode.Leads (n : LobbyNode) (id : Bytes) : Prop :=
  id ∈ n.lobby.memberOf ∧ id ∈ n.lobby.owned

instance (n : LobbyNode) (id : Bytes) : Decidable (n.Leads id) :=
  inferInstanceAs (Decidable (_ ∧ _))

/-- The record with which `LeaveLobby` hands the lobby over. -/
def LobbyRecord.reassigned (r : LobbyRecord) (me : ProductUserId) : Option LobbyRecord :=
  (r.eraseMember me).members.head?.map fun next =>
    { r.eraseMember me with ownerProductId := next.productId }.bump

section
variable (present : Finset Bytes)

/-- The record names another node of the network the owner, and its announce fits into a datagram
and is read. -/
def HandsTo (n : LobbyNode) (r : LobbyRecord) : Prop :=
  r.ownerProductId ∈ present ∧ r.ownerProductId ≠ n.lobby.localPid ∧
    (LobbyMessage.announce r).Arrives

instance (n : LobbyNode) (r : LobbyRecord) : Decidable (HandsTo present n r) :=
  inferInstanceAs (Decidable (_ ∧ _))

/-- A section that does not leave the lobby without an owner: an owner that leaves allows host
migration and has a member to hand over to, an owner that promotes a member hands over to it, no
owner destroys the lobby or is told that it is closed or that it left, and an announce that names
its receiver the owner finds it in the lobby. -/
def KeepsLead (n : LobbyNode) (id : Bytes) : LobbyAction → Prop
  | .leaveLobby j me => j = id → n.Leads id → me ≠ [] → ∀ r ∈ n.lobby.known.get? id,
      r.bAllowHostMigration ≠ 0 ∧ ∃ r' ∈ r.reassigned me, HandsTo present n r'
  | .promoteMember j target => j = id → n.Leads id → target ≠ [] → ∀ r ∈ n.lobby.known.get? id,
      (r.findMember target).isSome = true → HandsTo present n
        { r with ownerProductId := target }.bump
  | .destroyLobby j => j = id → id ∉ n.lobby.owned
  | .datagram _ _ (.announce r) => r.lobbyId = id → r.ownerProductId = n.lobby.localPid →
    id ∈ n.lobby.memberOf
  | .datagram _ _ (.leave j pid reason) => j = id → n.Leads id → reason ≠ lmsClosed ∧
    pid ≠ n.lobby.localPid
  | _ => True

instance (n : LobbyNode) (id : Bytes) : ∀ b, Decidable (KeepsLead present n id b)
  | .leaveLobby _ _ => inferInstanceAs (Decidable (_ → _ → _ → ∀ r ∈ _, _ ∧ ∃ r' ∈ _, _))
  | .promoteMember _ _ => inferInstanceAs (Decidable (_ → _ → _ → ∀ r ∈ _, _ → _))
  | .destroyLobby _ => inferInstanceAs (Decidable (_ → _))
  | .datagram _ _ (.announce _) => inferInstanceAs (Decidable (_ → _ → _))
  | .datagram _ _ (.leave _ _ _) => inferInstanceAs (Decidable (_ → _ → _ ∧ _))
  | .datagram _ _ (.update _ _ _ _) | .datagram _ _ (.joinRequest _ _) | .createLobby _
      _ | .updateLobby _
  | .copyDetails _ | .joinLobby _ _ | .joinLobbyById _ _ | .kickMember _ _ | .periodicAnnounce _ =>
    .isTrue trivial

end

namespace LobbyNode
variable {present : Finset Bytes} {n : LobbyNode} {id : Bytes} {b : LobbyAction} {o : LobbyOutcome}

/-- The hand-over of an owner that leaves. -/
theorem leave_announces {me : ProductUserId} {r r' : LobbyRecord} (hl : n.Leads id)
    (hme : me ≠ []) (hr : n.lobby.known.get? id = some r) (hmig : r.bAllowHostMigration ≠ 0)
    (hr' : r.reassigned me = some r') :
    LobbyInterface.broadcastAnnounce r' ∈ (n.lobby.leaveLobby id me).sends := by
  obtain ⟨next, hnext, rfl⟩ := Option.map_eq_some_iff.1 hr'
  obtain ⟨rest, hmems⟩ := List.head?_eq_some_iff.1 hnext
  have hmig' : (r.eraseMember me).bAllowHostMigration ≠ 0 := hmig
  simp only [LobbyInterface.leaveLobby, if_neg hme, hr, if_pos hl.1, hmems,
    if_pos (And.intro hl.2 hmig')]
  exact List.mem_cons_of_mem _ (List.mem_singleton_self _)

/-- The hand-over of an owner that promotes a member. -/
theorem promote_announces {target : ProductUserId} {r : LobbyRecord} (hl : n.Leads id)
    (htarget : target ≠ []) (hr : n.lobby.known.get? id = some r)
    (hmem : (r.findMember target).isSome = true) :
    LobbyInterface.broadcastAnnounce { r with ownerProductId := target }.bump ∈
      (n.lobby.promoteMember id target).sends := by
  simp only [LobbyInterface.promoteMember, if_neg htarget, hr, if_pos (And.intro hl.2 hmem)]
  exact List.mem_singleton_self _

/-- An owner that leaves hands the lobby over. -/
theorem hands_of_leave {me : ProductUserId} (hk : n.Keyed) (hl : n.Leads id)
    (hok : KeepsLead present n id (.leaveLobby id me))
    (ho : n.outcome (.leaveLobby id me) = some o) :
    (id ∈ o.state.memberOf ∧ id ∈ o.state.owned) ∨
      ∃ r, r.lobbyId = id ∧ HandsTo present n r ∧ LobbyInterface.broadcastAnnounce r ∈
        o.sends := by
  cases ho
  by_cases hme : me = []
  · refine .inl ?_
    rw [LobbyInterface.leaveLobby, if_pos hme]
    exact hl
  · cases hr : n.lobby.known.get? id with
    | none =>
        refine .inl ?_
        rw [LobbyInterface.leaveLobby, if_neg hme, hr]
        exact hl
    | some r =>
        obtain ⟨hmig, r', hr', hands⟩ := hok rfl hl hme r hr
        refine .inr ⟨r', ?_, hands, leave_announces hl hme hr hmig hr'⟩
        obtain ⟨next, _, rfl⟩ := Option.map_eq_some_iff.1 hr'
        exact (hk.known id r hr).1

/-- An owner stays one, or announces the node it hands the lobby over to. -/
theorem leads_or_hands (hk : n.Keyed) (hl : n.Leads id) (hok : KeepsLead present n id b)
    (ho : n.outcome b = some o) : (id ∈ o.state.memberOf ∧ id ∈ o.state.owned) ∨
      ∃ r, r.lobbyId = id ∧ HandsTo present n r ∧ LobbyInterface.broadcastAnnounce r ∈
        o.sends := by
  by_cases hleave : ∃ me, b = .leaveLobby id me
  · obtain ⟨me, rfl⟩ := hleave
    exact hands_of_leave hk hl hok ho
  have hst : n.step b = some { lobby := o.state, details := n.held b } := by rw [step, ho]; rfl
  have hv := step_view hst id
  have hview : ∀ s : LobbyInterface, (id ∈ s.memberOf ∧ id ∈ s.owned) ↔
      ((s.view id).member = true ∧ (s.view id).owner = true) := by
    intro s
    rw [LobbyInterface.view_member, LobbyInterface.view_owner]
  have hbefore := (hview n.lobby).1 hl
  have hrecord : (n.lobby.view id).record = n.lobby.known.get? id := rfl
  rw [hview]
  generalize n.lobby.view id = v at hv hbefore hrecord
  change ViewChange n id v b (o.state.view id) at hv
  generalize o.state.view id = w at hv
  obtain ⟨hm, hown⟩ := hbefore
  cases hv with
  | keep | ownerUpdate | kick | update | joinRequest => exact .inl ⟨hm, hown⟩
  | create => exact .inl ⟨rfl, rfl⟩
  | join | joinById => exact .inl ⟨rfl, hown⟩
  | memberUpdate _ _ _ hnot | announce _ _ hnot =>
      rw [hown] at hnot
      cases hnot
  | destroy => exact absurd hl.2 (hok rfl)
  | migrate | leave => exact absurd ⟨_, rfl⟩ hleave
  | promote htarget hr _ hmem =>
      rw [hrecord] at hr
      cases ho
      have hands := hok rfl hl htarget _ hr hmem
      have hsend := promote_announces hl htarget hr hmem
      refine .inr ⟨_, ?_, hands, hsend⟩
      exact (hk.known id _ hr).1
  | closed => exact absurd rfl (hok rfl hl).1
  | left _ _ =>
      refine .inl ⟨?_, hown⟩
      rw [hm, decide_eq_true (hok rfl hl).2]
      rfl

/-- The node that an announce names takes the lobby over, or owns it already. -/
theorem leads_of_named {tick : UInt64} {source : Endpoint} {r : LobbyRecord}
    (hid : r.lobbyId ≠ []) (hm : r.lobbyId ∈ n.lobby.memberOf)
    (hnamed : r.ownerProductId = n.lobby.localPid) :
    r.lobbyId ∈ (n.lobby.onAnnounce tick source r).state.memberOf ∧
      r.lobbyId ∈ (n.lobby.onAnnounce tick source r).state.owned := by
  by_cases hown : r.lobbyId ∈ n.lobby.owned
  · rw [LobbyInterface.onAnnounce, if_neg hid, if_pos hown]
    exact ⟨hm, hown⟩
  · rw [LobbyInterface.onAnnounce, if_neg hid, if_neg hown]
    refine ⟨hm, ?_⟩
    simp only [hm, hnamed, and_self, if_true]
    exact Finset.mem_insert_self _ _

end LobbyNode

/-! ## The network -/

section
variable {endpoint : Bytes → Endpoint} {present : Finset Bytes} {w w' : LobbyWorld} {a : LobbyEvent}
  {id : Bytes}

/-- A step of the nodes present that loses no datagram, and whose section keeps the lobby led,
unless another node leads it. -/
structure KeepsOwner (endpoint : Bytes → Endpoint) (present : Finset Bytes) (id : Bytes)
    (w : LobbyWorld) (a : LobbyEvent) : Prop where
  acts : ∀ i, Protocol.actor a = some i → i ∈ present
  lossless : ∀ s r k, a ≠ .lose s r k
  keeps : ∀ i b, LobbyWorld.actionAt endpoint w i a = some b →
    (∃ k, k ≠ i ∧ (w.nodes k).Leads id) ∨ KeepsLead present (w.nodes i) id b

/-- An announce that names another node the owner is on its way to that node, which will read
it. -/
def HandedOver (present : Finset Bytes) (w : LobbyWorld) (id : Bytes) : Prop :=
  ∃ s ∈ present, ∃ r : LobbyRecord, r.lobbyId = id ∧ r.ownerProductId ∈ present ∧
    (LobbyMessage.announce r).Arrives ∧ LobbyWorld.Heading w s r.ownerProductId (.announce r)

/-- Everything about the lobby is delivered among the nodes present. -/
def AllDelivered (present : Finset Bytes) (w : LobbyWorld) (id : Bytes) : Prop :=
  ∀ s ∈ present, (∀ th, ∀ x ∈ w.out s th, x.message.lobbyId ≠ id) ∧
    ∀ r ∈ present, ∀ c ∈ w.links s r, ∀ m ∈ c.message.read, m.lobbyId ≠ id

instance : Decidable (AllDelivered present w id) :=
  decidable_of_iff (∀ s ∈ present, ((∀ x ∈ w.out s .game, x.message.lobbyId ≠ id) ∧
      ∀ x ∈ w.out s .receive, x.message.lobbyId ≠ id) ∧
      ∀ r ∈ present, ∀ c ∈ w.links s r, ∀ m ∈ c.message.read, m.lobbyId ≠ id)
    ⟨fun h s hs => ⟨fun th => match th with | .game => (h s hs).1.1 | .receive => (h s hs).1.2,
      (h s hs).2⟩, fun h s hs => ⟨⟨(h s hs).1 .game, (h s hs).1 .receive⟩, (h s hs).2⟩⟩

/-- A step keeps the lobby led or handed over. -/
theorem led_step (hpid : ∀ i, (w.nodes i).lobby.localPid = i) (hk : ∀ i, (w.nodes i).Keyed)
    (hid : id ≠ []) (hok : KeepsOwner endpoint present id w a)
    (hst : (lobbyProtocol endpoint).step w a = some w')
    (h : (∃ k, (w.nodes k).Leads id) ∨ HandedOver present w id) :
    (∃ k, (w'.nodes k).Leads id) ∨ HandedOver present w' id := by
  -- a node that leads and does not act still leads
  have hother : ∀ i b k, LobbyWorld.actionAt endpoint w i a = some b → k ≠ i →
    (w.nodes k).Leads id → (w'.nodes k).Leads id := by
    intro i b k hb hne hl
    rcases LobbyWorld.node_step hst k with ⟨_, heq⟩ | ⟨b', hb', _⟩
    · rw [heq]
      exact hl
    · exact absurd (LobbyWorld.actionAt_inj hb' hb) hne
  rcases h with ⟨k, hl⟩ | ⟨s, hs, r, rfl, hr, harrives, hheading⟩
  · rcases LobbyWorld.node_step hst k with ⟨_, heq⟩ | ⟨b, hb, _⟩
    · exact .inl ⟨k, heq ▸ hl⟩
    · rcases hok.keeps k b hb with ⟨j, hj, hlj⟩ | hkeeps
      · exact .inl ⟨j, hother k b j hb hj hlj⟩
      · obtain ⟨o, ho, hlobby, th, hout⟩ := LobbyWorld.section_step hst hb
        rcases LobbyNode.leads_or_hands (hk k) hl hkeeps
          ho with hstays | ⟨r, hrid, ⟨hpresent, hne, harrives⟩, hsend⟩
        · exact .inl ⟨k, by rwa [LobbyNode.Leads, hlobby]⟩
        · rw [hpid] at hne
          exact .inr ⟨k, hok.acts k (LobbyWorld.actor_of_actionAt hb), r, hrid, hpresent, harrives,
            hne, harrives.1, .inl ⟨th, hout ▸ hsend⟩⟩
  · rcases LobbyWorld.heading_step hst hheading with hstays | ⟨k, hlost⟩ | ⟨tick, hb⟩
    · exact .inr ⟨s, hs, r, rfl, hr, harrives, hstays⟩
    · exact absurd hlost (hok.lossless _ _ _)
    · -- the node that is named gets the announce
      obtain ⟨q, hread, hfront⟩ := harrives.announce
      rw [hread, Option.map_some] at hb
      rcases hok.keeps _ _ hb with ⟨j, hj, hlj⟩ | hkeeps
      · exact .inl ⟨j, hother _ _ j hb hj hlj⟩
      · have hnamed : q.ownerProductId = (w.nodes r.ownerProductId).lobby.localPid :=
          hfront.ownerProductId.trans (hpid _).symm
        obtain ⟨o, ho, hlobby, -⟩ := LobbyWorld.section_step hst hb
        cases ho
        have hmember := hkeeps hfront.lobbyId hnamed
        rw [← hfront.lobbyId] at hid hmember
        refine .inl ⟨r.ownerProductId, ?_⟩
        rw [LobbyNode.Leads, hlobby, ← hfront.lobbyId]
        exact LobbyNode.leads_of_named hid hmember hnamed

/-- Then nothing is handed over any more. -/
theorem not_handedOver (h : AllDelivered present w id) : ¬ HandedOver present w id := by
  rintro ⟨s, hs, r, hrid, hr, harrives, -, -, ⟨th, hx⟩ | ⟨c, hc, hmsg⟩⟩
  · exact (h s hs).1 th _ hx hrid
  · obtain ⟨q, hread, hfront⟩ := harrives.announce
    rw [← hmsg] at hread
    exact (h s hs).2 _ hr c hc _ hread (hfront.lobbyId.trans hrid)

/-- The node owns the lobby and belongs to it, its record is `r`, and another node present is in
the lobby. -/
structure OwnerLeaves (present : Finset Bytes) (w : LobbyWorld) (i id : Bytes)
    (me : ProductUserId) (r : LobbyRecord) : Prop where
  user : me ≠ []
  leads : (w.nodes i).Leads id
  record : (w.nodes i).lobby.known.get? id = some r
  remains : ∃ j ∈ present, j ≠ i ∧ id ∈ (w.nodes j).lobby.memberOf

/-- What is left of a lobby that its owner `i` left: with host migration some member owns it,
without it the others have dropped it. -/
structure LeftBehind (present : Finset Bytes) (w : LobbyWorld) (i id : Bytes) (r : LobbyRecord) :
    Prop where
  migrated : r.bAllowHostMigration ≠ 0 → ∃ k, (w.nodes k).Leads id
  dropped : r.bAllowHostMigration = 0 →
    ∀ j ∈ present, j ≠ i → id ∉ (w.nodes j).lobby.memberOf ∧ (w.nodes j).lobby.known.get? id = none

/-- A section that takes the node out of the lobby: it leaves or destroys the lobby, or it is told
that the lobby is closed or that it left. -/
def Quits (n : LobbyNode) (id : Bytes) : LobbyAction → Prop
  | .leaveLobby j _ | .destroyLobby j => j = id
  | .datagram _ _ (.leave j pid reason) => j = id ∧ (reason = lmsClosed ∨ pid = n.lobby.localPid)
  | _ => False

instance (n : LobbyNode) (id : Bytes) : ∀ b, Decidable (Quits n id b)
  | .leaveLobby j _ | .destroyLobby j => inferInstanceAs (Decidable (j = id))
  | .datagram _ _ (.leave _ _ _) => inferInstanceAs (Decidable (_ ∧ (_ ∨ _)))
  | .datagram _ _ (.announce _) | .datagram _ _ (.update _ _ _ _) | .datagram _ _
      (.joinRequest _ _)
  | .createLobby _ _ | .updateLobby _ | .copyDetails _ | .joinLobby _ _ | .joinLobbyById _
      _ | .promoteMember _ _
  | .kickMember _ _ | .periodicAnnounce _ => .isFalse fun h => h

/-- Nothing else does. -/
theorem member_of_not_quits {n t : LobbyNode} {b : LobbyAction} (hm : id ∈ n.lobby.memberOf)
    (hno : ¬ Quits n id b) (h : n.step b = some t) : id ∈ t.lobby.memberOf := by
  have hv := LobbyNode.step_view h id
  have hbefore := LobbyInterface.view_member.2 hm
  rw [← LobbyInterface.view_member]
  generalize n.lobby.view id = v at hv hbefore
  generalize t.lobby.view id = w at hv
  cases hv with
  | keep | ownerUpdate | memberUpdate | promote | kick | announce | update | joinRequest =>
    exact hbefore
  | create | join | joinById => rfl
  | destroy | leave | migrate => exact absurd rfl hno
  | closed => exact absurd ⟨rfl, .inl rfl⟩ hno
  | left =>
      rw [hbefore, Bool.true_and, decide_eq_true_iff]
      exact fun hpid => hno ⟨rfl, .inr hpid⟩

/-- No node present but the one that left takes itself out of the lobby, or is taken out of it. -/
def OthersStay (endpoint : Bytes → Endpoint) (present : Finset Bytes) (i id : Bytes)
    (w : LobbyWorld) (a : LobbyEvent) : Prop :=
  ∀ j ∈ present, j ≠ i → ∀ b, LobbyWorld.actionAt endpoint w j a = some b →
    ¬ Quits (w.nodes j) id b

/-- Then they stay in it. -/
theorem member_of_run {i j : Bytes} (hj : j ∈ present) (hne : j ≠ i)
    (hm : id ∈ (w.nodes j).lobby.memberOf)
    (h : Run (lobbyProtocol endpoint).step (OthersStay endpoint present i id) w w') :
    id ∈ (w'.nodes j).lobby.memberOf := by
  refine h.invariant (P := fun w => id ∈ (w.nodes j).lobby.memberOf) hm ?_
  intro u v a hu hok hst
  rcases LobbyWorld.node_step hst j with ⟨_, heq⟩ | ⟨b, hb, hn⟩
  · rw [heq]
    exact hu
  · exact member_of_not_quits hu (hok j hj hne b hb) hn

/-- **No lobby without an owner.** The owner of a lobby leaves, in whatever state the network is.
With host migration some member owns the lobby once everything about it is delivered, along every
run that keeps an owner. Without host migration the others never drop the lobby: those that do not
go themselves stay in it. -/
theorem owned_after_leave {u v : LobbyWorld} {i : Bytes} {me : ProductUserId} {r : LobbyRecord}
    (hu : Run (lobbyProtocol endpoint).step Always LobbyWorld.start u)
    (hleaves : OwnerLeaves present u i id me r)
    (hst : (lobbyProtocol endpoint).step u (.call i (.leaveLobby id me)) = some v) :
    (r.bAllowHostMigration ≠ 0 → KeepsOwner endpoint present id u (.call i (.leaveLobby id me)) →
      ∀ w, Run (lobbyProtocol endpoint).step (KeepsOwner endpoint present id) v w →
      AllDelivered present w id → LeftBehind present w i id r) ∧
    (r.bAllowHostMigration = 0 →
      ∀ w, Run (lobbyProtocol endpoint).step (OthersStay endpoint present i id) v w →
      ¬ LeftBehind present w i id r) := by
  constructor
  · intro hmig hok w hrun hquiet
    have hid : id ≠ [] := ((LobbyWorld.keyed_of_run hu i).known id r hleaves.record).2
    have hrun' : Run (lobbyProtocol endpoint).step (KeepsOwner endpoint present id) u w :=
      Run.trans (.tail _ .refl hok hst) hrun
    have hled : (∃ k, (w.nodes k).Leads id) ∨ HandedOver present w id := by
      refine hrun'.invariant' (P := fun w => (∃ k, (w.nodes k).Leads id) ∨ HandedOver present w id)
        (.inl ⟨i, hleaves.leads⟩) fun x y b hx hP hokx hstx => ?_
      have hfrom : Run (lobbyProtocol endpoint).step Always LobbyWorld.start x :=
        Run.trans hu (hx.mono fun _ _ _ => trivial)
      exact led_step (LobbyWorld.localPid_of_run hfrom) (LobbyWorld.keyed_of_run hfrom) hid hokx
        hstx hP
    exact ⟨fun _ => hled.resolve_right (not_handedOver hquiet), fun hno => absurd hno hmig⟩
  · intro hno w hrun hleft
    obtain ⟨j, hj, hne, hm⟩ := hleaves.remains
    have hafter : id ∈ (v.nodes j).lobby.memberOf := by
      rcases LobbyWorld.node_step hst j with ⟨_, heq⟩ | ⟨b, hb, _⟩
      · rw [heq]
        exact hm
      · have hactor := LobbyWorld.actor_of_actionAt hb
        exact absurd (Option.some.inj hactor).symm hne
    exact (hleft.dropped hno j hj hne).1 (member_of_run hj hne hafter hrun)

/-- The executable form of `KeepsOwner`, without another node that leads. -/
def keepsOwnerTest (endpoint : Bytes → Endpoint) (present : Finset Bytes) (id : Bytes)
    (w : LobbyWorld) (a : LobbyEvent) : Bool :=
  (Protocol.actor a).any (· ∈ present) &&
    LobbyWorld.sectionTest (fun n b => decide (KeepsLead present n id b)) endpoint w a

/-- A step that passes the test meets `KeepsOwner`. -/
theorem keepsOwner_of_test (w : LobbyWorld) (a : LobbyEvent)
    (h : keepsOwnerTest endpoint present id w a = true) : KeepsOwner endpoint present id w a := by
  rw [keepsOwnerTest, Bool.and_eq_true, Option.any_eq_true] at h
  obtain ⟨⟨i, hi, hpresent⟩, hsection⟩ := h
  have hkeeps : ∀ n b, decide (KeepsLead present n id b) = true → KeepsLead present n id b :=
    fun _ _ => of_decide_eq_true
  refine ⟨fun j hj => ?_, ?_, fun j b hb => .inr
    (LobbyWorld.of_sectionTest hkeeps w a hsection j b hb)⟩
  · cases hi.symm.trans hj
    exact of_decide_eq_true hpresent
  · rintro s r k rfl
    cases hi

end

/-- The owner leaves. -/
def sampleLeave : LobbyEvent := .call (str "a") (.leaveLobby (sampleLobbyId (str "a")) (str "a"))

/-- The first two nodes are on the network. -/
def samplePresent : Finset Bytes := {str "a", str "b"}

/-- A visit, the owner's leaving, and what follows it. -/
def leaveRun (test : LobbyWorld → LobbyEvent → Bool) (o : CreateLobbyOptions)
    (after : List LobbyEvent) : Option (LobbyWorld × LobbyWorld × LobbyWorld) :=
  (execIf (lobbyProtocol sampleEndpoints).step test LobbyWorld.start (sampleVisit o)).bind fun u =>
    ((lobbyProtocol sampleEndpoints).step u sampleLeave).bind fun v =>
      (execIf (lobbyProtocol sampleEndpoints).step test v after).map fun w => (u, v, w)

/-- In such a run the owner leaves while the second node is in the lobby. -/
def leavesTest (migration : SdkInt) (u w : LobbyWorld) : Bool :=
  (u.nodes (str "a")).Leads (sampleLobbyId (str "a")) &&
  (((u.nodes (str "a")).lobby.known.get? (sampleLobbyId (str "a"))).any fun r =>
    r.bAllowHostMigration = migration) &&
  sampleLobbyId (str "a") ∈ (u.nodes (str "b")).lobby.memberOf &&
  AllDelivered samplePresent w (sampleLobbyId (str "a"))

/-- The test says that the owner leaves others behind, and that everything is delivered. -/
theorem of_leavesTest {migration : SdkInt} {u w : LobbyWorld}
    (h : leavesTest migration u w = true) : AllDelivered samplePresent w (sampleLobbyId (str "a")) ∧
    ∃ r, r.bAllowHostMigration = migration ∧
      OwnerLeaves samplePresent u (str "a") (sampleLobbyId (str "a")) (str "a") r := by
  simp only [leavesTest, Bool.and_eq_true, decide_eq_true_eq] at h
  obtain ⟨⟨⟨hleads, hrecord⟩, hmember⟩, hquiet⟩ := h
  obtain ⟨r, hr, hmig⟩ := (Option.any_eq_true _ _).1 hrecord
  exact ⟨hquiet, r, of_decide_eq_true hmig, by decide, hleads, hr, str "b", by decide, by decide,
    hmember⟩

/-- With host migration the second node is handed the lobby. -/
theorem owned_after_leave_sample : ∃ w, Run (lobbyProtocol sampleEndpoints).step
    (KeepsOwner sampleEndpoints samplePresent (sampleLobbyId (str "a"))) LobbyWorld.start w ∧
      ∃ k, (w.nodes k).Leads (sampleLobbyId (str "a")) := by
  obtain ⟨⟨u, v, w⟩, hrun, htest⟩ :=
    (Option.any_eq_true (fun x : LobbyWorld × LobbyWorld × LobbyWorld =>
      leavesTest eosTrue x.1 x.2.2 &&
      keepsOwnerTest sampleEndpoints samplePresent (sampleLobbyId (str "a")) x.1 sampleLeave)
    (leaveRun (keepsOwnerTest sampleEndpoints samplePresent (sampleLobbyId (str "a")))
      (sampleLobby (str "a"))
      [.send (str "a") .game, .send (str "a") .game, .receive (str "a") (str "b") 0 9 false,
        .receive (str "a") (str "b") 0 9 false])).1 (by decide +kernel)
  obtain ⟨u', hu, hrun⟩ := Option.bind_eq_some_iff.1 hrun
  obtain ⟨v', hv, hrun⟩ := Option.bind_eq_some_iff.1 hrun
  obtain ⟨w', hw, heq⟩ := Option.map_eq_some_iff.1 hrun
  cases heq
  rw [Bool.and_eq_true] at htest
  obtain ⟨hquiet, r, hmig, hleaves⟩ := of_leavesTest htest.1
  have hmig' : r.bAllowHostMigration ≠ 0 := by rw [hmig]; decide
  have hbefore := Run.of_execIf keepsOwner_of_test hu
  have hafter := Run.of_execIf keepsOwner_of_test hw
  have hok := keepsOwner_of_test u sampleLeave htest.2
  refine ⟨w, Run.trans (.tail _ hbefore hok hv) hafter, ?_⟩
  exact ((owned_after_leave (hbefore.mono fun _ _ _ => trivial) hleaves hv).1 hmig' hok w hafter
    hquiet).migrated hmig'

/-- Without host migration the owner just leaves: the second node keeps a lobby that nobody
owns. -/
theorem not_owned_after_leave :
    ¬ ∀ (present : Finset Bytes) (u v w : LobbyWorld) (i id : Bytes) (me : ProductUserId)
    (r : LobbyRecord), Run (lobbyProtocol sampleEndpoints).step Protocol.Fifo LobbyWorld.start u →
      OwnerLeaves present u i id me r →
      (lobbyProtocol sampleEndpoints).step u (.call i (.leaveLobby id me)) = some v →
      Run (lobbyProtocol sampleEndpoints).step Protocol.Fifo v w → AllDelivered present w id →
      LeftBehind present w i id r := by
  intro hall
  obtain ⟨⟨u, v, w⟩, hrun, htest⟩ :=
    (Option.any_eq_true (fun x : LobbyWorld × LobbyWorld × LobbyWorld =>
      leavesTest eosFalse x.1 x.2.2 &&
        decide (sampleLobbyId (str "a") ∈ (x.2.2.nodes (str "b")).lobby.memberOf))
    (leaveRun Protocol.fifoTest { sampleLobby (str "a") with bDisableHostMigration := eosTrue }
      [.send (str "a") .game, .receive (str "a") (str "b") 0 9 false])).1 (by decide +kernel)
  obtain ⟨u', hu, hrun⟩ := Option.bind_eq_some_iff.1 hrun
  obtain ⟨v', hv, hrun⟩ := Option.bind_eq_some_iff.1 hrun
  obtain ⟨w', hw, heq⟩ := Option.map_eq_some_iff.1 hrun
  cases heq
  rw [Bool.and_eq_true, decide_eq_true_eq] at htest
  obtain ⟨hquiet, r, hmig, hleaves⟩ := of_leavesTest htest.1
  have hleft := hall _ u v w _ _ _ r (Run.of_execIf Protocol.fifo_of_test hu) hleaves hv
    (Run.of_execIf Protocol.fifo_of_test hw) hquiet
  exact (hleft.dropped hmig (str "b") (by decide) (by decide)).1 htest.2

end EOSEmu
