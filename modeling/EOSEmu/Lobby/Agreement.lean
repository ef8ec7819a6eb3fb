import EOSEmu.Lobby.Node

/-!
# The lobby sets agree

`Owned_`, `MemberOf_` and the `OwnerProductId` of the cached records say the same thing about who
owns a lobby, as long as every locked section is `Agreeable` (`agrees`). Each of the sections that
is not breaks the agreement at once (`not_agrees_of_not_agreeable`); an owner that promotes itself
is one (`not_agrees`).
-/

namespace EOSEmu

open Lib

/-- The three containers of a node agree. -/
structure LobbyInterface.Agrees (s : LobbyInterface) : Prop where
  owned_subset : s.owned ⊆ s.memberOf
  member_known : ∀ id ∈ s.memberOf, (s.known.get? id).isSome = true
  owned_iff : ∀ id, id ∈ s.owned ↔
    id ∈ s.memberOf ∧ ∃ r, s.known.get? id = some r ∧ r.ownerProductId = s.localPid
  owner_listed : ∀ id ∈ s.owned, ∀ r, s.known.get? id = some r → r.Lists r.ownerProductId

/-- A section that leaves the containers agreeing: a lobby is created for the local user; a lobby
that names the local user its owner is joined only by the node that owns it, and adopted only from
a record that lists the user; an owner neither promotes nor kicks itself, and is not told that it
left. -/
def Agreeable (n : LobbyNode) : LobbyAction → Prop
  | .createLobby _ o =>
      o.localUserId = [] ∨ versionInRange o.apiVersion createLobbyApiLatest = false ∨
        o.localUserId = n.lobby.localPid
  | .joinLobby i me => ∀ d, n.details[i]? = some d →
      me = [] ∨ d.lobbyId ∈ n.lobby.owned ∨ (n.lobby.joined d).ownerProductId ≠ n.lobby.localPid
  | .joinLobbyById id me => ∀ r, n.lobby.known.get? id = some r →
      me = [] ∨ id ∈ n.lobby.owned ∨ r.ownerProductId ≠ n.lobby.localPid
  | .promoteMember id target => target = [] ∨ id ∉ n.lobby.owned ∨ target ≠ n.lobby.localPid
  | .kickMember id target => ∀ r, n.lobby.known.get? id = some r →
      target = [] ∨ id ∉ n.lobby.owned ∨ (r.eraseMember target).Lists n.lobby.localPid
  | .datagram _ _ (.announce r) =>
      r.lobbyId ∉ n.lobby.memberOf ∨ r.lobbyId ∈ n.lobby.owned ∨
        r.ownerProductId ≠ n.lobby.localPid ∨ r.Lists n.lobby.localPid
  | .datagram _ _ (.leave id pid reason) => reason = lmsClosed ∨ id ∉ n.lobby.owned ∨
    pid ≠ n.lobby.localPid
  | _ => True

/-! ## One lobby -/

/-- The agreement about one lobby. -/
structure LobbyView.Agrees (localPid : Bytes) (v : LobbyView) : Prop where
  owner_member : v.owner = true → v.member = true
  member_known : v.member = true → v.record.isSome = true
  owner_iff : ∀ r, v.record = some r → v.member = true →
    (v.owner = true ↔ r.ownerProductId = localPid)
  owner_listed : ∀ r, v.record = some r → v.owner = true → r.Lists localPid

/-- The containers agree when they agree about every lobby. -/
theorem LobbyInterface.agrees_iff {s : LobbyInterface} :
    s.Agrees ↔ ∀ id, (s.view id).Agrees s.localPid := by
  constructor
  · intro h id
    refine ⟨?_, ?_, ?_, ?_⟩
    · intro ho
      exact view_member.2 (h.owned_subset (view_owner.1 ho))
    · intro hm
      exact h.member_known id (view_member.1 hm)
    · intro r hr hm
      rw [view_owner, h.owned_iff]
      constructor
      · rintro ⟨_, r', hr', hown⟩
        cases hr.symm.trans hr'
        exact hown
      · intro hown
        exact ⟨view_member.1 hm, r, hr, hown⟩
    · intro r hr ho
      have ho' := view_owner.1 ho
      obtain ⟨_, r', hr', hown⟩ := (h.owned_iff id).1 ho'
      cases hr.symm.trans hr'
      rw [← hown]
      exact h.owner_listed id ho' r hr
  · intro h
    have howner : ∀ id, id ∈ s.owned → id ∈ s.memberOf ∧ ∃ r, s.known.get? id = some r ∧
        r.ownerProductId = s.localPid := by
      intro id ho
      have hm := (h id).owner_member (view_owner.2 ho)
      obtain ⟨r, hr⟩ := Option.isSome_iff_exists.1 ((h id).member_known hm)
      exact ⟨view_member.1 hm, r, hr, ((h id).owner_iff r hr hm).1 (view_owner.2 ho)⟩
    refine ⟨?_, ?_, ?_, ?_⟩
    · intro id ho
      exact (howner id ho).1
    · intro id hm
      exact (h id).member_known (view_member.2 hm)
    · intro id
      refine ⟨howner id, ?_⟩
      rintro ⟨hm, r, hr, hown⟩
      exact view_owner.1 (((h id).owner_iff r hr (view_member.2 hm)).2 hown)
    · intro id ho r hr
      obtain ⟨_, r', hr', hown⟩ := howner id ho
      cases hr'.symm.trans hr
      rw [hown]
      exact (h id).owner_listed r hr (view_owner.2 ho)

namespace LobbyView
variable {localPid : Bytes} {v : LobbyView} {r : LobbyRecord}

/-- A lobby that is gone agrees with everything. -/
theorem agrees_gone : gone.Agrees localPid where
  owner_member h := nomatch h
  member_known h := nomatch h
  owner_iff _ h := nomatch h
  owner_listed _ h := nomatch h

/-- A lobby the node is no member of. -/
theorem agrees_outside (o : Option LobbyRecord) :
    (⟨o, false, false⟩ : LobbyView).Agrees localPid where
  owner_member h := nomatch h
  member_known h := nomatch h
  owner_iff _ _ h := nomatch h
  owner_listed _ _ h := nomatch h

/-- A record rewritten under the same owner, that still lists the owner. -/
theorem Agrees.rewrite (h : v.Agrees localPid) {r' : LobbyRecord} (hr : v.record = some r)
    (hown : r'.ownerProductId = r.ownerProductId) (hlists : v.owner = true → r'.Lists localPid) :
    ({ v with record := some r' } : LobbyView).Agrees localPid := by
  refine ⟨h.owner_member, fun _ => rfl, ?_, ?_⟩
  · intro q hq hm
    cases hq
    rw [hown]
    exact h.owner_iff r hr hm
  · intro q hq ho
    cases hq
    exact hlists ho

/-- A lobby joined by its owner, or under a record that names someone else. -/
theorem agrees_join {r' : LobbyRecord} (hlists : v.owner = true → r'.Lists localPid)
    (hown : v.owner = true ∧ r'.ownerProductId = localPid ∨ v.owner = false ∧
    r'.ownerProductId ≠ localPid) :
    ({ v with record := some r', member := true } : LobbyView).Agrees localPid := by
  refine ⟨fun _ => rfl, fun _ => rfl, ?_, ?_⟩
  · intro q hq _
    cases hq
    show v.owner = true ↔ r'.ownerProductId = localPid
    rcases hown with ⟨ho, hr⟩ | ⟨ho, hr⟩
    · simp [ho, hr]
    · simp [ho, hr]
  · intro q hq ho
    cases hq
    exact hlists ho

end LobbyView

section
variable {n t : LobbyNode} {a : LobbyAction} {id : Bytes}

/-- A lobby of another node is joined. -/
theorem agrees_withMember_of_other {v : LobbyView} {r : LobbyRecord} {localPid me : Bytes}
    (ho : v.owner = false) (hother : r.ownerProductId ≠ localPid) :
    ({ v with record := some (r.withMember me), member := true } : LobbyView).Agrees localPid := by
  refine LobbyView.agrees_join (fun h => ?_) (.inr ⟨ho, ?_⟩)
  · rw [ho] at h
    cases h
  · rw [LobbyRecord.withMember_ownerProductId]
    exact hother

/-- A cached lobby joined by its owner, or under a record that names someone else. -/
theorem agrees_withMember {v : LobbyView} {r : LobbyRecord} {localPid me : Bytes}
    (h : v.Agrees localPid) (hr : v.record = some r)
    (hown : v.owner = true ∨ r.ownerProductId ≠ localPid) :
    ({ v with record := some (r.withMember me), member := true } : LobbyView).Agrees localPid := by
  rcases Bool.eq_false_or_eq_true v.owner with ho | ho
  · refine LobbyView.agrees_join (fun _ => ?_) (.inl ⟨ho, ?_⟩)
    · rw [LobbyRecord.lists_withMember]
      exact .inl (h.owner_listed r hr ho)
    · rw [LobbyRecord.withMember_ownerProductId]
      exact (h.owner_iff r hr (h.owner_member ho)).1 ho
  · rw [ho] at hown
    exact agrees_withMember_of_other ho (hown.resolve_left Bool.false_ne_true)

/-- One step keeps the agreement about one lobby. -/
theorem agrees_step (hk : n.Keyed) (hok : Agreeable n a) (h : n.step a = some t)
    (ih : (n.lobby.view id).Agrees n.lobby.localPid) :
      (t.lobby.view id).Agrees n.lobby.localPid := by
  have hv := LobbyNode.step_view h id
  have howned : (n.lobby.view id).owner = true ↔ id ∈ n.lobby.owned := LobbyInterface.view_owner
  have hmember : (n.lobby.view id).member = true ↔ id ∈ n.lobby.memberOf :=
    LobbyInterface.view_member
  have hrecord : (n.lobby.view id).record = n.lobby.known.get? id := rfl
  generalize n.lobby.view id = v at *
  generalize t.lobby.view id = w at *
  -- what is known of a lobby the node owns
  have hlisted : ∀ {r : LobbyRecord}, v.record = some r → v.owner = true →
      r.ownerProductId = n.lobby.localPid ∧ r.Lists n.lobby.localPid := by
    intro r hr ho
    exact ⟨(ih.owner_iff r hr (ih.owner_member ho)).1 ho, ih.owner_listed r hr ho⟩
  cases hv with
  | keep => exact ih
  | @create tick o hpid hversion hid =>
      have hown : o.localUserId = n.lobby.localPid := by
        rcases hok with h' | h' | h'
        · exact absurd h' hpid
        · rw [hversion] at h'
          cases h'
        · exact h'
      have hlists : ({ o.record with lobbyId := id } : LobbyRecord).Lists n.lobby.localPid := by
        rw [← hown]
        exact List.mem_singleton_self _
      have hrec : ({ o.record with lobbyId := id } : LobbyRecord).ownerProductId =
        n.lobby.localPid := hown
      exact LobbyView.agrees_join (v := ⟨none, false, true⟩) (fun _ => hlists) (.inl ⟨rfl, hrec⟩)
  | ownerUpdate _ hrec ho =>
      refine ih.rewrite hrec rfl fun _ => ?_
      rw [LobbyRecord.lists_bump, LobbyRecord.lists_applyModification]
      exact (hlisted hrec ho).2
  | memberUpdate _ hrec _ ho =>
      refine ih.rewrite hrec rfl fun h' => ?_
      rw [ho] at h'
      cases h'
  | destroy | leave | closed => exact LobbyView.agrees_gone
  | @join i me d hd hid hme =>
      subst hid
      have hown := (hok d hd).resolve_left hme
      rw [← howned] at hown
      cases hget : v.record with
      | some r =>
          rw [hk.joined (hrecord.symm.trans hget)] at hown ⊢
          exact agrees_withMember ih hget hown
      | none =>
          have ho : v.owner = false := by
            rw [← Bool.not_eq_true]
            intro ho
            have hsome := ih.member_known (ih.owner_member ho)
            rw [hget] at hsome
            cases hsome
          rw [ho] at hown
          exact agrees_withMember_of_other ho (hown.resolve_left Bool.false_ne_true)
  | joinById hrec hme =>
      have hown := (hok _ (hrecord.symm.trans hrec)).resolve_left hme
      rw [← howned] at hown
      exact agrees_withMember ih hrec hown
  | migrate => exact LobbyView.agrees_outside _
  | promote htarget hrec ho _ =>
      have hother := (hok.resolve_left htarget).resolve_left (not_not_intro (howned.1 ho))
      refine ⟨(fun h' => nomatch h'), fun _ => rfl, ?_, (fun _ _ h' => nomatch h')⟩
      intro r hr _
      cases hr
      exact ⟨(fun h' => nomatch h'), fun h' => absurd h' hother⟩
  | kick htarget hrec ho =>
      have hstays := (hok _ (hrecord.symm.trans hrec)).resolve_left htarget
      exact ih.rewrite hrec rfl fun _ => hstays.resolve_left (not_not_intro (howned.1 ho))
  | @announce tick source r hid hne ho =>
      subst hid
      refine ⟨?_, fun _ => rfl, ?_, ?_⟩
      · intro h'
        exact (Bool.and_eq_true_iff.1 h').1
      · intro q hq hm
        cases hq
        show (v.member && decide (r.ownerProductId = n.lobby.localPid)) = true ↔ _
        rw [show v.member = true from hm, Bool.true_and, decide_eq_true_iff]
        rfl
      · intro q hq h'
        cases hq
        obtain ⟨hm, hown⟩ := Bool.and_eq_true_iff.1 h'
        have hnot : r.lobbyId ∉ n.lobby.owned := by
          rw [← howned, ho]
          exact Bool.false_ne_true
        have hlists :=
          ((hok.resolve_left (not_not_intro (hmember.1 hm))).resolve_left hnot).resolve_left
          (not_not_intro (of_decide_eq_true hown))
        exact hlists
  | update hrec ho _ =>
      refine ih.rewrite hrec rfl fun _ => ?_
      rw [LobbyRecord.lists_bump, LobbyRecord.lists_withAttrs]
      exact (hlisted hrec ho).2
  | joinRequest hrec ho _ _ =>
      refine ih.rewrite hrec rfl fun _ => ?_
      rw [LobbyRecord.lists_bump, LobbyRecord.lists_addMember]
      exact .inl (hlisted hrec ho).2
  | @left tick source pid reason r hrec hreason =>
      have hstays := hok.resolve_left hreason
      rw [← howned] at hstays
      cases ho : v.owner with
      | true =>
          have hother := hstays.resolve_left (not_not_intro ho)
          obtain ⟨hown, hlists⟩ := hlisted hrec ho
          refine ⟨fun _ => ?_, fun _ => rfl, ?_, ?_⟩
          · simp [ih.owner_member ho, hother]
          · intro q hq _
            cases hq
            simp only [if_true]
            exact ⟨fun _ => hown, fun _ => trivial⟩
          · intro q hq _
            cases hq
            simp only [if_true]
            rw [LobbyRecord.lists_bump, LobbyRecord.lists_eraseMember_of_ne (Ne.symm hother)]
            exact hlists
      | false =>
          refine ⟨(fun h' => nomatch h'), fun _ => rfl, ?_, (fun _ _ h' => nomatch h')⟩
          intro q hq hm
          cases hq
          have hm' : v.member = true := (Bool.and_eq_true_iff.1 hm).1
          have hiff := ih.owner_iff r hrec hm'
          rw [ho] at hiff
          exact hiff

/-- One step keeps the agreement. -/
theorem agrees_of_step (hk : n.Keyed) (ha : n.lobby.Agrees) (hok : Agreeable n a)
    (h : n.step a = some t) : t.lobby.Agrees := by
  rw [LobbyInterface.agrees_iff] at ha ⊢
  intro id
  rw [LobbyNode.step_localPid h]
  exact agrees_step hk hok h (ha id)

/-- What the agreement says of a lobby the node owns. -/
theorem LobbyInterface.Agrees.owned {s : LobbyInterface} (h : s.Agrees) {id : Bytes}
    (ho : id ∈ s.owned) : ∃ r, s.known.get? id = some r ∧ r.ownerProductId = s.localPid :=
  ((h.owned_iff id).1 ho).2

/-- A lobby that names the local user its owner is owned by its members. -/
theorem LobbyInterface.Agrees.owned_of_named {s : LobbyInterface} (h : s.Agrees) {id : Bytes}
    {r : LobbyRecord} (hm : id ∈ s.memberOf) (hr : s.known.get? id = some r)
    (hown : r.ownerProductId = s.localPid) : id ∈ s.owned :=
  (h.owned_iff id).2 ⟨hm, r, hr, hown⟩

/-- A section that is not agreeable leaves the containers of an agreeing node in disagreement. -/
theorem not_agrees_of_not_agreeable (hk : n.Keyed) (ha : n.lobby.Agrees) (hok : ¬ Agreeable n a)
    (h : n.step a = some t) : ¬ t.lobby.Agrees := by
  obtain ⟨o, ho, rfl⟩ := Option.map_eq_some_iff.1 h
  intro hafter
  change o.state.Agrees at hafter
  cases a with
  | createLobby tick o' =>
      simp only [Agreeable, not_or, Bool.not_eq_false] at hok
      obtain ⟨hpid, hversion, hother⟩ := hok
      cases ho
      simp only [LobbyInterface.createLobby, if_neg hpid, hversion, Bool.not_true,
        Bool.false_eq_true, if_false] at hafter
      obtain ⟨r, hr, hown⟩ := hafter.owned (Finset.mem_insert_self _ _)
      rw [Dict.get?_set, if_pos rfl] at hr
      cases hr
      exact hother hown
  | joinLobby i me =>
      simp only [Agreeable, not_forall, not_or, not_not] at hok
      obtain ⟨d, hd, hme, hnot, hown⟩ := hok
      rw [LobbyNode.outcome, hd] at ho
      cases ho
      rw [LobbyInterface.joinLobby_state hme] at hafter
      refine hnot (hafter.owned_of_named (Finset.mem_insert_self _ _)
        ((Dict.get?_set _ _ _ _).trans (if_pos rfl)) ?_)
      rw [LobbyRecord.withMember_ownerProductId]
      exact hown
  | joinLobbyById id me =>
      simp only [Agreeable, not_forall, not_or, not_not] at hok
      obtain ⟨r, hr, hme, hnot, hown⟩ := hok
      cases ho
      rw [LobbyInterface.joinLobbyById_state hme hr] at hafter
      refine hnot (hafter.owned_of_named (Finset.mem_insert_self _ _)
        ((Dict.get?_set _ _ _ _).trans (if_pos rfl)) ?_)
      rw [LobbyRecord.withMember_ownerProductId]
      exact hown
  | promoteMember id target =>
      simp only [Agreeable, not_or, not_not] at hok
      obtain ⟨htarget, howner, hown⟩ := hok
      obtain ⟨r, hr, hrown⟩ := ha.owned howner
      have hlists : (r.findMember target).isSome = true := by
        rw [LobbyRecord.findMember_isSome, hown, ← hrown]
        exact ha.owner_listed id howner r hr
      cases ho
      simp only [LobbyInterface.promoteMember, if_neg htarget, hr,
        if_pos (And.intro howner hlists)] at hafter
      exact Finset.notMem_erase _ _ (hafter.owned_of_named (ha.owned_subset howner)
        ((Dict.get?_set _ _ _ _).trans (if_pos rfl)) hown)
  | kickMember id target =>
      simp only [Agreeable, not_forall, not_or, not_not] at hok
      obtain ⟨r, hr, htarget, howner, hnot⟩ := hok
      obtain ⟨r', hr', hrown⟩ := ha.owned howner
      cases hr.symm.trans hr'
      cases ho
      simp only [LobbyInterface.kickMember, if_neg htarget, hr, if_pos howner] at hafter
      have hlists := hafter.owner_listed id howner _ ((Dict.get?_set _ _ _ _).trans (if_pos rfl))
      rw [LobbyRecord.lists_bump, show (r.eraseMember target).bump.ownerProductId =
        r.ownerProductId from rfl, hrown] at hlists
      exact hnot hlists
  | datagram tick source m =>
      cases ho
      cases m with
      | announce r =>
          simp only [Agreeable, not_or, not_not] at hok
          obtain ⟨hm, hnot, hown, hlists⟩ := hok
          obtain ⟨old, hold⟩ := Option.isSome_iff_exists.1 (ha.member_known _ hm)
          have hid := (hk.known _ _ hold).2
          simp only [LobbyInterface.onDatagram, LobbyInterface.onAnnounce, if_neg hid, if_neg hnot,
            if_pos (And.intro hm hown)] at hafter
          have hlisted := hafter.owner_listed _ (Finset.mem_insert_self _ _) _
            ((Dict.get?_set _ _ _ _).trans (if_pos rfl))
          rw [show (r.received tick source).ownerProductId = n.lobby.localPid from hown] at hlisted
          exact hlists hlisted
      | leave id pid reason =>
          simp only [Agreeable, not_or, not_not] at hok
          obtain ⟨hreason, howner, hpid⟩ := hok
          obtain ⟨r, hr, _⟩ := ha.owned howner
          simp only [LobbyInterface.onDatagram, LobbyInterface.onLeave, hr, if_neg hreason,
            if_pos hpid] at hafter
          exact Finset.notMem_erase _ _ (hafter.owned_subset howner)
      | update | joinRequest => exact hok trivial
  | updateLobby | destroyLobby | copyDetails | leaveLobby | periodicAnnounce => exact hok trivial

/-- The containers of a fresh platform agree. -/
theorem agrees_start (localPid : Bytes) : (LobbyInterface.start localPid).Agrees where
  owned_subset := Finset.Subset.refl _
  member_known _ h := absurd h (Finset.notMem_empty _)
  owned_iff _ := by
    constructor
    · intro h
      exact absurd h (Finset.notMem_empty _)
    · rintro ⟨h, _⟩
      exact h
  owner_listed _ h := absurd h (Finset.notMem_empty _)

end

/-- The containers of a node agree in every state its agreeable sections reach, and from there a
section keeps the agreement exactly when it is agreeable. -/
theorem agrees (localPid : Bytes) {n : LobbyNode}
    (h : Run LobbyNode.step Agreeable (.start localPid) n) :
    n.lobby.Agrees ∧ ∀ a t, n.step a = some t → (t.lobby.Agrees ↔ Agreeable n a) := by
  have hinv : n.Keyed ∧ n.lobby.Agrees := by
    refine h.invariant (P := fun n => n.Keyed ∧ n.lobby.Agrees) ?_ ?_
    · exact ⟨LobbyNode.keyed_start localPid, agrees_start localPid⟩
    · rintro u v a ⟨hk, ha⟩ hok hst
      exact ⟨hk.step hst, agrees_of_step hk ha hok hst⟩
  obtain ⟨hk, ha⟩ := hinv
  refine ⟨ha, fun a t hst => ?_⟩
  constructor
  · intro hagrees
    by_contra hok
    exact not_agrees_of_not_agreeable hk ha hok hst hagrees
  · intro hok
    exact agrees_of_step hk ha hok hst

/-- An executable condition that implies `Agreeable`. -/
def agreeableTest (n : LobbyNode) : LobbyAction → Bool
  | .createLobby _ o => o.localUserId = n.lobby.localPid
  | .promoteMember _ target => target ≠ n.lobby.localPid
  | .datagram _ _ (.joinRequest _ _) => true
  | _ => false

/-- A step that passes the test meets `Agreeable`. -/
theorem agreeable_of_test (n : LobbyNode) (a : LobbyAction) (h : agreeableTest n a = true) :
    Agreeable n a := by
  cases a with
  | createLobby tick o => exact .inr (.inr (of_decide_eq_true h))
  | promoteMember id target => exact .inr (.inr (of_decide_eq_true h))
  | datagram tick source m =>
      cases m with
      | joinRequest id pid => trivial
      | announce | update | leave => cases h
  | updateLobby | destroyLobby | copyDetails | joinLobby | joinLobbyById | leaveLobby | kickMember
  | periodicAnnounce => cases h

/-- A run that meets the condition: the owner lets a second user in and promotes it. -/
theorem agrees_sample :
    ∃ n, Run LobbyNode.step Agreeable (.start (str "a")) n ∧
    sampleLobbyId (str "a") ∈ n.lobby.memberOf ∧ n.lobby.Agrees := by
  have hrun : (execIf LobbyNode.step agreeableTest (.start (str "a"))
      [.createLobby 7 (sampleLobby (str "a")),
        .datagram 8 {} (.joinRequest (sampleLobbyId (str "a")) (str "b")),
        .promoteMember (sampleLobbyId (str "a")) (str "b")]).map
      (fun n => decide (sampleLobbyId (str "a") ∈ n.lobby.memberOf)) = some true := by
    decide +kernel
  obtain ⟨n, hn, hmem⟩ := Option.map_eq_some_iff.1 hrun
  have hl := Run.of_execIf agreeable_of_test hn
  exact ⟨n, hl, of_decide_eq_true hmem, (agrees (str "a") hl).1⟩

/-- Without the condition this fails: an owner that promotes itself gives up the ownership its
record still names. -/
theorem not_agrees : ¬ ∀ n, Run LobbyNode.step Always (.start (str "a")) n → n.lobby.Agrees := by
  intro h
  have hrun : (exec LobbyNode.step (.start (str "a"))
      [.createLobby 7 (sampleLobby (str "a")), .promoteMember (sampleLobbyId (str "a"))
        (str "a")]).map
      (fun n => (n.lobby.view (sampleLobbyId (str "a"))).owner == false &&
        (n.lobby.view (sampleLobbyId (str "a"))).member == true &&
        ((n.lobby.view (sampleLobbyId (str "a"))).record.map
          (·.ownerProductId) == some n.lobby.localPid)) =
      some true := by
    decide +kernel
  obtain ⟨n, hn, hstate⟩ := Option.map_eq_some_iff.1 hrun
  simp only [Bool.and_eq_true, beq_iff_eq] at hstate
  obtain ⟨⟨howner, hmember⟩, hrecord⟩ := hstate
  obtain ⟨r, hr, hown⟩ := Option.map_eq_some_iff.1 hrecord
  have hview := LobbyInterface.agrees_iff.1 (h n (Run.of_exec hn)) (sampleLobbyId (str "a"))
  have hclaim := (hview.owner_iff r hr hmember).2 hown
  rw [howner] at hclaim
  cases hclaim

end EOSEmu
