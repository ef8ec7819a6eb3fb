import EOSEmu.Social.Invitations

/-!
# Pending invites

What one section does to the invite list of an interface (`step_invites`), and from it what a whole
run leaves in the list: exactly the invites that have arrived and have not been rejected since
(`pending_invites`). Every notification that answers an invite is about one that was pending, and
no invite is rejected twice (`answered_invites`).
-/

namespace EOSEmu

open Lib

/-- A transition of a node. -/
abbrev SocialTransition := Transition SocialNode SocialAction

/-- The invite that a section rejects, by its id. -/
def SocialAction.rejects (k : SocialKind) : SocialAction → Option Bytes
  | .rejectInvite j inviteId => if j = k then inviteId else none
  | .rejectInviteFromOverlay j inviteId => if j = k then some inviteId else none
  | _ => none

/-- The invite that arrives in a section. -/
def SocialNode.arrives (n : SocialNode) (k : SocialKind) : SocialAction → Option InviteRec
  | .inviteDatagram j subject fromPid toPid =>
      if j = k ∧ toPid = n.localPid k then some ((n.book k).arriving k subject fromPid) else none
  | _ => none

/-- The invite arrives. -/
def InviteArrives (k : SocialKind) (inv : InviteRec) (x : SocialTransition) : Prop :=
  x.pre.arrives k x.action = some inv

/-- The invite of this id is rejected. -/
def InviteRejects (k : SocialKind) (inviteId : Bytes) (x : SocialTransition) : Prop :=
  x.action.rejects k = some inviteId

/-! ## One section -/

/-- A prefix and a number give an id that tells the number. -/
theorem SocialKind.inviteId_inj (k : SocialKind) {m n : UInt64} (h : k.inviteId m = k.inviteId n) :
    m = n := by
  cases k with
  | lobby => exact decimal_inj (List.append_cancel_left h)
  | session => exact decimal_inj (List.append_cancel_left h)

namespace SocialNode
variable {n t : SocialNode} {a : SocialAction} {k : SocialKind}

@[simp] theorem setBook_book (j : SocialKind) (b : Invitations j.Record) :
    (n.setBook j b).book = Function.update n.book j b := rfl

/-- A written book is the one read. -/
theorem setBook_same (b : Invitations k.Record) : (n.setBook k b).book k = b := by simp

/-- The other book stays. -/
theorem setBook_ne {j : SocialKind} (b : Invitations j.Record) (hne : k ≠ j) :
    (n.setBook j b).book k = n.book k := by
  simp [hne]

/-- Rejecting an id that is not in the list leaves the list as it is. -/
theorem eraseP_of_find {l : List InviteRec} {inviteId : Bytes}
    (h : l.find? (fun inv => inv.inviteId = inviteId) = none) :
      l.eraseP (fun inv => inv.inviteId = inviteId) = l :=
  List.eraseP_of_forall_not fun inv hinv => by simpa using List.find?_eq_none.1 h inv hinv

/-- `RejectInvite` and the overlay's rejection leave the same list. -/
theorem rejectInvite_invites {ρ : Type} (b : Invitations ρ) (inviteId : Bytes) :
    (b.rejectInvite (some inviteId)).2.invites = b.invites.eraseP
      (fun inv => inv.inviteId = inviteId) := by
  unfold Invitations.rejectInvite
  cases h : b.find inviteId with
  | none => simpa [h] using (eraseP_of_find h).symm
  | some inv => simp [h, Invitations.eraseInvite]

/-- The list of an interface after a section: without the rejected invite, and with the one that
arrives. -/
structure InvitesStep (n t : SocialNode) (k : SocialKind) (a : SocialAction) : Prop where
  invites : (t.book k).invites = (match a.rejects k with
    | none => (n.book k).invites
    | some inviteId => (n.book k).invites.eraseP fun inv => inv.inviteId = inviteId) ++
      (n.arrives k a).toList
  next : (t.book k).nextInvite = if (n.arrives k a).isSome then (n.book k).nextInvite + 1
    else (n.book k).nextInvite

/-- A section without invites of the interface. -/
theorem InvitesStep.idle (hrejects : a.rejects k = none) (harrives : n.arrives k a = none)
    (hinvites : (t.book k).invites = (n.book k).invites)
    (hnext : (t.book k).nextInvite = (n.book k).nextInvite) : InvitesStep n t k a := by
  constructor
  · rw [hrejects, harrives, hinvites]
    simp
  · rw [harrives, hnext]
    rfl

/-- What a section does to the invites of an interface. -/
theorem step_invites (h : n.step a = some t) (k : SocialKind) : InvitesStep n t k a := by
  unfold step at h
  obtain ⟨⟨u, notes⟩, hout, rfl⟩ := Option.map_eq_some_iff.1 h
  cases a with
  | lobby b =>
      obtain ⟨lobby, _, hu⟩ := Option.map_eq_some_iff.1 hout
      cases hu
      exact .idle rfl rfl rfl rfl
  | session b =>
      obtain ⟨o, _, hu⟩ := Option.map_eq_some_iff.1 hout
      cases hu
      exact .idle rfl rfl rfl rfl
  | sessionDatagram | acceptInviteFromOverlay | acknowledgeEventId | otherPlatform =>
      cases hout
      exact .idle rfl rfl rfl rfl
  | inviteDatagram j subject fromPid toPid =>
      simp only [outcome] at hout
      split at hout
      · next hto =>
          cases hout
          refine .idle rfl ?_ rfl rfl
          exact if_neg fun hk : j = k ∧ toPid = n.localPid k => hto (hk.1 ▸ hk.2)
      · next hto =>
          cases hout
          rw [ne_eq, not_not] at hto
          rcases eq_or_ne j k with rfl | hne
          · constructor <;> simp [arrives, hto, SocialAction.rejects, Invitations.arrive]
          · refine .idle rfl (if_neg fun hk => hne hk.1) ?_ ?_ <;> rw [setBook_ne _ hne.symm]
  | rejectInvite j inviteId =>
      cases hout
      rcases eq_or_ne j k with rfl | hne
      · cases inviteId with
        | none => refine .idle (if_pos rfl) rfl ?_ ?_ <;> rw [setBook_same] <;> rfl
        | some id =>
            constructor
            · simp [setBook_same, rejectInvite_invites, SocialAction.rejects, arrives]
            · rw [setBook_same]
              simp only [Invitations.rejectInvite, arrives]
              split <;> rfl
      · refine .idle (if_neg hne) rfl ?_ ?_ <;> rw [setBook_ne _ hne.symm]
  | rejectInviteFromOverlay j inviteId =>
      rcases eq_or_ne j k with rfl | hne
      · simp only [outcome] at hout
        split at hout
        · next hnone =>
            cases hout
            constructor <;> simp [SocialAction.rejects, arrives, eraseP_of_find hnone]
        · cases hout
          constructor <;> simp [SocialAction.rejects, arrives, Invitations.eraseInvite]
      · simp only [outcome] at hout
        split at hout <;> cases hout
        · exact .idle (if_neg hne) rfl rfl rfl
        · refine .idle (if_neg hne) rfl ?_ ?_ <;> rw [setBook_ne _ hne.symm]
  | beginJoinFromOverlay j subject =>
      simp only [outcome] at hout
      split at hout <;> cases hout
      · exact .idle rfl rfl rfl rfl
      · rcases eq_or_ne j k with rfl | hne
        · refine .idle rfl rfl ?_ ?_ <;> simp [Invitations.beginJoin]
        · refine .idle rfl rfl ?_ ?_ <;> simp [hne.symm]

end SocialNode

/-! ## Invite ids over a run -/

/-- The invites that have arrived, oldest first. -/
def arrived (k : SocialKind) (l : List SocialTransition) : List InviteRec :=
  l.filterMap fun x => x.pre.arrives k x.action

/-- Their ids. -/
def arrivedIds (k : SocialKind) (l : List SocialTransition) : List Bytes :=
  (arrived k l).map (·.inviteId)

/-- What arrived after one more step. -/
theorem arrived_snoc (k : SocialKind) (l : List SocialTransition) (x : SocialTransition) :
    arrived k (l ++ [x]) = arrived k l ++ (x.pre.arrives k x.action).toList := by
  unfold arrived
  rw [List.filterMap_append]
  cases h : x.pre.arrives k x.action <;> simp [h]

/-- The id an interface gives to its invite of a number. -/
def NumbersInvite (k : SocialKind) (_ : Unit) (m : ℕ) (inviteId : Bytes) : Prop :=
  m < 2 ^ 64 ∧ inviteId = k.inviteId (UInt64.ofNat m)

/-- An invite's id tells its number. -/
theorem telling_numbersInvite (k : SocialKind) : Telling (NumbersInvite k) := by
  rintro _ _ m n x ⟨hm, rfl⟩ ⟨hn, heq⟩
  refine ⟨rfl, ?_⟩
  have hnum := congrArg UInt64.toNat (k.inviteId_inj heq)
  rwa [UInt64.toNat_ofNat', UInt64.toNat_ofNat', Nat.mod_eq_of_lt hm, Nat.mod_eq_of_lt hn] at hnum

/-- The invites of an interface and the ids handed out for them. -/
structure InvitesNumbered (k : SocialKind) (l : List SocialTransition) (t : SocialNode) : Prop where
  issued : Issued (NumbersInvite k) (fun _ => (t.book k).nextInvite.toNat) (arrivedIds k l)
  kept : (t.book k).invites.Sublist (arrived k l)

section
variable {localPid : Bytes} {unicastPort : UInt16} {l : List SocialTransition} {t : SocialNode}
  {k : SocialKind} {ok : SocialNode → SocialAction → Prop}

/-- The number of the next invite counts those that arrived. -/
theorem nextInvite_le (h : Trace SocialNode.step ok (.start localPid unicastPort) l t)
    (k : SocialKind) : (t.book k).nextInvite.toNat ≤ 1 + l.length := by
  refine h.counted (f := fun u => (u.book k).nextInvite.toNat) fun u v a _ hst => ?_
  rw [(SocialNode.step_invites hst k).next]
  split
  · rw [UInt64.toNat_add]
    exact Nat.mod_le _ _
  · exact Nat.le_succ _

/-- Pending invites have ids of their own. -/
theorem InvitesNumbered.nodup (h : InvitesNumbered k l t) :
    ((t.book k).invites.map (·.inviteId)).Nodup :=
  h.issued.nodup.sublist (h.kept.map _)

/-- A section keeps the ids apart. -/
theorem InvitesNumbered.step {u v : SocialNode} {a : SocialAction} (hu : InvitesNumbered k l u)
    (hst : u.step a = some v) (hroom : (u.book k).nextInvite.toNat + 1 < 2 ^ 64) :
    InvitesNumbered k (l ++ [⟨u, a, v⟩]) v := by
  have hstep := SocialNode.step_invites hst k
  have harrived := arrived_snoc k l ⟨u, a, v⟩
  have hkept : (v.book k).invites.Sublist (arrived k (l ++ [⟨u, a, v⟩])) := by
    rw [harrived, hstep.invites]
    refine List.Sublist.append ?_ (List.Sublist.refl _)
    split
    · exact hu.kept
    · exact List.eraseP_sublist.trans hu.kept
  refine ⟨?_, hkept⟩
  unfold arrivedIds
  rw [harrived, List.map_append]
  cases harr : u.arrives k a with
  | none =>
      have hnext := hstep.next
      rw [harr, Option.isSome_none, if_neg Bool.false_ne_true] at hnext
      simpa [hnext, arrivedIds] using hu.issued
  | some inv =>
      have hnext : (v.book k).nextInvite.toNat = (u.book k).nextInvite.toNat + 1 := by
        rw [hstep.next, harr, Option.isSome_some, if_pos rfl, UInt64.toNat_add]
        exact Nat.mod_eq_of_lt hroom
      have hid : inv.inviteId = k.inviteId (u.book k).nextInvite := by
        unfold SocialNode.arrives at harr
        split at harr
        · split at harr <;> cases harr
          rfl
        · cases harr
      have hmay : NumbersInvite k () (u.book k).nextInvite.toNat inv.inviteId :=
        ⟨by omega, by rw [hid, UInt64.ofNat_toNat]⟩
      exact hu.issued.issue (telling_numbersInvite k) hmay (fun _ => by omega) (by omega)

/-- A run of fewer sections than there are numbers keeps the ids of an interface apart. -/
theorem invitesNumbered_of_trace (h : Trace SocialNode.step ok (.start localPid unicastPort) l t)
    (hlen : l.length + 2 < 2 ^ 64) (k : SocialKind) : InvitesNumbered k l t := by
  revert hlen
  refine h.invariant (P := fun l t => l.length + 2 < 2 ^ 64 → InvitesNumbered k l t)
    (fun _ => ⟨.nil, List.Sublist.refl _⟩) ?_
  intro l u v a hl ih _ hst hlen
  rw [List.length_append, List.length_singleton] at hlen
  have hle := nextInvite_le hl k
  exact (ih (by omega)).step hst (by omega)

/-! ## What a run leaves in the list -/

/-- The list of an interface holds what has arrived and has not been rejected since, in the order
it arrived, under ids that name one invite each. -/
structure PendingInvites (k : SocialKind) (l : List SocialTransition) (t : SocialNode) : Prop where
  pending : ∀ inv, inv ∈ (t.book k).invites ↔
    Since (InviteArrives k inv) (InviteRejects k inv.inviteId) l
  order : (t.book k).invites.Sublist (arrived k l)
  names : (arrivedIds k l).Nodup
  found : ∀ inv ∈ (t.book k).invites, (t.book k).find inv.inviteId = some inv

/-- What a section does to the membership of one invite. -/
theorem mem_invites_step {u v : SocialNode} {a : SocialAction} (hu : InvitesNumbered k l u)
    (hst : u.step a = some v) (inv : InviteRec) : inv ∈ (v.book k).invites ↔
      u.arrives k a = some inv ∨ (inv ∈ (u.book k).invites ∧
      ¬ a.rejects k = some inv.inviteId) := by
  rw [(SocialNode.step_invites hst k).invites, List.mem_append, Option.mem_toList, or_comm]
  refine or_congr_right ?_
  split
  · next hnone => simp [hnone]
  · next inviteId hsome =>
      rw [hsome, mem_eraseP_key hu.nodup, Option.some_inj]
      exact and_congr_right fun _ => ne_comm

/-- **Pending invites.** After every run of fewer sections than there are invite numbers, the
invite list of the lobbies and that of the sessions hold exactly the invites that have arrived and
have not been rejected since, in the order they arrived; no two invites that ever arrived share an
id, and each pending invite is found by its id. -/
theorem pending_invites (h : Trace SocialNode.step Always (.start localPid unicastPort) l t)
    (hlen : l.length + 2 < 2 ^ 64) (k : SocialKind) : PendingInvites k l t := by
  have hnumbered := invitesNumbered_of_trace h hlen k
  refine ⟨fun inv => ?_, hnumbered.kept, hnumbered.issued.nodup, fun inv hinv => ?_⟩
  · refine h.standing (F := fun u => inv ∈ (u.book k).invites)
      (by simp [SocialNode.start]) fun before x after heq => ?_
    obtain ⟨hpre, _, hst⟩ := h.forall_mem heq
    have hshort := congrArg List.length heq
    rw [List.length_append, List.length_cons] at hshort
    exact mem_invites_step (invitesNumbered_of_trace hpre (by omega) k) hst inv
  · exact (find?_key hnumbered.nodup).2 ⟨hinv, rfl⟩

/-- Two invites to the user and one to somebody else; the first is accepted, the second is rejected
by the game. -/
def sampleInvites : List SocialAction :=
  [.inviteDatagram .lobby (str "l") (str "b") (str "a"), .inviteDatagram .lobby (str "l") (str "b")
    (str "c"),
    .inviteDatagram .lobby (str "m") (str "b") (str "a"),
      .acceptInviteFromOverlay .lobby (str "invite_1"),
    .rejectInvite .lobby (some (str "invite_2"))]

/-- The accepted invite is still pending, and the rejected one is not. -/
theorem pending_invites_sample : ∃ t, exec SocialNode.step (.start (str "a") 7001) sampleInvites =
    some t ∧
    PendingInvites .lobby (transitions SocialNode.step (.start (str "a") 7001) sampleInvites) t ∧
    (t.book .lobby).invites = [⟨str "invite_1", str "l", str "b"⟩] :=
  ⟨_, rfl, pending_invites (Trace.of_exec rfl) (by decide) .lobby, by decide⟩

/-! ## Answers -/

/-- The answer of a section to an invite: the user accepted it in the overlay, or rejected it
there. -/
inductive Answers (k : SocialKind) (inv : InviteRec) (x : SocialTransition) : Prop
  | accepted : SocialNote.inviteAccepted k inv.inviteId inv.fromProduct inv.subject ∈
      x.pre.posted x.action → Answers k inv x
  | rejected : SocialNote.inviteRejected k inv.inviteId inv.fromProduct inv.subject ∈
      x.pre.posted x.action → Answers k inv x

/-- A section tells the game that an invite of this id was rejected. -/
def TellsRejected (k : SocialKind) (inviteId : Bytes) (x : SocialTransition) : Bool :=
  (x.pre.posted x.action).any fun note => match note with
    | .inviteRejected j id _ _ => j = k ∧ id = inviteId
    | _ => false

/-- What the game is told about the answers. -/
structure AnsweredInvites (k : SocialKind) (l : List SocialTransition) : Prop where
  /-- An answer names an invite that has arrived and has not been rejected since, with its sender
  and its lobby or session. -/
  pending : ∀ before x after inv, l = before ++ x :: after → Answers k inv x →
    Since (InviteArrives k inv) (InviteRejects k inv.inviteId) before
  /-- No invite is rejected twice. -/
  once : ∀ inviteId, l.countP (TellsRejected k inviteId) ≤ 1

/-- An acceptance is posted by the overlay's accept action, on the invite it finds. -/
theorem SocialNode.posted_accepted {n : SocialNode} {a : SocialAction} {id sender subject : Bytes}
    (h : .inviteAccepted k id sender subject ∈ n.posted a) : a = .acceptInviteFromOverlay k id ∧
      ∃ inv, (n.book k).find id = some inv ∧ inv.fromProduct = sender ∧ inv.subject = subject := by
  unfold posted at h
  cases a with
  | lobby b => cases hb : n.lobby.step b <;> simp [outcome, hb] at h
  | session b => cases hb : n.sessions.outcome b <;> simp [outcome, hb] at h
  | sessionDatagram | rejectInvite | acknowledgeEventId | otherPlatform => simp [outcome] at h
  | inviteDatagram j subject' fromPid toPid =>
      simp only [outcome] at h
      split at h <;> simp at h
  | acceptInviteFromOverlay j inviteId =>
      cases hfind : (n.book j).find inviteId with
      | none => simp [outcome, hfind] at h
      | some inv =>
          simp only [outcome, hfind, Option.map_some, Option.getD_some, List.mem_singleton,
            SocialNote.inviteAccepted.injEq] at h
          obtain ⟨rfl, rfl, rfl, rfl⟩ := h
          exact ⟨rfl, inv, hfind, rfl, rfl⟩
  | rejectInviteFromOverlay j inviteId => cases hfind : (n.book j).find inviteId <;>
    simp [outcome, hfind] at h
  | beginJoinFromOverlay j subject' => cases hr : (n.known j).get? subject' <;>
    simp [outcome, hr] at h

/-- A rejection is posted by the overlay's reject action, on the invite it finds. -/
theorem SocialNode.posted_rejected {n : SocialNode} {a : SocialAction} {id sender subject : Bytes}
    (h : .inviteRejected k id sender subject ∈ n.posted a) : a = .rejectInviteFromOverlay k id ∧
      ∃ inv, (n.book k).find id = some inv ∧ inv.fromProduct = sender ∧ inv.subject = subject := by
  unfold posted at h
  cases a with
  | lobby b => cases hb : n.lobby.step b <;> simp [outcome, hb] at h
  | session b => cases hb : n.sessions.outcome b <;> simp [outcome, hb] at h
  | sessionDatagram | rejectInvite | acknowledgeEventId | otherPlatform => simp [outcome] at h
  | inviteDatagram j subject' fromPid toPid =>
      simp only [outcome] at h
      split at h <;> simp at h
  | rejectInviteFromOverlay j inviteId =>
      cases hfind : (n.book j).find inviteId with
      | none => simp [outcome, hfind] at h
      | some inv =>
          simp only [outcome, hfind, Option.map_some, Option.getD_some, List.mem_singleton,
            SocialNote.inviteRejected.injEq] at h
          obtain ⟨rfl, rfl, rfl, rfl⟩ := h
          exact ⟨rfl, inv, hfind, rfl, rfl⟩
  | acceptInviteFromOverlay j inviteId => cases hfind : (n.book j).find inviteId <;>
    simp [outcome, hfind] at h
  | beginJoinFromOverlay j subject' => cases hr : (n.known j).get? subject' <;>
    simp [outcome, hr] at h

/-- An answer is about an invite the list holds. -/
theorem Answers.mem {inv : InviteRec} {x : SocialTransition} (h : Answers k inv x) :
    inv ∈ (x.pre.book k).invites := by
  obtain ⟨inv', hfind, hfrom, hsubject⟩ : ∃ inv', (x.pre.book k).find inv.inviteId = some inv' ∧
      inv'.fromProduct = inv.fromProduct ∧ inv'.subject = inv.subject := by
    cases h with
    | accepted h => exact (SocialNode.posted_accepted h).2
    | rejected h => exact (SocialNode.posted_rejected h).2
  have hid : inv'.inviteId = inv.inviteId := by simpa using List.find?_some hfind
  have heq : inv' = inv := by
    cases inv
    cases inv'
    simp_all
  exact heq ▸ List.mem_of_find?_eq_some hfind

/-- An id names a pending invite. -/
def idPending (k : SocialKind) (inviteId : Bytes) (n : SocialNode) : Bool :=
  inviteId ∈ (n.book k).invites.map (·.inviteId)

/-- An id stops naming a pending invite when its rejection is posted. -/
theorem lowers_of_tellsRejected {u v : SocialNode} {a : SocialAction} {inviteId : Bytes}
    (hu : InvitesNumbered k l u) (hst : u.step a = some v)
    (h : TellsRejected k inviteId ⟨u, a, v⟩ = true) :
    Lowers (idPending k inviteId) ⟨u, a, v⟩ = true := by
  obtain ⟨note, hnote, hmatch⟩ := List.any_eq_true.1 h
  cases note with
  | inviteReceived | inviteAccepted | joinAccepted => cases hmatch
  | inviteRejected j id sender subject =>
      obtain ⟨rfl, rfl⟩ : j = k ∧ id = inviteId := by simpa using hmatch
      obtain ⟨rfl, inv, hfind, _, _⟩ := SocialNode.posted_rejected hnote
      have hid : inv.inviteId = id := by simpa using List.find?_some hfind
      have hpre : id ∈ (u.book j).invites.map (·.inviteId) :=
        hid ▸ List.mem_map_of_mem (List.mem_of_find?_eq_some hfind)
      have hpost : id ∉ (v.book j).invites.map (·.inviteId) := by
        intro hmem
        obtain ⟨inv', hinv', hkey⟩ := List.mem_map.1 hmem
        rcases (mem_invites_step hu hst inv').1 hinv' with harr | ⟨_, hnot⟩
        · cases harr
        · exact hnot (by simp [SocialAction.rejects, hkey])
      simp [Lowers, idPending, hpre, hpost]

/-- An id starts to name a pending invite when the invite arrives. -/
theorem arrives_of_raises {u v : SocialNode} {a : SocialAction} {inviteId : Bytes}
    (hu : InvitesNumbered k l u) (hst : u.step a = some v)
    (h : Raises (idPending k inviteId) ⟨u, a, v⟩ = true) :
    (u.arrives k a).map (·.inviteId) = some inviteId := by
  simp only [Raises, idPending, Bool.and_eq_true, Bool.not_eq_true', decide_eq_false_iff_not,
    decide_eq_true_eq] at h
  obtain ⟨inv, hinv, rfl⟩ := List.mem_map.1 h.2
  rcases (mem_invites_step hu hst inv).1 hinv with harr | ⟨hold, _⟩
  · simp [harr]
  · exact absurd (List.mem_map_of_mem hold) h.1

/-- **Answered invites.** In every run of fewer sections than there are invite numbers, each
acceptance and each rejection the game is told of is about an invite that had arrived and had not
been rejected, and names its sender and its lobby or session; and no invite is rejected twice. -/
theorem answered_invites (h : Trace SocialNode.step Always (.start localPid unicastPort) l t)
    (hlen : l.length + 2 < 2 ^ 64) (k : SocialKind) : AnsweredInvites k l := by
  have hat : ∀ before x after, l = before ++ x :: after →
      Trace SocialNode.step Always (.start localPid unicastPort) before x.pre ∧
      before.length + 2 < 2 ^ 64 ∧ x.pre.step x.action = some x.post := by
    intro before x after heq
    obtain ⟨hpre, _, hst⟩ := h.forall_mem heq
    have hshort := congrArg List.length heq
    rw [List.length_append, List.length_cons] at hshort
    exact ⟨hpre, by omega, hst⟩
  refine ⟨fun before x after inv heq hans => ?_, fun inviteId => ?_⟩
  · obtain ⟨hpre, hshort, _⟩ := hat before x after heq
    exact ((pending_invites hpre hshort k).pending inv).1 hans.mem
  · have hnumbered : ∀ x ∈ l, ∃ before, InvitesNumbered k before x.pre ∧
      x.pre.step x.action = some x.post := by
      intro x hx
      obtain ⟨before, after, heq⟩ := List.append_of_mem hx
      obtain ⟨hpre, hshort, hst⟩ := hat before x after heq
      exact ⟨before, invitesNumbered_of_trace hpre hshort k, hst⟩
    have hstart : idPending k inviteId (.start localPid unicastPort) = false := by
      simp [idPending, SocialNode.start]
    calc
      l.countP (TellsRejected k inviteId) ≤ l.countP (Lowers (idPending k inviteId)) := by
        refine List.countP_mono_left fun x hx htells => ?_
        obtain ⟨before, hu, hst⟩ := hnumbered x hx
        exact lowers_of_tellsRejected hu hst htells
      _ ≤ l.countP (Raises (idPending k inviteId)) := by
        rw [h.raises_eq hstart]
        exact Nat.le_add_right _ _
      _ ≤ l.countP fun x => (x.pre.arrives k x.action).map (·.inviteId) = some inviteId := by
        refine List.countP_mono_left fun x hx hraises => ?_
        obtain ⟨before, hu, hst⟩ := hnumbered x hx
        exact decide_eq_true (arrives_of_raises hu hst hraises)
      _ = (arrivedIds k l).count inviteId := by
        unfold arrivedIds arrived List.count
        rw [List.countP_map, List.countP_filterMap]
        refine List.countP_congr fun x _ => ?_
        cases x.pre.arrives k x.action <;> simp
      _ ≤ 1 := List.nodup_iff_count_le_one.1 (pending_invites h hlen k).names inviteId

/-- The user rejects an invite twice. -/
def sampleAnswers : List SocialAction :=
  [.inviteDatagram .session (str "s") (str "b") (str "a"), .acceptInviteFromOverlay .session
    (str "sinvite_1"),
    .rejectInviteFromOverlay .session (str "sinvite_1"), .rejectInviteFromOverlay .session
      (str "sinvite_1")]

/-- What is answered is the invite that had arrived. -/
theorem answered_invites_sample : ∃ t, exec SocialNode.step (.start (str "a") 7001) sampleAnswers =
    some t ∧
    AnsweredInvites .session (transitions SocialNode.step (.start (str "a") 7001) sampleAnswers) :=
  ⟨_, rfl, answered_invites (Trace.of_exec rfl) (by decide) .session⟩

end

end EOSEmu
