import EOSEmu.Social.Pending

/-!
# Joins started in the overlay

A join click takes a number of `NextUiEventId` and keeps a snapshot of the lobby or session under
it, until the game acknowledges the event. What one section does to the snapshots (`step_uiEvent`),
that the numbers are handed out once (`uiEventsNumbered_of_trace`), and from both what a number
resolves to after a whole run (`ui_events_resolve`).
-/

namespace EOSEmu

open Lib

/-- The event that a section acknowledges. -/
def SocialAction.acknowledges : SocialAction → Option UInt64
  | .acknowledgeEventId uiEventId => some uiEventId
  | _ => none

namespace SocialNode

/-- The number and the snapshot that a join click stores with an interface. -/
def storesEvent (n : SocialNode) (k : SocialKind) : SocialAction → Option (UInt64 × k.Record)
  | .beginJoinFromOverlay j subject => if j = k then ((n.known k).get? subject).map
    (n.nextUiEventId, ·) else none
  | _ => none

/-- A section takes a number, of this platform or of another one. -/
def takesNumber (n : SocialNode) : SocialAction → Bool
  | .beginJoinFromOverlay j subject => ((n.known j).get? subject).isSome
  | .otherPlatform => true
  | _ => false

/-- What an interface keeps under a number. -/
def uiEvent (n : SocialNode) (k : SocialKind) (ev : UInt64) : Option k.Record :=
  (n.book k).uiEvents.get? ev

variable {n t : SocialNode} {a : SocialAction} {k : SocialKind} {ev : UInt64}

/-- Joining from the overlay stores the cached record under the next event. -/
theorem storesEvent_self {subject : Bytes} {r : k.Record} (hr : (n.known k).get? subject = some r) :
    n.storesEvent k (.beginJoinFromOverlay k subject) = some (n.nextUiEventId, r) := by
  simp [storesEvent, hr]

/-- An interface that stores a snapshot stores it under the number it takes. -/
theorem takesNumber_of_storesEvent {e : UInt64} {r : k.Record}
    (h : n.storesEvent k a = some (e, r)) : e = n.nextUiEventId ∧ n.takesNumber a = true := by
  unfold storesEvent at h
  split at h
  · next j subject =>
      split at h
      · next hj =>
          subst hj
          obtain ⟨r', hr', heq⟩ := Option.map_eq_some_iff.1 h
          cases heq
          exact ⟨rfl, by simp [takesNumber, hr']⟩
      · cases h
  · cases h

/-- A section stores a snapshot with one interface only. -/
theorem storesEvent_sole {j : SocialKind} (hne : j ≠ k) (h : (n.storesEvent k a).isSome) :
    n.storesEvent j a = none := by
  cases a with
  | beginJoinFromOverlay i subject =>
      refine if_neg ?_
      rintro rfl
      rw [storesEvent, if_neg hne] at h
      cases h
  | _ => rfl

/-- The snapshots of an interface after a section, and the next number. -/
structure UiEventStep (n t : SocialNode) (a : SocialAction) : Prop where
  event : ∀ k ev, t.uiEvent k ev = match n.storesEvent k a with
    | some (e, r) => if ev = e then some r else n.uiEvent k ev
    | none => if a.acknowledges = some ev then none else n.uiEvent k ev
  next : t.nextUiEventId = if n.takesNumber a then n.nextUiEventId + 1 else n.nextUiEventId

/-- A section without join clicks. -/
theorem UiEventStep.idle (hstores : ∀ k, n.storesEvent k a = none) (hack : a.acknowledges = none)
    (htakes : n.takesNumber a = false) (hbook : ∀ k, (t.book k).uiEvents = (n.book k).uiEvents)
    (hnext : t.nextUiEventId = n.nextUiEventId) : UiEventStep n t a := by
  constructor
  · intro k ev
    rw [hstores, hack, SocialNode.uiEvent, hbook]
    simp [SocialNode.uiEvent]
  · rw [htakes, hnext]
    rfl

/-- Writing a book that stores the same events changes none. -/
theorem setBook_uiEvents {j : SocialKind} {b : Invitations j.Record}
    (hb : b.uiEvents = (n.book j).uiEvents) (k : SocialKind) :
    ((n.setBook j b).book k).uiEvents = (n.book k).uiEvents := by
  rcases eq_or_ne k j with rfl | hne
  · rw [setBook_same, hb]
  · rw [setBook_ne b hne]

/-- What a section does to the snapshots. -/
theorem step_uiEvent (h : n.step a = some t) : UiEventStep n t a := by
  unfold step at h
  obtain ⟨⟨u, notes⟩, hout, rfl⟩ := Option.map_eq_some_iff.1 h
  cases a with
  | lobby b =>
      obtain ⟨lobby, _, hu⟩ := Option.map_eq_some_iff.1 hout
      cases hu
      exact .idle (fun _ => rfl) rfl rfl (fun _ => rfl) rfl
  | session b =>
      obtain ⟨o, _, hu⟩ := Option.map_eq_some_iff.1 hout
      cases hu
      exact .idle (fun _ => rfl) rfl rfl (fun _ => rfl) rfl
  | sessionDatagram | acceptInviteFromOverlay =>
      cases hout
      exact .idle (fun _ => rfl) rfl rfl (fun _ => rfl) rfl
  | inviteDatagram j subject fromPid toPid =>
      simp only [outcome] at hout
      split at hout <;> cases hout
      · exact .idle (fun _ => rfl) rfl rfl (fun _ => rfl) rfl
      · exact .idle (fun _ => rfl) rfl rfl (setBook_uiEvents rfl) rfl
  | rejectInvite j inviteId =>
      cases hout
      refine .idle (fun _ => rfl) rfl rfl (setBook_uiEvents ?_) rfl
      unfold Invitations.rejectInvite
      split
      · rfl
      · split <;> rfl
  | rejectInviteFromOverlay j inviteId =>
      simp only [outcome] at hout
      split at hout <;> cases hout
      · exact .idle (fun _ => rfl) rfl rfl (fun _ => rfl) rfl
      · exact .idle (fun _ => rfl) rfl rfl (setBook_uiEvents rfl) rfl
  | beginJoinFromOverlay j subject =>
      simp only [outcome] at hout
      split at hout
      · next hnone =>
          cases hout
          refine .idle (fun k => ?_) rfl (by simp [takesNumber, hnone]) (fun _ => rfl) rfl
          unfold storesEvent
          dsimp only
          split
          · next hj =>
              subst hj
              simp [hnone]
          · rfl
      · next r hr =>
          cases hout
          refine ⟨fun k ev => ?_, by simp [takesNumber, hr]⟩
          rcases eq_or_ne j k with rfl | hne
          · rw [storesEvent_self hr]
            simp [uiEvent, Invitations.beginJoin]
          · simp [uiEvent, storesEvent, hne, hne.symm, SocialAction.acknowledges]
  | acknowledgeEventId uiEventId =>
      cases hout
      refine ⟨fun k ev => ?_, rfl⟩
      simp [uiEvent, storesEvent, Invitations.acknowledgeUiEvent, SocialAction.acknowledges,
        eq_comm]
  | otherPlatform =>
      cases hout
      refine ⟨fun k ev => ?_, rfl⟩
      simp [uiEvent, storesEvent, SocialAction.acknowledges]

end SocialNode

/-! ## Numbers over a run -/

/-- An interface stores a snapshot under a number. -/
def StoresEvent (k : SocialKind) (ev : UInt64) (r : k.Record) (x : SocialTransition) : Prop :=
  x.pre.storesEvent k x.action = some (ev, r)

/-- The event is acknowledged. -/
def AcknowledgesEvent (ev : UInt64) (x : SocialTransition) : Prop :=
  x.action.acknowledges = some ev

/-- The snapshots lie under numbers that were handed out, each with one interface. -/
structure UiEventsNumbered (t : SocialNode) : Prop where
  range : ∀ k ev r, t.uiEvent k ev = some r → 0 < ev.toNat ∧ ev.toNat < t.nextUiEventId.toNat
  sole : ∀ j k ev, j ≠ k → (t.uiEvent k ev).isSome → t.uiEvent j ev = none
  next : 0 < t.nextUiEventId.toNat

section
variable {localPid : Bytes} {unicastPort : UInt16} {l : List SocialTransition} {t : SocialNode}
  {k : SocialKind} {ok : SocialNode → SocialAction → Prop}

/-- The next number counts the ones taken. -/
theorem nextUiEventId_le (h : Trace SocialNode.step ok (.start localPid unicastPort) l t) :
    t.nextUiEventId.toNat ≤ 1 + l.length := by
  refine h.counted (f := fun u => u.nextUiEventId.toNat) fun u v a _ hst => ?_
  rw [(SocialNode.step_uiEvent hst).next]
  split
  · rw [UInt64.toNat_add]
    exact Nat.mod_le _ _
  · exact Nat.le_succ _

/-- A snapshot that is there after a section was there before it, or is stored by it under the next
number. -/
theorem uiEvent_after {u v : SocialNode} {a : SocialAction} (hst : u.step a = some v)
    {k : SocialKind} {ev : UInt64} {r : k.Record} (h : v.uiEvent k ev = some r) :
    (u.storesEvent k a = some (ev, r) ∧ ev = u.nextUiEventId) ∨
      (u.uiEvent k ev = some r ∧ a.acknowledges ≠ some ev) := by
  rw [(SocialNode.step_uiEvent hst).event] at h
  split at h
  · next e r' hstore =>
      have hnum := (SocialNode.takesNumber_of_storesEvent hstore).1
      split at h
      · next he =>
          cases h
          subst he
          exact .inl ⟨hstore, hnum⟩
      · refine .inr ⟨h, ?_⟩
        cases a with
        | acknowledgeEventId => cases hstore
        | _ => simp [SocialAction.acknowledges]
  · split at h
    · cases h
    · next hack => exact .inr ⟨h, hack⟩

/-- A section keeps the numbers apart. -/
theorem UiEventsNumbered.step {u v : SocialNode} {a : SocialAction} (hu : UiEventsNumbered u)
    (hst : u.step a = some v) (hroom : u.nextUiEventId.toNat + 1 < 2 ^ 64) :
    UiEventsNumbered v := by
  have hstep := SocialNode.step_uiEvent hst
  have hsucc : (u.nextUiEventId + 1).toNat = u.nextUiEventId.toNat + 1 := by
    rw [UInt64.toNat_add]
    exact Nat.mod_eq_of_lt hroom
  have hle : u.nextUiEventId.toNat ≤ v.nextUiEventId.toNat := by
    rw [hstep.next]
    split
    · omega
    · exact Nat.le_refl _
  have hstored : ∀ {k e r}, u.storesEvent k a = some (e, r) →
    v.nextUiEventId.toNat = u.nextUiEventId.toNat + 1 := by
    intro k e r hstore
    rw [hstep.next, (SocialNode.takesNumber_of_storesEvent hstore).2, if_pos rfl, hsucc]
  have hfresh : ∀ k, u.uiEvent k u.nextUiEventId = none := by
    intro k
    cases hev : u.uiEvent k u.nextUiEventId with
    | none => rfl
    | some r => exact absurd (hu.range k _ r hev).2 (Nat.lt_irrefl _)
  refine ⟨?_, ?_, by have := hu.next; omega⟩
  · intro k ev r hev
    rcases uiEvent_after hst hev with ⟨hstore, rfl⟩ | ⟨hold, _⟩
    · exact ⟨hu.next, by rw [hstored hstore]; omega⟩
    · have hrange := hu.range k ev r hold
      omega
  · intro j k ev hne hsome
    obtain ⟨r, hr⟩ := Option.isSome_iff_exists.1 hsome
    cases hj : v.uiEvent j ev with
    | none => rfl
    | some r' =>
        exfalso
        rcases uiEvent_after hst hr with ⟨hstore, rfl⟩ | ⟨hold, _⟩ <;>
          rcases uiEvent_after hst hj with ⟨hstore', heq⟩ | ⟨hold', _⟩
        · rw [SocialNode.storesEvent_sole hne (by rw [hstore]; rfl)] at hstore'
          cases hstore'
        · rw [hfresh j] at hold'
          cases hold'
        · rw [heq, hfresh k] at hold
          cases hold
        · rw [hu.sole j k ev hne (by rw [hold]; rfl)] at hold'
          cases hold'

/-- A run of fewer sections than there are numbers keeps the numbers apart. -/
theorem uiEventsNumbered_of_trace (h : Trace SocialNode.step ok (.start localPid unicastPort) l t)
    (hlen : l.length + 2 < 2 ^ 64) : UiEventsNumbered t := by
  revert hlen
  refine h.invariant (P := fun l t => l.length + 2 < 2 ^ 64 → UiEventsNumbered t) (fun _ => ?_) ?_
  · constructor <;> simp [SocialNode.start, SocialNode.uiEvent]
  · intro l u v a hl ih _ hst hlen
    rw [List.length_append, List.length_singleton] at hlen
    have hle := nextUiEventId_le hl
    exact (ih (by omega)).step hst (by omega)

/-! ## What a number resolves to -/

/-- What the game resolves a `UiEventId` to. -/
structure UiEventsResolve (l : List SocialTransition) (t : SocialNode) : Prop where
  /-- The record the interface had of the lobby or session when the user clicked, until the game
  acknowledges. -/
  resolves : ∀ k ev r, (t.book k).copyDetailsByUiEventId ev = (.success, some r) ↔
    Since (StoresEvent k ev r) (AcknowledgesEvent ev) l
  /-- A number names a join of one interface only. -/
  sole : ∀ j k ev, j ≠ k → ((t.book k).copyDetailsByUiEventId ev).1 = .success →
    (t.book j).copyDetailsByUiEventId ev = (.notFound, none)
  /-- `EOS_UI_EVENTID_INVALID` names none. -/
  invalid : ∀ k, (t.book k).copyDetailsByUiEventId 0 = (.notFound, none)
  /-- The number the game is told is the one the snapshot lies under. -/
  told : ∀ x ∈ l, ∀ k ev, .joinAccepted k ev ∈ x.pre.posted x.action → ∃ r, StoresEvent k ev r x

/-- A stored event gives its record. -/
theorem copyDetails_eq_success {ρ : Type} {b : Invitations ρ} {ev : UInt64} {r : ρ} :
    b.copyDetailsByUiEventId ev = (.success, some r) ↔ b.uiEvents.get? ev = some r := by
  unfold Invitations.copyDetailsByUiEventId
  cases b.uiEvents.get? ev <;> simp

/-- Any other is not found. -/
theorem copyDetails_of_none {ρ : Type} {b : Invitations ρ} {ev : UInt64}
    (h : b.uiEvents.get? ev = none) : b.copyDetailsByUiEventId ev = (.notFound, none) := by
  unfold Invitations.copyDetailsByUiEventId
  rw [h]

/-- A join is announced by the click that stores its snapshot. -/
theorem SocialNode.posted_joinAccepted {n : SocialNode} {a : SocialAction} {ev : UInt64}
    (h : .joinAccepted k ev ∈ n.posted a) : ∃ r, n.storesEvent k a = some (ev, r) := by
  unfold posted at h
  cases a with
  | lobby b => cases hb : n.lobby.step b <;> simp [outcome, hb] at h
  | session b => cases hb : n.sessions.outcome b <;> simp [outcome, hb] at h
  | sessionDatagram | rejectInvite | acknowledgeEventId | otherPlatform => simp [outcome] at h
  | inviteDatagram j subject fromPid toPid =>
      simp only [outcome] at h
      split at h <;> simp at h
  | acceptInviteFromOverlay j inviteId | rejectInviteFromOverlay j inviteId =>
      cases hfind : (n.book j).find inviteId <;> simp [outcome, hfind] at h
  | beginJoinFromOverlay j subject =>
      cases hr : (n.known j).get? subject with
      | none => simp [outcome, hr] at h
      | some r =>
          simp only [outcome, hr, Option.map_some, Option.getD_some, List.mem_singleton,
            SocialNote.joinAccepted.injEq] at h
          obtain ⟨rfl, rfl⟩ := h
          exact ⟨r, storesEvent_self hr⟩

/-- What a section does to one snapshot. -/
theorem uiEvent_step_iff {u v : SocialNode} {a : SocialAction} (hu : UiEventsNumbered u)
    (hst : u.step a = some v) (k : SocialKind) (ev : UInt64) (r : k.Record) :
    v.uiEvent k ev = some r ↔
      u.storesEvent k a = some (ev, r) ∨
      (u.uiEvent k ev = some r ∧ ¬ a.acknowledges = some ev) := by
  constructor
  · intro h
    rcases uiEvent_after hst h with ⟨hstore, _⟩ | hold
    · exact .inl hstore
    · exact .inr hold
  · rw [(SocialNode.step_uiEvent hst).event]
    rintro (hstore | ⟨hold, hack⟩)
    · simp [hstore]
    · split
      · next e r' hstore =>
          have hlt := (hu.range k ev r hold).2
          have hne : ev ≠ e := by
            rintro rfl
            rw [(SocialNode.takesNumber_of_storesEvent hstore).1] at hlt
            exact Nat.lt_irrefl _ hlt
          rw [if_neg hne]
          exact hold
      · rw [if_neg hack]
        exact hold

/-- **Joins resolve.** After every run of fewer sections than there are numbers, in which the
lobbies and sessions of the node may change in any way, a number resolves with an interface to the
record that interface knew when the user clicked, exactly from the click until the game
acknowledges the event; it resolves with one of the interfaces only, and zero resolves with none.
The game is told the number of its own click. -/
theorem ui_events_resolve (h : Trace SocialNode.step Always (.start localPid unicastPort) l t)
    (hlen : l.length + 2 < 2 ^ 64) : UiEventsResolve l t := by
  have hnumbered := uiEventsNumbered_of_trace h hlen
  refine ⟨fun k ev r => ?_, fun j k ev hne hsome => ?_, fun k => ?_, fun x _ k ev =>
    SocialNode.posted_joinAccepted⟩
  · rw [copyDetails_eq_success]
    refine h.standing (F := fun u => u.uiEvent k ev = some r)
      (by simp [SocialNode.start, SocialNode.uiEvent]) ?_
    intro before x after heq
    obtain ⟨hpre, _, hst⟩ := h.forall_mem heq
    have hshort := congrArg List.length heq
    rw [List.length_append, List.length_cons] at hshort
    exact uiEvent_step_iff (uiEventsNumbered_of_trace hpre (by omega)) hst k ev r
  · refine copyDetails_of_none (hnumbered.sole j k ev hne ?_)
    cases hev : t.uiEvent k ev with
    | none =>
        rw [copyDetails_of_none hev] at hsome
        cases hsome
    | some r => rfl
  · refine copyDetails_of_none ?_
    cases hev : t.uiEvent k 0 with
    | none => exact hev
    | some r => exact absurd (hnumbered.range k 0 r hev).1 (Nat.lt_irrefl _)

/-- A lobby somebody has announced. -/
def sampleAnnounced : LobbyRecord :=
  { lobbyId := str "l", ownerProductId := str "b", maxMembers := 4 }

/-- The user clicks join, the lobby closes before the game gets to it, and the game asks for the
details. -/
def sampleOverlayJoin : List SocialAction :=
  [.lobby (.datagram 1 ⟨0x0A000002, 7002⟩ (.announce sampleAnnounced)), .otherPlatform,
    .beginJoinFromOverlay .lobby (str "l"),
    .lobby (.datagram 2 ⟨0x0A000002, 7002⟩ (.leave (str "l") (str "b") lmsClosed))]

/-- The event gives the record although the lobby is closed. -/
theorem ui_events_resolve_sample :
    ∃ t r, exec SocialNode.step (.start (str "a") 7001) sampleOverlayJoin = some t ∧
    UiEventsResolve (transitions SocialNode.step (.start (str "a") 7001) sampleOverlayJoin) t ∧
    (t.known .lobby).get? (str "l") = none ∧ (t.book .lobby).copyDetailsByUiEventId 2 =
      (.success, some r) :=
  ⟨_, _, rfl, ui_events_resolve (Trace.of_exec rfl) (by decide), rfl, rfl⟩

end

end EOSEmu
