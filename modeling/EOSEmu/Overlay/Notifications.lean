import EOSEmu.Overlay.Visibility

/-!
# What the display handlers are told

After every tick outside a pause, each registered handler was told last what the overlay shows now;
nothing is told during a pause; and a handler is told the same again only after a registration or
the end of a pause (`display_notified`).
-/

namespace EOSEmu

open Lib

namespace UiDisplay
variable {s t : UiDisplay} {a : DisplayAction}

/-- What a handler was told last. -/
def told (s : UiDisplay) (id : UInt64) : Option DisplayInfo :=
  ((s.posted.filter fun n => n.1 = id).getLast?).map Prod.snd

/-- A step after which the next tick has to tell all handlers: a registration, or the end of a
pause. -/
def renews (s : UiDisplay) : DisplayAction → Bool
  | .addNotify _ => true
  | .pauseSocialOverlay isPaused => !isPaused && s.paused
  | _ => false

/-- The end of a tick outside a pause. -/
def refreshes (s : UiDisplay) : DisplayAction → Bool
  | .finishTick _ => !s.paused
  | _ => false

/-- Every handler is told. -/
theorem told_fireDisplaySettings {info : DisplayInfo} {id : UInt64} (h : id ∈ s.handlers) :
    (s.fireDisplaySettings info).told id = some info := by
  have hfilter : (s.handlers.map fun j => (j, info)).filter (fun n => n.1 = id) =
      List.replicate (s.handlers.count id) (id, info) := by
    rw [List.filter_map, List.count_eq_length_filter]
    refine List.eq_replicate_iff.2 ⟨?_, ?_⟩
    · rw [List.length_map]
      exact congrArg List.length (List.filter_congr fun j _ => (beq_eq_decide j id).symm)
    · intro n hn
      obtain ⟨j, hj, rfl⟩ := List.mem_map.1 hn
      simpa using (List.mem_filter.1 hj).2
  have hpos : s.handlers.count id ≠ 0 := (List.count_pos_iff.2 h).ne'
  unfold told fireDisplaySettings
  rw [List.filter_append, hfilter, List.getLast?_append, List.getLast?_replicate, if_neg hpos]
  rfl

/-- Showing or hiding the overlay posts nothing by itself. -/
theorem setVisibleInternal_notes (v : Bool) : (s.setVisibleInternal v).posted = s.posted ∧
    (s.setVisibleInternal v).last = s.last ∧ (s.setVisibleInternal v).handlers = s.handlers ∧
      (s.setVisibleInternal v).pendingInitialNotify = s.pendingInitialNotify := by
  unfold setVisibleInternal
  split <;> exact ⟨rfl, rfl, rfl, rfl⟩

/-- A step that is no end of a tick tells nobody. -/
structure NoteStep (s t : UiDisplay) (a : DisplayAction) : Prop where
  posted : t.posted = s.posted
  last : t.last = s.last
  handlers : ∀ id ∈ t.handlers, id ∈ s.handlers ∨ t.pendingInitialNotify = true
  pending : t.pendingInitialNotify = (s.pendingInitialNotify || s.renews a)

/-- A section that leaves the display's notifications alone. -/
theorem NoteStep.same (h : t.posted = s.posted ∧ t.last = s.last ∧ t.handlers = s.handlers ∧
    t.pendingInitialNotify = s.pendingInitialNotify) (ha : s.renews a = false) :
      NoteStep s t a where
  posted := h.1
  last := h.2.1
  handlers id hid := .inl (h.2.2.1 ▸ hid)
  pending := by rw [h.2.2.2, ha, Bool.or_false]

/-- Beside the end of a tick a section posts nothing. -/
theorem step_note (ha : ∀ e, a ≠ .finishTick e) (h : s.step a = some t) : NoteStep s t a := by
  cases a with
  | showFriends available =>
      obtain ⟨_, heq⟩ := Option.ite_none_left_eq_some.1 h
      cases heq
      unfold showFriends
      split
      · exact .same ⟨rfl, rfl, rfl, rfl⟩ rfl
      · dsimp only
        split
        · exact .same (setVisibleInternal_notes true) rfl
        · exact .same ⟨rfl, rfl, rfl, rfl⟩ rfl
  | hideFriends =>
      obtain ⟨_, heq⟩ := Option.ite_none_left_eq_some.1 h
      cases heq
      exact .same (setVisibleInternal_notes false) rfl
  | showPlayerModal =>
      obtain ⟨_, heq⟩ := Option.ite_none_left_eq_some.1 h
      cases heq
      unfold showPlayerModal
      split
      · exact .same (setVisibleInternal_notes true) rfl
      · exact .same ⟨rfl, rfl, rfl, rfl⟩ rfl
  | pauseSocialOverlay isPaused =>
      obtain ⟨_, heq⟩ := Option.ite_none_left_eq_some.1 h
      cases heq
      unfold pauseSocialOverlay
      split
      · next hpause =>
          have hset := setVisibleInternal_notes
            (s := { s with wasVisibleBeforePause := s.visible }) false
          refine .same hset ?_
          cases isPaused with
          | true => rfl
          | false => cases hpause
      · split
        · next hresume =>
            have hset := setVisibleInternal_notes (s := { s with paused := false }) true
            dsimp only
            split
            · exact ⟨hset.1, hset.2.1, fun _ _ => .inr rfl, by simp [renews, hresume]⟩
            · exact ⟨rfl, rfl, fun _ _ => .inr rfl, by simp [renews, hresume]⟩
        · next hidle => exact .same ⟨rfl, rfl, rfl, rfl⟩ (by simpa [renews] using hidle)
  | addNotify id =>
      obtain ⟨_, heq⟩ := Option.ite_none_left_eq_some.1 h
      cases heq
      exact ⟨rfl, rfl, fun _ _ => .inr rfl, by simp [renews]⟩
  | removeNotify id =>
      obtain ⟨_, heq⟩ := Option.ite_none_left_eq_some.1 h
      cases heq
      exact ⟨rfl, rfl, fun j hj => .inl (List.mem_of_mem_erase hj), by simp [renews]⟩
  | consume =>
      obtain ⟨_, heq⟩ := Option.ite_none_left_eq_some.1 h
      obtain ⟨v, _, rfl⟩ := Option.map_eq_some_iff.1 heq
      dsimp only
      split
      · exact .same (setVisibleInternal_notes v) rfl
      · exact .same ⟨rfl, rfl, rfl, rfl⟩ rfl
  | beginTick | readToggle | postHide =>
      obtain ⟨_, heq⟩ := Option.ite_none_left_eq_some.1 h
      cases heq
      exact .same ⟨rfl, rfl, rfl, rfl⟩ rfl
  | storeToggle =>
      obtain ⟨v, _, rfl⟩ := Option.map_eq_some_iff.1 h
      exact .same ⟨rfl, rfl, rfl, rfl⟩ rfl
  | storeHide =>
      obtain ⟨_, heq⟩ := Option.ite_none_right_eq_some.1 h
      cases heq
      exact .same ⟨rfl, rfl, rfl, rfl⟩ rfl
  | finishTick e => exact absurd rfl (ha e)

end UiDisplay

/-- A step renews what the handlers are owed, or the end of a tick settles it. -/
def RenewsNotify (x : DisplayTransition) : Prop := x.pre.renews x.action = true
def RefreshesNotify (x : DisplayTransition) : Prop := x.pre.refreshes x.action = true

/-- What was told last, and what is still owed. -/
structure NotesKept (l : List DisplayTransition) (s : UiDisplay) : Prop where
  told : ∀ id ∈ s.handlers, s.pendingInitialNotify = true ∨ s.told id = some s.last
  pending : s.pendingInitialNotify = true ↔ Since RenewsNotify RefreshesNotify l

/-- What the handlers are told in a run. -/
structure DisplayNotified (l : List DisplayTransition) : Prop where
  /-- After a tick outside a pause, every handler was told last what is shown. -/
  upToDate : ∀ x ∈ l, ∀ e, x.action = .finishTick e → x.pre.paused = false →
    ∀ id ∈ x.post.handlers, x.post.told id = some (x.post.info e)
  /-- Only such a tick tells anybody anything. -/
  silent : ∀ x ∈ l, x.post.posted ≠ x.pre.posted → x.pre.refreshes x.action = true
  /-- It tells a handler what that one was told last only after a registration or the end of a
  pause. -/
  needed : ∀ before x after e, l = before ++ x :: after → x.action = .finishTick e →
    x.post.posted ≠ x.pre.posted →
    (∀ id ∈ x.pre.handlers, x.pre.told id ≠ some (x.post.info e)) ∨
    Since RenewsNotify RefreshesNotify before

namespace NotesKept
variable {l : List DisplayTransition} {s t : UiDisplay} {a : DisplayAction}

/-- The end of a tick outside a pause leaves nothing to tell. -/
theorem finish (h : NotesKept l s) {e : Bool} (hp : s.paused = false) :
    (s.pumpDisplay e).pendingInitialNotify = false ∧
      ∀ id ∈ (s.pumpDisplay e).handlers, (s.pumpDisplay e).told id = some (s.info e) ∧
        (s.pumpDisplay e).last = s.info e := by
  unfold UiDisplay.pumpDisplay
  rw [hp, if_neg Bool.false_ne_true]
  split
  · exact ⟨rfl, fun id hid => ⟨UiDisplay.told_fireDisplaySettings hid, rfl⟩⟩
  · next hsettled =>
      rw [not_or, not_not, Bool.not_eq_true] at hsettled
      refine ⟨hsettled.1, fun id hid => ?_⟩
      rcases h.told id hid with hpending | htold
      · rw [hsettled.1] at hpending
        cases hpending
      · rw [hsettled.2]
        exact ⟨htold, rfl⟩

/-- A step keeps what was told and what is still to be told. -/
theorem step (h : NotesKept l s) (hst : s.step a = some t) : NotesKept (l ++ [⟨s, a, t⟩]) t := by
  by_cases ha : ∃ e, a = .finishTick e
  · obtain ⟨e, rfl⟩ := ha
    obtain ⟨_, heq⟩ := Option.ite_none_right_eq_some.1 hst
    cases heq
    cases hp : s.paused with
    | true =>
        have hpump : s.pumpDisplay e = s := if_pos hp
        have hnot : ¬ RefreshesNotify ⟨s, .finishTick e,
          { s.pumpDisplay e with ticking := false }⟩ := by
          simp [RefreshesNotify, UiDisplay.refreshes, hp]
        refine ⟨?_, ?_⟩
        · rw [hpump]
          exact h.told
        · rw [since_snoc, hpump]
          simpa [RenewsNotify, UiDisplay.renews, RefreshesNotify, UiDisplay.refreshes,
            hp] using h.pending
    | false =>
        obtain ⟨hsettled, htold⟩ := h.finish (e := e) hp
        refine ⟨fun id hid => ?_, ?_⟩
        · obtain ⟨hid, hlast⟩ := htold id hid
          exact .inr (hid.trans (congrArg some hlast.symm))
        · rw [since_snoc]
          simp [RenewsNotify, UiDisplay.renews, RefreshesNotify, UiDisplay.refreshes, hp, hsettled]
  · rw [not_exists] at ha
    have hnote := UiDisplay.step_note ha hst
    refine ⟨fun id hid => ?_, ?_⟩
    · rcases hnote.handlers id hid with hid | hpending
      · rcases h.told id hid with hpending | htold
        · exact .inl (by rw [hnote.pending, hpending, Bool.true_or])
        · refine .inr ?_
          rw [hnote.last, ← htold, UiDisplay.told, UiDisplay.told, hnote.posted]
      · exact .inl hpending
    · have hnot : s.refreshes a = false := by
        cases a with
        | finishTick e => exact absurd rfl (ha e)
        | _ => rfl
      rw [since_snoc, hnote.pending, Bool.or_eq_true, h.pending, or_comm]
      simp [RenewsNotify, RefreshesNotify, hnot]

end NotesKept

/-- **Handlers are told.** In every run, however the window's thread is interleaved, each handler
that is registered at the end of a tick outside a pause was told last whether the overlay is
visible and takes the input exclusively then; nothing is told at any other time; and a handler is
told the same twice in a row only after somebody registered or a pause ended. -/
theorem display_notified {l : List DisplayTransition} {s : UiDisplay}
    (h : Trace UiDisplay.step Always {} l s) : DisplayNotified l := by
  have hkept : ∀ {l s}, Trace UiDisplay.step Always {} l s → NotesKept l s := by
    intro l s h
    refine h.invariant (P := NotesKept)
      ⟨by simp, by simp [not_since_nil]⟩ fun l u v a _ hu _ hst => hu.step hst
  have hat : ∀ x ∈ l, ∃ before, NotesKept before x.pre ∧ x.pre.step x.action = some x.post := by
    intro x hx
    obtain ⟨before, after, heq⟩ := List.append_of_mem hx
    obtain ⟨hpre, _, hst⟩ := h.forall_mem heq
    exact ⟨before, hkept hpre, hst⟩
  refine ⟨fun x hx e ha hp id hid => ?_, fun x hx hposted =>
    ?_, fun before x after e heq ha hposted => ?_⟩
  · obtain ⟨before, hpre, hst⟩ := hat x hx
    rw [ha] at hst
    obtain ⟨_, hpost⟩ := Option.ite_none_right_eq_some.1 hst
    rw [← Option.some_inj.1 hpost] at hid ⊢
    have htold := ((hpre.finish (e := e) hp).2 id hid).1
    show (x.pre.pumpDisplay e).told id = some ⟨(x.pre.pumpDisplay e).visible, e⟩
    rw [UiDisplay.pumpDisplay_visible]
    exact htold
  · obtain ⟨before, hpre, hst⟩ := hat x hx
    by_cases ha : ∃ e, x.action = .finishTick e
    · obtain ⟨e, ha⟩ := ha
      rw [ha] at hst ⊢
      obtain ⟨_, hpost⟩ := Option.ite_none_right_eq_some.1 hst
      cases hp : x.pre.paused with
      | false => simp [UiDisplay.refreshes, hp]
      | true =>
          rw [← Option.some_inj.1 hpost, show x.pre.pumpDisplay e =
            x.pre from if_pos hp] at hposted
          exact absurd rfl hposted
    · rw [not_exists] at ha
      exact absurd (UiDisplay.step_note ha hst).posted hposted
  · obtain ⟨hpre, _, hst⟩ := h.forall_mem heq
    rw [← (hkept hpre).pending]
    cases hpending : x.pre.pendingInitialNotify with
    | true => exact .inr rfl
    | false =>
        refine .inl fun id hid htold => ?_
        rw [ha] at hst
        obtain ⟨_, hpost⟩ := Option.ite_none_right_eq_some.1 hst
        rw [← Option.some_inj.1 hpost] at hposted htold
        rcases (hkept hpre).told id hid with hsome | hlast
        · rw [hpending] at hsome
          cases hsome
        · rw [hlast, Option.some_inj] at htold
          have hinfo : x.pre.info e = x.pre.last := by simpa [UiDisplay.info] using htold.symm
          refine hposted ?_
          unfold UiDisplay.pumpDisplay
          split
          · rfl
          · rw [if_neg (by simp [hpending, hinfo])]

/-- Two handlers; the second registers while nothing changes, and both are told again. -/
def sampleHandlers : List DisplayAction :=
  [.addNotify 1, .showFriends true, .beginTick, .finishTick false, .addNotify 2, .beginTick,
    .finishTick false, .beginTick, .finishTick false]

/-- The first handler is told twice, the second one once. -/
theorem display_notified_sample : ∃ s, exec UiDisplay.step {} sampleHandlers = some s ∧
    DisplayNotified (transitions UiDisplay.step {} sampleHandlers) ∧
    s.posted = [(1, ⟨true, false⟩), (1, ⟨true, false⟩), (2, ⟨true, false⟩)] :=
  ⟨_, rfl, display_notified (Trace.of_exec rfl), by decide⟩

end EOSEmu
