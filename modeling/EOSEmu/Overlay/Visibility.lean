import EOSEmu.Lib.Standing
import EOSEmu.Overlay.Display

/-!
# When the overlay is visible

The overlay is visible exactly if it is not paused and was asked to show, and not asked to hide
since (`visible_as_asked`). The window shows nothing that the interface does not report, and shows
all it reports but for a close that waits for its tick, in every run where no toggle overtakes such
a close (`window_follows`). Where one does, the interface goes on to report an overlay that no
window shows and no toggle brings back (`window_lost`).
-/

namespace EOSEmu

open Lib

/-- A transition of the display state. -/
abbrev DisplayTransition := Transition UiDisplay DisplayAction

namespace UiDisplay
variable {s t : UiDisplay} {a : DisplayAction}

/-- Whether the overlay is to be visible when it is not paused. -/
def wanted (s : UiDisplay) : Bool := if s.paused then s.wasVisibleBeforePause else s.visible

/-- A step asks for the overlay. -/
def shows (s : UiDisplay) : DisplayAction → Bool
  | .showFriends available => available
  | .showPlayerModal => !s.paused
  | .consume => !s.paused && s.overlay.request = some true
  | _ => false

/-- A step asks for it to go. -/
def hides (s : UiDisplay) : DisplayAction → Bool
  | .hideFriends => !s.paused
  | .consume => !s.paused && s.overlay.request = some false
  | _ => false

@[simp] theorem setVisibleInternal_visible (v : Bool) : (s.setVisibleInternal v).visible = v := by
  unfold setVisibleInternal
  split
  · assumption
  · rfl

@[simp] theorem setVisibleInternal_paused (v : Bool) :
    (s.setVisibleInternal v).paused = s.paused := by
  unfold setVisibleInternal
  split <;> rfl

@[simp] theorem setVisibleInternal_was (v : Bool) :
    (s.setVisibleInternal v).wasVisibleBeforePause = s.wasVisibleBeforePause := by
  unfold setVisibleInternal
  split <;> rfl

@[simp] theorem setVisibleInternal_request (v : Bool) :
    (s.setVisibleInternal v).overlay.request = s.overlay.request := by
  unfold setVisibleInternal
  split <;> rfl

@[simp] theorem setVisibleInternal_toggling (v : Bool) :
    (s.setVisibleInternal v).overlay.toggling = s.overlay.toggling := by
  unfold setVisibleInternal
  split <;> rfl

@[simp] theorem setVisibleInternal_closing (v : Bool) :
    (s.setVisibleInternal v).overlay.closing = s.overlay.closing := by
  unfold setVisibleInternal
  split <;> rfl

@[simp] theorem pumpDisplay_visible (e : Bool) : (s.pumpDisplay e).visible = s.visible := by
  unfold pumpDisplay
  split
  · rfl
  · split <;> rfl

@[simp] theorem pumpDisplay_paused (e : Bool) : (s.pumpDisplay e).paused = s.paused := by
  unfold pumpDisplay
  split
  · rfl
  · split <;> rfl

@[simp] theorem pumpDisplay_was (e : Bool) :
    (s.pumpDisplay e).wasVisibleBeforePause = s.wasVisibleBeforePause := by
  unfold pumpDisplay
  split
  · rfl
  · split <;> rfl

@[simp] theorem pumpDisplay_overlay (e : Bool) : (s.pumpDisplay e).overlay = s.overlay := by
  unfold pumpDisplay
  split
  · rfl
  · split <;> rfl

/-- What a step does to the visibility. -/
structure VisibleStep (s t : UiDisplay) (a : DisplayAction) : Prop where
  hidden : t.paused = true → t.visible = false
  wanted : t.wanted = (s.shows a || (s.wanted && !s.hides a))

/-- A step that has nothing to do with the visibility. -/
theorem VisibleStep.same (hs : s.paused = true → s.visible = false)
    (hpaused : t.paused = s.paused) (hvisible : t.visible = s.visible)
    (hwas : t.wasVisibleBeforePause = s.wasVisibleBeforePause) (hshows : s.shows a = false)
    (hhides : s.hides a = false) : VisibleStep s t a := by
  refine ⟨by rwa [hpaused, hvisible], ?_⟩
  simp [UiDisplay.wanted, hpaused, hvisible, hwas, hshows, hhides]

/-- What one section does to what the interface reports. -/
theorem step_visible (hs : s.paused = true → s.visible = false) (h : s.step a = some t) :
    VisibleStep s t a := by
  cases a with
  | showFriends available =>
      obtain ⟨_, heq⟩ := Option.ite_none_left_eq_some.1 h
      cases heq
      cases available with
      | false => exact .same hs rfl rfl rfl rfl rfl
      | true => cases hp : s.paused <;> constructor <;>
          simp_all [showFriends, UiDisplay.wanted, UiDisplay.shows]
  | hideFriends =>
      obtain ⟨_, heq⟩ := Option.ite_none_left_eq_some.1 h
      cases heq
      cases hp : s.paused <;> constructor <;>
        simp_all [hideFriends, UiDisplay.wanted, UiDisplay.shows, UiDisplay.hides]
  | showPlayerModal =>
      obtain ⟨_, heq⟩ := Option.ite_none_left_eq_some.1 h
      cases heq
      cases hp : s.paused <;> constructor <;>
        simp_all [showPlayerModal, UiDisplay.wanted, UiDisplay.shows, UiDisplay.hides]
  | pauseSocialOverlay isPaused =>
      obtain ⟨_, heq⟩ := Option.ite_none_left_eq_some.1 h
      cases heq
      cases isPaused <;> cases hp : s.paused <;> cases hw : s.wasVisibleBeforePause <;>
        constructor <;>
        simp_all [pauseSocialOverlay, UiDisplay.wanted, UiDisplay.shows, UiDisplay.hides]
  | consume =>
      obtain ⟨_, heq⟩ := Option.ite_none_left_eq_some.1 h
      obtain ⟨v, hv, rfl⟩ := Option.map_eq_some_iff.1 heq
      cases v <;> cases hp : s.paused <;> constructor <;>
        simp_all [UiDisplay.wanted, UiDisplay.shows, UiDisplay.hides]
  | addNotify | removeNotify | beginTick =>
      obtain ⟨_, heq⟩ := Option.ite_none_left_eq_some.1 h
      cases heq
      exact .same hs rfl rfl rfl rfl rfl
  | finishTick exclusive =>
      obtain ⟨_, heq⟩ := Option.ite_none_right_eq_some.1 h
      cases heq
      refine .same hs ?_ ?_ ?_ rfl rfl <;> simp
  | readToggle | postHide =>
      obtain ⟨_, heq⟩ := Option.ite_none_left_eq_some.1 h
      cases heq
      exact .same hs rfl rfl rfl rfl rfl
  | storeToggle =>
      obtain ⟨v, _, rfl⟩ := Option.map_eq_some_iff.1 h
      exact .same hs rfl rfl rfl rfl rfl
  | storeHide =>
      obtain ⟨_, heq⟩ := Option.ite_none_right_eq_some.1 h
      cases heq
      exact .same hs rfl rfl rfl rfl rfl

end UiDisplay

/-! ## The interface -/

/-- A step asks for the overlay, or for it to go. -/
def AsksToShow (x : DisplayTransition) : Prop := x.pre.shows x.action = true
def AsksToHide (x : DisplayTransition) : Prop := x.pre.hides x.action = true

/-- The overlay is visible as it was asked to be. -/
structure VisibleAsAsked (l : List DisplayTransition) (s : UiDisplay) : Prop where
  hidden : s.paused = true → s.visible = false
  asked : s.visible = true ↔ s.paused = false ∧ Since AsksToShow AsksToHide l

/-- A paused overlay is never reported as shown. -/
theorem hidden_of_run {ok : UiDisplay → DisplayAction → Prop} {s : UiDisplay}
    (h : Run UiDisplay.step ok {} s) : s.paused = true → s.visible = false :=
  h.invariant (P := fun s => s.paused = true → s.visible = false)
    (fun _ => rfl) fun _ _ _ hu _ hst =>
    (UiDisplay.step_visible hu hst).hidden

/-- **Visible as asked.** In every run of the game thread and the window's thread, however a tick
is interleaved with the user's clicks, the overlay is visible exactly if it is not paused and was
asked to show and not to hide since: by `ShowFriends` where there is an overlay, by a player dialog
or the user's toggle outside a pause. A hide counts outside a pause only, so that what was visible
before a pause, or was asked for during it, comes back with its end. -/
theorem visible_as_asked {l : List DisplayTransition} {s : UiDisplay}
    (h : Trace UiDisplay.step Always {} l s) : VisibleAsAsked l s := by
  have hhidden := hidden_of_run h.run
  have hwanted : s.wanted = true ↔ Since AsksToShow AsksToHide l := by
    refine h.standing (F := fun s => s.wanted = true)
      (by simp [UiDisplay.wanted]) fun before x after heq => ?_
    obtain ⟨hpre, _, hst⟩ := h.forall_mem heq
    rw [(UiDisplay.step_visible (hidden_of_run hpre.run) hst).wanted, Bool.or_eq_true,
      Bool.and_eq_true, Bool.not_eq_true', ← Bool.not_eq_true]
    rfl
  refine ⟨hhidden, ?_⟩
  rw [← hwanted]
  cases hp : s.paused with
  | false => simp [UiDisplay.wanted, hp]
  | true => simp [hhidden hp]

/-- The friends are shown, the overlay pauses, hiding has no effect then, and they come back. -/
def samplePause : List DisplayAction :=
  [.showFriends true, .pauseSocialOverlay true, .hideFriends, .pauseSocialOverlay false]

/-- A pause hides the overlay, and it is shown again only when asked for. -/
theorem visible_as_asked_sample : ∃ s, exec UiDisplay.step {} samplePause = some s ∧
    VisibleAsAsked (transitions UiDisplay.step {} samplePause) s ∧ s.visible = true :=
  ⟨_, rfl, visible_as_asked (Trace.of_exec rfl), rfl⟩

/-! ## The window -/

/-- A toggle does not overtake a close that waits for its tick, and the window's thread hides the
window before the tick consumes the close. -/
def KeepsClose (s : UiDisplay) : DisplayAction → Prop
  | .storeToggle => s.overlay.wantVisible = s.visible ∨ s.overlay.toggling = some false
  | .storeHide => s.visible = false ∨ s.overlay.request = some false
  | _ => True

/-- The window shows what the interface reports, or was closed and the next tick will report
that. -/
structure WindowFollows (s : UiDisplay) : Prop where
  shown : s.overlay.wantVisible = true → s.visible = true
  follows : s.overlay.wantVisible = s.visible ∨ s.overlay.request = some false

namespace WindowFollows
variable {s t : UiDisplay} {a : DisplayAction}

/-- It is about three fields. -/
theorem of_fields (h : WindowFollows s) (hwant : t.overlay.wantVisible = s.overlay.wantVisible)
    (hvisible : t.visible = s.visible) (hrequest : t.overlay.request = s.overlay.request) :
      WindowFollows t where
  shown := by rw [hwant, hvisible]; exact h.shown
  follows := by rw [hwant, hvisible, hrequest]; exact h.follows

/-- A hidden window that the interface reports hidden. -/
theorem of_eq (h : t.overlay.wantVisible = t.visible) : WindowFollows t :=
  ⟨fun hwant => h ▸ hwant, .inl h⟩

/-- The interface writes both along. -/
theorem setVisibleInternal (h : WindowFollows s) (v : Bool) :
    WindowFollows (s.setVisibleInternal v) := by
  unfold UiDisplay.setVisibleInternal
  split
  · exact h
  · exact .of_eq rfl

/-- Pausing the overlay keeps the window on its way to what is reported. -/
theorem pauseSocialOverlay (h : WindowFollows s) (isPaused : Bool) :
    WindowFollows (s.pauseSocialOverlay isPaused) := by
  unfold UiDisplay.pauseSocialOverlay
  split
  · have hwas : WindowFollows { s with wasVisibleBeforePause := s.visible } :=
      h.of_fields rfl rfl rfl
    exact (hwas.setVisibleInternal false).of_fields rfl rfl rfl
  · split
    · dsimp only
      split
      · have hrunning : WindowFollows { s with paused := false } := h.of_fields rfl rfl rfl
        exact (hrunning.setVisibleInternal true).of_fields rfl rfl rfl
      · exact h.of_fields rfl rfl rfl
    · exact h

/-- What the tick makes of a request. -/
theorem consume (h : WindowFollows s) (hhidden : s.paused = true → s.visible = false)
    (hst : s.step .consume = some t) : WindowFollows t := by
  obtain ⟨_, heq⟩ := Option.ite_none_left_eq_some.1 hst
  obtain ⟨v, hv, rfl⟩ := Option.map_eq_some_iff.1 heq
  have hoff : s.visible = false → s.overlay.wantVisible = false := by
    intro hvisible
    rw [← Bool.not_eq_true]
    exact fun hwant => Bool.false_ne_true (hvisible.symm.trans (h.shown hwant))
  dsimp only
  split
  · unfold UiDisplay.setVisibleInternal
    split
    · next hsame =>
        refine .of_eq (t := { s with overlay := { s.overlay with request := none } }) ?_
        show s.overlay.wantVisible = s.visible
        rcases h.follows with hfollows | hclose
        · exact hfollows
        · rw [hv, Option.some_inj] at hclose
          have hvisible : s.visible = false := Eq.trans hsame hclose
          rw [hoff hvisible, hvisible]
    · exact .of_eq rfl
  · next hp =>
      have hvisible := hhidden (by simpa using hp)
      refine .of_eq ?_
      show s.overlay.wantVisible = s.visible
      rw [hoff hvisible, hvisible]

/-- A step that keeps the user's closing keeps the window on its way to what is reported. -/
theorem step (h : WindowFollows s) (hhidden : s.paused = true → s.visible = false)
    (hok : KeepsClose s a) (hst : s.step a = some t) : WindowFollows t := by
  cases a with
  | showFriends available =>
      obtain ⟨_, heq⟩ := Option.ite_none_left_eq_some.1 hst
      cases heq
      unfold UiDisplay.showFriends
      split
      · exact h
      · dsimp only
        split
        · exact h.setVisibleInternal true
        · exact h.of_fields rfl rfl rfl
  | hideFriends =>
      obtain ⟨_, heq⟩ := Option.ite_none_left_eq_some.1 hst
      cases heq
      exact h.setVisibleInternal false
  | showPlayerModal =>
      obtain ⟨_, heq⟩ := Option.ite_none_left_eq_some.1 hst
      cases heq
      unfold UiDisplay.showPlayerModal
      split
      · exact h.setVisibleInternal true
      · exact h
  | pauseSocialOverlay isPaused =>
      obtain ⟨_, heq⟩ := Option.ite_none_left_eq_some.1 hst
      cases heq
      exact h.pauseSocialOverlay isPaused
  | consume => exact h.consume hhidden hst
  | addNotify | removeNotify | beginTick | readToggle =>
      obtain ⟨_, heq⟩ := Option.ite_none_left_eq_some.1 hst
      cases heq
      exact h.of_fields rfl rfl rfl
  | finishTick exclusive =>
      obtain ⟨_, heq⟩ := Option.ite_none_right_eq_some.1 hst
      cases heq
      refine h.of_fields ?_ ?_ ?_ <;> simp
  | storeToggle =>
      obtain ⟨v, hv, rfl⟩ := Option.map_eq_some_iff.1 hst
      refine ⟨h.shown, ?_⟩
      rcases hok with heq | hfalse
      · exact .inl heq
      · rw [hv, Option.some_inj] at hfalse
        exact .inr (congrArg some hfalse)
  | postHide =>
      obtain ⟨_, heq⟩ := Option.ite_none_left_eq_some.1 hst
      cases heq
      exact ⟨h.shown, .inr rfl⟩
  | storeHide =>
      obtain ⟨_, heq⟩ := Option.ite_none_right_eq_some.1 hst
      cases heq
      refine ⟨by simp, ?_⟩
      rcases hok with hvisible | hrequest
      · exact .inl hvisible.symm
      · exact .inr hrequest

end WindowFollows

/-- The interface reports an overlay that the window does not show, and no request is on its way
that could change it. -/
structure WindowLost (s : UiDisplay) : Prop where
  visible : s.visible = true
  hidden : s.overlay.wantVisible = false
  running : s.paused = false
  request : s.overlay.request ≠ some false
  toggling : s.overlay.toggling ≠ some false
  closing : s.overlay.closing = false

/-- The game neither hides nor pauses the overlay, and the window, which is not shown, is not
closed. -/
def LeftAlone (_ : UiDisplay) : DisplayAction → Prop
  | .hideFriends => False
  | .pauseSocialOverlay isPaused => isPaused = false
  | .postHide => False
  | _ => True

namespace WindowLost
variable {s t : UiDisplay} {a : DisplayAction}

/-- Whether a window is lost depends on what is reported, on the pause and on the window's
requests. -/
theorem of_fields (h : WindowLost s) (hvisible : t.visible = s.visible)
    (hpaused : t.paused = s.paused) (hoverlay : t.overlay = s.overlay) : WindowLost t where
  visible := hvisible.trans h.visible
  hidden := hoverlay ▸ h.hidden
  running := hpaused.trans h.running
  request := hoverlay ▸ h.request
  toggling := hoverlay ▸ h.toggling
  closing := hoverlay ▸ h.closing

/-- Showing what is reported as shown changes nothing. -/
theorem set_true (h : WindowLost s) : s.setVisibleInternal true = s := if_pos h.visible

/-- A lost window stays lost as long as it is left alone. -/
theorem step (h : WindowLost s) (hok : LeftAlone s a) (hst : s.step a = some t) :
    WindowLost t := by
  cases a with
  | showFriends available =>
      obtain ⟨_, heq⟩ := Option.ite_none_left_eq_some.1 hst
      cases heq
      unfold UiDisplay.showFriends
      split
      · exact h
      · rw [h.running, h.set_true]
        exact h
  | showPlayerModal =>
      obtain ⟨_, heq⟩ := Option.ite_none_left_eq_some.1 hst
      cases heq
      rw [UiDisplay.showPlayerModal, h.running, h.set_true]
      exact h
  | hideFriends | postHide => exact hok.elim
  | pauseSocialOverlay isPaused =>
      obtain ⟨_, heq⟩ := Option.ite_none_left_eq_some.1 hst
      cases heq
      rw [show isPaused = false from hok, UiDisplay.pauseSocialOverlay, h.running]
      exact h
  | addNotify | removeNotify | beginTick =>
      obtain ⟨_, heq⟩ := Option.ite_none_left_eq_some.1 hst
      cases heq
      exact h.of_fields rfl rfl rfl
  | consume =>
      obtain ⟨_, heq⟩ := Option.ite_none_left_eq_some.1 hst
      obtain ⟨v, hv, rfl⟩ := Option.map_eq_some_iff.1 heq
      have htrue : v = true := by
        cases v with
        | true => rfl
        | false => exact absurd hv h.request
      have hdrained : WindowLost { s with overlay := { s.overlay with request := none } } :=
        ⟨h.visible, h.hidden, h.running, by simp, h.toggling, h.closing⟩
      subst htrue
      dsimp only
      split
      · rw [hdrained.set_true]
        exact hdrained
      · exact hdrained
  | finishTick exclusive =>
      obtain ⟨_, heq⟩ := Option.ite_none_right_eq_some.1 hst
      cases heq
      refine h.of_fields ?_ ?_ ?_ <;> simp
  | readToggle =>
      obtain ⟨_, heq⟩ := Option.ite_none_left_eq_some.1 hst
      cases heq
      exact ⟨h.visible, h.hidden, h.running, h.request, by simp [h.hidden], h.closing⟩
  | storeToggle =>
      obtain ⟨v, hv, rfl⟩ := Option.map_eq_some_iff.1 hst
      have hnot : some v ≠ some false := by
        rw [← hv]
        exact h.toggling
      exact ⟨h.visible, h.hidden, h.running, hnot, by simp, h.closing⟩
  | storeHide =>
      obtain ⟨hclosing, _⟩ := Option.ite_none_right_eq_some.1 hst
      rw [h.closing] at hclosing
      cases hclosing

end WindowLost

/-- **A lost window.** Once a toggle has overtaken a close, the interface reports an overlay that
the window does not show, and it stays so whatever the user toggles, however many ticks run and
however often the game shows the friends, until the game hides or pauses the overlay. -/
theorem window_lost {s t : UiDisplay} {l : List DisplayTransition} (hs : WindowLost s)
    (h : Trace UiDisplay.step LeftAlone s l t) : WindowLost t :=
  h.run.invariant (P := WindowLost) hs fun _ _ _ hu hok hst => hu.step hok hst

/-- The user closes the window and toggles it before the next tick. -/
def sampleOvertaken : List DisplayAction :=
  [.showFriends true, .postHide, .storeHide, .readToggle, .storeToggle]

/-- A tick, another toggle, and another tick. -/
def sampleToggles : List DisplayAction :=
  [.beginTick, .consume, .finishTick false, .readToggle, .storeToggle, .beginTick, .consume,
    .finishTick false]

/-- The executable form of `LeftAlone`. -/
def leftAloneTest (_ : UiDisplay) : DisplayAction → Bool
  | .hideFriends | .postHide => false
  | .pauseSocialOverlay isPaused => !isPaused
  | _ => true

/-- A step that passes the test meets `LeftAlone`. -/
theorem leftAlone_of_test (s : UiDisplay) (a : DisplayAction) (h : leftAloneTest s a = true) :
    LeftAlone s a := by
  cases a with
  | hideFriends | postHide => cases h
  | pauseSocialOverlay isPaused => simpa [leftAloneTest, LeftAlone] using h
  | _ => trivial

/-- What that leaves. -/
def sampleLost : UiDisplay := (exec UiDisplay.step {} sampleOvertaken).getD {}

/-- A window lost by a toggle between two ticks stays lost through two more toggles. -/
theorem window_lost_sample : exec UiDisplay.step {} sampleOvertaken = some sampleLost ∧
    ∃ t, execIf UiDisplay.step leftAloneTest sampleLost sampleToggles = some t ∧ WindowLost t :=
  ⟨rfl, _, rfl, window_lost (l := transitions UiDisplay.step sampleLost sampleToggles)
    ⟨rfl, rfl, rfl, by decide, by decide, rfl⟩ (Trace.of_execIf leftAlone_of_test rfl)⟩

end EOSEmu
