import EOSEmu.Lib.Trace
import EOSEmu.Sdk

/-!
# Showing and closing the social overlay

The visibility of `UIInterface` (`UI.cpp`) and the state it shares with the thread that draws the
overlay (`OverlayInternal.h`). The interface owns `Visible_`; the window follows `WantVisible`,
which the interface writes along with it, and which the window's thread clears on its own when the
user closes the window. What the user asks for goes into one slot that the next tick consumes.
Steps are the calls of the game thread, the parts of a tick, and the single writes of the window's
thread.
-/

namespace EOSEmu

/-- The results of the calls. -/
inductive UiResult where
  | success
  | noChange
  | notConfigured
  deriving DecidableEq, Repr

/-- The part of `OverlayImpl` that both threads use, and what the window's thread is in the middle
of. -/
structure OverlayShared where
  wantVisible : Bool := false
  /-- `HasRequest` and `RequestVisible`. -/
  request : Option Bool := none
  /-- `RequestToggle` has read `WantVisible` and not stored its request yet. -/
  toggling : Option Bool := none
  /-- `RequestHide` has stored its request and not hidden the window yet. -/
  closing : Bool := false

/-- What a handler is told. -/
structure DisplayInfo where
  isVisible : Bool
  isExclusiveInput : Bool
  deriving DecidableEq, Repr

/-- The display state of `UIInterface`, with the ids of the registered handlers and the
notifications posted so far. -/
structure UiDisplay where
  visible : Bool := false
  paused : Bool := false
  wasVisibleBeforePause : Bool := false
  last : DisplayInfo := ⟨false, false⟩
  pendingInitialNotify : Bool := false
  handlers : List UInt64 := []
  posted : List (UInt64 × DisplayInfo) := []
  overlay : OverlayShared := {}
  /-- The game thread is in the loop of `PumpTick`. -/
  ticking : Bool := false

/-- What the threads do. -/
inductive DisplayAction where
  /-- `ShowFriends`, with what `Available` answers. -/
  | showFriends (available : Bool)
  | hideFriends
  /-- `ShowBlockPlayer`, `ShowReportPlayer` and `ShowNativeProfile`. -/
  | showPlayerModal
  | pauseSocialOverlay (isPaused : Bool)
  /-- `AddNotifyDisplaySettingsUpdated` and the id it draws. -/
  | addNotify (id : UInt64)
  | removeNotify (id : UInt64)
  /-- A tick begins to consume requests. -/
  | beginTick
  /-- `ConsumeUserVisibilityRequest` finds a request. -/
  | consume
  /-- It finds none; the rest of the tick, with what `IsExclusiveInput` answers. -/
  | finishTick (exclusive : Bool)
  /-- The two halves of `RequestToggle`. -/
  | readToggle
  | storeToggle
  /-- The two halves of `RequestHide`. -/
  | postHide
  | storeHide
  deriving DecidableEq, Repr

namespace UiDisplay
variable (s : UiDisplay)

/-- `SetVisibleInternal`. -/
def setVisibleInternal (visible : Bool) : UiDisplay :=
  if s.visible = visible then s
  else { s with visible, overlay := { s.overlay with wantVisible := visible } }

/-- `ShowFriends`. -/
def showFriends (available : Bool) : UiResult × UiDisplay :=
  -- claiming visibility without an overlay soft-locks a game that pauses while it is up
  if !available then (.notConfigured, s)
  else (if s.visible then .noChange else .success,
    if !s.paused then s.setVisibleInternal true else { s with wasVisibleBeforePause := true })

/-- `HideFriends`. -/
def hideFriends : UiResult × UiDisplay :=
  (if s.visible then .success else .noChange, s.setVisibleInternal false)

/-- `ShowPlayerModal`. -/
def showPlayerModal : UiDisplay := if !s.paused then s.setVisibleInternal true else s

/-- `PauseSocialOverlay`. -/
def pauseSocialOverlay (isPaused : Bool) : UiDisplay :=
  if isPaused && !s.paused then
    { ({ s with wasVisibleBeforePause := s.visible } : UiDisplay).setVisibleInternal
      false with paused := true }
  else if !isPaused && s.paused then
    let s := { s with paused := false }
    { (if s.wasVisibleBeforePause then s.setVisibleInternal true
      else s) with pendingInitialNotify := true }
  else s

/-- `FireDisplaySettings`. -/
def fireDisplaySettings (info : DisplayInfo) : UiDisplay :=
  { s with posted := s.posted ++ s.handlers.map fun id => (id, info) }

/-- What the handlers would be told now. -/
def info (exclusive : Bool) : DisplayInfo := ⟨s.visible, exclusive⟩

/-- The end of `PumpTick`: notifications are delayed while paused. -/
def pumpDisplay (exclusive : Bool) : UiDisplay :=
  if s.paused then s
  else if s.pendingInitialNotify ∨ s.info exclusive ≠ s.last then
    { s.fireDisplaySettings (s.info exclusive) with
      last := s.info exclusive, pendingInitialNotify := false }
  else s

/-- One step. -/
def step : DisplayAction → Option UiDisplay
  | .showFriends available => if s.ticking then none else some (s.showFriends available).2
  | .hideFriends => if s.ticking then none else some s.hideFriends.2
  | .showPlayerModal => if s.ticking then none else some s.showPlayerModal
  | .pauseSocialOverlay isPaused => if s.ticking then none else some
    (s.pauseSocialOverlay isPaused)
  | .addNotify id =>
      if s.ticking then none else some
          { s with handlers := s.handlers ++ [id], pendingInitialNotify := true }
  | .removeNotify id => if s.ticking then none else some { s with handlers := s.handlers.erase id }
  | .beginTick => if s.ticking then none else some { s with ticking := true }
  | .consume =>
      if !s.ticking then none
      else s.overlay.request.map fun visible =>
        let s := { s with overlay := { s.overlay with request := none } }
        -- while paused, the user's requests are swallowed
        if !s.paused then s.setVisibleInternal visible else s
  | .finishTick exclusive =>
      if s.ticking ∧ s.overlay.request = none then some
        { s.pumpDisplay exclusive with ticking := false } else none
  | .readToggle =>
      if s.overlay.toggling.isSome ∨ s.overlay.closing then none
      else some { s with overlay := { s.overlay with toggling := some (!s.overlay.wantVisible) } }
  | .storeToggle => s.overlay.toggling.map fun visible =>
      { s with overlay := { s.overlay with request := some visible, toggling := none } }
  | .postHide =>
      if s.overlay.toggling.isSome ∨ s.overlay.closing then none
      else some { s with overlay := { s.overlay with request := some false, closing := true } }
  | .storeHide =>
      if s.overlay.closing then some
        { s with overlay := { s.overlay with wantVisible := false, closing := false } }
      else none

end UiDisplay

end EOSEmu
