import EOSEmu.Core.IniConfig
import EOSEmu.Lib.Conveyor
import EOSEmu.Lib.Register

/-!
# Logging

`core/Logging.cpp`: a message goes to the callback of the game, which filters by category, and to a
sink with a level of its own. `Log` decides under the mutex and calls the game after it, so that a
callback can be replaced in between (`messages_routed`). The texts come formatted; the time in a
line of the sink, and the process id in its path, are left out.
-/

namespace EOSEmu

open Lib

/-- `EOS_ELogLevel`, as an `int`: the lower it is, the more severe. -/
def logOff : Int := 0
def logFatal : Int := 100
def logError : Int := 200
def logWarning : Int := 300
def logInfo : Int := 400
def logVerbose : Int := 500
def logVeryVerbose : Int := 600

/-- `kCategoryCount`, and `EOS_LC_ALL_CATEGORIES`. -/
def kCategoryCount : ℕ := 32
def lcAllCategories : Int := 0x7fffffff

/-- `ParseLevel`. -/
def parseLevel (name : Bytes) (default : Int) : Int :=
  let l := IniConfig.lower name
  if l.isEmpty then default
  else if l = str "off" then logOff
  else if l = str "fatal" then logFatal
  else if l = str "error" then logError
  else if l = str "warning" ∨ l = str "warn" then logWarning
  else if l = str "info" then logInfo
  else if l = str "verbose" then logVerbose
  else if l = str "veryverbose" then logVeryVerbose
  else default

/-- `LevelName`. -/
def levelName (level : Int) : Bytes :=
  if level = logOff then str "Off"
  else if level = logFatal then str "Fatal"
  else if level = logError then str "Error"
  else if level = logWarning then str "Warning"
  else if level = logInfo then str "Info"
  else if level = logVerbose then str "Verbose"
  else if level = logVeryVerbose then str "VeryVerbose"
  else str "?"

/-- The cases of `CategoryName`, in the order of `EOS_ELogCategory`. -/
def categoryNames : List String :=
  ["LogEOS", "LogEOSAuth", "LogEOSFriends", "LogEOSPresence", "LogEOSUserInfo", "LogHttp",
    "LogEOSEcom", "LogEOSP2P",
    "LogEOSSessions", "LogEOSRateLimiter", "LogEOSPlayerDataStorage", "LogEOSAnalytics",
      "LogEOSMessaging",
    "LogEOSConnect", "LogEOSOverlay", "LogEOSAchievements", "LogEOSStats", "LogEOSUI",
      "LogEOSLobby",
    "LogEOSLeaderboards", "LogEOSKeychain", "LogEOSIntegratedPlatform", "LogEOSTitleStorage",
      "LogEOSMods",
    "LogEOSAntiCheat", "LogEOSReports", "LogEOSSanctions", "LogEOSProgressionSnapshots",
      "LogEOSKWS", "LogEOSRTC",
    "LogEOSRTCAdmin", "LogEOSCustomInvites"]

/-- Whether `Log` filters a category. -/
def categoryOk (category : Int) : Bool := 0 ≤ category && category < kCategoryCount

/-- `CategoryName`. -/
def categoryName (category : Int) : Bytes :=
  if categoryOk category then str (categoryNames[category.toNat]?.getD "LogEOS") else str "LogEOS"

/-- `EOS_LogMessage`. -/
structure LogMessage where
  category : Bytes
  message : Bytes
  level : Int
  deriving DecidableEq, Repr

/-- A line of the sink. -/
inductive LogLine where
  | opened (level : Bytes)
  | message (level category text : Bytes)
  deriving DecidableEq, Repr

/-- The state of `core/Logging.cpp`; of the open file, its path. -/
structure Logging where
  callback : Option ℕ := none
  emuFile : Option Bytes := none
  emuFilePath : Bytes := []
  emuConsole : Bool := false
  emuLevel : Int := logOff
  levels : ℕ → Int := fun _ => logOff
  levelsInit : Bool := false

namespace Logging
variable (s : Logging)

/-- `EnsureLevels`. -/
def ensureLevels : Logging :=
  if s.levelsInit then s else { s with levels := fun _ => logWarning, levelsInit := true }

/-- The tests of `Log`, for the game and for the sink. -/
def wantConsumer (category level : Int) : Bool :=
  s.callback.isSome && (!categoryOk category || level ≤ s.levels category.toNat)

def wantEmu (level : Int) : Bool := (s.emuFile.isSome || s.emuConsole) && level ≤ s.emuLevel

/-- `EOS_Logging_SetLogLevel`; it fails for a category that does not exist. -/
def setLogLevel (category level : Int) : Bool × Logging :=
  let t := s.ensureLevels
  if category = lcAllCategories then (true, { t with levels := fun _ => level })
  else if !categoryOk category then (false, t)
  else (true, { t with levels := fun i => if i = category.toNat then level else t.levels i })

/-- `ConfigureEmuLogSink`, on the path of the file; `opens` tells whether it can be opened. -/
def configureEmuLogSink (filePath : Bytes) (console : Bool) (levelName : Bytes) (opens : Bool) :
    Logging :=
  let level := parseLevel levelName logInfo
  let t := { s with emuConsole := console, emuLevel := if filePath ≠ [] ∨
    console then level else logOff }
  if filePath = s.emuFilePath then t
  else { t with emuFilePath := filePath, emuFile := if filePath ≠ [] ∧
    opens then some filePath else none }

/-- `ResetLogging`. -/
def resetLogging : Logging :=
  { s with
    callback := none
    levelsInit := false
    emuFile := none
    emuFilePath := []
    emuConsole := false
    emuLevel := logOff }

end Logging

/-- The logging, and the calls of the game that `Log` has decided on. -/
structure LogNode where
  logging : Logging := {}
  calls : List (ℕ × LogMessage) := []

/-- What happens. -/
inductive LogAction where
  /-- `Log`, with the text that its format gives. -/
  | log (category level : Int) (text : Bytes)
  /-- The `i`-th decided call happens. -/
  | call (i : ℕ)
  | setCallback (callback : Option ℕ)
  | setLogLevel (category level : Int)
  | configureEmuLogSink (filePath : Bytes) (console : Bool) (levelName : Bytes) (opens : Bool)
  | resetLogging

/-- What `Log` keeps of a text in its buffer. -/
def logBuffer (text : Bytes) : Bytes := text.take 1023

namespace LogNode
variable (s : LogNode)

/-- The calls that a step decides on. -/
def decides : LogAction → List (ℕ × LogMessage)
  | .log category level text =>
      if s.logging.ensureLevels.wantConsumer category level then
        (s.logging.callback.map fun callback =>
          (callback, { category := categoryName category, message := logBuffer text, level
              })).toList
      else []
  | _ => []

/-- The calls that happen. -/
def delivers : LogAction → List (ℕ × LogMessage)
  | .call i => (s.calls[i]?).toList
  | _ => []

/-- What a step prints to the file, with the path of the file, and to the console. -/
def printsFile : LogAction → List (Bytes × LogLine)
  | .log category level text =>
      if s.logging.wantEmu level then
        s.logging.emuFile.toList.map fun path =>
          (path, .message (levelName level) (categoryName category) (logBuffer text))
      else []
  | .configureEmuLogSink filePath _ level opens =>
      if filePath ≠ s.logging.emuFilePath ∧ filePath ≠ [] ∧ opens then
        [(filePath, .opened (if level.isEmpty then str "Info" else level))]
      else []
  | _ => []

def printsConsole : LogAction → List LogLine
  | .log category level text =>
      if s.logging.wantEmu level ∧ s.logging.emuConsole then
        [.message (levelName level) (categoryName category) (logBuffer text)]
      else []
  | _ => []

/-- One step. -/
def step : LogAction → Option LogNode
  | .log category level text =>
      some { logging := s.logging.ensureLevels, calls := s.calls ++
        s.decides (.log category level text) }
  | .call i => (s.calls[i]?).map fun _ => { s with calls := s.calls.eraseIdx i }
  | .setCallback callback => some { s with logging := { s.logging with callback } }
  | .setLogLevel category level =>
    some { s with logging := (s.logging.setLogLevel category level).2 }
  | .configureEmuLogSink filePath console levelName opens =>
      some { s with logging := s.logging.configureEmuLogSink filePath console levelName opens }
  | .resetLogging => some { s with logging := s.logging.resetLogging }

end LogNode

/-! ## A run -/

abbrev LogTransition := Transition LogNode LogAction

/-- The callback, the level of a category and the console and level of the sink that a step
sets. -/
def LogAction.setsCallback : LogAction → Option (Option ℕ)
  | .setCallback callback => some callback
  | .resetLogging => some none
  | _ => none

def LogAction.setsLevel (category : Int) : LogAction → Option Int
  | .setLogLevel category' level =>
      if category' = category ∨ category' = lcAllCategories then some level else none
  | .resetLogging => some logWarning
  | _ => none

def LogAction.setsSink : LogAction → Option (Bool × Int)
  | .configureEmuLogSink filePath console levelName _ =>
      some (console, if filePath ≠ [] ∨ console then parseLevel levelName logInfo else logOff)
  | .resetLogging => some (false, logOff)
  | _ => none

/-- The path that a step configures. -/
def LogAction.setsPath : LogAction → Option Bytes
  | .configureEmuLogSink filePath _ _ _ => some filePath
  | .resetLogging => some []
  | _ => none

/-- The file that is open after a step that closes or opens one. -/
def setsFile (x : LogTransition) : Option (Option Bytes) :=
  match x.action with
  | .configureEmuLogSink filePath _ _ opens =>
      if filePath = x.pre.logging.emuFilePath then none
      else some (if filePath ≠ [] ∧ opens then some filePath else none)
  | .resetLogging => some none
  | _ => none

/-- Where a message goes after every run. -/
structure LogRouted (l : List LogTransition) (s : LogNode) : Prop where
  /-- The game is called back as it said last, with the messages that pass the level it set last
  for their category. -/
  handed : ∀ category level text, s.decides (.log category level text) =
    if categoryOk category = true → level ≤ lastWrite (fun x => x.action.setsLevel category)
      logWarning l then
      ((lastWrite (fun x => x.action.setsCallback) none l).map fun callback =>
        (callback, { category := categoryName category, message := logBuffer text, level })).toList
    else []
  /-- Each decided call happens once, or is still to happen. -/
  completed : (flow LogNode.decides l).Perm (flow LogNode.delivers l ++ s.calls)
  /-- The sink prints what passes the level it was configured with last. -/
  file : ∀ category level text, s.printsFile (.log category level text) =
    if level ≤ (lastWrite (fun x => x.action.setsSink) (false, logOff) l).2 then
      (lastWrite setsFile none l).toList.map fun path =>
        (path, .message (levelName level) (categoryName category) (logBuffer text))
    else []
  console : ∀ category level text, s.printsConsole (.log category level text) =
    if (lastWrite (fun x => x.action.setsSink) (false, logOff) l).1 = true ∧
        level ≤ (lastWrite (fun x => x.action.setsSink) (false, logOff) l).2 then
      [.message (levelName level) (categoryName category) (logBuffer text)]
    else []
  /-- The open file is the one whose path was configured last. -/
  opened : ∀ path, lastWrite setsFile none l = some path →
    path ≠ [] ∧ lastWrite (fun x => x.action.setsPath) [] l = path

section
variable {s t u v : LogNode} {a : LogAction} {l : List LogTransition} {category level : Int}

/-- Levels once set are not set again. -/
theorem ensureLevels_of_init {s : Logging} (h : s.levelsInit = true) : s.ensureLevels = s :=
  if_pos h

/-- After that the levels are set. -/
theorem ensureLevels_init (s : Logging) : s.ensureLevels.levelsInit = true := by
  unfold Logging.ensureLevels
  cases h : s.levelsInit with
  | true => exact h
  | false => rfl

/-- What the levels are: the ones set, or warnings everywhere. -/
theorem ensureLevels_levels (s : Logging) :
    s.ensureLevels.levels = if s.levelsInit then s.levels else fun _ => logWarning := by
  unfold Logging.ensureLevels
  split <;> rfl

@[simp] theorem ensureLevels_callback (s : Logging) : s.ensureLevels.callback = s.callback := by
  unfold Logging.ensureLevels
  split <;> rfl

/-- What the sink has is not touched by the levels. -/
theorem ensureLevels_sink (s : Logging) : s.ensureLevels.emuConsole = s.emuConsole ∧
    s.ensureLevels.emuLevel = s.emuLevel ∧ s.ensureLevels.emuFile = s.emuFile ∧
    s.ensureLevels.emuFilePath = s.emuFilePath := by
  unfold Logging.ensureLevels
  split <;> exact ⟨rfl, rfl, rfl, rfl⟩

/-- `SetLogLevel` touches the levels only. -/
theorem setLogLevel_cases (s : Logging) (category level : Int) : ∃ levels,
    (s.setLogLevel category level).2 = { s.ensureLevels with levels } ∧
    ∀ category', categoryOk category' = true → levels category'.toNat =
        ((LogAction.setLogLevel category level).setsLevel category').getD
          (s.ensureLevels.levels category'.toNat) := by
  unfold Logging.setLogLevel LogAction.setsLevel
  dsimp only
  split
  · next hall => exact ⟨_, rfl, fun category' _ => by simp [hall]⟩
  · next hall =>
      split
      · next hbad =>
          refine ⟨s.ensureLevels.levels, rfl, fun category' hok => ?_⟩
          have hne : category ≠ category' := by
            rintro rfl
            simp [hok] at hbad
          simp [hall, hne]
      · next hgood =>
          refine ⟨_, rfl, fun category' hok => ?_⟩
          have hiff : category'.toNat = category.toNat ↔ category = category' := by
            simp only [categoryOk, Bool.not_eq_true', Bool.not_eq_false, Bool.and_eq_true,
              decide_eq_true_eq] at hgood hok
            omega
          by_cases heq : category = category'
          · simp [heq]
          · have hne : category'.toNat ≠ category.toNat := fun h => heq (hiff.1 h)
            simp [hne, heq, hall]

/-- The callback is the one set last. -/
theorem step_callback (h : u.step a = some v) :
    v.logging.callback = a.setsCallback.getD u.logging.callback := by
  cases a with
  | log | setCallback | resetLogging =>
      cases h
      simp [LogAction.setsCallback, Logging.resetLogging]
  | call i =>
      obtain ⟨_, _, rfl⟩ := Option.map_eq_some_iff.1 h
      rfl
  | setLogLevel category level =>
      cases h
      obtain ⟨levels, hset, _⟩ := setLogLevel_cases u.logging category level
      simp [hset, LogAction.setsCallback]
  | configureEmuLogSink filePath console levelName opens =>
      cases h
      simp only [Logging.configureEmuLogSink]
      split <;> rfl

/-- The level that the next use finds. -/
theorem step_levels (hok : categoryOk category = true) (h : u.step a = some v) :
    v.logging.ensureLevels.levels category.toNat =
      (a.setsLevel category).getD (u.logging.ensureLevels.levels category.toNat) := by
  cases a with
  | log =>
      cases h
      rw [ensureLevels_of_init (ensureLevels_init _)]
      rfl
  | call i =>
      obtain ⟨_, _, rfl⟩ := Option.map_eq_some_iff.1 h
      rfl
  | setLogLevel category' level =>
      cases h
      obtain ⟨levels, hset, hlevels⟩ := setLogLevel_cases u.logging category' level
      rw [hset, ← hlevels category hok]
      have hsame := ensureLevels_of_init (s := { u.logging.ensureLevels with levels })
        (ensureLevels_init u.logging)
      exact congrFun (congrArg Logging.levels hsame) _
  | setCallback | resetLogging =>
      cases h
      simp only [ensureLevels_levels]
      rfl
  | configureEmuLogSink filePath console levelName opens =>
      cases h
      simp only [Logging.configureEmuLogSink, ensureLevels_levels]
      split <;> rfl

/-- What a step does to the sink. -/
theorem step_sink (h : u.step a = some v) :
    (v.logging.emuConsole, v.logging.emuLevel) = a.setsSink.getD
      (u.logging.emuConsole, u.logging.emuLevel) ∧
      v.logging.emuFilePath = a.setsPath.getD u.logging.emuFilePath ∧
      v.logging.emuFile = (setsFile ⟨u, a, v⟩).getD u.logging.emuFile := by
  cases a with
  | log =>
      cases h
      obtain ⟨hconsole, hlevel, hfile, hpath⟩ := ensureLevels_sink u.logging
      exact ⟨by rw [hconsole, hlevel]; rfl, hpath, hfile⟩
  | call i =>
      obtain ⟨_, _, rfl⟩ := Option.map_eq_some_iff.1 h
      exact ⟨rfl, rfl, rfl⟩
  | setLogLevel category level =>
      cases h
      obtain ⟨levels, hset, _⟩ := setLogLevel_cases u.logging category level
      obtain ⟨hconsole, hlevel, hfile, hpath⟩ := ensureLevels_sink u.logging
      rw [hset]
      exact ⟨by rw [hconsole, hlevel]; rfl, hpath, hfile⟩
  | setCallback | resetLogging =>
      cases h
      exact ⟨rfl, rfl, rfl⟩
  | configureEmuLogSink filePath console levelName opens =>
      cases h
      simp only [Logging.configureEmuLogSink, setsFile]
      split
      · next hsame => exact ⟨rfl, hsame.symm, rfl⟩
      · exact ⟨rfl, rfl, rfl⟩

/-- A call that is decided on happens, or is held. -/
theorem calls_step (h : u.step a = some v) : (u.calls ++ u.decides a).Perm (u.delivers a ++
      v.calls) := by
  cases a with
  | log | setCallback | setLogLevel | configureEmuLogSink | resetLogging =>
      cases h
      simp [LogNode.delivers, LogNode.decides]
  | call i =>
      obtain ⟨call, hi, rfl⟩ := Option.map_eq_some_iff.1 h
      simpa [LogNode.delivers, LogNode.decides, hi] using perm_take hi

/-- An open file has the configured path. -/
theorem step_file
    (hfile : ∀ path, u.logging.emuFile = some path → path ≠ [] ∧ u.logging.emuFilePath = path)
    (h : u.step a = some v) : ∀ path, v.logging.emuFile = some path → path ≠ [] ∧
    v.logging.emuFilePath = path := by
  intro path hpath
  obtain ⟨_, hsetPath, hsetFile⟩ := step_sink h
  rw [hsetFile] at hpath
  rw [hsetPath]
  cases a with
  | log | call | setLogLevel | setCallback => exact hfile path hpath
  | resetLogging => cases hpath
  | configureEmuLogSink filePath console levelName opens =>
      simp only [setsFile] at hpath
      split at hpath
      · next hsame =>
          obtain ⟨hne, heq⟩ := hfile path hpath
          exact ⟨hne, hsame.trans heq⟩
      · split at hpath
        · next hopens =>
            cases hpath
            exact ⟨hopens.1, rfl⟩
        · cases hpath

/-- `Log` tests for the level that was set last. -/
theorem wantConsumer_iff (h : Trace LogNode.step Always {} l s) :
    s.logging.ensureLevels.wantConsumer category level = true ↔ s.logging.callback.isSome = true ∧
      (categoryOk category = true → level ≤ lastWrite
        (fun x => x.action.setsLevel category) logWarning l) := by
  cases hok : categoryOk category with
  | false => simp [Logging.wantConsumer, hok]
  | true =>
      have hlevel := h.register (f := fun x => x.action.setsLevel category)
        (r := fun u => u.logging.ensureLevels.levels category.toNat) fun _ _ _ => step_levels hok
      have hstart : ({} : LogNode).logging.ensureLevels.levels category.toNat = logWarning := rfl
      dsimp only at hlevel
      rw [hstart] at hlevel
      simp [Logging.wantConsumer, hok, hlevel]

/-- **Logging.** In every run of threads that log, call back, set the callback, a level or the
sink, and reset: a message is handed to the callback that was set last, once, exactly if it passes
the level that was set last for its category, which is Warning before that and after a reset; and
the sink prints what passes its last level, to the file that is open for the path configured last
and to the console. -/
theorem messages_routed (h : Trace LogNode.step Always {} l s) : LogRouted l s := by
  have hcallback := h.register (f := fun x => x.action.setsCallback)
    (r := fun u => u.logging.callback) fun _ _ _ => step_callback
  have hsink := h.register (f := fun x => x.action.setsSink)
    (r := fun u => (u.logging.emuConsole, u.logging.emuLevel)) fun _ _ _ hst => (step_sink hst).1
  have hpath := h.register (f := fun x => x.action.setsPath) (r := fun u => u.logging.emuFilePath)
    fun _ _ _ hst => (step_sink hst).2.1
  have hfile := h.register (f := setsFile) (r := fun u => u.logging.emuFile) fun _ _ _ hst =>
    (step_sink hst).2.2
  dsimp only at hcallback hsink hpath hfile
  refine ⟨fun category level text => ?_, ?_, fun category level text =>
    ?_, fun category level text => ?_, fun path hopen => ?_⟩
  · have hwant : s.logging.ensureLevels.wantConsumer category level =
        true ↔ _ := wantConsumer_iff h
    rw [← hcallback]
    unfold LogNode.decides
    cases hset : s.logging.callback with
    | none => simp
    | some callback =>
        rw [hset, Option.isSome_some] at hwant
        exact if_congr (hwant.trans (and_iff_right rfl)) rfl rfl
  · exact h.invariant (P := fun l s => (flow LogNode.decides l).Perm
      (flow LogNode.delivers l ++ s.calls)) (.refl _)
      fun _ _ _ _ _ ih _ hst => flow_perm_snoc ih (calls_step hst)
  · rw [← hsink, ← hfile]
    unfold LogNode.printsFile Logging.wantEmu
    cases s.logging.emuFile <;> simp
  · rw [← hsink]
    unfold LogNode.printsConsole Logging.wantEmu
    cases s.logging.emuConsole <;> simp
  · rw [← hfile] at hopen
    rw [← hpath]
    exact h.run.invariant (P := fun u : LogNode => ∀ path, u.logging.emuFile = some path →
      path ≠ [] ∧ u.logging.emuFilePath = path) (fun _ hnone => by cases hnone)
      (fun _ _ _ hfile _ hst => step_file hfile hst) path hopen

/-- Of three messages about lobbies the first is filtered, the second is called back after the
callback is removed, and the third goes to the sink only. -/
def sampleLogging : List LogAction :=
  [.setCallback (some 1), .configureEmuLogSink (str "a.log") false (str "warn") true, .log 18 400
    (str "hidden"),
    .setLogLevel 18 400, .log 18 400 (str "joined"), .setCallback none, .call 0,
      .log 18 300 (str "late")]

/-- One message is called back, and two go to the sink. -/
theorem messages_routed_sample : ∃ s, exec LogNode.step {} sampleLogging = some s ∧
    LogRouted (transitions LogNode.step {} sampleLogging) s ∧
    flow LogNode.delivers (transitions LogNode.step {} sampleLogging) =
      [(1, { category := str "LogEOSLobby", message := str "joined", level := 400 })] ∧
    flow LogNode.printsFile (transitions LogNode.step {} sampleLogging) =
      [(str "a.log", .opened (str "warn")), (str "a.log", .message
          (str "Warning") (str "LogEOSLobby") (str "late"))] :=
  ⟨_, rfl, messages_routed (Trace.of_exec rfl), by decide +kernel⟩

end

end EOSEmu
