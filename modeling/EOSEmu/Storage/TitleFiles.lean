import Mathlib.Data.List.Infix
import EOSEmu.Core.Dispatch
import EOSEmu.Lib.Conveyor
import EOSEmu.Lib.Dict

/-!
# Title files

`TitleStorage.cpp` serves the files of one directory. `EOS_TitleStorage_ReadFile` gives the game a
request, and the closure that reads the file in a later tick writes its result into that request:
the closure holds the pointer, and `EOS_TitleStorageFileTransferRequest_Release` frees it at once.
A step that reads or frees memory that is not allocated has no successor; an address is not given
out twice, since no pointer to a freed object may be used, whatever lies there. The closure of a
read takes two steps, as the game's callbacks run in the middle of it. Nested ticks, and a process
without a platform, are left out.
-/

namespace EOSEmu

open Lib

/-! ## Served names -/

/-- The characters of a path separator. -/
def isSeparator (c : UInt8) : Bool := c = 92 || c = 47

/-- `TitleStorageDir`, from the configured directory and the cache directory. -/
def titleStorageDir (configured cacheDirectory : Bytes) : Bytes :=
  let served := if configured.isEmpty && !cacheDirectory.isEmpty then cacheDirectory ++
    str "/eosemu_titlestorage"
    else configured
  let dir := if served.isEmpty then str "eosemu_titlestorage" else served
  if dir.getLast?.any isSeparator then dir else dir ++ [47]

/-- `SafeName`. -/
def safeName (filename : Bytes) : Bool :=
  !filename.isEmpty && !filename.any (fun c => isSeparator c || c = 58) &&
    !decide (str ".." <:+: filename)

/-- The names a path goes through. -/
def components (path : Bytes) : List Bytes := path.splitOnP isSeparator

/-! ## The interface -/

/-- `EOS_TitleStorage_EReadResult`. -/
inductive ETitleReadResult where
  | continueReading
  | failRequest
  | cancelRequest
  deriving DecidableEq, Repr

/-- `TsRequest`. -/
structure TsRequest where
  filename : Bytes
  state : EResult := .notFound
  deriving DecidableEq, Repr

/-- The address of a request. -/
abbrev RequestHandle := ℕ

/-- The closures; a read holds the pointer to its request, and whether the game gave a data
callback. -/
inductive TitleTask where
  | queryFile (filename : Bytes)
  | queryFileList
  | readFile (request : RequestHandle) (filename : Bytes) (dataCallback : Bool)
  | deleteCache
  deriving DecidableEq, Repr

/-- A read whose callbacks run, with the contents of its file, if it was found. -/
structure TitleReading where
  request : RequestHandle
  filename : Bytes
  dataCallback : Bool
  data : Option Bytes
  deriving DecidableEq, Repr

/-- `g_Known`, the requests and the closures; `running` are those that the tick has drained. -/
structure TitleStorage where
  dir : Bytes
  disk : Dict Bytes Bytes := .empty
  known : List Bytes := []
  requests : Dict RequestHandle TsRequest := .empty
  next : RequestHandle := 0
  dispatch : Dispatcher TitleTask := {}
  running : List TitleTask := []
  reading : Option TitleReading := none

/-- What happens. -/
inductive TitleAction where
  /-- Somebody changes a file of the disk. -/
  | host (path : Bytes) (contents : Option Bytes)
  | queryFile (filename : Option Bytes)
  | queryFileList
  | readFile (filename : Bytes) (dataCallback : Bool)
  | deleteCache
  | release (request : Option RequestHandle)
  | drain (now : TimePoint)
  /-- A tick runs its next closure, a read as far as its callbacks. -/
  | run
  /-- The callbacks have returned. -/
  | finish (answer : ETitleReadResult)
  deriving DecidableEq, Repr

/-- `RememberLocked`. -/
def remember (known : List Bytes) (filename : Bytes) : List Bytes :=
  if filename ∈ known then known else known ++ [filename]

/-- What a read ends with. -/
def TitleReading.result (r : TitleReading) (answer : ETitleReadResult) : EResult :=
  match r.data with
  | none => .notFound
  | some _ =>
      if r.dataCallback then
        match answer with
        | .continueReading => .success
        | .failRequest => .unexpectedError
        | .cancelRequest => .canceled
      else .success

namespace TitleStorage
variable (s : TitleStorage)

/-- `ReadServedFile`. -/
def readServedFile (filename : Bytes) : Option Bytes :=
  if safeName filename then s.disk.get? (s.dir ++ filename) else none

/-- `ServedFileExists`. -/
def servedFileExists (filename : Bytes) : Bool := (s.readServedFile filename).isSome

def post (task : TitleTask) : TitleStorage := { s with dispatch := s.dispatch.post task }

/-- A closure. -/
def begin : TitleTask → TitleStorage
  | .queryFile filename =>
      { s with known := if s.servedFileExists filename then remember s.known filename else s.known
        }
  | .queryFileList => s
  | .readFile request filename dataCallback =>
      { s with
        reading := some { request, filename, dataCallback, data := s.readServedFile filename } }
  | .deleteCache => s

/-- The end of the closure of a read. -/
def finish (r : TitleReading) (answer : ETitleReadResult) : Option TitleStorage :=
  (s.requests.get? r.request).map fun request => { s with
    known := if r.data.isSome then remember s.known r.filename else s.known
    requests := s.requests.set r.request { request with state := r.result answer }
    reading := none }

/-- One step. -/
def step : TitleAction → Option TitleStorage
  | .host path contents => some { s with
      disk := match contents with
        | none => s.disk.erase path
        | some contents => s.disk.set path contents }
  | .queryFile filename => some (s.post (.queryFile (filename.getD [])))
  | .queryFileList => some (s.post .queryFileList)
  | .readFile filename dataCallback => some { s.post (.readFile s.next filename dataCallback) with
      requests := s.requests.set s.next { filename }
      next := s.next + 1 }
  | .deleteCache => some (s.post .deleteCache)
  | .release none => some s
  | .release (some request) =>
      if s.requests.contains request then some { s with requests := s.requests.erase request }
        else none
  | .drain now =>
      match s.running, s.reading with
      | [], none => some { s with running := (s.dispatch.drain now).1, dispatch :=
        (s.dispatch.drain now).2 }
      | _, _ => none
  | .run =>
      match s.running, s.reading with
      | task :: rest, none => some ({ s with running := rest }.begin task)
      | _, _ => none
  | .finish answer => s.reading.bind fun r => s.finish r answer

/-- `GetFileRequestState`: nothing, where it reads freed memory. -/
def getFileRequestState (request : RequestHandle) : Option EResult :=
  (s.requests.get? request).map (·.state)

/-- The closures a step posts, and those it runs. -/
def posts : TitleAction → List TitleTask
  | .queryFile filename => [.queryFile (filename.getD [])]
  | .queryFileList => [.queryFileList]
  | .readFile filename dataCallback => [.readFile s.next filename dataCallback]
  | .deleteCache => [.deleteCache]
  | _ => []

def runs : TitleAction → List TitleTask
  | .run => s.running.head?.toList
  | _ => []

/-- The closures that wait. -/
def waiting : List TitleTask := s.running ++ s.dispatch.pending

end TitleStorage

/-- The request of a read. -/
def TitleTask.request? : TitleTask → Option RequestHandle
  | .readFile request _ _ => some request
  | _ => none

namespace TitleStorage
variable (s : TitleStorage)

/-- The read that a step ends, and its result. -/
def ends : TitleAction → List (RequestHandle × EResult)
  | .finish answer => s.reading.toList.map fun r => (r.request, r.result answer)
  | _ => []

/-- What a data callback is handed: the name and the contents, in one chunk. -/
def hands : TitleAction → List (Bytes × Bytes)
  | .run =>
      match s.running with
      | .readFile _ filename true :: _ => (s.readServedFile filename).toList.map fun data =>
        (filename, data)
      | _ => []
  | _ => []

/-- The names a step finds to be served. -/
def confirms : TitleAction → List Bytes
  | .run =>
      match s.running with
      | .queryFile filename :: _ => if s.servedFileExists filename then [filename] else []
      | _ => []
  | .finish _ => (s.reading.filter (·.data.isSome)).toList.map (·.filename)
  | _ => []

/-- The requests whose closure is still to end. -/
def awaited : List RequestHandle :=
  s.reading.toList.map (·.request) ++ s.waiting.filterMap TitleTask.request?

end TitleStorage

/-! ## Names -/

/-- The directory of the title files ends in a separator. -/
theorem exists_base (configured cacheDirectory : Bytes) :
    ∃ base c, titleStorageDir configured cacheDirectory = base ++ [c] ∧ isSeparator c = true := by
  unfold titleStorageDir
  extract_lets served dir
  split
  · next hlast =>
      obtain ⟨c, hc, hsep⟩ := (Option.any_eq_true _ _).1 hlast
      obtain ⟨base, hbase⟩ := List.getLast?_eq_some_iff.1 hc
      exact ⟨base, c, hbase, hsep⟩
  · exact ⟨dir, 47, rfl, rfl⟩

/-- A served file is a file of the directory. -/
theorem components_served {base filename : Bytes} {c : UInt8} (hc : isSeparator c = true)
    (h : safeName filename = true) :
    components (base ++ [c] ++ filename) = components base ++ [filename] ∧ filename ≠ [] ∧
    filename ≠ str ".." := by
  simp only [safeName, Bool.and_eq_true, Bool.not_eq_true', List.isEmpty_eq_false_iff,
    decide_eq_false_iff_not, List.any_eq_false, Bool.or_eq_true, not_or] at h
  obtain ⟨⟨hne, hchars⟩, hdots⟩ := h
  refine ⟨?_, hne, ?_⟩
  · have hsingle : filename.splitOnP isSeparator = [filename] :=
      List.splitOnP_eq_singleton fun x hx => Bool.eq_false_iff.2 (hchars x hx).1
    rw [components, List.append_assoc, List.singleton_append,
      List.splitOnP_append_cons base filename hc, hsingle]
    rfl
  · rintro rfl
    exact hdots (List.infix_refl _)

/-! ## Known names -/

section
variable {known names : List Bytes} {filename name : Bytes}

/-- The names known after one more file. -/
theorem mem_remember : name ∈ remember known filename ↔ name ∈ known ∨ name = filename := by
  unfold remember
  split
  · next hmem => exact ⟨.inl, fun h => h.elim id fun heq => heq ▸ hmem⟩
  · rw [List.mem_append, List.mem_singleton]

/-- No known name is forgotten. -/
theorem prefix_remember : known <+: remember known filename := by
  unfold remember
  split
  · exact List.prefix_refl _
  · exact List.prefix_append _ _

/-- A file that is known is not listed again. -/
theorem nodup_remember (h : known.Nodup) : (remember known filename).Nodup := by
  unfold remember
  split
  · exact h
  · next hnew => exact h.append (List.nodup_singleton _) (by simpa using hnew)

/-- The names remembered one after the other. -/
theorem foldl_remember (known names : List Bytes) :
    (∀ name, name ∈ names.foldl remember known ↔ name ∈ known ∨ name ∈ names) ∧
    known <+: names.foldl remember known ∧ (known.Nodup → (names.foldl remember known).Nodup) := by
  induction names generalizing known with
  | nil => exact ⟨by simp, List.prefix_refl _, id⟩
  | cons filename names ih =>
      obtain ⟨hmem, hprefix, hnodup⟩ := ih (remember known filename)
      refine ⟨fun name => ?_, prefix_remember.trans hprefix, fun h => hnodup (nodup_remember h)⟩
      rw [List.foldl_cons, hmem, mem_remember, List.mem_cons, or_assoc]

end

/-! ## One step -/

abbrev TitleTransition := Transition TitleStorage TitleAction

/-- The request a step makes. -/
def TitleStorage.creates (s : TitleStorage) : TitleAction → Option RequestHandle
  | .readFile _ _ => some s.next
  | _ => none

/-- What a step does to the closures, to the reads, to the requests and to the known names. -/
structure TitleStep (s t : TitleStorage) (a : TitleAction) : Prop where
  dir : t.dir = s.dir
  delayed : t.dispatch.delayed = []
  tasks : s.waiting ++ s.posts a = s.runs a ++ t.waiting
  reads : s.awaited ++ (s.posts a).filterMap TitleTask.request? = (s.ends a).map Prod.fst ++
    t.awaited
  known : t.known = (s.confirms a).foldl remember s.known
  next : t.next = s.next + (s.creates a).toList.length
  requests : ∀ r, t.requests.get? r =
    if a = .release (some r) then none
    else if s.creates a = some r then (s.posts a).findSome? fun
      | .readFile _ filename _ => some { filename }
      | _ => none
    else (s.requests.get? r).map fun request =>
      { request with state := ((s.ends a).lookup r).getD request.state }

namespace TitleStorage
variable {s t : TitleStorage} {a : TitleAction}

/-- Every step is one of `TitleStep`. -/
theorem step_title (hs : s.dispatch.delayed = []) (h : s.step a = some t) : TitleStep s t a := by
  cases a with
  | host path contents =>
      cases h
      refine ⟨rfl, hs, ?_, ?_, rfl, rfl, fun r => ?_⟩ <;>
        simp [waiting, awaited, posts, runs, ends, creates]
  | queryFile filename =>
      cases h
      refine ⟨rfl, hs, ?_, ?_, rfl, rfl, fun r => ?_⟩ <;>
        simp [waiting, awaited, posts, runs, ends, creates, post, Dispatcher.post,
          TitleTask.request?]
  | queryFileList =>
      cases h
      refine ⟨rfl, hs, ?_, ?_, rfl, rfl, fun r => ?_⟩ <;>
        simp [waiting, awaited, posts, runs, ends, creates, post, Dispatcher.post,
          TitleTask.request?]
  | deleteCache =>
      cases h
      refine ⟨rfl, hs, ?_, ?_, rfl, rfl, fun r => ?_⟩ <;>
        simp [waiting, awaited, posts, runs, ends, creates, post, Dispatcher.post,
          TitleTask.request?]
  | readFile filename dataCallback =>
      cases h
      refine ⟨rfl, hs, ?_, ?_, rfl, rfl, fun r => ?_⟩
      · simp [waiting, posts, runs, post, Dispatcher.post]
      · simp [waiting, awaited, posts, ends, post, Dispatcher.post, TitleTask.request?]
      · simp [posts, ends, creates, eq_comm]
  | release request =>
      cases request with
      | none =>
          cases h
          refine ⟨rfl, hs, ?_, ?_, rfl, rfl, fun r => ?_⟩ <;> simp [waiting, awaited, posts, runs,
            ends, creates]
      | some request =>
          obtain ⟨_, heq⟩ := Option.ite_none_right_eq_some.1 h
          cases heq
          refine ⟨rfl, hs, ?_, ?_, rfl, rfl, fun r => ?_⟩ <;>
            simp [waiting, awaited, posts, runs, ends, creates, eq_comm]
  | drain now =>
      simp only [step] at h
      split at h
      · next hrunning hreading =>
          cases h
          refine ⟨rfl, ?_, ?_, ?_, rfl, rfl, fun r => ?_⟩ <;>
            simp [waiting, awaited, posts, runs, ends, creates, Dispatcher.drain, hs,
              hrunning, hreading]
      · cases h
  | run =>
      simp only [step] at h
      split at h
      · next task rest hrunning hreading =>
          cases h
          cases task with
          | queryFile filename =>
              refine ⟨rfl, hs, ?_, ?_, ?_, rfl, fun r => ?_⟩
              · simp [begin, waiting, posts, runs, hrunning]
              · simp [begin, waiting, awaited, posts, ends, hrunning,
                  hreading, List.filterMap_cons, TitleTask.request?]
              · have hconfirms : s.confirms .run =
                    if s.servedFileExists filename then [filename] else [] := by
                  rw [confirms, hrunning]
                rw [hconfirms]
                change (if s.servedFileExists filename then _ else _) = _
                split <;> rfl
              · simp [begin, ends, creates]
          | queryFileList | deleteCache | readFile request filename dataCallback =>
              refine ⟨rfl, hs, ?_, ?_, ?_, rfl, fun r => ?_⟩ <;>
                simp [begin, waiting, awaited, posts, runs, ends, creates, confirms, hrunning,
                  hreading, List.filterMap_cons, TitleTask.request?]
      · cases h
  | finish answer =>
      obtain ⟨r, hreading, hfinish⟩ := Option.bind_eq_some_iff.1 h
      obtain ⟨request, hrequest, rfl⟩ := Option.map_eq_some_iff.1 hfinish
      refine ⟨rfl, hs, ?_, ?_, ?_, rfl, fun j => ?_⟩
      · simp [waiting, posts, runs]
      · simp [waiting, awaited, posts, ends, hreading]
      · cases hdata : r.data <;> simp [confirms, hreading, hdata, Option.filter]
      · rcases eq_or_ne j r.request with rfl | hne
        · simp [ends, creates, hreading, hrequest]
        · have hother : (j == r.request) = false := beq_eq_false_iff_ne.2 hne
          simp [ends, creates, hreading, hne, List.lookup_cons, hother]

end TitleStorage

/-! ## A run -/

namespace TitleStorage

/-- The interface of a fresh process. -/
def start (configured cacheDirectory : Bytes) (disk : Dict Bytes Bytes) : TitleStorage :=
  { dir := titleStorageDir configured cacheDirectory, disk }

/-- The game has released the request. -/
def Released (l : List TitleTransition) (request : RequestHandle) : Prop :=
  ∃ x ∈ l, x.action = .release (some request)

/-- What the games of a run are served. -/
structure Served (l : List TitleTransition) (s : TitleStorage) : Prop where
  /-- Each closure is run once, in the order of the calls. -/
  runs : flow posts l = flow runs l ++ s.waiting
  /-- Each read ends once, in the order of the calls, or is awaited. -/
  reads : List.range s.next = (flow ends l).map Prod.fst ++ s.awaited
  /-- A request is allocated until the game releases it, and says how its read ended. -/
  allocated : ∀ r, s.requests.contains r = true ↔ r < s.next ∧ ¬ Released l r
  state : ∀ r result, s.getFileRequestState r = some result →
    result = ((flow ends l).lookup r).getD .notFound
  /-- The closure of a read writes into its request, unless the game has released it. -/
  writes : ∀ r, s.reading = some r → ∀ answer,
    ((s.step (.finish answer)).isSome = true ↔ ¬ Released l r.request)
  /-- The known names are those that were found, each once, and under the index it came with. -/
  known : s.known.Nodup ∧ ∀ name, name ∈ s.known ↔ name ∈ flow confirms l
  stays : ∀ x ∈ l, x.pre.known <+: s.known
  /-- The game is handed the contents of a file that lies in the directory. -/
  hands : ∀ x ∈ l, ∀ name data, (name, data) ∈ x.pre.hands x.action →
    safeName name = true ∧ x.pre.disk.get? (s.dir ++ name) = some data
  inside : ∃ base c, s.dir = base ++ [c] ∧
    ∀ name, (name ∈ s.known ∨ ∃ x ∈ l, ∃ data, (name, data) ∈ x.pre.hands x.action) →
    components (s.dir ++ name) = components base ++ [name] ∧ name ≠ [] ∧ name ≠ str ".."

variable {configured cacheDirectory : Bytes} {disk : Dict Bytes Bytes} {l : List TitleTransition}
  {s t : TitleStorage} {a : TitleAction}

/-- In a run the directory stays, and no closure is delayed. -/
theorem dir_of_run (h : Run step Always (start configured cacheDirectory disk) s) :
    s.dir = titleStorageDir configured cacheDirectory ∧ s.dispatch.delayed = [] := by
  refine h.invariant
    (P := fun s => s.dir = titleStorageDir configured cacheDirectory ∧ s.dispatch.delayed = [])
    ⟨rfl, rfl⟩ fun s t a hs _ hst => ?_
  have hstep := step_title hs.2 hst
  exact ⟨hstep.dir.trans hs.1, hstep.delayed⟩

/-- So every step of a run is one of `TitleStep`. -/
theorem step_of_run (h : Run step Always (start configured cacheDirectory disk) s)
    (hst : s.step a = some t) : TitleStep s t a := step_title (dir_of_run h).2 hst

/-- The requests released after one more step. -/
theorem released_snoc {x : TitleTransition} {r : RequestHandle} :
    Released (l ++ [x]) r ↔ Released l r ∨ x.action = .release (some r) := by
  simp [Released, or_and_right, exists_or]

/-- The reads of a run, in their order. -/
theorem reads_of_trace (h : Trace step Always (start configured cacheDirectory disk) l s) :
    List.range s.next = (flow ends l).map Prod.fst ++ s.awaited := by
  have hmade : flow (fun s a => (posts s a).filterMap TitleTask.request?) l =
    List.range s.next := by
    refine h.invariant
      (P := fun l s => flow (fun s a => (posts s a).filterMap TitleTask.request?) l =
        List.range s.next)
      rfl fun l s t a hl ih _ hst => ?_
    have hcreates : (s.posts a).filterMap TitleTask.request? = (s.creates a).toList := by
      cases a <;> rfl
    rw [flow_snoc, ih, hcreates, (step_of_run hl.run hst).next]
    cases a <;> simp [creates, List.range_succ]
  have hconveyed := h.conveys (fun s a => (posts s a).filterMap TitleTask.request?)
    (fun s a => (ends s a).map Prod.fst)
    awaited rfl fun s t a hs _ hst => (step_of_run hs hst).reads
  rw [← hmade, hconveyed, flow, flow, List.map_flatMap]

/-- A request whose read has ended was made, and is not awaited. -/
theorem ended_or_awaited (h : List.range s.next = (flow ends l).map Prod.fst ++ s.awaited)
    {r : RequestHandle} :
    (r ∈ s.awaited → r < s.next ∧ r ∉ (flow ends l).map Prod.fst) ∧
    (r ∈ (flow ends l).map Prod.fst → r < s.next) := by
  have hnodup := List.nodup_range (n := s.next)
  have hmem : r ∈ List.range s.next ↔ r ∈ (flow ends l).map Prod.fst ++ s.awaited := by rw [h]
  rw [List.mem_range, List.mem_append] at hmem
  rw [h, List.nodup_append] at hnodup
  exact ⟨fun hr => ⟨hmem.2 (.inr hr), fun hended => hnodup.2.2 r hended r hr rfl⟩, fun hr => hmem.2
    (.inl hr)⟩

/-- Only an awaited request ends. -/
theorem mem_awaited_of_ends {r : RequestHandle} (h : r ∈ (s.ends a).map Prod.fst) :
    r ∈ s.awaited := by
  cases a with
  | finish answer =>
      rw [ends, List.map_map] at h
      exact List.mem_append_left _ h
  | _ => cases h

/-- The requests of a run. -/
structure Requests (l : List TitleTransition) (s : TitleStorage) : Prop where
  allocated : ∀ r, s.requests.contains r = true ↔ r < s.next ∧ ¬ Released l r
  released : ∀ r, Released l r → r < s.next
  state : ∀ r result, s.getFileRequestState r = some result →
    result = ((flow ends l).lookup r).getD .notFound

/-- What a step leaves of a request: nothing, if it releases it, a new one, or the one that was
there. -/
theorem request_cases (h : TitleStep s t a) (r : RequestHandle) :
    (a = .release (some r) ∧ t.requests.get? r = none) ∨
    (s.creates a = some r ∧ a ≠ .release (some r) ∧ s.ends a = [] ∧
      ∃ filename, t.requests.get? r = some { filename }) ∨
    (s.creates a ≠ some r ∧ a ≠ .release (some r) ∧
      t.requests.get? r = (s.requests.get? r).map fun request =>
      { request with state := ((s.ends a).lookup r).getD request.state }) := by
  have hr := h.requests r
  split at hr
  · next hrelease => exact .inl ⟨hrelease, hr⟩
  · next hrelease =>
      split at hr
      · next hcreates =>
          refine .inr (.inl ⟨hcreates, hrelease, ?_⟩)
          cases a with
          | readFile filename dataCallback => exact ⟨rfl, filename, hr⟩
          | _ => cases hcreates
      · next hcreates => exact .inr (.inr ⟨hcreates, hrelease, hr⟩)

/-- The requests made after one more step. -/
theorem lt_next_iff (h : TitleStep s t a) {r : RequestHandle} :
    r < t.next ↔ r < s.next ∨ s.creates a = some r := by
  rw [h.next]
  cases a with
  | readFile filename dataCallback =>
      rw [creates, Option.some_inj, Option.toList_some, List.length_singleton,
        eq_comm (a := s.next)]
      exact Nat.lt_succ_iff_lt_or_eq
  | _ => simp [creates]

/-- A step keeps the accounts of the requests. -/
theorem Requests.step (h : Requests l s)
    (hl : Trace TitleStorage.step Always (start configured cacheDirectory disk) l s)
    (hst : s.step a = some t) : Requests (l ++ [⟨s, a, t⟩]) t := by
  have hstep := step_of_run hl.run hst
  have hreads := reads_of_trace hl
  have hfresh : ∀ r, s.creates a = some r → r = s.next := by
    intro r hr
    cases a with
    | readFile filename dataCallback => exact (Option.some.inj hr).symm
    | _ => cases hr
  refine ⟨fun r => ?_, fun r hr => ?_, fun r result hresult => ?_⟩
  · rw [lt_next_iff hstep, released_snoc]
    rcases request_cases hstep r with ⟨hrelease, hnone⟩ | ⟨hcreates, hrelease, _, filename,
      hnew⟩ | ⟨hcreates, hrelease, hsame⟩
    · simp [Dict.contains, hnone, hrelease]
    · have hnot : ¬ Released l r := fun hr => absurd (h.released r hr)
        (by simp [hfresh r hcreates])
      simp [Dict.contains, hnew, hcreates, hrelease, hnot]
    · have hold := h.allocated r
      rw [Dict.contains] at hold ⊢
      rw [hsame, Option.isSome_map, hold]
      simp [hcreates, hrelease]
  · rw [lt_next_iff hstep]
    rcases released_snoc.1 hr with hr | hrelease
    · exact .inl (h.released r hr)
    · change a = .release (some r) at hrelease
      subst hrelease
      obtain ⟨hcontains, _⟩ := Option.ite_none_right_eq_some.1 hst
      exact .inl ((h.allocated r).1 hcontains).1
  · obtain ⟨request, hrequest, rfl⟩ := Option.map_eq_some_iff.1 hresult
    rw [flow_snoc, List.lookup_append]
    rcases request_cases hstep r with ⟨_, hnone⟩ | ⟨hcreates, _, hends, filename, hnew⟩ | ⟨_, _,
      hsame⟩
    · cases hnone.symm.trans hrequest
    · -- nothing has ended the new read
      cases hnew.symm.trans hrequest
      have hnot : (flow ends l).lookup r = none := lookup_eq_none.2 fun hended =>
        absurd ((ended_or_awaited hreads).2 hended) (by simp [hfresh r hcreates])
      simp [hnot, hends]
    · rw [hsame] at hrequest
      obtain ⟨old, hold, rfl⟩ := Option.map_eq_some_iff.1 hrequest
      have hstate := h.state r old.state (Option.map_eq_some_iff.2 ⟨old, hold, rfl⟩)
      cases hends : (s.ends a).lookup r with
      | none => simpa [hends] using hstate
      | some result =>
          -- a read that ends now has not ended before
          have hnow : r ∈ (s.ends a).map Prod.fst := by
            by_contra hnot
            cases hends.symm.trans (lookup_eq_none.2 hnot)
          have hnot := lookup_eq_none.2 ((ended_or_awaited hreads).1 (mem_awaited_of_ends hnow)).2
          simp [hnot]

/-- The accounts hold in every run. -/
theorem requests_of_trace
    (h : Trace TitleStorage.step Always (start configured cacheDirectory disk) l s) :
    Requests l s := by
  refine h.invariant (P := Requests) ?_ fun l s t a hl hk _ hst => hk.step hl hst
  refine ⟨fun r => ?_, fun r hr => ?_, fun r result hr => ?_⟩
  · simp [start, Dict.contains]
  · obtain ⟨x, hx, _⟩ := hr
    cases hx
  · cases hr

/-- The known names of a run. -/
theorem known_of_trace
    (h : Trace TitleStorage.step Always (start configured cacheDirectory disk) l s) :
    s.known.Nodup ∧ (∀ name, name ∈ s.known ↔ name ∈ flow confirms l) ∧
    ∀ x ∈ l, x.pre.known <+: s.known := by
  refine h.invariant (P := fun l s => s.known.Nodup ∧
    (∀ name, name ∈ s.known ↔ name ∈ flow confirms l) ∧
    ∀ x ∈ l, x.pre.known <+: s.known)
      ⟨List.nodup_nil, by simp [start], by simp⟩ fun l s t a hl hk _ hst => ?_
  obtain ⟨hnodup, hmem, hstays⟩ := hk
  obtain ⟨hnew, hprefix, hkept⟩ := foldl_remember s.known (s.confirms a)
  rw [(step_of_run hl.run hst).known]
  refine ⟨hkept hnodup, fun name => ?_, fun x hx => ?_⟩
  · rw [hnew, hmem, flow_snoc, List.mem_append]
  · rcases List.mem_append.1 hx with hx | hx
    · exact (hstays x hx).trans hprefix
    · rw [List.mem_singleton.1 hx]
      exact hprefix

/-- A served file has a safe name and lies in the directory. -/
theorem readServedFile_eq_some {filename data : Bytes} : s.readServedFile filename = some data ↔
    safeName filename = true ∧ s.disk.get? (s.dir ++ filename) = some data :=
      Option.ite_none_right_eq_some

/-- What is being read, and what a step finds to be served, has a safe name. -/
theorem safe_of_run (h : Run TitleStorage.step Always (start configured cacheDirectory disk) s) :
    (∀ r, s.reading = some r → r.data.isSome = true → safeName r.filename = true) ∧
      ∀ a, ∀ name ∈ s.confirms a, safeName name = true := by
  have hreading : ∀ r, s.reading = some r → r.data.isSome = true → safeName r.filename = true := by
    refine h.invariant (P := fun s => ∀ r, s.reading = some r → r.data.isSome =
        true → safeName r.filename = true) (by simp [start]) fun s t a ih _ hst => ?_
    cases a with
    | run =>
        simp only [step] at hst
        split at hst
        · next task rest _ hnone =>
            cases hst
            cases task with
            | readFile request filename dataCallback =>
                rintro r ⟨⟩ hdata
                obtain ⟨data, hdata⟩ := Option.isSome_iff_exists.1 hdata
                exact (readServedFile_eq_some.1 hdata).1
            | _ =>
                intro r hr
                cases hnone.symm.trans hr
        · cases hst
    | finish answer =>
        obtain ⟨r, _, hfinish⟩ := Option.bind_eq_some_iff.1 hst
        obtain ⟨_, _, rfl⟩ := Option.map_eq_some_iff.1 hfinish
        simp
    | drain now =>
        simp only [step] at hst
        split at hst
        · cases hst
          exact ih
        · cases hst
    | release request =>
        cases request with
        | none =>
            cases hst
            exact ih
        | some request =>
            obtain ⟨_, heq⟩ := Option.ite_none_right_eq_some.1 hst
            cases heq
            exact ih
    | _ =>
        cases hst
        exact ih
  refine ⟨hreading, fun a name hname => ?_⟩
  cases a with
  | run =>
      dsimp only [confirms] at hname
      split at hname
      · next filename rest _ =>
          obtain ⟨hexists, hname⟩ := List.mem_ite_nil_right.1 hname
          rw [List.mem_singleton.1 hname]
          obtain ⟨data, hdata⟩ := Option.isSome_iff_exists.1 hexists
          exact (readServedFile_eq_some.1 hdata).1
      · cases hname
  | finish answer =>
      obtain ⟨r, hr, rfl⟩ := List.mem_map.1 hname
      obtain ⟨hr, hdata⟩ := Option.filter_eq_some_iff.1 (Option.mem_toList.1 hr)
      exact hreading r hr hdata
  | _ => cases hname

/-- What a read hands over is the file on disk. -/
theorem hands_eq {name data : Bytes} (h : (name, data) ∈ s.hands a) :
    safeName name = true ∧ s.disk.get? (s.dir ++ name) = some data := by
  cases a with
  | run =>
      dsimp only [hands] at h
      split at h
      · obtain ⟨contents, hcontents, heq⟩ := List.mem_map.1 h
        cases heq
        exact readServedFile_eq_some.1 (Option.mem_toList.1 hcontents)
      · cases h
  | _ => cases h

/-- **Title files are served.** In every run of the calls and the ticks, whatever the game does in
its callbacks and whoever changes the files: each closure is run once, each read ends once and in
the order of the calls, and its request says how, the names that were found are listed once and
keep their index, and nothing outside of the directory is served. The end of a read writes into
freed memory exactly where the game has released its request before. -/
theorem title_files_served
    (h : Trace TitleStorage.step Always (start configured cacheDirectory disk) l s) :
    Served l s := by
  obtain ⟨hdir, _⟩ := dir_of_run h.run
  have hreads := reads_of_trace h
  have hrequests := requests_of_trace h
  obtain ⟨hnodup, hknown, hstays⟩ := known_of_trace h
  have hhands : ∀ x ∈ l, ∀ name data, (name, data) ∈ x.pre.hands x.action →
      safeName name = true ∧ x.pre.disk.get? (s.dir ++ name) = some data := by
    intro x hx name data hmem
    obtain ⟨before, after, rfl⟩ := List.append_of_mem hx
    obtain ⟨hbefore, _, _⟩ := h.forall_mem rfl
    rw [hdir, ← (dir_of_run hbefore.run).1]
    exact hands_eq hmem
  refine ⟨?_, hreads, hrequests.allocated, hrequests.state, fun r hr answer =>
    ?_, ⟨hnodup, hknown⟩, hstays, hhands, ?_⟩
  · exact h.conveys posts runs waiting rfl fun s t a hs _ hst => (step_of_run hs hst).tasks
  · have hawaited : r.request ∈ s.awaited := by
      rw [awaited, hr]
      exact List.mem_append_left _ List.mem_cons_self
    have hmade := ((ended_or_awaited hreads).1 hawaited).1
    have hallocated := hrequests.allocated r.request
    rw [Dict.contains] at hallocated
    rw [step, hr, Option.bind_some, finish, Option.isSome_map, hallocated]
    simp [hmade]
  · obtain ⟨base, c, hbase, hc⟩ := exists_base configured cacheDirectory
    refine ⟨base, c, hdir.trans hbase, fun name hname => ?_⟩
    rw [hdir, hbase]
    refine components_served hc ?_
    rcases hname with hname | ⟨x, hx, data, hmem⟩
    · obtain ⟨x, hx, hconfirms⟩ := mem_flow.1 ((hknown name).1 hname)
      obtain ⟨before, after, rfl⟩ := List.append_of_mem hx
      obtain ⟨hbefore, _, _⟩ := h.forall_mem rfl
      exact (safe_of_run hbefore.run).2 x.action name hconfirms
    · exact (hhands x hx name data hmem).1

/-- A game reads a file and releases the request of a second read before the tick; a name that
leaves the directory is not served. -/
def sampleTitles : List TitleAction :=
  [.host (str "cache/eosemu_titlestorage/a.ini") (some (str "on")), .queryFile
    (some (str "a.ini")),
    .queryFile (some (str "../a.ini")), .readFile (str "a.ini") true,
      .readFile (str "b.ini") false, .release (some 1),
    .drain 0, .run, .run, .run, .finish .failRequest, .run]

/-- The first read ends with what the callback answered. The second would write into its released
request. -/
theorem title_files_served_sample :
    ∃ s, exec step (start [] (str "cache") .empty) sampleTitles = some s ∧
    Served (transitions step (start [] (str "cache") .empty) sampleTitles) s ∧
    s.known = [str "a.ini"] ∧ s.getFileRequestState 0 = some .unexpectedError ∧
    s.step (.finish .continueReading) = none :=
  ⟨_, rfl, title_files_served (Trace.of_exec rfl), rfl, rfl, rfl⟩

end TitleStorage

end EOSEmu
