import EOSEmu.Lib.Run
import EOSEmu.Storage.Mirror

/-!
# The player data store

`interfaces/PlayerDataStorage.cpp` with `[Storage] Persist = true`: the map `g_Files` of a process,
loaded from the mirror before its first use, and the three operations that change it. A write takes
effect when its transfer runs on the Tick thread, the other two at the call, so an `Action` is one
such effect. A process may end at any time, and the order in which a directory scan lists its
entries may change at any time.
-/

namespace EOSEmu.PlayerDataStorage

open Lib

/-- `g_Files`: user id to file name to contents. -/
abbrev Files := Dict Bytes (Dict Bytes Bytes)

namespace Files

/-- The table `g_Files[User]`, empty where there is none. -/
def table (files : Files) (user : Bytes) : Dict Bytes Bytes := (files.get? user).getD .empty

/-- The contents of a user's file. -/
def find (files : Files) (user name : Bytes) : Option Bytes := (files.table user).get? name

/-- The loop body of `LoadStoreLocked` for one file: what is in memory wins over the mirror. -/
def loadFile (user : Bytes) (files : Files) (file : HostFile) : Files :=
  let name := decodeName file.name
  let table := files.table user
  files.set user (if table.contains name then table else table.set name file.content)

/-- Its loop body for one entry of the root. -/
def loadEntry (files : Files) : RootEntry → Files
  | .file _ => files
  | .directory folder =>
      folder.files.entries.foldl (fun files e => loadFile (decodeName folder.name) files e.2) files

/-- `LoadStoreLocked`. -/
def loadStoreLocked (disk : Disk) (files : Files) : Files :=
  disk.root.entries.foldl (fun files e => loadEntry files e.2) files

end Files

/-- The process and the disk. -/
structure Store where
  disk : Disk := {}
  files : Files := .empty
  /-- `Root == g_LoadedRoot`. -/
  loaded : Bool := false

/-- `EnsureLoadedLocked`. -/
def Store.ensureLoadedLocked (s : Store) : Store :=
  if s.loaded then s else { s with loaded := true, files := s.files.loadStoreLocked s.disk }

/-- The process that starts on what the last one left on disk. -/
def Store.freshProcess (s : Store) : Store := { disk := s.disk }

/-- `EOS_PLAYERDATASTORAGE_FILENAME_MAX_LENGTH_BYTES`. -/
def filenameMaxLengthBytes : ℕ := 64

/-- `kMaxFileBytes`. -/
def kMaxFileBytes : ℕ := 200 * 1024 * 1024

/-- `CheckFilename`. -/
def checkFilename : Option Bytes → EResult
  | none | some [] => .filenameInvalid
  | some name => if filenameMaxLengthBytes < name.length then .filenameLengthInvalid else .success

/-- `EOS_PlayerDataStorage_EWriteResult`. -/
inductive EWriteResult where
  | continueWriting
  | completeRequest
  | failRequest
  | cancelRequest
  deriving DecidableEq, Repr

/-- The loop of the transfer over the answers of the data callback: the bytes it wrote into the
buffer, and its result. `none` when the callback has not finished. -/
def assemble (assembled : Bytes) : List (Bytes × EWriteResult) → Option (EResult × Bytes)
  | [] => none
  | (written, result) :: answers =>
      if kMaxFileBytes < (assembled ++ written).length then some
        (.fileSizeTooLarge, assembled ++ written)
      else
        match result with
        | .continueWriting => assemble (assembled ++ written) answers
        | .completeRequest => some (.success, assembled ++ written)
        | .failRequest => some (.userErrorFromDataCallback, assembled ++ written)
        | .cancelRequest => some (.canceled, assembled ++ written)

/-- What the transfer of a file has before it is stored; without a callback it is the empty
file. -/
def transfer (filename : Option Bytes) : Option (List (Bytes × EWriteResult)) →
    Option (EResult × Bytes)
  | none => some (checkFilename filename, [])
  | some answers =>
      if checkFilename filename = .success then assemble [] answers else some
        (checkFilename filename, [])

namespace Store
variable (refuses : Bytes → Bool)

/-- `PersistWriteLocked` and the assignment to `g_Files[User][Name]`. -/
def put (s : Store) (user name bytes : Bytes) : Store :=
  { s with
    disk := s.disk.persistWriteLocked refuses user name bytes
    files := s.files.set user ((s.files.table user).set name bytes) }

/-- `EOS_PlayerDataStorage_WriteFile`, with the transfer it posts. -/
def writeFile (s : Store) (user : Bytes) (filename : Option Bytes)
    (callback : Option (List (Bytes × EWriteResult))) : Option (EResult × Store) :=
  match filename, transfer filename callback with
  | some name, some (.success, assembled) =>
    some (.success, s.ensureLoadedLocked.put refuses user name assembled)
  | some _, some (result, _) => some (result, s)
  | _, _ => none

/-- `EOS_PlayerDataStorage_DuplicateFile`. -/
def duplicateFile (s : Store) (user : Bytes) : Option Bytes → Option Bytes → EResult × Store
  | some source, some destination =>
      let s := s.ensureLoadedLocked
      match (s.files.table user).get? source with
      | some bytes => (.success, s.put refuses user destination bytes)
      | none => (.notFound, { s with files := s.files.set user (s.files.table user) })
  | _, _ => (.notFound, s)

/-- `EOS_PlayerDataStorage_DeleteFile`. -/
def deleteFile (s : Store) (user : Bytes) : Option Bytes → EResult × Store
  | some name =>
      let s := s.ensureLoadedLocked
      if (s.files.table user).contains name then
        (.success, { s with
          disk := s.disk.persistDeleteLocked user name
          files := s.files.set user ((s.files.table user).erase name) })
      else (.notFound, s)
  | none => (.notFound, s)

end Store

/-- What happens to the store: the three operations, a query (which only loads), the end of a
process, and a change of the order in which the root or one of its directories is listed. -/
inductive Action where
  | writeFile (user : Bytes) (filename : Option Bytes)
      (callback : Option (List (Bytes × EWriteResult)))
  | duplicateFile (user : Bytes) (source destination : Option Bytes)
  | deleteFile (user : Bytes) (filename : Option Bytes)
  | query
  | restart
  | reorderRoot (key : Bytes)
  | reorderDirectory (directory key : Bytes)

/-- The root or a directory is listed in another order. -/
def Disk.toFront (d : Disk) (directory key : Bytes) : Disk :=
  match d.root.get? directory with
  | some (.directory folder) =>
      { d with root := d.root.set directory (.directory
        { folder with files := folder.files.toFront key }) }
  | _ => d

section
variable (refuses : Bytes → Bool)

/-- One action, with the result that an operation reports. -/
def perform (s : Store) : Action → Option (EResult × Store)
  | .writeFile user filename callback => s.writeFile refuses user filename callback
  | .duplicateFile user source destination =>
    some (s.duplicateFile refuses user source destination)
  | .deleteFile user filename => some (s.deleteFile user filename)
  | .query => some (.success, s.ensureLoadedLocked)
  | .restart => some (.success, s.freshProcess)
  | .reorderRoot key =>
    some (.success, { s with disk := { s.disk with root := s.disk.root.toFront key } })
  | .reorderDirectory directory key =>
    some (.success, { s with disk := s.disk.toFront directory key })

/-- The state after one action. -/
def step (s : Store) (a : Action) : Option Store := (perform refuses s a).map Prod.snd

/-- The action reports `EOS_Success`. -/
def Succeeds (s : Store) (a : Action) : Prop := (perform refuses s a).map Prod.fst = some .success

instance (s : Store) (a : Action) : Decidable (Succeeds refuses s a) :=
  inferInstanceAs (Decidable (_ = _))

/-- The user and the file name under which an action stores a file. -/
def Action.target? : Action → Option (Bytes × Bytes)
  | .writeFile user filename _ => filename.map fun name => (user, name)
  | .duplicateFile user _ destination => destination.map fun name => (user, name)
  | _ => none

/-- A write or a copy that succeeds has a name that the mirror can take. -/
def KeepsApart (s : Store) (a : Action) : Prop :=
  Succeeds refuses s a → ∀ t ∈ a.target?, s.disk.Admits refuses t.1 t.2

instance (s : Store) (a : Action) : Decidable (KeepsApart refuses s a) :=
  inferInstanceAs (Decidable (_ → _))

end

/-! ## Loading -/

namespace Files

@[simp] theorem find_empty (user name : Bytes) : Files.find .empty user name = none := rfl

/-- Replacing one user's table. -/
theorem find_set (files : Files) (user : Bytes) (table : Dict Bytes Bytes) (u n : Bytes) :
    Files.find (files.set user table) u n = if u = user then table.get? n else files.find u n := by
  unfold find Files.table
  rw [Dict.get?_set]
  split <;> rfl

/-- Assigning one file. -/
theorem find_set_set (files : Files) (user name bytes u n : Bytes) :
    Files.find (files.set user ((files.table user).set name bytes)) u n
      = if u = user ∧ n = name then some bytes else files.find u n := by
  rw [find_set, Dict.get?_set]
  by_cases hu : u = user
  · subst hu
    simp [find]
  · simp [hu]

/-- Erasing one file. -/
theorem find_set_erase (files : Files) (user name u n : Bytes) :
    Files.find (files.set user ((files.table user).erase name)) u n
      = if u = user ∧ n = name then none else files.find u n := by
  rw [find_set, Dict.get?_erase]
  by_cases hu : u = user
  · subst hu
    simp [find]
  · simp [hu]

/-- What one file of the mirror contributes to a user and a name. -/
def ofFile (user : Bytes) (file : HostFile) (u n : Bytes) : Option Bytes :=
  if u = user ∧ n = decodeName file.name then some file.content else none

/-- What one entry of the root contributes. -/
def ofEntry (u n : Bytes) : RootEntry → Option Bytes
  | .file _ => none
  | .directory folder => folder.files.entries.findSome? fun e =>
    ofFile (decodeName folder.name) e.2 u n

/-- One file is added where there is none. -/
theorem find_loadFile (user : Bytes) (files : Files) (file : HostFile) (u n : Bytes) :
    (loadFile user files file).find u n = (files.find u n).or (ofFile user file u n) := by
  unfold loadFile ofFile
  rw [find_set]
  by_cases hu : u = user
  · subst hu
    rw [if_pos rfl]
    split
    · next hc =>
        obtain ⟨b, hb⟩ := Option.isSome_iff_exists.1 hc
        by_cases hn : n = decodeName file.name
        · subst hn
          simp [find, hb]
        · simp [find, hn]
    · next hc =>
        have hnone : (files.table u).get? (decodeName file.name) = none :=
          Option.not_isSome_iff_eq_none.1 hc
        rw [Dict.get?_set]
        by_cases hn : n = decodeName file.name
        · subst hn
          simp [find, hnone]
        · simp [find, hn]
  · simp [hu]

/-- A loop whose body adds what is missing adds the first contribution of its list. -/
theorem find_foldl {β : Type*} {f : Files → β → Files} {g : β → Option Bytes} {u n : Bytes}
    (hf : ∀ files x, (f files x).find u n = (files.find u n).or (g x)) (l : List β)
    (files : Files) : (l.foldl f files).find u n = (files.find u n).or (l.findSome? g) := by
  induction l generalizing files with
  | nil => simp
  | cons x l ih =>
      rw [List.foldl_cons, ih, hf, List.findSome?_cons, Option.or_assoc]
      cases g x <;> rfl

/-- The scan of the mirror, seen from one user and one name. -/
theorem find_loadStoreLocked (disk : Disk) (files : Files) (u n : Bytes) :
    (files.loadStoreLocked disk).find u n
      = (files.find u n).or (disk.root.entries.findSome? fun e => ofEntry u n e.2) := by
  refine find_foldl (fun files e => ?_) _ _
  unfold loadEntry ofEntry
  split
  · rw [Option.or_none]
  · exact find_foldl (fun files e => find_loadFile _ files e.2 u n) _ _

/-- A canonical directory of the user contributes its file of that very name. -/
theorem ofEntry_directory {folder : Directory} (hcan : folder.Canonical) {user : Bytes}
    (hname : folder.name = encodeName user) (u n : Bytes) :
    ofEntry u n (.directory folder) = if u = user then folder.lookup n else none := by
  have hother : ∀ k f, folder.files.get? k = some f → k ≠ foldCase (encodeName n) →
      ofFile (decodeName folder.name) f u n = none := by
    intro k f hf hk
    obtain ⟨name, hfile, rfl, -⟩ := hcan k f hf
    unfold ofFile
    rw [hfile, decodeName_encodeName, if_neg]
    rintro ⟨-, rfl⟩
    exact hk rfl
  rw [ofEntry, Dict.findSome?_entries (g := fun _ f => ofFile (decodeName folder.name) f u n)
    hother, hname, decodeName_encodeName, Directory.lookup]
  cases hf : folder.files.get? (foldCase (encodeName n)) with
  | none => simp
  | some f =>
      obtain ⟨name, hfile, -, -⟩ := hcan _ f hf
      simp only [Option.bind_some, ofFile, hfile, decodeName_encodeName, encodeName_inj,
        eq_comm (a := name)]
      by_cases hu : u = user <;> simp [hu]

/-- Loading a canonical mirror into an empty map yields what the mirror holds under exactly each
name. -/
theorem find_load_empty {disk : Disk} (hd : disk.Canonical) (u n : Bytes) :
    Files.find (Files.loadStoreLocked disk .empty) u n = disk.lookup u n := by
  have hother : ∀ k e, disk.root.get? k = some e → k ≠ foldCase (encodeName u) →
    ofEntry u n e = none := by
    intro k e he hk
    obtain ⟨folder, user, rfl, hname, rfl, -, hcan⟩ := hd k e he
    rw [ofEntry_directory hcan hname, if_neg]
    rintro rfl
    exact hk rfl
  rw [find_loadStoreLocked, find_empty, Option.none_or,
    Dict.findSome?_entries (g := fun _ e => ofEntry u n e) hother, Disk.lookup]
  cases hroot : disk.root.get? (foldCase (encodeName u)) with
  | none => rfl
  | some e =>
      obtain ⟨folder, user, rfl, hname, -, -, hcan⟩ := hd _ e hroot
      rw [Option.bind_some, ofEntry_directory hcan hname]
      simp only [hname, encodeName_inj, eq_comm (a := u)]

end Files

/-! ## Memory and mirror agree -/

namespace Store
variable {refuses : Bytes → Bool} {s s' : Store}

/-- The mirror is canonical, and a loaded process holds exactly what it does; one that is not
loaded holds nothing. -/
structure Mirrored (s : Store) : Prop where
  canonical : s.disk.Canonical
  loaded : s.loaded = true → ∀ user name, s.files.find user name = s.disk.lookup user name
  empty : s.loaded = false → s.files = .empty

/-- A new process holds nothing yet. -/
theorem Mirrored.freshProcess (h : Mirrored s) : Mirrored s.freshProcess :=
  ⟨h.canonical, nofun, fun _ => rfl⟩

@[simp] theorem ensureLoadedLocked_disk (s : Store) : s.ensureLoadedLocked.disk = s.disk := by
  unfold ensureLoadedLocked
  split <;> rfl

@[simp] theorem ensureLoadedLocked_loaded (s : Store) : s.ensureLoadedLocked.loaded = true := by
  unfold ensureLoadedLocked
  split
  · assumption
  · rfl

/-- Loading fills the memory from the mirror. -/
theorem Mirrored.ensureLoadedLocked (h : Mirrored s) : Mirrored s.ensureLoadedLocked := by
  refine ⟨by simpa using h.canonical, fun _ user name => ?_, by simp⟩
  unfold Store.ensureLoadedLocked
  split
  · next hl => exact h.loaded hl user name
  · next hl =>
      rw [Bool.not_eq_true] at hl
      simp only [h.empty hl]
      exact Files.find_load_empty h.canonical user name

/-- In a mirrored store, what a query finds is what the mirror holds. -/
theorem Mirrored.find (h : Mirrored s) (user name : Bytes) :
    s.ensureLoadedLocked.files.find user name = s.disk.lookup user name := by
  rw [h.ensureLoadedLocked.loaded (by simp), ensureLoadedLocked_disk]

/-- Memory and mirror take a file alike. -/
theorem Mirrored.put (h : Mirrored s) (hl : s.loaded = true) {user name : Bytes}
    (hok : s.disk.Admits refuses user name) (bytes : Bytes) :
      Mirrored (s.put refuses user name bytes) where
  canonical := h.canonical.persistWriteLocked hok bytes
  loaded _ u n := by
    have hmem := Files.find_set_set s.files user name bytes u n
    rw [h.loaded hl] at hmem
    exact hmem.trans (Disk.lookup_persistWriteLocked h.canonical hok bytes u n).symm
  empty hl' := by
    change s.loaded = false at hl'
    simp [hl] at hl'

/-- A write that the file system admits goes to memory and mirror alike. -/
theorem Mirrored.writeFile (h : Mirrored s) {user : Bytes} {filename : Option Bytes}
    {callback : Option (List (Bytes × EWriteResult))} {r : EResult}
    (hw : s.writeFile refuses user filename callback = some (r, s'))
    (hok : r = .success → ∀ name, filename = some name → s.disk.Admits refuses user name) :
      Mirrored s' := by
  unfold Store.writeFile at hw
  split at hw
  · next name _ _ =>
      cases hw
      refine h.ensureLoadedLocked.put (ensureLoadedLocked_loaded s) ?_ _
      rw [ensureLoadedLocked_disk]
      exact hok rfl name rfl
  · cases hw
    exact h
  · cases hw

/-- So does a copy. -/
theorem Mirrored.duplicateFile (h : Mirrored s) {user : Bytes} {source destination : Option Bytes}
    {r : EResult} (hd : s.duplicateFile refuses user source destination = (r, s'))
    (hok : r = .success → ∀ name, destination = some name → s.disk.Admits refuses user name) :
      Mirrored s' := by
  unfold Store.duplicateFile at hd
  split at hd
  · next source destination =>
      have hload := h.ensureLoadedLocked
      simp only at hd
      split at hd
      · cases hd
        refine hload.put (ensureLoadedLocked_loaded s) ?_ _
        rw [ensureLoadedLocked_disk]
        exact hok rfl destination rfl
      · cases hd
        refine ⟨hload.canonical, fun hl u n => ?_, fun hl => absurd hl (by simp)⟩
        rw [← hload.loaded hl, Files.find_set]
        split
        · next hu => rw [hu]; rfl
        · rfl
  · cases hd
    exact h

/-- A deletion takes the file from both. -/
theorem Mirrored.deleteFile (h : Mirrored s) {user : Bytes} {filename : Option Bytes}
    {r : EResult} (hd : s.deleteFile user filename = (r, s')) : Mirrored s' := by
  unfold Store.deleteFile at hd
  split at hd
  · next name =>
      have hload := h.ensureLoadedLocked
      simp only at hd
      split at hd
      · next hc =>
          cases hd
          obtain ⟨bytes, hb⟩ := Option.isSome_iff_exists.1 hc
          have hheld : s.ensureLoadedLocked.disk.lookup user name = some bytes := by
            rw [← hload.loaded (by simp)]
            exact hb
          refine ⟨hload.canonical.persistDeleteLocked hheld, fun hl u n => ?_, fun hl => absurd hl
            (by simp)⟩
          have hmem := Files.find_set_erase s.ensureLoadedLocked.files user name u n
          rw [hload.loaded (by simp)] at hmem
          exact hmem.trans (Disk.lookup_persistDeleteLocked hload.canonical hheld u n).symm
      · cases hd
        exact hload
  · cases hd
    exact h

/-- Another order of the same entries. -/
theorem Mirrored.of_same {disk : Disk} (h : Mirrored s) (hcan : disk.Canonical)
    (hsame : ∀ user name, disk.lookup user name = s.disk.lookup user name) :
      Mirrored { s with disk } :=
  ⟨hcan, fun hl user name => (h.loaded hl user name).trans (hsame user name).symm, h.empty⟩

/-- The users are found in any order. -/
theorem Mirrored.reorderRoot (h : Mirrored s) (key : Bytes) :
    Mirrored { s with disk := { s.disk with root := s.disk.root.toFront key } } := by
  refine h.of_same (fun k e he => h.canonical k e (by simpa using he)) fun user name => ?_
  unfold Disk.lookup
  simp only [Dict.get?_toFront]

/-- So are the files of a user. -/
theorem Mirrored.reorderDirectory (h : Mirrored s) (directory key : Bytes) :
    Mirrored { s with disk := s.disk.toFront directory key } := by
  unfold Disk.toFront
  split
  · next folder hroot =>
      have hget : ∀ k, (s.disk.root.set directory
          (.directory { folder with files := folder.files.toFront key })).get? k
          = if k = directory then some
            (.directory { folder with files := folder.files.toFront key })
            else s.disk.root.get? k := fun k => Dict.get?_set ..
      refine h.of_same (fun k e he => ?_) fun user name => ?_
      · simp only [hget] at he
        split at he
        · next hk =>
            cases he
            subst hk
            obtain ⟨_, user, heq, hname, hkey, hspecial, hcan⟩ := h.canonical _ _ hroot
            cases heq
            refine ⟨_, user, rfl, hname, hkey, hspecial, fun k f hf => hcan k f ?_⟩
            simpa using hf
        · exact h.canonical k e he
      · unfold Disk.lookup
        simp only [hget]
        split_ifs with hk
        · rw [hk, hroot]
          simp only [Directory.lookup, Dict.get?_toFront]
        · rfl
  · exact h

/-- A step whose names the mirror keeps apart keeps memory and mirror in agreement. -/
theorem Mirrored.step {a : Action} (h : Mirrored s) (hok : KeepsApart refuses s a)
    (hst : step refuses s a = some s') : Mirrored s' := by
  obtain ⟨⟨r, t⟩, hp, rfl⟩ := Option.map_eq_some_iff.1 hst
  have hsucc : r = .success → Succeeds refuses s a := by
    intro hr
    unfold Succeeds
    rw [hp, Option.map_some, hr]
  cases a with
  | writeFile user filename callback =>
      refine h.writeFile hp fun hr name hn => ?_
      exact hok (hsucc hr) (user, name) (by simp [Action.target?, hn])
  | duplicateFile user source destination =>
      refine h.duplicateFile (Option.some_inj.1 hp) fun hr name hn => ?_
      exact hok (hsucc hr) (user, name) (by simp [Action.target?, hn])
  | deleteFile user filename => exact h.deleteFile (Option.some_inj.1 hp)
  | query => cases hp; exact h.ensureLoadedLocked
  | restart => cases hp; exact h.freshProcess
  | reorderRoot key => cases hp; exact h.reorderRoot key
  | reorderDirectory directory key => cases hp; exact h.reorderDirectory directory key

/-- Nothing is stored yet. -/
theorem Mirrored.start : Mirrored {} := ⟨nofun, nofun, fun _ => rfl⟩

/-- Along a run, memory and mirror agree. -/
theorem mirrored_of_run (h : Run (PlayerDataStorage.step refuses) (KeepsApart refuses) {} s) :
    Mirrored s :=
  h.invariant Mirrored.start fun _ _ _ hu hok hst => hu.step hok hst

/-- The data that a fresh process loads is the data of the process before it, for every user and
every name. -/
theorem reload_exact (h : Run (PlayerDataStorage.step refuses) (KeepsApart refuses) {} s)
    (user name : Bytes) :
    s.freshProcess.ensureLoadedLocked.files.find user name =
      s.ensureLoadedLocked.files.find user name := by
  have hs := mirrored_of_run h
  rw [hs.freshProcess.find, hs.find]
  rfl

/-- The host's limit on the length of a name, as on NTFS. -/
def tooLong (name : Bytes) : Bool := 255 < name.length

/-- A save is copied under a name with a separator in it, and deleted. -/
def copyRun : List Action :=
  [.writeFile (str "0002") (some (str "Save"))
    (some [([1], .continueWriting), ([2], .completeRequest)]),
    .duplicateFile (str "0002") (some (str "Save")) (some (str "old/Save")), .restart,
    .deleteFile (str "0002") (some (str "Save"))]

/-- A file is copied, the process restarts, and the original is deleted. -/
theorem reload_exact_copyRun : ∃ s, execIf (PlayerDataStorage.step tooLong)
    (fun s a => decide (KeepsApart tooLong s a)) {} copyRun = some s ∧
    s.freshProcess.ensureLoadedLocked.files.find (str "0002") (str "Save") = none ∧
    s.freshProcess.ensureLoadedLocked.files.find (str "0002") (str "old/Save") = some [1, 2] := by
  obtain ⟨s, hs, hfind⟩ := (Option.any_eq_true (fun s : Store =>
      decide (s.ensureLoadedLocked.files.find (str "0002") (str "Save") = none) &&
      decide (s.ensureLoadedLocked.files.find (str "0002") (str "old/Save") = some [1, 2]))
    (execIf (PlayerDataStorage.step tooLong) (fun s a => decide (KeepsApart tooLong s a))
      {} copyRun)).1
    (by decide +kernel)
  rw [Bool.and_eq_true, decide_eq_true_eq, decide_eq_true_eq] at hfind
  have hrun : Run (PlayerDataStorage.step tooLong) (KeepsApart tooLong) {} s :=
    Run.of_execIf (fun _ _ h => of_decide_eq_true h) hs
  refine ⟨s, hs, ?_, ?_⟩
  · rw [reload_exact hrun]
    exact hfind.1
  · rw [reload_exact hrun]
    exact hfind.2

/-- Two files whose names differ in letter case, both written with success, come back as one: the
first name with the second contents. -/
theorem not_reload_exact : ¬ ∀ s : Store, Run (PlayerDataStorage.step tooLong) (Succeeds tooLong)
    {} s → ∀ user name, s.freshProcess.ensureLoadedLocked.files.find user name
      = s.ensureLoadedLocked.files.find user name := by
  intro hall
  obtain ⟨s, hs, hfind⟩ := (Option.any_eq_true (fun s : Store =>
      decide (s.freshProcess.ensureLoadedLocked.files.find (str "0002") (str "Save")
        ≠ s.ensureLoadedLocked.files.find (str "0002") (str "Save")))
    (execIf (PlayerDataStorage.step tooLong) (fun s a => decide (Succeeds tooLong s a)) {}
      [.writeFile (str "0002") (some (str "Save")) (some [([1], .completeRequest)]),
        .writeFile (str "0002") (some (str "save")) (some [([2], .completeRequest)])])).1
    (by decide +kernel)
  exact of_decide_eq_true hfind
    (hall s (Run.of_execIf (fun _ _ h => of_decide_eq_true h) hs) (str "0002") (str "Save"))

end Store

end EOSEmu.PlayerDataStorage
