import EOSEmu.Storage.Names

/-!
# The on-disk mirror

The directory `<CacheDirectory>/eosemu_pds` as a host with case-insensitive names keeps it: entries
are found by their folded name and keep the name they were created under. The empty name and `.`
name the directory itself, `..` its parent, and `refuses` tells which other names the host does not
create (over-long or reserved ones). Over it, `PersistWriteLocked` and `PersistDeleteLocked` of
`interfaces/PlayerDataStorage.cpp`.
-/

namespace EOSEmu.PlayerDataStorage

open Lib

/-- A file on disk. -/
structure HostFile where
  name : Bytes
  content : Bytes
  deriving DecidableEq, Repr

/-- A directory below the root, its files by folded name. -/
structure Directory where
  name : Bytes
  files : Dict Bytes HostFile := .empty

/-- An entry of the root. -/
inductive RootEntry where
  | file (f : HostFile)
  | directory (dir : Directory)

/-- What the store leaves on disk: the entries of the root by folded name, and files beside the
root. -/
structure Disk where
  root : Dict Bytes RootEntry := .empty
  cache : Dict Bytes HostFile := .empty

/-- What a directory holds under exactly the given file name. -/
def Directory.lookup (folder : Directory) (name : Bytes) : Option Bytes :=
  (folder.files.get? (foldCase (encodeName name))).bind fun f =>
    if f.name = encodeName name then some f.content else none

/-- The name of the root in `CacheDirectory`. -/
def rootName : Bytes := str "eosemu_pds"

/-- Names that denote a directory that exists already. -/
def isSpecial (name : Bytes) : Bool := name == [] || name == [dot] || name == [dot, dot]

section Host
variable (refuses : Bytes → Bool)

/-- Names under which the host creates entries. -/
def ordinary (name : Bytes) : Bool := !isSpecial name && !refuses name

/-- Opening a file for writing among the files of a directory, and writing it: a file whose name
differs only in letter case is the one overwritten. -/
def createFile (files : Dict Bytes HostFile) (name content : Bytes) : Dict Bytes HostFile :=
  if ordinary refuses name then
    let stored := ((files.get? (foldCase name)).map HostFile.name).getD name
    files.set (foldCase name) { name := stored, content }
  else files

namespace Disk

/-- `fs::create_directories(Root / name)`. -/
def createDirectories (d : Disk) (name : Bytes) : Disk :=
  if ordinary refuses name && (d.root.get? (foldCase name)).isNone then
    { d with root := d.root.set (foldCase name) (.directory { name }) }
  else d

/-- Writing the file `Root / dir / name`. -/
def writeFile (d : Disk) (dir name content : Bytes) : Disk :=
  if dir = [dot, dot] then
    if foldCase name = rootName then d
        else { d with cache := createFile refuses d.cache name content }
  else if isSpecial dir then
    match d.root.get? (foldCase name) with
    | some (.directory _) => d
    | some (.file f) => { d with root := d.root.set (foldCase name) (.file { f with content }) }
    | none =>
        if ordinary refuses name then
          { d with root := d.root.set (foldCase name) (.file { name, content }) }
        else d
  else
    match d.root.get? (foldCase dir) with
    | some (.directory folder) =>
        let files := createFile refuses folder.files name content
        { d with root := d.root.set (foldCase dir) (.directory { folder with files }) }
    | _ => d

/-- `fs::remove(Root / dir / name)`: a file, or a directory that is empty. -/
def remove (d : Disk) (dir name : Bytes) : Disk :=
  if dir = [dot, dot] then { d with cache := d.cache.erase (foldCase name) }
  else if isSpecial dir then
    match d.root.get? (foldCase name) with
    | some (.directory folder) =>
        if folder.files.entries.isEmpty then { d with root := d.root.erase (foldCase name) } else d
    | _ => { d with root := d.root.erase (foldCase name) }
  else
    match d.root.get? (foldCase dir) with
    | some (.directory folder) =>
        if name = [] ∨ name = [dot] then
          if folder.files.entries.isEmpty then { d with root := d.root.erase (foldCase dir) }
            else d
        else
          let files := folder.files.erase (foldCase name)
          { d with root := d.root.set (foldCase dir) (.directory { folder with files }) }
    | _ => d

/-- `PersistWriteLocked`. -/
def persistWriteLocked (d : Disk) (user name bytes : Bytes) : Disk :=
  (d.createDirectories refuses (encodeName user)).writeFile
      refuses (encodeName user) (encodeName name) bytes

/-- `PersistDeleteLocked`. -/
def persistDeleteLocked (d : Disk) (user name : Bytes) : Disk :=
  d.remove (encodeName user) (encodeName name)

/-- The directory at a place of the root. -/
def directory? (d : Disk) (key : Bytes) : Option Directory :=
  match d.root.get? key with
  | some (.directory folder) => some folder
  | _ => none

/-- What the mirror holds for a user and a file name, under exactly these names. -/
def lookup (d : Disk) (user name : Bytes) : Option Bytes :=
  match d.root.get? (foldCase (encodeName user)) with
  | some (.directory folder) => if folder.name = encodeName user then folder.lookup name else none
  | _ => none

/-- The mirror can take this user's file under this name: both encodings are names the host
creates, and what it holds already under the same name up to letter case it holds under exactly
that name. -/
def Admits (d : Disk) (user name : Bytes) : Prop :=
  ordinary refuses (encodeName user) = true ∧ ordinary refuses (encodeName name) = true ∧
  ∀ folder ∈ d.directory? (foldCase (encodeName user)),
    folder.name = encodeName user ∧
    ∀ f ∈ folder.files.get? (foldCase (encodeName name)), f.name = encodeName name

instance (d : Disk) (user name : Bytes) : Decidable (d.Admits refuses user name) :=
  inferInstanceAs (Decidable (_ ∧ _ ∧ _))

end Disk
end Host

/-! ## Mirrors that hold encoded names only -/

namespace Directory
variable {folder : Directory} {name : Bytes}

/-- Every file is stored under the encoding of some name. -/
def Canonical (folder : Directory) : Prop :=
  ∀ k f, folder.files.get? k = some f →
    ∃ name, f.name = encodeName name ∧ k = foldCase (encodeName name) ∧
    isSpecial (encodeName name) = false

/-- Two names are in one place of a directory, and a file of the one name is not found under the
other. -/
theorem lookup_eq_none {n : Bytes} (hn : n ≠ name)
    (hkey : foldCase (encodeName n) = foldCase (encodeName name))
    (hheld : ∀ f, folder.files.get? (foldCase (encodeName name)) = some f →
    f.name = encodeName name) :
    folder.lookup n = none := by
  unfold lookup
  rw [hkey]
  cases hf : folder.files.get? (foldCase (encodeName name)) with
  | none => rfl
  | some f =>
      have hne : encodeName name ≠ encodeName n := fun h => hn (encodeName_inj.1 h).symm
      rw [Option.bind_some, hheld f hf, if_neg hne]

/-- Setting a file whose place was free, or held by a file of that very name. -/
theorem lookup_set (hheld : ∀ f, folder.files.get? (foldCase (encodeName name)) = some f →
    f.name = encodeName name) (content n : Bytes) :
    ({ folder with files := folder.files.set (foldCase
        (encodeName name)) { name := encodeName name, content } }
      : Directory).lookup n = if n = name then some content else folder.lookup n := by
  split
  · next hn =>
      subst hn
      simp [lookup]
  · next hn =>
      by_cases hkey : foldCase (encodeName n) = foldCase (encodeName name)
      · have hne : encodeName name ≠ encodeName n := fun h => hn (encodeName_inj.1 h).symm
        rw [lookup_eq_none hn hkey hheld]
        simp [lookup, hkey, hne]
      · simp [lookup, hkey]

/-- Erasing the place of a file of that very name. -/
theorem lookup_erase (hheld : ∀ f, folder.files.get? (foldCase (encodeName name)) = some f →
    f.name = encodeName name) (n : Bytes) :
    ({ folder with files := folder.files.erase (foldCase (encodeName name)) } : Directory).lookup n
      = if n = name then none else folder.lookup n := by
  by_cases hkey : foldCase (encodeName n) = foldCase (encodeName name)
  · have hnone : (if n = name then none else folder.lookup n) = none := by
      split
      · rfl
      · next hn => exact lookup_eq_none hn hkey hheld
    rw [hnone]
    simp [lookup, hkey]
  · have hn : n ≠ name := fun h => hkey (h ▸ rfl)
    rw [if_neg hn]
    simp [lookup, hkey]

/-- Setting a file under an encoded name keeps the names encoded. -/
theorem Canonical.set (hcan : folder.Canonical) (hname : isSpecial (encodeName name) = false)
    (content : Bytes) :
    ({ folder with files := folder.files.set (foldCase
        (encodeName name)) { name := encodeName name, content } } : Directory).Canonical := by
  intro k f hf
  simp only [Dict.get?_set] at hf
  split at hf
  · next hk =>
      cases hf
      exact ⟨name, rfl, hk, hname⟩
  · exact hcan k f hf

/-- So does erasing one. -/
theorem Canonical.erase (hcan : folder.Canonical) (key : Bytes) :
    ({ folder with files := folder.files.erase key } : Directory).Canonical := by
  intro k f hf
  simp only [Dict.get?_erase] at hf
  split at hf
  · cases hf
  · exact hcan k f hf

end Directory

namespace Disk
variable {refuses : Bytes → Bool} {d d' : Disk} {user name : Bytes} {folder : Directory}

/-- The root holds one directory per user, under the encoding of the user id. -/
def Canonical (d : Disk) : Prop :=
  ∀ k e, d.root.get? k = some e →
    ∃ folder user, e = .directory folder ∧ folder.name = encodeName user ∧
    k = foldCase (encodeName user) ∧ isSpecial (encodeName user) = false ∧ folder.Canonical

/-- `d'` is `d` with the directory of one user replaced, or added. -/
def Replaces (d d' : Disk) (user : Bytes) (folder : Directory) : Prop :=
  (∀ old, d.root.get? (foldCase (encodeName user)) = some (.directory old) →
    old.name = encodeName user) ∧
  folder.name = encodeName user ∧ isSpecial (encodeName user) = false ∧ folder.Canonical ∧
  ∀ k, d'.root.get? k = if k = foldCase (encodeName user) then some (.directory folder)
    else d.root.get? k

/-- Then the other users' files are as they were. -/
theorem Replaces.lookup (h : Replaces d d' user folder) (u n : Bytes) :
    d'.lookup u n = if u = user then folder.lookup n else d.lookup u n := by
  obtain ⟨hold, hname, -, -, hafter⟩ := h
  unfold Disk.lookup
  rw [hafter]
  by_cases hu : u = user
  · subst hu
    simp [hname]
  · have hne : encodeName user ≠ encodeName u := fun h => hu (encodeName_inj.1 h).symm
    rw [if_neg hu]
    split_ifs with hkey
    · rw [hkey]
      simp only [hname, if_neg hne]
      split
      · next old hroot => rw [hold old hroot, if_neg hne]
      · rfl
    · rfl

/-- And the mirror stays canonical. -/
theorem Replaces.canonical (h : Replaces d d' user folder) (hd : d.Canonical) : d'.Canonical := by
  obtain ⟨-, hname, hspecial, hcan, hafter⟩ := h
  intro k e he
  rw [hafter] at he
  split at he
  · next hk =>
      cases he
      exact ⟨folder, user, rfl, hname, hk, hspecial, hcan⟩
  · exact hd k e he

/-- A directory of the root. -/
theorem directory?_eq {k : Bytes} (h : d.root.get? k = some (.directory folder)) :
    d.directory? k = some folder := by
  rw [directory?, h]

/-- An ordinary name is not one of the names of existing directories. -/
theorem not_special_of_ordinary {n : Bytes} (h : ordinary refuses n = true) :
    isSpecial n = false := by
  unfold ordinary at h
  simp_all

/-- `..` is one of them. -/
theorem ne_dotdot {n : Bytes} (h : isSpecial n = false) : n ≠ [dot, dot] := by
  rintro rfl
  exact absurd h (by decide)

/-- So are the empty name and `.`. -/
theorem not_self {n : Bytes} (h : isSpecial n = false) : ¬(n = [] ∨ n = [dot]) := by
  rintro (rfl | rfl) <;> exact absurd h (by decide)

/-- The entries of a canonical root are canonical directories. -/
theorem Canonical.entry (hd : d.Canonical) {k : Bytes} {e : RootEntry}
    (he : d.root.get? k = some e) : ∃ folder, e = .directory folder ∧ folder.Canonical := by
  obtain ⟨folder, _, rfl, -, -, -, hcan⟩ := hd k e he
  exact ⟨folder, rfl, hcan⟩

/-- What `PersistWriteLocked` does when the mirror can take the file: the file is set in the user's
directory, which is created if needed. -/
theorem replaces_persistWriteLocked (hd : d.Canonical) (hok : d.Admits refuses user name)
    (bytes : Bytes) : ∃ old : Directory, (∀ n, old.lookup n = d.lookup user n) ∧
      (∀ f, old.files.get? (foldCase (encodeName name)) = some f → f.name = encodeName name) ∧
      Replaces d (d.persistWriteLocked refuses user name bytes) user { old with
        files := old.files.set (foldCase (encodeName name)) { name := encodeName name, content :=
            bytes } } := by
  obtain ⟨huser, hname, hheld⟩ := hok
  have hspecial := not_special_of_ordinary huser
  have hfile := not_special_of_ordinary hname
  cases hroot : d.root.get? (foldCase (encodeName user)) with
  | none =>
      have hnew : d.createDirectories refuses (encodeName user)
          = { d with root := d.root.set (foldCase (encodeName user)) (.directory
            { name := encodeName user }) } := by
        simp [createDirectories, huser, hroot]
      have hempty : Directory.Canonical { name := encodeName user } := by
        rintro _ _ ⟨⟩
      refine ⟨{ name := encodeName user }, fun n => by simp [Disk.lookup, Directory.lookup,
        hroot], by rintro _ ⟨⟩, ?_⟩
      refine ⟨fun old hold => (by rw [hroot] at hold; cases hold), rfl, hspecial,
        hempty.set hfile bytes, fun k => ?_⟩
      rw [persistWriteLocked, hnew, writeFile, if_neg (ne_dotdot hspecial), hspecial]
      simp only [Bool.false_eq_true, if_false, Dict.get?_set, if_true, createFile, hname,
        Dict.get?_empty, Option.map_none, Option.getD_none]
      split <;> rfl
  | some e =>
      obtain ⟨folder, rfl, hcan⟩ := hd.entry hroot
      obtain ⟨hfolder, hheldFile⟩ := hheld folder (directory?_eq hroot)
      have hsame : d.createDirectories refuses (encodeName user) = d := by
        simp [createDirectories, hroot]
      have hstored : ((folder.files.get? (foldCase (encodeName name))).map HostFile.name).getD
        (encodeName name) = encodeName name := by
        cases hf : folder.files.get? (foldCase (encodeName name)) with
        | none => rfl
        | some f => exact hheldFile f hf
      refine ⟨folder, fun n => by simp [Disk.lookup, hroot, hfolder], hheldFile, ?_⟩
      refine ⟨fun old hold => (hheld old (directory?_eq hold)).1, hfolder, hspecial,
        hcan.set hfile bytes, fun k => ?_⟩
      rw [persistWriteLocked, hsame, writeFile, if_neg (ne_dotdot hspecial), hspecial]
      simp only [Bool.false_eq_true, if_false, hroot, createFile, hname, if_true, hstored,
        Dict.get?_set]

/-- Such a write makes the mirror hold the bytes under the name it was given, and leaves every
other file of every user as it was. -/
theorem lookup_persistWriteLocked (hd : d.Canonical) (hok : d.Admits refuses user name)
    (bytes u n : Bytes) :
    (d.persistWriteLocked refuses user name bytes).lookup u n
      = if u = user ∧ n = name then some bytes else d.lookup u n := by
  obtain ⟨old, hold, hheld, hrep⟩ := replaces_persistWriteLocked hd hok bytes
  rw [hrep.lookup, Directory.lookup_set hheld]
  by_cases hu : u = user
  · subst hu
    simp [hold]
  · simp [hu]

/-- Such a write keeps the mirror canonical. -/
theorem Canonical.persistWriteLocked (hd : d.Canonical) (hok : d.Admits refuses user name)
    (bytes : Bytes) : (d.persistWriteLocked refuses user name bytes).Canonical := by
  obtain ⟨_, -, -, hrep⟩ := replaces_persistWriteLocked hd hok bytes
  exact hrep.canonical hd

/-- What a canonical mirror holds lies in the user's directory, in a file of that very name. -/
theorem Canonical.of_lookup (hd : d.Canonical) {bytes : Bytes}
    (h : d.lookup user name = some bytes) :
    ∃ folder f, d.root.get? (foldCase (encodeName user)) = some (.directory folder) ∧
      folder.name = encodeName user ∧ isSpecial (encodeName user) = false ∧ folder.Canonical ∧
      folder.files.get? (foldCase (encodeName name)) = some f ∧ f.name = encodeName name ∧
      isSpecial (encodeName name) = false := by
  unfold Disk.lookup at h
  split at h
  · next folder hroot =>
      obtain ⟨_, u, he, hname, -, hspecial, hcan⟩ := hd _ _ hroot
      cases he
      split at h
      · next hfolder =>
          obtain ⟨f, hf, hsome⟩ := Option.bind_eq_some_iff.1 h
          split at hsome
          · next hfname =>
              obtain ⟨n, hn, -, hnspecial⟩ := hcan _ f hf
              exact ⟨folder, f, hroot, hfolder, hfolder ▸ hname ▸ hspecial, hcan, hf, hfname,
                hfname ▸ hn ▸ hnspecial⟩
          · cases hsome
      · cases h
  · cases h

/-- What `PersistDeleteLocked` does to a file that the mirror holds. -/
theorem replaces_persistDeleteLocked (hd : d.Canonical) {bytes : Bytes}
    (h : d.lookup user name = some bytes) :
    ∃ old : Directory, (∀ n, old.lookup n = d.lookup user n) ∧
      (∀ f, old.files.get? (foldCase (encodeName name)) = some f → f.name = encodeName name) ∧
      Replaces d (d.persistDeleteLocked user name) user
        { old with files := old.files.erase (foldCase (encodeName name)) } := by
  obtain ⟨folder, f, hroot, hname, hspecial, hcan, hf, hfname, hfile⟩ := hd.of_lookup h
  refine ⟨folder, fun n => by simp [Disk.lookup, hroot, hname], fun f' hf' => ?_, ?_, hname,
    hspecial, hcan.erase _, fun k => ?_⟩
  · rw [hf] at hf'
    cases hf'
    exact hfname
  · intro old hold
    rw [hroot] at hold
    cases hold
    exact hname
  · rw [persistDeleteLocked, remove, if_neg (ne_dotdot hspecial), hspecial]
    simp only [Bool.false_eq_true, if_false, hroot, if_neg (not_self hfile), Dict.get?_set]

/-- Deleting a file that the mirror holds takes it away, and leaves every other file of every user
as it was. -/
theorem lookup_persistDeleteLocked (hd : d.Canonical) {bytes : Bytes}
    (h : d.lookup user name = some bytes) (u n : Bytes) :
    (d.persistDeleteLocked user name).lookup u n = if u = user ∧
    n = name then none else d.lookup u n := by
  obtain ⟨old, hold, hheld, hrep⟩ := replaces_persistDeleteLocked hd h
  rw [hrep.lookup, Directory.lookup_erase hheld]
  by_cases hu : u = user
  · subst hu
    simp [hold]
  · simp [hu]

/-- Such a deletion keeps the mirror canonical. -/
theorem Canonical.persistDeleteLocked (hd : d.Canonical) {bytes : Bytes}
    (h : d.lookup user name = some bytes) : (d.persistDeleteLocked user name).Canonical := by
  obtain ⟨_, -, -, hrep⟩ := replaces_persistDeleteLocked hd h
  exact hrep.canonical hd

end Disk

end EOSEmu.PlayerDataStorage
