import EOSEmu.Core.IniConfig
import EOSEmu.Core.Platform

/-!
# What a configuration answers

The files that are loaded assign texts to keys (`Assigns`), in the order of the calls and, within a
file, of the lines. The configuration keeps exactly these assignments (`values_loadAll`), so every
lookup is answered from them.
-/

namespace EOSEmu

open Lib

namespace IniConfig

/-- A key of a section gets a text. The names are in lower case. -/
structure Assignment where
  sec : Bytes
  key : Bytes
  text : Bytes
  priority : Source
  deriving DecidableEq, Repr

namespace Assignment

/-- What `LoadFile` stores. -/
def value (a : Assignment) : Value := ⟨a.text, a.priority.toInt⟩

/-- Whether a lookup of the key in the section means it, up to the case of the names. -/
def under (sec key : Bytes) (a : Assignment) : Bool := a.sec = lower sec ∧ a.key = lower key

end Assignment

/-! ## What a file assigns -/

/-- What the lines of a file assign, from a section on. -/
inductive Reads (priority : Source) : Bytes → List Bytes → List Assignment → Prop
  | done {sec : Bytes} : Reads priority sec [] []
  | ignored {sec line : Bytes} {rest : List Bytes} {as : List Assignment} : Spells line .ignored →
      Reads priority sec rest as → Reads priority sec (line :: rest) as
  | header {sec line name : Bytes} {rest : List Bytes} {as : List Assignment} :
      Spells line (.header name) →
      Reads priority name rest as → Reads priority sec (line :: rest) as
  | assignment {sec line key text : Bytes} {rest : List Bytes} {as : List Assignment} :
      Spells line (.assignment key text) → Reads priority sec rest as →
      Reads priority sec (line :: rest) (⟨sec, key, text, priority⟩ :: as)

/-- The lines of a file, without a BOM. -/
def textLines (contents : Bytes) : List Bytes :=
  match splitLines 10 contents with
  | [] => []
  | line :: rest => withoutBom line :: rest

/-- What the files of a list of calls assign, one after the other. -/
inductive Assigns (files : Bytes → Option Bytes) : List (Bytes × Source) → List Assignment → Prop
  | done : Assigns files [] []
  | file {path contents : Bytes} {priority : Source} {calls : List (Bytes × Source)}
      {as bs : List Assignment} :
      files path = some contents → Reads priority [] (textLines contents) as →
      Assigns files calls bs →
      Assigns files ((path, priority) :: calls) (as ++ bs)

/-- The calls that load a file: the path is not empty, the file can be opened, and its canonical
path was not loaded before. -/
def loaded (canonicalPath : Bytes → Bytes) (files : Bytes → Option Bytes) :
    List Bytes → List (Bytes × Source) → List (Bytes × Source)
  | _, [] => []
  | seen, call :: calls =>
      if call.1 ≠ [] ∧ (files call.1).isSome ∧ canonicalPath call.1 ∉ seen then
        call :: loaded canonicalPath files (seen ++ [canonicalPath call.1]) calls
      else loaded canonicalPath files seen calls

section
variable {priority : Source} {sec line : Bytes} {lines : List Bytes} {as as' : List Assignment}
  {canonicalPath : Bytes → Bytes} {files : Bytes → Option Bytes} {calls : List (Bytes × Source)}
  {c : IniConfig}

/-- The lines of every file assign something, if only nothing. -/
theorem exists_reads (priority : Source) (sec : Bytes) (lines : List Bytes) :
    ∃ as, Reads priority sec lines as := by
  induction lines generalizing sec with
  | nil => exact ⟨[], .done⟩
  | cons line lines ih =>
      have hline := spells_iff.2 (Eq.refl (classify (trim line)))
      cases hitem : classify (trim line) with
      | ignored =>
          obtain ⟨as, has⟩ := ih sec
          exact ⟨as, .ignored (hitem ▸ hline) has⟩
      | header name =>
          obtain ⟨as, has⟩ := ih name
          exact ⟨as, .header (hitem ▸ hline) has⟩
      | assignment key text =>
          obtain ⟨as, has⟩ := ih sec
          exact ⟨_, .assignment (hitem ▸ hline) has⟩

/-- A line spells one thing. -/
theorem Spells.unique {item item' : IniLine} (h : Spells line item) (h' : Spells line item') :
    item = item' :=
  (spells_iff.1 h).symm.trans (spells_iff.1 h')

/-- The lines of a file make one list of assignments. -/
theorem Reads.unique (h : Reads priority sec lines as) (h' : Reads priority sec lines as') :
    as = as' := by
  induction h generalizing as' with
  | done =>
      cases h'
      rfl
  | ignored hline _ ih =>
      cases h' with
      | ignored _ h' => exact ih h'
      | header hline' _ | assignment hline' _ => cases hline.unique hline'
  | header hline _ ih =>
      cases h' with
      | header hline' h' =>
          cases hline.unique hline'
          exact ih h'
      | ignored hline' _ | assignment hline' _ => cases hline.unique hline'
  | assignment hline _ ih =>
      cases h' with
      | assignment hline' h' =>
          cases hline.unique hline'
          rw [ih h']
      | ignored hline' _ | header hline' _ => cases hline.unique hline'

/-- So do the files of a list of calls. -/
theorem Assigns.unique (h : Assigns files calls as) (h' : Assigns files calls as') : as = as' := by
  induction h generalizing as' with
  | done =>
      cases h'
      rfl
  | file hfile hreads _ ih =>
      cases h' with
      | file hfile' hreads' hrest =>
          rw [hfile] at hfile'
          cases hfile'
          rw [hreads.unique hreads', ih hrest]

variable (canonicalPath files) in
/-- The files that are loaded make a list. -/
theorem exists_assigns (seen : List Bytes) (calls : List (Bytes × Source)) :
    ∃ as, Assigns files (loaded canonicalPath files seen calls) as := by
  induction calls generalizing seen with
  | nil => exact ⟨[], .done⟩
  | cons call calls ih =>
      unfold loaded
      split
      · next hloads =>
          obtain ⟨contents, hcontents⟩ := Option.isSome_iff_exists.1 hloads.2.1
          obtain ⟨as, has⟩ := exists_reads call.2 [] (textLines contents)
          obtain ⟨bs, hbs⟩ := ih (seen ++ [canonicalPath call.1])
          exact ⟨as ++ bs, .file hcontents has hbs⟩
      · exact ih seen

/-! ## What the configuration keeps -/

/-- The values stored at a key of a section. -/
def values (data : Data) (sec key : Bytes) : List Value :=
  ((data.get? sec).bind fun keys => keys.get? key).getD []

/-- An assignment adds its value behind those of its key. -/
theorem values_assign (data : Data) (sec key : Bytes) (v : Value) (s k : Bytes) :
    values (assign data sec key v) s k = values data s k ++ if s = sec ∧
    k = key then [v] else [] := by
  by_cases hs : s = sec
  · subst hs
    by_cases hk : k = key
    · subst hk
      cases hget : data.get? s <;> simp [values, assign, hget]
    · cases hget : data.get? s <;> simp [values, assign, hget, hk]
  · simp [values, assign, hs]

/-- A carriage return at the end of a line is one of its blanks. -/
theorem trim_withoutCr (line : Bytes) : trim (withoutCr line) = trim line := by
  unfold withoutCr
  split
  · next hlast =>
      obtain ⟨l, rfl⟩ := List.getLast?_eq_some_iff.1 hlast
      have hblank : Blank isspace [13] := by simp [Blank, isspace]
      rw [List.dropLast_concat, trim, trim, strip_append_blank hblank]
  · rfl

/-- It does not matter whether the carriage return or the BOM goes first. -/
theorem trim_withoutBom_withoutCr (line : Bytes) :
    trim (withoutBom (withoutCr line)) = trim (withoutBom line) := by
  have hblank : Blank isspace [13] := by simp [Blank, isspace]
  have hbom : ∀ l : Bytes, withoutBom (l ++ [13]) = withoutBom l ++ [13] := by
    intro l
    obtain _ | ⟨a, _ | ⟨b, _ | ⟨c, rest⟩⟩⟩ := l
    · simp [withoutBom]
    · simp [withoutBom]
    · simp [withoutBom]
    · by_cases habc : a = 0xEF ∧ b = 0xBB ∧ c = 0xBF
      · obtain ⟨rfl, rfl, rfl⟩ := habc
        rfl
      · have hother : ∀ r : Bytes, withoutBom (a :: b :: c :: r) = a :: b :: c :: r := by
          intro r
          unfold withoutBom
          split
          · next heq =>
              cases heq
              exact absurd ⟨rfl, rfl, rfl⟩ habc
          · rfl
        rw [List.cons_append, List.cons_append, List.cons_append, hother, hother]
        rfl
  unfold withoutCr
  split
  · next hlast =>
      obtain ⟨l, rfl⟩ := List.getLast?_eq_some_iff.1 hlast
      rw [List.dropLast_concat, hbom, trim, trim, strip_append_blank hblank]
  · rfl

/-- One round of the loop, by what the line spells. -/
theorem readLine_ignored (h : Spells line .ignored) (data : Data) :
    readLine priority ⟨sec, false, data⟩ line = ⟨sec, false, data⟩ := by
  simp [readLine, trim_withoutCr, spells_iff.1 h]

/-- A header opens its section. -/
theorem readLine_header {name : Bytes} (h : Spells line (.header name)) (data : Data) :
    readLine priority ⟨sec, false, data⟩ line = ⟨name, false, data⟩ := by
  simp [readLine, trim_withoutCr, spells_iff.1 h]

/-- An assignment is stored in the open section. -/
theorem readLine_assignment {key text : Bytes} (h : Spells line (.assignment key text))
    (data : Data) : readLine priority ⟨sec, false, data⟩ line =
      ⟨sec, false, assign data sec key ⟨text, priority.toInt⟩⟩ := by
  simp [readLine, trim_withoutCr, spells_iff.1 h]

/-- The loop adds what the lines assign. -/
theorem Reads.values_foldl (h : Reads priority sec lines as) (data : Data) (s k : Bytes) :
    values (lines.foldl (readLine priority) ⟨sec, false, data⟩).data s k =
      values data s k ++ (as.filter fun a => a.sec = s ∧ a.key = k).map Assignment.value := by
  induction h generalizing data with
  | done => simp
  | ignored hline _ ih => rw [List.foldl_cons, readLine_ignored hline, ih]
  | header hline _ ih => rw [List.foldl_cons, readLine_header hline, ih]
  | @assignment sec line key text _ _ hline _ ih =>
      rw [List.foldl_cons, readLine_assignment hline, ih, values_assign, List.append_assoc,
        List.filter_cons]
      by_cases hkey : s = sec ∧ k = key
      · obtain ⟨rfl, rfl⟩ := hkey
        simp [Assignment.value]
      · have hkey' : ¬ (sec = s ∧ key = k) := fun h => hkey ⟨h.1.symm, h.2.symm⟩
        simp [hkey, hkey']

/-- The first round strips the BOM. -/
theorem readLine_first (data : Data) :
    readLine priority ⟨sec, true, data⟩ line = readLine priority ⟨sec, false, data⟩
      (withoutBom line) := by
  simp [readLine, trim_withoutCr, trim_withoutBom_withoutCr]

/-- Loading a file adds what it assigns. -/
theorem values_file {contents : Bytes} (h : Reads priority [] (textLines contents) as)
    (data : Data) (s k : Bytes) :
    values ((splitLines 10 contents).foldl (readLine priority) { data }).data s k =
      values data s k ++ (as.filter fun a => a.sec = s ∧ a.key = k).map Assignment.value := by
  unfold textLines at h
  split at h
  · next hlines =>
      rw [hlines]
      exact h.values_foldl data s k
  · next line rest hlines =>
      rw [hlines, List.foldl_cons, readLine_first, ← List.foldl_cons]
      exact h.values_foldl data s k

/-! ## Sequences of calls -/

variable (canonicalPath files) in
/-- What one call does. -/
theorem loadFile_cases (call : Bytes × Source) (c : IniConfig) :
    (∃ contents, call.1 ≠ [] ∧ files call.1 = some contents ∧
    canonicalPath call.1 ∉ c.loadedPaths ∧ (loadFile canonicalPath files call.1 call.2 c).2 =
        { data := ((splitLines 10 contents).foldl (readLine call.2) { data := c.data }).data
          anyLoaded := true
          loadedPaths := c.loadedPaths ++ [canonicalPath call.1] }) ∨
    ((call.1 = [] ∨ files call.1 = none ∨ canonicalPath call.1 ∈ c.loadedPaths) ∧
      (loadFile canonicalPath files call.1 call.2 c).2 = c) := by
  unfold loadFile
  split
  · next hempty => exact .inr ⟨.inl (List.isEmpty_iff.1 hempty), rfl⟩
  · next hne =>
      cases hfile : files call.1 with
      | none => exact .inr ⟨.inr (.inl rfl), rfl⟩
      | some contents =>
          by_cases hseen : canonicalPath call.1 ∈ c.loadedPaths
          · refine .inr ⟨.inr (.inr hseen), ?_⟩
            simp [hseen]
          · refine .inl ⟨contents, fun he => hne (List.isEmpty_iff.2 he), rfl, hseen, ?_⟩
            simp [hseen]

/-- The values after a sequence of calls. -/
theorem values_loadAll (c : IniConfig)
    (h : Assigns files (loaded canonicalPath files c.loadedPaths calls) as) (s k : Bytes) :
    values (loadAll canonicalPath files calls c).data s k =
      values c.data s k ++ (as.filter fun a => a.sec = s ∧ a.key = k).map Assignment.value := by
  induction calls generalizing c as with
  | nil =>
      cases h
      exact (List.append_nil _).symm
  | cons call calls ih =>
      unfold loaded at h
      rw [loadAll, List.foldl_cons, ← loadAll]
      rcases loadFile_cases canonicalPath files call c with
        ⟨contents, hne, hfile, hseen, heq⟩ | ⟨hskip, heq⟩
      · rw [if_pos ⟨hne, by rw [hfile]; rfl, hseen⟩] at h
        cases h with
        | file hfile' hreads hrest =>
            rw [hfile] at hfile'
            cases hfile'
            rw [heq, ih _ hrest, values_file hreads, List.append_assoc, List.filter_append,
              List.map_append]
      · rw [if_neg] at h
        · rw [heq]
          exact ih c h
        · rintro ⟨hne, hfile, hseen⟩
          rcases hskip with hskip | hskip | hskip
          · exact hne hskip
          · rw [hskip] at hfile
            cases hfile
          · exact hseen hskip

/-- A path was called for, and calling for it again does nothing. -/
def Settled (canonicalPath : Bytes → Bytes) (files : Bytes → Option Bytes) (path : Bytes)
    (c : IniConfig) : Prop :=
  path = [] ∨ files path = none ∨ canonicalPath path ∈ c.loadedPaths

/-- Loading a settled path changes nothing. -/
theorem Settled.loadFile {path : Bytes} (h : Settled canonicalPath files path c)
    (priority : Source) : (loadFile canonicalPath files path priority c).2 = c := by
  rcases loadFile_cases canonicalPath files (path, priority) c with
    ⟨contents, hne, hfile, hseen, _⟩ | ⟨_, heq⟩
  · rcases h with h | h | h
    · exact absurd h hne
    · rw [hfile] at h
      cases h
    · exact absurd h hseen
  · exact heq

variable (canonicalPath files) in
/-- A call settles its path, and no call unsettles another. -/
theorem settled_loadFile (call : Bytes × Source) (c : IniConfig) :
    Settled canonicalPath files call.1 (IniConfig.loadFile canonicalPath files call.1 call.2 c).2 ∧
    ∀ path, Settled canonicalPath files path c →
      Settled canonicalPath files path
        (IniConfig.loadFile canonicalPath files call.1 call.2 c).2 := by
  rcases loadFile_cases canonicalPath files call c with
    ⟨contents, _, _, _, heq⟩ | ⟨hskip, heq⟩
  · rw [heq]
    refine ⟨.inr (.inr (by simp)), fun path h => ?_⟩
    exact h.imp_right fun h => h.imp_right fun h => List.mem_append_left _ h
  · rw [heq]
    exact ⟨hskip, fun _ h => h⟩

/-- Every path that was called for ends up settled. -/
theorem settled_loadAll {path : Bytes} (c : IniConfig)
    (h : path ∈ calls.map Prod.fst ∨ Settled canonicalPath files path c) :
    Settled canonicalPath files path (loadAll canonicalPath files calls c) := by
  induction calls generalizing c with
  | nil => exact h.resolve_left nofun
  | cons call calls ih =>
      obtain ⟨hself, hother⟩ := settled_loadFile canonicalPath files call c
      rw [List.map_cons, List.mem_cons] at h
      refine ih _ ?_
      rcases h with (rfl | h) | h
      · exact .inr hself
      · exact .inl h
      · exact .inr (hother path h)

/-! ## Lookups -/

/-- The stored values of a key, none included. -/
theorem find_getD (c : IniConfig) (sec key : Bytes) :
    (c.find sec key).getD [] = values c.data (lower sec) (lower key) := rfl

/-- A lookup gives the text of the top value, or the default. -/
theorem getString_find (c : IniConfig) (sec key default : Bytes) : c.getString sec key default =
    (((c.find sec key).bind (pick Value.priority)).map Value.text).getD default := by
  unfold getString
  cases (c.find sec key).bind (pick Value.priority) <;> rfl

/-- `GetString` scans the values of its key. -/
theorem getString_eq (c : IniConfig) (sec key default : Bytes) : c.getString sec key default =
    ((pick Value.priority (values c.data (lower sec) (lower key))).map Value.text).getD
      default := by
  rw [getString_find, ← find_getD]
  cases c.find sec key <;> rfl

/-! ## The keys of a section -/

/-- Lowering a letter twice is lowering it once. -/
theorem tolower_tolower (c : UInt8) : tolower (tolower c) = tolower c := by
  have h : ∀ n < 256, tolower (tolower (UInt8.ofNat n)) = tolower (UInt8.ofNat n) := by
    decide +kernel
  have hc := h c.toNat c.toNat_lt
  rwa [UInt8.ofNat_toNat] at hc

@[simp] theorem lower_lower (s : Bytes) : lower (lower s) = lower s := by
  rw [lower, lower, List.map_map]
  exact List.map_congr_left fun c _ => tolower_tolower c

/-- The stored keys are in lower case, and not empty. -/
def LowerKeys (data : Data) : Prop :=
  ∀ sec keys key values, data.get? sec = some keys → keys.get? key = some values →
    lower key = key ∧ key ≠ []

/-- An assignment to a lower-case key keeps the stored keys in lower case. -/
theorem LowerKeys.assign {data : Data} (h : LowerKeys data) {key : Bytes}
    (hkey : lower key = key ∧ key ≠ []) (sec : Bytes) (v : Value) :
    LowerKeys (assign data sec key v) := by
  intro s keys k values hkeys hvalues
  unfold IniConfig.assign at hkeys
  rw [Dict.get?_set] at hkeys
  split at hkeys
  · cases hkeys
    rw [Dict.get?_set] at hvalues
    split at hvalues
    · next hk => rwa [hk]
    · cases hget : data.get? sec with
      | none => simp [hget] at hvalues
      | some keys =>
          rw [hget] at hvalues
          exact h sec keys k values hget hvalues
  · exact h s keys k values hkeys hvalues

/-- Reading a line keeps the stored keys in lower case. -/
theorem LowerKeys.readLine {s : LoadState} (h : LowerKeys s.data) (priority : Source)
    (line : Bytes) : LowerKeys (readLine priority s line).data := by
  have hspells := spells_classify (if s.first then withoutBom (withoutCr line) else withoutCr line)
  cases hitem : classify
    (trim (if s.first then withoutBom (withoutCr line) else withoutCr line)) with
  | ignored | header =>
      simp only [IniConfig.readLine, hitem]
      exact h
  | assignment key text =>
      rw [hitem] at hspells
      simp only [IniConfig.readLine, hitem]
      cases hspells with
      | assignment _ _ hne =>
          exact h.assign ⟨lower_lower _, lower_eq_nil.not.2 hne⟩ s.sec ⟨text, priority.toInt⟩

/-- Loading a file keeps the stored keys in lower case. -/
theorem LowerKeys.loadFile (h : LowerKeys c.data) (call : Bytes × Source) :
    LowerKeys (loadFile canonicalPath files call.1 call.2 c).2.data := by
  rcases loadFile_cases canonicalPath files call c with
    ⟨contents, _, _, _, heq⟩ | ⟨_, heq⟩
  · rw [heq]
    have hfold : ∀ (lines : List Bytes) (s : LoadState), LowerKeys s.data →
        LowerKeys (lines.foldl (IniConfig.readLine call.2) s).data := by
      intro lines
      induction lines with
      | nil => exact fun _ hs => hs
      | cons line lines ih => exact fun s hs => ih _ (hs.readLine call.2 line)
    exact hfold _ _ h
  · rwa [heq]

/-- So does loading any number of files. -/
theorem lowerKeys_loadAll (h : LowerKeys c.data) :
    LowerKeys (loadAll canonicalPath files calls c).data := by
  induction calls generalizing c with
  | nil => exact h
  | cons call calls ih => exact ih (h.loadFile call)

/-- The keys of a section of the files that were loaded are in lower case, and not empty. -/
theorem of_mem_getSectionKeys {key : Bytes}
    (hkey : key ∈ (loadAll canonicalPath files calls {}).getSectionKeys sec) :
      lower key = key ∧ key ≠ [] := by
  obtain ⟨⟨k, values⟩, he, rfl⟩ := List.mem_map.1 hkey
  rw [Dict.mem_entries] at he
  cases hget : (loadAll canonicalPath files calls {}).data.get? (lower sec) with
  | none => simp [hget] at he
  | some keys =>
      rw [hget] at he
      exact lowerKeys_loadAll (c := {}) (by rintro _ _ _ _ ⟨⟩) _ keys k values hget he

/-- A key with a text is a key of its section. -/
theorem mem_getSectionKeys {key : Bytes} (h : c.getString sec key [] ≠ []) :
    lower key ∈ c.getSectionKeys sec := by
  have hfind : c.find sec key ≠ none := by
    intro hnone
    simp [getString, hnone] at h
  obtain ⟨values, hvalues⟩ := Option.ne_none_iff_exists'.1 hfind
  obtain ⟨keys, hkeys, hkey⟩ := Option.bind_eq_some_iff.1 hvalues
  rw [getSectionKeys, hkeys]
  exact List.mem_map.2 ⟨_, Dict.mem_entries.2 hkey, rfl⟩

/-! ## Answers -/

/-- The lookups of a configuration that loaded files: the assignments of these files are what it
answers from. A string is the last text of the highest priority that assigns the key, a list all
its texts in order. The case of the names does not matter, and loading a path again changes
nothing. -/
theorem config_layering (canonicalPath : Bytes → Bytes) (files : Bytes → Option Bytes)
    (calls : List (Bytes × Source)) :
    ∃ assigned, (∀ other, Assigns files (loaded canonicalPath files [] calls) other ↔
    other = assigned) ∧ (∀ sec key default, (assigned.filter (Assignment.under sec key) = [] ∧
          (loadAll canonicalPath files calls {}).getString sec key default = default) ∨
        ∃ a, IsTop (fun a => a.priority.toInt) (assigned.filter (Assignment.under sec key)) a ∧
          (loadAll canonicalPath files calls {}).getString sec key default = a.text) ∧
      (∀ sec key, (loadAll canonicalPath files calls {}).getList sec key =
        (assigned.filter (Assignment.under sec key)).map Assignment.text) ∧
      (∀ sec sec' key key' default, lower sec = lower sec' → lower key = lower key' →
        (loadAll canonicalPath files calls {}).getString sec key default =
          (loadAll canonicalPath files calls {}).getString sec' key' default ∧
        (loadAll canonicalPath files calls {}).getList sec key =
          (loadAll canonicalPath files calls {}).getList sec' key') ∧
      ∀ path priority more, path ∈ calls.map Prod.fst →
        loadAll canonicalPath files (calls ++ (path, priority) :: more) {} =
          loadAll canonicalPath files (calls ++ more) {} := by
  obtain ⟨assigned, hassigned⟩ := exists_assigns canonicalPath files [] calls
  have hvalues : ∀ sec key, values (loadAll canonicalPath files calls {}).data (lower sec)
    (lower key) =
      (assigned.filter (Assignment.under sec key)).map Assignment.value := fun sec key =>
    values_loadAll {} hassigned (lower sec) (lower key)
  refine ⟨assigned, fun other => ⟨fun h => h.unique hassigned, fun h => h ▸ hassigned⟩, ?_, ?_, ?_,
    ?_⟩
  · intro sec key default
    rw [getString_eq, hvalues, pick_map]
    cases hpick : pick (fun a => Value.priority (Assignment.value a))
      (assigned.filter (Assignment.under sec key)) with
    | none => exact .inl ⟨pick_eq_none_iff.1 hpick, rfl⟩
    | some a => exact .inr ⟨a, pick_eq_some_iff.1 hpick, rfl⟩
  · intro sec key
    rw [getList, find_getD, hvalues, List.map_map]
    rfl
  · intro sec sec' key key' default hsec hkey
    rw [getString_eq, getString_eq, getList, getList, find_getD, find_getD, hsec, hkey]
    exact ⟨rfl, rfl⟩
  · intro path priority more hpath
    have hsettled : Settled canonicalPath files path (loadAll canonicalPath files calls {}) :=
      settled_loadAll {} (.inl hpath)
    have hagain := hsettled.loadFile priority
    unfold loadAll at hagain ⊢
    rw [List.foldl_append, List.foldl_append, List.foldl_cons, hagain]

end

end IniConfig

end EOSEmu
