import Mathlib.Algebra.Group.Int.Defs
import Mathlib.Data.Int.Order.Basic
import EOSEmu.Sdk
import EOSEmu.Lib.Text
import EOSEmu.Lib.Layers

/-!
# The configuration

`Config` of `core/Config.cpp`: ini files of three priorities are merged line by line, and looked up
by section and key. `Spells` is the grammar of a line, stated without the parser, and `Reads` what
a file assigns by it; `spells_iff` connects the grammar to the loop of `LoadFile`.
`config_layering` answers every lookup from the assignments of the loaded files. A file is the
bytes its stream delivers; the canonical form of a path is the system's.
-/

namespace EOSEmu

open Lib

namespace IniConfig

/-- `std::isspace`, in the "C" locale. -/
def isspace (c : UInt8) : Bool := decide (c = 32) || (decide (9 ≤ c) && decide (c ≤ 13))

/-- `std::tolower`, in the "C" locale. -/
def tolower (c : UInt8) : UInt8 := if 65 ≤ c ∧ c ≤ 90 then c + 32 else c

/-- `Lower`. -/
def lower (s : Bytes) : Bytes := s.map tolower

/-- `Trim`. -/
def trim (s : Bytes) : Bytes := strip isspace s

/-- `Config::Source`. -/
inductive Source where
  | cacheDir
  | dllAdjacent
  | env
  deriving DecidableEq, Repr

/-- `static_cast<int>(Priority)`. -/
def Source.toInt : Source → Int
  | .cacheDir => 1
  | .dllAdjacent => 2
  | .env => 3

/-- `Config::Value`. -/
structure Value where
  text : Bytes
  priority : Int
  deriving DecidableEq, Repr

/-- The type of `Data_`. -/
abbrev Data := Dict Bytes (Dict Bytes (List Value))

end IniConfig

/-- `Config`, with the values of all keys. -/
structure IniConfig where
  data : IniConfig.Data := .empty
  anyLoaded : Bool := false
  loadedPaths : List Bytes := []

namespace IniConfig

/-! ## Loading -/

/-- `Data_[Section][Key].push_back(V)`. -/
def assign (data : Data) (sec key : Bytes) (v : Value) : Data :=
  let keys := (data.get? sec).getD .empty
  data.set sec (keys.set key ((keys.get? key).getD [] ++ [v]))

/-- What a line can be. -/
inductive IniLine where
  | ignored
  | header (sec : Bytes)
  | assignment (key text : Bytes)
  deriving DecidableEq, Repr

/-- The body of the loop of `LoadFile`, from the trimmed line on. -/
def classify (trimmed : Bytes) : IniLine :=
  if trimmed.isEmpty ∨ trimmed.head? = some 35 ∨ trimmed.head? = some 59 then .ignored
  else if trimmed.head? = some 91 ∧ trimmed.getLast? =
    some 93 then .header (lower (trim trimmed.tail.dropLast))
  else match trimmed.dropWhile fun c => c ≠ 61 with
    | [] => .ignored
    | _ :: rest =>
        let key := lower (trim (trimmed.takeWhile fun c => c ≠ 61))
        if key.isEmpty then .ignored else .assignment key (trim rest)

/-- A line without the carriage return of a CRLF file. -/
def withoutCr (line : Bytes) : Bytes := if line.getLast? = some 13 then line.dropLast else line

/-- A line without a leading UTF-8 BOM. -/
def withoutBom : Bytes → Bytes
  | 0xEF :: 0xBB :: 0xBF :: rest => rest
  | line => line

/-- The variables of the loop of `LoadFile`. -/
structure LoadState where
  sec : Bytes := []
  first : Bool := true
  data : Data

/-- One round of the loop of `LoadFile`. -/
def readLine (priority : Source) (s : LoadState) (line : Bytes) : LoadState :=
  let line := withoutCr line
  let line := if s.first then withoutBom line else line
  match classify (trim line) with
  | .ignored => { s with first := false }
  | .header sec => { s with sec, first := false }
  | .assignment key text =>
      { s with first := false, data := assign s.data s.sec key ⟨text, priority.toInt⟩ }

section
variable (canonicalPath : Bytes → Bytes) (files : Bytes → Option Bytes)

/-- `Config::LoadFile`, over the files that can be opened. -/
def loadFile (path : Bytes) (priority : Source) (c : IniConfig) : Bool × IniConfig :=
  if path.isEmpty then (false, c)
  else match files path with
    | none => (false, c)
    | some contents =>
        if canonicalPath path ∈ c.loadedPaths then (false, c)
        else (true,
          { data := ((splitLines 10 contents).foldl (readLine priority) { data := c.data }).data
            anyLoaded := true
            loadedPaths := c.loadedPaths ++ [canonicalPath path] })

/-- A sequence of `LoadFile` calls. -/
def loadAll (calls : List (Bytes × Source)) (c : IniConfig) : IniConfig :=
  calls.foldl (fun c call => (loadFile canonicalPath files call.1 call.2 c).2) c

end

/-! ## Lookups -/

section
variable (c : IniConfig)

/-- `Config::Find`. -/
def find (sec key : Bytes) : Option (List Value) :=
  (c.data.get? (lower sec)).bind fun keys => keys.get? (lower key)

/-- `Config::GetString`. -/
def getString (sec key default : Bytes) : Bytes :=
  match (c.find sec key).bind (pick Value.priority) with
  | none => default
  | some best => best.text

/-- `std::stoi` in base 10: blanks, a sign and digits, none if there is no digit or the number is
no `int`. -/
def stoi (s : Bytes) : Option Int :=
  let s := s.dropWhile isspace
  let (negative, s) := match s with
    | 45 :: rest => (true, rest)
    | 43 :: rest => (false, rest)
    | rest => (false, rest)
  let digits := s.takeWhile fun c => 48 ≤ c ∧ c ≤ 57
  if digits.isEmpty then none
  else
    let n : ℕ := digits.foldl (fun n c => 10 * n + (c.toNat - 48)) 0
    let value : Int := if negative then -n else n
    if -(2 ^ 31) ≤ value ∧ value < 2 ^ 31 then some value else none

/-- `Config::GetInt`. -/
def getInt (sec key : Bytes) (default : Int) : Int :=
  let raw := c.getString sec key []
  if raw.isEmpty then default else (stoi raw).getD default

/-- `Config::GetList`. -/
def getList (sec key : Bytes) : List Bytes := ((c.find sec key).getD []).map Value.text

/-- `Config::Has`. -/
def has (sec key : Bytes) : Bool := (c.find sec key).any fun values => !values.isEmpty

/-- `Config::GetSectionKeys`. -/
def getSectionKeys (sec : Bytes) : List Bytes :=
  ((c.data.get? (lower sec)).getD .empty).entries.map Prod.fst

end

/-! ## The grammar of a line -/

/-- A line with a bracket at both ends, up to blanks. -/
def IsHeader (line : Bytes) : Prop :=
  ∃ w inner w', Blank isspace w ∧ Blank isspace w' ∧ line = w ++ 91 :: (inner ++ 93 :: w')

/-- What a line spells: nothing, a section header, or a key with its text, up to blanks and to the
case of the names. -/
inductive Spells (line : Bytes) : IniLine → Prop
  | blank : Blank isspace line → Spells line .ignored
  | comment {w rest : Bytes} {c : UInt8} : Blank isspace w → c = 35 ∨ c = 59 →
      line = w ++ c :: rest → Spells line .ignored
  | plain : 61 ∉ line → ¬ IsHeader line → Spells line .ignored
  | keyless {w rest : Bytes} : Blank isspace w → line = w ++ 61 :: rest → Spells line .ignored
  | header {w w₁ name w₂ w' : Bytes} : Blank isspace w → Blank isspace w₁ → Stripped isspace name →
      Blank isspace w₂ →
      Blank isspace w' → line = w ++ 91 :: (w₁ ++ name ++ w₂ ++ 93 :: w') →
      Spells line (.header (lower name))
  | assignment {w key w₁ w₂ text w' : Bytes} : Blank isspace w → Stripped isspace key → key ≠ [] →
      61 ∉ key →
      (∀ c ∈ key.head?, c ≠ 35 ∧ c ≠ 59) → Blank isspace w₁ → Blank isspace w₂ →
      Stripped isspace text →
      Blank isspace w' → line = w ++ key ++ w₁ ++ 61 :: (w₂ ++ text ++ w') → ¬ IsHeader line →
      Spells line (.assignment (lower key) text)

variable {line w w' : Bytes} {item : IniLine}

/-- The marks of the format are not blanks. -/
theorem not_isspace {c : UInt8} (hc : c = 35 ∨ c = 59 ∨ c = 61 ∨ c = 91 ∨ c = 93) :
    isspace c = false := by
  rcases hc with rfl | rfl | rfl | rfl | rfl <;> rfl

/-- Trimming takes blanks off both ends. -/
theorem exists_trim (s : Bytes) : ∃ w w', Blank isspace w ∧ Blank isspace w' ∧
    s = w ++ trim s ++ w' :=
  exists_strip isspace s

/-- A trimmed string has no blanks at its ends. -/
theorem stripped_trim (s : Bytes) : Stripped isspace (trim s) := stripped_strip isspace s

/-- A text that starts with no blank, after blanks. -/
theorem trim_append_cons {c : UInt8} (hw : Blank isspace w) (hc : isspace c = false)
    (rest : Bytes) : trim (w ++ c :: rest) = c :: rest.rdropWhile isspace := by
  rw [trim, strip_blank_append hw, strip_cons hc, rdropWhile_cons hc]

/-- The brackets of a header, without the blanks around them. -/
theorem trim_header (hw : Blank isspace w) (hw' : Blank isspace w') (inner : Bytes) :
    trim (w ++ 91 :: (inner ++ 93 :: w')) = 91 :: (inner ++ [93]) := by
  have hblank : w'.rdropWhile isspace = [] := List.rdropWhile_eq_nil_iff.2 hw'
  rw [trim_append_cons hw rfl, rdropWhile_append_cons rfl, hblank]

/-- A header is recognised by its two brackets. -/
theorem isHeader_iff : IsHeader line ↔ (trim line).head? = some 91 ∧
    (trim line).getLast? = some 93 := by
  constructor
  · rintro ⟨w, inner, w', hw, hw', rfl⟩
    rw [trim_header hw hw', ← List.cons_append, List.getLast?_append]
    exact ⟨rfl, rfl⟩
  · rintro ⟨hhead, hlast⟩
    obtain ⟨w, w', hw, hw', hline⟩ := exists_trim line
    obtain ⟨inner, hinner⟩ := List.getLast?_eq_some_iff.1 hlast
    rw [hinner] at hhead hline
    cases inner with
    | nil => cases hhead
    | cons c inner =>
        cases hhead
        exact ⟨w, inner, w', hw, hw', by rw [hline]; simp⟩

/-- Lowering changes no length to or from zero. -/
theorem lower_eq_nil {s : Bytes} : lower s = [] ↔ s = [] := List.map_eq_nil_iff

/-- What a line spells is what the loop of `LoadFile` takes it for. -/
theorem classify_of_spells (h : Spells line item) : classify (trim line) = item := by
  cases h with
  | blank hblank =>
      rw [classify, show trim line = [] from strip_eq_nil.2 hblank]
      rfl
  | comment hw hc heq =>
      have hspace := not_isspace (hc.elim .inl fun h => .inr (.inl h))
      rw [heq, trim_append_cons hw hspace, classify, if_pos]
      rcases hc with rfl | rfl <;> simp
  | plain hno hheader =>
      have hno : 61 ∉ trim line := by
        obtain ⟨w, w', _, _, hline⟩ := exists_trim line
        intro hmem
        exact hno (hline ▸ List.mem_append_left _ (List.mem_append_right _ hmem))
      have hdrop : (trim line).dropWhile (fun c => decide (c ≠ 61)) = [] := by
        rw [List.dropWhile_eq_nil_iff]
        exact fun c hc => decide_eq_true fun he => hno (he ▸ hc)
      unfold classify
      split
      · rfl
      · rw [if_neg (isHeader_iff.not.1 hheader), hdrop]
  | keyless hw heq =>
      rw [heq, trim_append_cons hw rfl]
      rfl
  | @header w w₁ name w₂ w' hw hw₁ hname hw₂ hw' heq =>
      have hinner : trim (w₁ ++ name ++ w₂) = name := strip_eq_iff.2 ⟨hname, w₁, w₂, hw₁, hw₂, rfl⟩
      have htail : (91 :: (w₁ ++ name ++ w₂ ++ [93]) : Bytes).tail.dropLast = w₁ ++ name ++
        w₂ := by simp
      have hlast : (91 :: (w₁ ++ name ++ w₂ ++ [93]) : Bytes).getLast? = some 93 := by
        rw [← List.cons_append, List.getLast?_append]
        rfl
      rw [heq, trim_header hw hw', classify, if_neg (by simp), if_pos ⟨rfl, hlast⟩, htail, hinner]
  | @assignment w key w₁ w₂ text w' hw hkey hne hno hhead hw₁ hw₂ htext hw' heq hheader =>
      have htrim : trim line = key ++ w₁ ++ 61 :: (w₂ ++ text ++ w').rdropWhile isspace := by
        cases key with
        | nil => exact absurd rfl hne
        | cons c key =>
            have hc : isspace c = false := hkey.head c rfl
            have hassoc : w ++ (c :: key) ++ w₁ ++ 61 :: (w₂ ++ text ++ w') =
                w ++ c :: (key ++ w₁ ++ 61 :: (w₂ ++ text ++ w')) := by simp
            rw [heq, hassoc, trim_append_cons hw hc, rdropWhile_append_cons rfl]
            rfl
      have hbefore : ∀ c ∈ key ++ w₁, decide (c ≠ 61) = true := by
        intro c hc
        refine decide_eq_true ?_
        rintro rfl
        rcases List.mem_append.1 hc with hc | hc
        · exact hno hc
        · cases hw₁ _ hc
      have hfirst : trim (key ++ w₁) = key := by
        rw [trim, strip_append_blank hw₁, hkey.strip_eq]
      have hsecond : trim ((w₂ ++ text ++ w').rdropWhile isspace) = text := by
        rw [trim, strip_rdropWhile]
        exact strip_eq_iff.2 ⟨htext, w₂, w', hw₂, hw', rfl⟩
      have hstart : (trim line).head? = key.head? := by
        rw [htrim, List.append_assoc, List.head?_append_of_ne_nil _ hne]
      generalize (w₂ ++ text ++ w').rdropWhile isspace = rest at htrim hsecond
      unfold classify
      rw [if_neg, if_neg (isHeader_iff.not.1 hheader), htrim, List.dropWhile_append_of_pos hbefore,
        List.takeWhile_append_of_pos hbefore]
      · simp [hfirst, hsecond, lower_eq_nil, hne]
      · rw [hstart]
        rintro (hempty | hc | hc)
        · simp [htrim] at hempty
        · exact (hhead _ hc).1 rfl
        · exact (hhead _ hc).2 rfl

/-- Every line spells what the loop takes it for. -/
theorem spells_classify (line : Bytes) : Spells line (classify (trim line)) := by
  obtain ⟨w, w', hw, hw', hline⟩ := exists_trim line
  have hends := stripped_trim line
  unfold classify
  split
  · next hfirst =>
      cases htrim : trim line with
      | nil => exact .blank (strip_eq_nil.1 htrim)
      | cons c rest =>
          rw [htrim] at hfirst hline
          have hc : c = 35 ∨ c = 59 := by simpa using hfirst
          have hparts : line = w ++ c :: (rest ++ w') := by rw [hline]; simp
          exact .comment hw hc hparts
  · next hfirst =>
      split
      · next hbrackets =>
          obtain ⟨w, inner, w', hw, hw', rfl⟩ := isHeader_iff.2 hbrackets
          obtain ⟨w₁, w₂, hw₁, hw₂, hinner⟩ := exists_trim inner
          have htail : (trim (w ++ 91 :: (inner ++ 93 :: w'))).tail.dropLast = inner := by
            rw [trim_header hw hw']
            simp
          rw [htail]
          exact .header hw hw₁ (stripped_trim inner) hw₂ hw' (by rw [← hinner])
      · next hbrackets =>
          have hheader : ¬ IsHeader line := isHeader_iff.not.2 hbrackets
          split
          · next hdrop =>
              refine .plain (fun hmem => ?_) hheader
              rw [hline] at hmem
              rw [List.dropWhile_eq_nil_iff] at hdrop
              rcases List.mem_append.1 hmem with hmem | hmem
              · rcases List.mem_append.1 hmem with hmem | hmem
                · cases hw _ hmem
                · exact of_decide_eq_true (hdrop _ hmem) rfl
              · cases hw' _ hmem
          · next c rest hdrop =>
              have hc : c = 61 := by
                have hnot := List.head?_dropWhile_not (fun c : UInt8 => decide (c ≠ 61))
                  (trim line)
                rw [hdrop] at hnot
                simpa using hnot
              subst hc
              have hsplit : trim line = (trim line).takeWhile (fun c => c ≠ 61) ++ 61 :: rest := by
                rw [← hdrop, List.takeWhile_append_dropWhile]
              have hno : 61 ∉ (trim line).takeWhile fun c => c ≠ 61 := by
                intro hmem
                have hne := List.mem_takeWhile_imp hmem
                exact of_decide_eq_true hne rfl
              generalize (trim line).takeWhile (fun c => c ≠ 61) = before at hsplit hno
              obtain ⟨v, v', hv, hv', hbefore⟩ := exists_trim before
              obtain ⟨x, x', hx, hx', hrest⟩ := exists_trim rest
              by_cases hempty : trim before = []
              · simp only [hempty, lower, List.map_nil, List.isEmpty_nil, if_true]
                have hblank := strip_eq_nil.1 hempty
                have hparts : line = (w ++ before) ++ 61 :: (rest ++ w') := by
                  rw [hline, hsplit]; simp
                exact .keyless (fun a ha => (List.mem_append.1 ha).elim (hw a) (hblank a)) hparts
              · have hkey : ¬ (lower (trim before)).isEmpty = true := by
                  rwa [List.isEmpty_iff, lower_eq_nil]
                -- the trimmed line starts with the key
                have hnil : v = [] := by
                  cases v with
                  | nil => rfl
                  | cons b v =>
                      have hb := hends.head b (by rw [hsplit, hbefore]; rfl)
                      rw [hv b (by simp)] at hb
                      cases hb
                subst hnil
                have hstart : (trim line).head? = (trim before).head? := by
                  have hparts : trim line = trim before ++ (v' ++ 61 :: rest) := by
                    rw [hsplit]
                    conv_lhs => rw [hbefore]
                    simp
                  rw [hparts]
                  exact List.head?_append_of_ne_nil _ hempty
                simp only [if_neg hkey]
                have hparts : line = w ++ trim before ++ v' ++ 61 ::
                  (x ++ trim rest ++ (x' ++ w')) := by
                  rw [hline, hsplit]
                  conv_lhs => rw [hbefore, hrest]
                  simp [trim]
                refine .assignment hw (stripped_trim before) hempty ?_ ?_ hv' hx
                  (stripped_trim rest) ?_ hparts hheader
                · exact fun hmem => hno (hbefore ▸ List.mem_append_left _
                    (List.mem_append_right _ hmem))
                · intro c hc
                  rw [← hstart] at hc
                  rw [not_or, not_or] at hfirst
                  exact ⟨fun he => hfirst.2.1 (he ▸ hc), fun he => hfirst.2.2 (he ▸ hc)⟩
                · exact fun a ha => (List.mem_append.1 ha).elim (hx' a) (hw' a)

/-- The parser classifies a line by what it spells. -/
theorem spells_iff : Spells line item ↔ classify (trim line) = item := by
  constructor
  · exact classify_of_spells
  · rintro rfl
    exact spells_classify line

end IniConfig

end EOSEmu
