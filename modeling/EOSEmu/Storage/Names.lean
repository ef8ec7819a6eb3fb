import EOSEmu.Sdk
import Mathlib.Data.Set.Insert
import Mathlib.Order.Interval.Set.Defs

/-!
# Names of the on-disk mirror

`EncodeName` and `DecodeName` of `interfaces/PlayerDataStorage.cpp`: a user id or a file name
becomes one flat directory entry, and a directory scan turns the entry back into the name.
`foldCase` is the host's comparison of names without regard to letter case. Encoded names consist
of ASCII characters, so ASCII folding is all it needs. Two names share an entry there exactly when
they differ at most in letter case (`fold_encodeName_inj`).
-/

namespace EOSEmu.PlayerDataStorage

/-- `'%'`. -/
def percent : UInt8 := 0x25

/-- `'.'`. -/
def dot : UInt8 := 0x2E

/-- `IsPlainChar`. -/
def isPlainChar (c : UInt8) : Bool :=
  (0x41 ≤ c && c ≤ 0x5A) || (0x61 ≤ c && c ≤ 0x7A) || (0x30 ≤ c && c ≤ 0x39) || c == dot ||
    c == 0x5F || c == 0x2D

/-- The digit `kHex[n]`. -/
def hexDigit (n : UInt8) : UInt8 := (str "0123456789ABCDEF").getD n.toNat 0

/-- One character of `EncodeName`. -/
def encodeChar (c : UInt8) : Bytes :=
  if isPlainChar c && c != percent then [c] else [percent, hexDigit ((c >>> 4) &&& 0xF),
    hexDigit (c &&& 0xF)]

/-- `EncodeName`. -/
def encodeName (name : Bytes) : Bytes := name.flatMap encodeChar

/-- The value of a hexadecimal digit, `Nib` of `DecodeName`, with `none` for its -1. -/
def nib (c : UInt8) : Option UInt8 :=
  if 0x30 ≤ c ∧ c ≤ 0x39 then some (c - 0x30)
  else if 0x41 ≤ c ∧ c ≤ 0x46 then some (c - 0x41 + 10)
  else if 0x61 ≤ c ∧ c ≤ 0x66 then some (c - 0x61 + 10)
  else none

/-- The byte that `%` and two digits stand for. -/
def unescape (c h l : UInt8) : Option UInt8 :=
  if c = percent then
    match nib h, nib l with
    | some a, some b => some ((a <<< 4) ||| b)
    | _, _ => none
  else none

/-- `DecodeName`. -/
def decodeName : Bytes → Bytes
  | [] => []
  | [c] => [c]
  | [c, d] => [c, d]
  | c :: h :: l :: rest =>
      match unescape c h l with
      | some b => b :: decodeName rest
      | none => c :: decodeName (h :: l :: rest)

/-- Lower case of one byte. -/
def foldChar (c : UInt8) : UInt8 := if 0x41 ≤ c ∧ c ≤ 0x5A then c + 0x20 else c

/-- The form in which the host compares names. -/
def foldCase (name : Bytes) : Bytes := name.map foldChar

/-! ## Decoding undoes encoding -/

/-- A character that is not `%` is copied. -/
theorem decodeName_cons {c : UInt8} (hc : c ≠ percent) (rest : Bytes) :
    decodeName (c :: rest) = c :: decodeName rest := by
  match rest with
  | [] => rfl
  | [_] => rfl
  | h :: l :: rest => simp [decodeName, unescape, hc]

/-- A recognised escape is replaced by its byte. -/
theorem decodeName_escape {c h l b : UInt8} (hb : unescape c h l = some b) (rest : Bytes) :
    decodeName (c :: h :: l :: rest) = b :: decodeName rest := by
  simp [decodeName, hb]

/-- The two digits of a byte, in either case, stand for it. -/
theorem unescape_digits (c : UInt8) :
    unescape percent (hexDigit ((c >>> 4) &&& 0xF)) (hexDigit (c &&& 0xF)) = some c ∧
    unescape percent (foldChar (hexDigit ((c >>> 4) &&& 0xF))) (foldChar (hexDigit (c &&& 0xF))) =
      some c := by
  have hall : ∀ i : Fin 256,
      unescape percent (hexDigit ((UInt8.ofFin i >>> 4) &&& 0xF))
        (hexDigit (UInt8.ofFin i &&& 0xF)) = some (UInt8.ofFin i) ∧
      unescape percent (foldChar (hexDigit ((UInt8.ofFin i >>> 4) &&& 0xF)))
          (foldChar (hexDigit (UInt8.ofFin i &&& 0xF))) = some (UInt8.ofFin i) := by decide +kernel
  exact hall c.toFin

/-- What `EncodeName` writes for a character is read back as it, whatever follows. -/
theorem decodeName_encodeChar (c : UInt8) (rest : Bytes) :
    decodeName (encodeChar c ++ rest) = c :: decodeName rest := by
  unfold encodeChar
  split
  · next h =>
      rw [Bool.and_eq_true, bne_iff_ne] at h
      exact decodeName_cons h.2 rest
  · exact decodeName_escape (unescape_digits c).1 rest

/-- `DecodeName` undoes `EncodeName`. -/
theorem decodeName_encodeName (name : Bytes) : decodeName (encodeName name) = name := by
  induction name with
  | nil => rfl
  | cons c name ih => rw [encodeName, List.flatMap_cons, decodeName_encodeChar, ← encodeName, ih]

/-- Different names have different encodings. -/
theorem encodeName_inj {a b : Bytes} : encodeName a = encodeName b ↔ a = b :=
  ⟨fun h => by rw [← decodeName_encodeName a, h, decodeName_encodeName], fun h => h ▸ rfl⟩

/-! ## What an encoding consists of -/

/-- The codes of the characters an encoded name may show as they are: letters, digits, `'.'`, `'_'`
and `'-'`. -/
def plainChars : Set ℕ := Set.Icc 0x41 0x5A ∪ Set.Icc 0x61 0x7A ∪ Set.Icc 0x30 0x39 ∪
    {0x2E, 0x5F, 0x2D}

/-- The digits of an escape. -/
def escapeDigits : Bytes := str "0123456789ABCDEF"

/-- A sequence of plain characters and well-formed escapes. -/
inductive Escaped : Bytes → Prop where
  | nil : Escaped []
  | plain {c : UInt8} {rest : Bytes} : c.toNat ∈ plainChars → Escaped rest → Escaped (c :: rest)
  | escape {h l : UInt8} {rest : Bytes} : h ∈ escapeDigits → l ∈ escapeDigits → Escaped rest →
      Escaped (percent :: h :: l :: rest)

/-- The plain characters of the code are the set. -/
theorem isPlainChar_iff (c : UInt8) : isPlainChar c = true ↔ c.toNat ∈ plainChars := by
  simp only [isPlainChar, plainChars, dot, Bool.or_eq_true, Bool.and_eq_true, decide_eq_true_eq,
    beq_iff_eq,
    UInt8.le_iff_toNat_le, ← UInt8.toNat_inj, UInt8.reduceToNat, Set.mem_union, Set.mem_Icc,
      Set.mem_insert_iff,
    Set.mem_singleton_iff]
  omega

/-- The digits of an escape are upper-case hexadecimal ones. -/
theorem hexDigit_mem (n : UInt8) : hexDigit (n &&& 0xF) ∈ escapeDigits := by
  have hlt : (n &&& 0xF).toNat < escapeDigits.length := by
    rw [UInt8.toNat_and]
    exact Nat.and_lt_two_pow _ (n := 4) (by decide)
  rw [hexDigit, ← escapeDigits, List.getD_eq_getElem?_getD, List.getElem?_eq_getElem hlt,
    Option.getD_some]
  exact List.getElem_mem hlt

/-- What is written for one character, in front of an encoding. -/
theorem Escaped.encodeChar {rest : Bytes} (h : Escaped rest) (c : UInt8) :
    Escaped (PlayerDataStorage.encodeChar c ++ rest) := by
  unfold PlayerDataStorage.encodeChar
  split
  · next hc =>
      rw [Bool.and_eq_true] at hc
      exact .plain ((isPlainChar_iff c).1 hc.1) h
  · exact .escape (hexDigit_mem _) (hexDigit_mem _) h

/-- Every encoded name is well escaped. -/
theorem escaped_encodeName (name : Bytes) : Escaped (encodeName name) := by
  induction name with
  | nil => exact .nil
  | cons c name ih =>
      rw [encodeName, List.flatMap_cons]
      exact ih.encodeChar c

/-- **Filename escaping**: decoding undoes encoding, different names have different encodings, an
encoding consists of plain characters and well-formed escapes, and a name is encoded piece by
piece. -/
theorem filename_escaping (a b : Bytes) :
    decodeName (encodeName a) = a ∧ (encodeName a = encodeName b ↔ a = b) ∧
    Escaped (encodeName a) ∧ encodeName (a ++ b) = encodeName a ++ encodeName b :=
  ⟨decodeName_encodeName a, encodeName_inj, escaped_encodeName a, List.flatMap_append⟩

/-! ## Letter case -/

/-- Lower case is decoded to lower case: the digits of an escape are read in either case. -/
theorem decodeName_fold_encodeChar (c : UInt8) (rest : Bytes) :
    decodeName (foldCase (encodeChar c) ++ rest) = foldChar c :: decodeName rest := by
  unfold encodeChar
  split
  · next h =>
      rw [Bool.and_eq_true, bne_iff_ne] at h
      refine decodeName_cons ?_ rest
      unfold foldChar percent at *
      split
      · grind
      · exact h.2
  · next h =>
      have hfold : foldChar c = c := by
        unfold foldChar isPlainChar percent dot at *
        grind
      rw [hfold]
      exact decodeName_escape (unescape_digits c).2 rest

/-- The folded encoding of a name decodes to the folded name. -/
theorem decodeName_fold_encodeName (name : Bytes) :
    decodeName (foldCase (encodeName name)) = foldCase name := by
  induction name with
  | nil => rfl
  | cons c name ih =>
      have hsplit : foldCase (encodeName (c :: name))
          = foldCase (encodeChar c) ++ foldCase (encodeName name) := by
        simp [foldCase, encodeName]
      rw [hsplit, decodeName_fold_encodeChar, ih, foldCase, foldCase, List.map_cons]

/-- A character and its lower case have the same encoding up to letter case. -/
theorem fold_encodeChar (c : UInt8) :
    foldCase (encodeChar (foldChar c)) = foldCase (encodeChar c) := by
  have hall : ∀ i : Fin 256, foldCase (encodeChar (foldChar (UInt8.ofFin i)))
      = foldCase (encodeChar (UInt8.ofFin i)) := by decide +kernel
  exact hall c.toFin

/-- Two names share a directory entry exactly when they differ at most in letter case. -/
theorem fold_encodeName_inj {a b : Bytes} :
    foldCase (encodeName a) = foldCase (encodeName b) ↔ foldCase a = foldCase b := by
  constructor
  · intro h
    rw [← decodeName_fold_encodeName a, h, decodeName_fold_encodeName]
  · intro h
    have hfold : ∀ name, foldCase (encodeName (foldCase name)) = foldCase (encodeName name) := by
      intro name
      induction name with
      | nil => rfl
      | cons c name ih =>
          simp only [foldCase, encodeName, List.map_cons, List.flatMap_cons,
            List.map_append] at ih ⊢
          rw [ih]
          exact congrArg (· ++ _) (fold_encodeChar c)
    rw [← hfold a, h, hfold]

end EOSEmu.PlayerDataStorage
