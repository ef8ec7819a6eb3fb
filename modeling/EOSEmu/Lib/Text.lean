import Mathlib.Data.List.DropRight

/-!
# Lines and blanks

`splitLines nl` cuts a text at the separator `nl`, without an empty line after a last separator,
and `strip p` removes the blanks at both ends, where `p` says what is blank. `strip_eq_iff`
characterises the stripped text: it is what remains of the text between two runs of blanks, and has
no blank at its ends.
-/

namespace Lib

section
variable {α : Type*} {p : α → Bool} {l t w : List α}

/-! ## Blanks -/

/-- A text without its leading and trailing blanks. -/
def strip (p : α → Bool) (l : List α) : List α := (l.dropWhile p).rdropWhile p

/-- A text of blanks. -/
def Blank (p : α → Bool) (w : List α) : Prop := ∀ a ∈ w, p a = true

/-- A text with no blank at its ends. -/
structure Stripped (p : α → Bool) (t : List α) : Prop where
  head : ∀ a ∈ t.head?, p a = false
  last : ∀ a ∈ t.getLast?, p a = false

/-- Blanks in front are dropped. -/
theorem dropWhile_blank_append (hw : Blank p w) (l : List α) :
    (w ++ l).dropWhile p = l.dropWhile p := by
  induction w with
  | nil => rfl
  | cons a w ih =>
      rw [List.cons_append, List.dropWhile_cons_of_pos (hw a (by simp))]
      exact ih fun b hb => hw b (by simp [hb])

/-- Blanks at the end are dropped. -/
theorem rdropWhile_append_blank (hw : Blank p w) (l : List α) :
    (l ++ w).rdropWhile p = l.rdropWhile p := by
  have hrev : Blank p w.reverse := fun a ha => hw a (List.mem_reverse.1 ha)
  rw [List.rdropWhile, List.rdropWhile, List.reverse_append, dropWhile_blank_append hrev]

/-- What is dropped in front is blank. -/
theorem blank_takeWhile (p : α → Bool) (l : List α) : Blank p (l.takeWhile p) := fun _ ha =>
  List.mem_takeWhile_imp ha

/-- What is dropped at the end is blank. -/
theorem blank_rtakeWhile (p : α → Bool) (l : List α) : Blank p (l.rtakeWhile p) := fun _ ha =>
  List.mem_rtakeWhile_imp ha

/-- Blanks before a text do not change its stripped form. -/
theorem strip_blank_append (hw : Blank p w) (l : List α) : strip p (w ++ l) = strip p l := by
  rw [strip, dropWhile_blank_append hw, strip]

/-- Stripping a text that starts with no blank only cuts its end. -/
theorem strip_cons {a : α} (ha : p a = false) (l : List α) :
    strip p (a :: l) = (a :: l).rdropWhile p := by
  rw [strip, List.dropWhile_cons_of_neg (by simp [ha])]

/-- Cutting the blanks at the end leaves what stands before an element that is no blank. -/
theorem rdropWhile_append_cons {a : α} (ha : p a = false) (l r : List α) :
    (l ++ a :: r).rdropWhile p = l ++ a :: r.rdropWhile p := by
  induction r using List.reverseRecOn with
  | nil => simp [ha]
  | append_singleton r b ih =>
      have hassoc : l ++ a :: (r ++ [b]) = (l ++ a :: r) ++ [b] := by simp
      rw [hassoc, List.rdropWhile_concat, List.rdropWhile_concat, ih]
      split
      · rfl
      · exact hassoc.symm

/-- Dropping at the end stops at an entry that is not blank. -/
theorem rdropWhile_cons {a : α} (ha : p a = false) (r : List α) :
    (a :: r).rdropWhile p = a :: r.rdropWhile p :=
  rdropWhile_append_cons ha [] r

/-- Blanks after a text do not change its stripped form. -/
theorem strip_append_blank (hw : Blank p w) (l : List α) : strip p (l ++ w) = strip p l := by
  induction l with
  | nil =>
      have h := strip_blank_append hw []
      rwa [List.append_nil] at h
  | cons a l ih =>
      cases ha : p a with
      | true =>
          have hone : Blank p [a] := by simpa [Blank] using ha
          rw [List.cons_append, ← List.singleton_append, strip_blank_append hone, ih,
            ← List.singleton_append, strip_blank_append hone]
      | false => rw [List.cons_append, strip_cons ha, strip_cons ha, ← List.cons_append,
        rdropWhile_append_blank hw]

/-- Stripping a text whose end is cut already. -/
theorem strip_rdropWhile (p : α → Bool) (l : List α) : strip p (l.rdropWhile p) = strip p l := by
  have h := strip_append_blank (blank_rtakeWhile p l) (l.rdropWhile p)
  rwa [List.rdropWhile_append_rtakeWhile, eq_comm] at h

/-- A text with no blank at its ends is its stripped form. -/
theorem Stripped.strip_eq (h : Stripped p t) : strip p t = t := by
  cases t with
  | nil => rfl
  | cons a t =>
      rw [strip_cons (h.head a rfl), List.rdropWhile_eq_self_iff]
      intro hne
      simp [h.last _ (List.getLast?_eq_getLast_of_ne_nil hne)]

/-- A stripped list is stripped. -/
theorem stripped_strip (p : α → Bool) (l : List α) : Stripped p (strip p l) := by
  have hlast : ∀ l : List α, ∀ a ∈ (l.rdropWhile p).getLast?, p a = false := by
    intro l a ha
    obtain ⟨hne, rfl⟩ := List.mem_getLast?_eq_getLast ha
    simpa using List.rdropWhile_last_not p l hne
  refine ⟨fun a ha => ?_, hlast _⟩
  induction l with
  | nil => cases ha
  | cons b l ih =>
      cases hb : p b with
      | true =>
          rw [strip, List.dropWhile_cons_of_pos hb] at ha
          exact ih ha
      | false =>
          rw [strip_cons hb, rdropWhile_cons hb] at ha
          cases ha
          exact hb

/-- The stripped form of a text: what is between two runs of blanks, with no blank at its ends. -/
theorem strip_eq_iff : strip p l = t ↔
    Stripped p t ∧ ∃ w w', Blank p w ∧ Blank p w' ∧ l = w ++ t ++ w' := by
  constructor
  · rintro rfl
    refine ⟨stripped_strip p l, l.takeWhile p, (l.dropWhile p).rtakeWhile p, blank_takeWhile p l,
      blank_rtakeWhile p _, ?_⟩
    rw [List.append_assoc, strip, List.rdropWhile_append_rtakeWhile,
      List.takeWhile_append_dropWhile]
  · rintro ⟨ht, w, w', hw, hw', rfl⟩
    rw [strip_append_blank hw', strip_blank_append hw, ht.strip_eq]

/-- Every text is its stripped form between blanks. -/
theorem exists_strip (p : α → Bool) (l : List α) :
    ∃ w w', Blank p w ∧ Blank p w' ∧ l = w ++ strip p l ++ w' := (strip_eq_iff.1 rfl).2

/-- A text is stripped to nothing exactly if it is blank. -/
theorem strip_eq_nil : strip p l = [] ↔ Blank p l := by
  constructor
  · intro h
    obtain ⟨w, w', hw, hw', heq⟩ := exists_strip p l
    rw [h, List.append_nil] at heq
    rw [heq]
    intro a ha
    exact (List.mem_append.1 ha).elim (hw a) (hw' a)
  · intro h
    have hstrip := strip_append_blank h []
    rwa [List.nil_append] at hstrip

/-! ## Lines -/

/-- Cuts the rest of a text, after the line read so far. -/
def splitLinesFrom [DecidableEq α] (nl : α) : List α → List α → List (List α)
  | line, [] => if line.isEmpty then [] else [line]
  | line, a :: l => if a = nl then line :: splitLinesFrom nl [] l else splitLinesFrom nl
    (line ++ [a]) l

/-- The lines of a text, without their separators. -/
def splitLines [DecidableEq α] (nl : α) (l : List α) : List (List α) := splitLinesFrom nl [] l

end

end Lib
