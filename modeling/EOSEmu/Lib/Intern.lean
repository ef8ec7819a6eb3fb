import EOSEmu.Lib.Dict
import EOSEmu.Lib.Trace

/-!
# Interning

A table that keeps one handle for each value it has met, and never gives one up. A handle is new
memory that holds the value, so the table and the memory are inverse to each other
(`Interned.Sound`), handles are equal exactly if their values are, and a handle names its value for
ever (`Interned.Extends`).
-/

namespace Lib

variable {ν ι : Type*} [DecidableEq ν] [DecidableEq ι]

/-- The table, and the memory its handles lead to. -/
structure Interned (ν ι : Type*) where
  table : Dict ν ι := .empty
  memory : Dict ι ν := .empty

namespace Interned

/-- The handle of a value: the one it has, or `fresh`. -/
def handle (t : Interned ν ι) (v : ν) (fresh : ι) : ι := (t.table.get? v).getD fresh

/-- The table after the value was met. -/
def intern (t : Interned ν ι) (v : ν) (fresh : ι) : Interned ν ι :=
  match t.table.get? v with
  | some _ => t
  | none => { table := t.table.set v fresh, memory := t.memory.set fresh v }

/-- The table and the memory are inverse to each other. -/
structure Sound (t : Interned ν ι) : Prop where
  inverse : ∀ v i, t.table.get? v = some i ↔ t.memory.get? i = some v

/-- What the memory holds stays. -/
def Extends (t u : Interned ν ι) : Prop := ∀ i v, t.memory.get? i = some v →
    u.memory.get? i = some v

variable {t u w : Interned ν ι} {v : ν} {fresh i : ι}

omit [DecidableEq ν] in
/-- A memory extends itself. -/
theorem Extends.refl : Extends t t := fun _ _ h => h

omit [DecidableEq ν] in
/-- What extends an extension extends the memory. -/
theorem Extends.trans (h : Extends t u) (h' : Extends u w) :
    Extends t w := fun i v hi => h' i v (h i v hi)

/-- Nothing is interned at first. -/
theorem sound_empty : Sound ({} : Interned ν ι) := ⟨fun v i => by simp⟩

/-- Interning a value keeps the table sound, where the new memory was not in use. -/
theorem Sound.intern (h : t.Sound) (hfresh : t.memory.get? fresh = none) (v : ν) :
    (t.intern v fresh).Sound := by
  unfold Interned.intern
  split
  · exact h
  · next hnew =>
      refine ⟨fun x j => ?_⟩
      rw [Dict.get?_set, Dict.get?_set]
      rcases eq_or_ne x v with rfl | hx <;> rcases eq_or_ne j fresh with rfl | hj
      · simp
      · have hout : t.memory.get? j ≠ some x := fun hin => by
          cases hnew.symm.trans ((h.inverse x j).2 hin)
        simp [hj, hj.symm, hout]
      · have hout : t.table.get? x ≠ some j := fun hin => by
          cases hfresh.symm.trans ((h.inverse x j).1 hin)
        simp [hx, hx.symm, hout]
      · simp [hx, hj, h.inverse]

/-- The handle that is given out leads to the value. -/
theorem memory_intern (h : t.Sound) (v : ν) (fresh : ι) :
    (t.intern v fresh).memory.get? (t.handle v fresh) = some v := by
  unfold Interned.intern handle
  split
  · next i hi =>
      rw [hi]
      exact (h.inverse v i).1 hi
  · next hnew =>
      rw [hnew, Dict.get?_set]
      exact if_pos rfl

/-- Interning loses nothing, where the new memory was not in use. -/
theorem extends_intern (hfresh : t.memory.get? fresh = none) (v : ν) :
    Extends t (t.intern v fresh) := by
  intro i x hi
  unfold Interned.intern
  split
  · exact hi
  · rw [Dict.get?_set, if_neg]
    · exact hi
    · rintro rfl
      cases hfresh.symm.trans hi

/-- A value that has a handle keeps it. -/
theorem handle_of_memory (h : t.Sound) (hi : t.memory.get? i = some v) (fresh : ι) :
    t.handle v fresh = i := by
  rw [handle, (h.inverse v i).2 hi]
  rfl

end Interned

end Lib
