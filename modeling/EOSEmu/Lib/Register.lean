import EOSEmu.Lib.Trace

/-!
# Registers

A part of the state that some steps overwrite and the others leave alone. After every run it holds
what was written last (`Trace.register`).
-/

namespace Lib

variable {τ β : Type*}

/-- What was written last, `d` before the first write. -/
def lastWrite (f : τ → Option β) (d : β) (l : List τ) : β := (l.filterMap f).getLast?.getD d

variable {f : τ → Option β} {d : β}

@[simp] theorem lastWrite_nil : lastWrite f d [] = d := rfl

/-- One more entry writes, or leaves what was written. -/
theorem lastWrite_snoc (l : List τ) (x : τ) :
    lastWrite f d (l ++ [x]) = (f x).getD (lastWrite f d l) := by
  unfold lastWrite
  rw [List.filterMap_append]
  cases h : f x with
  | none => simp [h]
  | some b => simp [h]

variable {σ α : Type*} {step : σ → α → Option σ} {ok : σ → α → Prop} {s t : σ}
  {l : List (Transition σ α)}

/-- Where each step writes what `f` says, the register holds what was written last. -/
theorem Trace.register {f : Transition σ α → Option β} (h : Trace step ok s l t) {r : σ → β}
    (hstep : ∀ u v a, step u a = some v → r v = (f ⟨u, a, v⟩).getD (r u)) :
      r t = lastWrite f (r s) l := by
  induction h with
  | refl => rfl
  | tail a _ _ hst ih => rw [lastWrite_snoc, hstep _ _ a hst, ih]

end Lib
