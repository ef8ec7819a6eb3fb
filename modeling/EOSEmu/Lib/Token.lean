import Mathlib.Data.Nat.Notation
import Mathlib.Logic.Basic

/-!
# A token that is at one place at most

`f k` counts how often the place `k` holds the token. `Sole f` says that one place may hold it
once, and no other place holds it. A step that takes the token away, moves it or makes the first
one keeps that.
-/

namespace Lib

section
variable {κ : Type*} {f g : κ → ℕ} {p q : κ}

/-- The token is at one place at most, and there once. -/
def Sole (f : κ → ℕ) : Prop := ∃ q, f q ≤ 1 ∧ ∀ k, k ≠ q → f k = 0

/-- Two places that hold the token are one. -/
theorem Sole.unique (h : Sole f) (hp : f p ≠ 0) (hq : f q ≠ 0) : p = q := by
  obtain ⟨k, _, hrest⟩ := h
  have hpk : p = k := Classical.byContradiction fun hne => hp (hrest p hne)
  have hqk : q = k := Classical.byContradiction fun hne => hq (hrest q hne)
  exact hpk.trans hqk.symm

/-- What a step does with the token: it is dropped or stays, it moves, or a new one is minted. -/
inductive Passes (mint : Prop) (f g : κ → ℕ) : Prop
  | drop : (∀ k, g k ≤ f k) → Passes mint f g
  | move {p q : κ} : p ≠ q → g p < f p → g q ≤ f q + 1 → (∀ k, k ≠ q → g k ≤ f k) → Passes mint f g
  | mint {q : κ} : mint → g q ≤ f q + 1 → (∀ k, k ≠ q → g k ≤ f k) → Passes mint f g

variable {mint : Prop}

/-- A step that mints a token only where there is none keeps it at one place at most. -/
theorem Sole.passes (h : Sole f) (hstep : Passes mint f g) (hnone : mint → ∀ k, f k = 0) :
    Sole g := by
  obtain ⟨j, hj, hzero⟩ := h
  cases hstep with
  | drop hle =>
      refine ⟨j, Nat.le_trans (hle j) hj, fun k hk => ?_⟩
      have := hle k
      have := hzero k hk
      omega
  | @move p q hpq hp hq hrest =>
      -- the token is at `p`
      have hpj : p = j := Classical.byContradiction fun hne => by
        have := hzero p hne
        omega
      subst hpj
      refine ⟨q, ?_, fun k hk => ?_⟩
      · have := hzero q hpq.symm
        omega
      · have hle := hrest k hk
        rcases eq_or_ne k p with rfl | hne
        · omega
        · have := hzero k hne
          omega
  | @mint q hmint hq hrest =>
      have hvacant := hnone hmint
      refine ⟨q, ?_, fun k hk => ?_⟩
      · have := hvacant q
        omega
      · have := hvacant k
        have := hrest k hk
        omega

/-- A step that mints no token makes none. -/
theorem Passes.vacant (hstep : Passes mint f g) (hno : ¬ mint) (hnone : ∀ k, f k = 0) (k : κ) :
    g k = 0 := by
  cases hstep with
  | drop hle =>
      have := hle k
      have := hnone k
      omega
  | @move p q hpq hp hq hrest =>
      have := hnone p
      omega
  | mint hmint _ _ => exact absurd hmint hno

end

end Lib
