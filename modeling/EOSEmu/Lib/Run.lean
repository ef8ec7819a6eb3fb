import Mathlib.Logic.Relation

/-!
# Runs of a labelled transition system

A system is a partial step function `step : σ → α → Option σ`. `Run step ok s t` says that some
sequence of actions leads from `s` to `t`, where every action `a` taken in a state `u` satisfies
the side condition `ok u a`. Safety is proved by `Run.invariant`: a property that every permitted
step keeps holds along the run. `exec` runs a concrete list of actions.
-/

namespace Lib

section
variable {σ α : Type*} {step : σ → α → Option σ} {ok ok' : σ → α → Prop} {s t u : σ}

/-- `t` is reachable from `s` by steps whose actions satisfy `ok` in the state they are taken
in. -/
inductive Run (step : σ → α → Option σ) (ok : σ → α → Prop) (s : σ) : σ → Prop
  | refl : Run step ok s s
  | tail {t u : σ} (a : α) : Run step ok s t → ok t a → step t a = some u → Run step ok s u

/-- The side condition that permits every action. -/
def Always (_ : σ) (_ : α) : Prop := True

/-- Runs compose. -/
theorem Run.trans (h₁ : Run step ok s t) (h₂ : Run step ok t u) : Run step ok s u := by
  induction h₂ with
  | refl => exact h₁
  | tail a _ hok hst ih => exact .tail a ih hok hst

/-- A weaker side condition permits more runs. -/
theorem Run.mono (himp : ∀ s a, ok s a → ok' s a) (h : Run step ok s t) : Run step ok' s t := by
  induction h with
  | refl => exact .refl
  | tail a _ hok hst ih => exact .tail a ih (himp _ _ hok) hst

/-- An inductive invariant holds at the end of the run. -/
theorem Run.invariant {P : σ → Prop} (h : Run step ok s t) (hs : P s)
    (hstep : ∀ u v a, P u → ok u a → step u a = some v → P v) : P t := by
  induction h with
  | refl => exact hs
  | tail a _ hok hst ih => exact hstep _ _ a ih hok hst

/-- An inductive invariant whose step may use that the state is on the run. -/
theorem Run.invariant' {P : σ → Prop} (h : Run step ok s t) (hs : P s)
    (hstep : ∀ u v a, Run step ok s u → P u → ok u a → step u a = some v → P v) : P t := by
  induction h with
  | refl => exact hs
  | tail a hr hok hst ih => exact hstep _ _ a hr ih hok hst

/-- A reflexive and transitive relation that every permitted step satisfies relates the ends of
the run. -/
theorem Run.relates {R : σ → σ → Prop} (hrefl : ∀ s, R s s)
    (htrans : ∀ s t u, R s t → R t u → R s u)
    (hstep : ∀ u v a, ok u a → step u a = some v → R u v) (h : Run step ok s t) : R s t := by
  induction h with
  | refl => exact hrefl _
  | tail a _ hok hst ih => exact htrans _ _ _ ih (hstep _ _ a hok hst)

/-- Performs a list of actions, stopping with `none` at the first one that is not enabled. -/
def exec (step : σ → α → Option σ) : σ → List α → Option σ
  | s, [] => some s
  | s, a :: as => (step s a).bind fun t => exec step t as

/-- One list of actions after the other. -/
theorem exec_append (step : σ → α → Option σ) (s : σ) (as bs : List α) :
    exec step s (as ++ bs) = (exec step s as).bind fun t => exec step t bs := by
  induction as generalizing s with
  | nil => rfl
  | cons a as ih => simp only [List.cons_append, exec, Option.bind_assoc, ih]

/-- Performs a list of actions, testing each before it is taken. -/
def execIf (step : σ → α → Option σ) (test : σ → α → Bool) : σ → List α → Option σ
  | s, [] => some s
  | s, a :: as => if test s a then (step s a).bind fun t => execIf step test t as else none

/-- A successful tested execution is a run under every side condition that the test implies. -/
theorem Run.of_execIf {test : σ → α → Bool} (htest : ∀ s a, test s a = true → ok s a)
    {as : List α} (h : execIf step test s as = some t) : Run step ok s t := by
  induction as generalizing s with
  | nil => cases h; exact .refl
  | cons a as ih =>
      unfold execIf at h
      split at h
      · next ha =>
          obtain ⟨u, hu, ht⟩ := Option.bind_eq_some_iff.1 h
          exact Run.trans (.tail a .refl (htest s a ha) hu) (ih ht)
      · cases h

/-- A successful execution is a run. -/
theorem Run.of_exec {as : List α} (h : exec step s as = some t) : Run step Always s t := by
  induction as generalizing s with
  | nil => cases h; exact .refl
  | cons a as ih =>
      obtain ⟨u, hu, ht⟩ := Option.bind_eq_some_iff.1 h
      exact Run.trans (.tail a .refl trivial hu) (ih ht)

end

end Lib
