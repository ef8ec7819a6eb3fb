import Mathlib.Data.List.Induction
import EOSEmu.Lib.Run

/-!
# Runs that keep their history

A `Trace` is a `Run` together with the transitions it took, oldest first. A property of a whole
history is an invariant of the list and the state it ends in (`Trace.invariant`). `Since P Q l` is
the temporal "since": `P` happened in `l`, and `Q` has not happened after it.
-/

namespace Lib

/-- One step of a system, with the states around it. -/
structure Transition (σ α : Type*) where
  pre : σ
  action : α
  post : σ

section
variable {σ α : Type*} {step : σ → α → Option σ} {ok ok' : σ → α → Prop} {s t : σ}

/-- A run from `s` and the transitions it took. -/
inductive Trace (step : σ → α → Option σ) (ok : σ → α → Prop) (s : σ) :
    List (Transition σ α) → σ → Prop
  | refl : Trace step ok s [] s
  | tail {l : List (Transition σ α)} {t u : σ} (a : α) : Trace step ok s l t → ok t a →
      step t a = some u → Trace step ok s (l ++ [⟨t, a, u⟩]) u

variable {l : List (Transition σ α)}

/-- Forgetting the history. -/
theorem Trace.run (h : Trace step ok s l t) : Run step ok s t := by
  induction h with
  | refl => exact .refl
  | tail a _ hok hst ih => exact .tail a ih hok hst

/-- A weaker side condition permits more traces. -/
theorem Trace.mono (himp : ∀ s a, ok s a → ok' s a) (h : Trace step ok s l t) :
    Trace step ok' s l t := by
  induction h with
  | refl => exact .refl
  | tail a _ hok hst ih => exact .tail a ih (himp _ _ hok) hst

/-- An invariant of the history and the state it ends in. The step may use that the state is on the
trace. -/
theorem Trace.invariant {P : List (Transition σ α) → σ → Prop} (h : Trace step ok s l t)
    (hs : P [] s)
    (hstep : ∀ l u v a, Trace step ok s l u → P l u → ok u a → step u a = some v →
      P (l ++ [⟨u, a, v⟩]) v) : P l t := by
  induction h with
  | refl => exact hs
  | tail a hl hok hst ih => exact hstep _ _ _ a hl ih hok hst

/-- Every transition of a trace was permitted, after the transitions before it. -/
theorem Trace.forall_mem (h : Trace step ok s l t) {before after : List (Transition σ α)}
    {x : Transition σ α} (heq : l = before ++ x :: after) :
    Trace step ok s before x.pre ∧ ok x.pre x.action ∧ step x.pre x.action = some x.post := by
  induction h generalizing after with
  | refl => simp at heq
  | tail a hl hok hst ih =>
      rcases List.eq_nil_or_concat after with rfl | ⟨after, z, rfl⟩
      · obtain ⟨rfl, hx⟩ := List.append_inj' heq rfl
        cases hx
        exact ⟨hl, hok, hst⟩
      · have hassoc : before ++ x :: after.concat z = (before ++ x :: after) ++ [z] := by simp
        obtain ⟨h, _⟩ := List.append_inj' (heq.trans hassoc) rfl
        exact ih h

/-- What follows a transition of a trace is a trace from the state it leaves. -/
theorem Trace.after (h : Trace step ok s l t) {before after : List (Transition σ α)}
    {x : Transition σ α} (heq : l = before ++ x :: after) : Trace step ok x.post after t := by
  induction h generalizing after with
  | refl => simp at heq
  | tail a hl hok hst ih =>
      rcases List.eq_nil_or_concat after with rfl | ⟨after, z, rfl⟩
      · obtain ⟨rfl, hx⟩ := List.append_inj' heq rfl
        cases hx
        exact .refl
      · have hassoc : before ++ x :: after.concat z = (before ++ x :: after) ++ [z] := by simp
        obtain ⟨hl', hz⟩ := List.append_inj' (heq.trans hassoc) rfl
        cases hz
        rw [List.concat_eq_append]
        exact .tail a (ih hl') hok hst

/-- A transition after which `f` holds, and before which it does not. -/
def Raises (f : σ → Bool) (x : Transition σ α) : Bool := !f x.pre && f x.post

/-- A transition before which `f` holds, and after which it does not. -/
def Lowers (f : σ → Bool) (x : Transition σ α) : Bool := f x.pre && !f x.post

/-- From a state without `f`, a trace raises `f` as often as it lowers it, and once more if it ends
with `f`. -/
theorem Trace.raises_eq {f : σ → Bool} (h : Trace step ok s l t) (hs : f s = false) :
    l.countP (Raises f) = l.countP (Lowers f) + (f t).toNat := by
  induction h with
  | refl => simp [hs]
  | @tail l t u a _ _ _ ih =>
      rw [List.countP_append, List.countP_append, ih]
      cases ht : f t <;> cases hu : f u <;> simp [Raises, Lowers, ht, hu]

/-- The transitions of a concrete list of actions. -/
def transitions (step : σ → α → Option σ) : σ → List α → List (Transition σ α)
  | _, [] => []
  | s, a :: as =>
      match step s a with
      | none => []
      | some t => ⟨s, a, t⟩ :: transitions step t as

/-- The steps of a history are the ones given. -/
theorem action_mem_of_transitions {as : List α} {x : Transition σ α}
    (h : x ∈ transitions step s as) : x.action ∈ as := by
  induction as generalizing s with
  | nil => cases h
  | cons a as ih =>
      unfold transitions at h
      split at h
      · cases h
      · rcases List.mem_cons.1 h with rfl | h
        · exact List.mem_cons_self
        · exact List.mem_cons_of_mem _ (ih h)

/-- Traces compose. -/
theorem Trace.trans {l' : List (Transition σ α)} {u : σ} (h₁ : Trace step ok s l t)
    (h₂ : Trace step ok t l' u) : Trace step ok s (l ++ l') u := by
  induction h₂ with
  | refl => rwa [List.append_nil]
  | tail a _ hok hst ih =>
      rw [← List.append_assoc]
      exact .tail a ih hok hst

/-- A successful tested execution has the trace of its actions, under every side condition that the
test implies. -/
theorem Trace.of_execIf {test : σ → α → Bool} (htest : ∀ s a, test s a = true → ok s a)
    {as : List α} (h : execIf step test s as = some t) :
    Trace step ok s (transitions step s as) t := by
  induction as generalizing s with
  | nil =>
      cases h
      exact .refl
  | cons a as ih =>
      unfold execIf at h
      split at h
      · next ha =>
          obtain ⟨u, hu, ht⟩ := Option.bind_eq_some_iff.1 h
          unfold transitions
          rw [hu]
          exact Trace.trans (.tail a .refl (htest s a ha) hu) (ih ht)
      · cases h

/-- A successful execution has the trace of its actions. -/
theorem Trace.of_exec {as : List α} (h : exec step s as = some t) :
    Trace step Always s (transitions step s as) t := by
  induction as generalizing s with
  | nil =>
      cases h
      exact .refl
  | cons a as ih =>
      obtain ⟨u, hu, ht⟩ := Option.bind_eq_some_iff.1 h
      unfold transitions
      rw [hu]
      exact Trace.trans (.tail a .refl trivial hu) (ih ht)

end

section
variable {τ : Type*} {P P' Q Q' : τ → Prop} {l : List τ} {x : τ}

/-- `P` happened, and `Q` has not happened since. -/
def Since (P Q : τ → Prop) (l : List τ) : Prop :=
  ∃ before x after, l = before ++ x :: after ∧ P x ∧ ∀ y ∈ after, ¬ Q y

/-- It happens now. -/
theorem Since.now (hx : P x) : Since P Q (l ++ [x]) :=
  ⟨l, x, [], rfl, hx, fun _ h => nomatch h⟩

/-- It happened before, and what happens now does not end it. -/
theorem Since.later (h : Since P Q l) (hx : ¬ Q x) : Since P Q (l ++ [x]) := by
  obtain ⟨before, y, after, rfl, hy, hafter⟩ := h
  refine ⟨before, y, after ++ [x], by simp, hy, fun z hz => ?_⟩
  rcases List.mem_append.1 hz with hz | hz
  · exact hafter z hz
  · rw [List.mem_singleton.1 hz]
    exact hx

/-- At the end of a longer history it happened now, or before and nothing ends it now. -/
theorem since_snoc : Since P Q (l ++ [x]) ↔ P x ∨ (Since P Q l ∧ ¬ Q x) := by
  constructor
  · rintro ⟨before, y, after, heq, hy, hafter⟩
    rcases List.eq_nil_or_concat after with rfl | ⟨after, z, rfl⟩
    · obtain ⟨_, h⟩ := List.append_inj' heq rfl
      cases h
      exact .inl hy
    · have hassoc : before ++ y :: (after.concat z) = (before ++ y :: after) ++ [z] := by simp
      obtain ⟨rfl, h⟩ := List.append_inj' (heq.trans hassoc) rfl
      cases h
      refine .inr ⟨⟨before, y, after, rfl, hy, fun w hw => hafter w ?_⟩, hafter x ?_⟩
      · simp [hw]
      · simp
  · rintro (hx | ⟨h, hx⟩)
    · exact .now hx
    · exact h.later hx

/-- Nothing has happened yet. -/
theorem not_since_nil : ¬ Since P Q [] := by
  rintro ⟨before, x, after, heq, _⟩
  simp at heq

/-- "Since", computed from the beginning of the history. -/
theorem since_iff_foldl [DecidablePred P] [DecidablePred Q] :
    Since P Q l ↔ l.foldl (fun b x => decide (P x) || (b && !decide (Q x))) false = true := by
  induction l using List.reverseRec with
  | nil =>
      constructor
      · exact fun h => absurd h not_since_nil
      · exact fun h => nomatch h
  | append_singleton l x ih =>
      rw [since_snoc, ih, List.foldl_append]
      simp

instance [DecidablePred P] [DecidablePred Q] : Decidable (Since P Q l) :=
  decidable_of_iff _ since_iff_foldl.symm

end

end Lib
