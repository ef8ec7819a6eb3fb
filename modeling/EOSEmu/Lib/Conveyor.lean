import Mathlib.Data.List.Perm.Basic
import EOSEmu.Lib.Trace

/-!
# Conveyors

A system takes things in, holds them and gives them out in the order in which they came. Where each
step keeps the order, what came in over a run is what went out followed by what is still held
(`Trace.conveys`). Where what is held can be taken in any order, the same is true up to the order
(`flow_perm_snoc`).
-/

namespace Lib

variable {σ α β : Type*} {step : σ → α → Option σ} {ok : σ → α → Prop} {s t : σ}
  {l : List (Transition σ α)}

/-- What the steps of a run take in, or give out. -/
def flow (f : σ → α → List β) (l : List (Transition σ α)) : List β :=
  l.flatMap fun x => f x.pre x.action

variable {f : σ → α → List β} {x : Transition σ α} {y : β}

@[simp] theorem flow_nil : flow f [] = [] := rfl

/-- The flow of one more step. -/
theorem flow_snoc (l : List (Transition σ α)) (x : Transition σ α) :
    flow f (l ++ [x]) = flow f l ++ f x.pre x.action := by
  simp [flow]

/-- What flowed came out of a step. -/
theorem mem_flow : y ∈ flow f l ↔ ∃ x ∈ l, y ∈ f x.pre x.action := List.mem_flatMap

/-- What came in went out in the same order, or is held. -/
theorem Trace.conveys (h : Trace step ok s l t) (input output : σ → α → List β) (held : σ → List β)
    (hs : held s = [])
    (hstep : ∀ u v a, Run step ok s u → ok u a → step u a = some v →
    held u ++ input u a = output u a ++ held v) :
    flow input l = flow output l ++ held t := by
  induction h with
  | refl => simp [hs]
  | tail a hl hok hst ih => rw [flow_snoc, flow_snoc, ih, List.append_assoc,
    hstep _ _ a hl.run hok hst, List.append_assoc]

/-- One element is taken out of what is held. -/
theorem perm_take {held : List β} {i : ℕ} (h : held[i]? = some y) :
    held.Perm (y :: held.eraseIdx i) := by
  obtain ⟨hi, heq⟩ := List.getElem?_eq_some_iff.1 h
  have hperm := (List.getElem_cons_eraseIdx_perm hi).symm
  rwa [heq] at hperm

/-- A step by which nothing is lost or doubled. -/
theorem flow_perm_snoc {input output : σ → α → List β} {held held' : List β}
    (h : (flow input l).Perm (flow output l ++ held))
    (hstep : (held ++ input x.pre x.action).Perm (output x.pre x.action ++ held')) :
    (flow input (l ++ [x])).Perm (flow output (l ++ [x]) ++ held') := by
  rw [flow_snoc, flow_snoc, List.append_assoc]
  calc flow input l ++ input x.pre x.action
    _ |>.Perm (flow output l ++ held ++ input x.pre x.action) := h.append_right _
    _ |>.Perm (flow output l ++ (held ++ input x.pre x.action)) := by rw [List.append_assoc]
    _ |>.Perm (flow output l ++ (output x.pre x.action ++ held')) := hstep.append_left _

end Lib
