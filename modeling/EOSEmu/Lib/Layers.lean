import Mathlib.Order.Lattice

/-!
# Layered settings

A setting may be assigned several times, from sources of different priorities. `pick` is the scan
that keeps an assignment as long as no later one has at least its priority; `pick_eq_some_iff` says
which one it ends with: the last of the highest priority.
-/

namespace Lib

section
variable {ν ι : Type*} [LinearOrder ι] {priority : ν → ι} {l l' : List ν} {a b v : ν}

/-- One step of the scan. -/
def overrule (priority : ν → ι) (best v : ν) : ν := if priority best ≤ priority v then v else best

/-- The assignment the scan ends with. -/
def pick (priority : ν → ι) : List ν → Option ν
  | [] => none
  | v :: l => some (l.foldl (overrule priority) v)

/-- The last assignment of the highest priority. -/
def IsTop (priority : ν → ι) (l : List ν) (a : ν) : Prop :=
  ∃ before after, l = before ++ a :: after ∧ (∀ b ∈ before, priority b ≤ priority a) ∧
    ∀ b ∈ after, priority b < priority a

/-- The top after one more assignment. -/
theorem IsTop.snoc (h : IsTop priority l a) (v : ν) :
    IsTop priority (l ++ [v]) (overrule priority a v) := by
  obtain ⟨before, after, rfl, hbefore, hafter⟩ := h
  unfold overrule
  split
  · next hle =>
      refine ⟨before ++ a :: after, [], by simp, fun b hb => ?_, nofun⟩
      rcases List.mem_append.1 hb with hb | hb
      · exact le_trans (hbefore b hb) hle
      · rcases List.mem_cons.1 hb with rfl | hb
        · exact hle
        · exact le_trans (le_of_lt (hafter b hb)) hle
  · next hlt =>
      refine ⟨before, after ++ [v], by simp, hbefore, fun b hb => ?_⟩
      rcases List.mem_append.1 hb with hb | hb
      · exact hafter b hb
      · rw [List.mem_singleton.1 hb]
        exact not_le.1 hlt

/-- The top after more assignments. -/
theorem IsTop.foldl (h : IsTop priority l a) (l' : List ν) :
    IsTop priority (l ++ l') (l'.foldl (overrule priority) a) := by
  induction l' generalizing l a with
  | nil => rwa [List.append_nil]
  | cons v l' ih =>
      rw [← List.singleton_append, ← List.append_assoc]
      exact ih (h.snoc v)

/-- There is one top. -/
theorem IsTop.unique (h : IsTop priority l a) (h' : IsTop priority l b) : a = b := by
  obtain ⟨before, after, rfl, hbefore, hafter⟩ := h
  obtain ⟨before', after', heq, hbefore', hafter'⟩ := h'
  rcases List.append_eq_append_iff.1 heq with ⟨mid, hmid, htail⟩ | ⟨mid, hmid, htail⟩
  · cases mid with
    | nil =>
        cases htail
        rfl
    | cons c mid =>
        cases htail
        have hb : priority b < priority a := hafter b (by simp)
        have ha : priority a ≤ priority b := hbefore' a (by simp [hmid])
        exact absurd hb (not_lt.2 ha)
  · cases mid with
    | nil =>
        cases htail
        rfl
    | cons c mid =>
        cases htail
        have ha : priority a < priority b := hafter' a (by simp)
        have hb : priority b ≤ priority a := hbefore b (by simp [hmid])
        exact absurd ha (not_lt.2 hb)

/-- The scan ends with the last assignment of the highest priority. -/
theorem pick_eq_some_iff : pick priority l = some a ↔ IsTop priority l a := by
  have hpick : ∀ v l, IsTop priority (v :: l) (l.foldl (overrule priority) v) := fun v l =>
    IsTop.foldl ⟨[], [], rfl, nofun, nofun⟩ l
  cases l with
  | nil =>
      refine ⟨nofun, ?_⟩
      rintro ⟨before, after, heq, _⟩
      simp at heq
  | cons v l =>
      rw [pick, Option.some.injEq]
      constructor
      · rintro rfl
        exact hpick v l
      · exact (hpick v l).unique

/-- Only the priorities matter. -/
theorem pick_map {μ : Type*} (f : μ → ν) (l : List μ) :
    pick priority (l.map f) = (pick (fun x => priority (f x)) l).map f := by
  cases l with
  | nil => rfl
  | cons x l =>
      rw [List.map_cons, pick, pick, Option.map_some]
      induction l generalizing x with
      | nil => rfl
      | cons y l ih =>
          rw [List.map_cons, List.foldl_cons, List.foldl_cons, ← ih]
          unfold overrule
          split <;> rfl

/-- The scan of no assignment ends with none. -/
theorem pick_eq_none_iff : pick priority l = none ↔ l = [] := by
  cases l <;> simp [pick]

end

end Lib
