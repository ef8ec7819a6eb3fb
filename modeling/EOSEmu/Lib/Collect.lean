import Mathlib.Data.List.Basic

/-!
# Collecting at most so many

A loop walks a list and pushes every element that passes a test, until it has `limit` of them. It
may leave the list there (`collectUntil`), or walk on and push no more (each step is `consider`),
which lets it go through several lists in turn. Either way it returns the first `limit` of the
elements that pass (`collectUntil_eq`, `foldl_consider`), and these answer a search of the list
(`Found`).
-/

namespace Lib

variable {α β : Type*}

/-! ## The loops -/

/-- The loop that leaves the list when it has enough. -/
def collectUntil (p : α → Bool) (limit : ℕ) : List α → List α → List α
  | [], results => results
  | a :: l, results =>
      if limit ≤ results.length then results
      else collectUntil p limit l (if p a then results ++ [a] else results)

/-- A step of the loop that walks on. -/
def consider (p : α → Bool) (limit : ℕ) (results : List α) (a : α) : List α :=
  if limit ≤ results.length then results else if p a then results ++ [a] else results

/-- A full loop pushes nothing. -/
theorem foldl_consider_full {p : α → Bool} {limit : ℕ} {results : List α}
    (hfull : limit ≤ results.length) (l : List α) :
    l.foldl (consider p limit) results = results := by
  induction l with
  | nil => rfl
  | cons a l ih => rw [List.foldl_cons, consider, if_pos hfull, ih]

/-- It makes no difference whether the loop leaves. -/
theorem collectUntil_eq_foldl (p : α → Bool) (limit : ℕ) (l results : List α) :
    collectUntil p limit l results = l.foldl (consider p limit) results := by
  induction l generalizing results with
  | nil => rfl
  | cons a l ih =>
      rw [collectUntil, List.foldl_cons]
      by_cases hfull : limit ≤ results.length
      · rw [if_pos hfull, consider, if_pos hfull, foldl_consider_full hfull]
      · rw [if_neg hfull, ih, consider, if_neg hfull]

/-- The loop pushes the first elements that pass, as many as there is room for. -/
theorem foldl_consider (p : α → Bool) (limit : ℕ) (l results : List α) :
    l.foldl (consider p limit) results = results ++
      (l.filter p).take (limit - results.length) := by
  induction l generalizing results with
  | nil => simp
  | cons a l ih =>
      rw [List.foldl_cons, ih, consider]
      by_cases hfull : limit ≤ results.length
      · rw [if_pos hfull, Nat.sub_eq_zero_of_le hfull, List.take_zero, List.take_zero]
      · rw [if_neg hfull, List.filter_cons]
        by_cases hp : p a = true
        · obtain ⟨room, hroom⟩ : ∃ room, limit - results.length = room + 1 :=
            Nat.exists_eq_succ_of_ne_zero (by omega)
          have hrest : limit - (results ++ [a]).length = room := by
            rw [List.length_append, List.length_singleton]
            omega
          rw [if_pos hp, if_pos hp, hrest, hroom, List.take_succ_cons, List.append_assoc,
            List.singleton_append]
        · rw [if_neg hp, if_neg hp]

/-- The loop collects the first that pass, up to the limit. -/
theorem collectUntil_eq (p : α → Bool) (limit : ℕ) (l : List α) :
    collectUntil p limit l [] = (l.filter p).take limit := by
  rw [collectUntil_eq_foldl, foldl_consider, List.nil_append, List.length_nil, Nat.sub_zero]

/-! ## What is found -/

/-- `results` answers a search of `l` for at most `limit` elements with `P`: they have `P`, they
are no more than that, each element of `l` is among them at most once, and all that have `P` are
when there are no more than `limit`. -/
structure Found (P : α → Prop) (limit : ℕ) (l results : List α) : Prop where
  sound : ∀ a ∈ results, P a
  bounded : results.length ≤ limit
  once : results.Sublist l
  complete : ∀ [DecidablePred P], (l.filter (P ·)).length ≤ limit → results = l.filter (P ·)

/-- The first elements that pass answer the search. -/
theorem found_take {p : α → Bool} {P : α → Prop} (hp : ∀ a, p a = true ↔ P a) (limit : ℕ)
    (l : List α) : Found P limit l ((l.filter p).take limit) where
  sound a ha := (hp a).1 (List.of_mem_filter (List.mem_of_mem_take ha))
  bounded := List.length_take_le limit _
  once := (List.take_sublist limit _).trans List.filter_sublist
  complete := by
    intro _ hfew
    have hsame : l.filter p = l.filter (P ·) := List.filter_congr fun a _ => by
      rw [Bool.eq_iff_iff, decide_eq_true_iff, hp]
    rw [hsame, List.take_of_length_le hfew]

/-- The search looks at no more than `f` shows of an element, so lists that show the same are
answered by elements that show the same. -/
theorem map_take_filter_congr {f : α → β} {p q : α → Bool} (hpq : ∀ a b, f a = f b → p a = q b)
    {l l' : List α} (h : l.map f = l'.map f) (limit : ℕ) :
      ((l.filter p).take limit).map f = ((l'.filter q).take limit).map f := by
  rw [List.map_take, List.map_take]
  congr 1
  induction l generalizing l' with
  | nil =>
      rw [List.map_eq_nil_iff.1 h.symm]
      rfl
  | cons a l ih =>
      obtain ⟨b, l', rfl, hab, hrest⟩ := List.map_eq_cons_iff.1 h.symm
      rw [List.filter_cons, List.filter_cons, ← hpq a b hab.symm]
      split
      · rw [List.map_cons, List.map_cons, hab, ih hrest.symm]
      · exact ih hrest.symm

end Lib
