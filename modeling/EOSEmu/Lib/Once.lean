import Mathlib.Data.Finset.Insert
import Mathlib.Data.List.Nodup

/-!
# Taking each key once

A program that meets the same things again and again, and keeps a set of the keys it has dealt
with, takes out of every batch the things whose key is new. What it has taken over all batches has
each key once (`TakenOnce`), and nothing it met is left out (`mem_takeNew`).
-/

namespace Lib

variable {α κ : Type*} [DecidableEq κ]

/-- The things of a batch whose key is new, and the keys dealt with then. -/
def takeNew (key : α → κ) : Finset κ → List α → List α × Finset κ
  | handled, [] => ([], handled)
  | handled, a :: as =>
      if key a ∈ handled then takeNew key handled as
      else
        let r := takeNew key (insert (key a) handled) as
        (a :: r.1, r.2)

/-- What was taken has each key once, and the keys dealt with are its keys. -/
structure TakenOnce (key : α → κ) (taken : List α) (handled : Finset κ) : Prop where
  nodup : (taken.map key).Nodup
  mem : ∀ k, k ∈ handled ↔ k ∈ taken.map key

variable {key : α → κ} {handled : Finset κ} {taken as : List α}

/-- A key that is handled is passed over. -/
theorem takeNew_of_mem {a : α} (h : key a ∈ handled) :
    takeNew key handled (a :: as) = takeNew key handled as :=
  if_pos h

/-- A new key is taken, and handled from then on. -/
theorem takeNew_of_notMem {a : α} (h : key a ∉ handled) : takeNew key handled (a :: as) =
    (a :: (takeNew key (insert (key a) handled) as).1,
      (takeNew key (insert (key a) handled) as).2) := if_neg h

omit [DecidableEq κ] in
/-- Nothing was taken. -/
theorem TakenOnce.nil : TakenOnce key ([] : List α) ∅ := ⟨List.nodup_nil, by simp⟩

/-- One more thing with a new key. -/
theorem TakenOnce.snoc (h : TakenOnce key taken handled) {a : α} (ha : key a ∉ handled) :
    TakenOnce key (taken ++ [a]) (insert (key a) handled) where
  nodup := by
    rw [List.map_append, List.map_singleton, List.nodup_append]
    refine ⟨h.nodup, List.nodup_singleton _, fun k hk j hj => ?_⟩
    rw [List.mem_singleton.1 hj]
    rintro rfl
    exact ha ((h.mem _).2 hk)
  mem k := by
    rw [Finset.mem_insert, h.mem, List.map_append, List.map_singleton, List.mem_append,
      List.mem_singleton]
    exact or_comm

/-- A batch. -/
theorem TakenOnce.takeNew (h : TakenOnce key taken handled) (as : List α) :
    TakenOnce key (taken ++ (takeNew key handled as).1) (takeNew key handled as).2 := by
  induction as generalizing taken handled with
  | nil => simpa [Lib.takeNew] using h
  | cons a as ih =>
      by_cases ha : key a ∈ handled
      · rw [takeNew_of_mem ha]
        exact ih h
      · rw [takeNew_of_notMem ha]
        have hrest := ih (h.snoc ha)
        rwa [List.append_assoc] at hrest

/-- Keys dealt with stay so. -/
theorem subset_takeNew (as : List α) : handled ⊆ (takeNew key handled as).2 := by
  induction as generalizing handled with
  | nil => exact Finset.Subset.refl _
  | cons a as ih =>
      by_cases ha : key a ∈ handled
      · rw [takeNew_of_mem ha]
        exact ih
      · rw [takeNew_of_notMem ha]
        exact (Finset.subset_insert _ _).trans ih

/-- Everything in a batch is dealt with. -/
theorem mem_takeNew {a : α} (ha : a ∈ as) : key a ∈ (takeNew key handled as).2 := by
  induction as generalizing handled with
  | nil => cases ha
  | cons b as ih =>
      by_cases hb : key b ∈ handled
      · rw [takeNew_of_mem hb]
        rcases List.mem_cons.1 ha with rfl | ha
        · exact subset_takeNew as hb
        · exact ih ha
      · rw [takeNew_of_notMem hb]
        rcases List.mem_cons.1 ha with rfl | ha
        · exact subset_takeNew as (Finset.mem_insert_self _ _)
        · exact ih ha

/-- What is taken comes from the batch. -/
theorem mem_of_mem_takeNew {a : α} (ha : a ∈ (takeNew key handled as).1) : a ∈ as := by
  induction as generalizing handled with
  | nil => cases ha
  | cons b as ih =>
      by_cases hb : key b ∈ handled
      · rw [takeNew_of_mem hb] at ha
        exact List.mem_cons_of_mem _ (ih ha)
      · rw [takeNew_of_notMem hb] at ha
        rcases List.mem_cons.1 ha with rfl | ha
        · exact List.mem_cons_self
        · exact List.mem_cons_of_mem _ (ih ha)

end Lib
