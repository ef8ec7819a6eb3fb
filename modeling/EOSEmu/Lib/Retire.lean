import EOSEmu.Lib.Dict
import Mathlib.Data.List.DropRight

/-!
# Memory that is freed late

A program that has to put up with readers of released memory keeps what was released last in a
queue, and frees the oldest entries when the queue grows too long. `trim` is the loop that does
this, and `freeAll` gives its entries back; it faults on memory that is not allocated, so that a
program which gets through has freed nothing twice. The queue holds the last releases of the whole
history (`rtake_snoc`).
-/

namespace Lib

section
variable {α : Type*} {n : ℕ}

/-- Drops the oldest entries until at most `n` are left: what was dropped, and what is left. -/
def trim (n : ℕ) : List α → List α × List α
  | [] => ([], [])
  | x :: xs => if n < (x :: xs).length then (x :: (trim n xs).1, (trim n xs).2) else ([], x :: xs)

/-- Trimming splits the list. -/
theorem trim_eq (n : ℕ) (l : List α) : trim n l = (l.rdrop n, l.rtake n) := by
  induction l with
  | nil => simp [trim, List.rdrop, List.rtake]
  | cons x xs ih =>
      unfold trim List.rdrop List.rtake
      rcases lt_or_ge n (x :: xs).length with hlong | hshort
      · have hlen : (x :: xs).length - n = (xs.length - n) + 1 := by
          rw [List.length_cons] at hlong ⊢
          omega
        rw [if_pos hlong, ih, hlen]
        rfl
      · rw [if_neg (by omega), Nat.sub_eq_zero_of_le hshort]
        rfl

/-- Keeping the newest twice is keeping them once. -/
theorem rtake_rtake (l : List α) : (l.rtake n).rtake n = l.rtake n := by
  rw [List.rtake_eq_reverse_take_reverse, List.rtake_eq_reverse_take_reverse, List.reverse_reverse,
    List.take_take, Nat.min_self]

/-- What is left after one more entry are the last entries of the whole history. -/
theorem rtake_snoc (l : List α) (x : α) : (l.rtake n ++ [x]).rtake n = (l ++ [x]).rtake n := by
  cases n with
  | zero => simp
  | succ n =>
      rw [List.rtake_concat_succ, List.rtake_concat_succ, List.rtake_eq_reverse_take_reverse,
        List.rtake_eq_reverse_take_reverse, List.rtake_eq_reverse_take_reverse,
          List.reverse_reverse, List.take_take,
        Nat.min_eq_left (Nat.le_succ n)]

/-- No more are kept than the limit says. -/
theorem length_rtake_le (l : List α) : (l.rtake n).length ≤ n := by
  rw [List.rtake_eq_reverse_take_reverse, List.length_reverse]
  exact List.length_take_le _ _

/-- Fewer than `n` entries came after this one. -/
theorem mem_rtake {before after : List α} {x : α} (h : after.length < n) :
    x ∈ (before ++ x :: after).rtake n := by
  rw [List.rtake_eq_reverse_take_reverse, List.mem_reverse, List.reverse_append, List.reverse_cons,
    List.append_assoc, List.take_append, List.length_reverse]
  refine List.mem_append_right _ ?_
  obtain ⟨k, hk⟩ : ∃ k, n - after.length = k + 1 := ⟨n - after.length - 1, by omega⟩
  rw [hk]
  exact List.mem_cons_self

/-- What is dropped and what is kept make up the list. -/
theorem rdrop_append_rtake (l : List α) : l.rdrop n ++ l.rtake n = l := List.take_append_drop _ _

end

section
variable {κ ν : Type*} [DecidableEq κ]

/-- Frees the memory at the keys, and faults where none is allocated. -/
def freeAll (heap : Dict κ ν) : List κ → Option (Dict κ ν)
  | [] => some heap
  | k :: ks => if heap.contains k then freeAll (heap.erase k) ks else none

/-- Memory that is allocated, none of it named twice, is freed without a fault, and nothing else
is. -/
theorem freeAll_eq {heap : Dict κ ν} {ks : List κ} (hnd : ks.Nodup)
    (hmem : ∀ k ∈ ks, heap.contains k = true) :
    ∃ heap', freeAll heap ks = some heap' ∧ ∀ j, heap'.get? j = if j ∈
      ks then none else heap.get? j := by
  induction ks generalizing heap with
  | nil => exact ⟨heap, rfl, fun j => by simp⟩
  | cons k ks ih =>
      obtain ⟨hk, hnd⟩ := List.nodup_cons.1 hnd
      have hrest : ∀ j ∈ ks, (heap.erase k).contains j = true := by
        intro j hj
        have hne : j ≠ k := fun heq => hk (heq ▸ hj)
        rw [Dict.contains, Dict.get?_erase, if_neg hne]
        exact hmem j (List.mem_cons_of_mem _ hj)
      obtain ⟨heap', hfree, hget⟩ := ih hnd hrest
      refine ⟨heap', ?_, fun j => ?_⟩
      · unfold freeAll
        rw [if_pos (hmem k List.mem_cons_self), hfree]
      · rw [hget, Dict.get?_erase]
        rcases eq_or_ne j k with rfl | hne
        · simp
        · simp [hne]

end

end Lib
