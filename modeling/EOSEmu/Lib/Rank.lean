import Mathlib.Data.List.Perm.Subperm
import Mathlib.Data.List.Sort

/-!
# Going through a list that grows

A reader goes through a sorted list by index while the list grows between its reads. The entries
are where their ranks say, and ranks only rise, so the reader meets every entry that was there when
it began: an entry is among those it has read, or its rank is still ahead (`Awaits`).
-/

namespace Lib

variable {α : Type*} [LE α] [DecidableLE α] {x y : α} {l l' visited : List α} {i : ℕ}

/-- The number of entries below a value. -/
def rank (x : α) (l : List α) : ℕ := l.countP fun z => ¬ x ≤ z

/-- Nothing ranks below the least entry. -/
theorem rank_eq_zero (h : ∀ y ∈ l, x ≤ y) : rank x l = 0 :=
  List.countP_eq_zero.2 fun y hy => by simpa using h y hy

section
variable [Std.Total fun x y : α => x ≤ y]

/-- The rank of an entry is an index of the list. -/
theorem rank_lt_length (hx : x ∈ l) : rank x l < l.length := by
  have hle : x ≤ x := (Std.Total.total (r := fun x y : α => x ≤ y) x x).elim id id
  have hnot : ¬ ∀ z ∈ l, decide (¬ x ≤ z) = true := fun h => of_decide_eq_true (h x hx) hle
  exact lt_of_le_of_ne List.countP_le_length fun heq => hnot (List.countP_eq_length.1 heq)

/-- In a sorted list an entry is where its rank says. -/
theorem getElem?_rank [Std.Antisymm fun x y : α => x ≤ y] (h : l.Pairwise (· ≤ ·)) (hx : x ∈ l) :
    l[rank x l]? = some x := by
  induction l with
  | nil => cases hx
  | cons z l ih =>
      obtain ⟨hz, hl⟩ := List.pairwise_cons.1 h
      by_cases hle : x ≤ z
      · have heq : x = z := (List.mem_cons.1 hx).elim id fun hmem =>
          Std.Antisymm.antisymm x z hle (hz x hmem)
        subst heq
        rw [rank_eq_zero]
        · rfl
        · rintro y (_ | ⟨_, hy⟩)
          · exact hle
          · exact hz y hy
      · have hrefl : x ≤ x := (Std.Total.total (r := fun x y : α => x ≤ y) x x).elim id id
        have hmem : x ∈ l := (List.mem_cons.1 hx).resolve_left fun heq => hle (heq ▸ hrefl)
        have hone : rank x (z :: l) = rank x l + 1 := by simp [rank, hle]
        rw [hone, List.getElem?_cons_succ, ih hl hmem]

end

/-- Ranks rise when a list grows. -/
theorem rank_mono (h : l.Subperm l') (x : α) : rank x l ≤ rank x l' := h.countP_le _

/-- The reader at the index `i` has read the entry, or has it ahead. -/
def Awaits (x : α) (i : ℕ) (visited l : List α) : Prop := x ∈ visited ∨ (x ∈ l ∧ i ≤ rank x l)

namespace Awaits

/-- At the start every entry is ahead. -/
theorem start (hx : x ∈ l) : Awaits x 0 visited l := .inr ⟨hx, Nat.zero_le _⟩

/-- A growing list keeps what is ahead of the reader. -/
theorem grow (h : Awaits x i visited l) (hl : l.Subperm l') : Awaits x i visited l' :=
  h.imp_right fun hx => ⟨hl.subset hx.1, hx.2.trans (rank_mono hl x)⟩

/-- Reading one entry of a sorted list passes no other. -/
theorem visit [Std.Total fun x y : α => x ≤ y] [Std.Antisymm fun x y : α => x ≤ y]
    (h : Awaits x i visited l) (hl : l.Pairwise (· ≤ ·)) (hi : l[i]? = some y) :
    Awaits x (i + 1) (visited ++ [y]) l := by
  rcases h with hx | ⟨hx, hrank⟩
  · exact .inl (List.mem_append_left _ hx)
  · rcases Nat.lt_or_eq_of_le hrank with hlt | rfl
    · exact .inr ⟨hx, hlt⟩
    · have hfound := getElem?_rank hl hx
      cases hfound.symm.trans hi
      exact .inl (List.mem_append_right _ List.mem_cons_self)

/-- Past the end nothing is ahead any more. -/
theorem done [Std.Total fun x y : α => x ≤ y] (h : Awaits x i visited l) (hi : l.length ≤ i) :
    x ∈ visited :=
  h.resolve_right fun hx => absurd (rank_lt_length hx.1) (Nat.not_lt.2 (hi.trans hx.2))

end Awaits

end Lib
