import Mathlib.Data.List.Basic
import Mathlib.Data.List.Nodup
import Mathlib.Logic.Function.Basic

/-!
# Names handed out by counting issuers

Every issuer counts the names it hands out. `may i n x` says that `x` is a name issuer `i` may hand
out at count `n`. When a name tells its issuer and its count (`Telling`), no name is handed out
twice (`Issued.issue`). A name that is written in fields with a separator tells its last field
(`last_field_inj`).
-/

namespace Lib

section
variable {ι κ : Type*} {may : ι → ℕ → κ → Prop} {next : ι → ℕ} {names : List κ} {i : ι} {x : κ}

/-- A name tells who handed it out, and at which count. -/
def Telling (may : ι → ℕ → κ → Prop) : Prop :=
  ∀ ⦃i j : ι⦄ ⦃m n : ℕ⦄ ⦃x : κ⦄, may i m x → may j n x → i = j ∧ m = n

/-- The names handed out so far: each once, each at a count below its issuer's next one. -/
structure Issued (may : ι → ℕ → κ → Prop) (next : ι → ℕ) (names : List κ) : Prop where
  nodup : names.Nodup
  old : ∀ x ∈ names, ∃ i n, may i n x ∧ n < next i

/-- Nothing is handed out yet. -/
theorem Issued.nil : Issued may next [] := ⟨List.nodup_nil, fun _ hx => absurd hx List.not_mem_nil⟩

/-- Counters only go up. -/
theorem Issued.mono {next' : ι → ℕ} (h : Issued may next names) (hle : ∀ i, next i ≤ next' i) :
    Issued may next' names := by
  refine ⟨h.nodup, fun x hx => ?_⟩
  obtain ⟨i, n, hmay, hn⟩ := h.old x hx
  exact ⟨i, n, hmay, Nat.lt_of_lt_of_le hn (hle i)⟩

/-- The next name of an issuer is a new one. -/
theorem Issued.fresh (htell : Telling may) (h : Issued may next names) (hx : may i (next i) x) :
    x ∉ names := by
  intro hmem
  obtain ⟨j, n, hmay, hn⟩ := h.old x hmem
  obtain ⟨rfl, rfl⟩ := htell hx hmay
  exact absurd hn (Nat.lt_irrefl _)

/-- An issuer hands out its next name and counts it. -/
theorem Issued.issue {next' : ι → ℕ} (htell : Telling may) (h : Issued may next names)
    (hx : may i (next i) x) (hle : ∀ j, next j ≤ next' j) (hlt : next i < next' i) :
    Issued may next' (names ++ [x]) := by
  have hfresh := h.fresh htell hx
  refine ⟨?_, fun y hy => ?_⟩
  · rw [List.nodup_append]
    refine ⟨h.nodup, List.nodup_singleton x, fun a ha b hb hab => ?_⟩
    rw [List.mem_singleton] at hb
    subst hb hab
    exact hfresh ha
  · rcases List.mem_append.1 hy with hold | hnew
    · exact (h.mono hle).old y hold
    · rw [List.mem_singleton] at hnew
      subst hnew
      exact ⟨i, next i, hx, hlt⟩

/-- A step in which an issuer hands out its next name or none. -/
theorem Issued.step {next' : ι → ℕ} {handed : Option κ} (htell : Telling may)
    (h : Issued may next names) (hle : ∀ j, next j ≤ next' j)
    (hx : ∀ x ∈ handed, may i (next i) x ∧ next i < next' i) :
    Issued may next' (names ++ handed.toList) := by
  cases handed with
  | none =>
      rw [Option.toList_none, List.append_nil]
      exact h.mono hle
  | some x =>
      obtain ⟨hmay, hlt⟩ := hx x rfl
      exact h.issue htell hmay hle hlt

end

/-- A list that starts with its last separator has nothing before it. -/
theorem eq_nil_of_cons_eq_append {α : Type*} {sep : α} {t b b' : List α} (hb : sep ∉ b)
    (h : sep :: b = t ++ sep :: b') : t = [] := by
  cases t with
  | nil => rfl
  | cons c t =>
      obtain ⟨_, htail⟩ := List.cons.inj h
      exact absurd (htail ▸ List.mem_append_right t List.mem_cons_self) hb

/-- The field after the last separator is read off, and so is what stands before it. -/
theorem last_field_inj {α : Type*} (sep : α) {a a' b b' : List α} (hb : sep ∉ b) (hb' : sep ∉ b')
    (h : a ++ sep :: b = a' ++ sep :: b') : a = a' ∧ b = b' := by
  rcases List.append_eq_append_iff.1 h with ⟨t, ha, ht⟩ | ⟨t, ha, ht⟩
  · obtain rfl := eq_nil_of_cons_eq_append hb ht
    exact ⟨(ha.trans (List.append_nil a)).symm, (List.cons.inj ht).2⟩
  · obtain rfl := eq_nil_of_cons_eq_append hb' ht
    exact ⟨ha.trans (List.append_nil a'), (List.cons.inj ht).2.symm⟩

end Lib
