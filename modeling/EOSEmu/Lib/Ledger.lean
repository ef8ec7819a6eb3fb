import Mathlib.Algebra.BigOperators.Group.List.Basic
import Mathlib.Data.List.Induction
import Mathlib.Logic.Function.Basic

/-!
# Accounts that are reset and added to

A ledger holds a value for every account that was touched. An entry resets an account to a value or
adds an amount to it, where an untouched account counts as zero, and an addition is refused when
the sum is not an admissible value. `foldlM_post` says when a list of entries goes through and what
is then in the accounts: in each the exact total of what it was last reset to and the amounts added
since.
-/

namespace Lib

/-- An entry of the books. -/
inductive LedgerEntry (κ ν : Type*) where
  | reset (account : κ) (value : ν)
  | add (account : κ) (amount : ν)
  deriving DecidableEq, Repr

/-- The accounts. -/
abbrev Ledger (κ ν : Type*) := κ → Option ν

namespace LedgerEntry
variable {κ ν : Type*} [DecidableEq κ]

/-- The account an entry goes to. -/
def account : LedgerEntry κ ν → κ
  | reset k _ | add k _ => k

/-- The value an entry resets the account to. -/
def resetOf (k : κ) : LedgerEntry κ ν → Option ν
  | reset j v => if j = k then some v else none
  | add _ _ => none

/-- The amount an entry adds to the account. -/
def amountOf (k : κ) : LedgerEntry κ ν → Option ν
  | reset _ _ => none
  | add j v => if j = k then some v else none

end LedgerEntry

namespace Ledger

open LedgerEntry

variable {κ ν : Type*} [DecidableEq κ] [AddMonoid ν]

/-- What the account was last reset to, zero if it never was. -/
def opening (k : κ) (l : List (LedgerEntry κ ν)) : ν := (l.filterMap (resetOf k)).getLast?.getD 0

/-- The amounts added since then, the latest first. -/
def amounts (k : κ) (l : List (LedgerEntry κ ν)) : List ν :=
  (l.reverse.takeWhile fun e => (e.resetOf k).isNone).filterMap (amountOf k)

/-- The account's total. -/
def total (k : κ) (l : List (LedgerEntry κ ν)) : ν := opening k l + (amounts k l).reverse.sum

/-- What the entries leave in the account. -/
def balance (k : κ) (l : List (LedgerEntry κ ν)) : Option ν :=
  if k ∈ l.map account then some (total k l) else none

/-- One entry, where it is accepted. -/
def post (ok : ν → Prop) [DecidablePred ok] (b : Ledger κ ν) :
    LedgerEntry κ ν → Option (Ledger κ ν)
  | .reset k v => some (Function.update b k (some v))
  | .add k v => if ok ((b k).getD 0 + v) then some (Function.update b k (some ((b k).getD 0 + v)))
    else none

/-- Every total that an addition makes is admissible. -/
def Admissible (ok : ν → Prop) (l : List (LedgerEntry κ ν)) : Prop :=
  ∀ before k v, before ++ [.add k v] <+: l → ok (total k (before ++ [.add k v]))

variable {k : κ} {l : List (LedgerEntry κ ν)} {e : LedgerEntry κ ν}

/-! ## Totals -/

/-- An entry on another account does not count. -/
theorem total_of_ne (h : e.account ≠ k) : total k (l ++ [e]) = total k l := by
  have hreset : e.resetOf k = none := by
    cases e with
    | reset j v => exact if_neg h
    | add => rfl
  have hamount : e.amountOf k = none := by
    cases e with
    | reset => rfl
    | add j v => exact if_neg h
  simp [total, opening, amounts, List.filterMap_append, hreset, hamount]

@[simp] theorem total_reset (v : ν) : total k (l ++ [.reset k v]) = v := by
  simp [total, opening, amounts, resetOf, List.filterMap_append]

@[simp] theorem total_add (v : ν) : total k (l ++ [.add k v]) = total k l + v := by
  simp [total, opening, amounts, resetOf, amountOf, List.filterMap_append, add_assoc]

@[simp] theorem balance_nil : balance k ([] : List (LedgerEntry κ ν)) = none := rfl

/-- An account that was not touched counts as zero. -/
theorem total_of_balance : (balance k l).getD 0 = total k l := by
  unfold balance
  split
  · rfl
  · next h =>
      induction l using List.reverseRecOn with
      | nil => simp [total, opening, amounts]
      | append_singleton l e ih =>
          simp only [List.map_append, List.mem_append, not_or] at h
          have hne : e.account ≠ k := fun heq => h.2 (by simp [heq])
          rw [total_of_ne hne]
          exact ih h.1

/-- The accounts after one more entry. -/
theorem balance_append (e : LedgerEntry κ ν) :
    (fun k => balance k (l ++ [e])) =
      Function.update (fun k => balance k l) e.account (some (total e.account (l ++ [e]))) := by
  funext k
  by_cases h : k = e.account
  · subst h
    rw [Function.update_self, balance, if_pos (by simp)]
  · rw [Function.update_of_ne h, balance, balance, total_of_ne (Ne.symm h)]
    simp [h]

/-! ## A whole book -/

variable {ok : ν → Prop}

/-- One more entry is admissible exactly if it is a reset or makes an admissible total. -/
theorem admissible_append : Admissible ok (l ++ [e]) ↔
    Admissible ok l ∧ ∀ k v, e = .add k v → ok (total k (l ++ [.add k v])) := by
  constructor
  · intro h
    refine ⟨fun before k v hpre => h before k v (hpre.trans (List.prefix_append l [e])), ?_⟩
    rintro k v rfl
    exact h l k v (List.prefix_refl _)
  · rintro ⟨hl, he⟩ before k v hpre
    rcases List.prefix_concat_iff.1 hpre with heq | hpre
    · obtain ⟨rfl, hlast⟩ := List.append_inj' heq rfl
      cases hlast
      exact he k v rfl
    · exact hl before k v hpre

variable [DecidablePred ok]

/-- An entry on top of exact accounts. -/
theorem post_balance (e : LedgerEntry κ ν) (b : Ledger κ ν) :
    post ok (fun k => balance k l) e = some b ↔
      (∀ k v, e = .add k v → ok (total k (l ++ [.add k v]))) ∧
      b = fun k => balance k (l ++ [e]) := by
  rw [balance_append]
  cases e with
  | reset k v =>
      simp only [post, account, total_reset, Option.some.injEq, reduceCtorEq, false_implies,
        implies_true, true_and]
      exact eq_comm
  | add k v =>
      have hsum : (balance k l).getD 0 + v = total k (l ++ [.add k v]) := by
        rw [total_of_balance, total_add]
      simp only [post, account, hsum]
      split
      · next h =>
          rw [Option.some.injEq]
          refine ⟨fun heq => ⟨?_, heq.symm⟩, fun heq => heq.2.symm⟩
          rintro _ _ ⟨⟩
          exact h
      · next h => exact ⟨nofun, fun heq => absurd (heq.1 k v rfl) h⟩

/-- Entries leave the accounts alone that none of them goes to. -/
theorem foldlM_post_of_ne {b c : Ledger κ ν} (h : l.foldlM (post ok) b = some c)
    (hne : ∀ e ∈ l, e.account ≠ k) : c k = b k := by
  induction l generalizing b with
  | nil =>
      cases h
      rfl
  | cons e l ih =>
      rw [List.foldlM_cons, Option.bind_eq_bind, Option.bind_eq_some_iff] at h
      obtain ⟨d, hd, hrest⟩ := h
      rw [ih hrest fun e' he' => hne e' (List.mem_cons_of_mem _ he')]
      have hk : k ≠ e.account := (hne e List.mem_cons_self).symm
      cases e with
      | reset j v =>
          cases hd
          exact Function.update_of_ne hk _ _
      | add j v =>
          obtain ⟨_, heq⟩ := Option.ite_none_right_eq_some.1 hd
          cases heq
          exact Function.update_of_ne hk _ _

/-- **The books go through exactly if every sum is admissible, and then hold the exact totals.** -/
theorem foldlM_post (b : Ledger κ ν) :
    l.foldlM (post ok) (fun _ => none) = some b ↔ Admissible ok l ∧ b = fun k => balance k l := by
  induction l using List.reverseRecOn generalizing b with
  | nil =>
      have hnil : Admissible ok
        ([] : List (LedgerEntry κ ν)) := fun before k v hpre => by simp at hpre
      simp [hnil, eq_comm]
  | append_singleton l e ih =>
      rw [List.foldlM_append, admissible_append, Option.bind_eq_bind, Option.bind_eq_some_iff]
      simp only [List.foldlM_cons, List.foldlM_nil, Option.bind_eq_bind, Option.pure_def,
        Option.bind_fun_some]
      constructor
      · rintro ⟨c, hc, hpost⟩
        obtain ⟨hl, rfl⟩ := (ih c).1 hc
        obtain ⟨he, hb⟩ := (post_balance e b).1 hpost
        exact ⟨⟨hl, he⟩, hb⟩
      · rintro ⟨⟨hl, he⟩, hb⟩
        exact ⟨_, (ih _).2 ⟨hl, rfl⟩, (post_balance e b).2 ⟨he, hb⟩⟩

end Ledger

end Lib
