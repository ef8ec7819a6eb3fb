import Mathlib.Order.Monotone.Monovary
import EOSEmu.Lib.Rounding

/-!
# Binary floating-point numbers

A binary format with `w` exponent bits and `t` fraction bits holds multiples of its smallest
positive number, so its finite numbers are integers here. `decode` reads a bit pattern, `ofInt`
converts an integer, and `order` compares, with no answer for a NaN; `sign` is the comparison with
zero.
-/

namespace Lib

/-- A value of a binary format, a number as a multiple of the smallest positive one. -/
inductive FloatValue where
  | nan
  | finite (n : ℤ)
  | infinite (negative : Bool)
  deriving DecidableEq, Repr

namespace FloatValue

def orderInt (a b : ℤ) : Ordering := if a < b then .lt else if a = b then .eq else .gt

/-- How two values compare. -/
def order : FloatValue → FloatValue → Option Ordering
  | .nan, _ | _, .nan => none
  | .finite a, .finite b => some (orderInt a b)
  | .finite _, .infinite negative => some (if negative then .gt else .lt)
  | .infinite negative, .finite _ => some (if negative then .lt else .gt)
  | .infinite a, .infinite b => some (if a = b then .eq else if a then .lt else .gt)

/-- `==`, `<` and `<=`. -/
def equals (x y : FloatValue) : Bool := order x y == some .eq
def less (x y : FloatValue) : Bool := order x y == some .lt
def atMost (x y : FloatValue) : Bool := order x y == some .lt || order x y == some .eq

/-- The sign of what is not a NaN. -/
def sign (x : FloatValue) : Option Ordering := order x (.finite 0)

/-- The magnitude of a pattern without its sign bit: the exponent in the high bits, above `t`
fraction bits. -/
def magnitude (t m : ℕ) : ℕ := if m < 2 ^ t then m else (2 ^ t + m % 2 ^ t) * 2 ^ (m / 2 ^ t - 1)

/-- The pattern of infinity, without the sign bit. -/
def infinity (w t : ℕ) : ℕ := (2 ^ w - 1) * 2 ^ t

/-- What a bit pattern stands for. -/
def decode (w t bits : ℕ) : FloatValue :=
  let m := bits % 2 ^ (w + t)
  let negative := decide (2 ^ (w + t) ≤ bits)
  if infinity w t < m then .nan
  else if m = infinity w t then .infinite negative
  else .finite (if negative then -(magnitude t m : ℤ) else magnitude t m)

/-- An integer converted to the format, rounded to the nearest of its numbers;
`2 ^ (2 ^ (w - 1) - 2 + t)` is one. -/
def ofInt (w t : ℕ) (n : ℤ) : FloatValue :=
  .finite (roundInt (t + 1) n * 2 ^ (2 ^ (w - 1) - 2 + t))

section
variable {w t bits m : ℕ} {a b s : ℤ} {x y : FloatValue}

/-! ## Comparisons -/

/-- It says `lt` of the smaller integer. -/
theorem orderInt_eq_lt : orderInt a b = .lt ↔ a < b := by
  unfold orderInt
  split_ifs with hlt heq
  · exact iff_of_true rfl hlt
  · exact iff_of_false nofun hlt
  · exact iff_of_false nofun hlt

/-- It says `eq` of equal integers. -/
theorem orderInt_eq_eq : orderInt a b = .eq ↔ a = b := by
  unfold orderInt
  split_ifs with hlt heq
  · exact iff_of_false nofun hlt.ne
  · exact iff_of_true rfl heq
  · exact iff_of_false nofun heq

/-- It says `gt` of the greater integer. -/
theorem orderInt_eq_gt : orderInt a b = .gt ↔ b < a := by
  unfold orderInt
  split_ifs with hlt heq
  · exact iff_of_false nofun hlt.asymm
  · exact iff_of_false nofun heq.not_gt
  · exact iff_of_true rfl (by omega)

/-- Integers compare the other way round when swapped. -/
theorem orderInt_swap (a b : ℤ) : orderInt b a = (orderInt a b).swap := by
  rcases lt_trichotomy a b with h | rfl | h
  · rw [orderInt_eq_lt.2 h, Ordering.swap_lt, orderInt_eq_gt]
    exact h
  · rw [orderInt_eq_eq.2 rfl, Ordering.swap_eq]
  · rw [orderInt_eq_gt.2 h, Ordering.swap_gt, orderInt_eq_lt]
    exact h

/-- The comparison the other way round. -/
theorem order_swap (x y : FloatValue) : order y x = (order x y).map Ordering.swap := by
  cases x with
  | nan => cases y <;> rfl
  | finite a =>
      cases y with
      | nan => rfl
      | finite b => simp only [order, Option.map_some, orderInt_swap a b]
      | infinite s => cases s <;> rfl
  | infinite r =>
      cases y with
      | nan => rfl
      | finite b => cases r <;> rfl
      | infinite s => cases r <;> cases s <;> rfl

/-- Equality does not depend on the order of the operands. -/
theorem equals_comm (x y : FloatValue) : equals x y = equals y x := by
  unfold equals
  rw [order_swap x y]
  cases order x y with
  | none => rfl
  | some o => cases o <;> rfl

/-- Scaling keeps the comparison. -/
theorem orderInt_mul (hs : 0 < s) (a b : ℤ) : orderInt (a * s) (b * s) = orderInt a b := by
  unfold orderInt
  simp only [mul_lt_mul_iff_of_pos_right hs, mul_left_inj' hs.ne']

/-- Converted integers compare as the rounded ones. -/
theorem order_ofInt : order (ofInt w t a) (ofInt w t b) = some
    (orderInt (roundInt (t + 1) a) (roundInt (t + 1) b)) :=
  congrArg some (orderInt_mul (by positivity) _ _)

/-- Converted integers are equal if the rounded ones are. -/
theorem equals_ofInt : equals (ofInt w t a) (ofInt w t b) =
    decide (roundInt (t + 1) a = roundInt (t + 1) b) := by
  rw [equals, order_ofInt, Bool.eq_iff_iff, beq_iff_eq, Option.some_inj, orderInt_eq_eq,
    decide_eq_true_iff]

/-- Converted integers are less if the rounded ones are. -/
theorem less_ofInt : less (ofInt w t a) (ofInt w t b) =
    decide (roundInt (t + 1) a < roundInt (t + 1) b) := by
  rw [less, order_ofInt, Bool.eq_iff_iff, beq_iff_eq, Option.some_inj, orderInt_eq_lt,
    decide_eq_true_iff]

/-- Converted integers are at most if the rounded ones are. -/
theorem atMost_ofInt : atMost (ofInt w t a) (ofInt w t b) =
    decide (roundInt (t + 1) a ≤ roundInt (t + 1) b) := by
  rw [atMost, order_ofInt, Bool.eq_iff_iff, Bool.or_eq_true, beq_iff_eq, beq_iff_eq,
    Option.some_inj, Option.some_inj,
    orderInt_eq_lt, orderInt_eq_eq, decide_eq_true_iff, le_iff_lt_or_eq]

/-! ## Signs -/

/-- Zero is converted exactly. -/
theorem ofInt_zero : ofInt w t 0 = .finite 0 := by
  have hzero : roundInt (t + 1) 0 = 0 :=
    roundInt_of_representable (Nat.succ_pos t) (representable_of_lt (by simp))
  rw [ofInt, hzero, zero_mul]

/-- The sign of a converted integer is that of the integer. -/
theorem sign_ofInt : sign (ofInt w t a) = some (orderInt a 0) := by
  have hsmall : ∀ c : ℤ, |c| < 2 → roundInt (t + 1) c = c := by
    intro c hc
    refine roundInt_of_representable (Nat.succ_pos t) (representable_of_lt (hc.trans_le ?_))
    exact le_self_pow₀ (by norm_num) (Nat.succ_ne_zero t)
  have hsign : orderInt (roundInt (t + 1) a) 0 = orderInt a 0 := by
    rcases lt_trichotomy a 0 with h | rfl | h
    · have hround : roundInt (t + 1) a ≤ -1 := hsmall (-1) (by norm_num) ▸
        roundInt_mono (Nat.succ_pos t) (by omega)
      rw [orderInt_eq_lt.2 h, orderInt_eq_lt]
      omega
    · rw [hsmall 0 (by norm_num)]
    · have hround : 1 ≤ roundInt (t + 1) a := hsmall 1 (by norm_num) ▸
        roundInt_mono (Nat.succ_pos t) (by omega)
      rw [orderInt_eq_gt.2 h, orderInt_eq_gt]
      omega
  rw [sign, ← ofInt_zero (w := w) (t := t), order_ofInt, hsmall 0 (by norm_num), hsign]

/-- The magnitude grows with the pattern. -/
theorem magnitude_strictMono (t : ℕ) : StrictMono (magnitude t) := by
  refine strictMono_nat_of_lt_succ fun m => ?_
  have ht : 0 < 2 ^ t := Nat.two_pow_pos t
  unfold magnitude
  by_cases hm : m < 2 ^ t
  · rw [if_pos hm]
    split
    · exact Nat.lt_succ_self m
    · next hnext =>
        have heq : m + 1 = 2 ^ t := by omega
        rw [heq, Nat.mod_self, Nat.div_self ht]
        omega
  · have hdiv : 0 < m / 2 ^ t := Nat.div_pos (not_lt.1 hm) ht
    rw [if_neg hm, if_neg (by omega)]
    have hm := Nat.div_add_mod m (2 ^ t)
    have hmod := Nat.mod_lt m ht
    by_cases hcarry : m % 2 ^ t + 1 < 2 ^ t
    · -- the next fraction
      obtain ⟨hquot, hrem⟩ : (m + 1) / 2 ^ t = m / 2 ^ t ∧ (m + 1) % 2 ^ t = m % 2 ^ t + 1 :=
        (Nat.div_mod_unique ht).2 ⟨by omega, hcarry⟩
      rw [hquot, hrem]
      gcongr
      omega
    · -- the next exponent
      obtain ⟨hquot, hrem⟩ : (m + 1) / 2 ^ t = m / 2 ^ t + 1 ∧ (m + 1) % 2 ^ t = 0 := by
        refine (Nat.div_mod_unique ht).2 ⟨?_, ht⟩
        rw [mul_add, mul_one]
        omega
      rw [hquot, hrem, add_zero, Nat.add_sub_cancel, ← Nat.sub_add_cancel hdiv, pow_succ,
        Nat.add_sub_cancel]
      calc (2 ^ t + m % 2 ^ t) * 2 ^ (m / 2 ^ t - 1) < 2 ^ t * 2 * 2 ^ (m / 2 ^ t - 1) := by
            gcongr
            omega
        _ = 2 ^ t * (2 ^ (m / 2 ^ t - 1) * 2) := by ring

/-- The sign a bit pattern tells. -/
def signBits (w t bits : ℕ) : Option Ordering :=
  if infinity w t < bits % 2 ^ (w + t) then none
  else if bits % 2 ^ (w + t) = 0 then some .eq
  else if 2 ^ (w + t) ≤ bits then some .lt else some .gt

/-- The pattern zero has the magnitude zero. -/
theorem magnitude_zero : magnitude t 0 = 0 := if_pos (Nat.two_pow_pos t)

/-- Every other pattern has a positive magnitude. -/
theorem magnitude_pos (hm : 0 < m) : 0 < magnitude t m :=
  magnitude_zero (t := t) ▸ magnitude_strictMono t hm

/-- The sign of a decoded value can be read off its bits. -/
theorem sign_decode (hw : 0 < w) : sign (decode w t bits) = signBits w t bits := by
  have hinf : 0 < infinity w t := Nat.mul_pos (Nat.sub_pos_of_lt (Nat.one_lt_two_pow hw.ne'))
    (Nat.two_pow_pos t)
  unfold decode signBits
  generalize bits % 2 ^ (w + t) = m
  dsimp only
  split
  · rfl
  · by_cases heq : m = infinity w t
    · have hm : m ≠ 0 := by omega
      rw [if_pos heq, if_neg hm]
      by_cases hneg : 2 ^ (w + t) ≤ bits
      · rw [if_pos hneg, decide_eq_true hneg]
        rfl
      · rw [if_neg hneg, decide_eq_false hneg]
        rfl
    · rw [if_neg heq]
      have hfinite : ∀ n : ℤ, sign (.finite n) = some (orderInt n 0) := fun n => rfl
      rw [hfinite]
      by_cases hm : m = 0
      · rw [if_pos hm, hm, magnitude_zero]
        split <;> rfl
      · have hpos : 0 < magnitude t m := magnitude_pos (Nat.pos_of_ne_zero hm)
        rw [if_neg hm]
        split
        · next hneg =>
            rw [if_pos (of_decide_eq_true hneg), orderInt_eq_lt.2]
            omega
        · next hneg =>
            rw [if_neg (by simpa using hneg), orderInt_eq_gt.2]
            omega

end

end FloatValue

end Lib
