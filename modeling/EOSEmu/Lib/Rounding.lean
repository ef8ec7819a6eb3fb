import Mathlib.Algebra.Order.Group.Abs
import Mathlib.Algebra.Order.Ring.Abs
import Mathlib.Data.Int.Order.Basic
import Mathlib.Tactic.Linarith
import Mathlib.Tactic.Ring

/-!
# Rounding to a number of significant bits

A binary format of precision `p` holds the integers `m * 2 ^ e` with `|m| < 2 ^ p`
(`Representable`). `RoundsTo` says what rounding to the nearest of them is, ties to even, and
`roundInt` computes it: the multiples of one power of two are enough to look at. That rounding is a
function, and monotone, is read off its description.
-/

namespace Lib

/-- An integer of at most `p` significant bits. -/
def Representable (p : ℕ) (x : ℤ) : Prop := ∃ (m : ℤ) (e : ℕ), |m| < 2 ^ p ∧ x = m * 2 ^ e

/-- `x` is the representable number nearest to `n`; of two that are equally near it is the even
one, which a higher power of two divides. -/
structure RoundsTo (p : ℕ) (n x : ℤ) : Prop where
  representable : Representable p x
  nearest : ∀ y, Representable p y → |n - x| ≤ |n - y|
  even : ∀ y, Representable p y → |n - y| = |n - x| → y ≠ x → ∃ k : ℕ, 2 ^ k ∣ x ∧ ¬ 2 ^ k ∣ y

section
variable {p e : ℕ} {n m x y s c : ℤ}

/-- Every integer that fits in the significand is representable. -/
theorem representable_of_lt (h : |n| < 2 ^ p) : Representable p n := ⟨n, 0, h, by simp⟩

/-- So is its multiple by a power of two. -/
theorem representable_mul_pow (hp : 0 < p) (h : |m| ≤ 2 ^ p) : Representable p (m * 2 ^ e) := by
  rcases h.lt_or_eq with h | h
  · exact ⟨m, e, h, rfl⟩
  · have hone : |(1 : ℤ)| < 2 ^ p := by
      rw [abs_one]
      exact one_lt_pow₀ (by norm_num) hp.ne'
    rcases (abs_eq (by positivity)).1 h with rfl | rfl
    · exact ⟨1, p + e, hone, by rw [one_mul, pow_add]⟩
    · exact ⟨-1, p + e, by rwa [abs_neg], by rw [pow_add]; ring⟩

/-- A number with a bit below the `e`-th is small. -/
theorem abs_lt_of_representable (h : Representable p y) (he : 0 < e) (hy : ¬ 2 ^ e ∣ y) :
    |y| < 2 ^ (p + (e - 1)) := by
  obtain ⟨m, k, hm, rfl⟩ := h
  have hk : k ≤ e - 1 := by
    by_contra hk
    exact hy (Dvd.dvd.mul_left (pow_dvd_pow 2 (by omega)) m)
  rw [abs_mul, abs_of_pos (by positivity : (0 : ℤ) < 2 ^ k), pow_add]
  calc |m| * 2 ^ k < 2 ^ p * 2 ^ k := by gcongr
    _ ≤ 2 ^ p * 2 ^ (e - 1) := by gcongr; norm_num

/-! ## What rounding gives -/

/-- A number rounds to one number. -/
theorem RoundsTo.unique (hx : RoundsTo p n x) (hy : RoundsTo p n y) : x = y := by
  have heq : |n - x| = |n - y| := le_antisymm (hx.nearest y hy.representable)
    (hy.nearest x hx.representable)
  by_contra hne
  obtain ⟨k, hkx, hky⟩ := hx.even y hy.representable heq.symm fun h => hne h.symm
  obtain ⟨j, hjy, hjx⟩ := hy.even x hx.representable heq hne
  rcases le_total k j with hkj | hjk
  · exact hky ((pow_dvd_pow 2 hkj).trans hjy)
  · exact hjx ((pow_dvd_pow 2 hjk).trans hkx)

/-- Rounding keeps the order. -/
theorem RoundsTo.mono (hx : RoundsTo p n x) (hy : RoundsTo p m y) (h : n ≤ m) : x ≤ y := by
  by_contra hlt
  have hlt : y < x := not_le.1 hlt
  have hnx := hx.nearest y hy.representable
  have hmy := hy.nearest x hx.representable
  -- `n` lies in the upper half of the gap and `m` in the lower one, so they meet in the middle
  have hupper : x + y ≤ 2 * n := by
    rcases abs_cases (n - x) with ⟨h₁, _⟩ | ⟨h₁, _⟩ <;>
      rcases abs_cases (n - y) with ⟨h₂, _⟩ | ⟨h₂, _⟩ <;>
      rw [h₁, h₂] at hnx <;> omega
  have hlower : 2 * m ≤ x + y := by
    rcases abs_cases (m - x) with ⟨h₁, _⟩ | ⟨h₁, _⟩ <;>
      rcases abs_cases (m - y) with ⟨h₂, _⟩ | ⟨h₂, _⟩ <;>
      rw [h₁, h₂] at hmy <;> omega
  obtain rfl : n = m := by omega
  exact hlt.ne' (hx.unique hy)

/-- A representable number is its own rounding. -/
theorem roundsTo_self (h : Representable p n) : RoundsTo p n n where
  representable := h
  nearest y _ := by simp
  even y _ heq hne := absurd (sub_eq_zero.1 (abs_eq_zero.1 (by simpa using heq))).symm hne

/-! ## Computing it -/

/-- The multiple of `s` nearest to `n`, ties to the even one. -/
def roundTo (s n : ℤ) : ℤ :=
  if 2 * (n % s) < s ∨ 2 * (n % s) = s ∧ n / s % 2 = 0 then s * (n / s) else s * (n / s + 1)

/-- `n` rounded to `p` significant bits. -/
def roundInt (p : ℕ) (n : ℤ) : ℤ := roundTo (2 ^ (n.natAbs.log2 + 1 - p)) n

/-- A multiple of `s` within half of `s` is a nearest one, and another as near is next to it. -/
theorem nearest_of_half {q : ℤ} (hs : 0 < s) (h : 2 * |n - s * q| ≤ s) (c : ℤ) :
    |n - s * q| ≤ |n - s * c| ∧
    (|n - s * c| = |n - s * q| → c ≠ q → 2 * |n - s * q| = s ∧ |c - q| = 1) := by
  by_cases hc : c = q
  · exact ⟨by rw [hc], fun _ hne => absurd hc hne⟩
  · have hone : 1 ≤ |c - q| := Int.one_le_abs (sub_ne_zero.2 hc)
    have hgap : s * |c - q| ≤ |n - s * q| + |n - s * c| := by
      calc s * |c - q| = |(n - s * q) - (n - s * c)| := by
            rw [← abs_of_pos hs, ← abs_mul, abs_of_pos hs]
            congr 1
            ring
        _ ≤ |n - s * q| + |n - s * c| := abs_sub _ _
    have hfar : s ≤ s * |c - q| := le_mul_of_one_le_right hs.le hone
    refine ⟨by omega, fun heq _ => ⟨by omega, ?_⟩⟩
    by_contra hne
    have htwo : s * 2 ≤ s * |c - q| := mul_le_mul_of_nonneg_left (by omega) hs.le
    omega

/-- The multiple that `roundTo` takes: within half of `s`, and even if it is exactly half of `s`
away. -/
theorem roundTo_eq (hs : 0 < s) (n : ℤ) : ∃ q, roundTo s n = s * q ∧ 2 * |n - s * q| ≤ s ∧
    (2 * |n - s * q| = s → 2 ∣ q) := by
  have hr := Int.emod_nonneg n hs.ne'
  have hlt := Int.emod_lt_of_pos n hs
  have hbelow : n - s * (n / s) = n % s := by
    have hdiv := Int.mul_ediv_add_emod n s
    omega
  have habove : n - s * (n / s + 1) = n % s - s := by
    rw [mul_add, mul_one, ← sub_sub, hbelow]
  unfold roundTo
  split
  · next h =>
      refine ⟨n / s, rfl, ?_⟩
      rw [hbelow, abs_of_nonneg hr]
      exact ⟨by omega, fun heq => by omega⟩
  · next h =>
      refine ⟨n / s + 1, rfl, ?_⟩
      rw [habove, abs_of_neg (by omega)]
      exact ⟨by omega, fun heq => by omega⟩

/-- Rounding to a multiple of `2 ^ e`, among the multiples. -/
theorem roundTo_nearest (n : ℤ) (hy : (2 : ℤ) ^ e ∣ y) : |n - roundTo (2 ^ e) n| ≤ |n - y| ∧
    (|n - y| = |n - roundTo (2 ^ e) n| → y ≠ roundTo (2 ^ e) n →
      ∃ k : ℕ, 2 ^ k ∣ roundTo (2 ^ e) n ∧ ¬ 2 ^ k ∣ y) := by
  have hs : (0 : ℤ) < 2 ^ e := by positivity
  obtain ⟨q, heq, hhalf, heven⟩ := roundTo_eq hs n
  obtain ⟨c, rfl⟩ := hy
  obtain ⟨hle, htie⟩ := nearest_of_half hs hhalf c
  rw [heq]
  refine ⟨hle, fun hsame hne => ⟨e + 1, ?_⟩⟩
  obtain ⟨hexact, hnext⟩ := htie hsame fun h => hne (by rw [h])
  have hq := heven hexact
  rw [pow_succ, mul_dvd_mul_iff_left hs.ne', mul_dvd_mul_iff_left hs.ne']
  refine ⟨hq, fun hc => ?_⟩
  rcases (abs_eq zero_le_one).1 hnext with h | h <;> omega

/-- The rounded number is representable. -/
theorem representable_roundInt (hp : 0 < p) (n : ℤ) : Representable p (roundInt p n) := by
  have hs : (0 : ℤ) < 2 ^ (n.natAbs.log2 + 1 - p) := by positivity
  obtain ⟨q, heq, hhalf, -⟩ := roundTo_eq hs n
  rw [roundInt, heq, mul_comm]
  refine representable_mul_pow hp ?_
  have hn : |n| < 2 ^ (n.natAbs.log2 + 1 - p) * 2 ^ p := by
    calc |n| < 2 ^ (n.natAbs.log2 + 1) := by
          rw [Int.abs_eq_natAbs]
          exact_mod_cast Nat.lt_log2_self
      _ ≤ 2 ^ (n.natAbs.log2 + 1 - p) * 2 ^ p := by
          rw [← pow_add]
          exact pow_le_pow_right₀ (by norm_num) (by omega)
  by_contra hq
  have hfar : 2 ^ (n.natAbs.log2 + 1 - p) * (2 ^ p + 1) ≤ 2 ^ (n.natAbs.log2 + 1 - p) * |q| :=
    mul_le_mul_of_nonneg_left (not_le.1 hq) hs.le
  have hgap : 2 ^ (n.natAbs.log2 + 1 - p) * |q| ≤ |n| + |n - 2 ^ (n.natAbs.log2 + 1 - p) * q| := by
    rw [← abs_of_pos hs, ← abs_mul, abs_of_pos hs]
    have htri := abs_sub n (n - 2 ^ (n.natAbs.log2 + 1 - p) * q)
    rwa [sub_sub_cancel] at htri
  rw [mul_add, mul_one] at hfar
  omega

/-- A representable number that is no multiple of the power of two `roundInt` uses is farther away
than one that is. -/
theorem exists_nearer (hp : 0 < p) (hy : Representable p y)
    (hdvd : ¬ (2 : ℤ) ^ (n.natAbs.log2 + 1 - p) ∣ y) :
    ∃ t : ℤ, 2 ^ (n.natAbs.log2 + 1 - p) ∣ t ∧ |n - t| < |n - y| := by
  have he : 0 < n.natAbs.log2 + 1 - p := by
    rw [Nat.pos_iff_ne_zero]
    intro he
    exact hdvd (by rw [he, pow_zero]; exact one_dvd y)
  have hsmall := abs_lt_of_representable hy he hdvd
  rw [show p + (n.natAbs.log2 + 1 - p - 1) = n.natAbs.log2 by omega] at hsmall
  have hlarge : 2 ^ n.natAbs.log2 ≤ |n| := by
    rw [Int.abs_eq_natAbs]
    exact_mod_cast Nat.log2_self_le fun h => by simp [h] at he; omega
  have hmul : (2 : ℤ) ^ (n.natAbs.log2 + 1 - p) ∣ 2 ^ n.natAbs.log2 := pow_dvd_pow 2 (by omega)
  obtain ⟨hlow, hhigh⟩ := abs_lt.1 hsmall
  rcases abs_cases n with ⟨hn, hsign⟩ | ⟨hn, hsign⟩
  · refine ⟨2 ^ n.natAbs.log2, hmul, ?_⟩
    rw [abs_of_nonneg (by omega), abs_of_pos (by omega)]
    omega
  · refine ⟨-2 ^ n.natAbs.log2, hmul.neg_right, ?_⟩
    rw [abs_of_nonpos (by omega), abs_of_neg (by omega)]
    omega

/-- `roundInt` rounds. -/
theorem roundsTo_roundInt (hp : 0 < p) (n : ℤ) : RoundsTo p n (roundInt p n) := by
  refine ⟨representable_roundInt hp n, fun y hy => ?_, fun y hy heq hne => ?_⟩
  · by_cases hdvd : (2 : ℤ) ^ (n.natAbs.log2 + 1 - p) ∣ y
    · exact (roundTo_nearest n hdvd).1
    · obtain ⟨t, ht, hlt⟩ := exists_nearer hp hy hdvd
      exact (roundTo_nearest n ht).1.trans hlt.le
  · by_cases hdvd : (2 : ℤ) ^ (n.natAbs.log2 + 1 - p) ∣ y
    · exact (roundTo_nearest n hdvd).2 heq hne
    · obtain ⟨t, ht, hlt⟩ := exists_nearer hp hy hdvd
      exact absurd heq ((roundTo_nearest n ht).1.trans_lt hlt).ne'

/-- And nothing else is the rounded number. -/
theorem roundsTo_iff (hp : 0 < p) : RoundsTo p n x ↔ x = roundInt p n := by
  constructor
  · exact fun h => h.unique (roundsTo_roundInt hp n)
  · rintro rfl
    exact roundsTo_roundInt hp n

/-- Rounding keeps the order. -/
theorem roundInt_mono (hp : 0 < p) (h : n ≤ m) : roundInt p n ≤ roundInt p m :=
  (roundsTo_roundInt hp n).mono (roundsTo_roundInt hp m) h

/-- Rounding leaves what is representable. -/
theorem roundInt_of_representable (hp : 0 < p) (h : Representable p n) : roundInt p n = n :=
  (roundsTo_roundInt hp n).unique (roundsTo_self h)

end

end Lib
