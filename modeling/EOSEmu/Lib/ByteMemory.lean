import Mathlib.Order.CompletePartialOrder
import Mathlib.Data.Set.Function
import Mathlib.Order.Interval.Set.Basic
import Mathlib.Order.Interval.Set.Disjoint
import Mathlib.Tactic.Ring

/-!
# Addresses and the bytes behind them

A word is rounded up to a power of two by adding and masking (`alignUp`): the result is a multiple
of it in any case, and the next one unless the addition wraps. A memory gives every address a byte.
A write changes an interval of addresses, and a number that is stored byte by byte is loaded again
(`loadNat_storeNat`) for as long as nothing is written on it (`loadNat_congr`).
-/

namespace Lib

/-! ## Rounding up -/

section Align
variable {w k : ℕ} {x a : BitVec w}

/-- `(x + (a - 1)) & ~(a - 1)`. -/
def alignUp (x a : BitVec w) : BitVec w := (x + (a - 1)) &&& ~~~(a - 1)

/-- What a mask removes is what its complement keeps. -/
theorem toNat_and_not (x m : BitVec w) : (x &&& ~~~m).toNat = x.toNat - (x &&& m).toNat := by
  have hdisjoint : (x &&& ~~~m) &&& (x &&& m) = 0 := by
    ext i
    simp +contextual
  have hsum : (x &&& ~~~m) + (x &&& m) = x := by
    rw [BitVec.add_eq_or_of_and_eq_zero _ _ hdisjoint, ← BitVec.and_or_distrib_left,
      BitVec.not_or_self, BitVec.and_allOnes]
  have hle : x &&& m ≤ x := by
    rw [BitVec.le_def, BitVec.toNat_and]
    exact Nat.and_le_left
  rw [← BitVec.toNat_sub_of_le hle, BitVec.eq_sub_iff_add_eq.2 hsum]

/-- The mask of a power of two. -/
theorem toNat_pred (ha : a.toNat = 2 ^ k) : (a - 1).toNat = 2 ^ k - 1 := by
  have hone : 1 ≤ a.toNat := ha ▸ Nat.one_le_two_pow
  have hw : 1 < 2 ^ w := hone.trans_lt a.isLt
  have hword : (1 : BitVec w).toNat = 1 := Nat.mod_eq_of_lt hw
  rw [BitVec.toNat_sub_of_le (by rwa [BitVec.le_def, hword]), ha, hword]

/-- The aligned address as a number. -/
theorem toNat_alignUp (ha : a.toNat = 2 ^ k) :
    (alignUp x a).toNat = (x + (a - 1)).toNat - (x + (a - 1)).toNat % 2 ^ k := by
  rw [alignUp, toNat_and_not, BitVec.toNat_and _ (a - 1), toNat_pred ha,
    Nat.and_two_pow_sub_one_eq_mod]

/-- The result is a multiple, even where the addition wraps. -/
theorem dvd_alignUp (x : BitVec w) (ha : a.toNat = 2 ^ k) : 2 ^ k ∣ (alignUp x a).toNat := by
  rw [toNat_alignUp ha]
  exact Nat.dvd_sub_mod _

/-- It is the next one where the addition does not wrap. -/
theorem alignUp_bounds (ha : a.toNat = 2 ^ k) (hx : x.toNat + 2 ^ k ≤ 2 ^ w) :
    x.toNat ≤ (alignUp x a).toNat ∧ (alignUp x a).toNat < x.toNat + 2 ^ k := by
  have hpos : 0 < 2 ^ k := Nat.two_pow_pos k
  have hsum : (x + (a - 1)).toNat = x.toNat + (2 ^ k - 1) := by
    rw [BitVec.toNat_add, toNat_pred ha, Nat.mod_eq_of_lt (by omega)]
  have hmod := Nat.mod_lt (x.toNat + (2 ^ k - 1)) hpos
  rw [toNat_alignUp ha, hsum]
  omega

end Align

/-! ## Memories -/

/-- A byte at every address. -/
abbrev ByteMemory := ℕ → UInt8

namespace ByteMemory

/-- Writes `n` bytes from an address on. -/
def write (m : ByteMemory) (start n : ℕ) (bytes : ℕ → UInt8) : ByteMemory :=
  fun x => if start ≤ x ∧ x < start + n then bytes (x - start) else m x

/-- The byte of a number, from the lowest on. -/
def byteAt (v i : ℕ) : UInt8 := UInt8.ofNat (v / 256 ^ i)

/-- Stores a number in `n` bytes. -/
def storeNat (m : ByteMemory) (start n v : ℕ) : ByteMemory := m.write start n (byteAt v)

/-- Loads a number from `n` bytes. -/
def loadNat (m : ByteMemory) (start : ℕ) : ℕ → ℕ
  | 0 => 0
  | n + 1 => (m start).toNat + 256 * loadNat m (start + 1) n

variable {m m' : ByteMemory} {start n v : ℕ} {bytes : ℕ → UInt8}

/-- A write changes nothing apart from its interval. -/
theorem eqOn_write {X : Set ℕ} (h : Disjoint X (Set.Ico start (start + n))) :
    Set.EqOn (m.write start n bytes) m X :=
  fun _ hx => if_neg (Set.disjoint_left.1 h hx)

/-- A written byte is read back. -/
theorem write_apply {i : ℕ} (hi : i < n) : m.write start n bytes (start + i) = bytes i := by
  rw [write, if_pos ⟨Nat.le_add_right _ _, Nat.add_lt_add_left hi _⟩, Nat.add_sub_cancel_left]

/-- What is loaded depends on its interval only. -/
theorem loadNat_congr (h : Set.EqOn m m' (Set.Ico start (start + n))) :
    m.loadNat start n = m'.loadNat start n := by
  induction n generalizing start with
  | zero => rfl
  | succ n ih =>
      have hfirst : m start = m' start := h ⟨le_rfl, by omega⟩
      have hrest : Set.EqOn m m' (Set.Ico (start + 1) (start + 1 + n)) :=
        h.mono (Set.Ico_subset_Ico (by omega) (by omega))
      rw [loadNat, loadNat, hfirst, ih hrest]

/-- A number is loaded from its bytes, modulo what they hold. -/
theorem loadNat_bytes (h : ∀ i < n, m (start + i) = byteAt v i) :
    m.loadNat start n = v % 256 ^ n := by
  induction n generalizing start v with
  | zero => simp [loadNat, Nat.mod_one]
  | succ n ih =>
      have hfirst : (m start).toNat = v % 256 := by
        rw [← Nat.add_zero start, h 0 (Nat.succ_pos n), byteAt, pow_zero, Nat.div_one]
        exact UInt8.toNat_ofNat'
      have hrest : ∀ i < n, m (start + 1 + i) = byteAt (v / 256) i := by
        intro i hi
        rw [Nat.add_assoc, Nat.add_comm 1, h (i + 1) (Nat.succ_lt_succ hi), byteAt, byteAt,
          Nat.div_div_eq_div_mul, pow_succ']
      rw [loadNat, hfirst, ih hrest, pow_succ', Nat.mod_mul]

/-- What was stored is loaded. -/
theorem loadNat_storeNat (hv : v < 256 ^ n) : (m.storeNat start n v).loadNat start n = v := by
  rw [storeNat, loadNat_bytes fun i hi => write_apply hi, Nat.mod_eq_of_lt hv]

end ByteMemory

end Lib
