import Mathlib.Data.Nat.Bitwise
import EOSEmu.P2P.State

/-!
# Sequence numbers on the wire

A sequence number is 64 bits in memory and 32 on the wire. `extend32` recovers it from the
receiving side's watermark when the two are less than `2 ^ 31` apart, but for the last `2 ^ 32`
numbers (`extend32_eq_iff`). An ack adds a 32-bit selective mask, built by `sackOf` and read by
`sackBit`.
-/

namespace EOSEmu

/-! ## `Extend32` -/

/-- `Extend32`, its sums taken modulo `2 ^ 64` as the code's are. -/
def extend32 (ref : ℕ) (low : UInt32) : ℕ :=
  let candidate := ref / 2 ^ 32 * 2 ^ 32 + low.toNat
  if (candidate + 2 ^ 31) % 2 ^ 64 < ref then (candidate + 2 ^ 32) % 2 ^ 64
  else if (ref + 2 ^ 31) % 2 ^ 64 ≤ candidate ∧ 2 ^ 32 ≤ candidate then candidate - 2 ^ 32
  else candidate

/-- The number `v` is less than `2 ^ 31` away from the watermark. -/
def Near (ref v : ℕ) : Prop := v < ref + 2 ^ 31 ∧ ref < v + 2 ^ 31

instance (ref v : ℕ) : Decidable (Near ref v) := inferInstanceAs (Decidable (_ ∧ _))

/-- The candidate has the watermark's high half and the number's low half. -/
theorem extend32_ofNat (ref v : ℕ) : ∃ candidate, ref / 2 ^ 32 * 2 ^ 32 + v % 2 ^ 32 = candidate ∧
    extend32 ref (UInt32.ofNat v) =
      if (candidate + 2 ^ 31) % 2 ^ 64 < ref then (candidate + 2 ^ 32) % 2 ^ 64
      else if (ref + 2 ^ 31) % 2 ^ 64 ≤ candidate ∧ 2 ^ 32 ≤ candidate then candidate - 2 ^ 32
      else candidate := by
  have hlow : (UInt32.ofNat v).toNat = v % 2 ^ 32 := by simp
  exact ⟨_, rfl, by rw [extend32, hlow]⟩

/-- A number near the watermark is recovered from its low 32 bits, unless the watermark is so close
to the end of its range that the code's sums wrap. -/
theorem extend32_eq {ref v : ℕ} (h : Near ref v) (href : ref < 2 ^ 64 - 2 ^ 32) :
    extend32 ref (UInt32.ofNat v) = v := by
  obtain ⟨hlo, hhi⟩ := h
  obtain ⟨candidate, hc, heq⟩ := extend32_ofNat ref v
  rw [heq]
  have hcle : candidate + 2 ^ 32 < 2 ^ 64 := by omega
  have hdown : (candidate + 2 ^ 31) % 2 ^ 64 = candidate + 2 ^ 31 := by omega
  have hup : (candidate + 2 ^ 32) % 2 ^ 64 = candidate + 2 ^ 32 := by omega
  have hmid : (ref + 2 ^ 31) % 2 ^ 64 = ref + 2 ^ 31 := by omega
  simp only [hdown, hup, hmid]
  split
  · omega
  · split <;> omega

/-- Where the sums wrap, the number comes out as itself or as a smaller one. -/
theorem extend32_wrapped {ref v : ℕ} (h : Near ref v) (href : 2 ^ 64 - 2 ^ 32 ≤ ref) :
    extend32 ref (UInt32.ofNat v) = v ∨ extend32 ref (UInt32.ofNat v) + 2 ^ 32 ≤ v := by
  obtain ⟨hlo, hhi⟩ := h
  obtain ⟨candidate, hc, heq⟩ := extend32_ofNat ref v
  rw [heq]
  have hmod : candidate % 2 ^ 32 = v % 2 ^ 32 := by omega
  split
  · have hup : (candidate + 2 ^ 32) % 2 ^ 64 % 2 ^ 32 = v % 2 ^ 32 := by omega
    have hlt : (candidate + 2 ^ 32) % 2 ^ 64 < 2 ^ 64 := Nat.mod_lt _ (by decide)
    omega
  · split <;> omega

/-- Near the watermark a number is never taken for a larger one. -/
theorem extend32_near {ref v : ℕ} (h : Near ref v) :
    extend32 ref (UInt32.ofNat v) = v ∨ extend32 ref (UInt32.ofNat v) + 2 ^ 32 ≤ v := by
  rcases Nat.lt_or_ge ref (2 ^ 64 - 2 ^ 32) with href | href
  · exact .inl (extend32_eq h href)
  · exact extend32_wrapped h href

/-- Where exactly a number near the watermark is recovered: the sums must not wrap, so from the
last `2 ^ 32` numbers on only the ones of the lower half of that block are, against a watermark of
that half. -/
theorem extend32_eq_iff {ref v : ℕ} (h : Near ref v) (href : ref < 2 ^ 64) (hv : v < 2 ^ 64) :
    extend32 ref (UInt32.ofNat v) = v ↔
      ref < 2 ^ 64 - 2 ^ 32 ∨ (2 ^ 64 - 2 ^ 32 ≤ v ∧ v < 2 ^ 64 - 2 ^ 31 ∧
      ref < 2 ^ 64 - 2 ^ 31) := by
  rcases Nat.lt_or_ge ref (2 ^ 64 - 2 ^ 32) with hlow | htop
  · exact ⟨fun _ => .inl hlow, fun _ => extend32_eq h hlow⟩
  obtain ⟨hlo, hhi⟩ := h
  obtain ⟨candidate, hc, heq⟩ := extend32_ofNat ref v
  rw [heq]
  split
  · omega
  · split <;> omega

/-- **Sequence extension**: within `2 ^ 31` of a watermark up to `2 ^ 64 - 2 ^ 32` a number is
recovered from its low 32 bits, except the ones below the last watermark of that range, for which
`Candidate + 0x80000000` wraps. -/
theorem extend32_exact_iff {ref v : ℕ} (h : Near ref v) (href : ref ≤ 2 ^ 64 - 2 ^ 32) :
    extend32 ref (UInt32.ofNat v) = v ↔ ref < 2 ^ 64 - 2 ^ 32 ∨ ref ≤ v := by
  have hv : v < 2 ^ 64 - 2 ^ 31 := by
    have := h.1
    omega
  rw [extend32_eq_iff h (by omega) (by omega)]
  omega

/-- Near the end of the 64 bits a value close to the reference is found. -/
theorem extend32_exact_sample : extend32 (2 ^ 64 - 2 ^ 32) (UInt32.ofNat (2 ^ 64 - 2 ^ 32 + 1)) =
    2 ^ 64 - 2 ^ 32 + 1 :=
  (extend32_exact_iff (by decide) (by decide)).2 (.inr (by decide))

/-- The number before the last watermark of the range is taken for the last one below `2 ^ 32`. -/
theorem not_extend32_exact : ¬ ∀ ref v, Near ref v → ref ≤ 2 ^ 64 - 2 ^ 32 →
    extend32 ref (UInt32.ofNat v) = v := by
  intro h
  have hwrapped : extend32 (2 ^ 64 - 2 ^ 32) (UInt32.ofNat (2 ^ 64 - 2 ^ 32 - 1)) =
    2 ^ 32 - 1 := by decide +kernel
  have hexact := h (2 ^ 64 - 2 ^ 32) (2 ^ 64 - 2 ^ 32 - 1) (by decide) (Nat.le_refl _)
  rw [hwrapped] at hexact
  omega

/-! ## The selective mask -/

/-- `Sack & (1u << i)`. -/
def sackBit (sack : UInt32) (i : ℕ) : Bool := (sack &&& (1 <<< UInt32.ofNat i)) != 0

/-- The mask whose bit `i` is set when `p i` holds. -/
def sackOf (p : ℕ → Bool) : UInt32 :=
  (List.range 32).foldl (fun sack i => if p i then sack ||| (1 <<< UInt32.ofNat i) else sack) 0

/-- `1u << i`. -/
theorem toNat_one_shiftLeft {i : ℕ} (hi : i < 32) :
    ((1 : UInt32) <<< UInt32.ofNat i).toNat = 2 ^ i := by
  have hmod : (UInt32.ofNat i).toNat = i := by
    rw [UInt32.toNat_ofNat']
    exact Nat.mod_eq_of_lt (Nat.lt_trans hi (by decide))
  have hlt : 2 ^ i < 2 ^ 32 := Nat.pow_lt_pow_right (by decide) hi
  rw [UInt32.toNat_shiftLeft, hmod, Nat.mod_eq_of_lt hi]
  simpa [Nat.shiftLeft_eq] using hlt

/-- A bit of the selective ack is a bit of its number. -/
theorem sackBit_eq_testBit (sack : UInt32) {i : ℕ} (hi : i < 32) :
    sackBit sack i = sack.toNat.testBit i := by
  rw [sackBit, Bool.eq_iff_iff, bne_iff_ne, ne_eq, ← UInt32.toNat_inj, UInt32.toNat_and,
    toNat_one_shiftLeft hi, Nat.and_two_pow]
  cases sack.toNat.testBit i <;> simp

/-- Setting one bit of a mask. -/
theorem sackBit_or (sack : UInt32) {i j : ℕ} (hi : i < 32) (hj : j < 32) :
    sackBit (sack ||| (1 <<< UInt32.ofNat i)) j = (sackBit sack j || decide (i = j)) := by
  rw [sackBit_eq_testBit _ hj, sackBit_eq_testBit _ hj, UInt32.toNat_or, Nat.testBit_or,
    toNat_one_shiftLeft hi, Nat.testBit_two_pow]

/-- The bits the loop over `l` sets. -/
theorem sackBit_foldl (p : ℕ → Bool) {j : ℕ} (hj : j < 32) :
    ∀ (l : List ℕ) (sack : UInt32), (∀ i ∈ l, i < 32) →
      sackBit (l.foldl (fun sack i => if p i then sack ||| (1 <<< UInt32.ofNat i) else sack) sack)
        j = (sackBit sack j || (decide (j ∈ l) && p j))
  | [], sack, _ => by simp
  | i :: l, sack, hl => by
      have ih := sackBit_foldl p hj l
      rw [List.foldl_cons, ih _ fun k hk => hl k (List.mem_cons_of_mem _ hk)]
      by_cases hp : p i
      · rw [if_pos hp, sackBit_or _ (hl i List.mem_cons_self) hj]
        by_cases hij : i = j
        · subst hij; simp [hp]
        · simp [hij, Ne.symm hij]
      · rw [if_neg hp]
        by_cases hij : i = j
        · subst hij; simp [hp]
        · simp [Ne.symm hij]

/-- The mask has exactly the bits of its predicate. -/
theorem sackBit_sackOf (p : ℕ → Bool) {i : ℕ} (hi : i < 32) : sackBit (sackOf p) i = p i := by
  have h0 : sackBit 0 i = false := by rw [sackBit_eq_testBit _ hi]; simp
  rw [sackOf, sackBit_foldl p hi _ _ fun k hk => List.mem_range.1 hk, h0]
  simp [hi]

/-- The sequence numbers an ack with these numbers acknowledges: everything up to `ackSeq`, and
`ackSeq + 2 + i` for every bit `i` of the mask. -/
def Covers (ackSeq : ℕ) (sack : UInt32) (k : ℕ) : Prop :=
  k ≤ ackSeq ∨ ∃ i < 32, sackBit sack i = true ∧ k = ackSeq + 2 + i

/-- An ack whose number was taken for itself or for one far below covers no more than it says. -/
theorem Covers.of_near {a b : ℕ} {sack : UInt32} {k : ℕ} (hab : a = b ∨ a + 2 ^ 32 ≤ b)
    (h : Covers a sack k) : Covers b sack k := by
  rcases hab with rfl | hab
  · exact h
  · left
    rcases h with h | ⟨i, hi, _, rfl⟩ <;> omega

end EOSEmu
