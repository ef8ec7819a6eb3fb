import Mathlib.Data.List.Infix
import EOSEmu.Interfaces.Attributes
import EOSEmu.Lib.Floating

/-!
# Comparing attribute values

`CompareAttr` of `interfaces/Attributes.cpp`, which the searches of lobbies and sessions use. Two
strings are compared as strings, and any other pair of values as doubles, so a string counts as
zero against another type (`mixed_silent_iff`), and integers are compared after they are rounded to
53 bits (`integers_exact_iff`).
-/

namespace EOSEmu

open Lib FloatValue

/-- `EOS_EComparisonOp`: the operators `CompareAttr` names, and any other enumerator. -/
inductive EComparisonOp where
  | equal
  | notEqual
  | greaterThan
  | greaterThanOrEqual
  | lessThan
  | lessThanOrEqual
  | distance
  | anyOf
  | notAnyOf
  | oneOf
  | notOneOf
  | contains
  | other (code : SdkInt)
  deriving DecidableEq, Repr

/-- A `double` from its pattern, and from an integer. -/
def doubleValue (bits : UInt64) : FloatValue := decode 11 52 bits.toNat
def toDouble (n : Int) : FloatValue := ofInt 11 52 n

/-- `Numeric`. -/
def numeric (v : AttrValue) : FloatValue :=
  match v.type with
  | 0 => if v.bool ≠ 0 then toDouble 1 else toDouble 0
  | 1 => toDouble v.int.toInt
  | 2 => doubleValue v.dbl
  | _ => toDouble 0

/-- `CompareAttr`. -/
def compareAttr (stored : AttrValue) (op : EComparisonOp) (query : AttrValue) : Bool :=
  let bothString := stored.type == 3 && query.type == 3
  match op with
  | .equal | .anyOf | .oneOf =>
      if bothString then stored.str == query.str else equals (numeric stored) (numeric query)
  | .notEqual | .notAnyOf | .notOneOf =>
      if bothString then stored.str != query.str else !equals (numeric stored) (numeric query)
  | .greaterThan => !bothString && less (numeric query) (numeric stored)
  | .greaterThanOrEqual => !bothString && atMost (numeric query) (numeric stored)
  | .lessThan => !bothString && less (numeric stored) (numeric query)
  | .lessThanOrEqual => !bothString && atMost (numeric stored) (numeric query)
  | .distance => true
  | .contains => bothString && decide (query.str <:+: stored.str)
  | .other _ => false

/-- What an operator says of two doubles. -/
def EComparisonOp.onDoubles (op : EComparisonOp) (x y : FloatValue) : Bool :=
  match op with
  | .equal | .anyOf | .oneOf => equals x y
  | .notEqual | .notAnyOf | .notOneOf => !equals x y
  | .greaterThan => less y x
  | .greaterThanOrEqual => atMost y x
  | .lessThan => less x y
  | .lessThanOrEqual => atMost x y
  | .distance => true
  | .contains | .other _ => false

/-- But for two strings, values are compared as doubles. -/
theorem compareAttr_eq {stored query : AttrValue} (h : ¬ (stored.type = 3 ∧ query.type = 3))
    (op : EComparisonOp) :
    compareAttr stored op query = op.onDoubles (numeric stored) (numeric query) := by
  have hboth : (stored.type == 3 && query.type == 3) = false := by simpa using h
  unfold compareAttr EComparisonOp.onDoubles
  rw [hboth]
  cases op <;> simp

/-! ## Integers -/

/-- What an equality or ordering operator says of two integers. -/
def EComparisonOp.onIntegers : EComparisonOp → Option (Int → Int → Bool)
  | .equal | .anyOf | .oneOf => some fun a b => decide (a = b)
  | .notEqual | .notAnyOf | .notOneOf => some fun a b => !decide (a = b)
  | .greaterThan => some fun a b => decide (b < a)
  | .greaterThanOrEqual => some fun a b => decide (b ≤ a)
  | .lessThan => some fun a b => decide (a < b)
  | .lessThanOrEqual => some fun a b => decide (a ≤ b)
  | .distance | .contains | .other _ => none

/-- The operator says of the two integers what it says of equal ones. -/
def EComparisonOp.AsIfEqual (a b : Int) : EComparisonOp → Prop
  | .greaterThan | .lessThanOrEqual => a ≤ b
  | .greaterThanOrEqual | .lessThan => b ≤ a
  | _ => a = b

/-- Converted integers are equal if the rounded ones are. -/
theorem equals_toDouble (a b : Int) :
    equals (toDouble a) (toDouble b) = decide (roundInt 53 a = roundInt 53 b) :=
  equals_ofInt

/-- Converted integers are less if the rounded ones are. -/
theorem less_toDouble (a b : Int) :
    less (toDouble a) (toDouble b) = decide (roundInt 53 a < roundInt 53 b) :=
  less_ofInt

/-- Converted integers are at most if the rounded ones are. -/
theorem atMost_toDouble (a b : Int) :
    atMost (toDouble a) (toDouble b) = decide (roundInt 53 a ≤ roundInt 53 b) :=
  atMost_ofInt

/-- An operator tells two converted integers apart as it does the integers, except where they round
to one double. -/
theorem onDoubles_toDouble_iff {op : EComparisonOp} {r : Int → Int → Bool}
    (hop : op.onIntegers = some r) (a b : Int) : op.onDoubles (toDouble a) (toDouble b) = r a b ↔
    (roundInt 53 a = roundInt 53 b → op.AsIfEqual a b) := by
  have hle : a ≤ b → roundInt 53 a ≤ roundInt 53 b := roundInt_mono (by norm_num)
  have hge : b ≤ a → roundInt 53 b ≤ roundInt 53 a := roundInt_mono (by norm_num)
  cases op <;> cases hop <;>
    simp only [EComparisonOp.onDoubles, EComparisonOp.AsIfEqual, equals_toDouble, less_toDouble,
      atMost_toDouble, Bool.not_inj_iff, decide_eq_decide]
  all_goals omega

/-- An integer counts as its conversion. -/
theorem numeric_int {v : AttrValue} (hv : v.type = 1) : numeric v = toDouble v.int.toInt := by
  rw [numeric, hv]
  rfl

/-- `CompareAttr` compares two integers exactly, except where both round to one double and the
operator tells them apart. -/
theorem integers_exact_iff (stored query : AttrValue) (op : EComparisonOp) (r : Int → Int → Bool)
    (hs : stored.type = 1) (hq : query.type = 1) (hop : op.onIntegers = some r) :
    compareAttr stored op query = r stored.int.toInt query.int.toInt ↔
      ∀ x, RoundsTo 53 stored.int.toInt x → RoundsTo 53 query.int.toInt x →
        op.AsIfEqual stored.int.toInt query.int.toInt := by
  rw [compareAttr_eq (by simp [hs]), numeric_int hs, numeric_int hq, onDoubles_toDouble_iff hop]
  simp only [roundsTo_iff (show 0 < 53 by norm_num)]
  constructor
  · rintro h x rfl heq
    exact h heq
  · exact fun h heq => h _ rfl heq

/-- Two neighbours that 53 bits hold. -/
theorem integers_exact_sample : compareAttr { type := 1, int := 7 } .lessThan
    { type := 1, int := 8 } =
    decide ((7 : Int64).toInt < (8 : Int64).toInt) := by
  refine (integers_exact_iff { type := 1, int := 7 } { type := 1, int := 8 } .lessThan _ rfl rfl
    rfl).2 fun x h₁ h₂ => ?_
  rw [roundsTo_iff (by norm_num)] at h₁ h₂
  exact absurd (h₁.symm.trans h₂) (by decide)

/-- Beyond 53 bits two neighbours compare as equal. -/
theorem not_integers_exact :
    ¬ ∀ (stored query : AttrValue) (op : EComparisonOp) (r : Int → Int → Bool), stored.type = 1 →
      query.type = 1 → op.onIntegers = some r → compareAttr stored op query =
        r stored.int.toInt query.int.toInt := by
  intro h
  have hequal := h { type := 1, int := 76561198000000001 } { type := 1, int := 76561198000000000 }
    .equal _ rfl rfl rfl
  revert hequal
  decide +kernel

/-! ## Strings against other types -/

/-- The sign of what a value is compared as; a NaN has none. -/
def AttrValue.sign (v : AttrValue) : Option Ordering :=
  match v.type with
  | 0 => some (if v.bool ≠ 0 then .gt else .eq)
  | 1 => some (orderInt v.int.toInt 0)
  | 2 => signBits 11 52 v.dbl.toNat
  | _ => some .eq

/-- The sign of a value is the one of what it counts as. -/
theorem sign_numeric (v : AttrValue) : FloatValue.sign (numeric v) = v.sign := by
  unfold numeric AttrValue.sign
  split
  · split <;> exact sign_ofInt
  · exact sign_ofInt
  · exact sign_decode (by norm_num)
  · exact sign_ofInt

/-- The operators that report a match. -/
inductive EComparisonOp.Reports : EComparisonOp → Prop
  | equal : Reports .equal
  | anyOf : Reports .anyOf
  | oneOf : Reports .oneOf
  | greaterThan : Reports .greaterThan
  | greaterThanOrEqual : Reports .greaterThanOrEqual
  | lessThan : Reports .lessThan
  | lessThanOrEqual : Reports .lessThanOrEqual

/-- The signs of the values that an operator matches with a string. -/
def EComparisonOp.MatchesString (x : Ordering) : EComparisonOp → Prop
  | .equal | .anyOf | .oneOf => x = .eq
  | .greaterThan => x = .gt
  | .greaterThanOrEqual => x = .gt ∨ x = .eq
  | .lessThan => x = .lt
  | .lessThanOrEqual => x = .lt ∨ x = .eq
  | _ => False

/-- The operator with its operands exchanged. -/
def EComparisonOp.mirrored : EComparisonOp → EComparisonOp
  | .greaterThan => .lessThan
  | .greaterThanOrEqual => .lessThanOrEqual
  | .lessThan => .greaterThan
  | .lessThanOrEqual => .greaterThanOrEqual
  | op => op

/-- Mirroring keeps an operator one that reports. -/
theorem EComparisonOp.Reports.mirrored {op : EComparisonOp} (h : op.Reports) :
    op.mirrored.Reports := by
  cases h <;> constructor

/-- A comparison read from the other side. -/
theorem onDoubles_mirrored (op : EComparisonOp) (x y : FloatValue) :
    op.onDoubles x y = op.mirrored.onDoubles y x := by
  cases op <;> simp [EComparisonOp.onDoubles, EComparisonOp.mirrored, equals_comm x]

/-- What a string's zero is compared with, an operator matches by its sign. -/
theorem onDoubles_zero_iff {op : EComparisonOp} (hop : op.Reports) (x : FloatValue) :
    op.onDoubles x (toDouble 0) = true ↔ ∃ s, FloatValue.sign x = some s ∧ op.MatchesString s := by
  have hzero : order (.finite 0) x = (FloatValue.sign x).map Ordering.swap :=
    order_swap x (.finite 0)
  have hsign : order x (.finite 0) = FloatValue.sign x := rfl
  rw [show toDouble 0 = .finite 0 from ofInt_zero]
  generalize FloatValue.sign x = o at hzero hsign
  cases hop <;> simp only [EComparisonOp.onDoubles, EComparisonOp.MatchesString, equals, less,
    atMost, hzero, hsign] <;>
    rcases o with _ | _ | _ | _ <;> simp

/-- A string counts as zero. -/
theorem numeric_string {v : AttrValue} (hv : v.type = 3) : numeric v = toDouble 0 := by
  rw [numeric, hv]
  rfl

/-- A string and a value of another type do not match, except where the operator holds between the
value and zero. -/
theorem mixed_silent_iff (stored query : AttrValue) (op : EComparisonOp)
    (hmixed : ¬ (stored.type = 3 ↔ query.type = 3)) (hop : op.Reports) :
      compareAttr stored op query = false ↔
      (query.type = 3 → ∀ x, stored.sign = some x → ¬ op.MatchesString x) ∧
        (stored.type = 3 → ∀ x, query.sign = some x → ¬ op.mirrored.MatchesString x) := by
  rw [compareAttr_eq (by tauto), Bool.eq_false_iff, Ne]
  by_cases hq : query.type = 3
  · have hs : stored.type ≠ 3 := by tauto
    rw [numeric_string hq, onDoubles_zero_iff hop, sign_numeric]
    simp [hq, hs]
  · have hs : stored.type = 3 := by tauto
    rw [onDoubles_mirrored, numeric_string hs, onDoubles_zero_iff hop.mirrored, sign_numeric]
    simp [hq, hs]

/-- A positive level is no match for a name. -/
theorem mixed_silent_sample :
    compareAttr { type := 3, str := str "ranked" } .equal { type := 1, int := 7 } = false := by
  refine (mixed_silent_iff { type := 3, str := str "ranked" } { type := 1, int := 7 } .equal
    (by decide) .equal).2 ⟨fun hq => absurd hq (by decide), fun _ x hx hmatch => ?_⟩
  cases hx
  have hzero : orderInt (7 : Int64).toInt 0 = .eq := hmatch
  exact absurd hzero (by decide)

/-- A string attribute is found by a search for zero. -/
theorem not_mixed_silent : ¬ ∀ (stored query : AttrValue) (op : EComparisonOp),
    ¬ (stored.type = 3 ↔ query.type = 3) → op.Reports → compareAttr stored op query = false := by
  intro h
  have hequal := h { type := 3, str := str "ranked" } { type := 1, int := 0 } .equal
    (by decide) .equal
  revert hequal
  decide +kernel

end EOSEmu
