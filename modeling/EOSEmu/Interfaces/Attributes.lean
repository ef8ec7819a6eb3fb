import EOSEmu.Net.Serialize

/-!
# Attribute values shared by lobbies and sessions

`interfaces/Attributes.h` and `Attributes.cpp`: the tagged value `AttrValue` and its wire encoding.
An SDK enumerator is an `Int`, since the code stores whatever integer the game passed; only its low
byte travels. A `double` is its 64-bit pattern.
-/

namespace EOSEmu

/-- An SDK enumerator or an `EOS_Bool`, as the integer the C type holds. -/
abbrev SdkInt := Int

/-- `EOS_FALSE`. -/
def eosFalse : SdkInt := 0

/-- `EOS_TRUE`. -/
def eosTrue : SdkInt := 1

/-- `B ? EOS_TRUE : EOS_FALSE`. -/
def eosBool (b : Bool) : SdkInt := if b then eosTrue else eosFalse

/-- `static_cast<uint8_t>` of an enumerator. -/
def enumToByte (e : SdkInt) : UInt8 := UInt8.ofNat (e % 256).toNat

/-- The enumerator cast from a received byte. -/
def enumOfByte (b : UInt8) : SdkInt := b.toNat

/-- The enumerator fits in the byte that carries it. -/
def EnumFits (e : SdkInt) : Prop := 0 ≤ e ∧ e < 256

instance (e : SdkInt) : Decidable (EnumFits e) := inferInstanceAs (Decidable (_ ∧ _))

/-- An enumerator that fits survives the two casts. -/
theorem enumOfByte_toByte {e : SdkInt} (h : EnumFits e) : enumOfByte (enumToByte e) = e := by
  obtain ⟨h0, h1⟩ := h
  have hm : e % 256 = e := Int.emod_eq_of_lt h0 h1
  have hn : Int.toNat e < 2 ^ 8 := (Int.toNat_lt h0).2 h1
  rw [enumOfByte, enumToByte, hm, UInt8.toNat_ofNat', Nat.mod_eq_of_lt hn]
  exact Int.toNat_of_nonneg h0

/-- No other enumerator does. -/
theorem enumOfByte_toByte_iff {e : SdkInt} : enumOfByte (enumToByte e) = e ↔ EnumFits e := by
  refine ⟨fun h => ?_, enumOfByte_toByte⟩
  rw [← h]
  exact ⟨Int.natCast_nonneg _, Int.ofNat_lt.2 (enumToByte e).toNat_lt⟩

/-- `EOS_EAttributeType` is one of the four the SDK defines. -/
inductive IsAttributeType : SdkInt → Prop
  | boolean : IsAttributeType 0
  | int64 : IsAttributeType 1
  | double : IsAttributeType 2
  | string : IsAttributeType 3

/-- `AttrValue`: a tag and one field for each type. -/
structure AttrValue where
  type : SdkInt := 0
  int : Int64 := 0
  dbl : UInt64 := 0
  bool : SdkInt := eosFalse
  str : Bytes := []
  deriving DecidableEq, Repr, Inhabited

/-- `ReadAttr`: stores the field the tag selects and leaves the others at their defaults. -/
def readAttr (type : SdkInt) (asInt64 : Int64) (asDouble : UInt64) (asBool : SdkInt)
    (asUtf8 : Option Bytes) : AttrValue :=
  match type with
  | 0 => { type, bool := asBool }
  | 1 => { type, int := asInt64 }
  | 2 => { type, dbl := asDouble }
  | 3 => { type, str := asUtf8.getD [] }
  | _ => { type }

/-- The value is one `ReadAttr` builds from one of the SDK's value types. -/
def AttrValue.Built (v : AttrValue) : Prop :=
  ∃ type i d b s, IsAttributeType type ∧ v = readAttr type i d b s

/-- What `ReadAttr` returns for one of the SDK's types. -/
theorem built_readAttr {type : SdkInt} (ht : IsAttributeType type) (i : Int64) (d : UInt64)
    (b : SdkInt) (s : Option Bytes) : (readAttr type i d b s).Built :=
  ⟨type, i, d, b, s, ht, rfl⟩

/-- Such a value is the one `ReadAttr` builds from its own fields. -/
theorem AttrValue.built_iff {v : AttrValue} : v.Built ↔
    (v.type = 0 ∨ v.type = 1 ∨ v.type = 2 ∨ v.type = 3) ∧
    v = readAttr v.type v.int v.dbl v.bool (some v.str) := by
  constructor
  · rintro ⟨type, i, d, b, s, ht, rfl⟩
    cases ht with
    | boolean | int64 | double | string => exact ⟨by simp [readAttr], rfl⟩
  · rintro ⟨ht, hv⟩
    refine ⟨v.type, v.int, v.dbl, v.bool, some v.str, ?_, hv⟩
    rcases ht with ht | ht | ht | ht <;> rw [ht]
    · exact .boolean
    · exact .int64
    · exact .double
    · exact .string

instance (v : AttrValue) : Decidable v.Built := decidable_of_iff _ AttrValue.built_iff.symm

/-- The value with its boolean normalised to `EOS_TRUE` or `EOS_FALSE`. -/
def AttrValue.normalised (v : AttrValue) : AttrValue :=
  if v.type = 0 then { v with bool := eosBool (v.bool ≠ 0) } else v

/-- Normalising gives a value that `ReadAttr` builds too. -/
theorem AttrValue.Built.normalised {v : AttrValue} (hv : v.Built) : v.normalised.Built := by
  obtain ⟨type, i, d, b, s, ht, rfl⟩ := hv
  cases ht with
  | boolean => exact built_readAttr .boolean i d (eosBool (b ≠ 0)) s
  | int64 => exact built_readAttr .int64 i d b s
  | double => exact built_readAttr .double i d b s
  | string => exact built_readAttr .string i d b s

/-- `WriteAttrWire`. -/
def writeAttrWire (key : Bytes) (v : AttrValue) : Bytes :=
  ByteWriter.str key ++ (ByteWriter.u8 (enumToByte v.type) ++
    match v.type with
    | 0 => ByteWriter.u8 (if v.bool ≠ 0 then 1 else 0)
    | 1 => ByteWriter.i64 v.int
    | 2 => ByteWriter.u64 v.dbl
    | 3 => ByteWriter.str v.str
    | _ => [])

/-- `ReadAttrWire` into a fresh value. -/
def readAttrWire : Reader (Bytes × AttrValue) := do
  let key ← ByteReader.str
  let type := enumOfByte (← ByteReader.u8)
  match type with
  | 0 => return (key, { type, bool := eosBool ((← ByteReader.u8) ≠ 0) })
  | 1 => return (key, { type, int := ← ByteReader.i64 })
  | 2 => return (key, { type, dbl := ← ByteReader.u64 })
  | 3 => return (key, { type, str := ← ByteReader.str })
  | _ => return (key, { type })

/-- The value part of an attribute decodes to the normalised value. -/
theorem AttrValue.Built.decodes {v : AttrValue} (hv : v.Built) {key : Bytes}
    (hlen : (writeAttrWire key v).length < 2 ^ 32) :
    Decodes readAttrWire (writeAttrWire key v) (key, v.normalised) := by
  obtain ⟨type, i, d, b, s, ht, rfl⟩ := hv
  have hkey : key.length < 2 ^ 32 := by
    simp only [writeAttrWire, List.length_append, ByteWriter.str_length] at hlen
    omega
  refine Decodes.bind (Decodes.str hkey) ?_
  refine Decodes.bind (Decodes.u8 _) ?_
  cases ht with
  | boolean =>
      have h := Decodes.map (g := fun c : UInt8 =>
        (key, ({ type := 0, bool := eosBool (decide (c ≠ 0)) } : AttrValue)))
        (Decodes.u8 (if b ≠ 0 then 1 else 0))
      have hb : decide ((if b ≠ 0 then (1 : UInt8) else 0) ≠ 0) = decide (b ≠ 0) := by
        by_cases h0 : b = 0 <;> simp [h0]
      rw [hb] at h
      exact h
  | int64 =>
      exact Decodes.map (g := fun c => (key, ({ type := 1, int := c } : AttrValue)))
        (Decodes.i64 i)
  | double =>
      exact Decodes.map (g := fun c => (key, ({ type := 2, dbl := c } : AttrValue)))
        (Decodes.u64 d)
  | string =>
      have hs : (s.getD []).length < 2 ^ 32 := by
        simp only [writeAttrWire, readAttr, List.length_append, ByteWriter.str_length] at hlen
        omega
      exact Decodes.map (g := fun c => (key, ({ type := 3, str := c } : AttrValue)))
        (Decodes.str hs)

end EOSEmu
