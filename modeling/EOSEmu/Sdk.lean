import Mathlib.Data.List.Lex
import EOSEmu.Lib.Dict

/-!
# SDK values and the vocabulary shared by the interfaces

The EOS SDK headers are not part of the repository; this module fixes the few enumerators and
limits of them that the modelled functions read. Strings are byte strings. An
`EOS_ProductUserId` is a pointer to an interned string (`Ids::InternProduct`), one pointer per
string and null for the empty one, so it is modelled by that string.
-/

namespace EOSEmu

/-- A `std::string` or a byte buffer. -/
abbrev Bytes := List UInt8

-- shortcuts for the comparisons of `std::string`
instance : LawfulBEq Bytes := inferInstance
instance : IsTrans Bytes (· ≤ ·) := inferInstance
instance : Std.Antisymm fun x y : Bytes => x ≤ y := inferInstance
instance : Std.Total fun x y : Bytes => x ≤ y := inferInstance

/-- The bytes of an ASCII literal. -/
def str (s : String) : Bytes := s.toList.map fun c => UInt8.ofNat c.toNat

/-- The decimal digits `snprintf` prints for `%llu`. -/
def decimal (n : UInt64) : Bytes := (Nat.toDigits 10 n.toNat).map fun c => UInt8.ofNat c.toNat

/-- The byte of a decimal digit. -/
theorem digit_byte {n : ℕ} {c : Char} (h : c ∈ Nat.toDigits 10 n) :
    (UInt8.ofNat c.toNat).toNat = c.toNat ∧ 48 ≤ c.toNat ∧ c.toNat ≤ 57 := by
  have hdigit := Nat.isDigit_of_mem_toDigits (by decide) (by decide) h
  simp only [Char.isDigit, ge_iff_le, Bool.and_eq_true, decide_eq_true_eq] at hdigit
  obtain ⟨hlo, hhi⟩ := hdigit
  have hlo' : 48 ≤ c.toNat := hlo
  have hhi' : c.toNat ≤ 57 := hhi
  refine ⟨?_, hlo', hhi'⟩
  rw [UInt8.toNat_ofNat']
  omega

/-- A number is printed in digits only. -/
theorem notMem_decimal {b : UInt8} (hb : b.toNat < 48 ∨ 57 < b.toNat) (n : UInt64) :
    b ∉ decimal n := by
  intro h
  obtain ⟨c, hc, rfl⟩ := List.mem_map.1 h
  obtain ⟨htoNat, hlo, hhi⟩ := digit_byte hc
  omega

/-- The digits are read off the bytes again. -/
theorem digits_of_decimal (n : UInt64) :
    (decimal n).map (fun b => Char.ofNat b.toNat) = Nat.toDigits 10 n.toNat := by
  unfold decimal
  rw [List.map_map]
  conv_rhs => rw [← List.map_id (Nat.toDigits 10 n.toNat)]
  refine List.map_congr_left fun c hc => ?_
  show Char.ofNat (UInt8.ofNat c.toNat).toNat = c
  rw [(digit_byte hc).1, Char.ofNat_toNat]

/-- A number is read off its decimal digits. -/
theorem decimal_inj {m n : UInt64} (h : decimal m = decimal n) : m = n := by
  have hdigits : Nat.toDigits 10 m.toNat = Nat.toDigits 10 n.toNat := by
    rw [← digits_of_decimal, ← digits_of_decimal, h]
  refine UInt64.toNat_inj.1 ?_
  calc
    m.toNat = Nat.ofDigitChars 10 (Nat.toDigits 10 m.toNat) 0 := Nat.ofDigitChars_ten_toDigits.symm
    _ = Nat.ofDigitChars 10 (Nat.toDigits 10 n.toNat) 0 := by rw [hdigits]
    _ = n.toNat := Nat.ofDigitChars_ten_toDigits

/-- An `EOS_ProductUserId`: the interned string, the empty string standing for null. -/
abbrev ProductUserId := Bytes

/-- A `std::chrono::steady_clock::time_point`, in nanoseconds since the clock's epoch. -/
abbrev TimePoint := Int

/-- Milliseconds as clock ticks. -/
def milliseconds (ms : Int) : Int := ms * 1000000

/-- `EOS_EResult`, the values the modelled functions return. -/
inductive EResult where
  | success
  | noConnection
  | accessDenied
  | invalidParameters
  | notFound
  | limitExceeded
  | incompatibleVersion
  | lobbyNotOwner
  | alreadyConfigured
  | notConfigured
  | unexpectedError
  | canceled
  | filenameInvalid
  | filenameLengthInvalid
  | fileSizeTooLarge
  | userErrorFromDataCallback
  deriving DecidableEq, Repr

/-- `EOS_EPacketReliability`. -/
inductive EPacketReliability where
  | unreliableUnordered
  | reliableUnordered
  | reliableOrdered
  deriving DecidableEq, Repr

/-- `static_cast<uint8_t>(Reliability)`. -/
def EPacketReliability.toByte : EPacketReliability → UInt8
  | .unreliableUnordered => 0
  | .reliableUnordered => 1
  | .reliableOrdered => 2

/-- `EOS_EConnectionEstablishedType`. -/
inductive EConnectionEstablishedType where
  | newConnection
  | reconnection
  deriving DecidableEq, Repr

/-- `EOS_EConnectionClosedReason`, the values the modelled functions report. -/
inductive EConnectionClosedReason where
  | closedByPeer
  | connectionIgnored
  | timedOut
  deriving DecidableEq, Repr

/-- `EOS_P2P_MAX_PACKET_SIZE`. -/
def maxPacketSize : ℕ := 1170

/-- `EOS_P2P_SOCKETID_SOCKETNAME_SIZE`: `SocketName` is a `char[33]`. -/
def socketNameSize : ℕ := 33

/-- `EOS_P2P_SENDPACKET_API_LATEST`. -/
def sendPacketApiLatest : Int := 3

/-- `EOS_P2P_RECEIVEPACKET_API_LATEST` and `EOS_P2P_GETNEXTRECEIVEDPACKETSIZE_API_LATEST`. -/
def receivePacketApiLatest : Int := 2

/-- `VersionInRange` of `interfaces/Common.h`. -/
def versionInRange (v latest : Int) : Bool := 1 ≤ v && v ≤ latest

/-- `HasField` of `interfaces/Common.h`. -/
def hasField (v introducedAt : Int) : Bool := introducedAt ≤ v

end EOSEmu
