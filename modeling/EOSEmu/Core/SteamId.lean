import Mathlib.Data.Nat.Bitwise
import Mathlib.Tactic.Ring
import EOSEmu.Net.Serialize

/-!
# Steam session tickets

`core/SteamId.cpp` recovers the SteamID64 of the local user from a Steam session ticket, which the
game passes as a hexadecimal string. All accesses to the string and to the decoded bytes are
checked here: `none` is an access out of range. `ticket_parsed` says which strings are tickets and
that the parser makes no such access on any string.
-/

namespace EOSEmu

/-- A C string, without its terminator. -/
structure CString where
  chars : Bytes
  noNul : (0 : UInt8) ∉ chars

namespace CString

/-- The memory of the string. -/
def memory (s : CString) : Bytes := s.chars ++ [0]

/-- `strlen`. -/
def strlen (s : CString) : ℕ := (s.memory.takeWhile (· ≠ 0)).length

@[simp] theorem strlen_eq (s : CString) : s.strlen = s.chars.length := by
  have hchars : ∀ c ∈ s.chars, (decide (c ≠ 0)) = true := fun c hc =>
    decide_eq_true fun h => s.noNul (h ▸ hc)
  rw [strlen, memory, List.takeWhile_append_of_pos hchars]
  simp

end CString

/-! ## `SteamId` -/

/-- `SteamId::IsIndividualId`. -/
def isIndividualId (id : UInt64) : Bool :=
  id >>> 56 == 1 && (id >>> 52) &&& 0xF == 1 && id &&& 0xFFFFFFFF != 0

/-- `HexNibble`, with `none` for its -1. -/
def hexNibble (c : UInt8) : Option UInt8 :=
  if 0x30 ≤ c ∧ c ≤ 0x39 then some (c - 0x30)
  else if 0x61 ≤ c ∧ c ≤ 0x66 then some (c - 0x61 + 10)
  else if 0x41 ≤ c ∧ c ≤ 0x46 then some (c - 0x41 + 10)
  else none

/-- `ReadLE32` at an offset. -/
def readLE32 (p : Bytes) (i : ℕ) : Option UInt32 := do
  let b0 ← p[i]?
  let b1 ← p[i + 1]?
  let b2 ← p[i + 2]?
  let b3 ← p[i + 3]?
  return b0.toUInt32 ||| (b1.toUInt32 <<< 8) ||| (b2.toUInt32 <<< 16) ||| (b3.toUInt32 <<< 24)

/-- `ReadLE64` at an offset. -/
def readLE64 (p : Bytes) (i : ℕ) : Option UInt64 := do
  let low ← readLE32 p i
  let high ← readLE32 p (i + 4)
  return low.toUInt64 ||| (high.toUInt64 <<< 32)

/-- The loop of `FromSessionTicketHex` from the pair `i` on, for `n` more pairs. The result is
`none` where a character is not a digit. -/
def fillBytes (token : CString) : ℕ → ℕ → Option (Option Bytes)
  | _, 0 => some (some [])
  | i, n + 1 => do
      let high ← token.memory[2 * i]?
      let low ← token.memory[2 * i + 1]?
      match hexNibble high, hexNibble low with
      | some h, some l => do
          let rest ← fillBytes token (i + 1) n
          return rest.map fun bytes => ((h <<< 4) ||| l) :: bytes
      | _, _ => return none

/-- `SteamId::FromSessionTicketHex`. -/
def fromSessionTicketHex : Option CString → Option UInt64
  | none => some 0
  | some token =>
      let hexLen := token.strlen
      if hexLen < 48 ∨ hexLen % 2 ≠ 0 then some 0
      else do
        match ← fillBytes token 0 (hexLen / 2) with
        | none => return 0
        | some bytes =>
            if (← readLE32 bytes 0) ≠ 20 then return 0
            else
              let id ← readLE64 bytes 12
              return if isIndividualId id then id else 0

/-! ## What a ticket is -/

/-- The character is the hexadecimal digit: counted from `'0'`, or from `'a'` or `'A'` for the
digits from ten on. -/
def IsHexDigit (c : UInt8) (n : ℕ) : Prop :=
  n < 10 ∧ c.toNat = 0x30 + n ∨ 10 ≤ n ∧ n < 16 ∧
    (c.toNat = 0x61 + (n - 10) ∨ c.toNat = 0x41 + (n - 10))

/-- A string of hexadecimal digits and the bytes it encodes. -/
inductive HexOf : Bytes → Bytes → Prop where
  | nil : HexOf [] []
  | cons {h l : UInt8} {high low : ℕ} {s b : Bytes} : IsHexDigit h high → IsHexDigit l low →
      HexOf s b → HexOf (h :: l :: s) (UInt8.ofNat (16 * high + low) :: b)

/-- The value of a public individual id: universe 1, account type 1, and an account number. -/
structure IndividualValue (id : ℕ) : Prop where
  universe_ : id / 2 ^ 56 = 1
  accountType : id / 2 ^ 52 % 16 = 1
  account : id % 2 ^ 32 ≠ 0

/-- The string is a session ticket of the bytes. -/
structure IsTicket (s b : Bytes) : Prop where
  hex : HexOf s b
  long : 48 ≤ s.length
  sectionLength : leValue (b.take 4) = 20
  individual : IndividualValue (leValue ((b.drop 12).take 8))

/-- A ticket as Steam builds it: the section's length, the token, the id, the generation time and
the rest. -/
def sessionTicket (gcToken : Bytes) (id : UInt64) (rest : Bytes) : Bytes :=
  leBytes 4 20 ++ (gcToken ++ (leBytes 8 id.toNat ++ rest))

/-! ## Digits and integers -/

/-- A hexadecimal digit is below sixteen. -/
theorem IsHexDigit.lt {c : UInt8} {n : ℕ} (h : IsHexDigit c n) : n < 16 := by
  unfold IsHexDigit at h
  omega

/-- `HexNibble` reads the digits. -/
theorem hexNibble_iff {c : UInt8} {n : ℕ} : (hexNibble c).map UInt8.toNat = some n ↔
    IsHexDigit c n := by
  have hc := c.toNat_lt
  unfold hexNibble IsHexDigit
  simp only [UInt8.le_iff_toNat_le, UInt8.reduceToNat]
  split
  · simp only [Option.map_some, Option.some.injEq, UInt8.toNat_sub, UInt8.reduceToNat]
    omega
  · split
    · simp only [Option.map_some, Option.some.injEq, UInt8.toNat_sub, UInt8.toNat_add,
      UInt8.reduceToNat]
      omega
    · split
      · simp only [Option.map_some, Option.some.injEq, UInt8.toNat_sub, UInt8.toNat_add,
        UInt8.reduceToNat]
        omega
      · simp only [Option.map_none, reduceCtorEq, false_iff]
        omega

/-- A byte from its two digits. -/
theorem nibbles_eq {h l : UInt8} (hh : h.toNat < 16) (hl : l.toNat < 16) :
    (h <<< 4) ||| l = UInt8.ofNat (16 * h.toNat + l.toNat) := by
  have hall : ∀ i j : Fin 16, (UInt8.ofNat i.val <<< 4) ||| UInt8.ofNat j.val =
    UInt8.ofNat (16 * i.val + j.val) := by
    decide +kernel
  have hij := hall ⟨h.toNat, hh⟩ ⟨l.toNat, hl⟩
  simpa using hij

/-- A number below `2 ^ i` and a number shifted above it. -/
theorem or_shiftLeft {x i : ℕ} (hx : x < 2 ^ i) (y : ℕ) : x ||| (y <<< i) = x + 2 ^ i * y := by
  rw [Nat.lor_comm, ← Nat.shiftLeft_add_eq_or_of_lt hx, Nat.shiftLeft_eq, Nat.mul_comm,
    Nat.add_comm]

/-- `ReadLE32` reads the little-endian value of four bytes. -/
theorem readLE32_eq {p : Bytes} {i : ℕ} (h : i + 4 ≤ p.length) :
    ∃ v, readLE32 p i = some v ∧ v.toNat = leValue ((p.drop i).take 4) := by
  obtain ⟨b0, b1, b2, b3, rest, hdrop⟩ : ∃ b0 b1 b2 b3 rest, p.drop i = b0 :: b1 :: b2 :: b3 ::
    rest := by
    have hlen : 4 ≤ (p.drop i).length := by
      rw [List.length_drop]
      omega
    match p.drop i, hlen with
    | b0 :: b1 :: b2 :: b3 :: rest, _ => exact ⟨b0, b1, b2, b3, rest, rfl⟩
  have hget : ∀ k, p[i + k]? = (b0 :: b1 :: b2 :: b3 :: rest)[k]? := fun k => by rw [← hdrop,
    List.getElem?_drop]
  refine ⟨b0.toUInt32 ||| (b1.toUInt32 <<< 8) ||| (b2.toUInt32 <<< 16) ||| (b3.toUInt32 <<< 24),
    ?_, ?_⟩
  · have h0 := hget 0
    rw [Nat.add_zero] at h0
    rw [readLE32, h0, hget 1, hget 2, hget 3]
    rfl
  · have hb0 := b0.toNat_lt
    have hb1 := b1.toNat_lt
    have hb2 := b2.toNat_lt
    have hb3 := b3.toNat_lt
    rw [hdrop]
    simp only [UInt32.toNat_or, UInt32.toNat_shiftLeft, UInt8.toNat_toUInt32, List.take_succ_cons,
      List.take_zero, leValue]
    simp only [show UInt32.toNat 8 % 32 = 8 from rfl, show UInt32.toNat 16 % 32 = 16 from rfl,
      show UInt32.toNat 24 % 32 = 24 from rfl]
    have h1 : b1.toNat <<< 8 % 2 ^ 32 = b1.toNat <<< 8 :=
      Nat.mod_eq_of_lt (by rw [Nat.shiftLeft_eq]; omega)
    have h2 : b2.toNat <<< 16 % 2 ^ 32 = b2.toNat <<< 16 :=
      Nat.mod_eq_of_lt (by rw [Nat.shiftLeft_eq]; omega)
    have h3 : b3.toNat <<< 24 % 2 ^ 32 = b3.toNat <<< 24 :=
      Nat.mod_eq_of_lt (by rw [Nat.shiftLeft_eq]; omega)
    rw [h1, h2, h3, or_shiftLeft (i := 8) hb0, or_shiftLeft (i := 16) (by omega),
      or_shiftLeft (i := 24) (by omega)]
    omega

/-- The value of two byte strings, one after the other. -/
theorem leValue_append (a b : Bytes) :
    leValue (a ++ b) = leValue a + 256 ^ a.length * leValue b := by
  induction a with
  | nil => simp [leValue]
  | cons x a ih =>
      rw [List.cons_append, leValue, ih, leValue, List.length_cons, pow_succ]
      ring

/-- `ReadLE64` reads the little-endian value of eight bytes. -/
theorem readLE64_eq {p : Bytes} {i : ℕ} (h : i + 8 ≤ p.length) :
    ∃ v, readLE64 p i = some v ∧ v.toNat = leValue ((p.drop i).take 8) := by
  obtain ⟨low, hlow, hlowValue⟩ := readLE32_eq (p := p) (i := i) (by omega)
  obtain ⟨high, hhigh, hhighValue⟩ := readLE32_eq (p := p) (i := i + 4) (by omega)
  refine ⟨low.toUInt64 ||| (high.toUInt64 <<< 32), ?_, ?_⟩
  · rw [readLE64, hlow, hhigh]
    rfl
  · have hl := low.toNat_lt
    have hh := high.toNat_lt
    have hshift : high.toNat <<< 32 % 2 ^ 64 = high.toNat <<< 32 :=
      Nat.mod_eq_of_lt (by rw [Nat.shiftLeft_eq]; omega)
    have hlength : ((p.drop i).take 4).length = 4 := by
      rw [List.length_take, List.length_drop]
      omega
    have hsplit : (p.drop i).take 8 = (p.drop i).take 4 ++ (p.drop (i + 4)).take 4 := by
      rw [← List.drop_drop, ← List.take_add]
    rw [UInt64.toNat_or, UInt64.toNat_shiftLeft, UInt32.toNat_toUInt64, UInt32.toNat_toUInt64,
      show UInt64.toNat 32 % 64 = 32 from rfl, hshift, or_shiftLeft (i := 32) (by omega),
        hlowValue, hhighValue, hsplit,
      leValue_append, hlength]
    rfl

/-- The check on an account's id is the one on its value. -/
theorem isIndividualId_iff {id : UInt64} : isIndividualId id = true ↔
    IndividualValue id.toNat := by
  have h56 : (id >>> 56).toNat = id.toNat / 2 ^ 56 := by
    rw [UInt64.toNat_shiftRight, Nat.shiftRight_eq_div_pow]
    rfl
  have h52 : ((id >>> 52) &&& 0xF).toNat = id.toNat / 2 ^ 52 % 16 := by
    rw [UInt64.toNat_and, UInt64.toNat_shiftRight, Nat.shiftRight_eq_div_pow]
    exact Nat.and_two_pow_sub_one_eq_mod _ 4
  have h32 : (id &&& 0xFFFFFFFF).toNat = id.toNat % 2 ^ 32 := by
    rw [UInt64.toNat_and]
    exact Nat.and_two_pow_sub_one_eq_mod _ 32
  simp only [isIndividualId, Bool.and_eq_true, beq_iff_eq, bne_iff_ne, ne_eq, ← UInt64.toNat_inj,
    h56, h52, h32]
  exact ⟨fun h => ⟨h.1.1, h.1.2, h.2⟩, fun h => ⟨⟨h.universe_, h.accountType⟩, h.account⟩⟩

/-! ## The decoder -/

/-- Two digits a byte. -/
theorem HexOf.length {s b : Bytes} (h : HexOf s b) : s.length = 2 * b.length := by
  induction h with
  | nil => rfl
  | cons _ _ _ ih =>
      rw [List.length_cons, List.length_cons, List.length_cons, ih]
      omega

/-- Two characters and the rest. -/
theorem hexOf_cons_iff {c d : UInt8} {s b : Bytes} : HexOf (c :: d :: s) b ↔
    ∃ h l rest, hexNibble c = some h ∧ hexNibble d = some l ∧ HexOf s rest ∧
    b = ((h <<< 4) ||| l) :: rest := by
  constructor
  · rintro (_ | @⟨_, _, high, low, _, rest, hc, hd, hrest⟩)
    obtain ⟨h, hh, rfl⟩ := Option.map_eq_some_iff.1 (hexNibble_iff.2 hc)
    obtain ⟨l, hl, rfl⟩ := Option.map_eq_some_iff.1 (hexNibble_iff.2 hd)
    exact ⟨h, l, rest, hh, hl, hrest, by rw [nibbles_eq hc.lt hd.lt]⟩
  · rintro ⟨h, l, rest, hh, hl, hrest, rfl⟩
    have hc : IsHexDigit c h.toNat := hexNibble_iff.1 (by rw [hh, Option.map_some])
    have hd : IsHexDigit d l.toNat := hexNibble_iff.1 (by rw [hl, Option.map_some])
    rw [nibbles_eq hc.lt hd.lt]
    exact .cons hc hd hrest

/-- The loop stays inside the string, and decodes it exactly if it consists of digits. -/
theorem fillBytes_eq (token : CString) (i n : ℕ) (h : 2 * (i + n) ≤ token.chars.length) :
    ∃ r, fillBytes token i n = some r ∧ ∀ b, r = some b ↔
    HexOf ((token.chars.drop (2 * i)).take (2 * n)) b := by
  induction n generalizing i with
  | zero =>
      refine ⟨some [], rfl, fun b => ⟨?_, ?_⟩⟩
      · rintro ⟨⟩
        exact .nil
      · rintro ⟨⟩
        rfl
  | succ n ih =>
      obtain ⟨r, hr, hrest⟩ := ih (i + 1) (by omega)
      obtain ⟨c, d, s, hdrop⟩ : ∃ c d s, token.chars.drop (2 * i) = c :: d :: s := by
        have hlen : 2 ≤ (token.chars.drop (2 * i)).length := by
          rw [List.length_drop]
          omega
        match token.chars.drop (2 * i), hlen with
        | c :: d :: s, _ => exact ⟨c, d, s, rfl⟩
      have hget : ∀ k < 2, token.memory[2 * i + k]? = (c :: d :: s)[k]? := by
        intro k hk
        rw [CString.memory, List.getElem?_append_left (by omega), ← hdrop, List.getElem?_drop]
      have hs : s = token.chars.drop (2 * (i + 1)) := by
        have htail : (token.chars.drop (2 * i)).drop 2 = s := by rw [hdrop]; rfl
        rw [← htail, List.drop_drop]
        rfl
      have hstring : (token.chars.drop (2 * i)).take (2 * (n + 1)) =
          c :: d :: (token.chars.drop (2 * (i + 1))).take (2 * n) := by
        rw [hdrop, ← hs]
        rfl
      have hc : token.memory[2 * i]? = some c := hget 0 (by decide)
      have hd : token.memory[2 * i + 1]? = some d := hget 1 (by decide)
      simp only [hstring, hexOf_cons_iff, fillBytes, hc, hd, hr, Option.bind_eq_bind,
        Option.bind_some]
      cases hh : hexNibble c with
      | none => exact ⟨none, rfl, fun b => by simp⟩
      | some hi =>
          cases hl : hexNibble d with
          | none => exact ⟨none, rfl, fun b => by simp⟩
          | some lo =>
              refine ⟨r.map fun bytes => ((hi <<< 4) ||| lo) :: bytes, rfl, fun b => ?_⟩
              rw [Option.map_eq_some_iff]
              constructor
              · rintro ⟨rest, hr', rfl⟩
                exact ⟨hi, lo, rest, rfl, rfl, (hrest rest).1 hr', rfl⟩
              · rintro ⟨_, _, rest, ⟨⟩, ⟨⟩, hhex, rfl⟩
                exact ⟨rest, (hrest rest).2 hhex, rfl⟩

/-! ## The parser -/

/-- An individual account's id is not zero. -/
theorem IndividualValue.ne_zero {id : ℕ} (h : IndividualValue id) : id ≠ 0 := by
  rintro rfl
  exact h.account rfl

/-- The parser on a string whose length passes: it reads what a string of digits encodes. -/
theorem fromSessionTicketHex_long {token : CString} (hlong : 48 ≤ token.chars.length)
    (heven : token.chars.length % 2 = 0) :
    (fromSessionTicketHex (some token) = some 0 ∧ ∀ b, ¬ HexOf token.chars b) ∨
    ∃ (b : Bytes) (section_ : UInt32) (id : UInt64), (∀ c, HexOf token.chars c ↔ c = b) ∧
      section_.toNat = leValue (b.take 4) ∧ id.toNat = leValue ((b.drop 12).take 8) ∧
      fromSessionTicketHex (some token) =
        some (if section_ ≠ 20 then 0 else if isIndividualId id then id else 0) := by
  have hchecks : ¬ (token.chars.length < 48 ∨ token.chars.length % 2 ≠ 0) := by omega
  obtain ⟨r, hr, hhex⟩ := fillBytes_eq token 0 (token.chars.length / 2) (by omega)
  have hwhole : (token.chars.drop (2 * 0)).take (2 * (token.chars.length / 2)) = token.chars :=
    List.take_of_length_le (by rw [List.length_drop]; omega)
  rw [hwhole] at hhex
  simp only [fromSessionTicketHex, CString.strlen_eq, if_neg hchecks, hr, Option.bind_eq_bind,
    Option.bind_some]
  cases r with
  | none =>
      refine .inl ⟨rfl, fun b hb => ?_⟩
      cases (hhex b).2 hb
  | some b =>
      have hb := (hhex b).1 rfl
      have hlen : 24 ≤ b.length := by
        have := hb.length
        omega
      obtain ⟨section_, hsection, hsectionValue⟩ := readLE32_eq (p := b) (i := 0) (by omega)
      obtain ⟨id, hid, hidValue⟩ := readLE64_eq (p := b) (i := 12) (by omega)
      refine .inr ⟨b, section_, id, fun c => ?_, hsectionValue, hidValue, ?_⟩
      · rw [← hhex c, Option.some.injEq, eq_comm]
      · simp only [hsection, hid, Option.bind_some]
        split <;> rfl

/-- The parser rejects a string that is too short or of odd length. -/
theorem fromSessionTicketHex_short {token : CString}
    (h : token.chars.length < 48 ∨ token.chars.length % 2 ≠ 0) :
    fromSessionTicketHex (some token) = some 0 := by
  simp only [fromSessionTicketHex, CString.strlen_eq, if_pos h]

/-- A ticket that Steam builds is one. -/
theorem isTicket_sessionTicket {s gcToken rest : Bytes} {id : UInt64} (hgc : gcToken.length = 8)
    (hrest : 4 ≤ rest.length) (hid : IndividualValue id.toNat)
    (hs : HexOf s (sessionTicket gcToken id rest)) :
    IsTicket s (sessionTicket gcToken id rest) ∧
      leValue (((sessionTicket gcToken id rest).drop 12).take 8) = id.toNat := by
  have hvalue : leValue (((sessionTicket gcToken id rest).drop 12).take 8) = id.toNat := by
    have hfront : (leBytes 4 20 ++ gcToken).length = 12 := by
      rw [List.length_append, leBytes_length, hgc]
    rw [sessionTicket, ← List.append_assoc, List.drop_left' hfront,
      List.take_left' (leBytes_length 8 _), leValue_leBytes]
    exact Nat.mod_eq_of_lt id.toNat_lt
  refine ⟨⟨hs, ?_, ?_, ?_⟩, hvalue⟩
  · rw [hs.length, sessionTicket, List.length_append, List.length_append, List.length_append,
      leBytes_length, leBytes_length]
    omega
  · rw [sessionTicket, List.take_left' (leBytes_length 4 20)]
    exact (leValue_leBytes 4 20).trans (Nat.mod_eq_of_lt (show 20 < 4294967296 by decide))
  · rw [hvalue]
    exact hid

/-- **The ticket parser** never reads out of range, gives an id exactly for the tickets, and gives
the id that a ticket holds. So a ticket that was built for an individual id, written in digits of
either case, gives that id. -/
theorem ticket_parsed (token : CString) : ∃ id, fromSessionTicketHex (some token) = some id ∧
    (id ≠ 0 ↔ ∃ b, IsTicket token.chars b) ∧
    (∀ b, IsTicket token.chars b → id.toNat = leValue ((b.drop 12).take 8)) ∧
    ∀ gcToken built rest, gcToken.length = 8 → 4 ≤ rest.length →
    IndividualValue (UInt64.toNat built) →
      HexOf token.chars (sessionTicket gcToken built rest) → id = built := by
  -- what is built is a ticket
  suffices h : ∃ id, fromSessionTicketHex (some token) = some id ∧
    (id ≠ 0 ↔ ∃ b, IsTicket token.chars b) ∧
      ∀ b, IsTicket token.chars b → id.toNat = leValue ((b.drop 12).take 8) by
    obtain ⟨id, hid, hiff, hvalue⟩ := h
    refine ⟨id, hid, hiff, hvalue, fun gcToken built rest hgc hrest hbuilt hhex => ?_⟩
    obtain ⟨hticket, hheld⟩ := isTicket_sessionTicket hgc hrest hbuilt hhex
    exact UInt64.toNat_inj.1 ((hvalue _ hticket).trans hheld)
  by_cases hshort : token.chars.length < 48 ∨ token.chars.length % 2 ≠ 0
  · have hno : ∀ b, ¬ IsTicket token.chars b := by
      intro b hb
      have hlength := hb.hex.length
      have hlong := hb.long
      omega
    exact ⟨0, fromSessionTicketHex_short hshort, by simp [hno], fun b hb => absurd hb (hno b)⟩
  · rcases @fromSessionTicketHex_long token (by omega) (by omega) with
      ⟨hzero, hno⟩ | ⟨b, section_, id, hhex, hsection, hid, hresult⟩
    · exact ⟨0, hzero, by simpa using fun b (hb : IsTicket token.chars b) => hno b hb.hex,
        fun b hb => absurd hb.hex (hno b)⟩
    · have hticket : ∀ c, IsTicket token.chars c ↔ c = b ∧ section_ = 20 ∧
        isIndividualId id = true := by
        intro c
        rw [isIndividualId_iff, hid, ← UInt32.toNat_inj, hsection]
        constructor
        · intro hc
          obtain rfl := (hhex c).1 hc.hex
          exact ⟨rfl, hc.sectionLength, hc.individual⟩
        · rintro ⟨rfl, hlength, hindividual⟩
          exact ⟨(hhex c).2 rfl, by omega, hlength, hindividual⟩
      by_cases hok : section_ = 20 ∧ isIndividualId id = true
      · refine ⟨id, ?_, ?_, fun c hc => ?_⟩
        · rw [hresult, if_neg (not_not_intro hok.1), if_pos hok.2]
        · have hne : id ≠ 0 := by
            rintro rfl
            exact (isIndividualId_iff.1 hok.2).ne_zero rfl
          exact ⟨fun _ => ⟨b, (hticket b).2 ⟨rfl, hok⟩⟩, fun _ => hne⟩
        · rw [((hticket c).1 hc).1, hid]
      · have hno : ∀ c, ¬ IsTicket token.chars c := fun c hc => hok ((hticket c).1 hc).2
        refine ⟨0, ?_, by simp [hno], fun c hc => absurd hc (hno c)⟩
        rw [hresult]
        split
        · rfl
        · next hsection' =>
            rw [if_neg fun hindividual => hok ⟨not_not.1 hsection', hindividual⟩]

end EOSEmu
