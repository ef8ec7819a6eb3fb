import EOSEmu.Interfaces.Connect
import EOSEmu.Lib.ByteMemory
import EOSEmu.Lib.Intern
import EOSEmu.Lib.Trace

/-!
# Ids

Account ids and continuance tokens are pointers that games compare and keep (`Ids.cpp`). `Intern`
gives the same pointer for the same string, from a table of each kind, and frees none, so that a
pointer stands for its string: the rest of the model writes the string for it. The functions that
copy a string into the buffer of a game take its size from the game and say how much they need.
-/

namespace EOSEmu

open Lib

/-- The tables: `g_Epic`, `g_Product` and `g_Continuance`. -/
inductive IdKind where
  | epic
  | product
  | continuance
  deriving DecidableEq, Repr

/-- The address of a `Details` object; zero is null. -/
abbrev IdHandle := ℕ

/-- The three tables, and the objects that were allocated for them. -/
abbrev Ids := Interned (IdKind × Bytes) IdHandle

/-- A call of `Intern`, where a new object would be at the address `fresh`. -/
structure InternCall where
  kind : IdKind
  value : Bytes
  fresh : IdHandle

namespace Ids
variable (t : Ids)

/-- What `Intern` returns. -/
def interned (c : InternCall) : IdHandle :=
  if c.value = [] then 0 else t.handle (c.kind, c.value) c.fresh

/-- One call. An allocation is neither null nor in use. -/
def step (c : InternCall) : Option Ids :=
  if c.fresh = 0 ∨ (t.memory.get? c.fresh).isSome then none
  else some (if c.value = [] then t else t.intern (c.kind, c.value) c.fresh)

/-- `EpicString` and `ProductString`: the string behind a handle. -/
def string (h : IdHandle) : Bytes := if h = 0 then [] else ((t.memory.get? h).map Prod.snd).getD []

end Ids

/-! ## Copying strings -/

/-- The results of the copying functions. -/
inductive IdResult where
  | success
  | invalidParameters
  | invalidUser
  | limitExceeded
  deriving DecidableEq, Repr

/-- What a copying function did: its result, the bytes it wrote from the start of the buffer on,
and the length it wrote back. -/
structure IdOutcome where
  result : IdResult
  written : Bytes := []
  length : Option ℤ := none
  deriving DecidableEq, Repr

/-- `CopyIdString`; `buffer` says whether there is one, and `length` what the length pointer leads
to. -/
def copyIdString (value : Bytes) (valid buffer : Bool) (length : Option ℤ) : IdOutcome :=
  match length with
  | none => { result := .invalidParameters }
  | some length =>
      if valid = false then { result := .invalidUser }
      else if buffer = false ∨ length < requiredLength value then
        { result := .limitExceeded, length := some (requiredLength value) }
      else { result := .success, written := value ++ [0], length := some (requiredLength value) }

/-- `EOS_EpicAccountId_ToString`, `EOS_ProductUserId_ToString` and `EOS_ContinuanceToken_ToString`.
A null token is a wrong parameter, a null account id no user. -/
def Ids.toString (t : Ids) (kind : IdKind) (h : IdHandle) (buffer : Bool) (length : Option ℤ) :
    IdOutcome :=
  if kind = .continuance ∧ h = 0 then { result := .invalidParameters }
  else copyIdString (t.string h) (h ≠ 0) buffer length

/-- The call that `EOS_EpicAccountId_FromString` and `EOS_ProductUserId_FromString` make for the C
string in memory. -/
def fromString (kind : IdKind) (memory : Bytes) (fresh : IdHandle) : InternCall where
  kind := kind
  value := (cString memory).chars
  fresh := fresh

/-- `kHex`. -/
def hexDigit (n : UInt8) : UInt8 := if n < 10 then 0x30 + n else 0x41 + (n - 10)

/-- The digits of a byte array. -/
def hexString : Bytes → Bytes
  | [] => []
  | b :: bs => hexDigit ((b >>> 4) &&& 0xF) :: hexDigit (b &&& 0xF) :: hexString bs

/-- What `EOS_ByteArray_ToString` did: its result, the bytes it wrote to the indices of the buffer,
in order, and the length it wrote back. -/
structure HexOutcome where
  result : IdResult
  writes : List (UInt32 × UInt8) := []
  length : Option UInt32 := none
  deriving DecidableEq, Repr

/-- The rounds of its loop from an index on; the indices are `uint32_t`. -/
def hexLoop : UInt32 → Bytes → List (UInt32 × UInt8)
  | _, [] => []
  | i, b :: bs =>
      (i * 2, hexDigit ((b >>> 4) &&& 0xF)) :: (i * 2 + 1, hexDigit (b &&& 0xF)) :: hexLoop
        (i + 1) bs

/-- `EOS_ByteArray_ToString` of a byte array whose length is an `uint32_t`; `buffer` says whether
there is one, and `length` what the length pointer leads to. -/
def byteArrayToString (bytes : Option Bytes) (buffer : Bool) (length : Option UInt32) :
    HexOutcome :=
  match bytes, length with
  | some bytes, some length =>
      let count := UInt32.ofNat bytes.length
      let required := count * 2 + 1
      if buffer = false ∨
        length < required then { result := .limitExceeded, length := some required }
      else { result := .success, writes := hexLoop 0 bytes ++
        [(count * 2, 0)], length := some required }
  | _, _ => { result := .invalidParameters }

/-- The memory from the buffer on after writes to its indices. -/
def written (memory : ByteMemory) (writes : List (UInt32 × UInt8)) : ByteMemory :=
  writes.foldl (fun memory w => Function.update memory w.1.toNat w.2) memory

/-- The C string in the first `size` bytes of a memory. -/
def stringIn (memory : ByteMemory) (size : ℕ) : CString := cString ((List.range size).map memory)

/-! ## Handles -/

/-- A transition of the tables. -/
abbrev IdTransition := Transition Ids InternCall

/-- The handle that a call returned. -/
def IdTransition.returned (x : IdTransition) : IdHandle := x.pre.interned x.action

/-- The copy of a handle's string, asked for first without a buffer, can be interned to the
handle. -/
def Ids.RoundTrip (t : Ids) (kind : IdKind) (h : IdHandle) (value : Bytes) : Prop :=
  ∃ n, (∀ k, t.toString kind h false (some k) = { result := .limitExceeded, length := some n }) ∧
    (value.length + 1 : ℤ) = n ∧
    (∀ k, k < n → t.toString kind h true (some k) =
      { result := .limitExceeded, length := some n }) ∧
    (∀ k, n ≤ k → t.toString kind h true (some k) =
      { result := .success, written := value ++ [0], length := some n }) ∧
    ∀ rest fresh, t.interned (fromString kind (value ++ [0] ++ rest) fresh) = h

/-- The handles that the calls of a run returned stand for the strings. -/
structure HandlesNameStrings (l : List IdTransition) (t : Ids) : Prop where
  /-- A handle leads to its string, for ever. -/
  string : ∀ x ∈ l, t.string x.returned = x.action.value
  /-- Only the empty string has a null handle. -/
  null : ∀ x ∈ l, x.returned = 0 ↔ x.action.value = []
  /-- Handles are equal if they are of the same string and kind, or both null. -/
  same : ∀ x ∈ l, ∀ y ∈ l, x.returned = y.returned ↔
    x.action.value = y.action.value ∧ (x.action.kind = y.action.kind ∨ x.action.value = [])
  /-- A string without null characters that an `int32_t` can count goes out to the game and comes
  back. -/
  roundTrip : ∀ x ∈ l, x.action.value ≠ [] → 0 ∉ x.action.value →
    x.action.value.length + 1 < 2 ^ 31 → t.RoundTrip x.action.kind x.returned x.action.value
  /-- `ToString` refuses a call without a length; a null account id is no user, a null token a
  wrong parameter. -/
  refused : ∀ kind buffer, (∀ h, t.toString kind h buffer none =
    { result := .invalidParameters }) ∧ ∀ k, t.toString kind 0 buffer (some k) =
      { result := if kind = .continuance then .invalidParameters else .invalidUser }

/-- The C string in memory ends at its first null character. -/
theorem cString_append {value rest : Bytes} (h : 0 ∉ value) :
    (cString (value ++ ([0] ++ rest))).chars = value := by
  show (value ++ ([0] ++ rest)).takeWhile (· ≠ 0) = value
  rw [List.takeWhile_append_of_pos]
  · simp
  · intro b hb
    exact decide_eq_true fun hzero => h (hzero ▸ hb)

namespace Ids
variable {t u : Ids} {c : InternCall}

/-- The tables are sound, and null is no object. -/
structure Kept (t : Ids) : Prop where
  sound : t.Sound
  null : t.memory.get? 0 = none

/-- A call interns its string, in memory that was free. -/
theorem step_eq (h : t.step c = some u) : c.fresh ≠ 0 ∧ t.memory.get? c.fresh = none ∧
    u = if c.value = [] then t else t.intern (c.kind, c.value) c.fresh := by
  obtain ⟨hok, heq⟩ := Option.ite_none_left_eq_some.1 h
  obtain ⟨hnull, hfree⟩ := not_or.1 hok
  exact ⟨hnull, by simpa using hfree, (Option.some.inj heq).symm⟩

/-- A step keeps the tables sound, and what the memory holds. -/
theorem Kept.step (ht : t.Kept) (h : t.step c = some u) : u.Kept ∧ t.Extends u := by
  obtain ⟨hnull, hfree, rfl⟩ := step_eq h
  split
  · exact ⟨ht, .refl⟩
  · refine ⟨⟨ht.sound.intern hfree _, ?_⟩, Interned.extends_intern hfree _⟩
    unfold Interned.intern
    split
    · exact ht.null
    · rw [Dict.get?_set, if_neg (Ne.symm hnull)]
      exact ht.null

/-- They are sound in every run. -/
theorem Kept.of_trace {l : List IdTransition} (h : Trace Ids.step Always {} l t) : t.Kept :=
  h.run.invariant (P := Kept) ⟨Interned.sound_empty, rfl⟩ fun _ _ _ hu _ hst => (hu.step hst).1

/-- What the memory holds stays to the end of the run. -/
theorem extends_of_trace {l : List IdTransition} (hu : u.Kept) (h : Trace Ids.step Always u l t) :
    u.Extends t :=
  (h.run.invariant (P := fun w : Ids => w.Kept ∧ u.Extends w) ⟨hu, .refl⟩ fun _ _ _ hw _ hst =>
    ⟨(hw.1.step hst).1, hw.2.trans (hw.1.step hst).2⟩).2

/-- The object behind the handle of a call. -/
theorem memory_returned {l : List IdTransition} (h : Trace Ids.step Always {} l t)
    {x : IdTransition} (hx : x ∈ l) (hvalue : x.action.value ≠ []) :
      t.memory.get? x.returned = some (x.action.kind, x.action.value) := by
  obtain ⟨before, after, heq⟩ := List.append_of_mem hx
  obtain ⟨hpre, _, hst⟩ := h.forall_mem heq
  have hkept := Kept.of_trace hpre
  obtain ⟨_, _, hpost⟩ := step_eq hst
  rw [if_neg hvalue] at hpost
  refine extends_of_trace (hkept.step hst).1 (h.after heq) _ _ ?_
  rw [IdTransition.returned, interned, if_neg hvalue, hpost]
  exact Interned.memory_intern hkept.sound _ _

/-- Null is what the empty string gets, and nothing else. -/
theorem returned_null {l : List IdTransition} (h : Trace Ids.step Always {} l t)
    {x : IdTransition} (hx : x ∈ l) : x.returned = 0 ↔ x.action.value = [] := by
  constructor
  · intro hnull
    by_contra hvalue
    have hmemory := memory_returned h hx hvalue
    rw [hnull, (Kept.of_trace h).null] at hmemory
    cases hmemory
  · intro hvalue
    rw [IdTransition.returned, interned, if_pos hvalue]

/-- The handle of a call names its string to the end of the run. -/
theorem string_returned {l : List IdTransition} (h : Trace Ids.step Always {} l t)
    {x : IdTransition} (hx : x ∈ l) : t.string x.returned = x.action.value := by
  unfold string
  split
  · next hnull => exact ((returned_null h hx).1 hnull).symm
  · next hne =>
      rw [memory_returned h hx fun hvalue => hne ((returned_null h hx).2 hvalue)]
      rfl

/-- A handle whose string a C string can hold goes out and comes back. -/
theorem roundTrip {kind : IdKind} {h : IdHandle} {value : Bytes} (ht : t.Kept)
    (hmemory : t.memory.get? h = some (kind, value)) (hvalue : value ≠ []) (hnul : 0 ∉ value)
    (hlen : value.length + 1 < 2 ^ 31) : t.RoundTrip kind h value := by
  have hne : h ≠ 0 := by
    rintro rfl
    cases ht.null.symm.trans hmemory
  have hstring : t.string h = value := by
    rw [string, if_neg hne, hmemory]
    rfl
  have hrequired : (value.length + 1 : ℤ) = requiredLength value := by
    unfold requiredLength
    rw [Int.bmod_eq_of_le (by omega) (by omega)]
  have hcopy : ∀ buffer k, t.toString kind h buffer (some k) =
    copyIdString value true buffer (some k) := by
    intro buffer k
    rw [Ids.toString, if_neg fun hnull => hne hnull.2, hstring]
    simp [hne]
  refine ⟨requiredLength value, fun k => ?_,
    hrequired, fun k hk => ?_, fun k hk => ?_, fun rest fresh => ?_⟩
  · rw [hcopy]
    simp [copyIdString]
  · rw [hcopy]
    simp [copyIdString, hk]
  · rw [hcopy]
    simp [copyIdString, Int.not_lt.2 hk]
  · rw [interned, fromString, List.append_assoc]
    dsimp only
    rw [cString_append hnul, if_neg hvalue]
    exact Interned.handle_of_memory ht.sound hmemory fresh

/-- What `ToString` refuses, whatever the tables. -/
theorem toString_refused (t : Ids) (kind : IdKind) (buffer : Bool) :
    (∀ h, t.toString kind h buffer none = { result := .invalidParameters }) ∧
    ∀ k, t.toString kind 0 buffer (some k) =
      { result := if kind = .continuance then .invalidParameters else .invalidUser } := by
  constructor
  · intro h
    rw [Ids.toString]
    split <;> rfl
  · intro k
    cases kind <;> simp [Ids.toString, copyIdString]

end Ids

/-- **Handles name strings.** After every run, whatever addresses the allocations get, the handles
that any two calls returned are equal exactly if the calls were of the same kind and string, each
of them still leads to its string, and a string that the game copies out of a handle gives the same
handle again. A copy without a length, of a null handle or into a buffer that is too small is
refused. -/
theorem handles_name_strings {l : List IdTransition} {t : Ids} (h : Trace Ids.step Always {} l t) :
    HandlesNameStrings l t := by
  have hkept := Ids.Kept.of_trace h
  refine ⟨fun x hx => Ids.string_returned h hx, fun x hx => Ids.returned_null h
    hx, fun x hx y hy => ?_,
    fun x hx hvalue hnul hlen => Ids.roundTrip hkept (Ids.memory_returned h hx hvalue) hvalue hnul
      hlen,
    Ids.toString_refused t⟩
  rcases eq_or_ne x.action.value [] with hempty | hvalue
  · rw [(Ids.returned_null h hx).2 hempty, eq_comm, Ids.returned_null h hy, hempty, eq_comm]
    simp
  · constructor
    · intro heq
      have hmemory := Ids.memory_returned h hx hvalue
      have hother : y.action.value ≠ [] := by
        intro hnull
        rw [heq, (Ids.returned_null h hy).2 hnull, hkept.null] at hmemory
        cases hmemory
      rw [heq, Ids.memory_returned h hy hother] at hmemory
      obtain ⟨hkind, hsame⟩ := Prod.mk.inj (Option.some.inj hmemory)
      exact ⟨hsame.symm, .inl hkind.symm⟩
    · rintro ⟨hsame, hkind | hempty⟩
      · have hmemory := Ids.memory_returned h hx hvalue
        rw [hkind, hsame, ← (hkept.sound.inverse _ _)] at hmemory
        have hother := Ids.memory_returned h hy (hsame ▸ hvalue)
        rw [← (hkept.sound.inverse _ _), hmemory] at hother
        exact Option.some.inj hother
      · exact absurd hempty hvalue

/-- A game asks for the same user twice, and for an account of the same name. -/
def sampleHandles : List InternCall :=
  [⟨.product, str "u", 8⟩, ⟨.epic, str "u", 16⟩, ⟨.product, str "u", 24⟩]

/-- The same user gets the same handle, and the account another one. -/
theorem handles_name_strings_sample : ∃ t, exec Ids.step {} sampleHandles = some t ∧
    HandlesNameStrings (transitions Ids.step {} sampleHandles) t ∧
    (transitions Ids.step {} sampleHandles).map IdTransition.returned = [8, 16, 8] :=
  ⟨_, rfl, handles_name_strings (Trace.of_exec rfl), by decide⟩

/-! ## Byte arrays -/

/-- What a game gets of a byte array. All is counted in `uint32_t`, so the buffer that an array
with `2 ^ 31` bytes or more asks for is too small for it. -/
structure HexWritten (bytes : Bytes) : Prop where
  /-- Without a buffer it gets the size. -/
  size : ∀ k, byteArrayToString (some bytes) false (some k) =
    { result := .limitExceeded, length := some (UInt32.ofNat (2 * bytes.length + 1)) }
  /-- Into a buffer with that size it is written. -/
  success_iff : ∀ k, (byteArrayToString (some bytes) true (some k)).result = .success ↔
    (2 * bytes.length + 1) % 2 ^ 32 ≤ k.toNat
  /-- With a smaller one the game gets the size, too. -/
  tooSmall : ∀ k, k.toNat < (2 * bytes.length + 1) % 2 ^ 32 →
    byteArrayToString (some bytes) true (some k) =
    { result := .limitExceeded, length := some (UInt32.ofNat (2 * bytes.length + 1)) }
  /-- What is written stays inside the buffer, exactly below `2 ^ 31` bytes. -/
  inBounds : ∀ k, (2 * bytes.length + 1) % 2 ^ 32 ≤ k.toNat →
    ((∀ w ∈ (byteArrayToString (some bytes) true (some k)).writes, w.1.toNat < k.toNat) ↔
    bytes.length < 2 ^ 31)
  /-- It is a string of digits that encodes the bytes; of a larger array, the ones behind the first
  `2 ^ 31`. -/
  digits : ∀ k memory size, (2 * bytes.length + 1) % 2 ^ 32 ≤ k.toNat → k.toNat ≤ size →
    HexOf (stringIn (written memory (byteArrayToString (some bytes) true (some k)).writes)
      size).chars (bytes.drop (bytes.length / 2 ^ 31 * 2 ^ 31))
  /-- So a session ticket that goes through it still gives its id to a login. -/
  ticket : ∀ k memory size gcToken id tail, (2 * bytes.length + 1) % 2 ^ 32 ≤ k.toNat →
    k.toNat ≤ size →
    bytes.length < 2 ^ 31 → bytes = sessionTicket gcToken id tail → gcToken.length = 8 →
    4 ≤ tail.length →
    IndividualValue id.toNat →
      fromSessionTicketHex
        (some (stringIn (written memory (byteArrayToString (some bytes) true (some k)).writes)
          size)) = some id

/-- A digit of four bits is a hexadecimal one. -/
theorem isHexDigit_hexDigit {n : UInt8} (h : n.toNat < 16) : IsHexDigit (hexDigit n) n.toNat := by
  unfold hexDigit IsHexDigit
  split
  · next hlow =>
      rw [UInt8.lt_iff_toNat_lt] at hlow
      rw [UInt8.toNat_add]
      simp only [UInt8.reduceToNat] at hlow ⊢
      omega
  · next hhigh =>
      rw [UInt8.lt_iff_toNat_lt] at hhigh
      rw [UInt8.toNat_add, UInt8.toNat_sub_of_le _ _
        (by rw [UInt8.le_iff_toNat_le]; simp at hhigh ⊢; omega)]
      simp only [UInt8.reduceToNat] at hhigh ⊢
      omega

/-- The two halves of a byte. -/
theorem nibbles (b : UInt8) : ((b >>> 4) &&& 0xF).toNat < 16 ∧ (b &&& 0xF).toNat < 16 ∧
    UInt8.ofNat (16 * ((b >>> 4) &&& 0xF).toNat + (b &&& 0xF).toNat) = b := by
  have hb := b.toNat_lt
  have hlow : (b &&& 0xF).toNat = b.toNat % 16 := by
    rw [UInt8.toNat_and]
    exact Nat.and_two_pow_sub_one_eq_mod _ 4
  have hhigh : ((b >>> 4) &&& 0xF).toNat = b.toNat / 16 := by
    rw [UInt8.toNat_and, UInt8.toNat_shiftRight, Nat.shiftRight_eq_div_pow]
    exact (Nat.and_two_pow_sub_one_eq_mod _ 4).trans
      (Nat.mod_eq_of_lt (show b.toNat / 2 ^ 4 < 2 ^ 4 by omega))
  rw [hlow, hhigh]
  refine ⟨by omega, by omega, ?_⟩
  rw [Nat.div_add_mod b.toNat 16, UInt8.ofNat_toNat]

/-- The digits of a byte array spell it. -/
theorem hexOf_hexString (bytes : Bytes) : HexOf (hexString bytes) bytes := by
  induction bytes with
  | nil => exact .nil
  | cons b bs ih =>
      obtain ⟨hhigh, hlow, hb⟩ := nibbles b
      have hcons := HexOf.cons (isHexDigit_hexDigit hhigh) (isHexDigit_hexDigit hlow) ih
      rwa [hb] at hcons

/-- Digits are no null characters. -/
theorem zero_notMem_of_hexOf {s b : Bytes} (h : HexOf s b) : 0 ∉ s := by
  have hdigit : ∀ {c : UInt8} {n : ℕ}, IsHexDigit c n → c ≠ 0 := by
    rintro c n hc rfl
    unfold IsHexDigit at hc
    simp only [UInt8.reduceToNat] at hc
    omega
  induction h with
  | nil => exact List.not_mem_nil
  | cons hc hd _ ih =>
      rintro (_ | ⟨_, _ | ⟨_, hmem⟩⟩)
      · exact hdigit hc rfl
      · exact hdigit hd rfl
      · exact ih hmem

/-- A ticket in digits gives its id. -/
theorem fromSessionTicketHex_ticket {token : CString} {gcToken tail : Bytes} {id : UInt64}
    (hgc : gcToken.length = 8) (htail : 4 ≤ tail.length) (hid : IndividualValue id.toNat)
    (htoken : HexOf token.chars (sessionTicket gcToken id tail)) :
      fromSessionTicketHex (some token) = some id := by
  obtain ⟨hticket, hvalue⟩ := isTicket_sessionTicket hgc htail hid htoken
  have hlong := hticket.long
  have hlength := htoken.length
  rcases fromSessionTicketHex_long hlong (by omega) with ⟨_, hno⟩ | ⟨b, section_, id', hhex,
    hsection, hid', hresult⟩
  · exact absurd htoken (hno _)
  · obtain rfl := (hhex _).1 htoken
    have hlengthOk : section_ = 20 := UInt32.toNat_inj.1 (hsection.trans hticket.sectionLength)
    have hsame : id' = id := UInt64.toNat_inj.1 (hid'.trans hvalue)
    rw [hresult, hlengthOk, hsame, if_neg (not_not_intro rfl), if_pos (isIndividualId_iff.2 hid)]

/-- The digits in a memory that has them two by two. -/
theorem map_range_hexString {memory : ByteMemory} {bytes : Bytes}
    (h : ∀ i (hi : i < bytes.length), memory (2 * i) = hexDigit ((bytes[i] >>> 4) &&& 0xF) ∧
      memory (2 * i + 1) = hexDigit (bytes[i] &&& 0xF)) :
    (List.range (2 * bytes.length)).map memory = hexString bytes := by
  induction bytes generalizing memory with
  | nil => rfl
  | cons b bs ih =>
      obtain ⟨hhigh, hlow⟩ := h 0 (Nat.zero_lt_succ _)
      have hrest : (List.range (2 * bs.length)).map (fun x => memory (x + 2)) = hexString bs :=
        ih fun i hi => h (i + 1) (Nat.succ_lt_succ hi)
      rw [List.length_cons, Nat.mul_succ, List.range_succ_eq_map, List.range_succ_eq_map,
        hexString, ← hrest]
      simp only [List.map_cons, List.map_map]
      exact congrArg₂ _ hhigh (congrArg₂ _ hlow rfl)

/-- The last round of the loop. -/
theorem hexLoop_append (i : UInt32) (bytes : Bytes) (b : UInt8) : hexLoop i (bytes ++ [b]) =
    hexLoop i bytes ++ hexLoop (i + UInt32.ofNat bytes.length) [b] := by
  induction bytes generalizing i with
  | nil => simp [hexLoop]
  | cons c bs ih =>
      have hnext : i + 1 + UInt32.ofNat bs.length = i + UInt32.ofNat (c :: bs).length := by
        rw [List.length_cons, UInt32.ofNat_add, UInt32.add_assoc, UInt32.add_comm 1]
        rfl
      rw [List.cons_append, hexLoop, ih, hnext]
      rfl

/-- The indices of a round. -/
theorem toNat_hexIndex (n : ℕ) : (UInt32.ofNat n * 2).toNat = 2 * n % 2 ^ 32 ∧
    (UInt32.ofNat n * 2 + 1).toNat = 2 * n % 2 ^ 32 + 1 := by
  have hdouble : (UInt32.ofNat n * 2).toNat = 2 * n % 2 ^ 32 := by
    rw [UInt32.toNat_mul, UInt32.toNat_ofNat']
    simp only [UInt32.reduceToNat]
    omega
  refine ⟨hdouble, ?_⟩
  rw [UInt32.toNat_add, hdouble, show (1 : UInt32).toNat = 1 from rfl]
  omega

/-- The loop leaves the digits of the last `2 ^ 31` bytes: those that the indices wrap round to are
overwritten. -/
theorem written_hexLoop (memory : ByteMemory) (bytes : Bytes) :
    ∀ i (hi : i < bytes.length), bytes.length ≤ i + 2 ^ 31 →
      written memory (hexLoop 0 bytes) (2 * i % 2 ^ 32) = hexDigit ((bytes[i] >>> 4) &&& 0xF) ∧
      written memory (hexLoop 0 bytes) (2 * i % 2 ^ 32 + 1) = hexDigit (bytes[i] &&& 0xF) := by
  induction bytes using List.reverseRecOn with
  | nil =>
      intro i hi
      exact absurd hi (Nat.not_lt_zero i)
  | append_singleton bs b ih =>
      intro i hi hlast
      obtain ⟨heven, hodd⟩ := toNat_hexIndex bs.length
      have hround : written memory (hexLoop 0 (bs ++ [b])) =
          Function.update (Function.update (written memory (hexLoop 0 bs)) (2 * bs.length % 2 ^ 32)
            (hexDigit ((b >>> 4) &&& 0xF))) (2 * bs.length % 2 ^ 32 + 1)
              (hexDigit (b &&& 0xF)) := by
        rw [hexLoop_append, written, List.foldl_append, UInt32.zero_add, ← hodd, ← heven]
        rfl
      rw [List.length_append, List.length_singleton] at hi hlast
      rw [hround]
      rcases Nat.lt_or_eq_of_le (Nat.le_of_lt_succ hi) with hbefore | rfl
      · obtain ⟨hhigh, hlow⟩ := ih i hbefore (by omega)
        rw [List.getElem_append_left hbefore, Function.update_of_ne (by omega),
          Function.update_of_ne (by omega),
          Function.update_of_ne (by omega), Function.update_of_ne (by omega)]
        exact ⟨hhigh, hlow⟩
      · rw [List.getElem_concat_length rfl]
        simp

/-- The indices of the loop are even ones and the odd ones behind them. -/
theorem mem_hexLoop {bytes : Bytes} {w : UInt32 × UInt8} :
    w ∈ hexLoop 0 bytes → ∃ i < bytes.length, w.1.toNat ≤ 2 * i % 2 ^ 32 + 1 := by
  induction bytes using List.reverseRecOn with
  | nil =>
      intro hw
      cases hw
  | append_singleton bs b ih =>
      intro hw
      obtain ⟨heven, hodd⟩ := toNat_hexIndex bs.length
      rw [hexLoop_append, List.mem_append, UInt32.zero_add] at hw
      simp only [List.length_append, List.length_singleton]
      rcases hw with hw | hw
      · obtain ⟨i, hi, hle⟩ := ih hw
        exact ⟨i, by omega, hle⟩
      · refine ⟨bs.length, by omega, ?_⟩
        rcases List.mem_pair.1 hw with rfl | rfl
        · rw [heven]
          omega
        · rw [hodd]

/-- From `2 ^ 31` bytes on, the loop writes to the last index of all. -/
theorem last_mem_hexLoop {bytes : Bytes} (h : 2 ^ 31 ≤ bytes.length) :
    ∃ w ∈ hexLoop 0 bytes, w.1.toNat = 2 ^ 32 - 1 := by
  induction bytes using List.reverseRecOn with
  | nil => exact absurd h (by decide)
  | append_singleton bs b ih =>
      rw [hexLoop_append]
      rcases Nat.lt_or_ge bs.length (2 ^ 31) with hlt | hge
      · rw [List.length_append, List.length_singleton] at h
        refine ⟨(UInt32.ofNat bs.length * 2 + 1, hexDigit (b &&& 0xF)), ?_, ?_⟩
        · rw [UInt32.zero_add]
          exact List.mem_append_right _ (List.mem_cons_of_mem _ List.mem_cons_self)
        · rw [(toNat_hexIndex _).2]
          omega
      · obtain ⟨w, hw, heq⟩ := ih hge
        exact ⟨w, List.mem_append_left _ hw, heq⟩

/-- The string that the loop and the null character behind it leave. -/
theorem stringIn_written {memory : ByteMemory} {bytes : Bytes} {size : ℕ}
    (hsize : (2 * bytes.length + 1) % 2 ^ 32 ≤ size) :
    (stringIn (written memory (hexLoop 0 bytes ++ [(UInt32.ofNat bytes.length * 2, 0)]))
      size).chars = hexString (bytes.drop (bytes.length / 2 ^ 31 * 2 ^ 31)) := by
  have hround : written memory (hexLoop 0 bytes ++ [(UInt32.ofNat bytes.length * 2, 0)]) =
      Function.update (written memory (hexLoop 0 bytes)) (2 * bytes.length % 2 ^ 32) 0 := by
    rw [written, List.foldl_append, ← (toNat_hexIndex bytes.length).1]
    rfl
  obtain ⟨start, hstart⟩ : ∃ start, bytes.length / 2 ^ 31 * 2 ^ 31 = start := ⟨_, rfl⟩
  have hlength : (bytes.drop start).length = bytes.length - start := List.length_drop
  have hend : 2 * bytes.length % 2 ^ 32 = 2 * (bytes.drop start).length := by omega
  obtain ⟨rest, hrest⟩ := Nat.exists_eq_add_of_le (show 2 * (bytes.drop start).length + 1 ≤
    size by omega)
  have hdigits : (List.range (2 * (bytes.drop start).length)).map
      (Function.update (written memory (hexLoop 0 bytes)) (2 * bytes.length % 2 ^ 32) 0) =
        hexString (bytes.drop start) := by
    refine map_range_hexString fun i hi => ?_
    obtain ⟨hhigh, hlow⟩ := written_hexLoop memory bytes (start + i) (by omega) (by omega)
    rw [show 2 * (start + i) % 2 ^ 32 = 2 * i by omega] at hhigh hlow
    rw [List.getElem_drop, Function.update_of_ne (by omega), Function.update_of_ne (by omega)]
    exact ⟨hhigh, hlow⟩
  rw [hround, stringIn, hstart, hrest, List.range_add, List.range_succ, List.map_append,
    List.map_append, hdigits, List.append_assoc, List.map_singleton, ← hend, Function.update_self]
  exact cString_append (zero_notMem_of_hexOf (hexOf_hexString _))

/-- **Byte arrays as strings.** The digits that a byte array is written in encode it, so that a
login reads the id of a session ticket from them; they stay inside the buffer exactly if the
doubled length fits into `uint32_t`. -/
theorem byte_array_hex (bytes : Bytes) (hbytes : bytes.length < 2 ^ 32) : HexWritten bytes := by
  have hrequired : UInt32.ofNat bytes.length * 2 + 1 = UInt32.ofNat (2 * bytes.length + 1) := by
    rw [← UInt32.toNat_inj, (toNat_hexIndex _).2, UInt32.toNat_ofNat']
    omega
  have hsize : (UInt32.ofNat (2 * bytes.length + 1)).toNat = (2 * bytes.length + 1) % 2 ^ 32 :=
    UInt32.toNat_ofNat'
  have hfits : ∀ k : UInt32, (2 * bytes.length + 1) % 2 ^ 32 ≤ k.toNat →
      byteArrayToString (some bytes) true (some k) =
        { result := .success
          writes := hexLoop 0 bytes ++ [(UInt32.ofNat bytes.length * 2, 0)]
          length := some (UInt32.ofNat (2 * bytes.length + 1)) } := by
    intro k hk
    have hlarge : ¬ k < UInt32.ofNat (2 * bytes.length + 1) := by
      rw [UInt32.lt_iff_toNat_lt, hsize]
      omega
    unfold byteArrayToString
    dsimp only
    rw [hrequired, if_neg (not_or.2 ⟨Bool.noConfusion, hlarge⟩)]
  have htooSmall : ∀ k : UInt32, k.toNat < (2 * bytes.length + 1) % 2 ^ 32 →
      byteArrayToString (some bytes) true (some k) =
        { result := .limitExceeded, length := some (UInt32.ofNat (2 * bytes.length + 1)) } := by
    intro k hk
    rw [← hsize, ← UInt32.lt_iff_toNat_lt] at hk
    unfold byteArrayToString
    dsimp only
    rw [hrequired, if_pos (.inr hk)]
  have hdigits : ∀ (k : UInt32) memory size, (2 * bytes.length + 1) % 2 ^ 32 ≤ k.toNat →
    k.toNat ≤ size →
      HexOf (stringIn (written memory (byteArrayToString (some bytes) true (some k)).writes)
        size).chars (bytes.drop (bytes.length / 2 ^ 31 * 2 ^ 31)) := by
    intro k memory size hk hle
    rw [hfits k hk, stringIn_written (hk.trans hle)]
    exact hexOf_hexString _
  refine ⟨fun k => by simp [byteArrayToString, hrequired], fun k => ?_,
    htooSmall, fun k hk => ?_, hdigits, ?_⟩
  · rcases Nat.lt_or_ge k.toNat ((2 * bytes.length + 1) % 2 ^ 32) with hlt | hge
    · rw [htooSmall k hlt]
      exact iff_of_false IdResult.noConfusion (Nat.not_le.2 hlt)
    · rw [hfits k hge]
      exact iff_of_true rfl hge
  · have hkmax := k.toNat_lt
    rw [hfits k hk]
    constructor
    · intro hall
      by_contra hlarge
      obtain ⟨w, hw, heq⟩ := last_mem_hexLoop (Nat.not_lt.1 hlarge)
      have := hall w (List.mem_append_left _ hw)
      omega
    · intro hsmall w hw
      rcases List.mem_append.1 hw with hw | hw
      · obtain ⟨i, hi, hle⟩ := mem_hexLoop hw
        omega
      · rw [List.mem_singleton.1 hw, (toNat_hexIndex _).1]
        omega
  · intro k memory size gcToken id tail hk hle hsmall hbuilt hgc htail hid
    refine fromSessionTicketHex_ticket hgc htail hid ?_
    have hall := hdigits k memory size hk hle
    rw [Nat.div_eq_of_lt hsmall, Nat.zero_mul, List.drop_zero] at hall
    exact hbuilt ▸ hall

/-- An array of three bytes. -/
theorem byte_array_hex_sample : HexWritten [0x00, 0x9F, 0xFF] ∧
    (stringIn (written (fun _ => 0)
      (byteArrayToString (some [0x00, 0x9F, 0xFF]) true (some 7)).writes) 7).chars = str "009FFF" :=
  ⟨byte_array_hex _ (by decide), by decide⟩

end EOSEmu
