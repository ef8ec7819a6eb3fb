import Mathlib.Algebra.Ring.Nat
import EOSEmu.Sdk

/-!
# The wire format: `ByteWriter` and `ByteReader`

`net/Serialize.h`: little-endian integers, length-prefixed strings, and reads that fail closed. A
writer method is modelled by the bytes it appends; the reader is a state monad over the buffer,
the position and the `Ok` flag. `Decodes m bs a` says that the reading program `m` started in
front of `bs` consumes exactly `bs` and returns `a`. It composes along `bind` and over counted
loops, so a decoder is verified by one rule per line of its body.
-/

namespace EOSEmu

/-! ## Little-endian integers -/

/-- The `n` low bytes of `v`, least significant first. -/
def leBytes : ℕ → ℕ → Bytes
  | 0, _ => []
  | n + 1, v => UInt8.ofNat (v % 256) :: leBytes n (v / 256)

/-- The value of a little-endian byte string. -/
def leValue : Bytes → ℕ
  | [] => 0
  | b :: bs => b.toNat + 256 * leValue bs

@[simp] theorem leBytes_length (n v : ℕ) : (leBytes n v).length = n := by
  induction n generalizing v with
  | zero => rfl
  | succ n ih => simp [leBytes, ih]

/-- Writing `n` bytes and reading them back keeps the value modulo `256 ^ n`. -/
theorem leValue_leBytes (n v : ℕ) : leValue (leBytes n v) = v % 256 ^ n := by
  induction n generalizing v with
  | zero => simp [leBytes, leValue, Nat.mod_one]
  | succ n ih =>
      have hb : (UInt8.ofNat (v % 256)).toNat = v % 256 := by simp
      rw [leBytes, leValue, ih, hb, Nat.pow_succ, Nat.mul_comm (256 ^ n) 256, Nat.mod_mul]

/-! ## `ByteWriter` -/

namespace ByteWriter

/-- `ByteWriter::U8`. -/
def u8 (v : UInt8) : Bytes := [v]

/-- `ByteWriter::U32`. -/
def u32 (v : UInt32) : Bytes := leBytes 4 v.toNat

/-- `ByteWriter::U64`. -/
def u64 (v : UInt64) : Bytes := leBytes 8 v.toNat

/-- `ByteWriter::I64`: the two's complement bytes. -/
def i64 (v : Int64) : Bytes := u64 v.toUInt64

/-- `ByteWriter::Bool`. -/
def bool (v : Bool) : Bytes := u8 (if v then 1 else 0)

/-- `ByteWriter::Str`: the length cast to `uint32_t`, then the bytes. -/
def str (s : Bytes) : Bytes := u32 (UInt32.ofNat s.length) ++ s

/-- `ByteWriter::Bytes`. -/
def bytes (s : Bytes) : Bytes := u32 (UInt32.ofNat s.length) ++ s

@[simp] theorem u8_length (v : UInt8) : (u8 v).length = 1 := rfl

@[simp] theorem bool_length (v : Bool) : (bool v).length = 1 := rfl

@[simp] theorem u32_length (v : UInt32) : (u32 v).length = 4 := leBytes_length 4 _

@[simp] theorem u64_length (v : UInt64) : (u64 v).length = 8 := leBytes_length 8 _

/-- A string's encoding is its length prefix and itself. -/
@[simp] theorem str_length (s : Bytes) : (str s).length = 4 + s.length := by simp [str]

end ByteWriter

/-! ## `ByteReader` -/

/-- `net::ByteReader`: the buffer, the read position and the sticky success flag. -/
structure ByteReader where
  data : Bytes
  pos : ℕ := 0
  ok : Bool := true

/-- A program of reads. -/
abbrev Reader := StateM ByteReader

namespace ByteReader

/-- `ByteReader::Remaining`. -/
def remaining (r : ByteReader) : ℕ := r.data.length - r.pos

/-- `ByteReader::Read`: the next `n` bytes, or a failure that sticks. -/
def read (n : ℕ) : Reader (Option Bytes) := fun r =>
  if r.ok = false ∨ r.remaining < n then (none, { r with ok := false })
  else (some ((r.data.drop r.pos).take n), { r with pos := r.pos + n })

/-- `ByteReader::Ok`. -/
def isOk : Reader Bool := fun r => (r.ok, r)

/-- The integer read from the next `n` bytes, zero on failure. -/
def readLe (n : ℕ) : Reader ℕ := do
  return leValue ((← read n).getD [])

/-- `ByteReader::U8`. -/
def u8 : Reader UInt8 := do return UInt8.ofNat (← readLe 1)

/-- `ByteReader::U32`. -/
def u32 : Reader UInt32 := do return UInt32.ofNat (← readLe 4)

/-- `ByteReader::U64`. -/
def u64 : Reader UInt64 := do return UInt64.ofNat (← readLe 8)

/-- `ByteReader::I64`. -/
def i64 : Reader Int64 := do return (← u64).toInt64

/-- `ByteReader::Bool`. -/
def bool : Reader Bool := do return (← u8) ≠ 0

/-- `ByteReader::Str`: a length and that many bytes; a length past the end fails. -/
def str : Reader Bytes := do
  let n ← u32
  return (← read n.toNat).getD []

/-- `ByteReader::Bytes`. -/
def bytes : Reader Bytes := str

/-- `for (i = 0; i < n && R.Ok(); ++i) Out.push_back(m)`. -/
def repeatOk {α : Type} (m : Reader α) : ℕ → Reader (List α)
  | 0 => pure []
  | n + 1 => do
      if ← isOk then
        let a ← m
        return a :: (← repeatOk m n)
      else return []

end ByteReader

/-! ## Decoding exactly a byte string -/

/-- The program `m`, started in front of `bs` anywhere in a buffer, succeeds with `a` having
consumed exactly `bs`. -/
def Decodes {α : Type} (m : Reader α) (bs : Bytes) (a : α) : Prop :=
  ∀ pre rest : Bytes, m ⟨pre ++ bs ++ rest, pre.length, true⟩ =
    (a, ⟨pre ++ bs ++ rest, (pre ++ bs).length, true⟩)

namespace Decodes
variable {α β : Type} {m : Reader α} {f : α → Reader β} {bs bs' : Bytes} {a : α} {b : β}

/-- A buffer that holds the encoding and nothing else. -/
theorem whole (h : Decodes m bs a) : m ⟨bs, 0, true⟩ = (a, ⟨bs, bs.length, true⟩) := by
  simpa only [List.nil_append, List.append_nil, List.length_nil] using h [] []

/-- A program that reads nothing. -/
theorem pure (a : α) : Decodes (Pure.pure a) [] a := by
  intro pre rest
  simp only [List.append_nil]
  rfl

/-- Sequencing consumes the concatenation. -/
theorem bind (hm : Decodes m bs a) (hf : Decodes (f a) bs' b) :
    Decodes (m >>= f) (bs ++ bs') b := by
  intro pre rest
  have h1 := hm pre (bs' ++ rest)
  have h2 := hf (pre ++ bs) rest
  simp only [List.append_assoc] at h1 h2 ⊢
  show (f (m _).1 (m _).2) = _
  rw [h1, h2]

/-- A final `return` of a value computed from what was read. -/
theorem map {g : α → β} (hm : Decodes m bs a) : Decodes (do return g (← m)) bs (g a) := by
  have h := bind (f := fun x => Pure.pure (g x)) hm (pure (g a))
  rwa [List.append_nil] at h

/-- A read of the bytes in front. -/
theorem read (bs : Bytes) : Decodes (ByteReader.read bs.length) bs (some bs) := by
  intro pre rest
  have hrem : ¬ ((⟨pre ++ bs ++ rest, pre.length, true⟩ : ByteReader).ok = false ∨
      ByteReader.remaining ⟨pre ++ bs ++ rest, pre.length, true⟩ < bs.length) := by
    simp [ByteReader.remaining]
  rw [ByteReader.read, if_neg hrem, List.append_assoc, List.drop_left, List.take_left,
    List.length_append]

/-- Reading back `n` little-endian bytes. -/
theorem readLe (n v : ℕ) : Decodes (ByteReader.readLe n) (leBytes n v) (v % 256 ^ n) := by
  have h := Decodes.map (g := fun o => leValue (o.getD [])) (Decodes.read (leBytes n v))
  rw [leBytes_length] at h
  simpa only [ByteReader.readLe, Option.getD_some, leValue_leBytes] using h

/-- A written byte is read back. -/
theorem u8 (v : UInt8) : Decodes ByteReader.u8 (ByteWriter.u8 v) v := by
  have h := Decodes.map (g := UInt8.ofNat) (Decodes.readLe 1 v.toNat)
  have hb : leBytes 1 v.toNat = ByteWriter.u8 v := by
    simp [leBytes, ByteWriter.u8, Nat.mod_eq_of_lt v.toNat_lt]
  have hv : UInt8.ofNat (v.toNat % 256 ^ 1) = v := by simp [Nat.mod_eq_of_lt v.toNat_lt]
  rwa [hb, hv] at h

/-- A written 32-bit integer is read back. -/
theorem u32 (v : UInt32) : Decodes ByteReader.u32 (ByteWriter.u32 v) v := by
  have h := Decodes.map (g := UInt32.ofNat) (Decodes.readLe 4 v.toNat)
  have hv : UInt32.ofNat (v.toNat % 256 ^ 4) = v := by
    rw [Nat.mod_eq_of_lt (by simpa using v.toNat_lt), UInt32.ofNat_toNat]
  rwa [hv] at h

/-- A written 64-bit integer is read back. -/
theorem u64 (v : UInt64) : Decodes ByteReader.u64 (ByteWriter.u64 v) v := by
  have h := Decodes.map (g := UInt64.ofNat) (Decodes.readLe 8 v.toNat)
  have hv : UInt64.ofNat (v.toNat % 256 ^ 8) = v := by
    rw [Nat.mod_eq_of_lt (by simpa using v.toNat_lt), UInt64.ofNat_toNat]
  rwa [hv] at h

/-- A written signed integer is read back. -/
theorem i64 (v : Int64) : Decodes ByteReader.i64 (ByteWriter.i64 v) v := by
  have h := Decodes.map (g := UInt64.toInt64) (Decodes.u64 v.toUInt64)
  rwa [Int64.toInt64_toUInt64] at h

/-- A written boolean is read back. -/
theorem bool (v : Bool) : Decodes ByteReader.bool (ByteWriter.bool v) v := by
  have h := Decodes.map (g := fun b : UInt8 => decide (b ≠ 0))
    (Decodes.u8 (if v then 1 else 0))
  have hv : decide ((if v then (1 : UInt8) else 0) ≠ 0) = v := by cases v <;> rfl
  rwa [hv] at h

/-- A string shorter than `2 ^ 32` bytes reads back. -/
theorem str {s : Bytes} (hs : s.length < 2 ^ 32) :
    Decodes ByteReader.str (ByteWriter.str s) s := by
  have hn : (UInt32.ofNat s.length).toNat = s.length := by
    rw [UInt32.toNat_ofNat']
    exact Nat.mod_eq_of_lt hs
  have hread : Decodes (do return (← ByteReader.read s.length).getD []) s s :=
    Decodes.map (g := fun o => o.getD []) (Decodes.read s)
  refine Decodes.bind (Decodes.u32 _) ?_
  rw [hn]
  exact hread

/-- A written string is read back, unless its length needs more than 32 bits. -/
theorem bytes {s : Bytes} (hs : s.length < 2 ^ 32) :
    Decodes ByteReader.bytes (ByteWriter.bytes s) s :=
  Decodes.str hs

/-- Testing the flag reads nothing, and nothing has failed. -/
theorem isOk : Decodes ByteReader.isOk [] true := by
  intro pre rest
  simp only [List.append_nil]
  rfl

/-- Going on after a test of the flag. -/
theorem testOk {f : Bool → Reader β} (hf : Decodes (f true) bs b) :
    Decodes (ByteReader.isOk >>= f) bs b :=
  bind isOk hf

/-- A counted loop decodes the concatenation of its elements' encodings. -/
theorem repeatOk {γ : Type} {m : Reader α} {enc : γ → Bytes} {val : γ → α} :
    ∀ {l : List γ}, (∀ x ∈ l, Decodes m (enc x) (val x)) →
      Decodes (ByteReader.repeatOk m l.length) (l.flatMap enc) (l.map val)
  | [], _ => Decodes.pure []
  | x :: l, h => by
      have hx := h x List.mem_cons_self
      have hl := repeatOk fun y hy => h y (List.mem_cons_of_mem _ hy)
      have hbody := Decodes.bind (f := fun a => do return a :: (← ByteReader.repeatOk m l.length))
        hx (Decodes.map (g := fun as => val x :: as) hl)
      -- the loop test reads nothing and succeeds, since nothing has failed so far
      intro pre rest
      exact hbody pre rest

end Decodes

/-! ## Decoding what a byte string begins with -/

/-- Whatever the program `m` is started on, it returns a value with the property. -/
def Returns {α : Type} (m : Reader α) (P : α → Prop) : Prop := ∀ r, P (m r).1

/-- The program `m`, started in front of `bs` anywhere in a buffer, returns a value with the
property. It may consume less than `bs` or more, or fail. -/
def Reads {α : Type} (m : Reader α) (bs : Bytes) (P : α → Prop) : Prop :=
  ∀ pre rest : Bytes, P (m ⟨pre ++ bs ++ rest, pre.length, true⟩).1

section
variable {α β : Type} {m : Reader α} {f : α → Reader β} {bs bs' : Bytes} {a : α} {P : α → Prop}
  {Q : β → Prop}

/-- What is returned at once has the property. -/
theorem Returns.pure (h : P a) : Returns (Pure.pure a) P := fun _ => h

/-- What is read first does not matter. -/
theorem Returns.bind (hf : ∀ a, Returns (f a) Q) :
    Returns (m >>= f) Q := fun r => hf (m r).1 (m r).2

/-- A value that always has the property has it in front of every encoding. -/
theorem Returns.reads (h : Returns m P) : Reads m bs P := fun _ _ => h _

/-- A program that decodes what is in front, and then goes on. -/
theorem Reads.bind (hm : Decodes m bs a) (hf : Reads (f a) bs' Q) :
    Reads (m >>= f) (bs ++ bs') Q := by
  intro pre rest
  have h1 := hm pre (bs' ++ rest)
  have h2 := hf (pre ++ bs) rest
  simp only [List.append_assoc] at h1 h2 ⊢
  show Q (f (m _).1 (m _).2).1
  rw [h1]
  exact h2

/-- What is read of a buffer that holds the encoding and nothing else. -/
theorem Reads.whole (h : Reads m bs P) : P (m ⟨bs, 0, true⟩).1 := by
  simpa only [List.nil_append, List.append_nil, List.length_nil] using h [] []

/-- Going on with a value that has the property. -/
theorem Reads.step (hm : Reads m bs P) (hf : ∀ a, P a → Returns (f a) Q) : Reads (m >>= f) bs Q :=
  fun pre rest => hf _ (hm pre rest) _

/-- A program that decodes `bs` reads its value. -/
theorem Decodes.reads (h : Decodes m bs a) (ha : P a) : Reads m bs P := by
  intro pre rest
  rw [h pre rest]
  exact ha

end

/-! ## Counted lists -/

section Lengths
variable {α : Type} {f : α → Bytes} {l : List α}

/-- An element's encoding is no longer than the list's. -/
theorem length_le_flatMap {x : α} (hx : x ∈ l) : (f x).length ≤ (l.flatMap f).length := by
  obtain ⟨s, t, rfl⟩ := List.append_of_mem hx
  simp only [List.flatMap_append, List.flatMap_cons, List.length_append]
  omega

/-- A list of non-empty encodings has at least one byte an element. -/
theorem length_le_flatMap_length (hf : ∀ x, 0 < (f x).length) :
    l.length ≤ (l.flatMap f).length := by
  induction l with
  | nil => simp
  | cons x l ih =>
      have := hf x
      simp only [List.flatMap_cons, List.length_append, List.length_cons]
      omega

end Lengths

/-- A count below `2 ^ 32` survives the cast to `uint32_t`. -/
theorem toNat_ofNat_length {n : ℕ} (h : n < 2 ^ 32) : (UInt32.ofNat n).toNat = n := by
  rw [UInt32.toNat_ofNat']
  exact Nat.mod_eq_of_lt h

/-- A loop over a count that was written as `uint32_t` decodes the list. -/
theorem Decodes.counted {α γ : Type} {m : Reader α} {enc : γ → Bytes} {g : γ → α} {l : List γ}
    (hlen : l.length < 2 ^ 32) (h : ∀ x ∈ l, Decodes m (enc x) (g x)) :
    Decodes (ByteReader.repeatOk m (UInt32.ofNat l.length).toNat) (l.flatMap enc) (l.map g) := by
  rw [toNat_ofNat_length hlen]
  exact Decodes.repeatOk h

/-- A list of strings decodes behind its count. -/
theorem decodes_strs {l : List Bytes} (hlen : (l.flatMap ByteWriter.str).length < 2 ^ 32) :
    Decodes (ByteReader.repeatOk ByteReader.str (UInt32.ofNat l.length).toNat)
      (l.flatMap ByteWriter.str) l := by
  have hpos : ∀ s, 0 < (ByteWriter.str s).length := fun s => by rw [ByteWriter.str_length]; omega
  have h := Decodes.counted (g := id)
    (Nat.lt_of_le_of_lt (length_le_flatMap_length hpos) hlen) fun s hs => by
    have hle := length_le_flatMap (f := ByteWriter.str) hs
    rw [ByteWriter.str_length] at hle
    exact Decodes.str (s := s) (by omega)
  rwa [List.map_id] at h

end EOSEmu
