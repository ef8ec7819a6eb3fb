import EOSEmu.Net.Robust
import Mathlib.Data.List.Range

/-!
# `ByteReader` over memory

`ByteReader` holds a pointer and `size_t` counters: nothing but its own tests keeps a read inside
the buffer, and `Len_ - Pos_` wraps if the position is past the end. `RawReader` is that reader,
with the offsets it has read from. As long as the position is inside the buffer it behaves as the
list model, which the decoders are built from.
-/

namespace EOSEmu

/-- `net::ByteReader` as the code holds it: `mem` is the memory from `Data_` on, of which `len`
bytes are the buffer. `touched` collects the offsets read so far. -/
structure RawReader where
  mem : ℕ → UInt8
  len : UInt64
  pos : UInt64 := 0
  ok : Bool := true
  touched : List ℕ := []

namespace RawReader

/-- `ByteReader::Remaining`, a `size_t` subtraction. -/
def remaining (r : RawReader) : UInt64 := r.len - r.pos

/-- Copying `n` bytes from `Data_ + Pos_` and advancing. -/
def copy (n : UInt64) : StateM RawReader Bytes := fun r =>
  let offsets := (List.range n.toNat).map (r.pos.toNat + ·)
  (offsets.map r.mem, { r with pos := r.pos + n, touched := r.touched ++ offsets })

/-- Copying behind the test that `Read`, `Str` and `Bytes` share. -/
def read (n : UInt64) : StateM RawReader (Option Bytes) := fun r =>
  if r.ok = false ∨ r.remaining < n then (none, { r with ok := false })
  else (some (copy n r).1, (copy n r).2)

/-- `ByteReader::U32`. -/
def u32 : StateM RawReader UInt32 := do return UInt32.ofNat (leValue ((← read 4).getD []))

/-- `ByteReader::Str` and `ByteReader::Bytes`. -/
def str : StateM RawReader Bytes := do
  let n ← u32
  return (← read n.toUInt64).getD []

/-- The position is inside the buffer, and so is everything read so far. -/
structure InBounds (r : RawReader) : Prop where
  pos : r.pos ≤ r.len
  touched : ∀ k ∈ r.touched, k < r.len.toNat

/-- The reader as the list model has it. -/
def view (r : RawReader) : ByteReader :=
  { data := (List.range r.len.toNat).map r.mem, pos := r.pos.toNat, ok := r.ok }

end RawReader

/-- The reading operations: the ones that copy an integer or a double of some width, and the
counted ones. -/
inductive ReadOp where
  | fixed (width : UInt64)
  | counted

namespace ReadOp

/-- `U8` and `Bool`. -/
def u8 : ReadOp := .fixed 1

/-- `U16`. -/
def u16 : ReadOp := .fixed 2

/-- `U32`. -/
def u32 : ReadOp := .fixed 4

/-- `U64`, `I64` and `Dbl`. -/
def u64 : ReadOp := .fixed 8

/-- `Str` and `Bytes`. -/
def str : ReadOp := .counted

/-- The bytes an operation yields, none when it fails. -/
def raw : ReadOp → StateM RawReader Bytes
  | .fixed width => do return (← RawReader.read width).getD []
  | .counted => RawReader.str

/-- The operation of the list model. -/
def model : ReadOp → Reader Bytes
  | .fixed width => do return (← ByteReader.read width.toNat).getD []
  | .counted => ByteReader.str

instance model_contained : ∀ op : ReadOp, Contained op.model
  | .fixed width => inferInstanceAs (Contained (do return (← ByteReader.read width.toNat).getD []))
  | .counted => Contained.str

end ReadOp

/-- The reader after a sequence of operations. -/
def RawReader.run (r : RawReader) (ops : List ReadOp) : RawReader :=
  ops.foldl (fun r op => (op.raw r).2) r

/-- The list model after a sequence of operations. -/
def ByteReader.run (r : ByteReader) (ops : List ReadOp) : ByteReader :=
  ops.foldl (fun r op => (op.model r).2) r

namespace RawReader
variable {r : RawReader}

/-- Inside the buffer the subtraction does not wrap. -/
theorem remaining_toNat (h : r.pos ≤ r.len) : r.remaining.toNat = r.len.toNat - r.pos.toNat :=
  UInt64.toNat_sub_of_le _ _ h

/-- Inside the buffer the test of `read` is the one of the list model. -/
theorem remaining_lt (h : r.pos ≤ r.len) (n : UInt64) :
    r.remaining < n ↔ r.view.remaining < n.toNat := by
  rw [UInt64.lt_iff_toNat_lt, remaining_toNat h]
  simp [view, ByteReader.remaining]

/-- A copy of bytes that are there leaves the reader inside the buffer. -/
theorem copy_pos (h : r.pos ≤ r.len) {n : UInt64} (hn : ¬ r.remaining < n) :
    (r.pos + n).toNat = r.pos.toNat + n.toNat ∧ r.pos.toNat + n.toNat ≤ r.len.toNat := by
  have hle := UInt64.le_iff_toNat_le.1 h
  have hlen := r.len.toNat_lt
  rw [UInt64.lt_iff_toNat_lt, remaining_toNat h] at hn
  rw [UInt64.toNat_add, Nat.mod_eq_of_lt (by omega)]
  omega

/-- A read leaves the reader inside the buffer. -/
theorem read_inBounds (h : r.InBounds) (n : UInt64) : (read n r).2.InBounds := by
  simp only [read]
  split
  · exact ⟨h.pos, h.touched⟩
  · rename_i hread
    have ⟨hpos, hle⟩ := copy_pos h.pos fun hn => hread (Or.inr hn)
    refine ⟨UInt64.le_iff_toNat_le.2 (by simp only [copy]; omega), ?_⟩
    intro k hk
    simp only [copy, List.mem_append, List.mem_map, List.mem_range] at hk ⊢
    rcases hk with hk | ⟨i, hi, rfl⟩
    · exact h.touched k hk
    · omega

/-- A read changes neither the memory nor the length. -/
theorem read_frame (n : UInt64) : (read n r).2.mem = r.mem ∧ (read n r).2.len = r.len := by
  simp only [read]
  split <;> exact ⟨rfl, rfl⟩

/-- The bytes copied are the ones of the buffer. -/
theorem copy_view (h : r.pos ≤ r.len) {n : UInt64} (hn : ¬ r.remaining < n) :
    ((r.view.data.drop r.view.pos).take n.toNat) = (copy n r).1 := by
  have ⟨_, hle⟩ := copy_pos h hn
  apply List.ext_getElem
  · simp only [view, copy, List.length_take, List.length_drop, List.length_map, List.length_range]
    omega
  · intro i h1 h2
    simp [view, copy]

/-- Inside the buffer a read is one of the list model. -/
theorem read_view (h : r.pos ≤ r.len) (n : UInt64) :
    ByteReader.read n.toNat r.view = ((read n r).1, (read n r).2.view) := by
  by_cases hfail : r.ok = false ∨ r.remaining < n
  · have hmodel : r.view.ok = false ∨ r.view.remaining < n.toNat := by rwa [← remaining_lt h]
    rw [ByteReader.read, if_pos hmodel, read, if_pos hfail]
    rfl
  · have hmodel : ¬ (r.view.ok = false ∨ r.view.remaining < n.toNat) := by rwa [← remaining_lt h]
    have hn : ¬ r.remaining < n := fun hn => hfail (Or.inr hn)
    rw [ByteReader.read, if_neg hmodel, read, if_neg hfail, copy_view h hn]
    have hpos := (copy_pos h hn).1
    simp [view, copy, hpos]

/-- A read past the end fails. -/
theorem read_past (h : r.InBounds) {n : UInt64} (hn : r.len.toNat < r.pos.toNat + n.toNat) :
    (read n r).2.ok = false := by
  have hlt : r.remaining < n := by
    rw [UInt64.lt_iff_toNat_lt, remaining_toNat h.pos]
    have := n.toNat_lt
    have := UInt64.le_iff_toNat_le.1 h.pos
    omega
  rw [read, if_pos (Or.inr hlt)]

/-- A counted operation is two reads. -/
theorem str_state : (str r).2 = (read (UInt32.ofNat (leValue ((read 4 r).1.getD []))).toUInt64
    (read 4 r).2).2 := rfl

/-- An operation leaves the reader inside the buffer. -/
theorem raw_inBounds (h : r.InBounds) : ∀ op : ReadOp, (op.raw r).2.InBounds
  | .fixed n => read_inBounds h n
  | .counted => by
      show (str r).2.InBounds
      rw [str_state]
      exact read_inBounds (read_inBounds h 4) _

/-- An operation changes neither the memory nor the length. -/
theorem raw_frame : ∀ op : ReadOp, (op.raw r).2.mem = r.mem ∧ (op.raw r).2.len = r.len
  | .fixed n => read_frame n
  | .counted => by
      show (str r).2.mem = _ ∧ (str r).2.len = _
      rw [str_state]
      exact ⟨(read_frame _).1.trans (read_frame 4).1, (read_frame _).2.trans (read_frame 4).2⟩

/-- Inside the buffer every operation is the one of the list model: it yields the same bytes and
leaves the same reader. -/
theorem raw_view (h : r.InBounds) :
    ∀ op : ReadOp, op.model r.view = ((op.raw r).1, (op.raw r).2.view)
  | .fixed n => by
      have hread := read_view h.pos n
      show ((ByteReader.read n.toNat r.view).1.getD [], (ByteReader.read n.toNat r.view).2) = _
      rw [hread]
      rfl
  | .counted => by
      have h1 : ByteReader.read 4 r.view = _ := read_view h.pos 4
      have h2 := read_view (read_inBounds h 4).pos
        (UInt32.ofNat (leValue ((read 4 r).1.getD []))).toUInt64
      rw [UInt32.toNat_toUInt64] at h2
      show ByteReader.str r.view = _
      have hu32 : ByteReader.u32 r.view =
        (UInt32.ofNat (leValue ((read 4 r).1.getD [])), (read 4 r).2.view) := by
        show (UInt32.ofNat (leValue ((ByteReader.read 4 r.view).1.getD [])),
          (ByteReader.read 4 r.view).2) = _
        rw [h1]
      show ((ByteReader.read (ByteReader.u32 r.view).1.toNat (ByteReader.u32 r.view).2).1.getD [],
        (ByteReader.read (ByteReader.u32 r.view).1.toNat (ByteReader.u32 r.view).2).2) = _
      rw [hu32, h2]
      rfl

/-- Operations in any order leave the reader inside the buffer, having read only bytes of it. -/
theorem run_inBounds (h : r.InBounds) (ops : List ReadOp) : (r.run ops).InBounds := by
  induction ops generalizing r with
  | nil => exact h
  | cons op ops ih => exact ih (raw_inBounds h op)

/-- Operations keep the length. -/
theorem run_len (ops : List ReadOp) : (r.run ops).len = r.len := by
  induction ops generalizing r with
  | nil => rfl
  | cons op ops ih => exact ih.trans (raw_frame op).2

/-- Inside the buffer a run is the one of the list model. -/
theorem run_view (h : r.InBounds) (ops : List ReadOp) : r.view.run ops = (r.run ops).view := by
  induction ops generalizing r with
  | nil => rfl
  | cons op ops ih =>
      show (op.model r.view).2.run ops = _
      rw [raw_view h op]
      exact ih (raw_inBounds h op)

end RawReader

/-- A failure lasts through any operations. -/
theorem ByteReader.run_failed {r : ByteReader} (h : r.ok = false) (ops : List ReadOp) :
    (r.run ops).ok = false := by
  induction ops generalizing r with
  | nil => exact h
  | cons op ops ih => exact ih (op.model_contained.failed r h)

end EOSEmu
