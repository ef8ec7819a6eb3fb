import EOSEmu.Lib.ByteMemory
import EOSEmu.Lib.Run
import Mathlib.Data.List.Pairwise

/-!
# The layout of API blocks

The address arithmetic of `AllocApiBlock` and `AttachBytes` (`core/Memory.cpp`), on words and over
a memory of bytes: a block keeps a `BlockHeader` right before the pointer that is handed out, and
an attachment starts with an `AttachNode`. `EOSEmu.Core.Memory` has the blocks without their
addresses. What an allocator answers is an argument of each call, and `Arena.Granted` is what it
promises.
-/

namespace EOSEmu

open Lib

/-- What a platform fixes: the width of `size_t`, `uintptr_t` and pointers, and by their binary
logarithms `sizeof(void*)` and `alignof(std::max_align_t)`. -/
structure Abi where
  bits : ℕ
  pointerLog : ℕ
  maxAlignLog : ℕ
  bits_eq : bits = 8 * 2 ^ pointerLog
  pointer_aligned : pointerLog ≤ maxAlignLog
  maxAlign_lt : maxAlignLog + 1 < bits

namespace Abi

/-- The platform of the repository's builds. -/
def x64 : Abi := ⟨64, 3, 4, rfl, by decide, by decide⟩

variable (abi : Abi)

/-- A `size_t`, a `uintptr_t` or a pointer. -/
abbrev Word : Type := BitVec abi.bits

/-- `SIZE_MAX`. -/
def sizeMax : ℕ := 2 ^ abi.bits - 1

def pointerSize : ℕ := 2 ^ abi.pointerLog
def maxAlign : abi.Word := BitVec.ofNat abi.bits (2 ^ abi.maxAlignLog)

/-- `sizeof(BlockHeader)`: the pointers `Base` and `Attachments`. -/
def sizeofHeader : abi.Word := BitVec.ofNat abi.bits (2 * abi.pointerSize)

/-- `sizeof(AttachNode)`: the pointer `Next`. -/
def sizeofNode : abi.Word := BitVec.ofNat abi.bits abi.pointerSize

end Abi

variable {abi : Abi}

namespace Layout

/-- `RoundUpPow2`. -/
def roundUpPow2 (alignment : abi.Word) : abi.Word :=
  if alignment < abi.maxAlign then abi.maxAlign else alignment

/-- The size asked of the allocator, with a header or a node in front of the payload:
`Prefix + Size` and `NodeSpan + Size`. -/
def requested (front size alignment : abi.Word) : abi.Word := front + roundUpPow2 alignment + size

/-- The address of the payload: the first aligned one behind the header or node. -/
def placed (front base alignment : abi.Word) : abi.Word :=
  alignUp (base + front) (roundUpPow2 alignment)

/-- `HeaderOf`. -/
def headerOf (block : abi.Word) : abi.Word := block - abi.sizeofHeader

/-- The addresses of `Header->Base` and `Header->Attachments`. -/
def baseField (block : abi.Word) : abi.Word := headerOf block
def attachmentsField (block : abi.Word) : abi.Word := headerOf block + abi.sizeofNode

def storeWord (memory : ByteMemory) (address value : abi.Word) : ByteMemory :=
  memory.storeNat address.toNat abi.pointerSize value.toNat

def loadWord (memory : ByteMemory) (address : abi.Word) : abi.Word :=
  BitVec.ofNat abi.bits (memory.loadNat address.toNat abi.pointerSize)

/-- `memset` with zero. -/
def clear (memory : ByteMemory) (address size : abi.Word) : ByteMemory :=
  memory.write address.toNat size.toNat fun _ => 0

end Layout

open Layout

/-- A live allocation: a block, or an attachment with the block it belongs to. -/
structure Piece (abi : Abi) where
  owner : Option abi.Word
  base : abi.Word
  size : abi.Word
  alignment : abi.Word

namespace Piece
variable (p : Piece abi)

/-- The size of its header or node. -/
def frontSize : abi.Word :=
  match p.owner with
  | none => abi.sizeofHeader
  | some _ => abi.sizeofNode

def requested : abi.Word := Layout.requested p.frontSize p.size p.alignment
def payload : abi.Word := placed p.frontSize p.base p.alignment

/-- The address of its header or node. -/
def frontAddress : abi.Word :=
  match p.owner with
  | none => headerOf p.payload
  | some _ => p.base

/-- The addresses of the header or node, of the payload, and of all that was allocated. -/
def front : Set ℕ := Set.Ico p.frontAddress.toNat (p.frontAddress.toNat + p.frontSize.toNat)
def handedOut : Set ℕ := Set.Ico p.payload.toNat (p.payload.toNat + p.size.toNat)
def allocated : Set ℕ := Set.Ico p.base.toNat (p.base.toNat + p.requested.toNat)

end Piece

/-- The memory, and the live allocations from the newest on. -/
structure Arena (abi : Abi) where
  memory : ByteMemory := fun _ => 0
  pieces : List (Piece abi) := []

namespace Arena
variable (s : Arena abi)

/-- `AllocApiBlock`, with the pointer the allocator returns. -/
def allocApiBlock (size alignment base : abi.Word) : abi.Word × Arena abi :=
  if base = 0 then (0, s)
  else
    let block := placed abi.sizeofHeader base alignment
    let memory := storeWord s.memory (baseField block) base
    let memory := storeWord memory (attachmentsField block) 0
    (block, { memory := clear memory block size, pieces := ⟨none, base, size, alignment⟩ ::
      s.pieces })

/-- `AttachBytes`, with the pointer the allocator returns. -/
def attachBytes (block size alignment raw : abi.Word) : abi.Word × Arena abi :=
  if block = 0 ∨ raw = 0 then (0, s)
  else
    let payload := placed abi.sizeofNode raw alignment
    let memory := storeWord s.memory raw (loadWord s.memory (attachmentsField block))
    let memory := storeWord memory (attachmentsField block) raw
    (payload, { memory := clear memory payload size, pieces := ⟨some block, raw, size,
      alignment⟩ :: s.pieces })

/-- Whoever holds a payload writes to it. -/
def write (start : ℕ) (bytes : List UInt8) : Arena abi :=
  { s with memory := s.memory.write start bytes.length fun i => bytes.getD i 0 }

/-- The `while` loop of `FreeApiBlock`: the nodes that are released, in order. -/
def walk : ℕ → abi.Word → List abi.Word
  | 0, _ => []
  | fuel + 1, node => if node = 0 then [] else node :: walk fuel (loadWord s.memory node)

/-- What `FreeApiBlock` releases. -/
def released (block : abi.Word) : List abi.Word :=
  s.walk s.pieces.length (loadWord s.memory (attachmentsField block)) ++
    [loadWord s.memory (baseField block)]

/-- `FreeApiBlock`. -/
def freeApiBlock (block : abi.Word) : Arena abi :=
  if block = 0 then s else { s with pieces := s.pieces.filter fun p => p.base ∉ s.released block }

end Arena

/-- A call of the module, or a write to a payload. -/
inductive LayoutCall (abi : Abi) where
  | allocApiBlock (size alignment base : abi.Word)
  | attachBytes (block size alignment raw : abi.Word)
  | write (start : ℕ) (bytes : List UInt8)
  | freeApiBlock (block : abi.Word)

namespace Arena

def call (s : Arena abi) : LayoutCall abi → Arena abi
  | .allocApiBlock size alignment base => (s.allocApiBlock size alignment base).2
  | .attachBytes block size alignment raw => (s.attachBytes block size alignment raw).2
  | .write start bytes => s.write start bytes
  | .freeApiBlock block => s.freeApiBlock block

end Arena

/-! ## The arithmetic of one allocation -/

/-- The alignments the API asks for. -/
def Layout.IsPowerOfTwo (alignment : abi.Word) : Prop := ∃ k, alignment.toNat = 2 ^ k

namespace Piece
variable (p : Piece abi)

/-- What is allocated beside the payload. -/
def overhead : ℕ := p.frontSize.toNat + (roundUpPow2 p.alignment).toNat

/-- What its call asks for: a power of two, and a size that leaves room for the overhead. -/
structure Asked : Prop where
  alignment : IsPowerOfTwo p.alignment
  size : p.size.toNat + p.overhead ≤ abi.sizeMax

/-- What an allocator promises of the pointer it returns: it is aligned for every type, and the
memory asked for lies behind it. -/
structure Granted : Prop where
  base : p.base ≠ 0
  aligned : abi.maxAlign.toNat ∣ p.base.toNat
  inside : p.base.toNat + p.requested.toNat ≤ 2 ^ abi.bits

end Piece

section Constants

/-- A power below the word size is smaller than the number of words. -/
theorem two_pow_lt {k : ℕ} (h : k < abi.bits) : 2 ^ k < 2 ^ abi.bits :=
  Nat.pow_lt_pow_right (by decide) h

@[simp] theorem toNat_maxAlign : abi.maxAlign.toNat = 2 ^ abi.maxAlignLog :=
  Nat.mod_eq_of_lt (two_pow_lt (by have := abi.maxAlign_lt; omega))

/-- A header of two pointers takes a power of two. -/
theorem two_mul_pointerSize : 2 * abi.pointerSize = 2 ^ (abi.pointerLog + 1) := by
  rw [Abi.pointerSize, pow_succ, Nat.mul_comm]

@[simp] theorem toNat_sizeofHeader : abi.sizeofHeader.toNat = 2 * abi.pointerSize := by
  refine Nat.mod_eq_of_lt ?_
  rw [two_mul_pointerSize]
  have := abi.pointer_aligned
  have := abi.maxAlign_lt
  exact two_pow_lt (by omega)

@[simp] theorem toNat_sizeofNode : abi.sizeofNode.toNat = abi.pointerSize := by
  have := abi.pointer_aligned
  have := abi.maxAlign_lt
  exact Nat.mod_eq_of_lt (two_pow_lt (by omega))

/-- A pointer takes room. -/
theorem pointerSize_pos : 0 < abi.pointerSize := Nat.two_pow_pos _

/-- A pointer's bytes hold every word. -/
theorem word_lt (v : abi.Word) : v.toNat < 256 ^ abi.pointerSize := by
  have hbits : 256 ^ abi.pointerSize = 2 ^ abi.bits := by
    rw [abi.bits_eq, Abi.pointerSize, pow_mul]
    rfl
  rw [hbits]
  exact v.isLt

end Constants

namespace Layout

/-- A power of two is rounded to one that it divides, and that every type divides. -/
theorem roundUpPow2_spec {alignment : abi.Word} (h : IsPowerOfTwo alignment) :
    ∃ k, (roundUpPow2 alignment).toNat = 2 ^ k ∧ abi.maxAlignLog ≤ k ∧
    alignment.toNat ∣ 2 ^ k := by
  obtain ⟨k, hk⟩ := h
  unfold roundUpPow2
  split_ifs with hsmall
  · rw [BitVec.lt_def, hk, toNat_maxAlign] at hsmall
    refine ⟨abi.maxAlignLog, toNat_maxAlign, le_rfl, ?_⟩
    rw [hk]
    exact Nat.pow_dvd_pow 2 ((Nat.pow_lt_pow_iff_right (by decide)).1 hsmall).le
  · rw [BitVec.lt_def, hk, toNat_maxAlign, not_lt] at hsmall
    exact ⟨k, hk, (Nat.pow_le_pow_iff_right (by decide)).1 hsmall, hk.dvd⟩

/-- A payload is aligned as asked for, whatever its size and wherever the allocation is. -/
theorem placed_aligned {alignment : abi.Word} (h : IsPowerOfTwo alignment) (front base : abi.Word) :
    alignment.toNat ∣ (placed front base alignment).toNat := by
  obtain ⟨k, hk, _, hdvd⟩ := roundUpPow2_spec h
  exact hdvd.trans (dvd_alignUp _ hk)

end Layout

namespace Piece
variable {p : Piece abi}

/-- The size computation does not wrap. -/
theorem Asked.toNat_requested (h : p.Asked) : p.requested.toNat = p.overhead + p.size.toNat := by
  have hsize := h.size
  have hpos := Nat.two_pow_pos abi.bits
  rw [overhead, Abi.sizeMax] at hsize
  have hprefix : (p.frontSize + roundUpPow2 p.alignment).toNat = p.overhead := by
    rw [BitVec.toNat_add, Nat.mod_eq_of_lt (by omega), overhead]
  rw [requested, Layout.requested, BitVec.toNat_add, hprefix, overhead,
    Nat.mod_eq_of_lt (by omega)]

/-- Where an allocation's parts are. -/
structure Placed (p : Piece abi) : Prop where
  room : p.base.toNat + p.frontSize.toNat ≤ p.payload.toNat
  inside : p.payload.toNat + p.size.toNat < p.base.toNat + p.requested.toNat

/-- What was asked for in range and granted has its front and payload inside. -/
theorem placed_of_asked (ha : p.Asked) (hg : p.Granted) : p.Placed := by
  obtain ⟨k, hk, _, _⟩ := roundUpPow2_spec ha.alignment
  have hrequested := ha.toNat_requested
  have hinside := hg.inside
  have hpos := Nat.two_pow_pos k
  rw [overhead, hk] at hrequested
  have hstart : (p.base + p.frontSize).toNat = p.base.toNat + p.frontSize.toNat := by
    rw [BitVec.toNat_add, Nat.mod_eq_of_lt (by omega)]
  obtain ⟨hlow, hhigh⟩ := alignUp_bounds hk (x := p.base + p.frontSize) (by omega)
  rw [hstart] at hlow hhigh
  rw [← placed, ← payload] at hlow hhigh
  exact ⟨hlow, by omega⟩

/-- In front of a block lies a header of two pointers. -/
theorem frontSize_block (h : p.owner = none) : p.frontSize.toNat = 2 * abi.pointerSize := by
  simp [frontSize, h]

/-- In front of an attachment lies a node of one pointer. -/
theorem frontSize_node {block : abi.Word} (h : p.owner = some block) :
    p.frontSize.toNat = abi.pointerSize := by
  simp [frontSize, h]

/-- A block's header ends at its payload. -/
theorem frontAddress_block (h : p.owner = none) : p.frontAddress = headerOf p.payload := by
  rw [frontAddress, h]

/-- An attachment's node starts at the granted address. -/
theorem frontAddress_node {block : abi.Word} (h : p.owner = some block) :
    p.frontAddress = p.base := by
  rw [frontAddress, h]

/-- A header ends where the payload starts. -/
theorem Placed.toNat_headerOf (h : p.Placed) (howner : p.owner = none) :
    (headerOf p.payload).toNat + 2 * abi.pointerSize = p.payload.toNat := by
  have hroom := h.room
  rw [frontSize_block howner] at hroom
  have hle : abi.sizeofHeader ≤ p.payload := by
    rw [BitVec.le_def, toNat_sizeofHeader]
    omega
  rw [headerOf, BitVec.toNat_sub_of_le hle, toNat_sizeofHeader]
  omega

/-- The header or node lies between the start of the allocation and the payload. -/
theorem Placed.front_bounds (h : p.Placed) :
    p.base.toNat ≤ p.frontAddress.toNat ∧ p.frontAddress.toNat + p.frontSize.toNat ≤
      p.payload.toNat := by
  have hroom := h.room
  cases howner : p.owner with
  | none =>
      have hend := h.toNat_headerOf howner
      rw [frontSize_block howner] at hroom ⊢
      rw [frontAddress_block howner]
      omega
  | some block =>
      rw [frontAddress_node howner]
      exact ⟨le_rfl, hroom⟩

/-- The header or node is aligned for the pointers it holds. -/
theorem pointerSize_dvd_frontAddress (ha : p.Asked) (hg : p.Granted) :
    abi.pointerSize ∣ p.frontAddress.toNat := by
  obtain ⟨k, hk, hlarge, _⟩ := roundUpPow2_spec ha.alignment
  cases howner : p.owner with
  | none =>
      have hpayload : abi.pointerSize ∣ p.payload.toNat :=
        (Nat.pow_dvd_pow 2 (abi.pointer_aligned.trans hlarge)).trans (dvd_alignUp _ hk)
      rw [← (placed_of_asked ha hg).toNat_headerOf howner] at hpayload
      rw [frontAddress_block howner]
      exact (Nat.dvd_add_iff_left (Nat.dvd_mul_left _ _)).2 hpayload
  | some block =>
      have hpointer : abi.pointerSize ∣ abi.maxAlign.toNat := by
        rw [toNat_maxAlign]
        exact Nat.pow_dvd_pow 2 abi.pointer_aligned
      rw [frontAddress_node howner]
      exact hpointer.trans hg.aligned

/-- How an allocation is laid out: the payload is aligned as asked for and the header or node for
its pointers, the allocation holds the overhead and the payload, and in it the two lie apart. -/
structure LaidOut (p : Piece abi) : Prop where
  aligned : p.alignment.toNat ∣ p.payload.toNat
  front_aligned : abi.pointerSize ∣ p.frontAddress.toNat
  requested : p.requested.toNat = p.overhead + p.size.toNat
  front_inside : p.front ⊆ p.allocated
  inside : p.handedOut ⊆ p.allocated
  apart : Disjoint p.front p.handedOut

/-- The header or node lies within what was granted. -/
theorem Placed.front_subset (h : p.Placed) : p.front ⊆ p.allocated := by
  have hbounds := h.front_bounds
  have hinside := h.inside
  exact Set.Ico_subset_Ico (by omega) (by omega)

/-- What the caller gets lies within what was granted. -/
theorem Placed.handedOut_subset (h : p.Placed) : p.handedOut ⊆ p.allocated := by
  have hroom := h.room
  have hinside := h.inside
  exact Set.Ico_subset_Ico (by omega) (by omega)

/-- What the caller gets does not meet the header or node in front of it. -/
theorem Placed.apart (h : p.Placed) : Disjoint p.front p.handedOut :=
  Set.Ico_disjoint_Ico_same.mono_left (Set.Ico_subset_Ico_right h.front_bounds.2)

/-- An allocation that is asked for and granted is laid out. -/
theorem laidOut (ha : p.Asked) (hg : p.Granted) : p.LaidOut where
  aligned := placed_aligned ha.alignment _ _
  front_aligned := pointerSize_dvd_frontAddress ha hg
  requested := ha.toNat_requested
  front_inside := (placed_of_asked ha hg).front_subset
  inside := (placed_of_asked ha hg).handedOut_subset
  apart := (placed_of_asked ha hg).apart

end Piece

/-! ## Headers and chains in memory -/

namespace Layout

variable {memory memory' : ByteMemory}

/-- The bytes of a pointer. -/
def cell (address : abi.Word) : Set ℕ := Set.Ico address.toNat (address.toNat + abi.pointerSize)

/-- A word written is read back. -/
theorem loadWord_storeWord (memory : ByteMemory) (address value : abi.Word) :
    loadWord (storeWord memory address value) address = value := by
  rw [loadWord, storeWord, ByteMemory.loadNat_storeNat (word_lt value), BitVec.ofNat_toNat,
    BitVec.setWidth_eq]

/-- A word read depends on its own bytes only. -/
theorem loadWord_congr {address : abi.Word} (h : Set.EqOn memory memory' (cell address)) :
    loadWord memory address = loadWord memory' address := by
  rw [loadWord, loadWord, ByteMemory.loadNat_congr h]

/-- Writing a word changes no other byte. -/
theorem eqOn_storeWord {X : Set ℕ} {address value : abi.Word} (h : Disjoint X (cell address)) :
    Set.EqOn (storeWord memory address value) memory X :=
  ByteMemory.eqOn_write h

/-- The memory that `AllocApiBlock` leaves: a header with an empty chain, and a cleared payload. -/
def writeHeader (memory : ByteMemory) (block base size : abi.Word) : ByteMemory :=
  clear (storeWord (storeWord memory (baseField block) base) (attachmentsField block) 0) block size

/-- The memory that `AttachBytes` leaves: the node before what the header led to, and a cleared
payload. -/
def linkNode (memory : ByteMemory) (block node payload size : abi.Word) : ByteMemory :=
  clear (storeWord (storeWord memory node (loadWord memory (attachmentsField block)))
    (attachmentsField block) node) payload size

/-- The addresses that `memset` clears. -/
def cleared (payload size : abi.Word) : Set ℕ := Set.Ico payload.toNat (payload.toNat + size.toNat)

/-- Clearing a payload changes nothing outside it. -/
theorem eqOn_clear {X : Set ℕ} {payload size : abi.Word} (h : Disjoint X (cleared payload size)) :
    Set.EqOn (clear memory payload size) memory X :=
  ByteMemory.eqOn_write h

section
variable {block base node payload size : abi.Word}

/-- Writing a header changes nothing but its two fields and the cleared payload. -/
theorem eqOn_writeHeader {X : Set ℕ} (hbase : Disjoint X (cell (baseField block)))
    (hattachments : Disjoint X (cell (attachmentsField block)))
    (hpayload : Disjoint X (cleared block size)) :
    Set.EqOn memory (writeHeader memory block base size) X :=
  (((eqOn_clear hpayload).trans (eqOn_storeWord hattachments)).trans (eqOn_storeWord hbase)).symm

/-- A written header names the granted address and an empty chain. -/
theorem loadWord_writeHeader (memory : ByteMemory) (base : abi.Word)
    (hfields : Disjoint (cell (baseField block)) (cell (attachmentsField block)))
    (hbase : Disjoint (cell (baseField block)) (cleared block size))
    (hattachments : Disjoint (cell (attachmentsField block)) (cleared block size)) :
    loadWord (writeHeader memory block base size) (baseField block) = base ∧
      loadWord (writeHeader memory block base size) (attachmentsField block) = 0 := by
  constructor
  · rw [writeHeader, loadWord_congr (eqOn_clear hbase), loadWord_congr (eqOn_storeWord hfields),
      loadWord_storeWord]
  · rw [writeHeader, loadWord_congr (eqOn_clear hattachments), loadWord_storeWord]

/-- Linking a node changes nothing but the node, the chain's head and the cleared payload. -/
theorem eqOn_linkNode {X : Set ℕ} (hnode : Disjoint X (cell node))
    (hattachments : Disjoint X (cell (attachmentsField block)))
    (hpayload : Disjoint X (cleared payload size)) :
    Set.EqOn memory (linkNode memory block node payload size) X :=
  (((eqOn_clear hpayload).trans (eqOn_storeWord hattachments)).trans (eqOn_storeWord hnode)).symm

/-- A linked node comes first, and the old chain after it. -/
theorem loadWord_linkNode (memory : ByteMemory)
    (hfields : Disjoint (cell node) (cell (attachmentsField block)))
    (hnode : Disjoint (cell node) (cleared payload size))
    (hattachments : Disjoint (cell (attachmentsField block)) (cleared payload size)) :
    loadWord (linkNode memory block node payload size) (attachmentsField block) = node ∧
      loadWord (linkNode memory block node payload size) node =
        loadWord memory (attachmentsField block) := by
  constructor
  · rw [linkNode, loadWord_congr (eqOn_clear hattachments), loadWord_storeWord]
  · rw [linkNode, loadWord_congr (eqOn_clear hnode), loadWord_congr (eqOn_storeWord hfields),
      loadWord_storeWord]

end

/-- The chain of nodes from a pointer on. -/
def Chain (memory : ByteMemory) : abi.Word → List abi.Word → Prop
  | start, [] => start = 0
  | start, node :: nodes => start = node ∧ node ≠ 0 ∧ Chain memory (loadWord memory node) nodes

/-- A chain stands as long as its nodes are left alone. -/
theorem Chain.congr {start : abi.Word} {nodes : List abi.Word} (h : Chain memory start nodes)
    (heq : ∀ node ∈ nodes, Set.EqOn memory memory' (cell node)) : Chain memory' start nodes := by
  induction nodes generalizing start with
  | nil => exact h
  | cons node nodes ih =>
      obtain ⟨hstart, hnull, hrest⟩ := h
      rw [loadWord_congr (heq node List.mem_cons_self)] at hrest
      exact ⟨hstart, hnull, ih hrest fun node hnode => heq node (List.mem_cons_of_mem _ hnode)⟩

/-- The header of a block holds its base and leads to its nodes. -/
structure Headed (memory : ByteMemory) (block base : abi.Word) (nodes : List abi.Word) : Prop where
  base : loadWord memory (baseField block) = base
  chain : Chain memory (loadWord memory (attachmentsField block)) nodes

/-- A header leads to its nodes as long as its bytes and theirs stay. -/
theorem Headed.congr {block base : abi.Word} {nodes : List abi.Word}
    (h : Headed memory block base nodes) (hbase : Set.EqOn memory memory' (cell (baseField block)))
    (hattachments : Set.EqOn memory memory' (cell (attachmentsField block)))
    (hnodes : ∀ node ∈ nodes, Set.EqOn memory memory' (cell node)) :
      Headed memory' block base nodes where
  base := by rw [← loadWord_congr hbase, h.base]
  chain := by
    rw [← loadWord_congr hattachments]
    exact h.chain.congr hnodes

end Layout

namespace Piece
variable {p : Piece abi}

/-- A header has the cells of its two fields. -/
theorem Placed.fields (h : p.Placed) (howner : p.owner = none) :
    cell (baseField p.payload) ⊆ p.front ∧ cell (attachmentsField p.payload) ⊆ p.front ∧
      Disjoint (cell (baseField p.payload)) (cell (attachmentsField p.payload)) := by
  have hend := h.toNat_headerOf howner
  have hpayload := p.payload.isLt
  have hattachments : (attachmentsField p.payload).toNat =
    (headerOf p.payload).toNat + abi.pointerSize := by
    have := @pointerSize_pos abi
    rw [attachmentsField, BitVec.toNat_add, toNat_sizeofNode, Nat.mod_eq_of_lt (by omega)]
  rw [front, frontSize_block howner, frontAddress_block howner, cell, cell, hattachments,
    baseField]
  exact ⟨Set.Ico_subset_Ico_right (by omega), Set.Ico_subset_Ico (by omega) (by omega),
    Set.Ico_disjoint_Ico_same⟩

/-- A node is the cell of its field. -/
theorem front_of_owner {block : abi.Word} (howner : p.owner = some block) :
    p.front = cell p.base := by
  rw [front, cell, frontAddress_node howner, frontSize_node howner]

end Piece

/-! ## Runs -/

/-- The nodes of a block's attachments, from the newest on. -/
def Layout.nodesOf (pieces : List (Piece abi)) (block : abi.Word) : List abi.Word :=
  (pieces.filter fun p => p.owner = some block).map Piece.base

/-- The nodes of a block are the granted addresses of its attachments. -/
theorem Layout.mem_nodesOf {pieces : List (Piece abi)} {block node : abi.Word} :
    node ∈ nodesOf pieces block ↔ ∃ p ∈ pieces, p.owner = some block ∧ p.base = node := by
  simp [nodesOf, and_assoc]

/-- A new attachment comes first among the nodes of its block. -/
theorem Layout.nodesOf_cons (p : Piece abi) (pieces : List (Piece abi)) (block : abi.Word) :
    nodesOf (p :: pieces) block =
      if p.owner = some block then p.base :: nodesOf pieces block else nodesOf pieces block := by
  rw [nodesOf, List.filter_cons]
  by_cases howner : p.owner = some block <;> simp [howner, nodesOf]

namespace Arena
variable {s : Arena abi} {p q : Piece abi}

/-- The pointer is a live block's. -/
def IsBlock (s : Arena abi) (block : abi.Word) : Prop := ∃ p ∈ s.pieces, p.owner = none ∧
    p.payload = block

/-- The allocator keeps its promise, and nothing live is in the memory it returns. -/
def Grants (s : Arena abi) (p : Piece abi) : Prop :=
  p.Granted ∧ ∀ q ∈ s.pieces, Disjoint p.allocated q.allocated

/-- A call as the API makes it: it asks for what `Piece.Asked` says, the allocator keeps its
promise, a block is a live one, and a payload is written to where it is. -/
def Admissible (s : Arena abi) : LayoutCall abi → Prop
  | .allocApiBlock size alignment base =>
      Piece.Asked ⟨none, base, size, alignment⟩ ∧
        (base ≠ 0 → s.Grants ⟨none, base, size, alignment⟩)
  | .attachBytes block size alignment raw =>
      Piece.Asked ⟨some block, raw, size, alignment⟩ ∧
        (block ≠ 0 → s.IsBlock block ∧ (raw ≠ 0 → s.Grants ⟨some block, raw, size, alignment⟩))
  | .write start bytes => ∃ p ∈ s.pieces, Set.Ico start (start + bytes.length) ⊆ p.handedOut
  | .freeApiBlock block => block ≠ 0 → s.IsBlock block

/-- What every call keeps: the live allocations were asked for and granted, they lie apart,
attachments belong to live blocks, and every header leads to the nodes of its block. -/
structure Laid (s : Arena abi) : Prop where
  asked : ∀ p ∈ s.pieces, p.Asked
  granted : ∀ p ∈ s.pieces, p.Granted
  apart : s.pieces.Pairwise fun p q => Disjoint p.allocated q.allocated
  owned : ∀ p ∈ s.pieces, ∀ block, p.owner = some block → s.IsBlock block
  headed : ∀ p ∈ s.pieces, p.owner = none →
    Headed s.memory p.payload p.base (nodesOf s.pieces p.payload)

namespace Laid

/-- Every live allocation lies within what it was granted. -/
theorem placed (h : s.Laid) (hp : p ∈ s.pieces) : p.Placed :=
  Piece.placed_of_asked (h.asked p hp) (h.granted p hp)

/-- Two live allocations lie apart. -/
theorem disjoint (h : s.Laid) (hp : p ∈ s.pieces) (hq : q ∈ s.pieces) (hne : p ≠ q) :
    Disjoint p.allocated q.allocated := by
  have : Std.Symm fun p q : Piece abi => Disjoint p.allocated q.allocated :=
    ⟨fun _ _ hdisjoint => hdisjoint.symm⟩
  exact h.apart.forall hp hq hne

/-- So an address tells which one it is in. -/
theorem eq_of_mem (h : s.Laid) (hp : p ∈ s.pieces) (hq : q ∈ s.pieces) {x : ℕ}
    (hxp : x ∈ p.allocated) (hxq : x ∈ q.allocated) : p = q := by
  by_contra hne
  exact Set.disjoint_left.1 (h.disjoint hp hq hne) hxp hxq

/-- The granted address is the allocation's own. -/
theorem base_mem (h : p.Placed) : p.base.toNat ∈ p.allocated := by
  have hroom := h.room
  have hinside := h.inside
  exact ⟨le_rfl, by omega⟩

/-- The payload's address is the allocation's own. -/
theorem payload_mem (h : p.Placed) : p.payload.toNat ∈ p.allocated := by
  have hroom := h.room
  have hinside := h.inside
  exact ⟨by omega, by omega⟩

/-- The payload's address tells which allocation it is. -/
theorem eq_of_payload (h : s.Laid) (hp : p ∈ s.pieces) (hq : q ∈ s.pieces)
    (heq : p.payload = q.payload) : p = q := by
  have hmem := payload_mem (h.placed hq)
  rw [← heq] at hmem
  exact h.eq_of_mem hp hq (payload_mem (h.placed hp)) hmem

/-- The granted address tells which allocation it is. -/
theorem eq_of_base (h : s.Laid) (hp : p ∈ s.pieces) (hq : q ∈ s.pieces) (heq : p.base = q.base) :
    p = q := by
  have hmem := base_mem (h.placed hq)
  rw [← heq] at hmem
  exact h.eq_of_mem hp hq (base_mem (h.placed hp)) hmem

/-- A header leads to its block's nodes as long as it and they are left alone. -/
theorem headed_congr (h : s.Laid) (hp : p ∈ s.pieces) (howner : p.owner = none)
    {memory : ByteMemory} (hheader : Set.EqOn s.memory memory p.front)
    (hnodes : ∀ q ∈ s.pieces, q.owner = some p.payload → Set.EqOn s.memory memory q.front) :
    Headed memory p.payload p.base (nodesOf s.pieces p.payload) := by
  obtain ⟨hbase, hattachments, _⟩ := (h.placed hp).fields howner
  refine (h.headed p hp howner).congr (hheader.mono hbase)
    (hheader.mono hattachments) fun node hnode => ?_
  obtain ⟨q, hq, hqowner, rfl⟩ := mem_nodesOf.1 hnode
  rw [← Piece.front_of_owner hqowner]
  exact hnodes q hq hqowner

/-- A new allocation is laid beside the others. -/
theorem push (h : s.Laid) (ha : p.Asked) (hg : s.Grants p)
    (howned : ∀ block, p.owner = some block → s.IsBlock block) {memory : ByteMemory}
    (hheaded : ∀ q ∈ p :: s.pieces, q.owner = none →
      Headed memory q.payload q.base (nodesOf (p :: s.pieces) q.payload)) :
    Laid { memory, pieces := p :: s.pieces } where
  asked := List.forall_mem_cons.2 ⟨ha, h.asked⟩
  granted := List.forall_mem_cons.2 ⟨hg.1, h.granted⟩
  apart := List.pairwise_cons.2 ⟨hg.2, h.apart⟩
  owned := by
    intro q hq block hblock
    obtain ⟨r, hr, hrblock⟩ : s.IsBlock block := by
      rcases List.mem_cons.1 hq with rfl | hq
      · exact howned block hblock
      · exact h.owned q hq block hblock
    exact ⟨r, List.mem_cons_of_mem _ hr, hrblock⟩
  headed := hheaded

/-- A new block's nodes are none. -/
theorem nodesOf_fresh (h : s.Laid) (ha : p.Asked) (hg : s.Grants p) :
    nodesOf s.pieces p.payload = [] := by
  rw [nodesOf, List.map_eq_nil_iff, List.filter_eq_nil_iff]
  intro q hq howner
  obtain ⟨r, hr, _, hpayload⟩ := h.owned q hq p.payload (of_decide_eq_true howner)
  have hmem := payload_mem (h.placed hr)
  rw [hpayload] at hmem
  exact Set.disjoint_left.1 (hg.2 r hr) (payload_mem (Piece.placed_of_asked ha hg.1)) hmem

/-- `AllocApiBlock` lays the block beside the others and gives it an empty header. -/
theorem allocApiBlock (h : s.Laid) {size alignment base : abi.Word}
    (ha : Piece.Asked ⟨none, base, size, alignment⟩)
    (hg : base ≠ 0 → s.Grants ⟨none, base, size, alignment⟩) :
    (s.allocApiBlock size alignment base).2.Laid := by
  rw [Arena.allocApiBlock]
  split_ifs with hnull
  · exact h
  · specialize hg hnull
    set p : Piece abi := ⟨none, base, size, alignment⟩
    have hp : p.Placed := Piece.placed_of_asked ha hg.1
    obtain ⟨hbase, hattachments, hfields⟩ := hp.fields rfl
    show Laid ⟨writeHeader s.memory p.payload base size, p :: s.pieces⟩
    -- all that is written is in the new allocation
    have hframe : ∀ q ∈ s.pieces, Set.EqOn s.memory (writeHeader s.memory p.payload base size)
      q.front := by
      intro q hq
      have hfresh : Disjoint q.front p.allocated :=
        (hg.2 q hq).symm.mono_left (h.placed hq).front_subset
      exact eqOn_writeHeader (hfresh.mono_right (hbase.trans hp.front_subset))
        (hfresh.mono_right (hattachments.trans hp.front_subset))
          (hfresh.mono_right hp.handedOut_subset)
    refine h.push ha hg (fun _ howner => nomatch howner) fun q hq howner => ?_
    rw [nodesOf_cons, if_neg (by simp [p])]
    rcases List.mem_cons.1 hq with rfl | hq
    · obtain ⟨hloadBase, hloadAttachments⟩ :=
        loadWord_writeHeader s.memory base hfields (hp.apart.mono_left hbase)
          (hp.apart.mono_left hattachments)
      rw [h.nodesOf_fresh ha hg]
      exact ⟨hloadBase, hloadAttachments⟩
    · exact h.headed_congr hq howner (hframe q hq) fun r hr _ => hframe r hr

/-- `AttachBytes` lays the attachment beside the others, and puts its node at the head of the
block's chain. -/
theorem attachBytes (h : s.Laid) {block size alignment raw : abi.Word}
    (ha : Piece.Asked ⟨some block, raw, size, alignment⟩)
    (hg : block ≠ 0 → s.IsBlock block ∧ (raw ≠ 0 → s.Grants ⟨some block, raw, size, alignment⟩)) :
    (s.attachBytes block size alignment raw).2.Laid := by
  rw [Arena.attachBytes]
  split_ifs with hnull
  · exact h
  · obtain ⟨hblock, hraw⟩ := not_or.1 hnull
    obtain ⟨⟨b, hb, hbowner, rfl⟩, hgrants⟩ := hg hblock
    specialize hgrants hraw
    set p : Piece abi := ⟨some b.payload, raw, size, alignment⟩
    have hp : p.Placed := Piece.placed_of_asked ha hgrants.1
    obtain ⟨hbase, hattachments, hfields⟩ := (h.placed hb).fields hbowner
    have hnode : cell raw ⊆ p.allocated :=
      (Piece.front_of_owner (p := p) rfl).symm ▸ hp.front_subset
    have hapart : Disjoint (cell raw) p.handedOut := (Piece.front_of_owner (p := p) rfl) ▸ hp.apart
    show Laid ⟨linkNode s.memory b.payload raw p.payload size, p :: s.pieces⟩
    have hfresh : ∀ q ∈ s.pieces, Disjoint q.front p.allocated := fun q hq =>
      (hgrants.2 q hq).symm.mono_left (h.placed hq).front_subset
    -- what is written is in the new allocation, but for one field of the block's header
    have hframe : ∀ X : Set ℕ, Disjoint X p.allocated →
      Disjoint X (cell (attachmentsField b.payload)) →
        Set.EqOn s.memory (linkNode s.memory b.payload raw p.payload size) X := fun X hX hfield =>
      eqOn_linkNode (hX.mono_right hnode) hfield (hX.mono_right hp.handedOut_subset)
    have hother : ∀ q ∈ s.pieces, q ≠ b →
        Set.EqOn s.memory (linkNode s.memory b.payload raw p.payload size) q.front :=
      fun q hq hne => hframe _ (hfresh q hq)
        ((h.disjoint hq hb hne).mono (h.placed hq).front_subset
        (hattachments.trans (h.placed hb).front_subset))
    have hattached : ∀ q ∈ s.pieces, ∀ block, q.owner = some block →
        Set.EqOn s.memory (linkNode s.memory b.payload raw p.payload size) q.front := by
      intro q hq block howner
      refine hother q hq ?_
      rintro rfl
      rw [hbowner] at howner
      cases howner
    refine h.push ha hgrants
      (fun block howner => ⟨b, hb, hbowner, Option.some.inj howner⟩) fun q hmem howner => ?_
    rcases List.mem_cons.1 hmem with rfl | hq
    · cases howner
    · by_cases hqb : q = b
      · subst hqb
        have hfield : Disjoint (cell (attachmentsField q.payload)) p.allocated :=
          (hfresh q hq).mono_left hattachments
        obtain ⟨hhead, hnext⟩ := loadWord_linkNode s.memory (hfield.mono_right hnode).symm hapart
          (hfield.mono_right hp.handedOut_subset)
        rw [nodesOf_cons, if_pos rfl]
        constructor
        · rw [← loadWord_congr (hframe _ ((hfresh q hq).mono_left hbase) hfields)]
          exact (h.headed q hq howner).base
        · refine ⟨hhead, hraw, ?_⟩
          rw [hnext]
          refine (h.headed q hq howner).chain.congr fun node hnode => ?_
          obtain ⟨r, hr, hrowner, rfl⟩ := mem_nodesOf.1 hnode
          rw [← Piece.front_of_owner hrowner]
          exact hattached r hr _ hrowner
      · have hne : b.payload ≠ q.payload := fun heq => hqb (h.eq_of_payload hb hq heq).symm
        rw [nodesOf_cons, if_neg fun heq => hne (Option.some.inj heq)]
        exact h.headed_congr hq howner (hother q hq hqb) fun r hr hrowner =>
          hattached r hr _ hrowner

/-- A write to a payload leaves all headers and nodes alone. -/
theorem write (h : s.Laid) {start : ℕ} {bytes : List UInt8} (hp : p ∈ s.pieces)
    (hinside : Set.Ico start (start + bytes.length) ⊆ p.handedOut) :
      (s.write start bytes).Laid := by
  have hframe : ∀ q ∈ s.pieces, Set.EqOn s.memory (s.write start bytes).memory q.front := by
    intro q hq
    have hapart : Disjoint q.front p.handedOut := by
      by_cases hqp : q = p
      · rw [hqp]
        exact (h.placed hp).apart
      · exact (h.disjoint hq hp hqp).mono (h.placed hq).front_subset (h.placed hp).handedOut_subset
    show Set.EqOn s.memory (s.memory.write start bytes.length fun i => bytes.getD i 0) q.front
    exact (ByteMemory.eqOn_write (hapart.mono_right hinside)).symm
  exact
    { asked := h.asked
      granted := h.granted
      apart := h.apart
      owned := h.owned
      headed := fun q hq howner => h.headed_congr hq howner (hframe q hq) fun r hr _ =>
        hframe r hr }

end Laid

/-- The loop of `FreeApiBlock` goes through a chain. -/
theorem walk_eq {start : abi.Word} {nodes : List abi.Word} (h : Chain s.memory start nodes)
    {fuel : ℕ} (hfuel : nodes.length ≤ fuel) : s.walk fuel start = nodes := by
  induction nodes generalizing start fuel with
  | nil =>
      obtain rfl : start = 0 := h
      cases fuel <;> simp [walk]
  | cons node nodes ih =>
      obtain ⟨rfl, hnull, hrest⟩ := h
      cases fuel with
      | zero => simp at hfuel
      | succ fuel => rw [walk, if_neg hnull, ih hrest (Nat.le_of_succ_le_succ hfuel)]

namespace Laid

/-- `FreeApiBlock` releases the nodes of a block, and the block. -/
theorem released (h : s.Laid) (hp : p ∈ s.pieces) (howner : p.owner = none) :
    s.released p.payload = nodesOf s.pieces p.payload ++ [p.base] := by
  have hfew : (nodesOf s.pieces p.payload).length ≤ s.pieces.length := by
    rw [nodesOf, List.length_map]
    exact List.length_filter_le _ _
  rw [Arena.released, walk_eq (h.headed p hp howner).chain hfew, (h.headed p hp howner).base]

/-- So what it releases are the block and its attachments. -/
theorem mem_released (h : s.Laid) (hp : p ∈ s.pieces) (howner : p.owner = none)
    (hq : q ∈ s.pieces) : q.base ∈ s.released p.payload ↔ q = p ∨ q.owner = some p.payload := by
  rw [h.released hp howner, List.mem_append, List.mem_singleton, mem_nodesOf, or_comm]
  refine or_congr ⟨fun heq => h.eq_of_base hq hp heq, fun heq => heq ▸ rfl⟩
    ⟨?_, fun hqowner => ⟨q, hq, hqowner, rfl⟩⟩
  rintro ⟨r, hr, hrowner, heq⟩
  rwa [← h.eq_of_base hr hq heq]

/-- Releasing a block or nothing keeps a laid out memory. -/
theorem freeApiBlock (h : s.Laid) {block : abi.Word} (hblock : block ≠ 0 → s.IsBlock block) :
    (s.freeApiBlock block).Laid := by
  rw [Arena.freeApiBlock]
  split_ifs with hnull
  · exact h
  · obtain ⟨b, hb, hbowner, rfl⟩ := hblock hnull
    have hkept : ∀ q, q ∈ s.pieces.filter (fun p => p.base ∉ s.released b.payload) ↔
        q ∈ s.pieces ∧ q ≠ b ∧ q.owner ≠ some b.payload := by
      intro q
      rw [List.mem_filter, decide_eq_true_iff]
      refine and_congr_right fun hq => ?_
      rw [h.mem_released hb hbowner hq, not_or]
    have hmem : ∀ q ∈ s.pieces.filter (fun p => p.base ∉ s.released b.payload), q ∈ s.pieces :=
      fun q hq => ((hkept q).1 hq).1
    refine ⟨fun q hq => h.asked q (hmem q hq), fun q hq => h.granted q (hmem q hq),
      h.apart.filter _, ?_, ?_⟩
    · intro q hq block howner
      obtain ⟨hq, _, hother⟩ := (hkept q).1 hq
      obtain ⟨r, hr, hrowner, rfl⟩ := h.owned q hq block howner
      refine ⟨r, (hkept r).2 ⟨hr, ?_, by simp [hrowner]⟩, hrowner, rfl⟩
      rintro rfl
      exact hother howner
    · intro q hq howner
      obtain ⟨hq, hqb, _⟩ := (hkept q).1 hq
      -- the nodes of another block are all kept
      have hnodes : nodesOf (s.pieces.filter fun p => p.base ∉ s.released b.payload) q.payload =
          nodesOf s.pieces q.payload := by
        rw [nodesOf, nodesOf, List.filter_filter]
        congr 1
        refine List.filter_congr fun r hr => ?_
        rw [Bool.and_eq_left_iff_imp, decide_eq_true_iff, decide_eq_true_iff,
          h.mem_released hb hbowner hr]
        rintro hrowner (rfl | hrblock)
        · rw [hbowner] at hrowner
          cases hrowner
        · exact hqb (h.eq_of_payload hq hb (Option.some.inj (hrowner.symm.trans hrblock)))
      rw [hnodes]
      exact h.headed q hq howner

/-- Every admissible call keeps a laid out memory. -/
theorem call (h : s.Laid) {c : LayoutCall abi} (hc : s.Admissible c) : (s.call c).Laid := by
  cases c with
  | allocApiBlock size alignment base => exact h.allocApiBlock hc.1 hc.2
  | attachBytes block size alignment raw => exact h.attachBytes hc.1 hc.2
  | write start bytes =>
      obtain ⟨p, hp, hinside⟩ := hc
      exact h.write hp hinside
  | freeApiBlock block => exact h.freeApiBlock hc

/-- Every run of admissible calls leaves a laid out memory. -/
theorem run (h : Run (fun s c => some (Arena.call s c)) Admissible ({} : Arena abi) s) :
    s.Laid := by
  refine h.invariant ?_ fun u v c hu hc hstep => ?_
  · exact ⟨by simp, by simp, List.Pairwise.nil, by simp, by simp⟩
  · obtain rfl : u.call c = v := Option.some.inj hstep
    exact hu.call hc

end Laid

/-- How a memory is laid out: every live allocation for itself, all of them apart from each other,
and every header in front of the chain of its block's nodes. -/
structure LaidOut (s : Arena abi) : Prop where
  pieces : ∀ p ∈ s.pieces, p.LaidOut
  apart : s.pieces.Pairwise fun p q => Disjoint p.allocated q.allocated
  headers : ∀ p ∈ s.pieces, p.owner = none →
    Headed s.memory p.payload p.base (nodesOf s.pieces p.payload)

/-- What the invariant says, in the terms of the result. -/
theorem Laid.laidOut (h : s.Laid) : s.LaidOut where
  pieces := fun p hp => Piece.laidOut (h.asked p hp) (h.granted p hp)
  apart := h.apart
  headers := h.headed

/-- What an allocation does, with what it returns and leaves: the pointer is the payload's, the new
piece joins the live ones and all are laid out, its payload is cleared, a block's header starts an
empty chain, and an attachment's node comes first in the chain of its block. -/
structure Added (s : Arena abi) (p : Piece abi) (r : abi.Word × Arena abi) : Prop where
  returned : r.1 = p.payload
  pieces : r.2.pieces = p :: s.pieces
  laidOut : r.2.LaidOut
  cleared : ∀ x ∈ p.handedOut, r.2.memory x = 0
  header : p.owner = none → Headed r.2.memory p.payload p.base []
  linked : ∀ block, p.owner = some block → ∃ b ∈ s.pieces, b.owner = none ∧ b.payload = block ∧
    Headed r.2.memory block b.base (p.base :: nodesOf s.pieces block)

/-- `memset` on a payload. -/
theorem clear_apply (memory : ByteMemory) {payload size : abi.Word} {x : ℕ}
    (hx : x ∈ Set.Ico payload.toNat (payload.toNat + size.toNat)) :
      clear memory payload size x = 0 := by
  obtain ⟨i, rfl⟩ := Nat.exists_eq_add_of_le hx.1
  exact ByteMemory.write_apply (by have := hx.2; omega)

/-- `AllocApiBlock` with an allocator that keeps its promise. -/
theorem allocApiBlock_added (h : s.Laid) {size alignment base : abi.Word} (hbase : base ≠ 0)
    (hc : s.Admissible (.allocApiBlock size alignment base)) :
    s.Added ⟨none, base, size, alignment⟩ (s.allocApiBlock size alignment base) := by
  have hlaid : (s.allocApiBlock size alignment base).2.Laid := h.allocApiBlock hc.1 hc.2
  have hfresh := h.nodesOf_fresh hc.1 (hc.2 hbase)
  rw [allocApiBlock, if_neg hbase] at hlaid ⊢
  refine ⟨rfl, rfl, hlaid.laidOut, fun x hx => clear_apply _ hx, fun _ => ?_, fun _ howner => ?_⟩
  · have hheaded := hlaid.headed _ List.mem_cons_self rfl
    rwa [nodesOf_cons, if_neg (by simp), hfresh] at hheaded
  · cases howner

/-- `AttachBytes` to a live block, with an allocator that keeps its promise. -/
theorem attachBytes_added (h : s.Laid) {block size alignment raw : abi.Word} (hblock : block ≠ 0)
    (hraw : raw ≠ 0) (hc : s.Admissible (.attachBytes block size alignment raw)) :
    s.Added ⟨some block, raw, size, alignment⟩ (s.attachBytes block size alignment raw) := by
  have hlaid : (s.attachBytes block size alignment raw).2.Laid := h.attachBytes hc.1 hc.2
  obtain ⟨b, hb, hbowner, rfl⟩ := (hc.2 hblock).1
  rw [attachBytes, if_neg (not_or.2 ⟨hblock, hraw⟩)] at hlaid ⊢
  refine ⟨rfl, rfl, hlaid.laidOut, fun x hx => clear_apply _
    hx, fun howner => ?_, fun block howner => ?_⟩
  · cases howner
  · obtain rfl : b.payload = block := Option.some.inj howner
    have hheaded := hlaid.headed _ (List.mem_cons_of_mem _ hb) hbowner
    rw [nodesOf_cons, if_pos rfl] at hheaded
    exact ⟨b, hb, hbowner, rfl, hheaded⟩

/-- What `AllocApiBlock` and `AttachBytes` return is the payload of the new allocation; a payload
is aligned as asked for, whatever its size. In every run with sizes that leave room for the
overhead, all allocations are laid out, and each call that gets memory adds its own. -/
theorem block_layout (abi : Abi) :
    (∀ (s : Arena abi) (size alignment base : abi.Word), base ≠ 0 →
      (s.allocApiBlock size alignment base).1 = Piece.payload ⟨none, base, size, alignment⟩) ∧
    (∀ (s : Arena abi) (block size alignment raw : abi.Word), block ≠ 0 → raw ≠ 0 →
      (s.attachBytes block size alignment raw).1 = Piece.payload
        ⟨some block, raw, size, alignment⟩) ∧
    (∀ p : Piece abi, IsPowerOfTwo p.alignment → p.alignment.toNat ∣ p.payload.toNat) ∧
    ∀ s : Arena abi, Run (fun s c => some (call s c)) Admissible {} s → s.LaidOut ∧
      (∀ size alignment base, base ≠ 0 → s.Admissible (.allocApiBlock size alignment base) →
        s.Added ⟨none, base, size, alignment⟩ (s.allocApiBlock size alignment base)) ∧
      ∀ block size alignment raw, block ≠ 0 → raw ≠ 0 →
        s.Admissible (.attachBytes block size alignment raw) →
        s.Added ⟨some block, raw, size, alignment⟩ (s.attachBytes block size alignment raw) := by
  refine ⟨fun s size alignment base hbase => ?_, fun s block size alignment raw hblock hraw => ?_,
    fun p halignment => placed_aligned halignment _ _, fun s hrun => ?_⟩
  · rw [allocApiBlock, if_neg hbase]
    rfl
  · rw [attachBytes, if_neg (not_or.2 ⟨hblock, hraw⟩)]
    rfl
  · have h := Laid.run hrun
    refine ⟨h.laidOut, ?_, ?_⟩
    · intro size alignment base hbase hc
      exact allocApiBlock_added h hbase hc
    · intro block size alignment raw hblock hraw hc
      exact attachBytes_added h hblock hraw hc

/-- A block with an alignment of 32, and a string attached to it. -/
theorem block_layout_sample : ∃ s : Arena Abi.x64, s.pieces.length = 2 ∧ s.LaidOut := by
  let block : LayoutCall Abi.x64 := .allocApiBlock 40 32 4096
  let attachment : LayoutCall Abi.x64 := .attachBytes 4128 5 1 8192
  refine ⟨(({} : Arena Abi.x64).call block).call attachment,
    rfl, ((block_layout Abi.x64).2.2.2 _ ?_).1⟩
  refine Run.tail attachment (Run.tail block .refl ?_ rfl) ?_ rfl
  · exact ⟨⟨⟨5, rfl⟩, by decide +kernel⟩, fun _ =>
      ⟨⟨by decide, by decide +kernel, by decide +kernel⟩, by simp⟩⟩
  · refine ⟨⟨⟨0, rfl⟩, by decide +kernel⟩, fun _ =>
      ⟨⟨_, List.mem_cons_self, rfl, by decide +kernel⟩, fun _ => ?_⟩⟩
    refine ⟨⟨by decide, by decide +kernel, by decide +kernel⟩, List.forall_mem_singleton.2 ?_⟩
    exact Set.Ico_disjoint_Ico.2 (by decide +kernel)

end Arena

end EOSEmu
