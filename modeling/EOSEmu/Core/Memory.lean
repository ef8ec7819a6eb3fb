import EOSEmu.Lib.Dict

/-!
# API blocks

`core/Memory.cpp`: the allocators the game may install, and the blocks handed out by `Copy*`
functions, each with the chain of its attachments behind a hidden header. Which allocator serves a
call is decided by globals, at the allocation and again at the release. What an allocation came
from is recorded with it.
-/

namespace EOSEmu

open Lib

/-- Which of `g_Allocate`, `g_Reallocate` and `g_Release` are set. -/
structure Allocators where
  allocate : Bool := false
  reallocate : Bool := false
  release : Bool := false
  deriving DecidableEq, Repr

/-- The game's functions, or the platform's. -/
inductive AllocatorFamily where
  | game
  | platform
  deriving DecidableEq, Repr

namespace Allocators

/-- The allocator that `Alloc` calls. -/
def allocating (a : Allocators) : AllocatorFamily := if a.allocate then .game else .platform

/-- The allocator that `Free` calls. -/
def releasing (a : Allocators) : AllocatorFamily := if a.release then .game else .platform

/-- All three are set, or none. -/
def AllOrNothing (a : Allocators) : Prop := a.allocate = a.reallocate ∧ a.reallocate = a.release

instance (a : Allocators) : Decidable a.AllOrNothing := inferInstanceAs (Decidable (_ ∧ _))

/-- With all or none set, memory obtained under some allocators goes back to the same family
exactly under the same allocators. -/
theorem allocating_eq_releasing {a b : Allocators} (ha : a.AllOrNothing) (hb : b.AllOrNothing) :
    a.allocating = b.releasing ↔ a = b := by
  obtain ⟨a1, a2, a3⟩ := a
  obtain ⟨b1, b2, b3⟩ := b
  simp only [AllOrNothing] at ha hb
  obtain ⟨rfl, rfl⟩ := ha
  obtain ⟨rfl, rfl⟩ := hb
  cases a1 <;> cases b1 <;> decide

end Allocators

/-- A piece of memory: its address, and the allocators installed when it was obtained. -/
structure Allocation where
  address : ℕ
  installed : Allocators
  deriving DecidableEq, Repr

/-- The family that produced it. -/
def Allocation.producer (m : Allocation) : AllocatorFamily := m.installed.allocating

/-- What a `BlockHeader` leads to: the base, and the attachment chain from the newest node on. -/
structure ApiBlock where
  base : Allocation
  attachments : List Allocation := []
  deriving DecidableEq, Repr

/-- The pieces of a block. -/
def ApiBlock.pieces (b : ApiBlock) : List Allocation := b.attachments ++ [b.base]

/-- The globals of `Memory.cpp`, the live blocks by the pointer handed out, the next address, and
every release so far with the family that was given the memory. -/
structure Heap where
  allocators : Allocators := {}
  blocks : Dict ℕ ApiBlock := .empty
  next : ℕ := 1
  released : List (Allocation × AllocatorFamily) := []

namespace Heap
variable (h : Heap)

/-- `SetAllocators`. -/
def setAllocators (a : Allocators) : Heap := { h with allocators := a }

/-- `ClearAllocators`. -/
def clearAllocators : Heap := { h with allocators := {} }

/-- `Alloc`; an allocator may be out of memory. -/
def alloc (memory : Bool) : Option Allocation × Heap :=
  if memory then (some ⟨h.next, h.allocators⟩, { h with next := h.next + 1 }) else (none, h)

/-- `Free`. -/
def free (m : Allocation) : Heap :=
  { h with released := h.released ++ [(m, h.allocators.releasing)] }

/-- `AllocApiBlock`: the base and an empty chain. The pointer is taken for the base's address. -/
def allocApiBlock (memory : Bool) : Option ℕ × Heap :=
  match h.alloc memory with
  | (none, h') => (none, h')
  | (some base, h') =>
    (some base.address, { h' with blocks := h'.blocks.set base.address { base } })

/-- `AttachBytes`: a new node at the head of the block's chain. -/
def attachBytes (p : ℕ) (memory : Bool) : Heap :=
  match h.blocks.get? p with
  | none => h
  | some b =>
      match h.alloc memory with
      | (none, h') => h'
      | (some node, h') =>
        { h' with blocks := h'.blocks.set p { b with attachments := node :: b.attachments } }

/-- The `while` loop of `FreeApiBlock`. -/
def freeChain : List Allocation → Heap → Heap
  | [], h => h
  | node :: chain, h => freeChain chain (h.free node)

/-- `FreeApiBlock`; a null pointer is a no-op. -/
def freeApiBlock (p : ℕ) : Heap :=
  match h.blocks.get? p with
  | none => h
  | some b => { (freeChain b.attachments h).free b.base with blocks := h.blocks.erase p }

variable {h}

/-- The loop gives every node to the family in force. -/
theorem freeChain_eq (chain : List Allocation) (h : Heap) :
    freeChain chain h =
      { h with released := h.released ++ chain.map fun m => (m, h.allocators.releasing) } := by
  induction chain generalizing h with
  | nil => simp [freeChain]
  | cons node chain ih => simp [freeChain, ih, free]

/-- Releasing a block gives each of its pieces to the family in force. -/
theorem freeApiBlock_released {p : ℕ} {b : ApiBlock} (hb : h.blocks.get? p = some b) :
    (h.freeApiBlock p).released = h.released ++
      b.pieces.map fun m => (m, h.allocators.releasing) := by
  simp [freeApiBlock, hb, freeChain_eq, free, ApiBlock.pieces]

/-- Releasing leaves the allocators and the other blocks alone. -/
theorem freeApiBlock_frame (p : ℕ) : (h.freeApiBlock p).allocators = h.allocators ∧
    ∀ q b, (h.freeApiBlock p).blocks.get? q = some b → h.blocks.get? q = some b := by
  cases hb : h.blocks.get? p with
  | none => simp [freeApiBlock, hb]
  | some b =>
      simp only [freeApiBlock, hb, free, freeChain_eq, Dict.get?_erase]
      refine ⟨trivial, fun q c hq => ?_⟩
      split at hq
      · cases hq
      · exact hq

end Heap

end EOSEmu
