import EOSEmu.Sdk
import EOSEmu.Core.Memory
import EOSEmu.Lib.Trace

/-!
# The library's lifetime

`EOS_Initialize` and `EOS_Shutdown` (`core/Platform.cpp`) around the blocks that the game holds.
`allocator_pairing`: in every run, every piece of memory goes back to the family that produced it
exactly if each block is released under the allocators it was obtained under.
-/

namespace EOSEmu

open Lib

/-- `EOS_InitializeOptions`: which of the three functions are given, and the product strings. -/
structure InitializeOptions where
  allocators : Allocators := {}
  productName : Option Bytes := none
  productVersion : Option Bytes := none

/-- The globals of `core/Platform.cpp`, with those of `core/Memory.cpp`. -/
structure Library where
  initialized : Bool := false
  hasShutdown : Bool := false
  productName : Bytes := []
  productVersion : Bytes := []
  heap : Heap := {}

namespace Library

/-- `EOS_Initialize`; null options are `none`. -/
def eosInitialize (l : Library) (options : Option InitializeOptions) : EResult × Library :=
  if l.initialized || l.hasShutdown then (.alreadyConfigured, l)
  else match options with
    | none => (.invalidParameters, l)
    | some o =>
        let anyAlloc := o.allocators.allocate || o.allocators.reallocate || o.allocators.release
        let allAlloc := o.allocators.allocate && o.allocators.reallocate && o.allocators.release
        if anyAlloc && !allAlloc then (.invalidParameters, l)
        else if allAlloc then (.success,
          { l with initialized := true, heap := l.heap.setAllocators o.allocators })
        else (.success, { l with initialized := true })

/-- `EOS_Shutdown`. -/
def eosShutdown (l : Library) : EResult × Library :=
  if !l.initialized then (if l.hasShutdown then .unexpectedError else .notConfigured, l)
  else (.success, { l with initialized := false, hasShutdown := true, heap :=
      l.heap.clearAllocators })

end Library

/-- What the game makes the library do: the two calls, a `Copy*` function that obtains a block or
attaches to one, and a `*_Release`. -/
inductive LibraryAction where
  | eosInitialize (options : Option InitializeOptions)
  | eosShutdown
  | allocApiBlock (memory : Bool)
  | attachBytes (block : ℕ) (memory : Bool)
  | release (block : ℕ)

/-- A `*_Release` is given the pointer of a live block, or null. -/
def Library.step (l : Library) : LibraryAction → Option Library
  | .eosInitialize options => some (l.eosInitialize options).2
  | .eosShutdown => some l.eosShutdown.2
  | .allocApiBlock memory => some { l with heap := (l.heap.allocApiBlock memory).2 }
  | .attachBytes block memory => some { l with heap := l.heap.attachBytes block memory }
  | .release block =>
      if block = 0 ∨ l.heap.blocks.contains block then some
        { l with heap := l.heap.freeApiBlock block } else none

/-- Every piece of memory released so far went to the family that produced it. -/
def Library.Paired (l : Library) : Prop := ∀ x ∈ l.heap.released, x.1.producer = x.2

/-- A `*_Release` finds the allocators under which every piece of its block was obtained. -/
def ReleasesUnderSame (l : Library) : LibraryAction → Prop
  | .release block => ∀ b ∈ l.heap.blocks.get? block, ∀ m ∈ b.pieces, m.installed =
    l.heap.allocators
  | _ => True

instance (l : Library) (a : LibraryAction) : Decidable (ReleasesUnderSame l a) :=
  match a with
  | .release block => inferInstanceAs (Decidable (∀ b ∈ l.heap.blocks.get? block, _))
  | .eosInitialize _ | .eosShutdown | .allocApiBlock _ | .attachBytes _ _ => .isTrue trivial

/-- Whenever memory was obtained, and now, either the game's three functions are installed or
none. -/
structure Library.Consistent (l : Library) : Prop where
  allocators : l.heap.allocators.AllOrNothing
  blocks : ∀ p b, l.heap.blocks.get? p = some b → ∀ m ∈ b.pieces, m.installed.AllOrNothing

namespace Library
variable {l l' : Library} {a : LibraryAction}

/-- `EOS_Initialize` installs all three functions or leaves the allocators alone, and touches
nothing else of the heap. -/
theorem eosInitialize_heap (l : Library) (options : Option InitializeOptions) :
    (l.eosInitialize options).2.heap = l.heap ∨
    ∃ a : Allocators, a.AllOrNothing ∧ (l.eosInitialize options).2.heap =
      l.heap.setAllocators a := by
  unfold eosInitialize
  split
  · exact Or.inl rfl
  · cases options with
    | none => exact Or.inl rfl
    | some o =>
        dsimp only
        split
        · exact Or.inl rfl
        · split
          · rename_i hall
            simp only [Bool.and_eq_true] at hall
            exact Or.inr ⟨o.allocators, ⟨by simp [hall], by simp [hall]⟩, rfl⟩
          · exact Or.inl rfl

/-- `EOS_Initialize` does not store the product strings of its options. -/
theorem eosInitialize_product (l : Library) (options : Option InitializeOptions) :
    (l.eosInitialize options).2.productName = l.productName ∧
    (l.eosInitialize options).2.productVersion = l.productVersion := by
  unfold eosInitialize
  split
  · exact ⟨rfl, rfl⟩
  · cases options with
    | none => exact ⟨rfl, rfl⟩
    | some o =>
        dsimp only
        split
        · exact ⟨rfl, rfl⟩
        · split <;> exact ⟨rfl, rfl⟩

/-- `EOS_Shutdown` clears the allocators or does nothing. -/
theorem eosShutdown_heap (l : Library) : l.eosShutdown.2.heap = l.heap ∨ l.eosShutdown.2.heap =
      l.heap.clearAllocators := by
  unfold eosShutdown
  split
  · exact Or.inl rfl
  · exact Or.inr rfl

/-- Only a `*_Release` of a live block releases memory: its pieces, to the family in force. -/
theorem step_released (h : l.step a = some l') :
    l'.heap.released = l.heap.released ++ match a with
      | .release block => ((l.heap.blocks.get? block).map ApiBlock.pieces).getD [] |>.map
          fun m => (m, l.heap.allocators.releasing)
      | _ => [] := by
  cases a with
  | eosInitialize options =>
      cases h
      rcases l.eosInitialize_heap options with heq | ⟨_, _, heq⟩ <;> simp [heq, Heap.setAllocators]
  | eosShutdown =>
      cases h
      rcases l.eosShutdown_heap with heq | heq <;> simp [heq, Heap.clearAllocators]
  | allocApiBlock memory =>
      cases h
      cases memory <;> simp [Heap.allocApiBlock, Heap.alloc]
  | attachBytes block memory =>
      cases h
      cases memory <;> cases hb : l.heap.blocks.get? block <;>
        simp [Heap.attachBytes, Heap.alloc, hb]
  | release block =>
      obtain ⟨_, hl⟩ := Option.ite_none_right_eq_some.1 h
      cases hl
      cases hb : l.heap.blocks.get? block with
      | none => simp [Heap.freeApiBlock, hb]
      | some b => simp [Heap.freeApiBlock_released hb, hb]

/-- A step keeps the allocators consistent. -/
theorem consistent_step (hl : l.Consistent) (h : l.step a = some l') : l'.Consistent := by
  cases a with
  | eosInitialize options =>
      cases h
      rcases l.eosInitialize_heap options with heq | ⟨_, hall, heq⟩
      · exact ⟨heq ▸ hl.allocators, heq ▸ hl.blocks⟩
      · exact ⟨heq ▸ hall, heq ▸ hl.blocks⟩
  | eosShutdown =>
      cases h
      rcases l.eosShutdown_heap with heq | heq
      · exact ⟨heq ▸ hl.allocators, heq ▸ hl.blocks⟩
      · exact ⟨heq ▸ ⟨rfl, rfl⟩, heq ▸ hl.blocks⟩
  | allocApiBlock memory =>
      cases h
      cases memory with
      | false => exact hl
      | true =>
          refine ⟨hl.allocators, fun p b hb m hm => ?_⟩
          simp only [Heap.allocApiBlock, Heap.alloc, if_true, Dict.get?_set] at hb
          split at hb
          · cases hb
            simp only [ApiBlock.pieces, List.nil_append, List.mem_singleton] at hm
            exact hm ▸ hl.allocators
          · exact hl.blocks p b hb m hm
  | attachBytes block memory =>
      cases h
      cases hb : l.heap.blocks.get? block with
      | none =>
          simp only [Heap.attachBytes, hb]
          exact hl
      | some b =>
          cases memory with
          | false =>
              simp only [Heap.attachBytes, Heap.alloc, hb]
              exact hl
          | true =>
              simp only [Heap.attachBytes, Heap.alloc, hb, if_true]
              refine ⟨hl.allocators, fun p c hc m hm => ?_⟩
              simp only [Dict.get?_set] at hc
              split at hc
              · cases hc
                simp only [ApiBlock.pieces, List.cons_append, List.mem_cons] at hm
                rcases hm with rfl | hm
                · exact hl.allocators
                · exact hl.blocks block b hb m hm
              · exact hl.blocks p c hc m hm
  | release block =>
      obtain ⟨_, hl'⟩ := Option.ite_none_right_eq_some.1 h
      cases hl'
      obtain ⟨hallocators, hblocks⟩ := l.heap.freeApiBlock_frame block
      exact ⟨hallocators ▸ hl.allocators, fun p b hb => hl.blocks p b (hblocks p b hb)⟩

/-- A step keeps the pairing exactly if it releases under the allocators the block was obtained
under. -/
theorem paired_step (hl : l.Consistent) (h : l.step a = some l') :
    l'.Paired ↔ l.Paired ∧ ReleasesUnderSame l a := by
  rw [Paired, step_released h]
  cases a with
  | release block =>
      cases hb : l.heap.blocks.get? block with
      | none => simp [Paired, ReleasesUnderSame, hb]
      | some b =>
          have hpiece : ∀ m ∈ b.pieces, (m.producer = l.heap.allocators.releasing ↔
            m.installed = l.heap.allocators) :=
            fun m hm => Allocators.allocating_eq_releasing (hl.blocks block b hb m hm)
              hl.allocators
          simp only [Paired, ReleasesUnderSame, hb, Option.map_some, Option.getD_some,
            List.mem_append, List.mem_map]
          constructor
          · intro hpaired
            refine ⟨fun x hx => hpaired x (Or.inl hx), fun c hc m hm => ?_⟩
            cases hc
            exact (hpiece m hm).1 (hpaired _ (Or.inr ⟨m, hm, rfl⟩))
          · rintro ⟨hpaired, hsame⟩ x (hx | ⟨m, hm, rfl⟩)
            · exact hpaired x hx
            · exact (hpiece m hm).2 (hsame b rfl m hm)
  | eosInitialize | eosShutdown | allocApiBlock | attachBytes => simp [Paired, ReleasesUnderSame]

end Library

/-- **Allocator pairing.** In every run, all memory released so far went back to the family that
produced it exactly if every `*_Release` of the run found the allocators under which its block and
each attachment were obtained. -/
theorem allocator_pairing {l : List (Transition Library LibraryAction)} {lib : Library}
    (h : Trace Library.step Always {} l lib) :
    lib.Paired ↔ ∀ t ∈ l, ReleasesUnderSame t.pre t.action := by
  have hinv : lib.Consistent ∧ (lib.Paired ↔ ∀ t ∈ l, ReleasesUnderSame t.pre t.action) := by
    refine h.invariant (P := fun l u => u.Consistent ∧
      (u.Paired ↔ ∀ t ∈ l, ReleasesUnderSame t.pre t.action))
      ⟨⟨⟨rfl, rfl⟩, nofun⟩, ?_⟩ fun l u v a _ hu _ hstep => ?_
    · simp [Library.Paired]
    · refine ⟨Library.consistent_step hu.1 hstep, ?_⟩
      rw [Library.paired_step hu.1 hstep, hu.2]
      simp only [List.mem_append, List.mem_singleton]
      exact ⟨fun ⟨hl, ha⟩ t ht => ht.elim (hl t) fun heq => heq ▸ ha,
        fun hall => ⟨fun t ht => hall t (Or.inl ht), hall ⟨u, a, v⟩ (Or.inr rfl)⟩⟩
  exact hinv.2

/-- A game that installs its allocators, copies a result with one attachment and releases it before
shutting down. -/
def sampleGame : List LibraryAction :=
  [.eosInitialize (some { allocators := ⟨true, true, true⟩ }), .allocApiBlock true,
    .attachBytes 1 true, .release 1, .eosShutdown]

/-- A run that allocates and releases in and out of the library's life. -/
theorem allocator_pairing_sample : ∃ l lib, Trace Library.step Always {} l lib ∧
    lib.heap.released.length = 2 ∧ lib.Paired := by
  have hex : ∃ lib, exec Library.step {} sampleGame = some lib ∧ lib.heap.released.length = 2 :=
    ⟨_, rfl, rfl⟩
  obtain ⟨lib, hex, hlen⟩ := hex
  have htrace := Trace.of_exec hex
  exact ⟨_, lib, htrace, hlen, (allocator_pairing htrace).2 (by decide)⟩

/-- A block of the game's allocator that is released after `EOS_Shutdown` goes to the
platform's. -/
theorem not_allocator_pairing : ∃ lib, Run Library.step Always {} lib ∧
    ∃ m, (m, AllocatorFamily.platform) ∈ lib.heap.released ∧ m.producer = .game := by
  have hex : ∃ lib, exec Library.step {} [.eosInitialize
      (some { allocators := ⟨true, true, true⟩ }),
      .allocApiBlock true, .eosShutdown, .release 1] = some lib ∧
      lib.heap.released = [(⟨1, ⟨true, true, true⟩⟩, .platform)] := ⟨_, rfl, rfl⟩
  obtain ⟨lib, hex, hreleased⟩ := hex
  exact ⟨lib, (Trace.of_exec hex).run, ⟨1, ⟨true, true, true⟩⟩, by simp [hreleased], rfl⟩

end EOSEmu
