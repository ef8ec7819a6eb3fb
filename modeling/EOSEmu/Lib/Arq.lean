import Mathlib.Data.Set.Insert
import Mathlib.Data.List.TakeWhile
import Mathlib.Logic.Relation

/-!
# Automatic repeat request

One direction of a reliable channel over a network that loses, duplicates and reorders, as a
transition system on sets. The sender numbers its payloads from one and keeps each pending until it
is acknowledged; the receiver accepts a number once, buffers its payload and releases it later, in
order or not; an acknowledgement is a set of numbers, all of which the receiver had when it was
made. Nothing is said of windows, timers or encodings, so every protocol of the family is an
instance.

`Inv` is the invariant of the family. `Inv.delivered` (a number that is no longer pending has been
released or is buffered), `Inv.nodup` (nothing is released twice) and `Inv.prefix_of_ordered` are
what it is for.
-/

namespace Lib.Arq

/-- The state of one direction of the channel. A pair of a number and a payload stands for a
packet; `data` are the packets in the network, `acks` the acknowledgements in the network, `got`
the numbers the receiver has accepted, `out` what it has released. -/
@[ext] structure State (P : Type*) where
  sent : List P
  pending : Set (ℕ × P)
  data : Set (ℕ × P)
  got : Set ℕ
  buffer : Set (ℕ × P)
  out : List (ℕ × P)
  acks : Set (Set ℕ)

section
variable {P : Type*} {ordered : Prop} {s t : State P}

/-- The packet carries the payload that was sent under its number. -/
def State.Entry (s : State P) (e : ℕ × P) : Prop := 1 ≤ e.1 ∧ s.sent[e.1 - 1]? = some e.2

/-- The numbers released so far. -/
def State.released (s : State P) : List ℕ := s.out.map Prod.fst

/-- The steps of the channel. -/
inductive Step (ordered : Prop) : State P → State P → Prop
  /-- The sender takes the next number. -/
  | send (s : State P) (p : P) : Step ordered s
      { s with sent := s.sent ++ [p], pending := insert (s.sent.length + 1, p) s.pending }
  /-- The network loses packets, the sender transmits pending ones, the receiver acknowledges. -/
  | channel (s : State P) (D : Set (ℕ × P)) (A : Set (Set ℕ)) :
      D ⊆ s.data ∪ s.pending → (∀ g ∈ A, g ∈ s.acks ∨ g ⊆ s.got) →
      Step ordered s { s with data := D, acks := A }
  /-- The receiver accepts a packet it does not have. -/
  | accept (s : State P) (e : ℕ × P) : e ∈ s.data → e.1 ∉ s.got → Step ordered s
      { s with got := insert e.1 s.got, buffer := insert e s.buffer }
  /-- The receiver releases a buffered packet, the next one if the channel is ordered. -/
  | release (s : State P) (e : ℕ × P) : e ∈ s.buffer → (ordered → e.1 = s.out.length + 1) →
      Step ordered s { s with
        buffer := {f | f ∈ s.buffer ∧ f.1 ≠ e.1}, out := s.out ++ [e] }
  /-- The sender handles an acknowledgement. -/
  | acknowledge (s : State P) (g : Set ℕ) : g ∈ s.acks → Step ordered s
      { s with pending := {e | e ∈ s.pending ∧ e.1 ∉ g} }

/-- The invariant of the channel. -/
structure Inv (ordered : Prop) (s : State P) : Prop where
  pending : ∀ e ∈ s.pending, s.Entry e
  data : ∀ e ∈ s.data, s.Entry e
  buffer : ∀ e ∈ s.buffer, s.Entry e
  out : ∀ e ∈ s.out, s.Entry e
  got : ∀ k, k ∈ s.got ↔ (∃ p, (k, p) ∈ s.buffer) ∨ k ∈ s.released
  disjoint : ∀ e ∈ s.buffer, e.1 ∉ s.released
  nodup : s.released.Nodup
  acks : ∀ g ∈ s.acks, g ⊆ s.got
  settled : ∀ e, s.Entry e → e ∈ s.pending ∨ e.1 ∈ s.got
  consecutive : ordered → s.released = List.range' 1 s.out.length

/-- A packet keeps its payload when more is sent. -/
theorem State.Entry.append {e : ℕ × P} (h : s.Entry e) (p : P) :
    1 ≤ e.1 ∧ (s.sent ++ [p])[e.1 - 1]? = some e.2 := by
  obtain ⟨hpos, hget⟩ := h
  refine ⟨hpos, ?_⟩
  rw [List.getElem?_append_left (List.getElem?_eq_some_iff.1 hget).1]
  exact hget

/-- The payload of a number is unique. -/
theorem State.Entry.unique {k : ℕ} {p q : P} (hp : s.Entry (k, p)) (hq : s.Entry (k, q)) :
    p = q :=
  Option.some.inj (hp.2.symm.trans hq.2)

/-- A channel on which nothing has happened. -/
theorem inv_start (h : s.sent = [] ∧ s.pending = ∅ ∧ s.data = ∅ ∧ s.got = ∅ ∧ s.buffer = ∅ ∧
    s.out = [] ∧ s.acks = ∅) : Inv ordered s := by
  obtain ⟨hsent, hpending, hdata, hgot, hbuffer, hout, hacks⟩ := h
  have hrel : s.released = [] := by rw [State.released, hout]; rfl
  refine ⟨?_, ?_, ?_, ?_, ?_, ?_, ?_, ?_, ?_, ?_⟩
  · intro e he
    rw [hpending] at he
    cases he
  · intro e he
    rw [hdata] at he
    cases he
  · intro e he
    rw [hbuffer] at he
    cases he
  · intro e he
    rw [hout] at he
    cases he
  · intro k
    rw [hgot, hbuffer, hrel]
    simp
  · intro e he
    rw [hbuffer] at he
    cases he
  · rw [hrel]
    exact List.nodup_nil
  · intro g hg
    rw [hacks] at hg
    cases hg
  · intro e he
    have := he.2
    rw [hsent] at this
    simp at this
  · intro _
    rw [hrel, hout]
    rfl

/-- Sending keeps the invariant. -/
theorem Inv.send (h : Inv ordered s) (p : P) : Inv ordered
    { s with sent := s.sent ++ [p], pending := insert (s.sent.length + 1, p) s.pending } where
  pending e he := by
    rcases he with rfl | he
    · exact ⟨Nat.succ_pos _, by simp⟩
    · exact (h.pending e he).append p
  data e he := (h.data e he).append p
  buffer e he := (h.buffer e he).append p
  out e he := (h.out e he).append p
  got := h.got
  disjoint := h.disjoint
  nodup := h.nodup
  acks := h.acks
  settled e he := by
    obtain ⟨hpos, hget⟩ := he
    by_cases hlt : e.1 - 1 < s.sent.length
    · have hentry : s.Entry e := ⟨hpos, by rwa [List.getElem?_append_left hlt] at hget⟩
      rcases h.settled e hentry with hp | hg
      · exact .inl (.inr hp)
      · exact .inr hg
    · have hlen := (List.getElem?_eq_some_iff.1 hget).1
      rw [List.length_append, List.length_singleton] at hlen
      have hk : e.1 - 1 = s.sent.length := by omega
      rw [hk, List.getElem?_concat_length] at hget
      refine .inl (.inl (Prod.ext ?_ (Option.some.inj hget).symm))
      show e.1 = s.sent.length + 1
      omega
  consecutive := h.consecutive

/-- Loss, transmission and acknowledging keep the invariant. -/
theorem Inv.channel (h : Inv ordered s) {D : Set (ℕ × P)} {A : Set (Set ℕ)}
    (hD : D ⊆ s.data ∪ s.pending) (hA : ∀ g ∈ A, g ∈ s.acks ∨ g ⊆ s.got) :
    Inv ordered { s with data := D, acks := A } where
  pending := h.pending
  data e he := (hD he).elim (h.data e) (h.pending e)
  buffer := h.buffer
  out := h.out
  got := h.got
  disjoint := h.disjoint
  nodup := h.nodup
  acks g hg := (hA g hg).elim (h.acks g) id
  settled := h.settled
  consecutive := h.consecutive

/-- Accepting a new number keeps the invariant. -/
theorem Inv.accept (h : Inv ordered s) {e : ℕ × P} (he : e ∈ s.data) (hnew : e.1 ∉ s.got) :
    Inv ordered { s with got := insert e.1 s.got, buffer := insert e s.buffer } where
  pending := h.pending
  data := h.data
  buffer f hf := by
    rcases hf with rfl | hf
    · exact h.data f he
    · exact h.buffer f hf
  out := h.out
  got k := by
    constructor
    · rintro (rfl | hk)
      · exact .inl ⟨e.2, .inl rfl⟩
      · rcases (h.got k).1 hk with ⟨p, hp⟩ | hr
        · exact .inl ⟨p, .inr hp⟩
        · exact .inr hr
    · rintro (⟨p, hp | hp⟩ | hr)
      · exact .inl (congrArg Prod.fst hp)
      · exact .inr ((h.got k).2 (.inl ⟨p, hp⟩))
      · exact .inr ((h.got k).2 (.inr hr))
  disjoint f hf := by
    rcases hf with rfl | hf
    · exact fun hr => hnew ((h.got _).2 (.inr hr))
    · exact h.disjoint f hf
  nodup := h.nodup
  acks g hg k hk := .inr (h.acks g hg hk)
  settled f hf := (h.settled f hf).imp id .inr
  consecutive := h.consecutive

/-- Releasing a buffered packet keeps the invariant. -/
theorem Inv.release (h : Inv ordered s) {e : ℕ × P} (he : e ∈ s.buffer)
    (hnext : ordered → e.1 = s.out.length + 1) : Inv ordered
    { s with buffer := {f | f ∈ s.buffer ∧ f.1 ≠ e.1}, out := s.out ++ [e] } where
  pending := h.pending
  data := h.data
  buffer f hf := h.buffer f hf.1
  out f hf := by
    rcases List.mem_append.1 hf with hf | hf
    · exact h.out f hf
    · obtain rfl := List.mem_singleton.1 hf
      exact h.buffer f he
  got k := by
    have hrel : (s.out ++ [e]).map Prod.fst = s.released ++ [e.1] := List.map_append
    show k ∈ s.got ↔ (∃ p, (k, p) ∈ s.buffer ∧ k ≠ e.1) ∨ k ∈ (s.out ++ [e]).map Prod.fst
    rw [hrel, h.got, List.mem_append, List.mem_singleton]
    constructor
    · rintro (⟨p, hp⟩ | hr)
      · by_cases hk : k = e.1
        · exact .inr (.inr hk)
        · exact .inl ⟨p, hp, hk⟩
      · exact .inr (.inl hr)
    · rintro (⟨p, hp, _⟩ | hr | rfl)
      · exact .inl ⟨p, hp⟩
      · exact .inr hr
      · exact .inl ⟨e.2, he⟩
  disjoint f hf := by
    intro hr
    rw [State.released, List.map_append, List.mem_append] at hr
    rcases hr with hr | hr
    · exact h.disjoint f hf.1 hr
    · exact hf.2 (List.mem_singleton.1 hr)
  nodup := by
    show ((s.out ++ [e]).map Prod.fst).Nodup
    rw [List.map_append, List.nodup_append]
    refine ⟨h.nodup, List.pairwise_singleton _ _, ?_⟩
    intro k hk j hj hkj
    rw [List.map_singleton, List.mem_singleton] at hj
    rw [hkj, hj] at hk
    exact h.disjoint e he hk
  acks := h.acks
  settled := h.settled
  consecutive ho := by
    show (s.out ++ [e]).map Prod.fst = List.range' 1 (s.out ++ [e]).length
    have hold : s.out.map Prod.fst = List.range' 1 s.out.length := h.consecutive ho
    rw [List.map_append, hold, List.length_append, List.length_singleton, List.range'_concat]
    simp [hnext ho, Nat.add_comm]

/-- Handling an acknowledgement keeps the invariant: what it removes has been received. -/
theorem Inv.acknowledge (h : Inv ordered s) {g : Set ℕ} (hg : g ∈ s.acks) :
    Inv ordered { s with pending := {e | e ∈ s.pending ∧ e.1 ∉ g} } where
  pending e he := h.pending e he.1
  data := h.data
  buffer := h.buffer
  out := h.out
  got := h.got
  disjoint := h.disjoint
  nodup := h.nodup
  acks := h.acks
  settled e he := by
    rcases h.settled e he with hp | hgot
    · by_cases hk : e.1 ∈ g
      · exact .inr (h.acks g hg hk)
      · exact .inl ⟨hp, hk⟩
    · exact .inr hgot
  consecutive := h.consecutive

/-- Every step keeps the invariant. -/
theorem Inv.step (h : Inv ordered s) (hst : Step ordered s t) : Inv ordered t := by
  cases hst with
  | send p => exact h.send p
  | channel D A hD hA => exact h.channel hD hA
  | accept e he hnew => exact h.accept he hnew
  | release e he hnext => exact h.release he hnext
  | acknowledge g hg => exact h.acknowledge hg

/-- Any number of steps keeps the invariant. -/
theorem Inv.steps (h : Inv ordered s) (hst : Relation.ReflTransGen (Step ordered) s t) :
    Inv ordered t := by
  induction hst with
  | refl => exact h
  | tail _ hlast ih => exact ih.step hlast

/-! ## What the invariant is for -/

/-- A packet that is no longer pending has been released, or is still buffered. -/
theorem Inv.delivered (h : Inv ordered s) {e : ℕ × P} (he : s.Entry e) (hpend : e ∉ s.pending) :
    e ∈ s.out ∨ e ∈ s.buffer := by
  obtain ⟨k, p⟩ := e
  have hgot : k ∈ s.got := (h.settled _ he).resolve_left hpend
  rcases (h.got k).1 hgot with ⟨q, hq⟩ | hr
  · right
    rwa [he.unique (h.buffer _ hq)]
  · left
    obtain ⟨⟨j, q⟩, hmem, rfl⟩ := List.mem_map.1 hr
    rwa [he.unique (h.out _ hmem)]

/-- On an ordered channel what is released is a front part of what was sent. -/
theorem Inv.prefix_of_ordered (h : Inv ordered s) (ho : ordered) :
    s.out.map Prod.snd = s.sent.take s.out.length := by
  have hrel : s.out.map Prod.fst = List.range' 1 s.out.length := h.consecutive ho
  refine List.ext_getElem? fun i => ?_
  by_cases hi : i < s.out.length
  · have hfst : (s.out[i]).1 = i + 1 := by
      have hget := congrArg (fun l : List ℕ => l[i]?) hrel
      simp only [List.getElem?_map, List.getElem?_eq_getElem hi, Option.map_some,
        List.getElem?_range', hi] at hget
      have := Option.some.inj hget
      omega
    obtain ⟨_, hentry⟩ := h.out _ (List.getElem_mem hi)
    rw [hfst, Nat.add_sub_cancel] at hentry
    rw [List.getElem?_map, List.getElem?_eq_getElem hi, List.getElem?_take_of_lt hi, hentry]
    rfl
  · rw [List.getElem?_eq_none (by simpa using hi),
      List.getElem?_eq_none (by rw [List.length_take]; omega)]

end

end Lib.Arq
