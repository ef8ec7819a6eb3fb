import EOSEmu.P2P.Sequence

/-!
# The receiving side of a reliable stream

`InboxHasRoom`, `EnqueueInbox`, `DrainRecvStream` and the part of `OnDatagram(P2PData)` that works
on one `RecvStream`: the duplicate test, buffering, the advance of `NextExpected`, the pruning of
`Received` and the numbers of the ack. `Delivers` is one release after another, and
`drainRecvStream_spec` says that draining is such a sequence.
-/

namespace EOSEmu

open Lib (Dict SeqMap)

/-! ## The inbox -/

/-- `P2PInterface::InboxHasRoom`. -/
def inboxHasRoom (b : Inbox) (bytes : ℕ) : Bool := b.maxBytes = 0 || b.bytes + bytes ≤ b.maxBytes

/-- `P2PInterface::EnqueueInbox`: the new inbox, and whether the packet was dropped. -/
def enqueueInbox (b : Inbox) (peer : ProductUserId) (socket : Bytes) (channel : UInt8)
    (data : Bytes) : Inbox × Bool :=
  if !inboxHasRoom b data.length then (b, true)
  else ({ b with
      packets := b.packets ++ [{ peer, socketName := socket, channel, data }]
      bytes := b.bytes + data.length }, false)

/-! ## `DrainRecvStream` -/

/-- What a drain leaves: whether it is blocked on a full inbox, and what it moved there. -/
structure Drained where
  blocked : Bool
  inbox : Inbox
  stream : RecvStream
  moved : List (ℕ × Bytes)

/-- Moves one buffered packet to the inbox and goes on. -/
def RecvStream.move (s : RecvStream) (b : Inbox) (data : Bytes) : Inbox :=
  (enqueueInbox b s.peer s.socket s.channel data).1

/-- The stream after the release of a buffered packet: `NextToDeliver` counts on an ordered
stream. -/
def RecvStream.release (s : RecvStream) (k : ℕ) : RecvStream :=
  { s with
    buffer := s.buffer.erase k
    nextToDeliver := if s.ordered then s.nextToDeliver + 1 else s.nextToDeliver }

/-- The loop of `DrainRecvStream` on an ordered stream. Every turn erases an entry of `Buffer`, so
its size bounds the turns. -/
def drainOrdered : ℕ → Inbox → RecvStream → Drained
  | 0, b, s => ⟨false, b, s, []⟩
  | n + 1, b, s =>
      match s.buffer.get? s.nextToDeliver with
      | none => ⟨false, b, s, []⟩
      | some data =>
          if !inboxHasRoom b data.length then ⟨true, b, s, []⟩
          else
            let r := drainOrdered n (s.move b data) (s.release s.nextToDeliver)
            { r with moved := (s.nextToDeliver, data) :: r.moved }

/-- The loop of `DrainRecvStream` on an unordered stream, over the entries of `Buffer`. -/
def drainUnordered : List (ℕ × Bytes) → Inbox → RecvStream → Drained
  | [], b, s => ⟨false, b, s, []⟩
  | (k, data) :: rest, b, s =>
      if !inboxHasRoom b data.length then ⟨true, b, s, []⟩
      else
        let r := drainUnordered rest (s.move b data) (s.release k)
        { r with moved := (k, data) :: r.moved }

/-- `P2PInterface::DrainRecvStream`. -/
def drainRecvStream (b : Inbox) (s : RecvStream) : Drained :=
  if s.ordered then drainOrdered s.buffer.entries.length b s
  else drainUnordered s.buffer.entries b s

/-- One release after another: every released packet was buffered, and on an ordered stream it was
the next to deliver. -/
inductive Delivers : RecvStream → List (ℕ × Bytes) → RecvStream → Prop
  | nil (s : RecvStream) : Delivers s [] s
  | cons {s t : RecvStream} {k : ℕ} {data : Bytes} {l : List (ℕ × Bytes)} :
      s.buffer.get? k = some data → (s.ordered = true → k = s.nextToDeliver) →
      Delivers (s.release k) l t → Delivers s ((k, data) :: l) t

@[simp] theorem RecvStream.release_ordered (s : RecvStream) (k : ℕ) :
    (s.release k).ordered = s.ordered := rfl

@[simp] theorem RecvStream.release_buffer (s : RecvStream) (k : ℕ) :
    (s.release k).buffer = s.buffer.erase k := rfl

@[simp] theorem RecvStream.release_got (s : RecvStream) (k j : ℕ) :
    (s.release k).Got j ↔ s.Got j := Iff.rfl

/-- The ordered drain releases deliverable packets. -/
theorem drainOrdered_delivers {s : RecvStream} (n : ℕ) (b : Inbox) :
    Delivers s (drainOrdered n b s).moved (drainOrdered n b s).stream := by
  induction n generalizing b s with
  | zero => exact .nil s
  | succ n ih =>
      unfold drainOrdered
      split
      · exact .nil s
      · next data hdata =>
          split
          · exact .nil s
          · exact .cons hdata (fun _ => rfl) (ih _)

/-- The loop is over the entries that are still there. -/
theorem drainUnordered_delivers {s : RecvStream} (hs : s.ordered = false) {l : List (ℕ × Bytes)}
    (hl : ∀ e ∈ l, s.buffer.get? e.1 = some e.2) (hnd : (l.map Prod.fst).Nodup) (b : Inbox) :
    Delivers s (drainUnordered l b s).moved (drainUnordered l b s).stream := by
  induction l generalizing b s with
  | nil => exact .nil s
  | cons e l ih =>
      obtain ⟨k, data⟩ := e
      rw [List.map_cons, List.nodup_cons] at hnd
      unfold drainUnordered
      split
      · exact .nil s
      · refine .cons (hl _ List.mem_cons_self) (fun h => by simp [hs] at h)
          (ih (s := s.release k) hs ?_ hnd.2 _)
        intro e he
        have hne : e.1 ≠ k := fun h => hnd.1 (List.mem_map.2 ⟨e, he, h⟩)
        simp [hne, hl e (List.mem_cons_of_mem _ he)]

/-- An ordered drain that is not blocked stops at a hole: its bound is never what ends it. -/
theorem drainOrdered_hole {s : RecvStream} {n : ℕ} (b : Inbox) (hn : s.buffer.entries.length ≤ n) :
    (drainOrdered n b s).blocked = true ∨
      (drainOrdered n b s).stream.buffer.get? (drainOrdered n b s).stream.nextToDeliver =
        none := by
  induction n generalizing b s with
  | zero =>
      have hnil : s.buffer.entries = [] := List.length_eq_zero_iff.1 (Nat.le_zero.1 hn)
      right
      simp [drainOrdered, SeqMap.get?, hnil]
  | succ n ih =>
      unfold drainOrdered
      split
      · next hnone => exact .inr hnone
      · next data hdata =>
          split
          · exact .inl rfl
          · have hlt := SeqMap.erase_length_lt hdata
            exact ih (s := s.release s.nextToDeliver) _ (by rw [RecvStream.release_buffer]; omega)

/-- Draining releases packets one after another, and an ordered stream that is not blocked on the
inbox then waits for the next number. -/
theorem drainRecvStream_spec (b : Inbox) (s : RecvStream) :
    Delivers s (drainRecvStream b s).moved (drainRecvStream b s).stream ∧
      (s.ordered = true → (drainRecvStream b s).blocked = true ∨
        (drainRecvStream b s).stream.buffer.get? (drainRecvStream b s).stream.nextToDeliver =
          none) := by
  unfold drainRecvStream
  split
  · next hs => exact ⟨drainOrdered_delivers _ _, fun _ => drainOrdered_hole b (Nat.le_refl _)⟩
  · next hs =>
      refine ⟨drainUnordered_delivers (by simpa using hs) ?_
        (Lib.nodup_of_ascending s.buffer.sorted) b, ?_⟩
      · exact fun e he => SeqMap.mem_entries.1 he
      · exact fun hord => absurd hord hs

/-- What a drain moves is what the inbox gains. -/
def RecvStream.incoming (s : RecvStream) (moved : List (ℕ × Bytes)) : List IncomingPacket :=
  moved.map fun e => ⟨s.peer, s.socket, s.channel, e.2⟩

/-- Releases keep everything but `Buffer` and `NextToDeliver`. -/
theorem Delivers.frame {s t : RecvStream} {l : List (ℕ × Bytes)} (h : Delivers s l t) :
    t = { s with buffer := t.buffer, nextToDeliver := t.nextToDeliver } := by
  induction h with
  | nil => rfl
  | cons _ _ _ ih => rw [ih]; rfl

/-! ## New data -/

/-- `while (Received.count(NextExpected) != 0) ++NextExpected`. Every turn passes another member
of `Received`, so its size bounds the turns. -/
def advance (received : SeqMap Unit) : ℕ → ℕ → ℕ
  | 0, next => next
  | n + 1, next => if received.contains next then advance received n (next + 1) else next

/-- Buffers a packet that is not a duplicate. -/
def RecvStream.accept (s : RecvStream) (k : ℕ) (data : Bytes) : RecvStream :=
  let received := s.received.set k ()
  let nextExpected := advance received received.entries.length s.nextExpected
  { s with
    received := received.dropUpTo (nextExpected - 1)   -- prunes below `NextExpected`
    buffer := s.buffer.set k data
    nextExpected }

/-- The advance passes members only. -/
theorem advance_passes (m : SeqMap Unit) (n e : ℕ) :
    e ≤ advance m n e ∧ ∀ k, e ≤ k → k < advance m n e → m.contains k = true := by
  induction n generalizing e with
  | zero => exact ⟨Nat.le_refl e, fun k h₁ h₂ => absurd h₂ (Nat.not_lt.2 h₁)⟩
  | succ n ih =>
      unfold advance
      split
      · next hc =>
          obtain ⟨hle, hall⟩ := ih (e + 1)
          refine ⟨by omega, fun k h₁ h₂ => ?_⟩
          rcases Nat.eq_or_lt_of_le h₁ with rfl | hlt
          · exact hc
          · exact hall k hlt h₂
      · exact ⟨Nat.le_refl e, fun k h₁ h₂ => absurd h₂ (Nat.not_lt.2 h₁)⟩

/-- The bound of the loop is never what ends it. -/
theorem advance_stop (m : SeqMap Unit) (n e : ℕ)
    (hn : (m.entries.filter fun x => e ≤ x.1).length ≤ n) : m.contains (advance m n e) = false := by
  induction n generalizing e with
  | zero =>
      rw [Bool.eq_false_iff]
      intro hc
      obtain ⟨v, hv⟩ := SeqMap.contains_iff.1 hc
      have hmem : (e, v) ∈ m.entries.filter fun x => e ≤ x.1 :=
        List.mem_filter.2 ⟨SeqMap.mem_entries.2 hv, by simp⟩
      rw [List.length_eq_zero_iff.1 (Nat.le_zero.1 hn)] at hmem
      cases hmem
  | succ n ih =>
      unfold advance
      split
      · next hc =>
          obtain ⟨v, hv⟩ := SeqMap.contains_iff.1 hc
          refine ih (e + 1) ?_
          have hmem : (e, v) ∈ m.entries := SeqMap.mem_entries.2 hv
          have hlt : (m.entries.filter fun x => e + 1 ≤ x.1).length <
              (m.entries.filter fun x => e ≤ x.1).length := by
            rw [← List.countP_eq_length_filter, ← List.countP_eq_length_filter]
            obtain ⟨l₁, l₂, hl⟩ := List.append_of_mem hmem
            have hmono : ∀ l : List (ℕ × Unit),
                l.countP (fun x => decide (e + 1 ≤ x.1)) ≤ l.countP fun x => decide (e ≤ x.1) :=
              fun l => List.countP_mono_left fun x _ hx => by
                simp only [decide_eq_true_eq] at hx ⊢
                omega
            rw [hl, List.countP_append, List.countP_append, List.countP_cons, List.countP_cons]
            have := hmono l₁
            have := hmono l₂
            have hself : ¬ e + 1 ≤ e := by omega
            simp only [hself, decide_false, decide_true, Nat.le_refl, if_true, Bool.false_eq_true,
              if_false]
            omega
          omega
      · next hc => exact Bool.eq_false_iff.2 hc

/-- The advance passes members only and ends at a number that is missing. -/
theorem advance_spec (m : SeqMap Unit) (e : ℕ) :
    e ≤ advance m m.entries.length e ∧ (∀ k, e ≤ k → k < advance m m.entries.length e →
    m.contains k = true) ∧ m.contains (advance m m.entries.length e) = false := by
  obtain ⟨hle, hall⟩ := advance_passes m m.entries.length e
  exact ⟨hle, hall, advance_stop m _ e (List.length_filter_le _ _)⟩

/-- The duplicate test of `OnDatagram(P2PData)`. -/
def RecvStream.isDuplicate (s : RecvStream) (k : ℕ) : Bool :=
  k < s.nextExpected || s.received.contains k

@[simp] theorem RecvStream.accept_buffer (s : RecvStream) (k : ℕ) (data : Bytes) :
    (s.accept k data).buffer = s.buffer.set k data := rfl

@[simp] theorem RecvStream.accept_ordered (s : RecvStream) (k : ℕ) (data : Bytes) :
    (s.accept k data).ordered = s.ordered := rfl

@[simp] theorem RecvStream.accept_nextToDeliver (s : RecvStream) (k : ℕ) (data : Bytes) :
    (s.accept k data).nextToDeliver = s.nextToDeliver := rfl

/-- A number the duplicate test lets pass has not been received, and a positive number it stops
has. -/
theorem RecvStream.isDuplicate_iff {s : RecvStream} {k : ℕ} (hk : 1 ≤ k) :
    s.isDuplicate k = true ↔ s.Got k := by
  simp [RecvStream.isDuplicate, RecvStream.Got, hk]

/-- The membership test after an insertion. -/
theorem contains_set {m : SeqMap Unit} {k j : ℕ} :
    (m.set k ()).contains j = true ↔ j = k ∨ m.contains j = true := by
  by_cases hj : j = k <;> simp [SeqMap.contains, hj]

/-- The membership test after pruning below a positive bound. -/
theorem contains_dropUpTo {m : SeqMap Unit} {b j : ℕ} (hb : 1 ≤ b) :
    (m.dropUpTo (b - 1)).contains j = true ↔ b ≤ j ∧ m.contains j = true := by
  by_cases hj : j ≤ b - 1
  · have : ¬ b ≤ j := by omega
    simp [SeqMap.contains, hj, this]
  · have : b ≤ j := by omega
    simp [SeqMap.contains, hj, this]

/-- The watermark only grows. -/
theorem RecvStream.le_accept_nextExpected (s : RecvStream) (k : ℕ) (data : Bytes) :
    s.nextExpected ≤ (s.accept k data).nextExpected :=
  (advance_spec _ _).1

/-- Accepting a packet adds its number to those received, and no other. -/
theorem RecvStream.accept_got {s : RecvStream} {k : ℕ} (data : Bytes) (hs : 1 ≤ s.nextExpected)
    (hk : 1 ≤ k) (j : ℕ) : (s.accept k data).Got j ↔ j = k ∨ s.Got j := by
  obtain ⟨hle, hall, _⟩ := advance_spec (s.received.set k ()) s.nextExpected
  unfold RecvStream.accept RecvStream.Got
  simp only
  generalize advance (s.received.set k ()) (s.received.set k ()).entries.length
    s.nextExpected = next at hle hall ⊢
  rw [contains_dropUpTo (by omega), contains_set]
  constructor
  · rintro ⟨hj, hlt | ⟨_, rfl | h⟩⟩
    · by_cases hjn : j < s.nextExpected
      · exact .inr ⟨hj, .inl hjn⟩
      · rcases contains_set.1 (hall j (by omega) hlt) with rfl | h
        · exact .inl rfl
        · exact .inr ⟨hj, .inr h⟩
    · exact .inl rfl
    · exact .inr ⟨hj, .inr h⟩
  · rintro (rfl | ⟨hj, h⟩)
    · by_cases hjn : j < next
      · exact ⟨hk, .inl hjn⟩
      · exact ⟨hk, .inr ⟨by omega, .inl rfl⟩⟩
    · refine ⟨hj, ?_⟩
      by_cases hjn : j < next
      · exact .inl hjn
      · rcases h with h | h
        · omega
        · exact .inr ⟨by omega, .inr h⟩

/-! ## One datagram -/

/-- The stream a datagram is processed against: a fresh one is created by it. -/
def openRecvStream (p : P2P) (peer : ProductUserId) (socket : Bytes) (channel : UInt8)
    (ordered : Bool) (inc : ℕ) : RecvStream :=
  { (p.recvStreams.get? (streamKey peer socket channel ordered)).getD { inc } with
    peer, socket, channel, ordered }

/-- The number in the ack: the highest contiguous one received. -/
def RecvStream.ackSeq (s : RecvStream) : ℕ := s.nextExpected - 1

/-- The mask in the ack. -/
def RecvStream.sack (s : RecvStream) : UInt32 :=
  sackOf fun i => s.received.contains (s.nextExpected + 1 + i)

/-- What reliable data does to its stream before the drain: nothing if it is a duplicate. -/
def RecvStream.receive (s : RecvStream) (k : ℕ) (data : Bytes) : RecvStream :=
  if s.isDuplicate k then s else s.accept k data

/-- How a datagram with this number is classified. -/
def RecvStream.dataEvent (s : RecvStream) (key : Bytes) (inc k : ℕ) (data : Bytes) : Event :=
  if s.isDuplicate k then .duplicate key ⟨inc, k⟩ else .accepted key ⟨inc, k⟩ data

/-- An ack covers exactly numbers its stream has received. -/
theorem RecvStream.got_of_covers {s : RecvStream} {k : ℕ} (hs : 1 ≤ s.nextExpected) (hk : 1 ≤ k)
    (h : Covers s.ackSeq s.sack k) : s.Got k := by
  rcases h with h | ⟨i, hi, hbit, rfl⟩
  · exact ⟨hk, .inl (by unfold RecvStream.ackSeq at h; omega)⟩
  · rw [RecvStream.sack, sackBit_sackOf _ hi] at hbit
    refine ⟨hk, .inr ?_⟩
    have : s.ackSeq + 2 + i = s.nextExpected + 1 + i := by
      unfold RecvStream.ackSeq
      omega
    rwa [this]

end EOSEmu
