import EOSEmu.P2P.Interface

/-!
# What an ack erases

The receiver acknowledges `NextExpected - 1` and a mask that starts at `NextExpected + 1`; the
sender extends the 32-bit number against `NextSeq` and reads the mask from `AckSeq + 2`. The two
mean the same numbers as long as the sums of `Extend32` do not wrap at `2 ^ 64`
(`SendStream.pending_afterAck`). Where they wrap, the ack is taken for one of a far smaller number,
and erases less (`ack_agreement`).
-/

namespace EOSEmu

open Lib (Dict SeqMap)

/-- Where `Extend32` computes without wrapping: the watermark is below the last multiple of
`2 ^ 32`, or both numbers are in the first half of the last `2 ^ 32`. -/
def Unwrapped (ref v : ℕ) : Prop :=
  ref < 2 ^ 64 - 2 ^ 32 ∨
    (2 ^ 64 - 2 ^ 32 ≤ v ∧ v < 2 ^ 64 - 2 ^ 31 ∧ 2 ^ 64 - 2 ^ 32 ≤ ref ∧ ref < 2 ^ 64 - 2 ^ 31)

/-- `Extend32` recovers a number that is at most `2 ^ 31` below or less than `2 ^ 31` above the
watermark. -/
theorem extend32_exact {ref v : ℕ} (hlo : ref ≤ v + 2 ^ 31) (hhi : v < ref + 2 ^ 31)
    (href : Unwrapped ref v) : extend32 ref (UInt32.ofNat v) = v := by
  obtain ⟨candidate, hc, heq⟩ := extend32_ofNat ref v
  rw [heq]
  unfold Unwrapped at href
  rcases href with href | ⟨h₁, h₂, h₃, h₄⟩
  · split
    · omega
    · split <;> omega
  · have hv : candidate = v := by omega
    split
    · omega
    · split <;> omega

/-- What `Extend32` takes a number for where its sums wrap: the one `2 ^ 32` before it, or its low
32 bits. -/
def wrappedTo (v : ℕ) : ℕ :=
  if 2 ^ 64 - 2 ^ 32 ≤ v ∧ v < 2 ^ 64 - 2 ^ 31 then v - 2 ^ 32 else v % 2 ^ 32

/-- `Extend32` on a number of the same range where its sums wrap. -/
theorem extend32_wrappedTo {ref v : ℕ} (hlo : ref ≤ v + 2 ^ 31) (hhi : v < ref + 2 ^ 31)
    (href : ref < 2 ^ 64) (hv : v < 2 ^ 64) (hwrap : ¬ Unwrapped ref v) :
    extend32 ref (UInt32.ofNat v) = wrappedTo v := by
  obtain ⟨candidate, hc, heq⟩ := extend32_ofNat ref v
  rw [heq, wrappedTo]
  unfold Unwrapped at hwrap
  have hmod : (v % 2 ^ 32 + (2 ^ 64 - 2 ^ 32) + 2 ^ 32) % 2 ^ 64 = v % 2 ^ 32 := by omega
  split
  · split <;> omega
  · split <;> split <;> omega

/-- The number an ack is then taken for is far below its own. -/
theorem wrappedTo_lt {ref v : ℕ} (hlo : ref ≤ v + 2 ^ 31) (hwrap : ¬ Unwrapped ref v) :
    wrappedTo v + 2 ^ 32 ≤ v := by
  unfold Unwrapped at hwrap
  unfold wrappedTo
  split <;> omega

/-- The numbers the receiver's state says it has and can tell: all below `NextExpected`, and those
of the 32 after `NextExpected` that are in `Received`. -/
def RecvStream.Acknowledges (r : RecvStream) (k : ℕ) : Prop :=
  k ≤ r.nextExpected - 1 ∨
    (r.nextExpected + 1 ≤ k ∧ k ≤ r.nextExpected + 32 ∧ r.received.contains k = true)

/-- The ack covers what its stream acknowledges. -/
theorem RecvStream.covers_iff {r : RecvStream} (hr : 1 ≤ r.nextExpected) (k : ℕ) :
    Covers r.ackSeq r.sack k ↔ r.Acknowledges k := by
  have hsum : ∀ i, r.ackSeq + 2 + i = r.nextExpected + 1 + i := by
    intro i
    unfold RecvStream.ackSeq
    omega
  constructor
  · rintro (h | ⟨i, hi, hbit, rfl⟩)
    · exact .inl h
    · rw [RecvStream.sack, sackBit_sackOf _ hi, ← hsum] at hbit
      refine .inr ⟨?_, ?_, hbit⟩ <;> rw [hsum] <;> omega
  · rintro (h | ⟨hlo, hhi, hrec⟩)
    · exact .inl h
    · obtain ⟨i, rfl⟩ := Nat.exists_eq_add_of_le hlo
      have hi : i < 32 := by omega
      refine .inr ⟨i, hi, ?_, (hsum i).symm⟩
      rw [RecvStream.sack, sackBit_sackOf _ hi]
      exact hrec

/-- The sender's stream after it handled the ack that the receiver's state builds. -/
def SendStream.afterAck (s : SendStream) (r : RecvStream) (now : TimePoint) : SendStream :=
  s.processAck (extend32 s.nextSeq (UInt32.ofNat r.ackSeq)) r.sack now

/-- The ack of a receiver's state. -/
def RecvStream.ack (r : RecvStream) (receiver : ProductUserId) (socket : Bytes)
    (channel orderedByte : UInt8) : Datagram Pos :=
  ⟨receiver, socket, .ack channel orderedByte ⟨r.inc, r.ackSeq⟩ r.sack⟩

/-- `OnDatagram` on the ack of a receiver's state does that to the stream of its key. -/
theorem onMessage_afterAck {p : P2P} {localPid peer : ProductUserId} {from_ : Endpoint}
    {socket : Bytes} {channel orderedByte : UInt8} {inc : ℕ} {now : TimePoint} {r : RecvStream}
    {s : SendStream}
    (hs : p.sendStreams.get? (streamKey peer socket channel (orderedByte ≠ 0)) = some s) :
    (p.onMessage localPid from_ (r.ack peer socket channel orderedByte).wire inc
      now).1.sendStreams.get? (streamKey peer socket channel (orderedByte ≠ 0)) =
        some (s.afterAck r now) := by
  have hproof : (p.proofOfLife peer socket).sendStreams = p.sendStreams := by
    unfold P2P.proofOfLife
    split <;> rfl
  show (p.onAck peer socket channel orderedByte (UInt32.ofNat r.ackSeq) r.sack
    now).1.sendStreams.get? _ = _
  unfold P2P.onAck
  dsimp only
  rw [hproof, hs]
  dsimp only
  rw [Dict.get?_set, if_pos rfl]
  rfl

/-- The ack of a receiver's state erases from `Pending` the numbers covered by what its number is
taken for. -/
theorem SendStream.pending_afterAck_of {r : RecvStream} {s : SendStream} {now : TimePoint} {a : ℕ}
    (hext : extend32 s.nextSeq (UInt32.ofNat r.ackSeq) = a) (k : ℕ) (u : Unacked) :
    (s.afterAck r now).pending.get? k = some u ↔
      s.pending.get? k = some u ∧ ¬ Covers a r.sack k := by
  rw [SendStream.afterAck, hext, SendStream.processAck_pending]

/-- The ack erases exactly the numbers the state acknowledges, at all positions less than `2 ^ 31`
apart at which `Extend32` does not wrap. -/
theorem SendStream.pending_afterAck {r : RecvStream} {s : SendStream} {now : TimePoint}
    (hr : 1 ≤ r.nextExpected) (hlo : s.nextSeq ≤ r.ackSeq + 2 ^ 31)
    (hhi : r.ackSeq < s.nextSeq + 2 ^ 31) (hwrap : Unwrapped s.nextSeq r.ackSeq) (k : ℕ)
    (u : Unacked) : (s.afterAck r now).pending.get? k = some u ↔
      s.pending.get? k = some u ∧ ¬ r.Acknowledges k := by
  rw [SendStream.pending_afterAck_of (extend32_exact hlo hhi hwrap), RecvStream.covers_iff hr]

/-- The sender reads the ack of the receiver's state right: the sums of `Extend32` do not wrap, or
every number of `Pending` that the state acknowledges is covered also by what the ack is then taken
for. -/
def AckRead (s : SendStream) (r : RecvStream) : Prop :=
  Unwrapped s.nextSeq r.ackSeq ∨ ∀ k u, s.pending.get? k = some u → r.Acknowledges k →
    Covers (wrappedTo r.ackSeq) r.sack k

/-- **Acknowledgement agreement.** For positions less than `2 ^ 31` apart, the sender that handles
the ack of a receiver's state erases from `Pending` exactly the numbers that state acknowledges,
and nothing else, if and only if it reads the ack right. -/
theorem ack_agreement {p : P2P} {localPid peer : ProductUserId} {from_ : Endpoint}
    {socket : Bytes} {channel orderedByte : UInt8} {inc : ℕ} {now : TimePoint} {r : RecvStream}
    {s : SendStream}
    (hs : p.sendStreams.get? (streamKey peer socket channel (orderedByte ≠ 0)) = some s)
    (hr : 1 ≤ r.nextExpected) (hr64 : r.nextExpected < 2 ^ 64) (hs64 : s.nextSeq < 2 ^ 64)
    (hlo : s.nextSeq < r.nextExpected + 2 ^ 31) (hhi : r.nextExpected < s.nextSeq + 2 ^ 31) :
    (∃ s', (p.onMessage localPid from_ (r.ack peer socket channel orderedByte).wire inc
        now).1.sendStreams.get? (streamKey peer socket channel (orderedByte ≠ 0)) = some s' ∧
      ∀ k u, s'.pending.get? k = some u ↔ s.pending.get? k = some u ∧ ¬ r.Acknowledges k) ↔
    AckRead s r := by
  have hack : r.ackSeq = r.nextExpected - 1 := rfl
  have hnear : s.nextSeq ≤ r.ackSeq + 2 ^ 31 ∧ r.ackSeq < s.nextSeq + 2 ^ 31 := by omega
  rw [onMessage_afterAck hs]
  simp only [Option.some.injEq, exists_eq_left']
  by_cases hwrap : Unwrapped s.nextSeq r.ackSeq
  · exact iff_of_true (SendStream.pending_afterAck hr hnear.1 hnear.2 hwrap) (.inl hwrap)
  -- the ack is taken for one of a number far below, so it can only erase too little
  have hext := extend32_wrappedTo hnear.1 hnear.2 hs64 (by omega) hwrap
  have hfewer : ∀ k, Covers (wrappedTo r.ackSeq) r.sack k → r.Acknowledges k := by
    intro k hk
    rw [← RecvStream.covers_iff hr]
    exact Covers.of_near (.inr (wrappedTo_lt hnear.1 hwrap)) hk
  constructor
  · intro hall
    right
    intro k u hk hacked
    by_contra hmissed
    have hkept : (s.afterAck r now).pending.get? k = some u :=
      (SendStream.pending_afterAck_of hext k u).2 ⟨hk, hmissed⟩
    exact ((hall k u).1 hkept).2 hacked
  · rintro (h | hread) k u
    · exact absurd h hwrap
    · rw [SendStream.pending_afterAck_of hext]
      constructor
      · rintro ⟨hk, hmissed⟩
        exact ⟨hk, fun hacked => hmissed (hread k u hk hacked)⟩
      · rintro ⟨hk, hnot⟩
        exact ⟨hk, fun hcovered => hnot (hfewer k hcovered)⟩

/-- Packets 1, 2 and 3 are pending, and the receiver has 1 and 3: the ack leaves 2. -/
theorem ack_agreement_sample :
    let u : Unacked := ⟨⟨[], [], .connectAccept⟩, {}, 0, 0, 1⟩
    let s : SendStream := { nextSeq := 4, pending := ((SeqMap.empty.set 1 u).set 2 u).set 3 u }
    let r : RecvStream := { nextExpected := 2, received := SeqMap.empty.set 3 () }
    let p : P2P := { sendStreams := Dict.empty.set (streamKey [66] [] 0 true) s }
    ∃ s', (p.onMessage [65] {} (r.ack [66] [] 0 1).wire 0 0).1.sendStreams.get?
        (streamKey [66] [] 0 true) = some s' ∧
      s'.pending.get? 1 ≠ some u ∧ s'.pending.get? 2 = some u ∧ s'.pending.get? 3 ≠ some u := by
  intro u s r p
  have hs : p.sendStreams.get? (streamKey [66] [] 0 true) = some s := by
    rw [Dict.get?_set, if_pos rfl]
  obtain ⟨s', hget, hall⟩ : ∃ s',
    (p.onMessage [65] {} (r.ack [66] [] 0 1).wire 0 0).1.sendStreams.get?
      (streamKey [66] [] 0 true) = some s' ∧
        ∀ k u, s'.pending.get? k = some u ↔ s.pending.get? k = some u ∧ ¬ r.Acknowledges k :=
    (ack_agreement hs (by decide) (by decide) (by decide) (by decide) (by decide)).2
      (.inl (.inl (by decide)))
  refine ⟨s', hget, ?_, ?_, ?_⟩
  · rw [ne_eq, hall]
    exact fun h => h.2 (.inl (by decide))
  · rw [hall]
    refine ⟨rfl, ?_⟩
    rintro (h | ⟨h, _⟩)
    · exact absurd h (by decide)
    · exact absurd h (by decide)
  · rw [ne_eq, hall]
    exact fun h => h.2 (.inr ⟨by decide, by decide, rfl⟩)

/-- Where the sums of `Extend32` wrap, this can fail: both ends at `2 ^ 64 - 2 ^ 31`, the last
packet pending and received, and its ack erases nothing. -/
theorem not_ack_agreement :
    ¬ ∀ (p : P2P) (r : RecvStream) (s : SendStream) (now : TimePoint),
      p.sendStreams.get? (streamKey [66] [] 0 true) = some s → 1 ≤ r.nextExpected →
      r.nextExpected < 2 ^ 64 → s.nextSeq < 2 ^ 64 → s.nextSeq < r.nextExpected + 2 ^ 31 →
      r.nextExpected < s.nextSeq + 2 ^ 31 →
      ∃ s', (p.onMessage [65] {} (r.ack [66] [] 0 1).wire 0 now).1.sendStreams.get?
          (streamKey [66] [] 0 true) = some s' ∧
        ∀ k u, s'.pending.get? k = some u ↔ s.pending.get? k = some u ∧ ¬ r.Acknowledges k := by
  intro h
  let u : Unacked := ⟨⟨[], [], .connectAccept⟩, {}, 0, 0, 1⟩
  let s : SendStream :=
    { nextSeq := 2 ^ 64 - 2 ^ 31, pending := SeqMap.empty.set (2 ^ 64 - 2 ^ 31 - 1) u }
  let r : RecvStream := { nextExpected := 2 ^ 64 - 2 ^ 31 }
  let p : P2P := { sendStreams := Dict.empty.set (streamKey [66] [] 0 true) s }
  have hs : p.sendStreams.get? (streamKey [66] [] 0 true) = some s := by
    show (Dict.empty.set (streamKey [66] [] 0 true) s).get? _ = _
    rw [Dict.get?_set, if_pos rfl]
  have hget : s.pending.get? (2 ^ 64 - 2 ^ 31 - 1) = some u := by
    show (SeqMap.empty.set (2 ^ 64 - 2 ^ 31 - 1) u).get? _ = _
    rw [SeqMap.get?_set, if_pos rfl]
  have hext : extend32 s.nextSeq (UInt32.ofNat r.ackSeq) = 2 ^ 64 - 2 ^ 31 - 1 - 2 ^ 32 := by
    show extend32 (2 ^ 64 - 2 ^ 31) (UInt32.ofNat (2 ^ 64 - 2 ^ 31 - 1)) = _
    decide +kernel
  have hkept : (s.afterAck r 0).pending.get? (2 ^ 64 - 2 ^ 31 - 1) = some u := by
    refine (SendStream.pending_afterAck_of hext _ u).2 ⟨hget, ?_⟩
    rintro (hle | ⟨i, hi, hbit, _⟩)
    · exact absurd hle (by decide)
    · rw [RecvStream.sack, sackBit_sackOf _ hi] at hbit
      cases hbit
  obtain ⟨s', hs', hall⟩ := h p r s 0 hs (by decide) (by decide) (by decide) (by decide)
    (by decide)
  have hafter : (p.onMessage [65] {} (r.ack [66] [] 0 1).wire 0 0).1.sendStreams.get?
      (streamKey [66] [] 0 true) = some (s.afterAck r 0) := onMessage_afterAck hs
  rw [show s' = s.afterAck r 0 from Option.some.inj (hs'.symm.trans hafter)] at hall
  exact ((hall _ u).1 hkept).2 (.inl (Nat.le_refl _))

end EOSEmu
