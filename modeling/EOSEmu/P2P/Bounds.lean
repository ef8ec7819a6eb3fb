import EOSEmu.P2P.World
import EOSEmu.Lib.Trace

/-!
# Sequence numbers do not wrap

The code keeps sequence numbers in 64 bits, the model in natural numbers. A step gives out one
number or takes in one packet at most, so after `c` steps no number of a stream is above `c + 1`
(`StreamStep.counted`), whatever the datagrams are. In the first `2 ^ 64 - 2` steps of a run the
two therefore agree (`nodeStep_noWrap`, `worldStep_noWrap`).
-/

namespace EOSEmu

open Lib (Dict SeqMap Always Trace)

/-- The numbers of a receive stream after `c` steps. What is behind `NextExpected` and
`NextToDeliver` still counts. -/
structure RecvStream.Counted (s : RecvStream) (c : ℕ) : Prop where
  nextExpected : s.nextExpected + s.received.entries.length ≤ c + 1
  nextToDeliver : s.nextToDeliver + s.buffer.entries.length ≤ c + 1

/-- The numbers of all streams after `c` steps. -/
structure P2P.Counted (p : P2P) (c : ℕ) : Prop where
  send : ∀ key s, p.sendStreams.get? key = some s → s.nextSeq ≤ c + 1
  recv : ∀ key s, p.recvStreams.get? key = some s → s.Counted c

section
variable {s t : RecvStream} {c : ℕ}

/-- A bound on the numbers may be raised. -/
theorem RecvStream.Counted.mono (h : s.Counted c) {d : ℕ} (hle : c ≤ d) : s.Counted d where
  nextExpected := by have := h.nextExpected; omega
  nextToDeliver := by have := h.nextToDeliver; omega

/-- Nothing is counted twice: a number that `NextExpected` passes leaves `Received`. -/
theorem RecvStream.Counted.accept (h : s.Counted c) (k : ℕ) (data : Bytes) :
    (s.accept k data).Counted (c + 1) where
  nextExpected := by
    have hbefore := h.nextExpected
    have hset := s.received.length_set_le k ()
    obtain ⟨hle, hall, _⟩ := advance_spec (s.received.set k ()) s.nextExpected
    have hdrop := SeqMap.length_dropUpTo_le
      (b := advance (s.received.set k ()) (s.received.set k ()).entries.length
      s.nextExpected - 1) (by omega) hall
    show advance (s.received.set k ()) _ s.nextExpected +
      ((s.received.set k ()).dropUpTo
        (advance (s.received.set k ()) _ s.nextExpected - 1)).entries.length ≤ _
    omega
  nextToDeliver := by
    have hbefore := h.nextToDeliver
    have hset := s.buffer.length_set_le k data
    show s.nextToDeliver + (s.buffer.set k data).entries.length ≤ _
    omega

/-- New data counts once, a duplicate not at all. -/
theorem RecvStream.Counted.receive (h : s.Counted c) (k : ℕ) (data : Bytes) :
    (s.receive k data).Counted (c + 1) := by
  unfold RecvStream.receive
  split
  · exact h.mono (Nat.le_succ c)
  · exact h.accept k data

/-- A packet that is delivered leaves `Buffer`. -/
theorem Delivers.counted {l : List (ℕ × Bytes)} (hd : Delivers s l t) (h : s.Counted c) :
    t.Counted c := by
  induction hd with
  | nil => exact h
  | @cons s t k data l hget hnext hrest ih =>
      refine ih ⟨h.nextExpected, ?_⟩
      have hbefore := h.nextToDeliver
      have hless := SeqMap.erase_length_lt hget
      have hnumber : (s.release k).nextToDeliver ≤ s.nextToDeliver + 1 := by
        show (if s.ordered then s.nextToDeliver + 1 else s.nextToDeliver) ≤ _
        split <;> omega
      rw [RecvStream.release_buffer]
      omega

end

section
variable {localPid : ProductUserId} {cause : Cause} {es : List Event}
  {ds : List (Endpoint × Datagram Pos)} {p q : P2P} {c : ℕ}

/-- A step counts once at most. -/
theorem StreamStep.counted (h : StreamStep localPid cause es ds p q) (hp : p.Counted c) :
    q.Counted (c + 1) where
  send key t ht := by
    have hsend := h.send key
    rw [ht] at hsend
    generalize hs : p.sendStreams.get? key = s at hsend
    cases hsend with
    | keep _ hrel =>
        cases hrel with
        | some hres =>
            rw [hres.frame]
            exact (hp.send key _ hs).trans (Nat.le_succ _)
    | queue s₀ _ _ _ hold _ =>
        show s₀.nextSeq + 1 ≤ _
        rcases hold with rfl | ⟨_, hnext, _⟩
        · have := hp.send key s₀ hs
          omega
        · omega
    | ack _ _ _ _ =>
        rw [SendStream.processAck_frame]
        exact (hp.send key _ hs).trans (Nat.le_succ _)
  recv key t ht := by
    have hrecv := h.recv key
    rw [ht] at hrecv
    generalize hs : p.recvStreams.get? key = s at hrecv
    cases hrecv with
    | keep _ => exact (hp.recv key t hs).mono (Nat.le_succ c)
    | drain hd _ => exact hd.counted ((hp.recv key _ hs).mono (Nat.le_succ c))
    | @data _ _ _ _ inc _ _ _ _ _ s₀ _ _ _ _ hs₀ hd _ =>
        refine hd.counted (RecvStream.Counted.receive ?_ _ _)
        -- the stream is stored already, or fresh
        have hold : (s.getD { inc }).Counted c := by
          cases s with
          | none => exact ⟨Nat.le_add_left 1 c, Nat.le_add_left 1 c⟩
          | some s => exact hp.recv key s hs
        rw [hs₀]
        exact ⟨hold.nextExpected, hold.nextToDeliver⟩

end

/-- So may the bound for all streams. -/
theorem P2P.Counted.mono {p : P2P} {c d : ℕ} (h : p.Counted c) (hle : c ≤ d) : p.Counted d where
  send key s hs := by have := h.send key s hs; omega
  recv key s hs := (h.recv key s hs).mono hle

/-- A new interface has no streams to count. -/
theorem P2P.counted_new (incs c : ℕ) : ({ incs } : P2P).Counted c where
  send _ _ hs := nomatch hs
  recv _ _ hs := nomatch hs

/-- A step of a node, among arbitrary datagrams. -/
theorem nodeStep_counted {n n' : P2PNode} {a : NodeAction} {c : ℕ} (h : nodeStep n a = some n')
    (hn : n.p2p.Counted c) : n'.p2p.Counted (c + 1) := by
  cases a with
  | call b =>
      obtain ⟨⟨_, outs⟩, hst, rfl⟩ := Option.map_eq_some_iff.1 h
      exact (P2PNode.step_steps hst).streams.counted hn
  | datagram from_ type payload inc now =>
      cases h
      unfold P2PNode.onDatagram
      split
      · exact hn.mono (Nat.le_succ c)
      · exact (P2PNode.receive_steps n _ _ _ _).streams.counted hn

/-- A step of the world, at each of its nodes. -/
theorem worldStep_counted {ι : Type} [DecidableEq ι] {cfg : P2PConfig ι} {w w' : P2PWorld ι}
    {a : WorldAction ι} {i : ι} {c : ℕ} (h : worldStep cfg w a = some w')
    (hi : (w.node i).p2p.Counted c) : (w'.node i).p2p.Counted (c + 1) := by
  have hkeep := hi.mono (Nat.le_succ c)
  rcases worldStep_cases h with ⟨j, cause, outs, hstep⟩ | ⟨hnode, _⟩ | ⟨j, rfl⟩
  · by_cases hij : i = j
    · subst hij
      exact hstep.steps.streams.counted hi
    · exact hstep.others i hij ▸ hkeep
  · exact hnode ▸ hkeep
  · by_cases hij : i = j
    · subst hij
      rw [P2PWorld.put_self]
      exact P2P.counted_new _ _
    · exact w.put_other cfg hij _ ▸ hkeep

/-- No number of the interface's streams has left the 64 bits of the code. -/
def P2P.NoWrap (p : P2P) : Prop :=
  (∀ key s, p.sendStreams.get? key = some s → s.nextSeq < 2 ^ 64) ∧
    ∀ key s, p.recvStreams.get? key = some s → s.nextExpected < 2 ^ 64 ∧ s.nextToDeliver < 2 ^ 64

/-- After fewer than `2 ^ 64 - 1` steps no number has wrapped. -/
theorem P2P.Counted.noWrap {p : P2P} {c : ℕ} (h : p.Counted c) (hc : c < 2 ^ 64 - 1) :
    p.NoWrap := by
  refine ⟨fun key s hs => ?_, fun key s hs => ⟨?_, ?_⟩⟩
  · have := h.send key s hs
    omega
  · have := (h.recv key s hs).nextExpected
    omega
  · have := (h.recv key s hs).nextToDeliver
    omega

/-- **No sequence number wraps in the first `2 ^ 64 - 2` steps** of a node, among arbitrary
datagrams. -/
theorem nodeStep_noWrap {localPid : ProductUserId} {l : List (Lib.Transition P2PNode NodeAction)}
    {n : P2PNode} (h : Trace nodeStep Always (P2PNode.start localPid) l n)
    (hl : l.length < 2 ^ 64 - 1) : n.p2p.NoWrap := by
  refine P2P.Counted.noWrap ?_ hl
  refine h.invariant (P := fun l n => n.p2p.Counted l.length) (P2P.counted_new 0 0) ?_
  intro l u v a _ hu _ hst
  rw [List.length_append]
  exact nodeStep_counted hst hu

/-- The same in a world. -/
theorem worldStep_noWrap {ι : Type} [DecidableEq ι] {cfg : P2PConfig ι}
    {l : List (Lib.Transition (P2PWorld ι) (WorldAction ι))} {w : P2PWorld ι}
    (h : Trace (worldStep cfg) Always (P2PWorld.start cfg) l w) (hl : l.length < 2 ^ 64 - 1)
    (i : ι) : (w.node i).p2p.NoWrap := by
  refine P2P.Counted.noWrap ?_ hl
  refine h.invariant (P := fun l w => (w.node i).p2p.Counted l.length) (P2P.counted_new 0 0) ?_
  intro l u v a _ hu _ hst
  rw [List.length_append]
  exact worldStep_counted hst hu

end EOSEmu
