import EOSEmu.P2P.Inbox
import EOSEmu.P2P.Isolation

/-!
# A bounded inbox

Reliable packets wait in `Buffer`, acknowledged, until the inbox has room for them, and both loops
of `DrainRecvStream` stop at the first packet that has none. From an empty inbox a packet has room
iff it is no larger than the limit (`Inbox.Admits`), which nothing compares with the packets that
come in. So `Pump` goes on after the application has emptied the inbox iff some stream starts with
a packet the limit admits, and an application that keeps draining gets every packet iff the limit
admits all that can be delivered (`pump_progress`).
-/

namespace EOSEmu

open Lib (Dict SeqMap Run Always exec)

/-- The limit admits the packet, at least while nothing else waits. -/
def Inbox.Admits (b : Inbox) (data : Bytes) : Prop := b.maxBytes = 0 ∨ data.length ≤ b.maxBytes

/-- An empty inbox has room for what its limit admits. -/
theorem Inbox.admits_iff {b : Inbox} (hempty : b.bytes = 0) (data : Bytes) :
    b.Admits data ↔ inboxHasRoom b data.length = true := by
  simp [Admits, inboxHasRoom, hempty]

/-- What is enqueued was admitted. -/
theorem Enqueues.admits {b c : Inbox} {l : List IncomingPacket} (h : Enqueues b l c) :
    ∀ pkt ∈ l, b.Admits pkt.data := by
  induction h with
  | nil => nofun
  | cons hroom _ ih =>
      intro pkt' hmem
      rcases List.mem_cons.1 hmem with rfl | hmem
      · simp only [inboxHasRoom, Bool.or_eq_true, decide_eq_true_eq] at hroom
        exact hroom.imp_right fun h => by omega
      · exact ih pkt' hmem

/-! ## What a stream has to deliver -/

/-- The buffered packet that a drain comes to first. -/
def RecvStream.head (s : RecvStream) : Option (ℕ × Bytes) :=
  if s.ordered then (s.buffer.get? s.nextToDeliver).map fun data => (s.nextToDeliver, data)
  else s.buffer.entries.head?

/-- A buffered packet that a drain comes to if it never stops for lack of room: on an ordered
stream, none before it is missing. -/
structure RecvStream.Deliverable (s : RecvStream) (k : ℕ) (data : Bytes) : Prop where
  buffered : s.buffer.get? k = some data
  after : s.ordered = true → s.nextToDeliver ≤ k
  gapless : s.ordered = true → ∀ j, s.nextToDeliver ≤ j → j ≤ k → s.buffer.contains j = true

namespace RecvStream
variable {s : RecvStream} {k : ℕ} {data : Bytes}

/-- The first packet is deliverable. -/
theorem deliverable_head (h : s.head = some (k, data)) : s.Deliverable k data := by
  unfold head at h
  split at h
  · next hord =>
      obtain ⟨_, hget, heq⟩ := Option.map_eq_some_iff.1 h
      cases heq
      refine ⟨hget, fun _ => Nat.le_refl _, fun _ j hj hj' => ?_⟩
      obtain rfl := Nat.le_antisymm hj hj'
      exact SeqMap.contains_iff.2 ⟨data, hget⟩
  · next hord =>
      exact ⟨SeqMap.mem_entries.1 (List.mem_of_mem_head? h), fun h => absurd h hord, fun h =>
        absurd h hord⟩

/-- A stream with a deliverable packet has a first one. -/
theorem Deliverable.exists_head (h : s.Deliverable k data) : ∃ e, s.head = some e := by
  unfold head
  split
  · next hord =>
      obtain ⟨data', hget⟩ := SeqMap.contains_iff.1
        (h.gapless hord _ (Nat.le_refl _) (h.after hord))
      exact ⟨_, Option.map_eq_some_iff.2 ⟨data', hget, rfl⟩⟩
  · next hord =>
      cases hent : s.buffer.entries with
      | nil =>
          have hmem := SeqMap.mem_entries.2 h.buffered
          rw [hent] at hmem
          cases hmem
      | cons e l => exact ⟨e, rfl⟩

namespace Deliverable

/-- What is deliverable after a release was so before. -/
theorem of_release {k₀ : ℕ} {data₀ : Bytes} (hget : s.buffer.get? k₀ = some data₀)
    (hnext : s.ordered = true → k₀ = s.nextToDeliver) (h : (s.release k₀).Deliverable k data) :
    s.Deliverable k data where
  buffered := by
    have hbuf := h.buffered
    rw [RecvStream.release_buffer, SeqMap.get?_erase] at hbuf
    split at hbuf
    · cases hbuf
    · exact hbuf
  after hord := by
    have hle := h.after hord
    simp only [RecvStream.release, hord, if_true] at hle
    omega
  gapless hord j hj hjk := by
    rcases Nat.eq_or_lt_of_le hj with rfl | hlt
    · exact SeqMap.contains_iff.2 ⟨data₀, hnext hord ▸ hget⟩
    · have hle : (s.release k₀).nextToDeliver ≤ j := by
        simp only [RecvStream.release, hord, if_true]
        omega
      obtain ⟨v, hv⟩ := SeqMap.contains_iff.1 (h.gapless hord j hle hjk)
      rw [RecvStream.release_buffer, SeqMap.get?_erase] at hv
      split at hv
      · cases hv
      · exact SeqMap.contains_iff.2 ⟨v, hv⟩

/-- A release leaves the other deliverable packets deliverable. -/
theorem release {k₀ : ℕ} (hnext : s.ordered = true → k₀ = s.nextToDeliver) (hne : k ≠ k₀)
    (h : s.Deliverable k data) : (s.release k₀).Deliverable k data where
  buffered := by
    rw [RecvStream.release_buffer, SeqMap.get?_erase, if_neg hne]
    exact h.buffered
  after hord := by
    have hord' : s.ordered = true := hord
    have hle := h.after hord'
    have heq := hnext hord'
    simp only [RecvStream.release, hord', if_true]
    omega
  gapless hord j hj hjk := by
    have hord' : s.ordered = true := hord
    have heq := hnext hord'
    simp only [RecvStream.release, hord', if_true] at hj
    obtain ⟨v, hv⟩ := SeqMap.contains_iff.1 (h.gapless hord' j (by omega) hjk)
    refine SeqMap.contains_iff.2 ⟨v, ?_⟩
    rw [RecvStream.release_buffer, SeqMap.get?_erase, if_neg (by omega)]
    exact hv

end Deliverable

end RecvStream

namespace Delivers
variable {s t u : RecvStream} {l l' : List (ℕ × Bytes)} {k : ℕ} {data : Bytes}

/-- Deliveries after deliveries. -/
theorem trans (h : Delivers s l t) (h' : Delivers t l' u) : Delivers s (l ++ l') u := by
  induction h with
  | nil => exact h'
  | cons hget hnext _ ih => exact .cons hget hnext (ih h')

/-- Every release shortens the buffer. -/
theorem length_le (h : Delivers s l t) :
    t.buffer.entries.length + l.length ≤ s.buffer.entries.length := by
  induction h with
  | nil => exact Nat.le_refl _
  | cons hget _ _ ih =>
      have hlt := SeqMap.erase_length_lt hget
      rw [RecvStream.release_buffer] at ih
      rw [List.length_cons]
      omega

/-- What was released was deliverable. -/
theorem deliverable (h : Delivers s l t) : ∀ e ∈ l, s.Deliverable e.1 e.2 := by
  induction h with
  | nil => nofun
  | @cons s t k data l hget hnext _ ih =>
      intro e he
      rcases List.mem_cons.1 he with rfl | he
      · refine ⟨hget, fun hord => (hnext hord).ge, fun hord j hj hjk => ?_⟩
        obtain rfl : j = k := Nat.le_antisymm hjk (hnext hord ▸ hj)
        exact SeqMap.contains_iff.2 ⟨data, hget⟩
      · exact (ih e he).of_release hget hnext

/-- What is deliverable after the releases was so before. -/
theorem of_deliverable (h : Delivers s l t) (ht : t.Deliverable k data) :
    s.Deliverable k data := by
  induction h with
  | nil => exact ht
  | cons hget hnext _ ih => exact (ih ht).of_release hget hnext

/-- A deliverable packet is released, or stays deliverable. -/
theorem released_or (h : Delivers s l t) (hs : s.Deliverable k data) :
    (k, data) ∈ l ∨ t.Deliverable k data := by
  induction h with
  | nil => exact .inr hs
  | @cons s t k₀ data₀ l hget hnext _ ih =>
      by_cases hk : k = k₀
      · subst hk
        obtain rfl : data = data₀ := Option.some.inj (hs.buffered.symm.trans hget)
        exact .inl List.mem_cons_self
      · exact (ih (hs.release hnext hk)).imp_left (List.mem_cons_of_mem _)

end Delivers

/-! ## One drain -/

/-- A drain that finds nothing, or no room for what it finds, changes nothing. -/
theorem drainRecvStream_stuck {b : Inbox} {s : RecvStream}
    (h : ∀ e, s.head = some e → inboxHasRoom b e.2.length = false) :
    (drainRecvStream b s).inbox = b ∧ (drainRecvStream b s).moved = [] ∧
    (drainRecvStream b s).stream = s := by
  unfold RecvStream.head at h
  unfold drainRecvStream
  split at h
  · next hord =>
      rw [if_pos hord]
      cases s.buffer.entries.length with
      | zero => exact ⟨rfl, rfl, rfl⟩
      | succ n =>
          unfold drainOrdered
          split
          · exact ⟨rfl, rfl, rfl⟩
          · next data hdata =>
              have hno : inboxHasRoom b data.length = false :=
                h (s.nextToDeliver, data) (by rw [hdata]; rfl)
              rw [hno]
              exact ⟨rfl, rfl, rfl⟩
  · next hord =>
      rw [if_neg hord]
      cases hent : s.buffer.entries with
      | nil => exact ⟨rfl, rfl, rfl⟩
      | cons e l =>
          have hno : inboxHasRoom b e.2.length = false := h e (by rw [hent]; rfl)
          unfold drainUnordered
          rw [hno]
          exact ⟨rfl, rfl, rfl⟩

/-- A drain that finds room for the first packet moves it. -/
theorem drainRecvStream_moves {b : Inbox} {s : RecvStream} {e : ℕ × Bytes} (h : s.head = some e)
    (hroom : inboxHasRoom b e.2.length = true) : (drainRecvStream b s).moved ≠ [] := by
  unfold RecvStream.head at h
  unfold drainRecvStream
  split at h
  · next hord =>
      obtain ⟨data, hget, rfl⟩ := Option.map_eq_some_iff.1 h
      rw [if_pos hord]
      have hpos := SeqMap.erase_length_lt hget
      obtain ⟨n, hn⟩ := Nat.exists_eq_succ_of_ne_zero
        (Nat.ne_of_gt (Nat.lt_of_le_of_lt (Nat.zero_le _) hpos))
      rw [hn]
      unfold drainOrdered
      rw [hget]
      dsimp only at hroom ⊢
      rw [hroom]
      exact List.cons_ne_nil _ _
  · next hord =>
      rw [if_neg hord]
      obtain ⟨l, hent⟩ := List.head?_eq_some_iff.1 h
      rw [hent]
      unfold drainUnordered
      rw [hroom]
      exact List.cons_ne_nil _ _

/-- The body of `Pump`'s loop is a drain, also where it skips an empty buffer. -/
theorem P2P.drainOne_eq (acc : Inbox × List Event) (key : Bytes) (s : RecvStream) :
    P2P.drainOne acc key s =
      (((drainRecvStream acc.1 s).inbox, acc.2 ++ P2P.drainLog key s.inc
        (drainRecvStream acc.1 s).moved), (drainRecvStream acc.1 s).stream) := by
  unfold P2P.drainOne
  split
  · next hempty =>
      have hent : s.buffer.entries = [] := List.isEmpty_iff.1 hempty
      obtain ⟨hinbox, hmoved, hstream⟩ := drainRecvStream_stuck (b := acc.1)
        (s := s) fun e he => by
        unfold RecvStream.head SeqMap.get? at he
        simp [hent] at he
      rw [hinbox, hmoved, hstream]
      exact Prod.ext (Prod.ext rfl (List.append_nil _).symm) rfl
  · rfl

/-! ## The loop over the streams -/

/-- The packets that wait in the buffers of these streams. -/
def bufferedIn (l : List (Bytes × RecvStream)) : ℕ :=
  (l.map fun e => e.2.buffer.entries.length).sum

@[simp] theorem bufferedIn_cons (e : Bytes × RecvStream) (l : List (Bytes × RecvStream)) :
    bufferedIn (e :: l) = e.2.buffer.entries.length + bufferedIn l := List.sum_cons

/-- The packets that wait in the buffers. -/
def P2P.buffered (p : P2P) : ℕ := bufferedIn p.recvStreams.entries

section
variable (l : List (Bytes × RecvStream)) (acc : Inbox × List Event)

/-- The drain loop only appends to the inbox. -/
theorem drainLoop_enqueues :
    ∃ pkts, Enqueues acc.1 pkts (Lib.mapAccum P2P.drainOne acc l).1.1 := by
  refine Lib.mapAccum_inv (P := fun a : Inbox × List Event => ∃ pkts, Enqueues acc.1 pkts a.1) ?_
    ⟨[], .nil _⟩
  rintro a key s _ ⟨pkts, hpkts⟩
  rw [P2P.drainOne_eq]
  exact ⟨_, hpkts.trans (drainRecvStream_enqueues _ _)⟩

/-- What the inbox gains, the buffers lose. -/
theorem drainLoop_count :
    bufferedIn (Lib.mapAccum P2P.drainOne acc l).2 +
      (Lib.mapAccum P2P.drainOne acc l).1.1.packets.length ≤
      bufferedIn l + acc.1.packets.length := by
  induction l generalizing acc with
  | nil => exact Nat.le_refl _
  | cons e l ih =>
      obtain ⟨key, s⟩ := e
      simp only [Lib.mapAccum, bufferedIn_cons]
      have hrest := ih (P2P.drainOne acc key s).1
      have hone := (drainRecvStream_spec acc.1 s).1.length_le
      have hgain := congrArg List.length (drainRecvStream_enqueues acc.1 s).packets
      rw [List.length_append, RecvStream.incoming, List.length_map] at hgain
      rw [P2P.drainOne_eq] at hrest ⊢
      dsimp only at hrest ⊢
      omega

/-- Where no first packet has room, nothing moves. -/
theorem drainLoop_stuck
    (h : ∀ e ∈ l, ∀ x, e.2.head = some x → inboxHasRoom acc.1 x.2.length = false) :
    (Lib.mapAccum P2P.drainOne acc l).1.1 = acc.1 := by
  induction l generalizing acc with
  | nil => rfl
  | cons e l ih =>
      obtain ⟨key, s⟩ := e
      have hinbox : (P2P.drainOne acc key s).1.1 = acc.1 := by
        rw [P2P.drainOne_eq]
        exact (drainRecvStream_stuck (h (key, s) List.mem_cons_self)).1
      simp only [Lib.mapAccum]
      rw [ih (P2P.drainOne acc key s).1 (fun e he x hx => hinbox ▸
        h e (List.mem_cons_of_mem _ he) x hx), hinbox]

/-- Where a first packet has room, something moves: that packet, or one before it. -/
theorem drainLoop_moves {e : Bytes × RecvStream} (he : e ∈ l) {x : ℕ × Bytes}
    (hx : e.2.head = some x) (hroom : inboxHasRoom acc.1 x.2.length = true) :
    acc.1.packets.length < (Lib.mapAccum P2P.drainOne acc l).1.1.packets.length := by
  induction l generalizing acc with
  | nil => cases he
  | cons e' l ih =>
      obtain ⟨key, s⟩ := e'
      simp only [Lib.mapAccum]
      have hone := drainRecvStream_enqueues acc.1 s
      have hinbox : (P2P.drainOne acc key s).1.1 = (drainRecvStream acc.1 s).inbox := by
        rw [P2P.drainOne_eq]
      by_cases hmoved : (drainRecvStream acc.1 s).moved = []
      · rw [hmoved] at hone
        have hsame : (P2P.drainOne acc key s).1.1 = acc.1 := by
          rw [hinbox]
          generalize (drainRecvStream acc.1 s).inbox = b at hone
          cases hone
          rfl
        rcases List.mem_cons.1 he with rfl | he
        · exact absurd hmoved (drainRecvStream_moves hx hroom)
        · have hrest := ih (P2P.drainOne acc key s).1 he (hsame ▸ hroom)
          rwa [hsame] at hrest
      · -- the first stream moves a packet, and the others take none back
        have hgain := congrArg List.length hone.packets
        rw [List.length_append, RecvStream.incoming, List.length_map, ← hinbox] at hgain
        have hpos := List.length_pos_iff.2 hmoved
        obtain ⟨pkts, hpkts⟩ := drainLoop_enqueues l (P2P.drainOne acc key s).1
        have hrest := congrArg List.length hpkts.packets
        rw [List.length_append] at hrest
        omega

end

/-! ## `Pump` -/

section
variable {p : P2P}

/-- `Pump` finds no connection that has timed out. -/
def P2P.NoneTimedOut (p : P2P) (now : TimePoint) : Prop :=
  ∀ key conn, (p.beforeSweep now).connections.get? key = some conn → P2P.timedOut now conn = false

/-- Then its streams are those the loop leaves. -/
theorem P2P.NoneTimedOut.recvStreams {now : TimePoint} (h : p.NoneTimedOut now) :
    (p.pump now).1.recvStreams = (p.recvStreams.mapAccum P2P.drainOne (p.inbox, [])).2 := by
  have hdead : (p.beforeSweep now).connections.entries.filter (fun e => P2P.timedOut now e.2) =
    [] := by
    refine List.filter_eq_nil_iff.2 fun e he => ?_
    rw [h e.1 e.2 (Dict.mem_entries.1 he)]
    exact Bool.false_ne_true
  rw [P2P.pump_eq_sweep, P2P.sweep]
  dsimp only
  rw [hdead]
  rfl

/-- What `Pump` leaves in the inbox is what draining leaves. -/
theorem P2P.pump_inbox_eq (now : TimePoint) :
    (p.pump now).1.inbox = (p.recvStreams.mapAccum P2P.drainOne (p.inbox, [])).1.1 := by
  rw [P2P.pump_eq_sweep, sweep_inbox]
  rfl

/-- From an empty inbox, `Pump` enqueues a packet iff some stream starts with one that the limit
admits. -/
theorem P2P.pump_enqueues_iff (hbytes : p.inbox.bytes = 0) (hempty : p.inbox.packets = [])
    (now : TimePoint) : (p.pump now).1.inbox.packets ≠ [] ↔
      ∃ key s e, p.recvStreams.get? key = some s ∧ s.head = some e ∧ p.inbox.Admits e.2 := by
  rw [P2P.pump_inbox_eq]
  constructor
  · intro hne
    by_contra hno
    refine hne ?_
    have hstuck := drainLoop_stuck p.recvStreams.entries (p.inbox, []) fun e he x hx => by
      by_contra hroom
      exact hno ⟨e.1, e.2, x, Dict.mem_entries.1 he, hx,
        (Inbox.admits_iff hbytes x.2).2 (by simpa using hroom)⟩
    exact (congrArg Inbox.packets hstuck).trans hempty
  · rintro ⟨key, s, e, hs, he, hadm⟩
    have hmoves := drainLoop_moves p.recvStreams.entries (p.inbox, []) (Dict.mem_entries.2 hs) he
      ((Inbox.admits_iff hbytes e.2).1 hadm)
    exact List.length_pos_iff.1 (Nat.lt_of_le_of_lt (Nat.zero_le _) hmoves)

end

/-! ## An application that keeps draining -/

/-- `l` was received from `p` on, in whole packets and under any filters, with `n` calls of `Pump`,
each on an empty inbox. -/
inductive Draining (p : P2P) : ℕ → List IncomingPacket → P2P → Prop
  | start : Draining p 0 [] p
  | receive {n : ℕ} {l : List IncomingPacket} {q q' : P2P} {o : P2P.ReceivePacketOptions}
      {pkt : IncomingPacket} : Draining p n l q →
      q.inbox.packets.find? (wantsChannel (requestedChannel o.apiVersion o.requestedChannel)) =
        some pkt →
      q.receivePacket o = (q', .success, some pkt) → Draining p n (l ++ [pkt]) q'
  | pump {n : ℕ} {l : List IncomingPacket} {q : P2P} {now : TimePoint} : Draining p n l q →
      q.inbox.packets = [] → q.NoneTimedOut now → Draining p (n + 1) l (q.pump now).1

/-- What draining keeps of the streams: each has released packets that the limit admits, and the
application has them or finds them in the inbox. -/
structure Drawn (p : P2P) (l : List IncomingPacket) (q : P2P) : Prop where
  maxBytes : q.inbox.maxBytes = p.inbox.maxBytes
  bytes : q.inbox.bytes = packetBytes q.inbox.packets
  same_keys : ∀ key, p.recvStreams.get? key = none → q.recvStreams.get? key = none
  streams : ∀ key s, p.recvStreams.get? key = some s → ∃ t moved, q.recvStreams.get? key = some t ∧
    Delivers s moved t ∧ ∀ e ∈ moved, p.inbox.Admits e.2 ∧
      (⟨s.peer, s.socket, s.channel, e.2⟩ : IncomingPacket) ∈ l ++ q.inbox.packets

namespace Drawn
variable {p q q' : P2P} {l : List IncomingPacket}

/-- The packet the application takes moves from the inbox to what it has. -/
theorem receive {o : P2P.ReceivePacketOptions} {pkt : IncomingPacket} (h : Drawn p l q)
    (hfind : q.inbox.packets.find?
      (wantsChannel (requestedChannel o.apiVersion o.requestedChannel)) = some pkt)
    (hrecv : q.receivePacket o = (q', .success, some pkt)) : Drawn p (l ++ [pkt]) q' := by
  have hv : versionInRange o.apiVersion receivePacketApiLatest = true := by
    by_contra hno
    rw [P2P.receivePacket, if_pos (by simpa using hno)] at hrecv
    cases hrecv
  rw [P2P.receivePacket_eq q hv, hfind] at hrecv
  obtain rfl := (congrArg Prod.fst hrecv).symm
  obtain ⟨hwants, older, younger, hsplit, hskip⟩ := List.find?_eq_some_iff_append.1 hfind
  have herase : q.inbox.packets.eraseP
    (wantsChannel (requestedChannel o.apiVersion o.requestedChannel)) = older ++ younger := by
    rw [hsplit, List.eraseP_append_right _ fun x hx => by simpa using hskip x hx,
      List.eraseP_cons_of_pos hwants]
  have hsize := P2P.size_le_bytes h.bytes hfind
  refine ⟨h.maxBytes, ?_, h.same_keys, fun key s hs => ?_⟩
  · show q.inbox.bytes - pkt.data.length = _
    dsimp only
    omega
  · obtain ⟨t, moved, ht, hdel, hmoved⟩ := h.streams key s hs
    refine ⟨t, moved, ht, hdel, fun e he => ⟨(hmoved e he).1, ?_⟩⟩
    have hmem := (hmoved e he).2
    rw [hsplit] at hmem
    show _ ∈ (l ++ [pkt]) ++ q.inbox.packets.eraseP _
    rw [herase]
    simp only [List.mem_append, List.mem_cons, List.not_mem_nil, or_false] at hmem ⊢
    rcases hmem with hl | hold | hpkt | hyoung
    · exact .inl (.inl hl)
    · exact .inr (.inl hold)
    · exact .inl (.inr hpkt)
    · exact .inr (.inr hyoung)

/-- A `Pump` that gives nobody up moves packets from the streams to the inbox. -/
theorem pump (h : Drawn p l q) {now : TimePoint} (hlive : q.NoneTimedOut now) :
    Drawn p l (q.pump now).1 := by
  obtain ⟨pkts, henq⟩ := drained_enqueues q
  have hloop := q.recvStreams.mapAccum_le (f := P2P.drainOne)
    (R := fun a b => ∃ pkts, Enqueues a.1 pkts b.1) (fun a => ⟨[], .nil _⟩)
    (fun a b c ⟨_, hab⟩ ⟨_, hbc⟩ => ⟨_, hab.trans hbc⟩)
    (fun a key s => by
      rw [P2P.drainOne_eq]
      exact ⟨_, drainRecvStream_enqueues _ _⟩) (q.inbox, [])
  refine ⟨?_, ?_, fun key hnone => ?_, fun key s hs => ?_⟩
  · rw [P2P.pump_inbox_eq, henq.maxBytes, h.maxBytes]
  · rw [P2P.pump_inbox_eq, henq.bytes, henq.packets, packetBytes_append, h.bytes]
  · rw [hlive.recvStreams]
    rcases q.recvStreams.get?_mapAccum P2P.drainOne (q.inbox, []) key with ⟨hn, _⟩ | ⟨_, v, hv, _⟩
    · exact hn
    · rw [h.same_keys key hnone] at hv
      cases hv
  · obtain ⟨t, moved, ht, hdel, hmoved⟩ := h.streams key s hs
    rw [hlive.recvStreams, P2P.pump_inbox_eq]
    rcases q.recvStreams.get?_mapAccum P2P.drainOne (q.inbox, []) key with ⟨_, hn⟩ | ⟨_, _, _, hu⟩
    · rw [ht] at hn
      cases hn
    · obtain ⟨acc, t', ht', heq, pkts', hrest⟩ := hloop.2 key _ hu
      obtain rfl := Option.some.inj (ht.symm.trans ht')
      have hstream : (P2P.drainOne acc key t).2 = (drainRecvStream acc.1 t).stream := by
        rw [P2P.drainOne_eq]
      rw [P2P.drainOne_eq] at hrest
      have hone := drainRecvStream_enqueues acc.1 t
      have hsame : acc.1.maxBytes = p.inbox.maxBytes := by
        rw [← h.maxBytes, ← henq.maxBytes, hrest.maxBytes, hone.maxBytes]
      refine ⟨_, moved ++ (drainRecvStream acc.1 t).moved,
        hu.trans (congrArg some (heq.trans hstream)),
        hdel.trans (drainRecvStream_spec acc.1 t).1, fun e he => ?_⟩
      rcases List.mem_append.1 he with hold | hnew
      · refine ⟨(hmoved e hold).1, ?_⟩
        rw [henq.packets, ← List.append_assoc]
        exact List.mem_append_left _ (hmoved e hold).2
      · have hpkt : (⟨t.peer, t.socket, t.channel, e.2⟩ : IncomingPacket) ∈
            t.incoming (drainRecvStream acc.1 t).moved := List.mem_map_of_mem hnew
        have hname : (⟨s.peer, s.socket, s.channel, e.2⟩ : IncomingPacket) =
          ⟨t.peer, t.socket, t.channel, e.2⟩ := by
          rw [hdel.frame]
        have hadm := hone.admits _ hpkt
        rw [Inbox.Admits, hsame] at hadm
        refine ⟨hadm, List.mem_append_right _ ?_⟩
        rw [hrest.packets, hone.packets, hname]
        exact List.mem_append_left _ (List.mem_append_right _ hpkt)

end Drawn

section
variable {p q : P2P} {n : ℕ} {l : List IncomingPacket}

/-- No stream has a packet to deliver. -/
def P2P.Delivered (p : P2P) : Prop := ∀ key s, p.recvStreams.get? key = some s → s.head = none

/-- The limit admits every packet that a stream can deliver. -/
def P2P.AllAdmitted (p : P2P) : Prop :=
  ∀ key s k data, p.recvStreams.get? key = some s → s.Deliverable k data → p.inbox.Admits data

/-- What a stream can deliver while draining it could from the start. -/
theorem Drawn.deliverable {key : Bytes} {t : RecvStream} {k : ℕ} {data : Bytes} (h : Drawn p l q)
    (ht : q.recvStreams.get? key = some t) (hdel : t.Deliverable k data) :
    ∃ s, p.recvStreams.get? key = some s ∧ s.Deliverable k data := by
  cases hs : p.recvStreams.get? key with
  | none =>
      rw [h.same_keys key hs] at ht
      cases ht
  | some s =>
      obtain ⟨t', moved, ht', hmoves, _⟩ := h.streams key s hs
      obtain rfl := Option.some.inj (ht.symm.trans ht')
      exact ⟨s, rfl, hmoves.of_deliverable hdel⟩

/-- `ReceivePacket` leaves the streams alone. -/
theorem P2P.receivePacket_recvStreams (o : P2P.ReceivePacketOptions) :
    (p.receivePacket o).1.recvStreams = p.recvStreams := by
  unfold P2P.receivePacket
  split
  · rfl
  · dsimp only
    split <;> rfl

/-- Nothing has been taken yet. -/
theorem Drawn.start (hbytes : p.inbox.bytes = packetBytes p.inbox.packets) : Drawn p [] p :=
  ⟨rfl, hbytes, fun _ h => h, fun _ s hs => ⟨s, [], hs, .nil s, nofun⟩⟩

/-- Calls of `Pump` and `ReceivePacket` keep what is drawn. -/
theorem Draining.drawn (hbytes : p.inbox.bytes = packetBytes p.inbox.packets)
    (h : Draining p n l q) : Drawn p l q := by
  induction h with
  | start => exact .start hbytes
  | receive _ hfind hrecv ih => exact ih.receive hfind hrecv
  | pump _ _ hlive ih => exact ih.pump hlive

/-- A stream that starts with a packet had one to deliver from the start. -/
theorem Drawn.delivered (h : Drawn p l q) (hp : p.Delivered) : q.Delivered := by
  intro key t ht
  cases hhead : t.head with
  | none => rfl
  | some e =>
      obtain ⟨s, hs, hdel⟩ := h.deliverable ht (RecvStream.deliverable_head hhead)
      obtain ⟨e', he'⟩ := hdel.exists_head
      rw [hp key s hs] at he'
      cases he'

/-- A `Pump` that starts from an empty inbox takes a packet off the buffers, if the limit admits
what is left. -/
theorem P2P.pump_buffered (hempty : p.inbox.packets = []) (hbytes : p.inbox.bytes = 0)
    (hall : p.AllAdmitted) {now : TimePoint} (hlive : p.NoneTimedOut now) (hleft : ¬ p.Delivered) :
    (p.pump now).1.buffered + 1 ≤ p.buffered := by
  have hmoves : (p.pump now).1.inbox.packets ≠ [] := by
    unfold P2P.Delivered at hleft
    push Not at hleft
    obtain ⟨key, s, hs, hhead⟩ := hleft
    obtain ⟨e, he⟩ := Option.ne_none_iff_exists'.1 hhead
    exact (P2P.pump_enqueues_iff hbytes hempty now).2
      ⟨key, s, e, hs, he, hall key s e.1 e.2 hs (RecvStream.deliverable_head he)⟩
  have hcount := drainLoop_count p.recvStreams.entries (p.inbox, [])
  have hpos := List.length_pos_iff.2 hmoves
  rw [P2P.pump_inbox_eq] at hpos
  have hbuffered : (p.pump now).1.buffered =
      bufferedIn (Lib.mapAccum P2P.drainOne (p.inbox, []) p.recvStreams.entries).2 := by
    unfold P2P.buffered
    rw [hlive.recvStreams]
    rfl
  have hnone : p.inbox.packets.length = 0 := by rw [hempty]; rfl
  have hloop : (p.recvStreams.mapAccum P2P.drainOne (p.inbox, [])).1 =
    (Lib.mapAccum P2P.drainOne (p.inbox, []) p.recvStreams.entries).1 := rfl
  rw [hloop] at hpos
  rw [hbuffered]
  unfold P2P.buffered
  dsimp only at hcount
  omega

/-- While packets are left and the limit admits them, every `Pump` takes one off. -/
theorem Draining.progress (hbytes : p.inbox.bytes = packetBytes p.inbox.packets)
    (hall : p.AllAdmitted) (h : Draining p n l q) : q.Delivered ∨ q.buffered + n ≤ p.buffered := by
  induction h with
  | start => exact .inr (Nat.le_refl _)
  | @receive n l q q' o pkt hd hfind hrecv ih =>
      have hstreams : q'.recvStreams = q.recvStreams := by
        rw [← q.receivePacket_recvStreams (o := o), hrecv]
      unfold P2P.Delivered P2P.buffered
      rw [hstreams]
      exact ih
  | @pump n l q now hd hempty hlive ih =>
      have hdrawn := hd.drawn hbytes
      have hbytes' : q.inbox.bytes = 0 := by rw [hdrawn.bytes, hempty, packetBytes_nil]
      by_cases hnone : q.Delivered
      · exact .inl (((Drawn.start hdrawn.bytes).pump hlive).delivered hnone)
      · have hall' : q.AllAdmitted := by
          intro key t k data ht hdel
          obtain ⟨s, hs, hdel'⟩ := hdrawn.deliverable ht hdel
          have hadm := hall key s k data hs hdel'
          rwa [Inbox.Admits, ← hdrawn.maxBytes] at hadm
        have hless := P2P.pump_buffered hempty hbytes' hall' hlive hnone
        have hcount := ih.resolve_left hnone
        exact .inr (by omega)

/-- A packet that the limit does not admit is never received. -/
theorem Drawn.admitted (h : Drawn p l q) (hdelivered : q.Delivered) : p.AllAdmitted := by
  intro key s k data hs hdel
  obtain ⟨t, moved, ht, hmoves, hmoved⟩ := h.streams key s hs
  rcases hmoves.released_or hdel with hmem | hleft
  · exact (hmoved _ hmem).1
  · obtain ⟨e, he⟩ := hleft.exists_head
    rw [hdelivered key t ht] at he
    cases he

end

/-- **Progress on a bounded inbox.** From an empty inbox `Pump` enqueues a packet iff some stream
starts with one that the limit admits. Once an application that keeps draining has called `Pump` as
often as packets were buffered, it has everything that was deliverable iff the limit admits all of
it; what it does not have still waits. -/
theorem pump_progress {p : P2P} (hbytes : p.inbox.bytes = packetBytes p.inbox.packets) :
    (p.inbox.packets = [] → ∀ now, ((p.pump now).1.inbox.packets ≠ [] ↔
      ∃ key s e, p.recvStreams.get? key = some s ∧ s.head = some e ∧ p.inbox.Admits e.2)) ∧
    ∀ n l q, Draining p n l q →
      (p.buffered ≤ n → (q.Delivered ↔ p.AllAdmitted)) ∧
      ∀ key s k data, p.recvStreams.get? key = some s → s.Deliverable k data →
        (⟨s.peer, s.socket, s.channel, data⟩ : IncomingPacket) ∈ l ++ q.inbox.packets ∨
        ∃ t, q.recvStreams.get? key = some t ∧ t.Deliverable k data := by
  refine ⟨fun hempty now => P2P.pump_enqueues_iff (by rw [hbytes, hempty, packetBytes_nil]) hempty
    now, ?_⟩
  intro n l q hd
  have hdrawn := hd.drawn hbytes
  refine ⟨fun hn => ⟨hdrawn.admitted, fun hall => ?_⟩, ?_⟩
  · rcases hd.progress hbytes hall with hdone | hcount
    · exact hdone
    · -- no packet is buffered any more
      intro key t ht
      cases hhead : t.head with
      | none => rfl
      | some e =>
          have hzero : q.buffered = 0 := by omega
          have hlen := List.sum_eq_zero_iff_forall_eq_nat.1 hzero _
            (List.mem_map_of_mem (f := fun e : Bytes × RecvStream => e.2.buffer.entries.length)
              (Dict.mem_entries.2 ht))
          have hmem := SeqMap.mem_entries.2 (RecvStream.deliverable_head hhead).buffered
          rw [List.length_eq_zero_iff.1 hlen] at hmem
          cases hmem
  · intro key s k data hs hdel
    obtain ⟨t, moved, ht, hmoves, hmoved⟩ := hdrawn.streams key s hs
    rcases hmoves.released_or hdel with hmem | hleft
    · exact .inl (hmoved _ hmem).2
    · exact .inr ⟨t, ht, hleft⟩

/-- With room for ten bytes, a node gets a reliable packet of twelve. -/
def oversized : List NodeAction :=
  [.call (.setPacketQueueSize 10),
    .datagram ⟨0xC0A80002, 7777⟩ .p2pData
      (encode ⟨str "b", str "CHAT", .data 0 EPacketReliability.reliableOrdered.toByte 1
        (List.replicate 12 7)⟩) 0 0]

/-- The packet is acknowledged and never delivered: the inbox is empty, the packet is the next to
deliver, and `Pump` leaves it where it is. -/
theorem not_pump_progress :
    ¬ ∀ localPid n, Run nodeStep Always (P2PNode.start localPid) n → n.p2p.inbox.packets = [] →
      (∃ key s, n.p2p.recvStreams.get? key = some s ∧ s.head ≠ none) →
      ∀ now, (n.p2p.pump now).1.inbox.packets ≠ [] := by
  intro h
  have hret : (exec nodeStep (P2PNode.start (str "a")) oversized).map (fun n =>
      (n.p2p.inbox.packets, (n.p2p.recvStreams.get?
        (streamKey (str "b") (str "CHAT") 0 true)).map fun s =>
        s.head.isSome, (n.p2p.pump 0).1.inbox.packets)) = some ([], some true, []) := by
          decide +kernel
  obtain ⟨n, hn, heq⟩ := Option.map_eq_some_iff.1 hret
  obtain ⟨hempty, hrest⟩ := Prod.ext_iff.1 heq
  obtain ⟨hstream, hpump⟩ := Prod.ext_iff.1 hrest
  obtain ⟨s, hs, hhead⟩ := Option.map_eq_some_iff.1 hstream
  refine h (str "a") n (Run.of_exec hn) hempty ⟨_, s, hs, fun hnone => ?_⟩ 0 hpump
  rw [hnone] at hhead
  cases hhead

/-- After the limit was raised, `Pump` enqueues the packet. -/
theorem pump_progress_sample :
    ∃ n, Run nodeStep Always (P2PNode.start (str "a")) n ∧ n.p2p.inbox.packets ≠ [] ∧
      ∀ k l q, Draining n.p2p k l q → n.p2p.buffered ≤ k → (q.Delivered ↔ n.p2p.AllAdmitted) := by
  have hret : (exec nodeStep (P2PNode.start (str "a"))
      (oversized ++ [.call (.setPacketQueueSize 20), .call (.pump 0)])).map (fun n =>
        (n.p2p.inbox.packets.isEmpty, decide (n.p2p.inbox.bytes =
          packetBytes n.p2p.inbox.packets))) =
      some (false, true) := by decide +kernel
  obtain ⟨n, hn, heq⟩ := Option.map_eq_some_iff.1 hret
  obtain ⟨hne, hbytes⟩ := Prod.ext_iff.1 heq
  refine ⟨n, Run.of_exec hn, fun hnil => ?_, fun k l q hd => ?_⟩
  · dsimp only at hne
    rw [hnil] at hne
    cases hne
  · exact ((pump_progress (of_decide_eq_true hbytes)).2 k l q hd).1

end EOSEmu
