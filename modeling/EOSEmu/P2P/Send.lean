import EOSEmu.P2P.Sequence

/-!
# The sending side of a reliable stream

`SendPacket`, the part of `OnDatagram(P2PAck)` that works on one `SendStream`, and the
retransmission of one stream by `Pump`. `SendPacket` takes `Mutex_` twice: `sendPacketOpen` is the
first section (the connection) and `sendPacketQueue` what follows (the packet), and a `SendCall` is
a call between the two. `processAck_pending` and `retransmit_resent` say what the other two do to
`Pending`.
-/

namespace EOSEmu

open Lib (Dict SeqMap)

/-! ## `SendPacket` -/

/-- The checks before the first lock: an error, or the socket name. -/
def SendPacketOptions.check (o : SendPacketOptions) : Except EResult Bytes :=
  if o.remoteUserId = [] || o.socketId.isNone || o.data.isMissing then .error .invalidParameters
  else if !versionInRange o.apiVersion sendPacketApiLatest then .error .incompatibleVersion
  else if maxPacketSize < o.data.length then .error .limitExceeded
  else if socketName o.socketId = [] then .error .invalidParameters
  else .ok (socketName o.socketId)

/-- A `SendPacket` call that has released the first lock with a valid endpoint. -/
structure SendCall where
  options : SendPacketOptions
  endpoint : Endpoint
  deriving DecidableEq, Repr

/-- The early return when the endpoint is not valid: "the send is accepted (queued) but has nowhere
to go". Nothing is queued. -/
def sendPacketContinue (o : SendPacketOptions) (endpoint : Endpoint) : EResult ⊕ SendCall :=
  if !endpoint.valid then .inl .success else .inr ⟨o, endpoint⟩

/-- `SendPacket` up to the end of the first lock section, with what `EndpointForPeer` answers. The
result is what the call returns, or the call going on. -/
def sendPacketOpen (localPid : ProductUserId) (endpointFor : ProductUserId → Endpoint)
    (options : Option SendPacketOptions) (p : P2P) : P2P × List Out × (EResult ⊕ SendCall) :=
  match options with
  | none => (p, [], .inl .invalidParameters)
  | some o =>
      match o.check with
      | .error e => (p, [], .inl e)
      | .ok socket =>
          let endpoint := endpointFor o.remoteUserId
          let key := connKey o.remoteUserId socket
          match p.connections.get? key with
          | none =>
              if !o.autoAccept then (p, [], .inl .noConnection)
              else
                let conn : Connection :=
                  { peer := o.remoteUserId, socketName := socket, endpoint,
                    bAcceptedLocally := true }
                -- a new outbound connection announces itself
                ({ p with connections := p.connections.set key conn },
                  if endpoint.valid then [.send endpoint ⟨localPid, socket, .connectRequest⟩]
                    else [],
                  sendPacketContinue o endpoint)
          | some conn =>
              if !conn.bAcceptedLocally && !o.autoAccept then (p, [], .inl .noConnection)
              else
                let conn := { conn with
                  bAcceptedLocally := true
                  endpoint := if !conn.endpoint.valid && endpoint.valid then endpoint
                    else conn.endpoint }
                ({ p with connections := p.connections.set key conn }, [],
                  sendPacketContinue o endpoint)

/-- The send stream of a key, created by `SendStreams_[...]` when it is not there. -/
def P2P.openSendStream (p : P2P) (key : Bytes) : SendStream :=
  (p.sendStreams.get? key).getD { inc := p.incs }

/-- The stream after the packet took its next sequence number and went to `Pending`. -/
def SendStream.queue (s : SendStream) (localPid : ProductUserId) (c : SendCall) (now : TimePoint) :
    SendStream :=
  { s with
    peer := c.options.remoteUserId
    socket := socketName c.options.socketId
    nextSeq := s.nextSeq + 1
    pending := s.pending.set s.nextSeq
      { payload := c.options.datagram localPid ⟨s.inc, s.nextSeq⟩, toEndpoint := c.endpoint
        firstSent := now, lastSent := now, tries := 1 } }

/-- The new packet is pending under the number it took. -/
theorem SendStream.queue_new (s : SendStream) (localPid : ProductUserId) (c : SendCall)
    (now : TimePoint) : (s.queue localPid c now).pending.get? s.nextSeq =
      some ⟨c.options.datagram localPid ⟨s.inc, s.nextSeq⟩, c.endpoint, now, now, 1⟩ := by
  unfold SendStream.queue
  rw [SeqMap.get?_set, if_pos rfl]

/-- The other numbers are as before. -/
theorem SendStream.queue_old (s : SendStream) (localPid : ProductUserId) (c : SendCall)
    (now : TimePoint) {k : ℕ} (hk : k ≠ s.nextSeq) :
    (s.queue localPid c now).pending.get? k = s.pending.get? k := by
  unfold SendStream.queue
  rw [SeqMap.get?_set, if_neg hk]

/-- `SendPacket` after the first lock section: a reliable packet takes the next sequence number of
its stream and waits in `Pending`; any packet is transmitted once. -/
def sendPacketQueue (localPid : ProductUserId) (c : SendCall) (now : TimePoint) (p : P2P) :
    P2P × List Out :=
  if c.options.mode.isReliable then
    let s := p.openSendStream c.options.key
    let pos : Pos := ⟨s.inc, s.nextSeq⟩
    ({ p with
        sendStreams := p.sendStreams.set c.options.key (s.queue localPid c now)
        incs := if p.sendStreams.contains c.options.key then p.incs else p.incs + 1 },
      [.log (.queued c.options.key pos c.options.data.data), .send c.endpoint
        (c.options.datagram localPid pos)])
  else (p, [.send c.endpoint (c.options.datagram localPid ⟨0, 0⟩)])

/-! ## Acknowledgements -/

/-- The `Sample` of `OnDatagram(P2PAck)`: only a packet transmitted once gives an RTT sample. -/
def SendStream.sample (s : SendStream) (u : Unacked) (now : TimePoint) : SendStream :=
  if u.tries ≠ 1 then s
  else
    let rtt := Float.ofInt (now - u.firstSent) / 1000000.0
    match s.rtt with
    | none => { s with rtt := some (rtt, rtt / 2.0) }
    | some (srttMs, rttVarMs) =>
        let err := srttMs - rtt
        { s with rtt := some (0.875 * srttMs + 0.125 * rtt,
            0.75 * rttVarMs + 0.25 * (if err < 0.0 then -err else err)) }

/-- Samples and erases one pending packet, if it is there. -/
def SendStream.ackOne (now : TimePoint) (s : SendStream) (k : ℕ) : SendStream :=
  match s.pending.get? k with
  | none => s
  | some u => let s := s.sample u now; { s with pending := s.pending.erase k }

/-- The sequence numbers an ack visits: the pending ones up to `AckSeq` in order, then
`AckSeq + 2 + i` for the bits of the mask. -/
def SendStream.ackList (s : SendStream) (ackSeq : ℕ) (sack : UInt32) : List ℕ :=
  (s.pending.entries.map Prod.fst).takeWhile (· ≤ ackSeq) ++
    ((List.range 32).filter fun i => sackBit sack i).map fun i => ackSeq + 2 + i

/-- The two erasing loops of `OnDatagram(P2PAck)`. -/
def SendStream.processAck (s : SendStream) (ackSeq : ℕ) (sack : UInt32) (now : TimePoint) :
    SendStream :=
  (s.ackList ackSeq sack).foldl (SendStream.ackOne now) s

/-- The positions an ack erases from `Pending`. -/
def SendStream.ackedBy (s : SendStream) (ackSeq : ℕ) (sack : UInt32) : List ℕ :=
  (s.ackList ackSeq sack).filter fun k => s.pending.contains k

@[simp] theorem SendStream.sample_frame (s : SendStream) (u : Unacked) (now : TimePoint) :
    s.sample u now = { s with rtt := (s.sample u now).rtt } := by
  unfold SendStream.sample
  split
  · rfl
  · cases s.rtt <;> rfl

/-- One acknowledgement changes one pending entry and the RTT estimate. -/
theorem SendStream.ackOne_frame (now : TimePoint) (s : SendStream) (k : ℕ) :
    s.ackOne now k =
      { s with pending := (s.ackOne now k).pending, rtt := (s.ackOne now k).rtt } := by
  unfold SendStream.ackOne
  split
  · rfl
  · dsimp only
    rw [SendStream.sample_frame]

/-- An acknowledged packet is no longer pending, and the others are as before. -/
theorem SendStream.ackOne_pending (now : TimePoint) (s : SendStream) (k j : ℕ) :
    (s.ackOne now k).pending.get? j = if j = k then none else s.pending.get? j := by
  unfold SendStream.ackOne
  split
  · next hk =>
      split
      · next hj => rw [hj, hk]
      · rfl
  · dsimp only
    rw [SendStream.sample_frame, SeqMap.get?_erase]

/-- A number is visited exactly when it is covered, as far as pending ones go. -/
theorem SendStream.mem_ackList {s : SendStream} {ackSeq : ℕ} {sack : UInt32} {k : ℕ}
    (hk : s.pending.contains k = true) : k ∈ s.ackList ackSeq sack ↔ Covers ackSeq sack k := by
  have htake : k ∈ (s.pending.entries.map Prod.fst).takeWhile (· ≤ ackSeq) ↔ k ≤ ackSeq := by
    constructor
    · intro h
      simpa using List.mem_takeWhile_imp h
    · intro h
      obtain ⟨u, hu⟩ := SeqMap.contains_iff.1 hk
      exact Lib.mem_takeWhile_of_le s.pending.sorted
        (List.mem_map.2 ⟨_, SeqMap.mem_entries.2 hu, rfl⟩) h
  rw [SendStream.ackList, List.mem_append, htake, Covers, List.mem_map]
  simp only [List.mem_filter, List.mem_range]
  constructor
  · rintro (h | ⟨i, ⟨hi, hbit⟩, rfl⟩)
    · exact .inl h
    · exact .inr ⟨i, hi, hbit, rfl⟩
  · rintro (h | ⟨i, hi, hbit, rfl⟩)
    · exact .inl h
    · exact .inr ⟨i, ⟨hi, hbit⟩, rfl⟩

/-- A fold of acknowledgements. -/
theorem SendStream.foldl_ackOne (now : TimePoint) (l : List ℕ) (s : SendStream) :
    (∀ j, (l.foldl (SendStream.ackOne now) s).pending.get? j =
      if j ∈ l then none else s.pending.get? j) ∧
    l.foldl (SendStream.ackOne now) s = { s with
      pending := (l.foldl (SendStream.ackOne now) s).pending
      rtt := (l.foldl (SendStream.ackOne now) s).rtt } := by
  induction l generalizing s with
  | nil => exact ⟨fun j => by simp, rfl⟩
  | cons k l ih =>
      obtain ⟨hp, hf⟩ := ih (s.ackOne now k)
      refine ⟨fun j => ?_, ?_⟩
      · rw [List.foldl_cons, hp, SendStream.ackOne_pending]
        by_cases hjk : j = k <;> simp [hjk]
      · rw [List.foldl_cons, hf, SendStream.ackOne_frame]

/-- An ack erases from `Pending` exactly the covered packets. -/
theorem SendStream.processAck_pending {s : SendStream} {ackSeq : ℕ} {sack : UInt32}
    {now : TimePoint} {k : ℕ} {u : Unacked} :
    (s.processAck ackSeq sack now).pending.get? k = some u ↔
      s.pending.get? k = some u ∧ ¬ Covers ackSeq sack k := by
  rw [SendStream.processAck, (SendStream.foldl_ackOne now _ s).1]
  constructor
  · intro h
    split at h
    · cases h
    · next hmem =>
        exact ⟨h, fun hc => hmem ((SendStream.mem_ackList (SeqMap.contains_iff.2 ⟨u, h⟩)).2 hc)⟩
  · rintro ⟨h, hc⟩
    rw [if_neg fun hmem => hc ((SendStream.mem_ackList (SeqMap.contains_iff.2 ⟨u, h⟩)).1 hmem), h]

/-- An ack changes nothing but `Pending` and the RTT estimate. -/
theorem SendStream.processAck_frame (s : SendStream) (ackSeq : ℕ) (sack : UInt32)
    (now : TimePoint) : s.processAck ackSeq sack now = { s with
      pending := (s.processAck ackSeq sack now).pending
      rtt := (s.processAck ackSeq sack now).rtt } :=
  (SendStream.foldl_ackOne now _ s).2

/-- The erased packets are the covered ones that were pending. -/
theorem SendStream.mem_ackedBy {s : SendStream} {ackSeq : ℕ} {sack : UInt32} {k : ℕ} :
    k ∈ s.ackedBy ackSeq sack ↔ s.pending.contains k = true ∧ Covers ackSeq sack k := by
  rw [SendStream.ackedBy, List.mem_filter]
  constructor
  · rintro ⟨hm, hc⟩
    exact ⟨hc, (SendStream.mem_ackList hc).1 hm⟩
  · rintro ⟨hc, hcov⟩
    exact ⟨(SendStream.mem_ackList hc).2 hcov, hc⟩

/-! ## Retransmission -/

/-- `kInitialRto`. -/
def initialRto : Int := milliseconds 50

/-- `kMinRto`. -/
def minRto : Int := milliseconds 10

/-- `kMaxRto`. -/
def maxRto : Int := milliseconds 500

/-- `kMaxTransmits`. -/
def maxTransmits : ℕ := 16

/-- `kInterruptedGrace`. -/
def interruptedGrace : Int := milliseconds 10000

/-- `P2PInterface::RtoFor`. -/
def rtoFor (s : SendStream) : Int :=
  match s.rtt with
  | none => initialRto
  | some (srttMs, rttVarMs) =>
      let rto := srttMs + (if 4.0 * rttVarMs < 1.0 then 1.0 else 4.0 * rttVarMs)
      let ms := milliseconds (rto + 0.5).toInt64.toInt
      if ms < minRto then minRto else if maxRto < ms then maxRto else ms

/-- `for (T = 1; T < Tries && Wait < kMaxRto; ++T) Wait += Wait`, for the turns that are left. -/
def doubleWait : ℕ → Int → Int
  | 0, wait => wait
  | n + 1, wait => if wait < maxRto then doubleWait n (wait + wait) else wait

/-- The wait before a packet's next retransmission. -/
def backoff (rto : Int) (tries : ℕ) : Int :=
  let wait := doubleWait (tries - 1) rto
  if maxRto < wait then maxRto else wait

/-- What `Pump` collects while it goes over the send streams. -/
structure PumpState where
  connections : Dict Bytes Connection
  toSend : List (Endpoint × Datagram Pos) := []
  interrupted : List (ProductUserId × Bytes) := []

/-- Interrupts the stream's connection, once. -/
def PumpState.interrupt (st : PumpState) (now : TimePoint) (peer : ProductUserId) (socket : Bytes) :
    PumpState :=
  match st.connections.get? (connKey peer socket) with
  | none => st
  | some conn =>
      if conn.bInterrupted then st
      else { st with
        connections := st.connections.set (connKey peer socket)
          { conn with bInterrupted := true, interruptedAt := now }
        interrupted := st.interrupted ++ [(peer, socket)] }

/-- The body of `Pump`'s loop over `Pending`. -/
def retransmitOne (rto : Int) (now : TimePoint) (peer : ProductUserId) (socket : Bytes)
    (st : PumpState) (_seq : ℕ) (u : Unacked) : PumpState × Unacked :=
  if now - u.lastSent < backoff rto u.tries then (st, u)
  else
    let st := if maxTransmits ≤ u.tries then st.interrupt now peer socket else st
    ({ st with toSend := st.toSend ++ [(u.toEndpoint, u.payload)] },
      { u with lastSent := now, tries := u.tries + 1 })

/-- The body of `Pump`'s loop over `SendStreams_`. -/
def retransmit (now : TimePoint) (st : PumpState) (_key : Bytes) (s : SendStream) :
    PumpState × SendStream :=
  if s.pending.isEmpty then (st, s)
  else
    let r := s.pending.mapAccum (retransmitOne (rtoFor s) now s.peer s.socket) st
    (r.1, { s with pending := r.2 })

/-- Two states of a stream between which only retransmissions happened: the same packets under the
same numbers. -/
structure Resent (s t : SendStream) : Prop where
  frame : t = { s with pending := t.pending }
  packets : ∀ k, (t.pending.get? k).map (fun u => (u.payload, u.toEndpoint)) =
    (s.pending.get? k).map fun u => (u.payload, u.toEndpoint)

/-- Without a retransmission everything stays. -/
theorem Resent.refl (s : SendStream) : Resent s s := ⟨rfl, fun _ => rfl⟩

/-- A packet that is pending before a retransmission is pending after it. -/
theorem Resent.pending {s t : SendStream} (h : Resent s t) {k : ℕ} {u : Unacked}
    (hu : s.pending.get? k = some u) :
    ∃ v, t.pending.get? k = some v ∧ v.payload = u.payload ∧ v.toEndpoint = u.toEndpoint := by
  have hk := h.packets k
  rw [hu] at hk
  obtain ⟨v, hv, heq⟩ := Option.map_eq_some_iff.1 hk
  exact ⟨v, hv, congrArg Prod.fst heq, congrArg Prod.snd heq⟩

/-- A packet that is pending after a retransmission was pending before it. -/
theorem Resent.pending' {s t : SendStream} (h : Resent s t) {k : ℕ} {v : Unacked}
    (hv : t.pending.get? k = some v) :
    ∃ u, s.pending.get? k = some u ∧ v.payload = u.payload ∧ v.toEndpoint = u.toEndpoint := by
  have hk := h.packets k
  rw [hv] at hk
  obtain ⟨u, hu, heq⟩ := Option.map_eq_some_iff.1 hk.symm
  exact ⟨u, hu, (congrArg Prod.fst heq).symm, (congrArg Prod.snd heq).symm⟩

/-- Interrupting a connection sends nothing. -/
@[simp] theorem PumpState.interrupt_toSend (st : PumpState) (now : TimePoint)
    (peer : ProductUserId) (socket : Bytes) :
    (st.interrupt now peer socket).toSend = st.toSend := by
  unfold PumpState.interrupt
  split
  · rfl
  · split <;> rfl

/-- A turn of the loop keeps the packet and its destination. -/
theorem retransmitOne_packet (rto : Int) (now : TimePoint) (peer : ProductUserId) (socket : Bytes)
    (st : PumpState) (k : ℕ) (u : Unacked) :
    (retransmitOne rto now peer socket st k u).2.payload = u.payload ∧
      (retransmitOne rto now peer socket st k u).2.toEndpoint = u.toEndpoint := by
  unfold retransmitOne
  split <;> exact ⟨rfl, rfl⟩

/-- A turn of the loop sends its own packet or nothing. -/
theorem mem_retransmitOne {rto : Int} {now : TimePoint} {peer : ProductUserId} {socket : Bytes}
    {st : PumpState} {k : ℕ} {u : Unacked} {e : Endpoint × Datagram Pos}
    (h : e ∈ (retransmitOne rto now peer socket st k u).1.toSend) :
    e ∈ st.toSend ∨ e = (u.toEndpoint, u.payload) := by
  unfold retransmitOne at h
  split at h
  · exact .inl h
  · dsimp only at h
    rw [List.mem_append, List.mem_singleton] at h
    rcases h with h | h
    · left
      split at h
      · rwa [PumpState.interrupt_toSend] at h
      · exact h
    · exact .inr h

/-- `Pump` keeps a stream's packets. -/
theorem retransmit_resent (now : TimePoint) (st : PumpState) (key : Bytes) (s : SendStream) :
    Resent s (retransmit now st key s).2 := by
  unfold retransmit
  split
  · exact Resent.refl s
  · refine ⟨rfl, fun k => ?_⟩
    rcases s.pending.get?_mapAccum (retransmitOne (rtoFor s) now s.peer s.socket) st k with
      ⟨hnone, hnone'⟩ | ⟨st', u, hu, hu'⟩
    · rw [hnone, hnone']
    · rw [hu, hu', Option.map_some, Option.map_some,
        (retransmitOne_packet _ _ _ _ st' k u).1, (retransmitOne_packet _ _ _ _ st' k u).2]

/-- What `Pump` sends for a stream are packets of its `Pending`. -/
theorem mem_retransmit {now : TimePoint} {st : PumpState} {key : Bytes} {s : SendStream}
    {e : Endpoint × Datagram Pos} (h : e ∈ (retransmit now st key s).1.toSend) :
    e ∈ st.toSend ∨ ∃ k u, s.pending.get? k = some u ∧ e = (u.toEndpoint, u.payload) := by
  unfold retransmit at h
  split at h
  · exact .inl h
  · refine SeqMap.mapAccum_inv (m := s.pending) (P := fun t : PumpState => e ∈ t.toSend →
      e ∈ st.toSend ∨ ∃ k u, s.pending.get? k = some u ∧ e = (u.toEndpoint, u.payload))
      (fun t k u hu ih hmem => ?_) (fun hmem => .inl hmem) h
    rcases mem_retransmitOne hmem with hmem | rfl
    · exact ih hmem
    · exact .inr ⟨k, u, hu, rfl⟩

end EOSEmu
