import EOSEmu.P2P.Steps
import EOSEmu.Lib.Queue

/-!
# The inbox

`Inbox_` is a queue from which packets leave at any place, with a byte count kept beside it by
every operation that touches it. A step of a node takes a packet out, clears some, changes the
limit, or enqueues packets that found room (`nodeStep_inbox`). `InboxHistory` numbers the packets
of a run as they come in; the run theorem says that the count is exact, that the limit holds for
what comes in, and that each channel is received in order.
-/

namespace EOSEmu

open Lib (Dict SeqMap Run Always Queue exec)

/-! ## Reading the queue -/

/-- `EOS_P2P_GetNextReceivedPacketSizeOptions`. -/
structure GetNextReceivedPacketSizeOptions where
  apiVersion : Int
  requestedChannel : Option UInt8
  deriving DecidableEq, Repr

/-- The channel filter of a call, `none` for any channel: `RequestedChannel` was added in v2. -/
def requestedChannel (apiVersion : Int) (channel : Option UInt8) : Option UInt8 :=
  if hasField apiVersion 2 then channel else none

/-- The filter lets the packet pass. -/
def wantsChannel (channel : Option UInt8) (pkt : IncomingPacket) : Bool :=
  channel = none ∨ channel = some pkt.channel

/-- `P2PInterface::GetNextReceivedPacketSize`. The cast of the size to `uint32_t` keeps it: a
packet came in a datagram. -/
def P2P.getNextReceivedPacketSize (p : P2P) (o : GetNextReceivedPacketSizeOptions) :
    EResult × Option ℕ :=
  if !versionInRange o.apiVersion receivePacketApiLatest then (.incompatibleVersion, none)
  else
    match p.inbox.packets.find?
      (wantsChannel (requestedChannel o.apiVersion o.requestedChannel)) with
    | none => (.notFound, none)
    | some pkt => (.success, some pkt.data.length)

/-- `EOS_P2P_PacketQueueInfo`, without the outgoing maximum, which is always unlimited. -/
structure PacketQueueInfo where
  incomingPacketQueueMaxSizeBytes : ℕ
  incomingPacketQueueCurrentSizeBytes : ℕ
  incomingPacketQueueCurrentPacketCount : ℕ
  outgoingPacketQueueCurrentSizeBytes : ℕ
  outgoingPacketQueueCurrentPacketCount : ℕ
  deriving DecidableEq, Repr

/-- `P2PInterface::GetPacketQueueInfo`. -/
def P2P.getPacketQueueInfo (p : P2P) : PacketQueueInfo :=
  let pending := p.sendStreams.entries.flatMap fun e => e.2.pending.entries
  { incomingPacketQueueMaxSizeBytes := p.inbox.maxBytes
    incomingPacketQueueCurrentSizeBytes := p.inbox.bytes
    incomingPacketQueueCurrentPacketCount := p.inbox.packets.length
    outgoingPacketQueueCurrentSizeBytes :=
      (pending.map fun e => (encode e.2.payload.wire).length).sum
    outgoingPacketQueueCurrentPacketCount := pending.length }

/-- Taking the first packet of a channel. -/
theorem P2P.takeFirst_eq (channel : Option UInt8) (l : List IncomingPacket) :
    Inbox.takeFirst channel l =
      (l.find? (wantsChannel channel)).map fun pkt => (pkt, l.eraseP (wantsChannel channel)) := by
  induction l with
  | nil => rfl
  | cons pkt l ih =>
      rw [Inbox.takeFirst, List.find?_cons, List.eraseP_cons, ih]
      by_cases h : channel = none ∨ channel = some pkt.channel
      · simp [wantsChannel, h]
      · have hno : wantsChannel channel pkt = false := decide_eq_false h
        rw [if_neg h, hno]
        cases l.find? (wantsChannel channel) <;> rfl

/-- What `ReceivePacket` does, for a version in range. -/
theorem P2P.receivePacket_eq (p : P2P) {o : P2P.ReceivePacketOptions}
    (hv : versionInRange o.apiVersion receivePacketApiLatest = true) :
    p.receivePacket o =
      match p.inbox.packets.find?
        (wantsChannel (requestedChannel o.apiVersion o.requestedChannel)) with
      | none => (p, .notFound, none)
      | some pkt =>
          ({ p with inbox := { p.inbox with
              packets := p.inbox.packets.eraseP
                (wantsChannel (requestedChannel o.apiVersion o.requestedChannel))
              bytes := p.inbox.bytes - pkt.data.length } },
            .success, some { pkt with data := pkt.data.take o.maxDataSizeBytes }) := by
  rw [receivePacket, hv]
  unfold requestedChannel
  dsimp only [Bool.not_true, Bool.false_eq_true, if_false]
  rw [takeFirst_eq]
  cases p.inbox.packets.find?
    (wantsChannel (if hasField o.apiVersion 2 = true then o.requestedChannel else none)) <;>
    rfl

/-! ## Enqueuing -/

/-- The bytes of a list of packets. -/
def packetBytes (l : List IncomingPacket) : ℕ := (l.map fun pkt => pkt.data.length).sum

@[simp] theorem packetBytes_nil : packetBytes [] = 0 := rfl

@[simp] theorem packetBytes_cons (pkt : IncomingPacket) (l : List IncomingPacket) :
    packetBytes (pkt :: l) = pkt.data.length + packetBytes l := List.sum_cons

@[simp] theorem packetBytes_append (l l' : List IncomingPacket) :
    packetBytes (l ++ l') = packetBytes l + packetBytes l' := by simp [packetBytes]

/-- A filter splits the bytes. -/
theorem packetBytes_filter (gone : IncomingPacket → Bool) (l : List IncomingPacket) :
    packetBytes (l.filter gone) + packetBytes (l.filter fun pkt => !gone pkt) = packetBytes l := by
  induction l with
  | nil => rfl
  | cons pkt l ih =>
      cases h : gone pkt <;> simp only [List.filter_cons, h, Bool.not_true, Bool.not_false,
        if_true, if_false, Bool.false_eq_true, packetBytes_cons] <;> omega

/-- The bytes that remain when a packet is taken out. -/
theorem packetBytes_eraseP {wants : IncomingPacket → Bool} {l : List IncomingPacket}
    {pkt : IncomingPacket} (h : l.find? wants = some pkt) :
    pkt.data.length + packetBytes (l.eraseP wants) =
      packetBytes l := by
  obtain ⟨hwants, older, younger, rfl, hskip⟩ := List.find?_eq_some_iff_append.1 h
  rw [List.eraseP_append_right _ fun x hx => by simpa using hskip x hx,
    List.eraseP_cons_of_pos hwants]
  simp only [packetBytes_append, packetBytes_cons]
  omega

/-- The inbox with one more packet. -/
def Inbox.push (b : Inbox) (pkt : IncomingPacket) : Inbox :=
  { b with packets := b.packets ++ [pkt], bytes := b.bytes + pkt.data.length }

/-- One packet after another that found room. -/
inductive Enqueues : Inbox → List IncomingPacket → Inbox → Prop
  | nil (b : Inbox) : Enqueues b [] b
  | cons {b c : Inbox} {pkt : IncomingPacket} {l : List IncomingPacket} :
      inboxHasRoom b pkt.data.length = true → Enqueues (b.push pkt) l c → Enqueues b (pkt :: l) c

namespace Enqueues
variable {b c d : Inbox} {l l' : List IncomingPacket}

/-- Packets after packets. -/
theorem trans (h : Enqueues b l c) (h' : Enqueues c l' d) : Enqueues b (l ++ l') d := by
  induction h with
  | nil => exact h'
  | cons hroom _ ih => exact .cons hroom (ih h')

/-- What is enqueued comes last. -/
theorem packets (h : Enqueues b l c) : c.packets = b.packets ++ l := by
  induction h with
  | nil => exact (List.append_nil _).symm
  | cons _ _ ih =>
      rw [ih]
      simp [Inbox.push]

/-- The limit stays. -/
theorem maxBytes (h : Enqueues b l c) : c.maxBytes = b.maxBytes := by
  induction h with
  | nil => rfl
  | cons _ _ ih => exact ih

/-- The bytes grow by those of the packets. -/
theorem bytes (h : Enqueues b l c) : c.bytes = b.bytes + packetBytes l := by
  induction h with
  | nil => rfl
  | cons _ _ ih =>
      rw [ih, packetBytes_cons]
      simp only [Inbox.push]
      omega

/-- What comes in respects the limit, unless there is none. -/
theorem le_maxBytes (h : Enqueues b l c) (hl : l ≠ []) :
    b.maxBytes = 0 ∨ c.bytes ≤ b.maxBytes := by
  induction h with
  | nil => exact absurd rfl hl
  | @cons b c pkt l hroom hrest ih =>
      cases hrest with
      | nil => simpa [inboxHasRoom, Inbox.push] using hroom
      | cons hroom' hrest' => exact ih (List.cons_ne_nil _ _)

end Enqueues

/-- `EnqueueInbox` drops the packet or enqueues it. -/
theorem enqueueInbox_enqueues (b : Inbox) (peer : ProductUserId) (socket : Bytes)
    (channel : UInt8) (data : Bytes) :
    ∃ l, Enqueues b l (enqueueInbox b peer socket channel data).1 := by
  unfold enqueueInbox
  split
  · exact ⟨[], .nil b⟩
  · next hroom => exact ⟨[⟨peer, socket, channel, data⟩], .cons (by simpa using hroom) (.nil _)⟩

/-- A packet that has room is enqueued. -/
theorem RecvStream.move_enqueues {s : RecvStream} {b : Inbox} {data : Bytes}
    (h : ¬ (!inboxHasRoom b data.length) = true) :
    inboxHasRoom b data.length = true ∧ s.move b data =
      b.push ⟨s.peer, s.socket, s.channel, data⟩ := by
  refine ⟨by simpa using h, ?_⟩
  rw [RecvStream.move, enqueueInbox, if_neg h]
  rfl

/-- The ordered drain enqueues what it releases. -/
theorem drainOrdered_enqueues (n : ℕ) (b : Inbox) (s : RecvStream) :
    Enqueues b (s.incoming (drainOrdered n b s).moved) (drainOrdered n b s).inbox := by
  induction n generalizing b s with
  | zero => exact .nil b
  | succ n ih =>
      unfold drainOrdered
      split
      · exact .nil b
      · next data hdata =>
          split
          · exact .nil b
          · next hroom =>
              obtain ⟨hroom, hmove⟩ := RecvStream.move_enqueues (s := s) hroom
              have hrest := ih (s.move b data) (s.release s.nextToDeliver)
              exact .cons hroom (hmove ▸ hrest)

/-- The unordered drain enqueues what it releases. -/
theorem drainUnordered_enqueues (l : List (ℕ × Bytes)) (b : Inbox) (s : RecvStream) :
    Enqueues b (s.incoming (drainUnordered l b s).moved) (drainUnordered l b s).inbox := by
  induction l generalizing b s with
  | nil => exact .nil b
  | cons e l ih =>
      obtain ⟨k, data⟩ := e
      unfold drainUnordered
      split
      · exact .nil b
      · next hroom =>
          obtain ⟨hroom, hmove⟩ := RecvStream.move_enqueues (s := s) hroom
          have hrest := ih (s.move b data) (s.release k)
          exact .cons hroom (hmove ▸ hrest)

/-- `DrainRecvStream` enqueues the packets it moves. -/
theorem drainRecvStream_enqueues (b : Inbox) (s : RecvStream) :
    Enqueues b (s.incoming (drainRecvStream b s).moved) (drainRecvStream b s).inbox := by
  unfold drainRecvStream
  split
  · exact drainOrdered_enqueues _ _ _
  · exact drainUnordered_enqueues _ _ _

/-- So does the loop of `Pump`. -/
theorem drained_enqueues (p : P2P) :
    ∃ l, Enqueues p.inbox l (p.recvStreams.mapAccum P2P.drainOne (p.inbox, [])).1.1 := by
  refine Dict.mapAccum_inv (P := fun acc : Inbox × List Event => ∃ l, Enqueues p.inbox l acc.1) ?_
    ⟨[], .nil _⟩
  rintro acc key s _ ⟨l, hl⟩
  unfold P2P.drainOne
  split
  · exact ⟨l, hl⟩
  · exact ⟨_, hl.trans (drainRecvStream_enqueues _ _)⟩

/-! ## What a step does to the inbox -/

section
variable {p : P2P}

/-- Clearing streams leaves the inbox alone. -/
theorem foldl_clearStreams_inbox {α : Type} (f : α → ProductUserId × Bytes) (l : List α) (p : P2P) :
    (l.foldl (fun q c => q.clearStreams (f c).1 (f c).2) p).inbox = p.inbox := by
  induction l generalizing p with
  | nil => rfl
  | cons c l ih => exact ih _

/-- The sweep leaves the inbox alone. -/
theorem sweep_inbox (now : TimePoint) : (p.sweep now).1.inbox = p.inbox :=
  foldl_clearStreams_inbox (fun c => c) _ p

/-- `OnDatagram(P2PData)` for reliable data takes inbox and stream from a drain and records what it
moved. -/
theorem receiveData_drain (localPid : ProductUserId) (from_ : Endpoint) (peer : ProductUserId)
    (socket : Bytes) (channel : UInt8) (ordered : Bool) (wireSeq : UInt32) (data : Bytes)
    (inc : ℕ) :
    ∃ s k d, s = openRecvStream p peer socket channel ordered inc ∧
    d = drainRecvStream p.inbox (s.receive k data) ∧
      p.receiveData localPid from_ peer socket channel ordered wireSeq data inc =
        ({ p with
            inbox := d.inbox
            recvStreams := p.recvStreams.set (streamKey peer socket channel ordered) d.stream },
          (s.dataEvent (streamKey peer socket channel ordered) inc k data ::
            P2P.drainLog (streamKey peer socket channel ordered) s.inc d.moved).map .log ++
            [.send from_ ⟨localPid, socket, .ack channel (if ordered then 1 else 0)
              ⟨s.inc, d.stream.ackSeq⟩ d.stream.sack⟩],
          d.blocked) :=
  ⟨_, _, _, rfl, rfl, rfl⟩

/-- Data only append to the inbox. -/
theorem receiveData_inbox (localPid : ProductUserId) (from_ : Endpoint) (peer : ProductUserId)
    (socket : Bytes) (channel : UInt8) (ordered : Bool) (wireSeq : UInt32) (data : Bytes)
    (inc : ℕ) :
    ∃ l, Enqueues p.inbox l
      (p.receiveData localPid from_ peer socket channel ordered wireSeq data inc).1.inbox := by
  obtain ⟨s, k, d, _, hd, hdrain⟩ :=
    receiveData_drain (p := p) localPid from_ peer socket channel ordered wireSeq data inc
  rw [hdrain]
  exact ⟨_, hd ▸ drainRecvStream_enqueues p.inbox (s.receive k data)⟩

/-- A message only appends to the inbox. -/
theorem onMessage_inbox (localPid : ProductUserId) (from_ : Endpoint) (m : Datagram UInt32)
    (inc : ℕ) (now : TimePoint) : ∃ l, Enqueues p.inbox l
      (p.onMessage localPid from_ m inc now).1.inbox := by
  have hkeep : ∀ {q : P2P}, q.inbox = p.inbox → ∃ l, Enqueues p.inbox l q.inbox := fun h => h ▸
    ⟨[], .nil _⟩
  unfold P2P.onMessage
  split
  · refine hkeep ?_
    unfold P2P.onConnectRequest
    dsimp only
    split
    · rfl
    · split <;> rfl
  · exact hkeep rfl
  · exact hkeep rfl
  · exact hkeep rfl
  · next channel mode seq bytes _ =>
      unfold P2P.onData
      dsimp only
      split
      · exact enqueueInbox_enqueues p.inbox m.sender m.socket channel bytes
      · exact receiveData_inbox (p := p.learnConn from_ m.sender m.socket) localPid from_ m.sender
          m.socket channel (modeOrdered mode) seq bytes inc
  · refine hkeep ?_
    have hlife : (p.proofOfLife m.sender m.socket).inbox = p.inbox := by
      unfold P2P.proofOfLife
      split <;> rfl
    unfold P2P.onAck
    dsimp only
    split
    · exact hlife
    · exact hlife

/-- `Pump` only appends to the inbox. -/
theorem pump_inbox (now : TimePoint) : ∃ l, Enqueues p.inbox l (p.pump now).1.inbox := by
  obtain ⟨l, hl⟩ := drained_enqueues p
  refine ⟨l, ?_⟩
  unfold P2P.pump
  dsimp only
  rw [sweep_inbox]
  exact hl

/-- Before a message is queued, `SendPacket` leaves the inbox alone. -/
theorem sendPacketOpen_inbox (localPid : ProductUserId) (endpointFor : ProductUserId → Endpoint)
    (options : Option SendPacketOptions) :
      (sendPacketOpen localPid endpointFor options p).1.inbox = p.inbox := by
  unfold sendPacketOpen
  cases options with
  | none => rfl
  | some o =>
      dsimp only
      split
      · rfl
      · split <;> split <;> rfl

end

/-- The inbox after a step: a packet was taken out, some were cleared, the limit was set, or
packets that found room were enqueued. -/
theorem nodeStep_inbox {n n' : P2PNode} {a : NodeAction} (h : nodeStep n a = some n') :
    (∃ o, a = .call (.receivePacket o) ∧ n'.p2p = (n.p2p.receivePacket o).1) ∨
    (∃ o, a = .call (.clearPacketQueue o) ∧ n'.p2p = n.p2p.clearPacketQueue o) ∨
    (∃ maxBytes, a = .call (.setPacketQueueSize maxBytes) ∧
    n'.p2p = n.p2p.setPacketQueueSize maxBytes) ∨
    ((∀ o, a ≠ .call (.receivePacket o)) ∧ (∀ o, a ≠ .call (.clearPacketQueue o)) ∧
      ∃ l, Enqueues n.p2p.inbox l n'.p2p.inbox) := by
  cases a with
  | datagram from_ type payload inc now =>
      refine .inr (.inr (.inr ⟨by simp, by simp, ?_⟩))
      cases h
      unfold P2PNode.onDatagram
      split
      · exact ⟨[], .nil _⟩
      · exact onMessage_inbox _ _ _ _ _
  | call c =>
      obtain ⟨⟨m, outs⟩, hstep, rfl⟩ := Option.map_eq_some_iff.1 h
      have hkeep : (∀ o, c ≠ .receivePacket o) → (∀ o, c ≠ .clearPacketQueue o) →
          m.p2p.inbox = n.p2p.inbox → _ := fun hrecv hclear hsame =>
        show (∃ o, NodeAction.call c = .call (.receivePacket o) ∧
          m.p2p = (n.p2p.receivePacket o).1) ∨
            (∃ o, NodeAction.call c = .call (.clearPacketQueue o) ∧
            m.p2p = n.p2p.clearPacketQueue o) ∨
            (∃ maxBytes, NodeAction.call c = .call (.setPacketQueueSize maxBytes) ∧
              m.p2p = n.p2p.setPacketQueueSize maxBytes) ∨
            ((∀ o, NodeAction.call c ≠ .call (.receivePacket o)) ∧
              (∀ o, NodeAction.call c ≠ .call (.clearPacketQueue o)) ∧
              ∃ l, Enqueues n.p2p.inbox l m.p2p.inbox) from
          .inr
            (.inr (.inr ⟨fun o ho => hrecv o (NodeAction.call.inj ho), fun o ho => hclear o
            (NodeAction.call.inj ho), hsame ▸ ⟨[], .nil _⟩⟩))
      cases c with
      | sendPacket options =>
          refine hkeep (by simp) (by simp) ?_
          have hsend := @sendPacketOpen_inbox n.p2p n.localPid n.endpointFor options
          simp only [P2PNode.step] at hstep
          generalize sendPacketOpen n.localPid n.endpointFor options n.p2p = r at hstep hsend
          obtain ⟨p, outs', result⟩ := r
          cases result with
          | inl r => cases hstep; rw [P2PNode.recordReturn_p2p]; exact hsend
          | inr c' => cases hstep; exact hsend
      | sendPacketQueue i now =>
          refine hkeep (by simp) (by simp) ?_
          simp only [P2PNode.step] at hstep
          split at hstep <;> cases hstep
          rw [P2PNode.recordReturn_p2p]
          unfold P2PNode.update sendPacketQueue
          split <;> rfl
      | receivePacket o => cases hstep; exact .inl ⟨o, rfl, rfl⟩
      | clearPacketQueue o => cases hstep; exact .inr (.inl ⟨o, rfl, rfl⟩)
      | setPacketQueueSize maxBytes => cases hstep; exact .inr (.inr (.inl ⟨maxBytes, rfl, rfl⟩))
      | acceptConnection o =>
          cases hstep
          refine hkeep (by simp) (by simp) ?_
          unfold P2PNode.update P2P.acceptConnection
          split
          · rfl
          · split <;> rfl
      | closeConnection o =>
          cases hstep
          refine hkeep (by simp) (by simp) ?_
          unfold P2PNode.update P2P.closeConnection
          split
          · rfl
          · split <;> rfl
      | closeConnections o =>
          cases hstep
          refine hkeep (by simp) (by simp) ?_
          unfold P2PNode.update P2P.closeConnections
          split
          · rfl
          · rfl
          · exact foldl_clearStreams_inbox (fun c : Connection => (c.peer, _)) _ _
      | addNotifyPeerConnectionRequest socketId => cases hstep; exact hkeep (by simp) (by simp) rfl
      | removeNotifyPeerConnectionRequest id => cases hstep; exact hkeep (by simp) (by simp) rfl
      | pump now =>
          cases hstep
          exact .inr (.inr (.inr ⟨by simp, by simp, pump_inbox now⟩))
      | observe peer endpoint =>
          simp only [P2PNode.step] at hstep
          split at hstep <;> cases hstep
          exact hkeep (by simp) (by simp) rfl
      | rehash c s r => cases hstep; exact hkeep (by simp) (by simp) rfl

/-! ## The history of an inbox -/

/-- A node, with the history of its inbox. -/
structure InboxHistory where
  node : P2PNode
  queue : Queue IncomingPacket := {}

namespace InboxHistory

/-- A freshly started node. -/
def start (localPid : ProductUserId) : InboxHistory := { node := .start localPid }

/-- What a step that leads to `n'` adds to the history. -/
def record (h : InboxHistory) (a : NodeAction) (n' : P2PNode) : Queue IncomingPacket :=
  match a with
  | .call (.receivePacket o) =>
      if versionInRange o.apiVersion receivePacketApiLatest then
        h.queue.take (wantsChannel (requestedChannel o.apiVersion o.requestedChannel))
      else h.queue
  | .call (.clearPacketQueue o) => h.queue.discard
    (P2P.clearMatches o.remoteUserId (socketName o.socketId))
  | _ => h.queue.pushAll (n'.p2p.inbox.packets.drop h.node.p2p.inbox.packets.length)

/-- The step function of a node, with the history of its inbox. -/
def step (h : InboxHistory) (a : NodeAction) : Option InboxHistory :=
  (nodeStep h.node a).map fun n' => ⟨n', h.record a n'⟩

/-- The inbox holds what the history says, and the count of bytes is exact. -/
structure Exact (h : InboxHistory) : Prop where
  contents : h.queue.contents = h.node.p2p.inbox.packets
  bytes : h.node.p2p.inbox.bytes = packetBytes h.node.p2p.inbox.packets
  order : h.queue.InOrder (·.channel)

end InboxHistory

/-- A channel filter treats the packets of one channel alike. -/
theorem wantsChannel_congr (channel : Option UInt8) (x y : IncomingPacket)
    (h : x.channel = y.channel) :
    wantsChannel channel x = wantsChannel channel y := by rw [wantsChannel, wantsChannel, h]

/-- What `ClearPacketQueue` leaves. A call without peer and socket matches every packet. -/
theorem P2P.clearPacketQueue_packets (p : P2P) (o : P2P.ConnectionOptions) :
    (p.clearPacketQueue o).inbox.packets =
      p.inbox.packets.filter fun pkt => !clearMatches o.remoteUserId (socketName o.socketId)
        pkt := by
  unfold clearPacketQueue
  split
  · next hall =>
      rw [Bool.and_eq_true, decide_eq_true_eq, Option.isNone_iff_eq_none] at hall
      refine (List.filter_eq_nil_iff.2 fun pkt _ => ?_).symm
      simp [clearMatches, hall.1, hall.2, socketName]
  · rfl

/-- The count after `ClearPacketQueue`. -/
theorem P2P.clearPacketQueue_bytes {p : P2P} (h : p.inbox.bytes = packetBytes p.inbox.packets)
    (o : P2P.ConnectionOptions) :
    (p.clearPacketQueue o).inbox.bytes = packetBytes (p.clearPacketQueue o).inbox.packets := by
  have hsplit := packetBytes_filter (clearMatches o.remoteUserId (socketName o.socketId))
    p.inbox.packets
  rw [clearPacketQueue_packets]
  unfold clearPacketQueue
  split
  · next hall =>
      rw [Bool.and_eq_true, decide_eq_true_eq, Option.isNone_iff_eq_none] at hall
      rw [show p.inbox.packets.filter (fun pkt => !clearMatches o.remoteUserId
        (socketName o.socketId) pkt) = [] from
        List.filter_eq_nil_iff.2 fun pkt _ => by simp [clearMatches, hall.1, hall.2, socketName]]
      rfl
  · show p.inbox.bytes - packetBytes _ = _
    omega

/-- The size of the packet that `ReceivePacket` takes is in the count. -/
theorem P2P.size_le_bytes {p : P2P} (h : p.inbox.bytes = packetBytes p.inbox.packets)
    {wants : IncomingPacket → Bool} {pkt : IncomingPacket}
    (hfind : p.inbox.packets.find? wants = some pkt) :
    pkt.data.length + packetBytes (p.inbox.packets.eraseP wants) = p.inbox.bytes := by
  rw [packetBytes_eraseP hfind, h]

namespace InboxHistory
variable {h h' : InboxHistory} {a : NodeAction}

/-- At the start the bytes are exact. -/
theorem exact_start (localPid : ProductUserId) : (start localPid).Exact := ⟨rfl, rfl, .empty⟩

/-- A step that enqueues packets adds them to the history. -/
theorem record_enqueue {n' : P2PNode} (hrecv : ∀ o, a ≠ .call (.receivePacket o))
    (hclear : ∀ o, a ≠ .call (.clearPacketQueue o)) {l : List IncomingPacket}
    (henq : Enqueues h.node.p2p.inbox l n'.p2p.inbox) : h.record a n' = h.queue.pushAll l := by
  unfold record
  split
  · next o => exact absurd rfl (hrecv o)
  · next o => exact absurd rfl (hclear o)
  · rw [henq.packets, List.drop_left]

/-- A step keeps the history exact. -/
theorem Exact.step (hex : h.Exact) (hst : h.step a = some h') : h'.Exact := by
  obtain ⟨n', hnode, rfl⟩ := Option.map_eq_some_iff.1 hst
  rcases nodeStep_inbox hnode with
    ⟨o, rfl, hp⟩ | ⟨o, rfl, hp⟩ | ⟨maxBytes, rfl, hp⟩ | ⟨hrecv, hclear, l, henq⟩
  · unfold record
    dsimp only
    split
    · next hv =>
        rw [P2P.receivePacket_eq _ hv] at hp
        have horder := hex.order.take
          (wantsChannel_congr (requestedChannel o.apiVersion o.requestedChannel))
        refine ⟨?_, ?_, horder⟩
        · rw [Queue.contents_take, hex.contents, hp]
          cases hfind : h.node.p2p.inbox.packets.find?
              (wantsChannel (requestedChannel o.apiVersion o.requestedChannel)) with
          | none =>
              exact List.eraseP_of_forall_not fun x hx => by
                simpa using List.find?_eq_none.1 hfind x hx
          | some pkt => rfl
        · rw [hp]
          cases hfind : h.node.p2p.inbox.packets.find?
              (wantsChannel (requestedChannel o.apiVersion o.requestedChannel)) with
          | none => exact hex.bytes
          | some pkt =>
              have hsize := P2P.size_le_bytes hex.bytes hfind
              show h.node.p2p.inbox.bytes - pkt.data.length = _
              dsimp only
              omega
    · next hv =>
        have hsame : n'.p2p = h.node.p2p := by
          rw [hp, P2P.receivePacket, if_pos (by simpa using hv)]
        exact ⟨hsame ▸ hex.contents, hsame ▸ hex.bytes, hex.order⟩
  · refine ⟨?_, ?_, hex.order.discard _⟩
    · show (h.queue.discard _).contents = _
      rw [Queue.contents_discard, hex.contents, hp, P2P.clearPacketQueue_packets]
    · rw [hp]
      exact P2P.clearPacketQueue_bytes hex.bytes o
  · have hpackets : n'.p2p.inbox.packets = h.node.p2p.inbox.packets := by rw [hp]; rfl
    refine ⟨?_, ?_, hex.order.pushAll _⟩
    · show (h.queue.pushAll _).contents = _
      rw [Queue.contents_pushAll, hex.contents, hpackets, List.drop_length, List.append_nil]
    · rw [hpackets, ← hex.bytes, hp]
      rfl
  · rw [record_enqueue hrecv hclear henq]
    refine ⟨?_, ?_, hex.order.pushAll l⟩
    · rw [Queue.contents_pushAll, hex.contents, henq.packets]
    · rw [henq.bytes, henq.packets, packetBytes_append, hex.bytes]

/-- Every run keeps the history exact. -/
theorem exact_of_run {localPid : ProductUserId} (hrun : Run step Always (start localPid) h) :
    h.Exact :=
  hrun.invariant (exact_start localPid) fun _ _ _ hex _ hst => hex.step hst

/-- What a step adds to the back of the queue found room. -/
theorem pushed_step (hst : h.step a = some h') :
    ∃ l, h'.queue.pushed = h.queue.pushed ++ l ∧
      (l ≠ [] → h.node.p2p.inbox.maxBytes = 0 ∨
      h'.node.p2p.inbox.bytes ≤ h.node.p2p.inbox.maxBytes) := by
  obtain ⟨n', hnode, rfl⟩ := Option.map_eq_some_iff.1 hst
  have hnothing : ∀ {q : Queue IncomingPacket}, q.pushed = h.queue.pushed →
      ∃ l, q.pushed = h.queue.pushed ++ l ∧
        (l ≠ [] → h.node.p2p.inbox.maxBytes = 0 ∨
        n'.p2p.inbox.bytes ≤ h.node.p2p.inbox.maxBytes) :=
    fun hq => ⟨[], by rw [hq, List.append_nil], fun hne => absurd rfl hne⟩
  rcases nodeStep_inbox hnode with ⟨o, rfl, hp⟩ | ⟨o, rfl, hp⟩ | ⟨maxBytes, rfl, hp⟩ | ⟨hrecv,
    hclear, l, henq⟩
  · refine hnothing ?_
    unfold record
    dsimp only
    split
    · exact Queue.pushed_take _ _
    · rfl
  · exact hnothing rfl
  · refine hnothing ?_
    show (h.queue.pushAll _).pushed = _
    have hpackets : n'.p2p.inbox.packets = h.node.p2p.inbox.packets := by rw [hp]; rfl
    rw [hpackets, List.drop_length]
    rfl
  · refine ⟨l, ?_, henq.le_maxBytes⟩
    rw [record_enqueue hrecv hclear henq, Queue.pushed_pushAll]

end InboxHistory

/-- `GetNextReceivedPacketSize` and `ReceivePacket` with the same filter agree: the first packet
that passes it is the one whose size is reported and the one taken out, and the others stay in
order. -/
theorem P2P.next_received (p : P2P) {o : GetNextReceivedPacketSizeOptions}
    {o' : P2P.ReceivePacketOptions} (hv : versionInRange o.apiVersion receivePacketApiLatest = true)
    (hv' : versionInRange o'.apiVersion receivePacketApiLatest = true)
    (hsame : requestedChannel o.apiVersion o.requestedChannel =
      requestedChannel o'.apiVersion o'.requestedChannel) :
    (∃ pkt older younger, p.inbox.packets = older ++ pkt :: younger ∧
      (∀ x ∈ older, wantsChannel (requestedChannel o.apiVersion o.requestedChannel) x = false) ∧
      p.getNextReceivedPacketSize o = (.success, some pkt.data.length) ∧
      (p.receivePacket o').2 =
        (.success, some { pkt with data := pkt.data.take o'.maxDataSizeBytes }) ∧
      (p.receivePacket o').1.inbox.packets = older ++ younger) ∨
    (∀ x ∈ p.inbox.packets, wantsChannel (requestedChannel o.apiVersion o.requestedChannel) x =
      false) ∧
      p.getNextReceivedPacketSize o = (.notFound, none) ∧
      p.receivePacket o' = (p, .notFound, none) := by
  have hsize : p.getNextReceivedPacketSize o =
      match p.inbox.packets.find?
        (wantsChannel (requestedChannel o.apiVersion o.requestedChannel)) with
      | none => (.notFound, none)
      | some pkt => (.success, some pkt.data.length) := by
    rw [getNextReceivedPacketSize, hv]
    rfl
  rw [receivePacket_eq p hv', ← hsame, hsize]
  cases hfind : p.inbox.packets.find?
    (wantsChannel (requestedChannel o.apiVersion o.requestedChannel)) with
  | none => exact .inr ⟨fun x hx => by simpa using List.find?_eq_none.1 hfind x hx, rfl, rfl⟩
  | some pkt =>
      obtain ⟨hwants, older, younger, hsplit, hskip⟩ := List.find?_eq_some_iff_append.1 hfind
      have hskip' : ∀ x ∈ older, wantsChannel (requestedChannel o.apiVersion o.requestedChannel)
        x = false :=
        fun x hx => by simpa using hskip x hx
      refine .inl ⟨pkt, older, younger, hsplit, hskip', rfl, rfl, ?_⟩
      show p.inbox.packets.eraseP _ = _
      rw [hsplit, List.eraseP_append_right _ fun x hx => by simp [hskip' x hx],
        List.eraseP_cons_of_pos hwants]

/-- The books of an inbox are right. -/
structure InboxHistory.Accounted (h : InboxHistory) : Prop where
  /-- `InboxBytes_` is the size of what waits, and what `GetPacketQueueInfo` reports. -/
  bytes : h.node.p2p.inbox.bytes = packetBytes h.node.p2p.inbox.packets
  info : h.node.p2p.getPacketQueueInfo.incomingPacketQueueCurrentSizeBytes =
    packetBytes h.node.p2p.inbox.packets ∧
    h.node.p2p.getPacketQueueInfo.incomingPacketQueueCurrentPacketCount =
      h.node.p2p.inbox.packets.length
  /-- No subtraction underflows, that of a received packet or those of the cleared ones. -/
  received_le : ∀ wants pkt, h.node.p2p.inbox.packets.find? wants = some pkt →
    pkt.data.length ≤ h.node.p2p.inbox.bytes
  cleared_le : ∀ gone, packetBytes (h.node.p2p.inbox.packets.filter gone) ≤ h.node.p2p.inbox.bytes
  /-- The inbox is the queue of the packets enqueued and not yet received or cleared, and what was
  received is in order on every channel. -/
  contents : h.queue.contents = h.node.p2p.inbox.packets
  order : h.queue.InOrder (·.channel)
  /-- The next step enqueues within the limit in force, if there is one. -/
  limit : ∀ a h', h.step a = some h' → ∃ l, h'.queue.pushed = h.queue.pushed ++ l ∧
    (l ≠ [] → h.node.p2p.inbox.maxBytes = 0 ∨ h'.node.p2p.inbox.bytes ≤ h.node.p2p.inbox.maxBytes)
  /-- A received packet is recorded, as the caller gets it but for the cut to the caller's
  buffer. -/
  receives : ∀ o out h', h.step (.call (.receivePacket o)) = some h' →
    (h.node.p2p.receivePacket o).2 = (.success, some out) →
    ∃ pkt, h'.queue.served = h.queue.served ++ [pkt] ∧
      out = { pkt with data := pkt.data.take o.maxDataSizeBytes }
  /-- `ClearPacketQueue` drops the matching packets and leaves the others in order. -/
  clears : ∀ o h', h.step (.call (.clearPacketQueue o)) = some h' →
    h'.node.p2p.inbox.packets = h.node.p2p.inbox.packets.filter fun pkt =>
      !P2P.clearMatches o.remoteUserId (socketName o.socketId) pkt

/-- **Inbox accounting.** -/
theorem inbox_accounted {localPid : ProductUserId} {h : InboxHistory}
    (hrun : Run InboxHistory.step Always (InboxHistory.start localPid) h) :
    h.Accounted ∧
    ∀ (o : GetNextReceivedPacketSizeOptions) (o' : P2P.ReceivePacketOptions),
      versionInRange o.apiVersion receivePacketApiLatest = true →
      versionInRange o'.apiVersion receivePacketApiLatest = true →
      requestedChannel o.apiVersion o.requestedChannel =
        requestedChannel o'.apiVersion o'.requestedChannel →
      (∃ pkt older younger, h.node.p2p.inbox.packets = older ++ pkt :: younger ∧
        (∀ x ∈ older, wantsChannel (requestedChannel o.apiVersion o.requestedChannel) x = false) ∧
        h.node.p2p.getNextReceivedPacketSize o = (.success, some pkt.data.length) ∧
        (h.node.p2p.receivePacket o').2 =
          (.success, some { pkt with data := pkt.data.take o'.maxDataSizeBytes }) ∧
        (h.node.p2p.receivePacket o').1.inbox.packets = older ++ younger) ∨
      (∀ x ∈ h.node.p2p.inbox.packets,
          wantsChannel (requestedChannel o.apiVersion o.requestedChannel) x = false) ∧
        h.node.p2p.getNextReceivedPacketSize o = (.notFound, none) ∧
        h.node.p2p.receivePacket o' = (h.node.p2p, .notFound, none) := by
  have hex := InboxHistory.exact_of_run hrun
  refine ⟨{
    bytes := hex.bytes
    info := ⟨hex.bytes, rfl⟩
    received_le := ?_
    cleared_le := ?_
    contents := hex.contents
    order := hex.order
    limit := fun a h' hst => InboxHistory.pushed_step hst
    receives := ?_
    clears := ?_ }, fun o o' hv hv' hsame => P2P.next_received _ hv hv' hsame⟩
  · intro wants pkt hfind
    have hsize := P2P.size_le_bytes hex.bytes hfind
    omega
  · intro gone
    have hsplit := packetBytes_filter gone h.node.p2p.inbox.packets
    have hbytes := hex.bytes
    omega
  · intro o out h' hst hout
    have hv : versionInRange o.apiVersion receivePacketApiLatest = true := by
      by_contra hno
      rw [P2P.receivePacket, if_pos (by simpa using hno)] at hout
      cases hout
    obtain ⟨n', hnode, rfl⟩ := Option.map_eq_some_iff.1 hst
    rw [P2P.receivePacket_eq _ hv] at hout
    have hserved : (h.record (.call (.receivePacket o)) n').served = h.queue.served ++
        (h.node.p2p.inbox.packets.find?
          (wantsChannel (requestedChannel o.apiVersion o.requestedChannel))).toList := by
      rw [InboxHistory.record, if_pos hv, Queue.served_take, hex.contents]
    cases hfind : h.node.p2p.inbox.packets.find?
        (wantsChannel (requestedChannel o.apiVersion o.requestedChannel)) with
    | none =>
        rw [hfind] at hout
        cases hout
    | some pkt =>
        rw [hfind] at hout hserved
        cases hout
        exact ⟨pkt, hserved, rfl⟩
  · intro o h' hst
    obtain ⟨n', hnode, rfl⟩ := Option.map_eq_some_iff.1 hst
    rcases nodeStep_inbox hnode with ⟨o', ha, _⟩ | ⟨o', ha, hp⟩ | ⟨maxBytes, ha, _⟩ | ⟨_, hclear,
      _⟩
    · cases ha
    · cases ha
      rw [hp, P2P.clearPacketQueue_packets]
    · cases ha
    · exact absurd rfl (hclear o)

/-- A packet of three bytes on channel 0, which is unreliable. -/
def samplePlainData : NodeAction :=
  .datagram ⟨0xC0A80002, 7777⟩ .p2pData (encode ⟨str "b", str "CHAT", .data 0 0 0 [1, 2, 3]⟩) 0 0

/-- With room for four bytes, the first of two such packets waits. -/
theorem inbox_accounted_sample :
    ∃ h, Run InboxHistory.step Always (InboxHistory.start (str "a")) h ∧
      h.node.p2p.inbox.packets = [⟨str "b", str "CHAT", 0, [1, 2, 3]⟩] ∧ h.Accounted := by
  have hret : (exec InboxHistory.step (InboxHistory.start (str "a"))
      [.call (.setPacketQueueSize 4), samplePlainData, samplePlainData]).map
        (·.node.p2p.inbox.packets) =
      some [⟨str "b", str "CHAT", 0, [1, 2, 3]⟩] := by decide +kernel
  obtain ⟨h, hh, hpackets⟩ := Option.map_eq_some_iff.1 hret
  exact ⟨h, Run.of_exec hh, hpackets, (inbox_accounted (Run.of_exec hh)).1⟩

end EOSEmu
