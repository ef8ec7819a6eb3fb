import EOSEmu.P2P.Receive
import EOSEmu.P2P.Send

/-!
# The handlers of the P2P interface

`OnDatagram` on a decoded datagram, `Pump`, the accept and close calls, and the calls on the packet
queue. Each handler is one `Mutex_` section, a function from the interface's state to its new state
and outputs, in the order the code produces them.
-/

namespace EOSEmu

open Lib (Dict SeqMap)

namespace P2P

/-- `P2PInterface::ClearStreams`. -/
def clearStreams (p : P2P) (peer : ProductUserId) (socket : Bytes) : P2P :=
  { p with
    sendStreams := p.sendStreams.eraseIf fun key _ => (streamPrefix peer socket).isPrefixOf key
    recvStreams := p.recvStreams.eraseIf fun key _ => (streamPrefix peer socket).isPrefixOf key }

/-- Erases the connection and its streams. -/
def closeLocal (p : P2P) (peer : ProductUserId) (socket : Bytes) : P2P :=
  { p.clearStreams peer socket with connections := p.connections.erase (connKey peer socket) }

/-- `Connections_[ConnKey(Peer, Socket)]`, created when it is not there. -/
def openConn (p : P2P) (peer : ProductUserId) (socket : Bytes) : Connection :=
  (p.connections.get? (connKey peer socket)).getD {}

/-- Stores a connection. -/
def setConn (p : P2P) (peer : ProductUserId) (socket : Bytes) (conn : Connection) : P2P :=
  { p with connections := p.connections.set (connKey peer socket) conn }

/-- The established notification a handler owes, if any: a new connection, or the peer answering
again after an interruption. -/
def establishedOuts (peer : ProductUserId) (socket : Bytes) (established reconnected : Bool) :
    List Out :=
  if established then [.post (.connectionEstablished peer socket .newConnection)]
  else if reconnected then [.post (.connectionEstablished peer socket .reconnection)]
  else []

/-! ## Connection datagrams -/

/-- `OnDatagram(P2PConnectRequest)`. -/
def onConnectRequest (p : P2P) (localPid : ProductUserId) (from_ : Endpoint)
    (peer : ProductUserId) (socket : Bytes) : P2P × List Out :=
  let alreadyAccepted := ((p.connections.get? (connKey peer socket)).map
    (·.bAcceptedLocally)).getD false
  let hasListener := p.connRequest.any fun e => socketMatches e.socketName socket
  if !alreadyAccepted && hasListener then
    (p.setConn peer socket
      { p.openConn peer socket with peer, socketName := socket, endpoint := from_ },
      [.post (.connectionRequest peer socket)])
  else if !alreadyAccepted then (p, [.send from_ ⟨localPid, socket, .connectIgnored⟩])
  else (p, [])

/-- `OnDatagram(P2PConnectIgnored)`. -/
def onConnectIgnored (p : P2P) (peer : ProductUserId) (socket : Bytes) : P2P × List Out :=
  let existed := p.connections.contains (connKey peer socket)
  (p.closeLocal peer socket, .log (.cleared peer socket) ::
    if existed then [.post (.connectionClosed peer socket .connectionIgnored)] else [])

/-- `OnDatagram(P2PConnectAccept)`. -/
def onConnectAccept (p : P2P) (from_ : Endpoint) (peer : ProductUserId) (socket : Bytes) :
    P2P × List Out :=
  let conn := p.openConn peer socket
  (p.setConn peer socket { conn with
      peer, socketName := socket, endpoint := from_, bAcceptedLocally := true
      bEstablished := true, bInterrupted := false },
    establishedOuts peer socket (!conn.bEstablished) conn.bInterrupted)

/-- `OnDatagram(P2PConnectClose)`. -/
def onConnectClose (p : P2P) (peer : ProductUserId) (socket : Bytes) : P2P × List Out :=
  (p.closeLocal peer socket, [.log (.cleared peer socket),
    .post (.connectionClosed peer socket .closedByPeer)])

/-! ## Data and acks -/

/-- The connection part of `OnDatagram(P2PData)`: data implies the peer opened a connection. -/
def learnConn (p : P2P) (from_ : Endpoint) (peer : ProductUserId) (socket : Bytes) : P2P :=
  p.setConn peer socket { p.openConn peer socket with
    peer, socketName := socket, endpoint := from_, bEstablished := true, bInterrupted := false }

/-- The records of a drain. -/
def drainLog (key : Bytes) (inc : ℕ) (moved : List (ℕ × Bytes)) : List Event :=
  moved.map fun e => .enqueued key ⟨inc, e.1⟩ e.2

/-- The reliable branch of `OnDatagram(P2PData)`, with the datagram's channel, mode, 32-bit number
and data; `inc` is the send stream the datagram comes from. -/
def receiveData (p : P2P) (localPid : ProductUserId) (from_ : Endpoint) (peer : ProductUserId)
    (socket : Bytes) (channel : UInt8) (ordered : Bool) (wireSeq : UInt32) (data : Bytes)
    (inc : ℕ) : P2P × List Out × Bool :=
  let key := streamKey peer socket channel ordered
  let s := openRecvStream p peer socket channel ordered inc
  let seq := extend32 s.nextExpected wireSeq
  let d := drainRecvStream p.inbox (s.receive seq data)
  ({ p with inbox := d.inbox, recvStreams := p.recvStreams.set key d.stream },
    (s.dataEvent key inc seq data :: drainLog key s.inc d.moved).map .log ++
      [.send from_ ⟨localPid, socket, .ack channel (if ordered then 1 else 0)
        ⟨s.inc, d.stream.ackSeq⟩ d.stream.sack⟩],
    d.blocked)

/-- `OnDatagram(P2PData)`. -/
def onData (p : P2P) (localPid : ProductUserId) (from_ : Endpoint) (peer : ProductUserId)
    (socket : Bytes) (channel mode : UInt8) (wireSeq : UInt32) (data : Bytes) (inc : ℕ) :
    P2P × List Out :=
  let conn := p.openConn peer socket
  let p := p.learnConn from_ peer socket
  let established := establishedOuts peer socket (!conn.bEstablished) conn.bInterrupted
  if !modeReliable mode then
    let r := enqueueInbox p.inbox peer socket channel data
    ({ p with inbox := r.1 },
      established ++ if r.2 then [.post (.incomingPacketQueueFull p.inbox.maxBytes)] else [])
  else
    let r := p.receiveData localPid from_ peer socket channel (modeOrdered mode) wireSeq data inc
    (r.1, r.2.1 ++ established ++
      if r.2.2 then [.post (.incomingPacketQueueFull p.inbox.maxBytes)] else [])

/-- The connection part of `OnDatagram(P2PAck)`: an ack is proof of life for the connection. -/
def proofOfLife (p : P2P) (peer : ProductUserId) (socket : Bytes) : P2P :=
  match p.connections.get? (connKey peer socket) with
  | some conn => p.setConn peer socket { conn with bInterrupted := false }
  | none => p

/-- `OnDatagram(P2PAck)`: erases from `Pending` what the ack covers. -/
def onAck (p : P2P) (peer : ProductUserId) (socket : Bytes) (channel orderedByte : UInt8)
    (wireAckSeq sack : UInt32) (now : TimePoint) : P2P × List Out :=
  let key := streamKey peer socket channel (orderedByte ≠ 0)
  let reconnected := ((p.connections.get? (connKey peer socket)).map (·.bInterrupted)).getD false
  let p := p.proofOfLife peer socket
  match p.sendStreams.get? key with
  | none => (p, establishedOuts peer socket false reconnected)
  | some s =>
      let ackSeq := extend32 s.nextSeq wireAckSeq
      ({ p with sendStreams := p.sendStreams.set key (s.processAck ackSeq sack now) },
        ((s.ackedBy ackSeq sack).map fun k => Out.log (.acked key ⟨s.inc, k⟩ ackSeq sack)) ++
          establishedOuts peer socket false reconnected)

/-- `P2PInterface::OnDatagram` on a decoded datagram. `inc` is the send stream a `P2PData` comes
from. -/
def onMessage (p : P2P) (localPid : ProductUserId) (from_ : Endpoint) (m : Datagram UInt32)
    (inc : ℕ) (now : TimePoint) : P2P × List Out :=
  match m.body with
  | .connectRequest => p.onConnectRequest localPid from_ m.sender m.socket
  | .connectIgnored => p.onConnectIgnored m.sender m.socket
  | .connectAccept => p.onConnectAccept from_ m.sender m.socket
  | .connectClose => p.onConnectClose m.sender m.socket
  | .data channel mode seq bytes =>
      p.onData localPid from_ m.sender m.socket channel mode seq bytes inc
  | .ack channel orderedByte ackSeq sack =>
      p.onAck m.sender m.socket channel orderedByte ackSeq sack now

/-! ## `Pump` -/

/-- The body of `Pump`'s loop over `RecvStreams_`. -/
def drainOne (acc : Inbox × List Event) (key : Bytes) (s : RecvStream) :
    (Inbox × List Event) × RecvStream :=
  if s.buffer.isEmpty then (acc, s)
  else
    let d := drainRecvStream acc.1 s
    ((d.inbox, acc.2 ++ drainLog key s.inc d.moved), d.stream)

/-- The connection's interruption has outlasted the grace period. -/
def timedOut (now : TimePoint) (conn : Connection) : Bool :=
  conn.bInterrupted && interruptedGrace ≤ now - conn.interruptedAt

/-- `Pump`'s sweep over `Connections_`. -/
def sweep (p : P2P) (now : TimePoint) : P2P × List (ProductUserId × Bytes) :=
  let dead := (p.connections.entries.filter fun e => timedOut now e.2).map
    fun e => (e.2.peer, e.2.socketName)
  let q := dead.foldl (fun q c => q.clearStreams c.1 c.2) p
  ({ q with connections := p.connections.eraseIf fun _ conn => timedOut now conn }, dead)

/-- `P2PInterface::Pump`. -/
def pump (p : P2P) (now : TimePoint) : P2P × List Out :=
  let drained := p.recvStreams.mapAccum drainOne (p.inbox, [])
  let sent := p.sendStreams.mapAccum (retransmit now) { connections := p.connections }
  let swept := sweep { p with
    inbox := drained.1.1, recvStreams := drained.2
    connections := sent.1.connections, sendStreams := sent.2 } now
  (swept.1,
    drained.1.2.map .log ++ swept.2.map (fun c => .log (.cleared c.1 c.2)) ++
      sent.1.toSend.map (fun t => .send t.1 t.2) ++
      sent.1.interrupted.map (fun i => .post (.connectionInterrupted i.1 i.2)) ++
      swept.2.map fun c => .post (.connectionClosed c.1 c.2 .timedOut))

/-! ## Accept and close -/

/-- The peer and socket an accept or close call names: a null socket id reads as the empty
name. -/
structure ConnectionOptions where
  remoteUserId : ProductUserId
  socketId : Option Bytes
  deriving DecidableEq, Repr

/-- `P2PInterface::AcceptConnection`. -/
def acceptConnection (p : P2P) (localPid : ProductUserId) (endpointFor : ProductUserId → Endpoint)
    (options : Option ConnectionOptions) : P2P × List Out × EResult :=
  match options with
  | none => (p, [], .invalidParameters)
  | some o =>
      if o.remoteUserId = [] || o.socketId.isNone then (p, [], .invalidParameters)
      else
        let socket := socketName o.socketId
        let conn := p.openConn o.remoteUserId socket
        let endpoint := if !conn.endpoint.valid then endpointFor o.remoteUserId else conn.endpoint
        (p.setConn o.remoteUserId socket { conn with
            peer := o.remoteUserId, socketName := socket, endpoint
            bAcceptedLocally := true, bEstablished := true },
          (if endpoint.valid then [.send endpoint ⟨localPid, socket, .connectAccept⟩] else []) ++
            establishedOuts o.remoteUserId socket (!conn.bEstablished) false,
          .success)

/-- `P2PInterface::CloseConnection`. -/
def closeConnection (p : P2P) (localPid : ProductUserId) (options : Option ConnectionOptions) :
    P2P × List Out × EResult :=
  match options with
  | none => (p, [], .invalidParameters)
  | some o =>
      if o.remoteUserId = [] then (p, [], .invalidParameters)
      else
        let socket := socketName o.socketId
        let endpoint := ((p.connections.get? (connKey o.remoteUserId socket)).map
          (·.endpoint)).getD {}
        (p.closeLocal o.remoteUserId socket,
          .log (.cleared o.remoteUserId socket) ::
            if endpoint.valid then [.send endpoint ⟨localPid, socket, .connectClose⟩] else [],
          .success)

/-- `P2PInterface::CloseConnections`: every connection on the socket. The argument is `none` for
null options and `some none` for a null socket id. -/
def closeConnections (p : P2P) (localPid : ProductUserId) (options : Option (Option Bytes)) :
    P2P × List Out × EResult :=
  match options with
  | none | some none => (p, [], .invalidParameters)
  | some (some socketId) =>
      let socket := socketName (some socketId)
      let toClose := (p.connections.entries.filter fun e => e.2.socketName = socket).map Prod.snd
      let q := toClose.foldl (fun q c => q.clearStreams c.peer socket) p
      ({ q with connections := p.connections.eraseIf fun _ conn => conn.socketName = socket },
        toClose.map (fun c => .log (.cleared c.peer socket)) ++
          (toClose.filter (·.endpoint.valid)).map
            (fun c => .send c.endpoint ⟨localPid, socket, .connectClose⟩),
        .success)

/-! ## The packet queue and the connection-request listeners -/

/-- Takes the first packet of a channel, or of any channel, out of the inbox. -/
def Inbox.takeFirst (channel : Option UInt8) :
    List IncomingPacket → Option (IncomingPacket × List IncomingPacket)
  | [] => none
  | pkt :: rest =>
      if channel = none ∨ channel = some pkt.channel then some (pkt, rest)
      else (takeFirst channel rest).map fun r => (r.1, pkt :: r.2)

/-- `EOS_P2P_ReceivePacketOptions`. -/
structure ReceivePacketOptions where
  apiVersion : Int
  maxDataSizeBytes : ℕ
  requestedChannel : Option UInt8
  deriving DecidableEq, Repr

/-- `P2PInterface::ReceivePacket` with non-null output pointers: the result and, on success, the
packet with its data cut to the caller's buffer. `requestedChannel` was added in v2. -/
def receivePacket (p : P2P) (o : ReceivePacketOptions) :
    P2P × EResult × Option IncomingPacket :=
  if !versionInRange o.apiVersion receivePacketApiLatest then (p, .incompatibleVersion, none)
  else
    let channel := if hasField o.apiVersion 2 then o.requestedChannel else none
    match Inbox.takeFirst channel p.inbox.packets with
    | none => (p, .notFound, none)
    | some (pkt, rest) =>
        ({ p with inbox := { p.inbox with
            packets := rest, bytes := p.inbox.bytes - pkt.data.length } },
          .success, some { pkt with data := pkt.data.take o.maxDataSizeBytes })

/-- `P2PInterface::SetPacketQueueSize`. -/
def setPacketQueueSize (p : P2P) (maxBytes : ℕ) : P2P :=
  { p with inbox := { p.inbox with maxBytes } }

/-- The filter of `ClearPacketQueue`: the empty user id stands for null, which matches any peer,
and an empty socket name matches any socket. -/
def clearMatches (peer : ProductUserId) (socket : Bytes) (pkt : IncomingPacket) : Bool :=
  (peer = [] || pkt.peer = peer) && (socket.isEmpty || pkt.socketName = socket)

/-- `P2PInterface::ClearPacketQueue`. -/
def clearPacketQueue (p : P2P) (o : ConnectionOptions) : P2P :=
  if o.remoteUserId = [] && o.socketId.isNone then
    { p with inbox := { p.inbox with packets := [], bytes := 0 } }
  else
    let gone := clearMatches o.remoteUserId (socketName o.socketId)
    { p with inbox := { p.inbox with
        packets := p.inbox.packets.filter fun pkt => !gone pkt
        bytes := p.inbox.bytes -
          ((p.inbox.packets.filter gone).map fun pkt => pkt.data.length).sum } }

/-- `P2PInterface::AddNotifyPeerConnectionRequest` with a callback. -/
def addNotifyPeerConnectionRequest (p : P2P) (socketId : Option Bytes) : P2P × ℕ :=
  ({ p with
      connRequest := p.connRequest ++ [⟨p.nextNotificationId, socketName socketId⟩]
      nextNotificationId := p.nextNotificationId + 1 },
    p.nextNotificationId)

/-- `P2PInterface::RemoveNotifyPeerConnectionRequest`: erases the first entry with the id. -/
def removeNotifyPeerConnectionRequest (p : P2P) (id : ℕ) : P2P :=
  { p with connRequest := p.connRequest.eraseP fun e => e.id = id }

end P2P

end EOSEmu
