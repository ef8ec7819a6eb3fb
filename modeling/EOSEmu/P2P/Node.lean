import EOSEmu.P2P.Interface
import EOSEmu.P2P.Message
import EOSEmu.Lib.Run

/-!
# A node that runs the P2P interface

A node holds the interface's state, the peer directory and the `SendPacket` calls that are between
their two lock sections. A step is one critical section of `Mutex_`: an API call, the rest of a
waiting `SendPacket`, a tick's `Pump`, or the handling of a received datagram. The iteration order
of the code's hash maps is unspecified, so a node may also rearrange them (`Call.rehash`). The log
keeps what happened.
-/

namespace EOSEmu

open Lib (Dict SeqMap Run)

/-- A `SendPacket` call that has returned: the position it stored its packet under, if any, and how
many events had happened by then. -/
structure SendReturn where
  options : SendPacketOptions
  result : EResult
  slot : Option Pos
  time : ℕ
  deriving DecidableEq, Repr

/-- One node. `log` and `returns` are its history, oldest first; the code does not read them. -/
structure P2PNode where
  localPid : ProductUserId
  peers : Dict ProductUserId Endpoint := .empty
  p2p : P2P := {}
  sending : List SendCall := []
  log : List Event := []
  returns : List SendReturn := []

/-- What the node's own threads do at one step. -/
inductive Call where
  | sendPacket (options : Option SendPacketOptions)
  /-- The `i`-th waiting `SendPacket` goes on. -/
  | sendPacketQueue (i : ℕ) (now : TimePoint)
  | receivePacket (options : P2P.ReceivePacketOptions)
  | setPacketQueueSize (maxBytes : ℕ)
  | clearPacketQueue (options : P2P.ConnectionOptions)
  | acceptConnection (options : Option P2P.ConnectionOptions)
  | closeConnection (options : Option P2P.ConnectionOptions)
  | closeConnections (options : Option (Option Bytes))
  | addNotifyPeerConnectionRequest (socketId : Option Bytes)
  | removeNotifyPeerConnectionRequest (id : ℕ)
  | pump (now : TimePoint)
  /-- A Hello puts a peer into the directory. -/
  | observe (peer : ProductUserId) (endpoint : Endpoint)
  /-- The hash maps choose another iteration order. -/
  | rehash (connection sendStream recvStream : Bytes)

namespace P2PNode

/-- `P2PInterface::EndpointForPeer`. -/
def endpointFor (n : P2PNode) (peer : ProductUserId) : Endpoint := (n.peers.get? peer).getD {}

/-- The node after its interface moved on with these outputs. -/
def update (n : P2PNode) (r : P2P × List Out) : P2PNode :=
  { n with p2p := r.1, log := n.log ++ events r.2 }

/-- Records the return of a `SendPacket` call; a call with null options has nothing to record. -/
def recordReturn (n : P2PNode) (options : Option SendPacketOptions) (result : EResult)
    (slot : Option Pos) : P2PNode :=
  match options with
  | none => n
  | some o => { n with returns := n.returns ++ [⟨o, result, slot, n.log.length⟩] }

/-- The position the waiting call's packet will be stored under. -/
def slotOf (n : P2PNode) (c : SendCall) : Option Pos :=
  if c.options.mode.isReliable then
    let s := n.p2p.openSendStream c.options.key
    some ⟨s.inc, s.nextSeq⟩
  else none

/-- One step of the node's own threads: the new node and the outputs. -/
def step (n : P2PNode) : Call → Option (P2PNode × List Out)
  | .sendPacket options =>
      let (p, outs, result) := sendPacketOpen n.localPid n.endpointFor options n.p2p
      match result with
      | .inl r =>
          some ((n.update (p, outs)).recordReturn options r none, outs)
      | .inr c => some ({ n.update (p, outs) with sending := n.sending ++ [c] }, outs)
  | .sendPacketQueue i now =>
      match n.sending[i]? with
      | none => none
      | some c =>
          let r := sendPacketQueue n.localPid c now n.p2p
          let m := { n.update r with sending := n.sending.eraseIdx i }
          some (m.recordReturn (some c.options) .success (n.slotOf c), r.2)
  | .receivePacket o => some (n.update ((n.p2p.receivePacket o).1, []), [])
  | .setPacketQueueSize maxBytes => some (n.update (n.p2p.setPacketQueueSize maxBytes, []), [])
  | .clearPacketQueue o => some (n.update (n.p2p.clearPacketQueue o, []), [])
  | .acceptConnection o =>
      let r := n.p2p.acceptConnection n.localPid n.endpointFor o
      some (n.update (r.1, r.2.1), r.2.1)
  | .closeConnection o =>
      let r := n.p2p.closeConnection n.localPid o
      some (n.update (r.1, r.2.1), r.2.1)
  | .closeConnections o =>
      let r := n.p2p.closeConnections n.localPid o
      some (n.update (r.1, r.2.1), r.2.1)
  | .addNotifyPeerConnectionRequest socketId =>
      some (n.update ((n.p2p.addNotifyPeerConnectionRequest socketId).1, []), [])
  | .removeNotifyPeerConnectionRequest id =>
      some (n.update (n.p2p.removeNotifyPeerConnectionRequest id, []), [])
  | .pump now => let r := n.p2p.pump now; some (n.update r, r.2)
  | .observe peer endpoint =>
      if peer = [] then none else some ({ n with peers := n.peers.set peer endpoint }, [])
  | .rehash c s r =>
      some (n.update ({ n.p2p with
        connections := n.p2p.connections.toFront c
        sendStreams := n.p2p.sendStreams.toFront s
        recvStreams := n.p2p.recvStreams.toFront r }, []), [])

/-- The node handles a decoded datagram. -/
def receive (n : P2PNode) (from_ : Endpoint) (m : Datagram UInt32) (inc : ℕ) (now : TimePoint) :
    P2PNode × List Out :=
  let r := n.p2p.onMessage n.localPid from_ m inc now
  (n.update r, r.2)

/-- The node handles a datagram of any bytes. -/
def onDatagram (n : P2PNode) (from_ : Endpoint) (type : MessageType) (payload : Bytes) (inc : ℕ)
    (now : TimePoint) : P2PNode × List Out :=
  match decode type payload with
  | none => (n, [])
  | some m => n.receive from_ m inc now

/-- The node handles a datagram that another node sent. -/
def deliver (n : P2PNode) (from_ : Endpoint) (d : Datagram Pos) (now : TimePoint) :
    P2PNode × List Out :=
  if d.sender = [] ∨ d.socket = [] then (n, []) else n.receive from_ d.wire d.inc now

/-- That is what the node makes of the datagram's bytes. -/
theorem onDatagram_encode (n : P2PNode) (from_ : Endpoint) {d : Datagram Pos} (hd : d.wire.Fits)
    (now : TimePoint) :
    n.onDatagram from_ d.wire.type (encode d.wire) d.inc now = n.deliver from_ d now := by
  rw [onDatagram, decode_encode hd, deliver]
  show (match if d.sender = [] ∨ d.socket = [] then none else some d.wire with
    | none => (n, [])
    | some m => n.receive from_ m d.inc now) = _
  split <;> simp_all

end P2PNode

/-! ## A node among arbitrary datagrams -/

/-- What can happen to a node: a step of its own threads, or a datagram of any bytes from
anywhere. -/
inductive NodeAction where
  | call (c : Call)
  | datagram (from_ : Endpoint) (type : MessageType) (payload : Bytes) (inc : ℕ)
      (now : TimePoint)

/-- The step function of a node. -/
def nodeStep (n : P2PNode) : NodeAction → Option P2PNode
  | .call c => (n.step c).map Prod.fst
  | .datagram from_ type payload inc now => some (n.onDatagram from_ type payload inc now).1

/-- A freshly started node. -/
def P2PNode.start (localPid : ProductUserId) : P2PNode := { localPid }

end EOSEmu
