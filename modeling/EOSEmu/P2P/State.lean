import EOSEmu.Net.Wire
import EOSEmu.Interfaces.Attributes

/-!
# The state of the P2P interface

The records of `interfaces/P2P.h`. A map keyed by a string is a `Lib.Dict` on the same byte string
the code builds (`connKey`, `streamKey`), so `ClearStreams` is the prefix test the code performs.
Sequence numbers are natural numbers: in runs of fewer than `2 ^ 64 - 1` steps no 64-bit counter of
the code wraps (`nodeStep_noWrap`, `worldStep_noWrap`), and only `extend32` computes near the end
of the range.

Two things are added to the code's state and never read by it. `SendStream.inc` numbers the send
streams a node ever created, and a datagram carries the full position (`Pos`) its 32-bit number was
cut from. `Event`s record what a step did to a stream, for the properties that speak of the past.
-/

namespace EOSEmu

open Lib (Dict SeqMap)

/-! ## Keys -/

/-- `P2PInterface::ConnKey`. -/
def connKey (peer : ProductUserId) (socket : Bytes) : Bytes := peer ++ 0 :: socket

/-- The prefix `ClearStreams` erases by: the connection key and its separator. -/
def streamPrefix (peer : ProductUserId) (socket : Bytes) : Bytes := connKey peer socket ++ [0]

/-- `P2PInterface::StreamKey`: the connection key, a separator, the channel, `'O'` or `'U'`. -/
def streamKey (peer : ProductUserId) (socket : Bytes) (channel : UInt8) (ordered : Bool) : Bytes :=
  streamPrefix peer socket ++ [channel, if ordered then 79 else 85]

/-- Two strings that are followed by a separator neither contains are told apart by what comes
before the first separator. -/
theorem append_sep_inj {p q s t : Bytes} (hp : 0 ∉ p) (hq : 0 ∉ q) (h : p ++ 0 :: s = q ++ 0 :: t) :
    p = q ∧ s = t := by
  induction p generalizing q with
  | nil =>
      cases q with
      | nil => exact ⟨rfl, by simpa using h⟩
      | cons b q =>
          have hb : (0 : UInt8) = b := (List.cons_eq_cons.1 h).1
          exact absurd (hb ▸ List.mem_cons_self) hq
  | cons a p ih =>
      cases q with
      | nil =>
          have ha : a = (0 : UInt8) := (List.cons_eq_cons.1 h).1
          exact absurd (ha ▸ List.mem_cons_self) hp
      | cons b q =>
          obtain ⟨hab, htail⟩ := List.cons_eq_cons.1 h
          obtain ⟨hpq, hst⟩ := ih (fun hm => hp (List.mem_cons_of_mem _ hm))
            (fun hm => hq (List.mem_cons_of_mem _ hm)) htail
          exact ⟨by rw [hab, hpq], hst⟩

/-- `StreamKey` is injective on user ids without NUL bytes. -/
theorem streamKey_inj {p q : ProductUserId} {s t : Bytes} {c d : UInt8} {o o' : Bool} (hp : 0 ∉ p)
    (hq : 0 ∉ q) (h : streamKey p s c o = streamKey q t d o') : p = q ∧ s = t ∧ c = d ∧ o = o' := by
  obtain ⟨hpre, hsuf⟩ := List.append_inj' h rfl
  obtain ⟨hpq, hst⟩ := append_sep_inj hp hq (List.append_inj' hpre rfl).1
  obtain ⟨hc, hrest⟩ := List.cons_eq_cons.1 hsuf
  refine ⟨hpq, hst, hc, ?_⟩
  revert hrest
  cases o <;> cases o' <;> decide

/-- A stream's key starts with the prefix its connection is cleared by. -/
theorem streamPrefix_isPrefixOf (p : ProductUserId) (s : Bytes) (c : UInt8) (o : Bool) :
    (streamPrefix p s).isPrefixOf (streamKey p s c o) = true := by
  rw [List.isPrefixOf_iff_prefix]
  exact List.prefix_append _ _

/-- `SocketName` of an `EOS_P2P_SocketId`: the `char[33]` up to its first NUL, at most 32 bytes. -/
def socketName (socketId : Option Bytes) : Bytes :=
  ((socketId.getD []).take (socketNameSize - 1)).takeWhile (· ≠ 0)

/-- `SocketMatches`. -/
def socketMatches (filter socket : Bytes) : Bool := filter.isEmpty || filter = socket

/-! ## Datagrams -/

/-- A position of a reliable stream: the send stream it belongs to, among all the node ever
created, and the 64-bit sequence number. -/
structure Pos where
  inc : ℕ
  seq : ℕ
  deriving DecidableEq, Repr, Inhabited

/-- What a P2P datagram says after sender and socket. `N` is the type of its sequence number:
`Pos` as the sender means it, `UInt32` as it travels. -/
inductive Body (N : Type) where
  | connectRequest
  | connectIgnored
  | connectAccept
  | connectClose
  | data (channel mode : UInt8) (seq : N) (bytes : Bytes)
  | ack (channel orderedByte : UInt8) (ackSeq : N) (sack : UInt32)
  deriving DecidableEq, Repr

/-- A P2P datagram: `[sender][socket]` and the body. -/
structure Datagram (N : Type) where
  sender : ProductUserId
  socket : Bytes
  body : Body N
  deriving DecidableEq, Repr

/-- Rewrites the sequence number. -/
def Body.map {M N : Type} (f : M → N) : Body M → Body N
  | .connectRequest => .connectRequest
  | .connectIgnored => .connectIgnored
  | .connectAccept => .connectAccept
  | .connectClose => .connectClose
  | .data channel mode seq bytes => .data channel mode (f seq) bytes
  | .ack channel orderedByte ackSeq sack => .ack channel orderedByte (f ackSeq) sack

/-- The datagram as it travels: `W.U32(static_cast<uint32_t>(Seq))`. -/
def Datagram.wire (d : Datagram Pos) : Datagram UInt32 :=
  { d with body := d.body.map fun p => UInt32.ofNat p.seq }

/-- The send stream the datagram's data comes from. -/
def Datagram.inc (d : Datagram Pos) : ℕ :=
  match d.body with
  | .data _ _ pos _ => pos.inc
  | _ => 0

/-! ## Connections and streams -/

/-- `P2PInterface::Connection`. -/
structure Connection where
  peer : ProductUserId := []
  socketName : Bytes := []
  endpoint : Endpoint := {}
  bAcceptedLocally : Bool := false
  bEstablished : Bool := false
  bInterrupted : Bool := false
  interruptedAt : TimePoint := 0
  deriving DecidableEq, Repr, Inhabited

/-- `SendStream::Unacked`. -/
structure Unacked where
  payload : Datagram Pos
  toEndpoint : Endpoint
  firstSent : TimePoint
  lastSent : TimePoint
  tries : ℕ := 0
  deriving DecidableEq, Repr

/-- `P2PInterface::SendStream`. `rtt` holds `SrttMs` and `RttVarMs` once there is a sample; the
code marks "no sample" by a negative `SrttMs`. -/
structure SendStream where
  peer : ProductUserId := []
  socket : Bytes := []
  nextSeq : ℕ := 1
  pending : SeqMap Unacked := .empty
  rtt : Option (Float × Float) := none
  inc : ℕ := 0

/-- `P2PInterface::RecvStream`. `inc` is the send stream whose data created it. -/
structure RecvStream where
  peer : ProductUserId := []
  socket : Bytes := []
  channel : UInt8 := 0
  ordered : Bool := false
  nextExpected : ℕ := 1
  nextToDeliver : ℕ := 1
  buffer : SeqMap Bytes := .empty
  received : SeqMap Unit := .empty
  inc : ℕ := 0

instance : Inhabited SendStream := ⟨{}⟩

instance : Inhabited RecvStream := ⟨{}⟩

/-- The stream has received the sequence number. -/
def RecvStream.Got (s : RecvStream) (k : ℕ) : Prop :=
  1 ≤ k ∧ (k < s.nextExpected ∨ s.received.contains k = true)

/-- `P2PInterface::IncomingPacket`. -/
structure IncomingPacket where
  peer : ProductUserId
  socketName : Bytes
  channel : UInt8
  data : Bytes
  deriving DecidableEq, Repr

/-- `Inbox_`, `MaxInboxBytes_` (zero is unlimited) and `InboxBytes_`. -/
structure Inbox where
  packets : List IncomingPacket := []
  maxBytes : ℕ := 0
  bytes : ℕ := 0
  deriving DecidableEq, Repr, Inhabited

/-- `FilteredEntry`: the fields that decide which sockets a registration listens to. -/
structure FilteredEntry where
  id : ℕ
  socketName : Bytes
  deriving DecidableEq, Repr

/-- The state of one `P2PInterface`. `incs` counts the send streams created so far. -/
structure P2P where
  inbox : Inbox := {}
  connections : Dict Bytes Connection := .empty
  sendStreams : Dict Bytes SendStream := .empty
  recvStreams : Dict Bytes RecvStream := .empty
  connRequest : List FilteredEntry := []
  nextNotificationId : ℕ := 1
  incs : ℕ := 0

instance : Inhabited P2P := ⟨{}⟩

/-! ## The options of `SendPacket` -/

/-- A pointer and a length: null, or a buffer of that many bytes. -/
inductive Buffer where
  | null (lengthBytes : ℕ)
  | bytes (data : Bytes)
  deriving DecidableEq, Repr

/-- `DataLengthBytes`. -/
def Buffer.length : Buffer → ℕ
  | .null n => n
  | .bytes data => data.length

/-- The bytes a buffer of admissible length holds. -/
def Buffer.data : Buffer → Bytes
  | .null _ => []
  | .bytes data => data

/-- `Data == nullptr && DataLengthBytes > 0`. -/
def Buffer.isMissing : Buffer → Bool
  | .null n => 0 < n
  | .bytes _ => false

/-- `EOS_P2P_SendPacketOptions`. `socketId` is `none` for a null pointer and otherwise the
`SocketName` array. -/
structure SendPacketOptions where
  apiVersion : Int
  remoteUserId : ProductUserId
  socketId : Option Bytes
  channel : UInt8
  data : Buffer
  bDisableAutoAcceptConnection : SdkInt := eosFalse
  reliability : EPacketReliability
  deriving DecidableEq, Repr

/-- v2 added `Reliability`; before it P2P was always reliable-ordered. -/
def SendPacketOptions.mode (o : SendPacketOptions) : EPacketReliability :=
  if hasField o.apiVersion 2 then o.reliability else .reliableOrdered

/-- v3 added `bDisableAutoAcceptConnection`. -/
def SendPacketOptions.autoAccept (o : SendPacketOptions) : Bool :=
  !hasField o.apiVersion 3 || o.bDisableAutoAcceptConnection = eosFalse

/-- `Reliable` of `SendPacket`. -/
def EPacketReliability.isReliable : EPacketReliability → Bool
  | .unreliableUnordered => false
  | _ => true

/-- `Ordered` of `SendPacket`. -/
def EPacketReliability.isOrdered : EPacketReliability → Bool
  | .reliableOrdered => true
  | _ => false

/-- The stream a reliable packet goes to. -/
def SendPacketOptions.key (o : SendPacketOptions) : Bytes :=
  streamKey o.remoteUserId (socketName o.socketId) o.channel o.mode.isOrdered

/-- The datagram of the packet. -/
def SendPacketOptions.datagram (o : SendPacketOptions) (localPid : ProductUserId) (pos : Pos) :
    Datagram Pos :=
  ⟨localPid, socketName o.socketId, .data o.channel o.mode.toByte pos o.data.data⟩

/-- `Reliable` of a received mode byte. -/
def modeReliable (mode : UInt8) : Bool := mode ≠ EPacketReliability.unreliableUnordered.toByte

/-- `Ordered` of a received mode byte. -/
def modeOrdered (mode : UInt8) : Bool := mode = EPacketReliability.reliableOrdered.toByte

@[simp] theorem modeReliable_toByte (r : EPacketReliability) :
    modeReliable r.toByte = r.isReliable := by
  cases r <;> rfl

@[simp] theorem modeOrdered_toByte (r : EPacketReliability) :
    modeOrdered r.toByte = r.isOrdered := by
  cases r <;> rfl

/-! ## What a step puts out -/

/-- A notification posted to the Dispatcher. -/
inductive Notification where
  | connectionRequest (remote : ProductUserId) (socket : Bytes)
  | connectionEstablished (remote : ProductUserId) (socket : Bytes)
      (type : EConnectionEstablishedType)
  | connectionInterrupted (remote : ProductUserId) (socket : Bytes)
  | connectionClosed (remote : ProductUserId) (socket : Bytes) (reason : EConnectionClosedReason)
  | incomingPacketQueueFull (maxBytes : ℕ)
  deriving DecidableEq, Repr

/-- What a step did to a stream. -/
inductive Event where
  /-- `SendPacket` stored the packet in `Pending` under this position. -/
  | queued (key : Bytes) (pos : Pos) (data : Bytes)
  /-- `P2PData` was new and went to `Buffer`. -/
  | accepted (key : Bytes) (pos : Pos) (data : Bytes)
  /-- `P2PData` was classified as a duplicate. -/
  | duplicate (key : Bytes) (pos : Pos)
  /-- `DrainRecvStream` moved a buffered packet to the inbox. -/
  | enqueued (key : Bytes) (pos : Pos) (data : Bytes)
  /-- `P2PAck` with these numbers erased the position from `Pending`. -/
  | acked (key : Bytes) (pos : Pos) (ackSeq : ℕ) (sack : UInt32)
  /-- `ClearStreams` ran. -/
  | cleared (peer : ProductUserId) (socket : Bytes)
  /-- The process restarted. -/
  | restarted
  deriving DecidableEq, Repr

/-- An output of a step: a datagram handed to the transport, a posted notification, or a record
of what happened. -/
inductive Out where
  | send (toEndpoint : Endpoint) (d : Datagram Pos)
  | post (n : Notification)
  | log (e : Event)
  deriving DecidableEq, Repr

/-- The datagrams among the outputs. -/
def sends : List Out → List (Endpoint × Datagram Pos)
  | [] => []
  | .send e d :: os => (e, d) :: sends os
  | _ :: os => sends os

/-- The records among the outputs. -/
def events : List Out → List Event
  | [] => []
  | .log e :: os => e :: events os
  | _ :: os => events os

@[simp] theorem sends_append (os ps : List Out) : sends (os ++ ps) = sends os ++ sends ps := by
  induction os with
  | nil => rfl
  | cons o os ih => cases o <;> simp [sends, ih]

@[simp] theorem events_append (os ps : List Out) : events (os ++ ps) = events os ++ events ps := by
  induction os with
  | nil => rfl
  | cons o os ih => cases o <;> simp [events, ih]

/-- Recording a list of events. -/
@[simp] theorem events_log (es : List Event) : events (es.map Out.log) = es := by
  induction es with
  | nil => rfl
  | cons e es ih => simp [events, ih]

@[simp] theorem sends_log (es : List Event) : sends (es.map Out.log) = [] := by
  induction es with
  | nil => rfl
  | cons e es ih => simp [sends, ih]

end EOSEmu
