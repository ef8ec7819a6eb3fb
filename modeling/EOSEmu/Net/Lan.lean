import EOSEmu.Net.Wire
import EOSEmu.Net.Serialize

/-!
# Framing a datagram

`Frame`, `SendTo`, `Broadcast` and the checks of `ReceiveLoop` (`net/Lan.cpp`). The length of a
payload arrives as a `uint16_t`: `ByteWriter::Size` and the call sites cast it before the size
check sees it.
-/

namespace EOSEmu

/-- `ByteWriter::Size`, `static_cast<uint16_t>` of the length. -/
def ByteWriter.size (data : Bytes) : UInt16 := UInt16.ofNat data.length

/-- The number a `MessageType` travels as. -/
def MessageType.toNumber : MessageType → UInt16
  | .hello => 1
  | .goodbye => 2
  | .p2pData => 10
  | .p2pConnectRequest => 11
  | .p2pConnectAccept => 12
  | .p2pConnectClose => 13
  | .p2pAck => 14
  | .p2pConnectIgnored => 15
  | .lobbyAnnounce => 20
  | .lobbyUpdate => 21
  | .lobbyJoinRequest => 22
  | .lobbyJoinResponse => 23
  | .lobbyLeave => 24
  | .lobbyInvite => 25
  | .sessionAnnounce => 30
  | .sessionWithdraw => 31
  | .sessionInvite => 32
  | .customInvite => 40

/-- `kMagic`. -/
def wireMagic : UInt32 := 0x45534F45

/-- `kProtocolVersion`. -/
def protocolVersion : UInt16 := 1

/-- `WireHeader`. -/
structure WireHeader where
  magic : UInt32
  version : UInt16
  type : UInt16
  senderTag : UInt32
  unicastPort : UInt16
  payloadLen : UInt16
  deriving DecidableEq, Repr

namespace WireHeader

/-- The packed struct in memory. -/
def write (h : WireHeader) : Bytes :=
  leBytes 4 h.magic.toNat ++ (leBytes 2 h.version.toNat ++
    (leBytes 2 h.type.toNat ++ (leBytes 4 h.senderTag.toNat ++
  (leBytes 2 h.unicastPort.toNat ++ leBytes 2 h.payloadLen.toNat))))

/-- The struct copied out of the first sixteen bytes. -/
def read (bs : Bytes) : WireHeader :=
  { magic := UInt32.ofNat (leValue (bs.take 4))
    version := UInt16.ofNat (leValue ((bs.drop 4).take 2))
    type := UInt16.ofNat (leValue ((bs.drop 6).take 2))
    senderTag := UInt32.ofNat (leValue ((bs.drop 8).take 4))
    unicastPort := UInt16.ofNat (leValue ((bs.drop 12).take 2))
    payloadLen := UInt16.ofNat (leValue ((bs.drop 14).take 2)) }

@[simp] theorem write_length (h : WireHeader) : h.write.length = wireHeaderSize := by
  simp [write, wireHeaderSize]

/-- The header reads back from the front of a datagram. -/
theorem read_write (h : WireHeader) (rest : Bytes) : read (h.write ++ rest) = h := by
  have h32 : ∀ v : UInt32, UInt32.ofNat (v.toNat % 4294967296) = v := by
    intro v
    rw [Nat.mod_eq_of_lt v.toNat_lt, UInt32.ofNat_toNat]
  have h16 : ∀ v : UInt16, UInt16.ofNat (v.toNat % 65536) = v := by
    intro v
    rw [Nat.mod_eq_of_lt v.toNat_lt, UInt16.ofNat_toNat]
  simp [read, write, List.drop_append, List.drop_eq_nil_of_le, leValue_leBytes]

end WireHeader

/-- The part of `net::Node` that sends and receives. -/
structure LanNode where
  running : Bool
  senderTag : UInt32
  unicastPort : UInt16

namespace LanNode

/-- The header `Frame` puts in front of a payload. -/
def header (n : LanNode) (type : MessageType) (len : UInt16) : WireHeader :=
  { magic := wireMagic, version := protocolVersion, type := type.toNumber, senderTag := n.senderTag
    unicastPort := n.unicastPort, payloadLen := len }

/-- `Node::Frame`: the header and the first `len` bytes of the payload. -/
def frame (n : LanNode) (type : MessageType) (payload : Bytes) (len : UInt16) : Bytes :=
  (n.header type len).write ++ payload.take len.toNat

/-- `Node::SendTo`: the datagram handed to `sendto`. -/
def sendTo (n : LanNode) (dest : Endpoint) (type : MessageType) (payload : Bytes) (len : UInt16) :
    Option Bytes :=
  if maxDatagram - wireHeaderSize < len.toNat then none
  else if !n.running || !dest.valid then none
  else some (n.frame type payload len)

/-- `Node::Broadcast`: the datagram handed to `sendto` for every target. -/
def broadcast (n : LanNode) (type : MessageType) (payload : Bytes) (len : UInt16) : Option Bytes :=
  if maxDatagram - wireHeaderSize < len.toNat then none
  else if !n.running then none
  else some (n.frame type payload len)

/-- `Node::ReceiveLoop` on a datagram from a host: what it passes to the handler. -/
def receive (n : LanNode) (ip : UInt32) (datagram : Bytes) :
    Option (Endpoint × WireHeader × Bytes) :=
  if datagram.length < wireHeaderSize then none
  else
    let header := WireHeader.read datagram
    if header.magic ≠ wireMagic ∨ header.version ≠ protocolVersion then none
    else if header.senderTag = n.senderTag then none
    else if datagram.length < wireHeaderSize + header.payloadLen.toNat then none
    else some (⟨ip, header.unicastPort⟩, header,
      (datagram.drop wireHeaderSize).take header.payloadLen.toNat)

/-- What another node's handler gets of a frame: the bytes the length counts. -/
theorem receive_frame {n n' : LanNode} (htag : n.senderTag ≠ n'.senderTag) (ip : UInt32)
    (type : MessageType) {payload : Bytes} {len : UInt16} (hlen : len.toNat ≤ payload.length) :
    n'.receive ip (n.frame type payload len) =
      some (⟨ip, n.unicastPort⟩, n.header type len, payload.take len.toNat) := by
  have hsize : (n.frame type payload len).length = wireHeaderSize + len.toNat := by
    simp [frame, hlen]
  have hread : WireHeader.read (n.frame type payload len) = n.header type len :=
    WireHeader.read_write _ _
  have hbody : (n.frame type payload len).drop wireHeaderSize = payload.take len.toNat := by
    rw [frame, List.drop_append_of_le_length (by simp),
      ← WireHeader.write_length (n.header type len), List.drop_length, List.nil_append]
  simp only [receive, hread, hbody]
  rw [if_neg (by omega), if_neg (by simp [header]),
    if_neg (show (n.header type len).senderTag ≠ _ from htag),
    if_neg (by simp only [header]; omega)]
  simp [header, List.take_take]

/-- A length below `2 ^ 16` survives the cast. -/
theorem size_toNat (data : Bytes) : (ByteWriter.size data).toNat = data.length % 2 ^ 16 :=
  UInt16.toNat_ofNat'

end LanNode

end EOSEmu
