import Mathlib.Algebra.Ring.Nat
import EOSEmu.Sdk

/-!
# Endpoints and message types of the LAN transport

`net/Wire.h` and the addressing part of `net/Lan.h`.
-/

namespace EOSEmu

/-- `net::Endpoint`: an IPv4 host and port, in host byte order. -/
structure Endpoint where
  ip : UInt32 := 0
  port : UInt16 := 0
  deriving DecidableEq, Repr, Inhabited

/-- `Endpoint::Valid`. -/
def Endpoint.valid (e : Endpoint) : Bool := e.ip ≠ 0 && e.port ≠ 0

/-- `Endpoint::ToString`, the four octets and the port in decimal. -/
def Endpoint.toText (e : Endpoint) : Bytes :=
  let octet (shift : UInt32) : Bytes := decimal ((e.ip >>> shift) &&& 0xFF).toUInt64
  octet 24 ++ str "." ++ octet 16 ++ str "." ++ octet 8 ++ str "." ++ octet 0 ++ str ":" ++
    decimal e.port.toUInt64

/-- The default endpoint is not valid. -/
@[simp] theorem Endpoint.valid_default : Endpoint.valid {} = false := rfl

/-- Two machines on a network. -/
def sampleEndpoints (pid : Bytes) : Endpoint :=
  if pid = str "a" then ⟨0x0A000001, 7001⟩ else ⟨0x0A000002, 7002⟩

/-- `kMaxDatagram`. -/
def maxDatagram : ℕ := 16384

/-- `sizeof(WireHeader)`. -/
def wireHeaderSize : ℕ := 16

/-- `Node::SendTo` and `Node::Broadcast` drop a payload that does not fit into a datagram. One of
`2 ^ 16` bytes or more, whose length `ByteWriter::Size` cuts to 16 bits, goes out without its end if
that length fits. It counts as dropped: the decoders refuse a cut encoding (`decoders_robust`). -/
def fits (payload : Bytes) : Bool := payload.length ≤ maxDatagram - wireHeaderSize

/-- A payload that fits into a datagram is shorter than what a length field counts. -/
theorem length_of_fits {payload : Bytes} (h : fits payload = true) : payload.length < 2 ^ 32 := by
  have hle : payload.length ≤ maxDatagram - wireHeaderSize := of_decide_eq_true h
  simp only [maxDatagram, wireHeaderSize] at hle
  omega

/-- `net::MessageType`. -/
inductive MessageType where
  | hello
  | goodbye
  | p2pData
  | p2pConnectRequest
  | p2pConnectAccept
  | p2pConnectClose
  | p2pAck
  | p2pConnectIgnored
  | lobbyAnnounce
  | lobbyUpdate
  | lobbyJoinRequest
  | lobbyJoinResponse
  | lobbyLeave
  | lobbyInvite
  | sessionAnnounce
  | sessionWithdraw
  | sessionInvite
  | customInvite
  deriving DecidableEq, Repr

end EOSEmu
