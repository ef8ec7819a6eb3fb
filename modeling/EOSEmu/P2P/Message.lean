import EOSEmu.P2P.State
import EOSEmu.Net.Serialize

/-!
# The bytes of a P2P datagram

`SendControl`, the payload `SendPacket` builds and the ack `OnDatagram` builds are `encode`; the
reads `OnDatagram` starts with are `decode`. `decode_encode` says that a datagram whose strings are
shorter than `2 ^ 32` bytes arrives as it was meant, or is dropped if its sender or its socket is
empty.
-/

namespace EOSEmu

/-- The message type a datagram is sent under. -/
def Datagram.type {N : Type} (d : Datagram N) : MessageType :=
  match d.body with
  | .connectRequest => .p2pConnectRequest
  | .connectIgnored => .p2pConnectIgnored
  | .connectAccept => .p2pConnectAccept
  | .connectClose => .p2pConnectClose
  | .data .. => .p2pData
  | .ack .. => .p2pAck

/-- The payload of a datagram. -/
def encode (d : Datagram UInt32) : Bytes :=
  ByteWriter.str d.sender ++ (ByteWriter.str d.socket ++
    match d.body with
    | .data channel mode seq bytes =>
        ByteWriter.u8 channel ++ (ByteWriter.u8 mode ++ (ByteWriter.u32 seq ++
          ByteWriter.bytes bytes))
    | .ack channel orderedByte ackSeq sack =>
        ByteWriter.u8 channel ++ (ByteWriter.u8 orderedByte ++ (ByteWriter.u32 ackSeq ++
          ByteWriter.u32 sack))
    | _ => [])

/-- The body of a `P2PData` payload. -/
def readData : Reader (Body UInt32) := do
  let channel ← ByteReader.u8
  let mode ← ByteReader.u8
  let wireSeq ← ByteReader.u32
  return .data channel mode wireSeq (← ByteReader.bytes)

/-- The body of a `P2PAck` payload. -/
def readAck : Reader (Body UInt32) := do
  let channel ← ByteReader.u8
  let orderedByte ← ByteReader.u8
  let wireAckSeq ← ByteReader.u32
  return .ack channel orderedByte wireAckSeq (← ByteReader.u32)

/-- The body that follows sender and socket, `none` for a type that is not P2P. -/
def readBody : MessageType → Reader (Option (Body UInt32))
  | .p2pConnectRequest => pure (some .connectRequest)
  | .p2pConnectIgnored => pure (some .connectIgnored)
  | .p2pConnectAccept => pure (some .connectAccept)
  | .p2pConnectClose => pure (some .connectClose)
  | .p2pData => do return some (← readData)
  | .p2pAck => do return some (← readAck)
  | _ => pure none

/-- The reads of a datagram. `OnDatagram` drops a datagram whose reads fail or whose sender or
socket is empty. -/
def readDatagram (type : MessageType) : Reader (Option (Datagram UInt32)) := do
  let sender ← ByteReader.str
  let socket ← ByteReader.str
  let body ← readBody type
  if ← ByteReader.isOk then
    return if sender = [] ∨ socket = [] then none else body.map fun b => ⟨sender, socket, b⟩
  else return none

/-- What `OnDatagram` makes of a payload. -/
def decode (type : MessageType) (payload : Bytes) : Option (Datagram UInt32) :=
  (readDatagram type ⟨payload, 0, true⟩).1

/-- The strings of a datagram are shorter than `2 ^ 32` bytes. -/
structure Datagram.Fits (d : Datagram UInt32) : Prop where
  sender : d.sender.length < 2 ^ 32
  socket : d.socket.length < 2 ^ 32
  bytes : ∀ channel mode seq bytes, d.body = .data channel mode seq bytes → bytes.length < 2 ^ 32

/-- A body reads back. -/
theorem decodes_readBody {d : Datagram UInt32} (hd : d.Fits) :
    ∃ bs, encode d = ByteWriter.str d.sender ++ (ByteWriter.str d.socket ++ bs) ∧
      Decodes (readBody d.type) bs (some d.body) := by
  refine ⟨_, rfl, ?_⟩
  obtain ⟨sender, socket, body⟩ := d
  cases body with
  | data channel mode seq bytes =>
      have hb : bytes.length < 2 ^ 32 := hd.bytes channel mode seq bytes rfl
      have h : Decodes readData _ _ :=
        Decodes.bind (Decodes.u8 channel) <| Decodes.bind (Decodes.u8 mode) <|
          Decodes.bind (Decodes.u32 seq) <|
            Decodes.map (g := fun b => Body.data channel mode seq b) (Decodes.bytes hb)
      exact Decodes.map (g := some) h
  | ack channel orderedByte ackSeq sack =>
      have h : Decodes readAck _ _ :=
        Decodes.bind (Decodes.u8 channel) <| Decodes.bind (Decodes.u8 orderedByte) <|
          Decodes.bind (Decodes.u32 ackSeq) <|
            Decodes.map (g := fun b => Body.ack channel orderedByte ackSeq b)
              (Decodes.u32 sack)
      exact Decodes.map (g := some) h
  | connectRequest | connectIgnored | connectAccept | connectClose => exact Decodes.pure _

/-- A datagram is read back as it was meant, or dropped. -/
theorem decode_encode {d : Datagram UInt32} (hd : d.Fits) :
    decode d.type (encode d) = if d.sender = [] ∨ d.socket = [] then none else some d := by
  obtain ⟨bs, henc, hbody⟩ := decodes_readBody hd
  have hread : Decodes (readDatagram d.type) (encode d)
      (if d.sender = [] ∨ d.socket = [] then none else some d) := by
    rw [henc, ← List.append_nil bs]
    refine Decodes.bind (Decodes.str hd.sender) ?_
    refine Decodes.bind (Decodes.str hd.socket) ?_
    refine Decodes.bind hbody ?_
    refine Decodes.testOk ?_
    simp only [if_true, Option.map_some]
    exact Decodes.pure _
  rw [decode, hread.whole]

end EOSEmu
