import EOSEmu.Net.Lan
import EOSEmu.Core.Hello
import EOSEmu.P2P.Message
import EOSEmu.Lobby.World
import EOSEmu.Sessions.Datagram

/-!
# What a payload becomes on the network

Every message builder of the library and the call it hands its payload to: `Broadcast` or `SendTo`,
with the length cast to `uint16_t` by `ByteWriter::Size`, or at the call site in `UpdateLobby`.
`carriedWhole_iff` says which payloads arrive whole or not at all.
-/

namespace EOSEmu

/-- A message and what its builder writes. -/
inductive Outgoing where
  | hello (source : HelloSource)
  | goodbye (productUserId : Bytes)
  | p2p (datagram : Datagram UInt32)
  | lobby (message : LobbyMessage)
  | lobbyInvite (lobbyId sender target : Bytes)
  | session (message : SessionMessage)
  | sessionInvite (sessionId sender target : Bytes)
  | customInvite (sender target payload : Bytes)

namespace Outgoing

/-- The type it is sent under. -/
def type : Outgoing → MessageType
  | hello _ => .hello
  | goodbye _ => .goodbye
  | p2p datagram => datagram.type
  | lobby message => message.type
  | lobbyInvite .. => .lobbyInvite
  | session message => message.type
  | sessionInvite .. => .sessionInvite
  | customInvite .. => .customInvite

/-- The bytes in the `ByteWriter`. -/
def payload : Outgoing → Bytes
  | hello source => helloPayload source
  | goodbye productUserId => ByteWriter.str productUserId
  | p2p datagram => encode datagram
  | lobby message => message.payload
  | lobbyInvite lobbyId sender target => ByteWriter.str lobbyId ++ ByteWriter.str sender ++
    ByteWriter.str target
  | session message => message.payload
  | sessionInvite sessionId sender target => ByteWriter.str sessionId ++ ByteWriter.str sender ++
    ByteWriter.str target
  | customInvite sender target payload => ByteWriter.str sender ++ ByteWriter.str target ++
    ByteWriter.str payload

end Outgoing

/-- Which call a payload is handed to. -/
inductive Destination where
  | broadcast
  | sendTo (dest : Endpoint)
  deriving DecidableEq, Repr

/-- A unicast needs a valid endpoint. -/
def Destination.valid : Destination → Bool
  | broadcast => true
  | sendTo dest => dest.valid

/-- The datagram that leaves the host. -/
def LanNode.transmit (n : LanNode) (o : Outgoing) : Destination → Option Bytes
  | .broadcast => n.broadcast o.type o.payload (ByteWriter.size o.payload)
  | .sendTo dest => n.sendTo dest o.type o.payload (ByteWriter.size o.payload)

/-- Nothing leaves the host, or the handler of every other node gets the bytes the builder
wrote. -/
def LanNode.CarriedWhole (n : LanNode) (o : Outgoing) (dest : Destination) : Prop :=
  ∀ datagram, n.transmit o dest = some datagram → ∀ (n' : LanNode) (ip : UInt32), n.senderTag ≠
    n'.senderTag → ∃ header, n'.receive ip datagram = some (⟨ip, n.unicastPort⟩, header, o.payload)

namespace LanNode
variable {n : LanNode} {o : Outgoing} {dest : Destination}

/-- The guard sees the length modulo `2 ^ 16`. -/
theorem transmit_eq_some {datagram : Bytes} : n.transmit o dest = some datagram ↔
    o.payload.length % 2 ^ 16 ≤ maxDatagram - wireHeaderSize ∧ n.running ∧ dest.valid ∧
      n.frame o.type o.payload (ByteWriter.size o.payload) = datagram := by
  cases dest <;> simp [transmit, broadcast, sendTo, Destination.valid, size_toNat, and_assoc]

/-- A receiver gets as many bytes as the low 16 bits of the length say. -/
theorem receive_transmit {datagram : Bytes} (h : n.transmit o dest = some datagram) {n' : LanNode}
    (htag : n.senderTag ≠ n'.senderTag) (ip : UInt32) :
    n'.receive ip datagram = some (⟨ip, n.unicastPort⟩,
      n.header o.type (ByteWriter.size o.payload), o.payload.take (o.payload.length % 2 ^ 16)) := by
  obtain ⟨_, _, _, rfl⟩ := transmit_eq_some.1 h
  have hle : (ByteWriter.size o.payload).toNat ≤ o.payload.length := by
    rw [size_toNat]
    exact Nat.mod_le _ _
  rw [receive_frame htag ip o.type hle, size_toNat]

/-- A payload of `2 ^ 16` bytes or more that gets past the guard arrives without its end. -/
theorem not_carriedWhole_of_wrap (hrunning : n.running = true) (hvalid : dest.valid = true)
    (hguard : o.payload.length % 2 ^ 16 ≤ maxDatagram - wireHeaderSize)
    (hlen : 2 ^ 16 ≤ o.payload.length) : ¬ n.CarriedWhole o dest := by
  intro h
  have hsent := transmit_eq_some.2 ⟨hguard, hrunning, hvalid, rfl⟩
  have htag : n.senderTag ≠ n.senderTag + 1 := by simp
  obtain ⟨header, hreceive⟩ := h _ hsent { n with senderTag := n.senderTag + 1 } 1 htag
  rw [receive_transmit hsent htag] at hreceive
  have htake : o.payload.take (o.payload.length % 2 ^ 16) = o.payload := by
    simp only [Option.some.injEq, Prod.mk.injEq] at hreceive
    exact hreceive.2.2
  have hshort := congrArg List.length htake
  rw [List.length_take] at hshort
  omega

end LanNode

/-- **Whole payloads.** What a builder hands to the transport is carried whole or not sent exactly
if the node is stopped, the destination is invalid, the length fits into 16 bits, or its low 16
bits are over the size of a datagram. -/
theorem carriedWhole_iff (n : LanNode) (o : Outgoing) (dest : Destination) :
    n.CarriedWhole o dest ↔ n.running = false ∨ dest.valid = false ∨ o.payload.length < 2 ^ 16 ∨
      maxDatagram - wireHeaderSize < o.payload.length % 2 ^ 16 := by
  constructor
  · intro h
    by_contra hnot
    simp only [not_or, Bool.not_eq_false, not_lt] at hnot
    obtain ⟨hrunning, hvalid, hlen, hguard⟩ := hnot
    exact LanNode.not_carriedWhole_of_wrap hrunning hvalid hguard hlen h
  · rintro (hstopped | hinvalid | hlen | hguard) datagram hsent n' ip htag
    · simp [LanNode.transmit_eq_some, hstopped] at hsent
    · simp [LanNode.transmit_eq_some, hinvalid] at hsent
    · have hreceive := LanNode.receive_transmit hsent htag ip
      rw [Nat.mod_eq_of_lt hlen, List.take_length] at hreceive
      exact ⟨_, hreceive⟩
    · have := (LanNode.transmit_eq_some.1 hsent).1
      omega

/-- A user whose rich text is long. -/
def richHello (n : ℕ) : HelloSource :=
  { productUserId := str "a"
    epicAccountId := str "e"
    displayName := str "A"
    presence := { richText := List.replicate n 1 }
    productId := []
    productVersion := []
    productName := [] }

/-- The length of a Hello with a long rich text. -/
theorem richHello_length (n : ℕ) : (helloPayload (richHello n)).length = n + 40 := by
  have hplain : (helloPayload (richHello n).plain).length = 40 := rfl
  rw [helloPayload_length, hplain]
  simp [richHello]

/-- A Hello with a rich text of `2 ^ 16` bytes leaves as a datagram with forty bytes of it. -/
theorem not_carriedWhole : ¬ ∀ n o dest, LanNode.CarriedWhole n o dest := by
  intro h
  have hlong : ∀ n, ∃ source, (helloPayload source).length = n + 40 := fun n =>
    ⟨richHello n, richHello_length n⟩
  obtain ⟨source, hlen⟩ := hlong 65536
  refine LanNode.not_carriedWhole_of_wrap rfl rfl ?_ ?_
    (h ⟨true, 1, 7001⟩ (.hello source) .broadcast)
  · simp [Outgoing.payload, hlen, maxDatagram, wireHeaderSize]
  · simp [Outgoing.payload, hlen]

end EOSEmu
