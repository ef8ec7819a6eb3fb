import EOSEmu.Core.Transport
import EOSEmu.Net.Robust
import EOSEmu.Social.Pending

/-!
# Invites on the network

`SendInvite` of the lobbies and the sessions, and the custom invites (`CustomInvites.cpp`), from
the call down to the bytes of the datagram and up again to the handler of the receiver. All three
write three strings, and their handlers read them the same way. `letter_of_transmit`: what a
handler reads from a datagram is what was written into it, also where the transport cuts the
payload off.
-/

namespace EOSEmu

open Lib

/-! ## Custom invites -/

/-- `OutgoingPayload_` and `NextInvite_` of `CustomInvitesInterface`. -/
structure CustomInvites where
  outgoingPayload : Bytes := []
  nextInvite : UInt64 := 1

/-- What the game is told of a custom invite. -/
structure CustomInvite where
  customInviteId : Bytes
  sender : Bytes
  payload : Bytes
  deriving DecidableEq, Repr

namespace CustomInvites
variable (c : CustomInvites)

/-- `SetCustomInvite`. -/
def setCustomInvite : Option Bytes → EResult × CustomInvites
  | none => (.invalidParameters, c)
  | some payload => (.success, { c with outgoingPayload := payload })

/-- The locked part of `OnDatagram`: the invite of a received datagram takes the next number. -/
def arrive (sender payload : Bytes) : CustomInvites × CustomInvite :=
  ({ c with nextInvite := c.nextInvite + 1 },
    { customInviteId := str "custominvite_" ++ decimal c.nextInvite, sender, payload })

end CustomInvites

/-! ## The strings of a datagram -/

/-- An invite on the network. -/
inductive Letter where
  | native (k : SocialKind) (subject sender target : Bytes)
  | custom (sender target payload : Bytes)
  deriving DecidableEq, Repr

namespace Letter

/-- The message that carries it. -/
def outgoing : Letter → Outgoing
  | native .lobby subject sender target => .lobbyInvite subject sender target
  | native .session subject sender target => .sessionInvite subject sender target
  | custom sender target payload => .customInvite sender target payload

/-- Its three strings, in the order they are written. -/
def strings : Letter → Bytes × Bytes × Bytes
  | native _ subject sender target => (subject, sender, target)
  | custom sender target payload => (sender, target, payload)

/-- No string is longer than its length field can say. -/
def Short (x : Letter) : Prop :=
  x.strings.1.length < 2 ^ 32 ∧ x.strings.2.1.length < 2 ^ 32 ∧ x.strings.2.2.length < 2 ^ 32

instance : DecidablePred Short := fun _ => instDecidableAnd

/-- A payload is its three strings. -/
theorem payload_eq (x : Letter) : x.outgoing.payload =
    ByteWriter.str x.strings.1 ++ (ByteWriter.str x.strings.2.1 ++
      ByteWriter.str x.strings.2.2) := by
  cases x with
  | native k => cases k <;> exact List.append_assoc _ _ _
  | custom => exact List.append_assoc _ _ _

end Letter

/-- The letter in a message. -/
def Outgoing.letter : Outgoing → Option Letter
  | lobbyInvite lobbyId sender target => some (.native .lobby lobbyId sender target)
  | sessionInvite sessionId sender target => some (.native .session sessionId sender target)
  | customInvite sender target payload => some (.custom sender target payload)
  | hello _ | goodbye _ | p2p _ | lobby _ | session _ => none

/-- A letter is read from its own message only. -/
theorem Outgoing.letter_eq_some {o : Outgoing} {x : Letter} :
    o.letter = some x ↔ o = x.outgoing := by
  constructor
  · intro h
    cases o <;> cases h <;> rfl
  · rintro rfl
    cases x with
    | native k => cases k <;> rfl
    | custom => rfl

/-- Different letters are different messages. -/
theorem Letter.outgoing_inj {x y : Letter} (h : x.outgoing = y.outgoing) : x = y := by
  have hx := Outgoing.letter_eq_some.2 h
  rw [Outgoing.letter_eq_some.2 rfl] at hx
  exact Option.some_inj.1 hx

/-- The three strings a handler reads, and `Ok` behind them. -/
def readStrings : Reader (Bool × Bytes × Bytes × Bytes) := do
  let a ← ByteReader.str
  let b ← ByteReader.str
  let c ← ByteReader.str
  return (← ByteReader.isOk, a, b, c)

/-- What the handlers of the three types make of a payload; a payload that fails to parse is
dropped. -/
def readLetter (type : UInt16) (payload : Bytes) : Option Letter :=
  let r := (readStrings { data := payload }).1
  if r.1 = false then none
  else if type = MessageType.lobbyInvite.toNumber then some (.native .lobby r.2.1 r.2.2.1 r.2.2.2)
  else if type = MessageType.sessionInvite.toNumber then some
    (.native .session r.2.1 r.2.2.1 r.2.2.2)
  else if type = MessageType.customInvite.toNumber then some (.custom r.2.1 r.2.2.1 r.2.2.2)
  else none

/-- Three strings, and nothing else, are read back; a cut of them is not. -/
theorem frames_strings {a b c : Bytes} (ha : a.length < 2 ^ 32) (hb : b.length < 2 ^ 32)
    (hc : c.length < 2 ^ 32) :
    Frames readStrings (ByteWriter.str a ++ (ByteWriter.str b ++ ByteWriter.str c))
      (true, a, b, c) := by
  have hflag : Frames (do return (← ByteReader.isOk, a, b, c)) [] (true, a, b, c) :=
    (Frames.pure (true, a, b, c)).testOk (f := fun ok => Pure.pure (ok, a, b, c))
  have hthird : Frames (do let c ← ByteReader.str; return (← ByteReader.isOk, a, b, c))
    (ByteWriter.str c) (true, a, b, c) := by
    have h := (Frames.str hc).bind (f := fun c => do return (← ByteReader.isOk, a, b, c)) hflag
    rwa [List.append_nil] at h
  exact (Frames.str ha).bind ((Frames.str hb).bind hthird)

/-- The flag of the result is the reader's. -/
theorem readStrings_flag (r : ByteReader) : (readStrings r).1.1 = (readStrings r).2.ok := rfl

namespace Letter
variable {x y : Letter} {type : UInt16} {payload : Bytes}

/-- A letter is read under its own type. -/
theorem type_eq (h : readLetter type payload = some x) : type = x.outgoing.type.toNumber := by
  unfold readLetter at h
  dsimp only at h
  split at h
  · cases h
  · split at h
    · next ht => cases h; exact ht
    · split at h
      · next ht => cases h; exact ht
      · split at h
        · next ht => cases h; exact ht
        · cases h

/-- A letter is read from its payload. -/
theorem readLetter_payload (hx : x.Short) :
    readLetter x.outgoing.type.toNumber x.outgoing.payload = some x := by
  have hread := (frames_strings hx.1 hx.2.1 hx.2.2).decodes.whole
  rw [← x.payload_eq] at hread
  unfold readLetter
  rw [hread]
  cases x with
  | native k => cases k <;> rfl
  | custom => rfl

/-- It is not read from a cut. -/
theorem readLetter_cut (hx : x.Short) {cut : Bytes} (hcut : cut <+: x.outgoing.payload)
    (hne : cut ≠ x.outgoing.payload) : readLetter type cut = none := by
  rw [x.payload_eq] at hcut hne
  have hfail := (frames_strings hx.1 hx.2.1 hx.2.2).rejectsCuts.whole hcut hne
  rw [← readStrings_flag] at hfail
  unfold readLetter
  rw [if_pos hfail]

end Letter

/-- The numbers of the three types. -/
theorem Letter.type_mem (x : Letter) : x.outgoing.type.toNumber ∈ [25, 32, 40] := by
  cases x with
  | native k => cases k <;> simp [outgoing, Outgoing.type, MessageType.toNumber]
  | custom => simp [outgoing, Outgoing.type, MessageType.toNumber]

/-- A message under the type of a letter is a letter. -/
theorem Letter.of_type {x : Letter} {o : Outgoing}
    (h : o.type.toNumber = x.outgoing.type.toNumber) : ∃ y : Letter, o = y.outgoing := by
  have hnum := h ▸ x.type_mem
  cases o with
  | lobbyInvite subject sender target => exact ⟨.native .lobby subject sender target, rfl⟩
  | sessionInvite subject sender target => exact ⟨.native .session subject sender target, rfl⟩
  | customInvite sender target payload => exact ⟨.custom sender target payload, rfl⟩
  | hello | goodbye => exact absurd hnum (by simp [Outgoing.type, MessageType.toNumber])
  | p2p datagram =>
      obtain ⟨_, _, body⟩ := datagram
      cases body <;> exact absurd hnum
        (by simp [Outgoing.type, Datagram.type, MessageType.toNumber])
  | lobby message =>
      cases message <;> exact absurd hnum (by
        simp [Outgoing.type, LobbyMessage.type, MessageType.toNumber])
  | session message =>
      cases message <;> exact absurd hnum
        (by simp [Outgoing.type, SessionMessage.type, MessageType.toNumber])

/-- A node drops the datagrams that carry its own tag. -/
theorem LanNode.receive_own {n n' : LanNode} {o : Outgoing} {dest : Destination}
    {datagram : Bytes} (hsent : n.transmit o dest = some datagram)
    (htag : n.senderTag = n'.senderTag) (ip : UInt32) : n'.receive ip datagram = none := by
  obtain ⟨_, _, _, rfl⟩ := LanNode.transmit_eq_some.1 hsent
  have hread : WireHeader.read (n.frame o.type o.payload (ByteWriter.size o.payload)) =
      n.header o.type (ByteWriter.size o.payload) := WireHeader.read_write _ _
  have hlong : ¬ (n.frame o.type o.payload (ByteWriter.size o.payload)).length <
    wireHeaderSize := by simp [frame]
  rw [receive, if_neg hlong]
  dsimp only
  rw [hread, if_neg (by simp [header]),
    if_pos (show (n.header o.type _).senderTag = n'.senderTag from htag)]

/-- What the handler of a received datagram reads. -/
def LanNode.letter (n : LanNode) (ip : UInt32) (datagram : Bytes) : Option Letter :=
  (n.receive ip datagram).bind fun r => readLetter r.2.1.type r.2.2

/-- What a handler reads from a datagram is what was written into it. -/
theorem letter_of_transmit {n n' : LanNode} {o : Outgoing} {dest : Destination} {datagram : Bytes}
    {ip : UInt32} {x : Letter} (hsent : n.transmit o dest = some datagram)
    (hshort : ∀ y : Letter, o = y.outgoing → y.Short) (hx : n'.letter ip datagram = some x) :
    o = x.outgoing := by
  obtain ⟨⟨source, header, payload⟩, hreceived, hread⟩ := Option.bind_eq_some_iff.1 hx
  have htag : n.senderTag ≠ n'.senderTag := by
    intro heq
    rw [LanNode.receive_own hsent heq] at hreceived
    cases hreceived
  rw [LanNode.receive_transmit hsent htag ip] at hreceived
  cases hreceived
  obtain ⟨y, rfl⟩ := Letter.of_type (Letter.type_eq hread)
  have hy := hshort y rfl
  rcases eq_or_ne (y.outgoing.payload.take (y.outgoing.payload.length % 2 ^ 16))
    y.outgoing.payload with hall | hcut
  · rw [hall] at hread
    rw [show (n.header y.outgoing.type _).type = y.outgoing.type.toNumber from rfl,
      Letter.readLetter_payload hy] at hread
    cases hread
    rfl
  · cases hread.symm.trans (Letter.readLetter_cut hy (List.take_prefix _ _) hcut)

/-- A letter that fits into a datagram is read. -/
theorem letter_of_fits {n n' : LanNode} {y : Letter} {dest : Destination} {datagram : Bytes}
    {ip : UInt32} (hsent : n.transmit y.outgoing dest = some datagram)
    (htag : n.senderTag ≠ n'.senderTag) (hy : y.Short)
    (hfits : y.outgoing.payload.length < 2 ^ 16) : n'.letter ip datagram = some y := by
  rw [LanNode.letter, LanNode.receive_transmit hsent htag ip, Nat.mod_eq_of_lt hfits,
    List.take_length, Option.bind_some]
  exact Letter.readLetter_payload hy

/-! ## The calls -/

/-- One copy of the library: the invites it keeps, the custom invites the game was told of, and its
network node. -/
structure Party where
  social : SocialNode
  custom : CustomInvites := {}
  customReceived : List CustomInvite := []
  net : LanNode

/-- A message handed to the transport. -/
structure Mailing where
  net : LanNode
  message : Outgoing
  dest : Destination

/-- A call of the game thread. Where it looks a user up, it comes with what `EndpointFor`
answers. -/
inductive PartyCall where
  /-- A section of the lobbies, the sessions and the overlay. -/
  | social (a : SocialAction)
  | sendLobbyInvite (lobbyId target : Option Bytes) (dest : Endpoint)
  | sendSessionInvite (sessionName target : Option Bytes) (dest : Endpoint)
  | setCustomInvite (payload : Option Bytes)
  | sendCustomInvite (localUser : Bytes) (targets : List (Option (Bytes × Endpoint)))
  /-- Any other message of the library. -/
  | message (o : Outgoing) (dest : Destination)

namespace Party
variable (p : Party)

/-- The node of a fresh platform. -/
def start (localPid : Bytes) (net : LanNode) : Party :=
  { social := .start localPid net.unicastPort, net }

/-- `SendInvite` of the lobbies: its result and what it hands to the transport. -/
def sendLobbyInvite (lobbyId target : Option Bytes) (dest : Endpoint) :
    EResult × List (Letter × Endpoint) :=
  match lobbyId, target with
  | some lobbyId, some target =>
      (.success, if dest.valid then [(.native .lobby lobbyId (p.social.localPid .lobby) target,
        dest)] else [])
  | _, _ => (.invalidParameters, [])

/-- `SendInvite` of the sessions; it reads the id of the named session under the lock. -/
def sendSessionInvite (sessionName target : Option Bytes) (dest : Endpoint) :
    EResult × List (Letter × Endpoint) :=
  match sessionName, target with
  | some name, some target =>
      let sessionId := ((p.social.sessions.sessions.localSessions.get? name).map
        (·.sessionId)).getD []
      if sessionId = [] then (.notFound, [])
      else (.success,
        if dest.valid then [(.native .session sessionId (p.social.localPid .session) target, dest)]
          else [])
  | _, _ => (.invalidParameters, [])

/-- The invite of one target of `SendCustomInvite`; a null target and one without an endpoint get
none. -/
def customLetter (localUser : Bytes) : Option (Bytes × Endpoint) → Option (Letter × Endpoint)
  | none => none
  | some (target, dest) =>
      if dest.valid then some (.custom localUser target p.custom.outgoingPayload, dest) else none

/-- `SendCustomInvite`: the users its callback names, and what it hands to the transport. -/
def sendCustomInvite (localUser : Bytes) (targets : List (Option (Bytes × Endpoint))) :
    List Bytes × List (Letter × Endpoint) :=
  (targets.filterMap (·.map Prod.fst), targets.filterMap (p.customLetter localUser))

/-- The invites a call sends. -/
def letters : PartyCall → List (Letter × Endpoint)
  | .sendLobbyInvite lobbyId target dest => (p.sendLobbyInvite lobbyId target dest).2
  | .sendSessionInvite sessionName target dest => (p.sendSessionInvite sessionName target dest).2
  | .sendCustomInvite localUser targets => (p.sendCustomInvite localUser targets).2
  | .social _ | .setCustomInvite _ | .message _ _ => []

/-- What it hands to the transport. -/
def mail (y : Letter × Endpoint) : Mailing :=
  { net := p.net, message := y.1.outgoing, dest := .sendTo y.2 }

/-- The section that receives an invite. -/
def isArrival : SocialAction → Bool
  | .inviteDatagram .. => true
  | _ => false

/-- A section of the game thread; the invites are received on the receive thread, and sent by their
own calls only. -/
def call : PartyCall → Option (Section Party Mailing)
  | .social a =>
      if isArrival a then none else (p.social.step a).map fun social =>
        { node := { p with social } }
  | .setCustomInvite payload =>
    some { node := { p with custom := (p.custom.setCustomInvite payload).2 } }
  | .message o dest => if o.letter.isSome then none else some
    { node := p, later := [{ net := p.net, message := o, dest }] }
  | c => some { node := p, later := (p.letters c).map p.mail }

/-- The invite branches of the three `OnDatagram`. -/
def onLetter : Letter → Party
  | .native k subject sender target =>
      { p with social := (p.social.step (.inviteDatagram k subject sender target)).getD p.social }
  | .custom sender target payload =>
      -- not for us
      if target ≠ p.social.localPid .lobby then p
      else { p with
        custom := (p.custom.arrive sender payload).1
        customReceived := p.customReceived ++ [(p.custom.arrive sender payload).2] }

/-- A received datagram. -/
def receive (ip : UInt32) (datagram : Bytes) : Party :=
  match p.net.letter ip datagram with
  | none => p
  | some x => p.onLetter x

end Party

/-- Which nodes get what is sent to a destination. -/
abbrev Routing := Destination → Bytes → Bool

/-- A broadcast reaches all, and an endpoint the node that has it. -/
def routing (address : Bytes → Endpoint) : Routing
  | .broadcast, _ => true
  | .sendTo dest, i => dest = address i

/-- The network of the copies of the library, which are named by their product user ids. Endpoints
are learned and get out of date, so a datagram need not reach the user it was meant for. -/
def inviteProtocol (reaches : Routing) : Protocol Bytes PartyCall UInt32 Party Mailing Bytes where
  call := Party.call
  handle p ip _ datagram := { node := p.receive ip datagram }
  wire m i := if reaches m.dest i then m.net.transmit m.message m.dest else none

/-- A datagram of a mailing, at a node that it reaches. -/
theorem inviteProtocol_wire {reaches : Routing} {m : Mailing} {i : Bytes} {datagram : Bytes} :
    (inviteProtocol reaches).wire m i = some datagram ↔
      reaches m.dest i = true ∧ m.net.transmit m.message m.dest = some datagram :=
  Option.ite_none_right_eq_some

/-- The state of the network. -/
abbrev InviteWorld := World Bytes Party Mailing Bytes

/-- What happens next. -/
abbrev InviteEvent := NetAction Bytes PartyCall UInt32

/-- A transition of the network. -/
abbrev InviteTransition := Transition InviteWorld InviteEvent

/-- Fresh platforms with their network nodes. -/
def InviteWorld.start (net : Bytes → LanNode) : InviteWorld :=
  { nodes := fun i => .start i (net i) }

end EOSEmu
