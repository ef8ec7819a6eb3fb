import EOSEmu.Interfaces.Search
import EOSEmu.Lib.Standing
import EOSEmu.Lobby.Node

/-!
# Invites and joins through the overlay

The invite lists of `LobbyInterface` and `SessionsInterface` and the joins the user starts in the
overlay (`Lobby.cpp`, `Sessions.cpp`, `UI.cpp`). The two interfaces have the same functions, so
they are written once over the records they keep, with the prefix of the invite ids as a parameter.
A node takes its lobby and session sections in between, which leave the lists alone.
-/

namespace EOSEmu

open Lib

/-- The interface an invite or a join belongs to. -/
inductive SocialKind where
  | lobby
  | session
  deriving DecidableEq, Repr

/-- `InviteRec` of `Lobby.h` and `Sessions.h`; `subject` is `LobbyId` or `SessionId`. -/
structure InviteRec where
  inviteId : Bytes
  subject : Bytes
  fromProduct : Bytes
  deriving DecidableEq, Repr

/-- `Invites_`, `NextInvite_` and `UiEvents_`, with the records of one of the interfaces. -/
structure Invitations (ρ : Type) where
  invites : List InviteRec := []
  nextInvite : UInt64 := 1
  uiEvents : Dict UInt64 ρ := .empty

/-- The format of the invite ids, `"invite_%llu"` and `"sinvite_%llu"`; the buffer of 64 bytes
holds every number. -/
def SocialKind.inviteId (k : SocialKind) (n : UInt64) : Bytes :=
  match k with
  | .lobby => str "invite_" ++ decimal n
  | .session => str "sinvite_" ++ decimal n

namespace Invitations
variable {ρ : Type} (b : Invitations ρ)

/-- The invite a received datagram puts into the list. -/
def arriving (k : SocialKind) (subject fromPid : Bytes) : InviteRec :=
  { inviteId := k.inviteId b.nextInvite, subject, fromProduct := fromPid }

/-- The list after a received datagram. -/
def arrive (k : SocialKind) (subject fromPid : Bytes) : Invitations ρ :=
  { b with invites := b.invites ++ [b.arriving k subject fromPid], nextInvite := b.nextInvite + 1 }

/-- The loops that look an invite up by its id. -/
def find (inviteId : Bytes) : Option InviteRec :=
  b.invites.find? fun inv => inv.inviteId = inviteId

/-- The loops that erase the first invite of an id. -/
def eraseInvite (inviteId : Bytes) : Invitations ρ :=
  { b with invites := b.invites.eraseP fun inv => inv.inviteId = inviteId }

/-- `RejectInvite`; a null id is not found. -/
def rejectInvite (inviteId : Option Bytes) : EResult × Invitations ρ :=
  match inviteId with
  | none => (.notFound, b)
  | some id =>
      match b.find id with
      | none => (.notFound, b)
      | some _ => (.success, b.eraseInvite id)

/-- `CopyDetailsByUiEventId`. -/
def copyDetailsByUiEventId (uiEventId : UInt64) : EResult × Option ρ :=
  match b.uiEvents.get? uiEventId with
  | none => (.notFound, none)
  | some r => (.success, some r)

/-- The locked part of `BeginJoinFromOverlay`, with the number `NextUiEventId` handed out. -/
def beginJoin (uiEventId : UInt64) (r : ρ) : Invitations ρ :=
  { b with uiEvents := b.uiEvents.set uiEventId r }

/-- `AcknowledgeUiEvent`. -/
def acknowledgeUiEvent (uiEventId : UInt64) : Invitations ρ :=
  { b with uiEvents := b.uiEvents.erase uiEventId }

end Invitations

/-- `LobbyInviteView` and `SessionInviteView`. -/
abbrev InviteView := InviteRec

/-- `LobbyJoinableView` and `SessionJoinableView`. -/
structure JoinableView where
  subject : Bytes
  ownerPid : Bytes
  deriving DecidableEq, Repr

/-- `ParticipatingInId`. -/
def SessionsInterface.participatingInId (s : SessionsInterface) (sessionId : Bytes) : Bool :=
  s.localSessions.entries.any fun e => e.2.sessionId = sessionId

/-! ## A node -/

/-- The records of an interface. -/
def SocialKind.Record : SocialKind → Type
  | .lobby => LobbyRecord
  | .session => SessionRecord

/-- One node: its lobbies and sessions, the invites of the two interfaces, and the counter of
`NextUiEventId`, which all platforms of the process share. -/
structure SocialNode where
  lobby : LobbyNode
  sessions : SessionNode
  book : (k : SocialKind) → Invitations k.Record := fun _ => {}
  nextUiEventId : UInt64 := 1

/-- A notification of the invite lists and the overlay. -/
inductive SocialNote where
  | inviteReceived (k : SocialKind) (inviteId sender : Bytes)
  | inviteAccepted (k : SocialKind) (inviteId sender subject : Bytes)
  | inviteRejected (k : SocialKind) (inviteId sender subject : Bytes)
  | joinAccepted (k : SocialKind) (uiEventId : UInt64)
  deriving DecidableEq, Repr

/-- A locked section. -/
inductive SocialAction where
  /-- A section of the lobby interface that has nothing to do with invites. -/
  | lobby (a : LobbyAction)
  /-- Such a section of the session interface, on the game thread and on the receive thread. -/
  | session (a : SessionAction)
  | sessionDatagram (tick : UInt64) (source : Endpoint) (m : SessionMessage)
  /-- The `LobbyInvite` and `SessionInvite` branches of `OnDatagram`, on the strings read. -/
  | inviteDatagram (k : SocialKind) (subject fromPid toPid : Bytes)
  | rejectInvite (k : SocialKind) (inviteId : Option Bytes)
  | acceptInviteFromOverlay (k : SocialKind) (inviteId : Bytes)
  | rejectInviteFromOverlay (k : SocialKind) (inviteId : Bytes)
  | beginJoinFromOverlay (k : SocialKind) (subject : Bytes)
  /-- `UIInterface::AcknowledgeEventId`. -/
  | acknowledgeEventId (uiEventId : UInt64)
  /-- Another platform of the process takes a number. -/
  | otherPlatform

namespace SocialNode
variable (n : SocialNode)

/-- The node of a fresh platform. -/
def start (localPid : Bytes) (unicastPort : UInt16) : SocialNode :=
  { lobby := .start localPid, sessions := .start localPid unicastPort }

/-- `LocalPid` of the two interfaces. -/
def localPid : SocialKind → Bytes
  | .lobby => n.lobby.lobby.localPid
  | .session => n.sessions.sessions.localPid

/-- `Known_` of the two interfaces. -/
def known : (k : SocialKind) → Dict Bytes k.Record
  | .lobby => n.lobby.lobby.known
  | .session => n.sessions.sessions.known

/-- What hides an invite: the user is a member of the lobby, or takes part in the session. -/
def joinedAlready : SocialKind → Bytes → Bool
  | .lobby, subject => subject ∈ n.lobby.lobby.memberOf
  | .session, subject => n.sessions.sessions.participatingInId subject

/-- Replaces the invites of one interface. -/
def setBook (k : SocialKind) (b : Invitations k.Record) : SocialNode :=
  { n with book := Function.update n.book k b }

/-- `SnapshotInvites`: once the user has joined, the row drops out on its own. -/
def snapshotInvites (k : SocialKind) : List InviteView :=
  (n.book k).invites.filter fun inv => !n.joinedAlready k inv.subject

/-- `SnapshotJoinable`: the known lobbies and sessions with a free slot that the user has not
joined. -/
def snapshotJoinable : SocialKind → List JoinableView
  | .lobby => n.lobby.lobby.known.entries.filterMap fun e =>
      if e.2.lobbyId ∈ n.lobby.lobby.memberOf ∨ e.2.lobbyId ∈ n.lobby.lobby.owned ∨
        e.2.availableSlots = 0 then none
      else some ⟨e.2.lobbyId, e.2.ownerProductId⟩
  | .session => n.sessions.sessions.known.entries.filterMap fun e =>
      if n.sessions.sessions.participatingInId e.2.sessionId ∨ e.2.openSlots = 0 then none
      else some ⟨e.2.sessionId, e.2.ownerProductId⟩

/-- What a section leaves and posts; `none` when the game holds no such handle, or the walk of a
set is not one. -/
def outcome : SocialAction → Option (SocialNode × List SocialNote)
  | .lobby a => (n.lobby.step a).map fun lobby => ({ n with lobby }, [])
  | .session a => (n.sessions.outcome a).map fun o =>
    ({ n with sessions := n.sessions.after a o }, [])
  | .sessionDatagram tick source m =>
      some ({ n with
        sessions :=
          { n.sessions with sessions := n.sessions.sessions.onDatagram tick source m } }, [])
  | .inviteDatagram k subject fromPid toPid =>
      -- not for us
      if toPid ≠ n.localPid k then some (n, [])
      else some (n.setBook k ((n.book k).arrive k subject fromPid),
        [.inviteReceived k ((n.book k).arriving k subject fromPid).inviteId fromPid])
  | .rejectInvite k inviteId => some (n.setBook k ((n.book k).rejectInvite inviteId).2, [])
  | .acceptInviteFromOverlay k inviteId =>
      -- the invite stays in the list, so that the game's handler can resolve it
      some (n, match (n.book k).find inviteId with
        | none => []
        | some inv => [.inviteAccepted k inviteId inv.fromProduct inv.subject])
  | .rejectInviteFromOverlay k inviteId =>
      match (n.book k).find inviteId with
      | none => some (n, [])
      | some inv => some (n.setBook k ((n.book k).eraseInvite inviteId),
          [.inviteRejected k inviteId inv.fromProduct inv.subject])
  | .beginJoinFromOverlay k subject =>
      match (n.known k).get? subject with
      | none => some (n, [])
      | some r => some ({ n.setBook k ((n.book k).beginJoin n.nextUiEventId r) with
            nextUiEventId := n.nextUiEventId + 1 },
          [.joinAccepted k n.nextUiEventId])
  | .acknowledgeEventId uiEventId =>
      -- the event lives in exactly one interface; ask both
      some ({ n with book := fun k => (n.book k).acknowledgeUiEvent uiEventId }, [])
  | .otherPlatform => some ({ n with nextUiEventId := n.nextUiEventId + 1 }, [])

/-- One section. -/
def step (a : SocialAction) : Option SocialNode := (n.outcome a).map Prod.fst

/-- The notifications a section posts. -/
def posted (a : SocialAction) : List SocialNote := ((n.outcome a).map Prod.snd).getD []

end SocialNode

end EOSEmu
