import EOSEmu.Lobby.Codec
import EOSEmu.Lobby.Modification
import Mathlib.Data.Finset.Insert
import Mathlib.Data.Finset.Erase

/-!
# `LobbyInterface`

The state behind `LobbyInterface::Mutex_` and the operations on it (`interfaces/Lobby.cpp`). Each
operation is the part its method runs under the lock; what the method sends and posts afterwards is
listed in the order of the calls, so that a run may place it later. A send names the message whose
payload its builder writes, a received datagram the message that was read (`LobbyDatagram.read`).
-/

namespace EOSEmu

open Lib

/-- `EOS_LMS_JOINED`, `EOS_LMS_LEFT`, `EOS_LMS_KICKED`, `EOS_LMS_PROMOTED` and `EOS_LMS_CLOSED`, as
the byte that travels. -/
def lmsJoined : UInt8 := 0
def lmsLeft : UInt8 := 1
def lmsKicked : UInt8 := 3
def lmsPromoted : UInt8 := 4
def lmsClosed : UInt8 := 5

/-- The lobby messages. -/
inductive LobbyMessage where
  | announce (r : LobbyRecord)
  | update (lobbyId memberPid : Bytes) (adds : AttrList) (removes : List Bytes)
  | joinRequest (lobbyId joinerPid : Bytes)
  | leave (lobbyId subjectPid : Bytes) (reason : UInt8)
  deriving DecidableEq, Repr

/-- A call of `Node::Broadcast` or `Node::SendTo`. -/
inductive LobbySend where
  | broadcast (m : LobbyMessage)
  | sendTo (dest : Endpoint) (m : LobbyMessage)
  deriving DecidableEq, Repr

/-- The lobby a message is about. -/
def LobbyMessage.lobbyId : LobbyMessage → Bytes
  | .announce r => r.lobbyId
  | .update id _ _ _ | .joinRequest id _ | .leave id _ _ => id

/-- The message of a send. -/
def LobbySend.message : LobbySend → LobbyMessage
  | .broadcast m | .sendTo _ m => m

/-- A notification the interface fans out. -/
inductive LobbyNote where
  | update (lobbyId : Bytes)
  | memberUpdate (lobbyId target : Bytes)
  | memberStatus (lobbyId target : Bytes) (status : UInt8)
  deriving DecidableEq, Repr

/-- `LobbyInterface`: the local product id, the records of all lobbies seen, the lobbies the node
belongs to and owns, and the counter of `NewLobbyId`. -/
structure LobbyInterface where
  localPid : Bytes
  known : Dict Bytes LobbyRecord := .empty
  memberOf : Finset Bytes := ∅
  owned : Finset Bytes := ∅
  lobbyCounter : UInt64 := 1

/-- What a method did: its result, the state it left, and its sends and notifications in order. -/
structure LobbyOutcome where
  result : EResult := .success
  state : LobbyInterface
  sends : List LobbySend := []
  notes : List LobbyNote := []

/-! ## Record helpers -/

/-- `==` on doubles: no NaN equals anything, the two zeros are equal. -/
def doubleEq (a b : UInt64) : Bool :=
  let isNaN (x : UInt64) : Bool := 0x7FF0000000000000 < x &&& 0x7FFFFFFFFFFFFFFF
  let isZero (x : UInt64) : Bool := x &&& 0x7FFFFFFFFFFFFFFF == 0
  !isNaN a && !isNaN b && (a == b || (isZero a && isZero b))

/-- `AttrEqual`. -/
def attrEqual (a b : AttrValue) : Bool :=
  a.type == b.type &&
    match a.type with
    | 0 => a.bool == b.bool
    | 1 => a.int == b.int
    | 2 => doubleEq a.dbl b.dbl
    | 3 => a.str == b.str
    | _ => false

/-- `MemberAttrsEqual`. -/
def memberAttrsEqual (a b : AttrList) : Bool :=
  a.length == b.length && a.all fun l =>
    match b.lookup l.1 with
    | none => false
    | some r => attrEqual l.2.value r.value && l.2.visibility == r.visibility

namespace LobbyRecord

/-- Removes the first member with the id. -/
def eraseMember (r : LobbyRecord) (pid : Bytes) : LobbyRecord :=
  { r with members := r.members.eraseP fun m => m.productId = pid }

/-- Adds a member without attributes. -/
def addMember (r : LobbyRecord) (pid : Bytes) : LobbyRecord :=
  { r with members := r.members ++ [{ productId := pid }] }

/-- A decoded record with the endpoint it came from and the tick it was seen at. -/
def received (r : LobbyRecord) (tick : UInt64) (source : Endpoint) : LobbyRecord :=
  { r with hostEndpoint := source, lastSeenTick := tick }

/-- `Version++`. -/
def bump (r : LobbyRecord) : LobbyRecord := { r with version := r.version + 1 }

end LobbyRecord

/-- `NewLobbyId`: `"lobby_%.8s_%llu_%llu"`. -/
def newLobbyId (ownerPid : Bytes) (tick counter : UInt64) : Bytes :=
  str "lobby_" ++ (ownerPid.takeWhile (· ≠ 0)).take 8 ++ str "_" ++ decimal tick ++ str "_" ++
    decimal counter

/-! ## The game's calls -/

/-- `EOS_LOBBY_CREATELOBBY_API_LATEST`. -/
def createLobbyApiLatest : Int := 10

/-- `EOS_Lobby_CreateLobbyOptions`, the fields that are read. -/
structure CreateLobbyOptions where
  apiVersion : Int
  localUserId : ProductUserId
  maxLobbyMembers : UInt32
  permissionLevel : SdkInt
  bPresenceEnabled : SdkInt := eosFalse
  bAllowInvites : SdkInt := eosTrue
  bucketId : Option Bytes := none
  bDisableHostMigration : SdkInt := eosFalse
  bEnableRTCRoom : SdkInt := eosFalse
  deriving DecidableEq, Repr

/-- The record `CreateLobby` builds before it takes the lock. -/
def CreateLobbyOptions.record (o : CreateLobbyOptions) : LobbyRecord :=
  let v := o.apiVersion
  { ownerProductId := o.localUserId
    maxMembers := o.maxLobbyMembers
    permission := o.permissionLevel
    bAllowInvites := if hasField v 2 then o.bAllowInvites else eosTrue
    bPresenceEnabled := if hasField v 2 then o.bPresenceEnabled else eosFalse
    bAllowHostMigration := if hasField v 4 && o.bDisableHostMigration ≠
      0 then eosFalse else eosTrue
    bRTCRoomEnabled := if hasField v 5 then o.bEnableRTCRoom else eosFalse
    bucketId := if hasField v 3 then o.bucketId.getD [] else []
    version := 1
    members := [{ productId := o.localUserId }] }

/-- `HasLobbyScope` of `UpdateLobby`: the handle changes more than member attributes. -/
def LobbyModificationObj.hasLobbyScope (m : LobbyModificationObj) : Bool :=
  m.bSetBucket || m.bSetPerm || m.bSetMax || m.bSetInvites || m.bSetPlatforms ||
    !m.addAttrs.isEmpty || !m.removeAttrs.isEmpty

namespace LobbyInterface

/-- The interface of a fresh platform. -/
def start (localPid : Bytes) : LobbyInterface := { localPid }

/-- `BroadcastAnnounce`. -/
def broadcastAnnounce (r : LobbyRecord) : LobbySend := .broadcast (.announce r)

/-- `CreateLobby`, at the platform's tick count. -/
def createLobby (s : LobbyInterface) (tick : UInt64) (o : CreateLobbyOptions) : LobbyOutcome :=
  if o.localUserId = [] then { result := .invalidParameters, state := s }
  else if !versionInRange o.apiVersion
    createLobbyApiLatest then { result := .incompatibleVersion, state := s }
  else
    let id := newLobbyId o.localUserId tick s.lobbyCounter
    let r := { o.record with lobbyId := id }
    { state :=
        { s with
          lobbyCounter := s.lobbyCounter + 1
          known := s.known.set id r
          memberOf := insert id s.memberOf
          owned := insert id s.owned }
      sends := [broadcastAnnounce r] }

/-- `UpdateLobby` with a handle. -/
def updateLobby (s : LobbyInterface) (m : LobbyModificationObj) : LobbyOutcome :=
  match s.known.get? m.lobbyId with
  | none => { result := .notFound, state := s }
  | some r =>
      if m.lobbyId ∈ s.owned then
        let r' := (applyModification r m).bump
        { state := { s with known := s.known.set m.lobbyId r' }, sends := [broadcastAnnounce r'] }
      else if m.hasLobbyScope then { result := .lobbyNotOwner, state := s }
      else if m.lobbyId ∈ s.memberOf then
        -- a member changes its own attributes at once and asks the owner to merge them
        let r' := { r with
          members := modifyMember m.localUser
            (fun me => applyMemberAttrs me m.addMemberAttrs m.removeMemberAttrs) r.members }
        { state := { s with known := s.known.set m.lobbyId r' }
          sends := if r.hostEndpoint.valid then
            [.sendTo r.hostEndpoint
              (.update m.lobbyId m.localUser m.addMemberAttrs m.removeMemberAttrs)]
          else [] }
      else { result := .notFound, state := s }

/-- `DestroyLobby`. -/
def destroyLobby (s : LobbyInterface) (lobbyId : Bytes) : LobbyOutcome :=
  if lobbyId ∈ s.owned then
    { state :=
        { s with
          known := s.known.erase lobbyId
          memberOf := s.memberOf.erase lobbyId
          owned := s.owned.erase lobbyId }
      sends := [.broadcast (.leave lobbyId s.localPid lmsClosed)] }
  else { result := .notFound, state := s }

/-- The join request, sent to a host that is known. -/
def requestJoin (s : LobbyInterface) (host : Endpoint) (lobbyId : Bytes) : List LobbySend :=
  if host.valid then [.sendTo host (.joinRequest lobbyId s.localPid)] else []

/-- `JoinLobby` with the record of a details handle. -/
def joinLobby (s : LobbyInterface) (details : LobbyRecord) (localUserId : ProductUserId) :
    LobbyOutcome :=
  if localUserId = [] then { result := .invalidParameters, state := s }
  else
    let lobbyId := details.lobbyId
    let cached := (s.known.get? lobbyId).getD {}
    let stored := if cached.lobbyId = [] then details else cached
    let stored := if (stored.findMember localUserId).isNone then stored.addMember localUserId
      else stored
    { state := { s with known := s.known.set lobbyId stored, memberOf := insert lobbyId s.memberOf
      }
      sends := s.requestJoin details.hostEndpoint lobbyId }

/-- `JoinLobbyById`. -/
def joinLobbyById (s : LobbyInterface) (lobbyId : Bytes) (localUserId : ProductUserId) :
    LobbyOutcome :=
  if localUserId = [] then { result := .notFound, state := s }
  else
    match s.known.get? lobbyId with
    | none => { result := .notFound, state := s }
    | some r =>
        let r' := if (r.findMember localUserId).isNone then r.addMember localUserId else r
        { state := { s with known := s.known.set lobbyId r', memberOf := insert lobbyId s.memberOf
          }
          sends := s.requestJoin r.hostEndpoint lobbyId }

/-- `LeaveLobby`. -/
def leaveLobby (s : LobbyInterface) (lobbyId : Bytes) (localUserId : ProductUserId) :
    LobbyOutcome :=
  if localUserId = [] then { result := .notFound, state := s }
  else
    match s.known.get? lobbyId with
    | none => { result := .notFound, state := s }
    | some r =>
        if lobbyId ∈ s.memberOf then
          let r' := r.eraseMember localUserId
          let left := { s with memberOf := s.memberOf.erase lobbyId, owned := s.owned.erase lobbyId
            }
          let goodbye := LobbySend.broadcast (.leave lobbyId localUserId lmsLeft)
          match r'.members with
          | next :: _ =>
              if lobbyId ∈ s.owned ∧ r'.bAllowHostMigration ≠ 0 then
                -- host migration: the next member becomes the owner, and this node announces it
                -- once
                let reassigned := { r' with ownerProductId := next.productId }.bump
                { state := { left with known := s.known.set lobbyId reassigned }
                  sends := [goodbye, broadcastAnnounce reassigned] }
              else { state := { left with known := s.known.erase lobbyId }, sends := [goodbye] }
          | [] => { state := { left with known := s.known.erase lobbyId }, sends := [goodbye] }
        else { result := .notFound, state := s }

/-- `PromoteMember`; a null target is the empty id. -/
def promoteMember (s : LobbyInterface) (lobbyId : Bytes) (target : ProductUserId) : LobbyOutcome :=
  if target = [] then { result := .notFound, state := s }
  else
    match s.known.get? lobbyId with
    | none => { result := .notFound, state := s }
    | some r =>
        if lobbyId ∈ s.owned ∧ (r.findMember target).isSome then
          let r' := { r with ownerProductId := target }.bump
          { state := { s with known := s.known.set lobbyId r', owned := s.owned.erase lobbyId }
            sends := [broadcastAnnounce r'] }
        else { result := .notFound, state := s }

/-- `KickMember`; a null target is the empty id. -/
def kickMember (s : LobbyInterface) (lobbyId : Bytes) (target : ProductUserId) : LobbyOutcome :=
  if target = [] then { result := .notFound, state := s }
  else
    match s.known.get? lobbyId with
    | none => { result := .notFound, state := s }
    | some r =>
        if lobbyId ∈ s.owned then
          let r' := (r.eraseMember target).bump
          { state := { s with known := s.known.set lobbyId r' }
            sends := [.broadcast (.leave lobbyId target lmsKicked), broadcastAnnounce r'] }
        else { result := .notFound, state := s }

/-- `PeriodicAnnounce`, with the owned ids in the order the set is walked. -/
def periodicAnnounce (s : LobbyInterface) (ids : List Bytes) : LobbyOutcome :=
  { state := s, sends := (ids.filterMap s.known.get?).map broadcastAnnounce }

/-- `CopyLobbyDetailsHandle` and the other ways to a details handle: a copy of a cached record. -/
def copyDetails (s : LobbyInterface) (lobbyId : Bytes) : Option LobbyRecord := s.known.get? lobbyId

/-! ## Received datagrams -/

/-- What a member's game is told about an announce that replaces `old`. -/
def announceNotes (old fresh : LobbyRecord) : List LobbyNote :=
  (if fresh.version ≠ old.version then [.update fresh.lobbyId] else []) ++
  (fresh.members.filter fun m => (old.findMember m.productId).isNone).map
    (fun m => .memberStatus fresh.lobbyId m.productId lmsJoined) ++
  (old.members.filter fun m => (fresh.findMember m.productId).isNone).map
    (fun m => .memberStatus fresh.lobbyId m.productId lmsLeft) ++
  (fresh.members.filter fun m =>
    match old.findMember m.productId with
    | some oldM => !memberAttrsEqual oldM.attributes m.attributes
    | none => false).map (fun m => .memberUpdate fresh.lobbyId m.productId) ++
  (if old.ownerProductId ≠ fresh.ownerProductId ∧ fresh.ownerProductId ≠ [] then
    [.memberStatus fresh.lobbyId fresh.ownerProductId lmsPromoted] else [])

/-- `OnDatagram`, `LobbyAnnounce`, at the platform's tick count. -/
def onAnnounce (s : LobbyInterface) (tick : UInt64) (source : Endpoint) (fresh : LobbyRecord) :
    LobbyOutcome :=
  if fresh.lobbyId = [] then { state := s }
  -- the owner is the authority
  else if fresh.lobbyId ∈ s.owned then { state := s }
  else
    { state :=
        { s with
          known := s.known.set fresh.lobbyId (fresh.received tick source)
          owned :=
            if fresh.lobbyId ∈ s.memberOf ∧ fresh.ownerProductId =
              s.localPid then insert fresh.lobbyId s.owned
            else s.owned }
      notes :=
        if fresh.lobbyId ∈ s.memberOf then
          match s.known.get? fresh.lobbyId with
          | some old => announceNotes old fresh
          | none => []
        else [] }

/-- `OnDatagram`, `LobbyUpdate`. -/
def onUpdate (s : LobbyInterface) (lobbyId memberPid : Bytes) (adds : AttrList)
    (removes : List Bytes) : LobbyOutcome :=
  match s.known.get? lobbyId with
  | none => { state := s }
  | some r =>
      if lobbyId ∈ s.owned ∧ (r.findMember memberPid).isSome then
        let r' := { r with
          members := modifyMember memberPid (fun m => applyMemberAttrs m adds removes) r.members
            }.bump
        { state := { s with known := s.known.set lobbyId r' }
          sends := [broadcastAnnounce r']
          notes := [.memberUpdate lobbyId memberPid] }
      else { state := s }

/-- `OnDatagram`, `LobbyJoinRequest`. -/
def onJoinRequest (s : LobbyInterface) (lobbyId joinerPid : Bytes) : LobbyOutcome :=
  match s.known.get? lobbyId with
  | none => { state := s }
  | some r =>
      if lobbyId ∈ s.owned ∧ (r.findMember joinerPid).isNone ∧ 0 < r.availableSlots then
        let r' := (r.addMember joinerPid).bump
        { state := { s with known := s.known.set lobbyId r' }
          sends := [broadcastAnnounce r']
          notes := [.memberStatus lobbyId joinerPid lmsJoined] }
      else { state := s }

/-- `OnDatagram`, `LobbyLeave`. -/
def onLeave (s : LobbyInterface) (lobbyId subjectPid : Bytes) (reason : UInt8) : LobbyOutcome :=
  match s.known.get? lobbyId with
  | none => { state := s }
  | some r =>
      let notes := if lobbyId ∈ s.memberOf then [LobbyNote.memberStatus lobbyId subjectPid reason]
        else []
      if reason = lmsClosed then
        { state :=
            { s with
              known := s.known.erase lobbyId
              memberOf := s.memberOf.erase lobbyId
              owned := s.owned.erase lobbyId }
          notes }
      else
        let r' := if lobbyId ∈ s.owned then (r.eraseMember subjectPid).bump else r.eraseMember
          subjectPid
        { state :=
            { s with
              known := s.known.set lobbyId r'
              memberOf := if subjectPid = s.localPid then s.memberOf.erase lobbyId else s.memberOf
                }
          sends := if lobbyId ∈ s.owned then [broadcastAnnounce r'] else []
          notes }

/-- `OnDatagram`. -/
def onDatagram (s : LobbyInterface) (tick : UInt64) (source : Endpoint) :
    LobbyMessage → LobbyOutcome
  | .announce r => s.onAnnounce tick source r
  | .update lobbyId memberPid adds removes => s.onUpdate lobbyId memberPid adds removes
  | .joinRequest lobbyId joinerPid => s.onJoinRequest lobbyId joinerPid
  | .leave lobbyId subjectPid reason => s.onLeave lobbyId subjectPid reason

end LobbyInterface

end EOSEmu
