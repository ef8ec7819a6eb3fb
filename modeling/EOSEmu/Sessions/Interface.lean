import EOSEmu.Sessions.Record
import EOSEmu.Interfaces.Attributes
import Mathlib.Data.Finset.Insert
import Mathlib.Data.Finset.Erase

/-!
# `SessionsInterface`

The state behind `SessionsInterface::Mutex_` and the operations that change it
(`interfaces/Sessions.cpp`). All datagrams are broadcasts. `locked` lists the ones a method makes
under the lock, `sends` the ones it makes after it. A received datagram is handled as the message
it is read as.
-/

namespace EOSEmu

open Lib

/-- The session messages that change what a node has discovered. -/
inductive SessionMessage where
  | announce (r : SessionRecord)
  | withdraw (sessionId : Bytes)
  deriving DecidableEq, Repr

/-! ## The state -/

/-- `SessionsInterface`: the local product id and unicast port, the sessions the game takes part in
by name, the names it owns, the discovered sessions by id, and the counter of `NewSessionId`. -/
structure SessionsInterface where
  localPid : Bytes
  unicastPort : UInt16
  localSessions : Dict Bytes SessionRecord := .empty
  owned : Finset Bytes := ∅
  known : Dict Bytes SessionRecord := .empty
  sessionCounter : UInt64 := 1

/-- What a method did. -/
structure SessionOutcome where
  result : EResult := .success
  state : SessionsInterface
  locked : List SessionMessage := []
  sends : List SessionMessage := []

/-- `EOS_OSS_InProgress` and `EOS_OSS_Ended`. -/
def sessionInProgress : SdkInt := 4
def sessionEnded : SdkInt := 6

/-- `NewSessionId`: `"session_%.8s_%llu_%llu"`. -/
def newSessionId (ownerPid : Bytes) (tick counter : UInt64) : Bytes :=
  str "session_" ++ (ownerPid.takeWhile (· ≠ 0)).take 8 ++ str "_" ++ decimal tick ++ str "_" ++
    decimal counter

/-- `BroadcastAnnounce`. -/
def sessionAnnounce (r : SessionRecord) : SessionMessage := .announce r

/-- The announce of a record that is advertised. -/
def announceIfPublic (r : SessionRecord) : List SessionMessage :=
  if r.permission = publicAdvertised then [sessionAnnounce r] else []

/-- Registers a player that is not there yet; a null id is skipped. -/
def registerPlayer (players : List Bytes) (pid : ProductUserId) : List Bytes :=
  if pid = [] ∨ pid ∈ players then players else players ++ [pid]

/-- Erases the first entry of a player; a null id is skipped. -/
def unregisterPlayer (players : List Bytes) (pid : ProductUserId) : List Bytes :=
  if pid = [] then players else players.erase pid

namespace SessionsInterface

/-- The interface of a fresh platform. -/
def start (localPid : Bytes) (unicastPort : UInt16) : SessionsInterface :=
  { localPid, unicastPort }

/-! ## The game's calls -/

/-- The record `UpdateSession` starts from for a creating handle. -/
def freshSession (s : SessionsInterface) (tick : UInt64) (m : SessionModificationObj) :
    SessionRecord :=
  let owner := if m.localUser = [] then s.localPid else m.localUser
  { sessionName := m.sessionName
    ownerProductId := owner
    sessionId := if m.sessionIdOverride = [] then newSessionId owner tick s.sessionCounter
      else m.sessionIdOverride
    bPresenceEnabled := m.bPresence
    bSanctionsEnabled := m.bSanctions
    state := sessionPending
    registeredPlayers := [owner] }

/-- The record `UpdateSession` stores: the handle applied, a host address that is never empty, a
new version. -/
def updated (s : SessionsInterface) (r : SessionRecord) (m : SessionModificationObj) :
    SessionRecord :=
  let r' := r.applyModification m
  { r' with
    hostAddress := if r'.hostAddress = [] then str "0.0.0.0:" ++
      decimal s.unicastPort.toUInt64 else r'.hostAddress
    version := r'.version + 1 }

/-- `UpdateSession` with a handle, at the platform's tick count. -/
def updateSession (s : SessionsInterface) (tick : UInt64) (m : SessionModificationObj) :
    SessionOutcome :=
  if m.bIsCreate then
    let r := s.updated (s.freshSession tick m) m
    { state :=
        { s with
          sessionCounter := if m.sessionIdOverride =
            [] then s.sessionCounter + 1 else s.sessionCounter
          localSessions := s.localSessions.set m.sessionName r
          owned := insert m.sessionName s.owned }
      sends := announceIfPublic r }
  else
    match s.localSessions.get? m.sessionName with
    | none => { result := .notFound, state := s }
    | some r =>
        let r' := s.updated r m
        { state := { s with localSessions := s.localSessions.set m.sessionName r' },
          sends := announceIfPublic r' }

/-- `DestroySession`. -/
def destroySession (s : SessionsInterface) (name : Bytes) : SessionOutcome :=
  match s.localSessions.get? name with
  | none => { result := .notFound, state := s }
  | some r =>
      { state := { s with localSessions := s.localSessions.erase name, owned := s.owned.erase name
        }
        -- withdraw the advertisement so searchers drop it
        locked := if name ∈ s.owned ∧ r.sessionId ≠ [] then [.withdraw r.sessionId] else [] }

/-- The record `JoinSession` stores for a details handle; a null user is not registered. -/
def joinedSession (name : Bytes) (details : SessionRecord) (localUserId : ProductUserId) :
    SessionRecord :=
  { details with
    sessionName := name
    registeredPlayers := registerPlayer details.registeredPlayers localUserId }

/-- `JoinSession`. -/
def joinSession (s : SessionsInterface) (name : Bytes) (details : SessionRecord)
    (localUserId : ProductUserId) : SessionOutcome :=
  -- we participate but do not own
  { state := { s with localSessions := s.localSessions.set name (joinedSession name details
      localUserId) } }

/-- A change of a local record with a new version, announced by its owner. -/
def rewriteSession (s : SessionsInterface) (name : Bytes) (f : SessionRecord → SessionRecord) :
    SessionOutcome :=
  match s.localSessions.get? name with
  | none => { result := .notFound, state := s }
  | some r =>
      let r' := { f r with version := r.version + 1 }
      { state := { s with localSessions := s.localSessions.set name r' }
        sends := if name ∈ s.owned then announceIfPublic r' else [] }

/-- `StartSession`. -/
def startSession (s : SessionsInterface) (name : Bytes) : SessionOutcome :=
  s.rewriteSession name fun r => { r with state := sessionInProgress }

/-- `EndSession`. -/
def endSession (s : SessionsInterface) (name : Bytes) : SessionOutcome :=
  s.rewriteSession name fun r => { r with state := sessionEnded }

/-- `RegisterPlayers`. -/
def registerPlayers (s : SessionsInterface) (name : Bytes) (players : List ProductUserId) :
    SessionOutcome :=
  s.rewriteSession name fun r =>
    { r with registeredPlayers := players.foldl registerPlayer r.registeredPlayers }

/-- `UnregisterPlayers`. -/
def unregisterPlayers (s : SessionsInterface) (name : Bytes) (players : List ProductUserId) :
    SessionOutcome :=
  s.rewriteSession name fun r =>
    { r with registeredPlayers := players.foldl unregisterPlayer r.registeredPlayers }

/-- `PeriodicAnnounce`, with the owned names in the order the set is walked. -/
def periodicAnnounce (s : SessionsInterface) (names : List Bytes) : SessionOutcome :=
  { state := s, sends := (names.filterMap s.localSessions.get?).flatMap announceIfPublic }

/-! ## Received datagrams -/

/-- The record of a received announce: an address without an IP becomes the source. -/
def discovered (r : SessionRecord) (tick : UInt64) (source : Endpoint) : SessionRecord :=
  { r with
    hostEndpoint := source
    lastSeenTick := tick
    hostAddress :=
      if r.hostAddress = [] ∨ (str "0.0.0.0:").isPrefixOf r.hostAddress then source.toText
        else r.hostAddress }

/-- `OnDatagram` behind its reads, at the platform's tick count. -/
def onDatagram (s : SessionsInterface) (tick : UInt64) (source : Endpoint) :
    SessionMessage → SessionsInterface
  | .announce r =>
      if r.sessionId =
        [] then s else { s with known := s.known.set r.sessionId (discovered r tick source) }
  | .withdraw sessionId => { s with known := s.known.erase sessionId }

end SessionsInterface

/-! ## Nodes -/

/-- A node: the interface and the records in the game's details handles. -/
structure SessionNode where
  sessions : SessionsInterface
  details : List SessionRecord := []

/-- A locked section of the game thread. -/
inductive SessionAction where
  | updateSession (tick : UInt64) (m : SessionModificationObj)
  | destroySession (name : Bytes)
  | joinSession (name : Bytes) (details : ℕ) (localUserId : ProductUserId)
  | startSession (name : Bytes)
  | endSession (name : Bytes)
  | registerPlayers (name : Bytes) (players : List ProductUserId)
  | unregisterPlayers (name : Bytes) (players : List ProductUserId)
  | periodicAnnounce (names : List Bytes)
  | copyKnown (sessionId : Bytes)
  | copyOwned (name : Bytes)

namespace SessionNode

/-- The node of a fresh platform. -/
def start (localPid : Bytes) (unicastPort : UInt16) : SessionNode :=
  { sessions := .start localPid unicastPort }

/-- What a section of the game thread did; `none` when the game holds no such handle, or the walk
of `Owned_` is not one. -/
def outcome (n : SessionNode) : SessionAction → Option SessionOutcome
  | .updateSession tick m => some (n.sessions.updateSession tick m)
  | .destroySession name => some (n.sessions.destroySession name)
  | .joinSession name i me => n.details[i]?.map fun d => n.sessions.joinSession name d me
  | .startSession name => some (n.sessions.startSession name)
  | .endSession name => some (n.sessions.endSession name)
  | .registerPlayers name players => some (n.sessions.registerPlayers name players)
  | .unregisterPlayers name players => some (n.sessions.unregisterPlayers name players)
  | .periodicAnnounce names =>
      if names.Nodup ∧ names.toFinset = n.sessions.owned then some
        (n.sessions.periodicAnnounce names) else none
  | .copyKnown _ | .copyOwned _ => some { state := n.sessions }

/-- The details handles after a section: a search, an invite or the overlay copies a discovered
record, a search the record of an owned name. -/
def held (n : SessionNode) : SessionAction → List SessionRecord
  | .copyKnown id => n.details ++ (n.sessions.known.get? id).toList
  | .copyOwned name => n.details ++ if name ∈
    n.sessions.owned then (n.sessions.localSessions.get? name).toList else []
  | _ => n.details

/-- The node after a section. -/
def after (n : SessionNode) (a : SessionAction) (o : SessionOutcome) : SessionNode :=
  { sessions := o.state, details := n.held a }

end SessionNode

end EOSEmu
