import EOSEmu.Lobby.Interface
import EOSEmu.Lib.Trace

/-!
# One node's lobby steps

A node is its `LobbyInterface` and the details handles the game holds. `LobbyNode.step` is one
locked section of the game thread or the receive thread. Each one touches the entry of a single
lobby id in the three containers, so the steps are described by what they do to the view of an id
(`ViewChange`, `step_view`); every invariant of the node is derived from that.
-/

namespace EOSEmu

open Lib

/-- A node: the interface and the records in the game's details handles. -/
structure LobbyNode where
  lobby : LobbyInterface
  details : List LobbyRecord := []

/-- A locked section. -/
inductive LobbyAction where
  | createLobby (tick : UInt64) (o : CreateLobbyOptions)
  | updateLobby (m : LobbyModificationObj)
  | destroyLobby (lobbyId : Bytes)
  | copyDetails (lobbyId : Bytes)
  | joinLobby (details : ℕ) (localUserId : ProductUserId)
  | joinLobbyById (lobbyId : Bytes) (localUserId : ProductUserId)
  | leaveLobby (lobbyId : Bytes) (localUserId : ProductUserId)
  | promoteMember (lobbyId : Bytes) (target : ProductUserId)
  | kickMember (lobbyId : Bytes) (target : ProductUserId)
  | periodicAnnounce (ids : List Bytes)
  | datagram (tick : UInt64) (source : Endpoint) (m : LobbyMessage)

/-- A section of the receive thread. -/
def LobbyAction.isDatagram : LobbyAction → Bool
  | .datagram _ _ _ => true
  | _ => false

namespace LobbyNode

/-- The node of a fresh platform. -/
def start (localPid : Bytes) : LobbyNode := { lobby := .start localPid }

/-- What a locked section did; `none` when the game holds no such handle, or the walk of `Owned_`
is not one. -/
def outcome (n : LobbyNode) : LobbyAction → Option LobbyOutcome
  | .createLobby tick o => some (n.lobby.createLobby tick o)
  | .updateLobby m => some (n.lobby.updateLobby m)
  | .destroyLobby id => some (n.lobby.destroyLobby id)
  | .copyDetails _ => some { state := n.lobby }
  | .joinLobby i me => n.details[i]?.map fun d => n.lobby.joinLobby d me
  | .joinLobbyById id me => some (n.lobby.joinLobbyById id me)
  | .leaveLobby id me => some (n.lobby.leaveLobby id me)
  | .promoteMember id target => some (n.lobby.promoteMember id target)
  | .kickMember id target => some (n.lobby.kickMember id target)
  | .periodicAnnounce ids =>
      if ids.Nodup ∧ ids.toFinset = n.lobby.owned then some (n.lobby.periodicAnnounce ids)
        else none
  | .datagram tick source m => some (n.lobby.onDatagram tick source m)

/-- The details handles after a locked section. -/
def held (n : LobbyNode) : LobbyAction → List LobbyRecord
  | .copyDetails id => n.details ++ (n.lobby.copyDetails id).toList
  | _ => n.details

/-- One locked section. -/
def step (n : LobbyNode) (a : LobbyAction) : Option LobbyNode :=
  (n.outcome a).map fun o => { lobby := o.state, details := n.held a }

end LobbyNode

/-! ## The view of one lobby -/

/-- What the three containers hold for one lobby id. -/
structure LobbyView where
  record : Option LobbyRecord
  member : Bool
  owner : Bool

/-- The view of an id. -/
def LobbyInterface.view (s : LobbyInterface) (id : Bytes) : LobbyView :=
  ⟨s.known.get? id, id ∈ s.memberOf, id ∈ s.owned⟩

/-- The view of a lobby the node has nothing of. -/
def LobbyView.gone : LobbyView := ⟨none, false, false⟩

/-- The record `JoinLobby` joins: the cached one, or the handle's when none is cached. -/
def LobbyInterface.joined (s : LobbyInterface) (details : LobbyRecord) : LobbyRecord :=
  let cached := (s.known.get? details.lobbyId).getD {}
  if cached.lobbyId = [] then details else cached

/-- The record with the user among its members. -/
def LobbyRecord.withMember (r : LobbyRecord) (pid : Bytes) : LobbyRecord :=
  if (r.findMember pid).isNone then r.addMember pid else r

/-- The record with one member's attributes rewritten. -/
def LobbyRecord.withAttrs (r : LobbyRecord) (pid : Bytes) (adds : AttrList) (removes : List Bytes) :
    LobbyRecord :=
  { r with members := modifyMember pid (fun m => applyMemberAttrs m adds removes) r.members }

namespace LobbyInterface
variable {s : LobbyInterface} {me : ProductUserId}

/-- The state `JoinLobby` leaves. -/
theorem joinLobby_state {d : LobbyRecord} (hme : me ≠ []) :
    (s.joinLobby d me).state = { s with
      known := s.known.set d.lobbyId ((s.joined d).withMember me), memberOf :=
        insert d.lobbyId s.memberOf } := by
  rw [joinLobby, if_neg hme]
  rfl

/-- The state a successful `JoinLobbyById` leaves. -/
theorem joinLobbyById_state {id : Bytes} {r : LobbyRecord} (hme : me ≠ [])
    (hr : s.known.get? id = some r) :
    (s.joinLobbyById id me).state = { s with
      known := s.known.set id (r.withMember me), memberOf := insert id s.memberOf } := by
  rw [joinLobbyById, if_neg hme, hr]
  rfl

end LobbyInterface

/-! ## What a section does -/

/-- What a locked section of a node does: a call that fails, a datagram that is ignored, or the one
way in which each goes through. -/
inductive LobbyNode.Does (n : LobbyNode) : LobbyAction → LobbyOutcome → Prop
  | fails {a : LobbyAction} {result : EResult} : result ≠ .success → a.isDatagram = false →
      Does n a { result, state := n.lobby }
  | ignores {tick : UInt64} {source : Endpoint} {m : LobbyMessage} :
      Does n (.datagram tick source m) { state := n.lobby }
  | creates {tick : UInt64} {o : CreateLobbyOptions} {id : Bytes} : o.localUserId ≠ [] →
      versionInRange o.apiVersion createLobbyApiLatest = true →
      id = newLobbyId o.localUserId tick n.lobby.lobbyCounter →
      Does n (.createLobby tick o)
        { state := { n.lobby with
            lobbyCounter := n.lobby.lobbyCounter + 1
            known := n.lobby.known.set id { o.record with lobbyId := id }
            memberOf := insert id n.lobby.memberOf
            owned := insert id n.lobby.owned }
          sends := [LobbyInterface.broadcastAnnounce { o.record with lobbyId := id }] }
  | ownerUpdates {m : LobbyModificationObj} {r : LobbyRecord} : n.lobby.known.get? m.lobbyId =
      some r → m.lobbyId ∈ n.lobby.owned → Does n (.updateLobby m)
        { state := { n.lobby with known := n.lobby.known.set m.lobbyId (applyModification r m).bump
          }
          sends := [LobbyInterface.broadcastAnnounce (applyModification r m).bump] }
  | memberUpdates {m : LobbyModificationObj} {r : LobbyRecord} : n.lobby.known.get? m.lobbyId =
      some r →
      m.lobbyId ∉ n.lobby.owned → m.hasLobbyScope = false → m.lobbyId ∈ n.lobby.memberOf →
      Does n (.updateLobby m)
        { state := { n.lobby with
            known := n.lobby.known.set m.lobbyId
              (r.withAttrs m.localUser m.addMemberAttrs m.removeMemberAttrs) }
          sends := if r.hostEndpoint.valid then [.sendTo r.hostEndpoint
            (.update m.lobbyId m.localUser m.addMemberAttrs m.removeMemberAttrs)] else [] }
  | destroys {id : Bytes} : id ∈ n.lobby.owned → Does n (.destroyLobby id)
      { state := { n.lobby with
          known := n.lobby.known.erase id
          memberOf := n.lobby.memberOf.erase id
          owned := n.lobby.owned.erase id }
        sends := [.broadcast (.leave id n.lobby.localPid lmsClosed)] }
  | copies {id : Bytes} : Does n (.copyDetails id) { state := n.lobby }
  | joins {i : ℕ} {me : ProductUserId} {d : LobbyRecord} : n.details[i]? = some d → me ≠ [] →
      Does n (.joinLobby i me)
      { state := { n.lobby with
          known := n.lobby.known.set d.lobbyId ((n.lobby.joined d).withMember me)
          memberOf := insert d.lobbyId n.lobby.memberOf }
        sends := n.lobby.requestJoin d.hostEndpoint d.lobbyId }
  | joinsById {id : Bytes} {me : ProductUserId} {r : LobbyRecord} : n.lobby.known.get? id =
      some r → me ≠ [] → Does n (.joinLobbyById id me)
        { state := { n.lobby with
            known := n.lobby.known.set id (r.withMember me)
            memberOf := insert id n.lobby.memberOf }
          sends := n.lobby.requestJoin r.hostEndpoint id }
  | migrates {id : Bytes} {me : ProductUserId} {r : LobbyRecord} {next : LobbyMemberRec}
      {rest : List LobbyMemberRec} :
      me ≠ [] → n.lobby.known.get? id = some r → id ∈ n.lobby.memberOf → id ∈ n.lobby.owned →
      (r.eraseMember me).members = next :: rest → r.bAllowHostMigration ≠ 0 →
        Does n (.leaveLobby id me)
        { state := { n.lobby with
            known := n.lobby.known.set id { r.eraseMember me with ownerProductId := next.productId
              }.bump
            memberOf := n.lobby.memberOf.erase id
            owned := n.lobby.owned.erase id }
          sends := [.broadcast (.leave id me lmsLeft),
            LobbyInterface.broadcastAnnounce
              { r.eraseMember me with ownerProductId := next.productId }.bump] }
  | leaves {id : Bytes} {me : ProductUserId} {r : LobbyRecord} : me ≠ [] →
      n.lobby.known.get? id = some r →
      id ∈ n.lobby.memberOf → (id ∈ n.lobby.owned → r.bAllowHostMigration ≠ 0 →
      (r.eraseMember me).members = []) →
      Does n (.leaveLobby id me)
        { state := { n.lobby with
            known := n.lobby.known.erase id
            memberOf := n.lobby.memberOf.erase id
            owned := n.lobby.owned.erase id }
          sends := [.broadcast (.leave id me lmsLeft)] }
  | promotes {id : Bytes} {target : ProductUserId} {r : LobbyRecord} : target ≠ [] →
      n.lobby.known.get? id = some r →
      id ∈ n.lobby.owned → (r.findMember target).isSome = true → Does n (.promoteMember id target)
        { state := { n.lobby with
            known := n.lobby.known.set id { r with ownerProductId := target }.bump
            owned := n.lobby.owned.erase id }
          sends := [LobbyInterface.broadcastAnnounce { r with ownerProductId := target }.bump] }
  | kicks {id : Bytes} {target : ProductUserId} {r : LobbyRecord} : target ≠ [] →
      n.lobby.known.get? id = some r → id ∈ n.lobby.owned → Does n (.kickMember id target)
        { state := { n.lobby with known := n.lobby.known.set id (r.eraseMember target).bump }
          sends := [.broadcast (.leave id target lmsKicked),
            LobbyInterface.broadcastAnnounce (r.eraseMember target).bump] }
  | announces {ids : List Bytes} : ids.Nodup → ids.toFinset = n.lobby.owned →
      Does n (.periodicAnnounce ids)
      { state := n.lobby, sends := (ids.filterMap n.lobby.known.get?).map
          LobbyInterface.broadcastAnnounce }
  | hears {tick : UInt64} {source : Endpoint} {r : LobbyRecord} {notes : List LobbyNote} :
        r.lobbyId ≠ [] → r.lobbyId ∉ n.lobby.owned → Does n (.datagram tick source (.announce r))
        { state := { n.lobby with
            known := n.lobby.known.set r.lobbyId (r.received tick source)
            owned := if r.lobbyId ∈ n.lobby.memberOf ∧ r.ownerProductId = n.lobby.localPid then
              insert r.lobbyId n.lobby.owned else n.lobby.owned }
          notes }
  | merges {tick : UInt64} {source : Endpoint} {id pid : Bytes} {adds : AttrList}
      {removes : List Bytes}
      {r : LobbyRecord} {notes : List LobbyNote} : n.lobby.known.get? id = some r →
      id ∈ n.lobby.owned →
      (r.findMember pid).isSome = true →
        Does n (.datagram tick source (.update id pid adds removes))
        { state := { n.lobby with known := n.lobby.known.set id (r.withAttrs pid adds removes).bump
          }
          sends := [LobbyInterface.broadcastAnnounce (r.withAttrs pid adds removes).bump]
          notes }
  | admits {tick : UInt64} {source : Endpoint} {id pid : Bytes} {r : LobbyRecord}
      {notes : List LobbyNote} :
      n.lobby.known.get? id = some r → id ∈ n.lobby.owned → (r.findMember pid).isNone = true →
      0 < r.availableSlots →
      Does n (.datagram tick source (.joinRequest id pid))
        { state := { n.lobby with known := n.lobby.known.set id (r.addMember pid).bump }
          sends := [LobbyInterface.broadcastAnnounce (r.addMember pid).bump]
          notes }
  | closes {tick : UInt64} {source : Endpoint} {id pid : Bytes} {r : LobbyRecord}
      {notes : List LobbyNote} :
      n.lobby.known.get? id = some r → Does n (.datagram tick source (.leave id pid lmsClosed))
        { state := { n.lobby with
            known := n.lobby.known.erase id
            memberOf := n.lobby.memberOf.erase id
            owned := n.lobby.owned.erase id }
          notes }
  | departs {tick : UInt64} {source : Endpoint} {id pid : Bytes} {reason : UInt8}
      {r q : LobbyRecord}
      {notes : List LobbyNote} : n.lobby.known.get? id = some r → reason ≠ lmsClosed →
      q = (if id ∈ n.lobby.owned then (r.eraseMember pid).bump else r.eraseMember pid) →
      Does n (.datagram tick source (.leave id pid reason))
        { state := { n.lobby with
            known := n.lobby.known.set id q
            memberOf := if pid = n.lobby.localPid then n.lobby.memberOf.erase id
              else n.lobby.memberOf }
          sends := if id ∈ n.lobby.owned then [LobbyInterface.broadcastAnnounce q] else []
          notes }

namespace LobbyNode.Does
variable {n : LobbyNode}

/-- What `CreateLobby` does. -/
theorem of_createLobby (tick : UInt64) (o : CreateLobbyOptions) :
    n.Does (.createLobby tick o) (n.lobby.createLobby tick o) := by
  unfold LobbyInterface.createLobby
  split
  · exact .fails (by decide) rfl
  · next hme =>
      split
      · exact .fails (by decide) rfl
      · next hversion => exact .creates hme (by simpa using hversion) rfl

/-- What `UpdateLobby` does, for the owner, a member and anybody else. -/
theorem of_updateLobby (m : LobbyModificationObj) : n.Does (.updateLobby m)
    (n.lobby.updateLobby m) := by
  unfold LobbyInterface.updateLobby
  split
  · exact .fails (by decide) rfl
  · next r hr =>
      split
      · next howner => exact .ownerUpdates hr howner
      · next howner =>
          split
          · exact .fails (by decide) rfl
          · next hscope =>
              split
              · next hmember => exact .memberUpdates hr howner (Bool.eq_false_iff.2 hscope) hmember
              · exact .fails (by decide) rfl

/-- What `DestroyLobby` does. -/
theorem of_destroyLobby (id : Bytes) : n.Does (.destroyLobby id) (n.lobby.destroyLobby id) := by
  unfold LobbyInterface.destroyLobby
  split
  · next howner => exact .destroys howner
  · exact .fails (by decide) rfl

/-- What `JoinLobby` does with a details handle. -/
theorem of_joinLobby {i : ℕ} {d : LobbyRecord} (hd : n.details[i]? = some d) (me : ProductUserId) :
    n.Does (.joinLobby i me) (n.lobby.joinLobby d me) := by
  unfold LobbyInterface.joinLobby
  split
  · exact .fails (by decide) rfl
  · next hme => exact .joins hd hme

/-- What `JoinLobbyById` does. -/
theorem of_joinLobbyById (id : Bytes) (me : ProductUserId) :
    n.Does (.joinLobbyById id me) (n.lobby.joinLobbyById id me) := by
  unfold LobbyInterface.joinLobbyById
  split
  · exact .fails (by decide) rfl
  · next hme =>
      split
      · exact .fails (by decide) rfl
      · next r hr => exact .joinsById hr hme

/-- What `LeaveLobby` does, for the owner, a member and anybody else. -/
theorem of_leaveLobby (id : Bytes) (me : ProductUserId) :
    n.Does (.leaveLobby id me) (n.lobby.leaveLobby id me) := by
  unfold LobbyInterface.leaveLobby
  split
  · exact .fails (by decide) rfl
  · next hme =>
      split
      · exact .fails (by decide) rfl
      · next r hr =>
          split
          · next hmember =>
              dsimp only
              split
              · next next rest hrest =>
                  split
                  · next hmigrates => exact .migrates hme hr hmember hmigrates.1 hrest hmigrates.2
                  · next hstays =>
                      exact .leaves hme hr hmember fun howner hmig =>
                        absurd ⟨howner, hmig⟩ hstays
              · next hnil => exact .leaves hme hr hmember fun _ _ => hnil
          · exact .fails (by decide) rfl

/-- What `PromoteMember` does. -/
theorem of_promoteMember (id : Bytes) (target : ProductUserId) :
    n.Does (.promoteMember id target) (n.lobby.promoteMember id target) := by
  unfold LobbyInterface.promoteMember
  split
  · exact .fails (by decide) rfl
  · next htarget =>
      split
      · exact .fails (by decide) rfl
      · next r hr =>
          split
          · next hok => exact .promotes htarget hr hok.1 hok.2
          · exact .fails (by decide) rfl

/-- What `KickMember` does. -/
theorem of_kickMember (id : Bytes) (target : ProductUserId) :
    n.Does (.kickMember id target) (n.lobby.kickMember id target) := by
  unfold LobbyInterface.kickMember
  split
  · exact .fails (by decide) rfl
  · next htarget =>
      split
      · exact .fails (by decide) rfl
      · next r hr =>
          split
          · next howner => exact .kicks htarget hr howner
          · exact .fails (by decide) rfl

/-- What an announce does to a lobby that is cached and to one that is not. -/
theorem of_onAnnounce (tick : UInt64) (source : Endpoint) (r : LobbyRecord) :
    n.Does (.datagram tick source (.announce r)) (n.lobby.onAnnounce tick source r) := by
  unfold LobbyInterface.onAnnounce
  split
  · exact .ignores
  · next hid =>
      split
      · exact .ignores
      · next howner => exact .hears hid howner

/-- What an update does at the owner and elsewhere. -/
theorem of_onUpdate (tick : UInt64) (source : Endpoint) (id pid : Bytes) (adds : AttrList)
    (removes : List Bytes) :
    n.Does (.datagram tick source (.update id pid adds removes)) (n.lobby.onUpdate id pid adds
      removes) := by
  unfold LobbyInterface.onUpdate
  split
  · exact .ignores
  · next r hr =>
      split
      · next hok => exact .merges hr hok.1 hok.2
      · exact .ignores

/-- What a join request does at the owner and elsewhere. -/
theorem of_onJoinRequest (tick : UInt64) (source : Endpoint) (id pid : Bytes) :
    n.Does (.datagram tick source (.joinRequest id pid)) (n.lobby.onJoinRequest id pid) := by
  unfold LobbyInterface.onJoinRequest
  split
  · exact .ignores
  · next r hr =>
      split
      · next hok => exact .admits hr hok.1 hok.2.1 hok.2.2
      · exact .ignores

/-- What a leave does, by its reason and its subject. -/
theorem of_onLeave (tick : UInt64) (source : Endpoint) (id pid : Bytes) (reason : UInt8) :
    n.Does (.datagram tick source (.leave id pid reason)) (n.lobby.onLeave id pid reason) := by
  unfold LobbyInterface.onLeave
  split
  · exact .ignores
  · next r hr =>
      dsimp only
      split
      · next hreason =>
          subst hreason
          exact .closes hr
      · next hreason => exact .departs hr hreason rfl

end LobbyNode.Does

/-- Every locked section does one of these. -/
theorem LobbyNode.outcome_does {n : LobbyNode} {a : LobbyAction} {o : LobbyOutcome}
    (ho : n.outcome a = some o) : n.Does a o := by
  cases a with
  | createLobby tick o' =>
      cases ho
      exact .of_createLobby tick o'
  | updateLobby m =>
      cases ho
      exact .of_updateLobby m
  | destroyLobby id =>
      cases ho
      exact .of_destroyLobby id
  | copyDetails id =>
      cases ho
      exact .copies
  | joinLobby i me =>
      obtain ⟨d, hd, rfl⟩ := Option.map_eq_some_iff.1 ho
      exact .of_joinLobby hd me
  | joinLobbyById id me =>
      cases ho
      exact .of_joinLobbyById id me
  | leaveLobby id me =>
      cases ho
      exact .of_leaveLobby id me
  | promoteMember id target =>
      cases ho
      exact .of_promoteMember id target
  | kickMember id target =>
      cases ho
      exact .of_kickMember id target
  | periodicAnnounce ids =>
      obtain ⟨⟨hnodup, hids⟩, ho⟩ := Option.ite_none_right_eq_some.1 ho
      cases ho
      exact .announces hnodup hids
  | datagram tick source m =>
      cases ho
      cases m with
      | announce r => exact .of_onAnnounce tick source r
      | update id pid adds removes => exact .of_onUpdate tick source id pid adds removes
      | joinRequest id pid => exact .of_onJoinRequest tick source id pid
      | leave id pid reason => exact .of_onLeave tick source id pid reason

/-! ## What it does to the view of one lobby -/

/-- What a locked section of the node `n` may do to the view `v` of the lobby `id`. -/
inductive ViewChange (n : LobbyNode) (id : Bytes) (v : LobbyView) : LobbyAction → LobbyView → Prop
  | keep (a : LobbyAction) : ViewChange n id v a v
  | create {tick : UInt64} {o : CreateLobbyOptions} : o.localUserId ≠ [] →
      versionInRange o.apiVersion createLobbyApiLatest = true →
      id = newLobbyId o.localUserId tick n.lobby.lobbyCounter →
      ViewChange n id v (.createLobby tick o) ⟨some { o.record with lobbyId := id }, true, true⟩
  | ownerUpdate {m : LobbyModificationObj} {r : LobbyRecord} : m.lobbyId = id → v.record = some r →
      v.owner = true → ViewChange n id v (.updateLobby m)
        { v with record := some (applyModification r m).bump }
  | memberUpdate {m : LobbyModificationObj} {r : LobbyRecord} : m.lobbyId = id →
      v.record = some r → v.member = true → v.owner = false → ViewChange n id v (.updateLobby m)
        { v with record := some (r.withAttrs m.localUser m.addMemberAttrs m.removeMemberAttrs) }
  | destroy : v.owner = true → ViewChange n id v (.destroyLobby id) .gone
  | join {i : ℕ} {me : ProductUserId} {d : LobbyRecord} : n.details[i]? = some d → d.lobbyId = id →
      me ≠ [] → ViewChange n id v (.joinLobby i me)
        { v with record := some ((n.lobby.joined d).withMember me), member := true }
  | joinById {me : ProductUserId} {r : LobbyRecord} : v.record = some r → me ≠ [] →
      ViewChange n id v (.joinLobbyById id me)
        { v with record := some (r.withMember me), member := true }
  | migrate {me : ProductUserId} {r : LobbyRecord} {next : LobbyMemberRec}
      {rest : List LobbyMemberRec} :
      v.record = some r → v.member = true → v.owner = true →
      (r.eraseMember me).members = next :: rest →
      r.bAllowHostMigration ≠ 0 → ViewChange n id v (.leaveLobby id me)
        ⟨some { r.eraseMember me with ownerProductId := next.productId }.bump, false, false⟩
  | leave {me : ProductUserId} : v.member = true → ViewChange n id v (.leaveLobby id me) .gone
  | promote {target : ProductUserId} {r : LobbyRecord} : target ≠ [] → v.record = some r →
      v.owner = true →
      (r.findMember target).isSome = true → ViewChange n id v (.promoteMember id target)
        ⟨some { r with ownerProductId := target }.bump, v.member, false⟩
  | kick {target : ProductUserId} {r : LobbyRecord} : target ≠ [] → v.record = some r →
      v.owner = true →
      ViewChange n id v (.kickMember id target)
        { v with record := some (r.eraseMember target).bump }
  | announce {tick : UInt64} {source : Endpoint} {r : LobbyRecord} : r.lobbyId = id → id ≠ [] →
      v.owner = false → ViewChange n id v (.datagram tick source (.announce r))
        ⟨some (r.received tick source), v.member, v.member && r.ownerProductId = n.lobby.localPid⟩
  | update {tick : UInt64} {source : Endpoint} {pid : Bytes} {adds : AttrList}
      {removes : List Bytes}
      {r : LobbyRecord} : v.record = some r → v.owner = true → (r.findMember pid).isSome = true →
      ViewChange n id v (.datagram tick source (.update id pid adds removes))
        { v with record := some (r.withAttrs pid adds removes).bump }
  | joinRequest {tick : UInt64} {source : Endpoint} {pid : Bytes} {r : LobbyRecord} : v.record =
      some r → v.owner = true → (r.findMember pid).isNone = true → 0 < r.availableSlots →
      ViewChange n id v (.datagram tick source (.joinRequest id pid))
        { v with record := some (r.addMember pid).bump }
  | closed {tick : UInt64} {source : Endpoint} {pid : Bytes} :
      ViewChange n id v (.datagram tick source (.leave id pid lmsClosed)) .gone
  | left {tick : UInt64} {source : Endpoint} {pid : Bytes} {reason : UInt8} {r : LobbyRecord} :
      v.record = some r → reason ≠ lmsClosed →
      ViewChange n id v (.datagram tick source (.leave id pid reason))
        ⟨some (if v.owner then (r.eraseMember pid).bump else r.eraseMember pid),
          v.member && pid ≠ n.lobby.localPid, v.owner⟩

namespace LobbyInterface
variable {s : LobbyInterface} {id : Bytes}

/-- The view after a record is stored. -/
theorem view_known_set (s : LobbyInterface) (id j : Bytes) (r : LobbyRecord) :
    view { s with known := s.known.set j r } id = if id =
      j then { s.view id with record := some r } else s.view id := by
  by_cases h : id = j <;> simp [view, h]

/-- The view after a lobby is forgotten. -/
theorem view_forget (s : LobbyInterface) (id j : Bytes) :
    view { s with
      known := s.known.erase j, memberOf := s.memberOf.erase j, owned := s.owned.erase j } id =
      if id = j then .gone else s.view id := by
  by_cases h : id = j <;> simp [view, LobbyView.gone, h]

@[simp] theorem view_owner : (s.view id).owner = true ↔ id ∈ s.owned := decide_eq_true_iff

@[simp] theorem view_member : (s.view id).member = true ↔ id ∈ s.memberOf := decide_eq_true_iff

@[simp] theorem view_owner_false : (s.view id).owner = false ↔ id ∉ s.owned :=
  decide_eq_false_iff_not

@[simp] theorem view_record : (s.view id).record = s.known.get? id := rfl

end LobbyInterface

/-- A view that stays the same. -/
theorem ViewChange.of_eq {n : LobbyNode} {id : Bytes} {a : LobbyAction} {v w : LobbyView}
    (h : w = v) : ViewChange n id v a w := h ▸ .keep a

/-- What is done changes a view as listed. -/
theorem ViewChange.of_does {n : LobbyNode} {a : LobbyAction} {o : LobbyOutcome} (h : n.Does a o)
    (id : Bytes) : ViewChange n id (n.lobby.view id) a (o.state.view id) := by
  cases h with
  | fails | ignores | copies | announces => exact .keep _
  | @creates tick o j hme hversion hj =>
      by_cases h : id = j
      · have hc := ViewChange.create (v := n.lobby.view id) hme hversion (h.trans hj)
        simpa [LobbyInterface.view, h] using hc
      · exact .of_eq (by simp [LobbyInterface.view, h])
  | @ownerUpdates m r hr howner =>
      simp only [LobbyInterface.view_known_set]
      split
      · next h => exact .ownerUpdate h.symm (h ▸ hr) (by simpa [h] using howner)
      · exact .keep _
  | @memberUpdates m r hr howner _ hmember =>
      simp only [LobbyInterface.view_known_set]
      split
      · next h =>
          exact .memberUpdate h.symm (h ▸ hr) (by simpa [h] using hmember)
            (by simpa [h] using howner)
      · exact .keep _
  | @destroys j howner =>
      simp only [LobbyInterface.view_forget]
      split
      · next h =>
          subst h
          exact .destroy (by simpa using howner)
      · exact .keep _
  | @joins i me d hd hme =>
      by_cases h : id = d.lobbyId
      · have hj := ViewChange.join (v := n.lobby.view id) hd h.symm hme
        simpa [LobbyInterface.view, h] using hj
      · exact .of_eq (by simp [LobbyInterface.view, h])
  | @joinsById j me r hr hme =>
      by_cases h : id = j
      · subst h
        have hj : ViewChange n id (n.lobby.view id) (.joinLobbyById id me) _ := .joinById hr hme
        simpa [LobbyInterface.view] using hj
      · exact .of_eq (by simp [LobbyInterface.view, h])
  | @migrates j me r next rest _ hr hmember howner hmems hmig =>
      by_cases h : id = j
      · subst h
        have hm : ViewChange n id (n.lobby.view id) (.leaveLobby id me) _ :=
          .migrate hr (by simpa using hmember) (by simpa using howner) hmems hmig
        simpa [LobbyInterface.view] using hm
      · exact .of_eq (by simp [LobbyInterface.view, h])
  | @leaves j me r _ _ hmember _ =>
      simp only [LobbyInterface.view_forget]
      split
      · next h =>
          subst h
          exact .leave (by simpa using hmember)
      · exact .keep _
  | @promotes j target r htarget hr howner hlists =>
      by_cases h : id = j
      · subst h
        have hp : ViewChange n id (n.lobby.view id) (.promoteMember id target) _ :=
          .promote htarget hr (by simpa using howner) hlists
        simpa [LobbyInterface.view] using hp
      · exact .of_eq (by simp [LobbyInterface.view, h])
  | @kicks j target r htarget hr howner =>
      simp only [LobbyInterface.view_known_set]
      split
      · next h =>
          subst h
          exact .kick htarget hr (by simpa using howner)
      · exact .keep _
  | @hears tick source r notes hid howner =>
      by_cases h : id = r.lobbyId
      · subst h
        have hc : ViewChange n r.lobbyId (n.lobby.view r.lobbyId)
          (.datagram tick source (.announce r)) _ :=
          .announce rfl hid (by simpa using howner)
        have hmem : (decide (r.lobbyId ∈ if r.lobbyId ∈ n.lobby.memberOf ∧
          r.ownerProductId = n.lobby.localPid
            then insert r.lobbyId n.lobby.owned else n.lobby.owned)) =
            (decide (r.lobbyId ∈ n.lobby.memberOf) &&
              decide (r.ownerProductId = n.lobby.localPid)) := by
          split
          · next hadopt => simp [hadopt.1, hadopt.2]
          · next hadopt =>
              rw [← Bool.decide_and, decide_eq_false howner, decide_eq_false hadopt]
        simpa only [LobbyInterface.view, Dict.get?_set, if_true, hmem] using hc
      · have hmem : (decide (id ∈ if r.lobbyId ∈ n.lobby.memberOf ∧
          r.ownerProductId = n.lobby.localPid
            then insert r.lobbyId n.lobby.owned else n.lobby.owned)) =
              decide (id ∈ n.lobby.owned) := by
          split <;> simp [h]
        exact .of_eq (by simp only [LobbyInterface.view, Dict.get?_set, if_neg h, hmem])
  | @merges tick source j pid adds removes r notes hr howner hlists =>
      simp only [LobbyInterface.view_known_set]
      split
      · next h =>
          subst h
          exact .update hr (by simpa using howner) hlists
      · exact .keep _
  | @admits tick source j pid r notes hr howner hnone hroom =>
      simp only [LobbyInterface.view_known_set]
      split
      · next h =>
          subst h
          exact .joinRequest hr (by simpa using howner) hnone hroom
      · exact .keep _
  | @closes tick source j pid r notes hr =>
      simp only [LobbyInterface.view_forget]
      split
      · next h =>
          subst h
          exact .closed
      · exact .keep _
  | @departs tick source j pid reason r q notes hr hreason hq =>
      subst hq
      by_cases h : id = j
      · subst h
        have hc : ViewChange n id (n.lobby.view id) (.datagram tick source (.leave id pid reason))
          _ := .left hr hreason
        have hmem : decide (id ∈ if pid = n.lobby.localPid then n.lobby.memberOf.erase id
          else n.lobby.memberOf) =
            (decide (id ∈ n.lobby.memberOf) && decide (pid ≠ n.lobby.localPid)) := by
          split
          · next hp => simp [hp]
          · next hp => simp [hp]
        simpa [LobbyInterface.view, hmem] using hc
      · have hmem : decide (id ∈ if pid = n.lobby.localPid then n.lobby.memberOf.erase j
          else n.lobby.memberOf) =
            decide (id ∈ n.lobby.memberOf) := by
          split <;> simp [h]
        exact .of_eq (by simp [LobbyInterface.view, h, hmem])

/-- Every locked section changes a view as listed. -/
theorem LobbyNode.step_view {n t : LobbyNode} {a : LobbyAction} (h : n.step a = some t)
    (id : Bytes) : ViewChange n id (n.lobby.view id) a (t.lobby.view id) := by
  obtain ⟨o, ho, rfl⟩ := Option.map_eq_some_iff.1 h
  exact .of_does (outcome_does ho) id

/-! ## What a section sends and tells -/

/-- What a locked section that leads from `s` to `t` may send: the announce of a stored record of a
lobby that the node owns, or owned, a member's request to the owner, or the news that a member is
gone. -/
inductive LobbySend.From (s t : LobbyInterface) : LobbySend → Prop
  | announce {id : Bytes} {r : LobbyRecord} : t.known.get? id = some r → id ∈ s.owned ∨
      id ∈ t.owned → From s t (LobbyInterface.broadcastAnnounce r)
  | update {dest : Endpoint} {id pid : Bytes} {adds : AttrList} {removes : List Bytes} :
      From s t (.sendTo dest (.update id pid adds removes))
  | joinRequest {dest : Endpoint} {id : Bytes} :
      From s t (.sendTo dest (.joinRequest id s.localPid))
  | leave {id pid : Bytes} {reason : UInt8} : reason = lmsLeft ∨ reason = lmsKicked ∨
      reason = lmsClosed → From s t (.broadcast (.leave id pid reason))

namespace LobbyInterface
variable {s : LobbyInterface} {x : LobbySend}

/-- A record that is stored may be announced by the owner. -/
theorem from_stored {s t : LobbyInterface} {id : Bytes} {r : LobbyRecord}
    {known : Dict Bytes LobbyRecord} (ht : t.known = known.set id r)
    (howned : id ∈ s.owned ∨ id ∈ t.owned) : LobbySend.From s t (broadcastAnnounce r) := by
  have hr : t.known.get? id = some r := by rw [ht, Dict.get?_set, if_pos rfl]
  exact .announce hr howned

/-- A request to join, if any is sent, is one that may be sent. -/
theorem from_requestJoin {t : LobbyInterface} {host : Endpoint} {id : Bytes}
    (hx : x ∈ s.requestJoin host id) : x.From s t := by
  unfold requestJoin at hx
  split at hx
  · rw [List.mem_singleton.1 hx]
    exact .joinRequest
  · cases hx

end LobbyInterface

section
variable {n : LobbyNode} {a : LobbyAction} {o : LobbyOutcome}

/-- What the sends of a section are. -/
theorem LobbyNode.sends_from (ho : n.outcome a = some o) {x : LobbySend} (hx : x ∈ o.sends) :
    x.From n.lobby o.state := by
  have hstored :
    ∀ {t : LobbyInterface} {id : Bytes} {r : LobbyRecord} {known : Dict Bytes LobbyRecord},
      x ∈ [LobbyInterface.broadcastAnnounce r] → t.known = known.set id r → id ∈ n.lobby.owned ∨
      id ∈ t.owned →
      x.From n.lobby t := fun hx ht howned =>
    List.mem_singleton.1 hx ▸ LobbyInterface.from_stored ht howned
  cases outcome_does ho with
  | fails | ignores | copies | hears | closes => cases hx
  | creates => exact hstored hx rfl (.inr (Finset.mem_insert_self _ _))
  | ownerUpdates _ howner => exact hstored hx rfl (.inl howner)
  | memberUpdates =>
      dsimp only at hx
      split at hx
      · rw [List.mem_singleton.1 hx]
        exact .update
      · cases hx
  | destroys =>
      rw [List.mem_singleton.1 hx]
      exact .leave (.inr (.inr rfl))
  | joins | joinsById => exact LobbyInterface.from_requestJoin hx
  | migrates _ _ _ howner _ _ =>
      rcases List.mem_cons.1 hx with rfl | hx
      · exact .leave (.inl rfl)
      · exact hstored hx rfl (.inl howner)
  | leaves =>
      rw [List.mem_singleton.1 hx]
      exact .leave (.inl rfl)
  | promotes _ _ howner _ => exact hstored hx rfl (.inl howner)
  | kicks _ _ howner =>
      rcases List.mem_cons.1 hx with rfl | hx
      · exact .leave (.inr (.inl rfl))
      · exact hstored hx rfl (.inl howner)
  | announces _ hids =>
      obtain ⟨r, hr, rfl⟩ := List.mem_map.1 hx
      obtain ⟨id, hmem, hid⟩ := List.mem_filterMap.1 hr
      exact .announce hid (.inl (hids ▸ List.mem_toFinset.2 hmem))
  | merges _ howner _ | admits _ howner _ _ => exact hstored hx rfl (.inl howner)
  | departs _ _ _ =>
      dsimp only at hx
      split at hx
      · next howner => exact hstored hx rfl (.inl howner)
      · cases hx

/-- The game's calls notify nobody on their own node. -/
theorem LobbyNode.notes_of_call (ho : n.outcome a = some o)
    (ha : ∀ tick source m, a ≠ .datagram tick source m) : o.notes = [] := by
  cases outcome_does ho with
  | ignores | hears | merges | admits | closes | departs => exact absurd rfl (ha _ _ _)
  | _ => rfl

end

/-! ## What every step keeps -/

section
variable {n t : LobbyNode} {a : LobbyAction}

/-- The id that a successful `CreateLobby` gives its lobby. -/
def LobbyNode.created (n : LobbyNode) : LobbyAction → Option Bytes
  | .createLobby tick o =>
      if (n.lobby.createLobby tick o).result = .success then
        some (newLobbyId o.localUserId tick n.lobby.lobbyCounter)
      else none
  | _ => none

/-- A lobby is created exactly when `CreateLobby` succeeds. -/
theorem LobbyNode.created_createLobby {tick : UInt64} {o : CreateLobbyOptions}
    {out : LobbyOutcome} (ho : n.outcome (.createLobby tick o) = some out) :
    n.created (.createLobby tick o) =
      if out.result = .success then some (newLobbyId o.localUserId tick n.lobby.lobbyCounter)
        else none := by
  cases ho
  rfl

/-- The fields beside the containers: the local product id never changes, and the counter counts
the lobbies. -/
theorem LobbyNode.step_fields (h : n.step a = some t) :
    t.lobby.localPid = n.lobby.localPid ∧
      t.lobby.lobbyCounter = (n.created a).elim n.lobby.lobbyCounter fun _ =>
        n.lobby.lobbyCounter + 1 := by
  obtain ⟨o, ho, rfl⟩ := Option.map_eq_some_iff.1 h
  show o.state.localPid = n.lobby.localPid ∧ o.state.lobbyCounter = _
  cases outcome_does ho with
  | creates => exact ⟨rfl, by rw [created_createLobby ho]; rfl⟩
  | fails hfail _ =>
      refine ⟨rfl, ?_⟩
      cases a with
      | createLobby tick o' =>
          rw [created_createLobby ho, if_neg hfail]
          rfl
      | _ => rfl
  | _ => exact ⟨rfl, rfl⟩

/-- The local product id never changes. -/
theorem LobbyNode.step_localPid (h : n.step a = some t) : t.lobby.localPid = n.lobby.localPid :=
  (step_fields h).1

/-- A rewriting of one member keeps the ids of all members. -/
theorem modifyMember_productIds {pid : Bytes} {f : LobbyMemberRec → LobbyMemberRec}
    (hf : ∀ m, (f m).productId = m.productId) (ms : List LobbyMemberRec) :
    (modifyMember pid f ms).map (·.productId) = ms.map (·.productId) := by
  induction ms with
  | nil => rfl
  | cons m ms ih =>
      rw [modifyMember_cons]
      split
      · simp [hf]
      · simp [ih]

/-- Changing a member's attributes keeps the member. -/
theorem applyMemberAttrs_productId (m : LobbyMemberRec) (adds : AttrList) (removes : List Bytes) :
    (applyMemberAttrs m adds removes).productId = m.productId := rfl

namespace LobbyRecord
variable {r : LobbyRecord} {pid p : Bytes}

@[simp] theorem lists_bump : r.bump.Lists p ↔ r.Lists p := Iff.rfl

@[simp] theorem lists_addMember : (r.addMember pid).Lists p ↔ r.Lists p ∨ p = pid := by
  simp [Lists, addMember]

/-- A user that joined is listed, and so is everyone who was. -/
@[simp] theorem lists_withMember : (r.withMember pid).Lists p ↔ r.Lists p ∨ p = pid := by
  unfold withMember
  split
  · exact lists_addMember
  · next h =>
      constructor
      · exact .inl
      · rintro (h' | rfl)
        · exact h'
        · exact findMember_isSome.1 (by simpa [Option.isSome_iff_ne_none] using h)

@[simp] theorem lists_withAttrs {adds : AttrList} {removes : List Bytes} :
    (r.withAttrs pid adds removes).Lists p ↔ r.Lists p := by
  simp only [Lists, withAttrs]
  rw [modifyMember_productIds fun m => applyMemberAttrs_productId m _ _]

@[simp] theorem lists_applyModification {m : LobbyModificationObj} :
    (applyModification r m).Lists p ↔ r.Lists p := by
  simp only [Lists, applyModification_members]
  rw [modifyMember_productIds fun m => applyMemberAttrs_productId m _ _]

/-- Erasing another member. -/
theorem lists_eraseMember_of_ne (h : p ≠ pid) : (r.eraseMember pid).Lists p ↔ r.Lists p := by
  simp only [Lists, eraseMember, List.mem_map]
  refine exists_congr fun m => and_congr_left fun hm => ?_
  exact List.mem_eraseP_of_neg (by simpa [hm] using h)

end LobbyRecord

/-- Records are stored under their own id, which is never empty; so are the ones in the game's
handles. -/
structure LobbyNode.Keyed (n : LobbyNode) : Prop where
  known : ∀ id r, n.lobby.known.get? id = some r → r.lobbyId = id ∧ id ≠ []
  details : ∀ d ∈ n.details, d.lobbyId ≠ []

/-- Every id that `NewLobbyId` builds has its first letters. -/
theorem newLobbyId_ne_nil (pid : Bytes) (tick counter : UInt64) :
    newLobbyId pid tick counter ≠ [] := by
  simp [newLobbyId, str]

/-- With keyed records a join changes a cached record, and stores the handle's where nothing is
cached. -/
theorem LobbyNode.Keyed.joined (hk : n.Keyed) {d r : LobbyRecord}
    (hr : n.lobby.known.get? d.lobbyId = some r) : n.lobby.joined d = r := by
  obtain ⟨hid, hne⟩ := hk.known _ _ hr
  simp only [LobbyInterface.joined, hr, Option.getD_some, hid, if_neg hne]

/-- A lobby that is not cached is joined as the handle has it. -/
theorem LobbyNode.joined_of_none {d : LobbyRecord} (hr : n.lobby.known.get? d.lobbyId = none) :
    n.lobby.joined d = d := by
  simp only [LobbyInterface.joined, hr, Option.getD_none]
  rfl

@[simp] theorem LobbyRecord.withMember_lobbyId (r : LobbyRecord) (pid : Bytes) :
    (r.withMember pid).lobbyId = r.lobbyId := by
  unfold withMember
  split <;> rfl

@[simp] theorem LobbyRecord.withMember_ownerProductId (r : LobbyRecord) (pid : Bytes) :
    (r.withMember pid).ownerProductId = r.ownerProductId := by
  unfold withMember
  split <;> rfl

/-- Every step keeps the records under their own ids. -/
theorem LobbyNode.Keyed.step (hk : n.Keyed) (h : n.step a = some t) : t.Keyed := by
  refine ⟨fun id r hr => ?_, fun d hd => ?_⟩
  · have hv := step_view h id
    have hr' : (t.lobby.view id).record = some r := hr
    have hold : ∀ r, (n.lobby.view id).record = some r → r.lobbyId = id ∧ id ≠ [] := hk.known id
    generalize t.lobby.view id = w at hv hr'
    cases hv with
    | keep => exact hold r hr'
    | create _ _ hid =>
        cases hr'
        exact ⟨rfl, hid ▸ newLobbyId_ne_nil _ _ _⟩
    | ownerUpdate _ hrec _ | memberUpdate _ hrec _ _ | promote _ hrec _ _ | kick _ hrec _
    | migrate hrec _ _ _ _
    | update hrec _ _ | joinRequest hrec _ _ _ =>
        have hstored := hold _ hrec
        cases hr'
        exact hstored
    | destroy | leave | closed => cases hr'
    | join hd hid _ =>
        cases hr'
        subst hid
        rw [LobbyRecord.withMember_lobbyId]
        cases hget : n.lobby.known.get? _ with
        | some r => rw [hk.joined hget]; exact hold _ hget
        | none => rw [LobbyNode.joined_of_none hget]; exact ⟨rfl,
          hk.details _ (List.mem_of_getElem? hd)⟩
    | joinById hrec _ =>
        cases hr'
        rw [LobbyRecord.withMember_lobbyId]
        exact hold _ hrec
    | announce hid hne _ =>
        cases hr'
        exact ⟨hid, hne⟩
    | left hrec _ =>
        have hstored := hold _ hrec
        cases hr'
        split <;> exact hstored
  · obtain ⟨o, _, rfl⟩ := Option.map_eq_some_iff.1 h
    cases a with
    | copyDetails j =>
        rcases List.mem_append.1 hd with hd | hd
        · exact hk.details d hd
        · obtain ⟨hid, hne⟩ := hk.known j d (Option.mem_toList.1 hd)
          exact hid ▸ hne
    | _ => exact hk.details d hd

/-- The node starts keyed. -/
theorem LobbyNode.keyed_start (pid : Bytes) : (start pid).Keyed where
  known _ _ h := nomatch h
  details _ h := nomatch h

end

/-- A lobby the user creates, with room for four. -/
def sampleLobby (pid : ProductUserId) : CreateLobbyOptions :=
  { apiVersion := 10, localUserId := pid, maxLobbyMembers := 4, permissionLevel := 0 }

/-- The id of the first lobby a node creates, at tick 7. -/
def sampleLobbyId (pid : ProductUserId) : Bytes := newLobbyId pid 7 1

end EOSEmu
