import EOSEmu.Lib.Switch
import EOSEmu.Lobby.Node

/-!
# RTC rooms

`RTCInterface` (`interfaces/RTC.cpp`): the rooms, which the lobby system or the game joined, and
the notifications posted. `PumpTick` reconciles the lobby-managed rooms with
`LobbyInterface::SnapshotRTCRooms`. A room is found by its name, so a custom room that has the name
of a lobby's room keeps the lobby system out of it (`rooms_follow`). `getRTCRoomName_view`: the
name a game is given for a lobby is that of the lobby's view.
-/

namespace EOSEmu

open Lib

/-! ## The rooms of the lobbies -/

/-- `EOS_RTCAS_Disabled`. -/
def audioDisabled : SdkInt := 2

/-- `LobbyRTCRoomView`. -/
structure LobbyRTCRoomView where
  lobbyId : Bytes
  roomName : Bytes
  memberPids : List Bytes
  deriving DecidableEq, Repr

/-- The name of a lobby's room. -/
def rtcRoomName (lobbyId : Bytes) : Bytes := str "rtc_" ++ lobbyId

/-- `GetRTCRoomName`: the result, `*InOutLen`, and what was written; a null buffer is `false`. -/
def getRTCRoomName (lobbyId : Option Bytes) (buffer : Bool) (inOutLen : Option UInt32) :
    EResult × Option UInt32 × Option Bytes :=
  match lobbyId, inOutLen with
  | some id, some len =>
      let name := rtcRoomName id
      let required := UInt32.ofNat name.length + 1
      if !buffer ∨ len < required then (.limitExceeded, some required, none)
      else (.success, some required, some (name ++ [0]))
  | _, _ => (.invalidParameters, inOutLen, none)

/-- `SnapshotRTCRooms`, with `MemberOf_` in the order it is walked. -/
def LobbyInterface.snapshotRTCRooms (s : LobbyInterface) (ids : List Bytes) :
    List LobbyRTCRoomView :=
  ids.filterMap fun id =>
    match s.known.get? id with
    | none => none
    | some r =>
        if r.bRTCRoomEnabled = eosFalse then none
        else some { lobbyId := id, roomName := rtcRoomName id, memberPids :=
            r.members.map (·.productId) }

/-- The user is a member of the lobby, and it has a room. -/
def LobbyInterface.InRTCLobby (s : LobbyInterface) (id : Bytes) : Prop :=
  id ∈ s.memberOf ∧ ∃ r, s.known.get? id = some r ∧ r.bRTCRoomEnabled ≠ eosFalse

/-! ## The interface -/

/-- `RTCInterface::Room`. -/
structure Room where
  lobbyManaged : Bool := false
  lobbyId : Bytes := []
  participants : List Bytes := []
  localAudioStatus : SdkInt := audioDisabled
  deriving DecidableEq, Repr

/-- The tasks that the `Fire` helpers post. -/
inductive RTCPost where
  | participantStatus (room pid : Bytes) (joined : Bool)
  | audioParticipantUpdated (room pid : Bytes) (status : SdkInt)
  | dataParticipantUpdated (room pid : Bytes)
  | lobbyRoomConnection (lobbyId : Bytes) (connected : Bool)
  deriving DecidableEq, Repr

/-- `RTCInterface`: the local product id, `Rooms_`, and everything posted so far. -/
structure RTCInterface where
  localPid : Bytes
  rooms : Dict Bytes Room := .empty
  posts : List RTCPost := []

/-- `FireParticipantJoinedBundle`. -/
def participantJoinedBundle (room pid : Bytes) : List RTCPost :=
  [.participantStatus room pid true, .audioParticipantUpdated room pid audioDisabled,
    .dataParticipantUpdated room pid]

namespace RTCInterface

/-- The interface of a fresh platform. -/
def start (localPid : Bytes) : RTCInterface := { localPid }

/-- One round of the first loop of `PumpTick`. -/
def pumpView (s : RTCInterface) (v : LobbyRTCRoomView) : RTCInterface :=
  match s.rooms.get? v.roomName with
  | none =>
      { s with
        rooms := s.rooms.set v.roomName
            { lobbyManaged := true, lobbyId := v.lobbyId, participants := v.memberPids }
        posts := s.posts ++ (.lobbyRoomConnection v.lobbyId true ::
          v.memberPids.flatMap (participantJoinedBundle v.roomName)) }
  | some r =>
      { s with
        rooms := s.rooms.set v.roomName { r with participants := v.memberPids }
        posts := s.posts ++
          ((v.memberPids.filter (· ∉ r.participants)).flatMap
            (participantJoinedBundle v.roomName) ++
            (r.participants.filter (· ∉ v.memberPids)).map (.participantStatus v.roomName · false))
              }

/-- One round of the second loop of `PumpTick`. -/
def pumpRoom (views : List LobbyRTCRoomView) (s : RTCInterface) (name : Bytes) : RTCInterface :=
  match s.rooms.get? name with
  | none => s
  | some r =>
      if r.lobbyManaged ∧ ∀ v ∈ views, v.roomName ≠ name then
        { s with rooms := s.rooms.erase name, posts := s.posts ++
          [.lobbyRoomConnection r.lobbyId false] }
      else s

/-- `PumpTick`, with the names of the rooms in the order the second loop walks them. -/
def pumpTick (s : RTCInterface) (views : List LobbyRTCRoomView) (names : List Bytes) :
    RTCInterface :=
  names.foldl (pumpRoom views) (views.foldl pumpView s)

/-- `JoinCustomRoom`. -/
def joinCustomRoom (s : RTCInterface) (room : Bytes) : EResult × RTCInterface :=
  match s.rooms.get? room with
  | some r => (if r.lobbyManaged then .accessDenied else .success, s)
  | none =>
      (.success, { s with
        rooms := s.rooms.set room { participants := [s.localPid] }
        posts := s.posts ++ participantJoinedBundle room s.localPid })

/-- `LeaveCustomRoom`. -/
def leaveCustomRoom (s : RTCInterface) (room : Bytes) : EResult × RTCInterface :=
  match s.rooms.get? room with
  | none => (.notFound, s)
  | some r => if r.lobbyManaged then (.accessDenied, s)
    else (.success, { s with rooms := s.rooms.erase room })

/-- `SetLocalAudioStatus`. -/
def setLocalAudioStatus (s : RTCInterface) (room : Bytes) (status : SdkInt) :
    Bool × RTCInterface :=
  match s.rooms.get? room with
  | none => (false, s)
  | some r =>
      (true, { s with
        rooms := s.rooms.set room { r with localAudioStatus := status }
        posts := s.posts ++
          if r.localAudioStatus ≠ status then [.audioParticipantUpdated room s.localPid status]
            else [] })

end RTCInterface

/-! ## A platform with both interfaces -/

/-- The lobbies and the rooms of a platform. -/
structure RTCNode where
  lobby : LobbyNode
  rtc : RTCInterface

/-- A section of the lobby interface, or a call of the RTC interface. `PumpTick` is told the walks
of `MemberOf_` and `Rooms_`. -/
inductive RTCAction where
  | lobby (a : LobbyAction)
  | joinCustomRoom (room : Bytes)
  | leaveCustomRoom (room : Bytes)
  | setLocalAudioStatus (room : Bytes) (status : SdkInt)
  | pumpTick (ids names : List Bytes)

namespace RTCNode

/-- The node of a fresh platform. -/
def start (localPid : Bytes) : RTCNode := { lobby := .start localPid, rtc := .start localPid }

/-- The names of the rooms that the second loop of `PumpTick` walks. -/
def walked (n : RTCNode) (ids : List Bytes) : Finset Bytes :=
  ((((n.lobby.lobby.snapshotRTCRooms ids).foldl RTCInterface.pumpView n.rtc).rooms.entries).map
    Prod.fst).toFinset

/-- One section or call. -/
def step (n : RTCNode) : RTCAction → Option RTCNode
  | .lobby a => (n.lobby.step a).map fun t => { n with lobby := t }
  | .joinCustomRoom room => some { n with rtc := (n.rtc.joinCustomRoom room).2 }
  | .leaveCustomRoom room => some { n with rtc := (n.rtc.leaveCustomRoom room).2 }
  | .setLocalAudioStatus room status =>
    some { n with rtc := (n.rtc.setLocalAudioStatus room status).2 }
  | .pumpTick ids names =>
      if ids.Nodup ∧ ids.toFinset = n.lobby.lobby.memberOf ∧ names.Nodup ∧
        names.toFinset = n.walked ids then
        some { n with rtc := n.rtc.pumpTick (n.lobby.lobby.snapshotRTCRooms ids) names }
      else none

end RTCNode

/-! ## What a lobby sees of the rooms -/

/-- The notification about a lobby's room, if the task is one. -/
def RTCPost.connection? (id : Bytes) : RTCPost → Option Bool
  | .lobbyRoomConnection j connected => if j = id then some connected else none
  | _ => none

namespace RTCInterface

/-- The room of a lobby is there and is the lobby system's. -/
def managed (s : RTCInterface) (id : Bytes) : Bool :=
  (s.rooms.get? (rtcRoomName id)).any (·.lobbyManaged)

/-- A custom room has the name of a lobby's room. -/
def shadowed (s : RTCInterface) (id : Bytes) : Bool :=
  (s.rooms.get? (rtcRoomName id)).any (!·.lobbyManaged)

/-- The `RTCRoomConnectionChanged` notifications about a lobby, oldest first. -/
def connections (s : RTCInterface) (id : Bytes) : List Bool :=
  s.posts.filterMap (RTCPost.connection? id)

/-- A lobby-managed room has the name of its lobby's room, and the notifications tell which lobbies
have one. -/
structure Linked (s : RTCInterface) : Prop where
  named : ∀ name r, s.rooms.get? name = some r → r.lobbyManaged = true →
    name = rtcRoomName r.lobbyId
  alternates : ∀ id, Alternates (s.managed id) (s.connections id)

end RTCInterface

/-- Different lobbies have different rooms. -/
theorem rtcRoomName_inj {i j : Bytes} : rtcRoomName i = rtcRoomName j ↔ i = j :=
  ⟨List.append_cancel_left, congrArg rtcRoomName⟩

section
variable {s t : RTCInterface} {id : Bytes} {views : List LobbyRTCRoomView}

/-- The participant events are not about connections. -/
theorem connection?_bundle (room pid : Bytes) :
    (participantJoinedBundle room pid).filterMap (RTCPost.connection? id) = [] := rfl

/-- Participants that join connect no room. -/
theorem connection?_bundles (room : Bytes) (pids : List Bytes) :
    (pids.flatMap (participantJoinedBundle room)).filterMap (RTCPost.connection? id) = [] := by
  rw [List.filterMap_flatMap]
  exact List.flatMap_eq_nil_iff.2 fun pid _ => connection?_bundle room pid

/-- Participants that leave disconnect no room. -/
theorem connection?_left (room : Bytes) (pids : List Bytes) :
    (pids.map (.participantStatus room · false)).filterMap (RTCPost.connection? id) = [] := by
  rw [List.filterMap_map]
  exact List.filterMap_eq_nil_iff.2 fun _ _ => rfl

/-- Storing a room. -/
theorem managed_set (name : Bytes) (r : Room) (posts : List RTCPost) :
    RTCInterface.managed { s with rooms := s.rooms.set name r, posts } id =
      if rtcRoomName id = name then r.lobbyManaged else s.managed id := by
  unfold RTCInterface.managed
  rw [Dict.get?_set]
  split <;> rfl

@[inherit_doc managed_set]
theorem shadowed_set (name : Bytes) (r : Room) (posts : List RTCPost) :
    RTCInterface.shadowed { s with rooms := s.rooms.set name r, posts } id =
      if rtcRoomName id = name then !r.lobbyManaged else s.shadowed id := by
  unfold RTCInterface.shadowed
  rw [Dict.get?_set]
  split <;> rfl

/-- Erasing a room. -/
theorem managed_erase (name : Bytes) (posts : List RTCPost) :
    RTCInterface.managed { s with rooms := s.rooms.erase name, posts } id =
      if rtcRoomName id = name then false else s.managed id := by
  unfold RTCInterface.managed
  rw [Dict.get?_erase]
  split <;> rfl

@[inherit_doc managed_erase]
theorem shadowed_erase (name : Bytes) (posts : List RTCPost) :
    RTCInterface.shadowed { s with rooms := s.rooms.erase name, posts } id =
      if rtcRoomName id = name then false else s.shadowed id := by
  unfold RTCInterface.shadowed
  rw [Dict.get?_erase]
  split <;> rfl

/-- A room with the name of the lobby's room is one or the other. -/
theorem managed_of_get {r : Room} (h : s.rooms.get? (rtcRoomName id) = some r) :
    s.managed id = r.lobbyManaged := by
  rw [RTCInterface.managed, h]
  rfl

@[inherit_doc managed_of_get]
theorem shadowed_of_get {r : Room} (h : s.rooms.get? (rtcRoomName id) = some r) :
    s.shadowed id = !r.lobbyManaged := by
  rw [RTCInterface.shadowed, h]
  rfl

/-- A managed room is not a custom one. -/
theorem shadowed_of_managed (h : s.managed id = true) : s.shadowed id = false := by
  obtain ⟨r, hr, hm⟩ := (Option.any_eq_true _ _).1 h
  rw [shadowed_of_get hr, hm]
  rfl

/-- A room is stored whose kind is the one the notifications tell. -/
theorem RTCInterface.Linked.set (h : s.Linked) {name : Bytes} {r : Room} {new : List RTCPost}
    (hname : r.lobbyManaged = true → name = rtcRoomName r.lobbyId)
    (hnew : ∀ id, Alternates (if rtcRoomName id = name then r.lobbyManaged else s.managed id)
      (s.connections id ++ new.filterMap (RTCPost.connection? id))) :
    RTCInterface.Linked { s with rooms := s.rooms.set name r, posts := s.posts ++ new } where
  named k r' hr' hm := by
    rw [Dict.get?_set] at hr'
    split at hr'
    · next heq =>
        cases hr'
        exact heq.trans (hname hm)
    · exact h.named k r' hr' hm
  alternates id := by
    rw [managed_set, RTCInterface.connections, List.filterMap_append]
    exact hnew id

/-- A room is erased, and it was not the lobby system's, or a notification tells it. -/
theorem RTCInterface.Linked.erase (h : s.Linked) {name : Bytes} {new : List RTCPost}
    (hnew : ∀ id, Alternates (if rtcRoomName id = name then false else s.managed id)
      (s.connections id ++ new.filterMap (RTCPost.connection? id))) :
    RTCInterface.Linked { s with rooms := s.rooms.erase name, posts := s.posts ++ new } where
  named k r' hr' hm := by
    rw [Dict.get?_erase] at hr'
    split at hr'
    · cases hr'
    · exact h.named k r' hr' hm
  alternates id := by
    rw [managed_erase, RTCInterface.connections, List.filterMap_append]
    exact hnew id

/-! ## The two loops -/

/-- The first loop finds or makes the room of a view, unless a custom room has its name. -/
theorem pumpView_spec {v : LobbyRTCRoomView} (hv : v.roomName = rtcRoomName v.lobbyId)
    (h : s.Linked) : (s.pumpView v).Linked ∧ (∀ id, (s.pumpView v).shadowed id = s.shadowed id) ∧
      ∀ id, (s.pumpView v).managed
          id = (s.managed id || (decide (id = v.lobbyId) && !s.shadowed id)) := by
  unfold RTCInterface.pumpView
  rw [hv]
  cases hroom : s.rooms.get? (rtcRoomName v.lobbyId) with
  | none =>
      have hoff : s.managed v.lobbyId = false := by rw [RTCInterface.managed, hroom]; rfl
      have hfree : s.shadowed v.lobbyId = false := by rw [RTCInterface.shadowed, hroom]; rfl
      refine ⟨h.set (fun _ => rfl) fun id => ?_, fun id => ?_, fun id => ?_⟩
      · have halt := h.alternates id
        rw [List.filterMap_cons, RTCPost.connection?, connection?_bundles]
        simp only [rtcRoomName_inj]
        rcases eq_or_ne id v.lobbyId with rfl | hne
        · rw [hoff] at halt
          rw [if_pos rfl, if_pos rfl]
          exact halt.turn
        · rw [if_neg hne, if_neg hne.symm]
          simpa using halt
      · rw [shadowed_set]
        split
        · next heq => rw [rtcRoomName_inj.1 heq, hfree]; rfl
        · rfl
      · rw [managed_set]
        split
        · next heq =>
            obtain rfl := rtcRoomName_inj.1 heq
            simp [hfree]
        · next hne =>
            have hne' : id ≠ v.lobbyId := fun heq => hne (rtcRoomName_inj.2 heq)
            simp [hne']
  | some r =>
      refine ⟨h.set (fun hm => h.named _ r hroom hm) fun id => ?_, fun id => ?_, fun id => ?_⟩
      · have halt := h.alternates id
        rw [List.filterMap_append, connection?_bundles,
            connection?_left, List.append_nil, List.append_nil]
        split
        · next heq => rwa [managed_of_get (rtcRoomName_inj.1 heq ▸ hroom)] at halt
        · exact halt
      · rw [shadowed_set]
        split
        · next heq => rw [shadowed_of_get (rtcRoomName_inj.1 heq ▸ hroom)]
        · rfl
      · rw [managed_set]
        split
        · next heq =>
            obtain rfl := rtcRoomName_inj.1 heq
            rw [managed_of_get hroom, shadowed_of_get hroom]
            simp
        · next hne =>
            have hne' : id ≠ v.lobbyId := fun heq => hne (rtcRoomName_inj.2 heq)
            simp [hne']

/-- After the first loop. -/
theorem pumpViews_spec (hviews : ∀ v ∈ views, v.roomName = rtcRoomName v.lobbyId) (h : s.Linked) :
    (views.foldl RTCInterface.pumpView s).Linked ∧
      (∀ id, (views.foldl RTCInterface.pumpView s).shadowed id = s.shadowed id) ∧
      ∀ id, (views.foldl RTCInterface.pumpView s).managed id =
        (s.managed id || (decide (id ∈ views.map (·.lobbyId)) && !s.shadowed id)) := by
  induction views generalizing s with
  | nil => exact ⟨h, fun _ => rfl, fun id => by simp⟩
  | cons v views ih =>
      obtain ⟨hlink, hshadow, hmanaged⟩ := pumpView_spec (hviews v List.mem_cons_self) h
      obtain ⟨hlink', hshadow', hmanaged'⟩ :=
        ih (fun u hu => hviews u (List.mem_cons_of_mem v hu)) hlink
      refine ⟨hlink', fun id => (hshadow' id).trans (hshadow id), fun id => (hmanaged' id).trans
        ?_⟩
      rw [hmanaged, hshadow]
      simp only [List.map_cons, List.mem_cons, Bool.decide_or]
      cases s.managed id <;> cases s.shadowed id <;> simp

/-- A view of the lobby is one of the lobby's room. -/
theorem mem_views_iff (hviews : ∀ v ∈ views, v.roomName = rtcRoomName v.lobbyId) :
    id ∈ views.map (·.lobbyId) ↔ ∃ v ∈ views, v.roomName = rtcRoomName id := by
  rw [List.mem_map]
  constructor
  · rintro ⟨v, hv, rfl⟩
    exact ⟨v, hv, hviews v hv⟩
  · rintro ⟨v, hv, hname⟩
    exact ⟨v, hv, rtcRoomName_inj.1 ((hviews v hv).symm.trans hname)⟩

/-- The second loop drops the room of a lobby that is in no view. -/
theorem pumpRoom_spec (hviews : ∀ v ∈ views, v.roomName = rtcRoomName v.lobbyId) (h : s.Linked)
    (name : Bytes) :
    (s.pumpRoom views name).Linked ∧ (∀ id, (s.pumpRoom views name).shadowed id = s.shadowed id) ∧
      ∀ id, (s.pumpRoom views name).managed id =
        (s.managed id && (decide (rtcRoomName id ≠ name) ||
          decide (id ∈ views.map (·.lobbyId)))) := by
  unfold RTCInterface.pumpRoom
  cases hroom : s.rooms.get? name with
  | none =>
      refine ⟨h, fun _ => rfl, fun id => ?_⟩
      rcases eq_or_ne (rtcRoomName id) name with rfl | hne
      · rw [RTCInterface.managed, hroom]
        rfl
      · simp [hne]
  | some r =>
      dsimp only
      split
      · next hgone =>
          obtain ⟨hm, hnone⟩ := hgone
          have hname := h.named name r hroom hm
          subst hname
          have hon : s.managed r.lobbyId = true := (managed_of_get hroom).trans hm
          have hnot : r.lobbyId ∉ views.map (·.lobbyId) := by
            intro hmem
            obtain ⟨v, hv, heq⟩ := (mem_views_iff hviews).1 hmem
            exact hnone v hv heq
          refine ⟨h.erase fun id => ?_, fun id => ?_, fun id => ?_⟩
          · have halt := h.alternates id
            split
            · next heq =>
                obtain rfl := rtcRoomName_inj.1 heq
                rw [hon] at halt
                simpa [RTCPost.connection?] using halt.turn
            · next hne =>
                have hne' : r.lobbyId ≠ id := fun heq => hne (heq ▸ rfl)
                simpa [RTCPost.connection?, hne'] using halt
          · rw [shadowed_erase]
            split
            · next heq =>
                obtain rfl := rtcRoomName_inj.1 heq
                rw [shadowed_of_get hroom, hm]
                rfl
            · rfl
          · rw [managed_erase]
            split
            · next heq =>
                obtain rfl := rtcRoomName_inj.1 heq
                simp [hnot]
            · next hne => simp [hne]
      · next hkept =>
          refine ⟨h, fun _ => rfl, fun id => ?_⟩
          rcases eq_or_ne (rtcRoomName id) name with rfl | hne
          · cases hm : r.lobbyManaged with
            | false =>
                rw [managed_of_get hroom, hm]
                rfl
            | true =>
                have hmem : id ∈ views.map (·.lobbyId) := by
                  rw [mem_views_iff hviews]
                  by_contra hnone
                  push Not at hnone
                  exact hkept ⟨hm, hnone⟩
                simp [hmem]
          · simp [hne]

/-- After the second loop. -/
theorem pumpRooms_spec (hviews : ∀ v ∈ views, v.roomName = rtcRoomName v.lobbyId) (h : s.Linked)
    (names : List Bytes) : (names.foldl (RTCInterface.pumpRoom views) s).Linked ∧
      ∀ id, (names.foldl (RTCInterface.pumpRoom views) s).managed id =
        (s.managed id && (decide (rtcRoomName id ∉ names) ||
          decide (id ∈ views.map (·.lobbyId)))) := by
  induction names generalizing s with
  | nil => exact ⟨h, fun id => by simp⟩
  | cons name names ih =>
      obtain ⟨hlink, _, hmanaged⟩ := pumpRoom_spec hviews h name
      obtain ⟨hlink', hmanaged'⟩ := ih hlink
      refine ⟨hlink', fun id => (hmanaged' id).trans ?_⟩
      rw [hmanaged]
      simp only [List.mem_cons, not_or, Bool.decide_and]
      cases s.managed id <;> cases decide (id ∈ views.map (·.lobbyId)) <;> simp

/-- A walk of all rooms leaves exactly those lobby-managed rooms that are in a view, and no custom
room was in their way. -/
theorem pumpTick_spec (hviews : ∀ v ∈ views, v.roomName = rtcRoomName v.lobbyId) (h : s.Linked)
    (names : List Bytes)
    (hnames : ∀ name r, (views.foldl RTCInterface.pumpView s).rooms.get? name = some r →
    name ∈ names) :
    (s.pumpTick views names).Linked ∧
      ∀ id, (s.pumpTick views names).managed id =
        (decide (id ∈ views.map (·.lobbyId)) && !s.shadowed id) := by
  obtain ⟨hlink, _, hmanaged⟩ := pumpViews_spec hviews h
  obtain ⟨hlink', hmanaged'⟩ := pumpRooms_spec hviews hlink names
  refine ⟨hlink', fun id => (hmanaged' id).trans ?_⟩
  cases hon : (views.foldl RTCInterface.pumpView s).managed id with
  | false =>
      rw [hmanaged, Bool.or_eq_false_iff] at hon
      rw [Bool.false_and, hon.2]
  | true =>
      -- the room is there, so the second loop comes to it
      obtain ⟨r, hr, _⟩ := (Option.any_eq_true _ _).1 hon
      rw [hmanaged] at hon
      cases hview : decide (id ∈ views.map (·.lobbyId)) with
      | false => simp [hnames _ r hr]
      | true =>
          rw [hview] at hon
          cases hs : s.managed id with
          | true => simp [shadowed_of_managed hs]
          | false => simpa [hs] using hon

/-! ## Runs -/

/-- The views of `SnapshotRTCRooms` are those of the lobbies with a room the user is a member
of. -/
theorem mem_snapshot {l : LobbyInterface} {ids : List Bytes} (hids : ids.toFinset = l.memberOf) :
    id ∈ (l.snapshotRTCRooms ids).map (·.lobbyId) ↔ l.InRTCLobby id := by
  unfold LobbyInterface.snapshotRTCRooms LobbyInterface.InRTCLobby
  rw [← hids, List.mem_toFinset, List.mem_map]
  constructor
  · rintro ⟨v, hv, rfl⟩
    obtain ⟨j, hj, hview⟩ := List.mem_filterMap.1 hv
    cases hr : l.known.get? j with
    | none => simp [hr] at hview
    | some r =>
        rw [hr] at hview
        obtain ⟨hoff, hview⟩ := Option.ite_none_left_eq_some.1 hview
        cases hview
        exact ⟨hj, r, hr, hoff⟩
  · rintro ⟨hj, r, hr, hoff⟩
    refine ⟨⟨id, rtcRoomName id, r.members.map (·.productId)⟩, List.mem_filterMap.2 ⟨id, hj, ?_⟩,
      rfl⟩
    rw [hr]
    exact if_neg hoff

/-- A view names the lobby's room. -/
theorem snapshot_roomName {l : LobbyInterface} {ids : List Bytes} :
    ∀ v ∈ l.snapshotRTCRooms ids, v.roomName = rtcRoomName v.lobbyId := by
  intro v hv
  obtain ⟨j, _, hview⟩ := List.mem_filterMap.1 hv
  cases hr : l.known.get? j with
  | none => simp [hr] at hview
  | some r =>
      rw [hr] at hview
      obtain ⟨_, hview⟩ := Option.ite_none_left_eq_some.1 hview
      cases hview
      rfl

/-- `GetRTCRoomName` gives the game the name of the lobby's view. -/
theorem getRTCRoomName_view {l : LobbyInterface} {ids : List Bytes} {v : LobbyRTCRoomView}
    (hv : v ∈ l.snapshotRTCRooms ids) {buffer : Bool} {len : UInt32}
    (hok : (getRTCRoomName (some v.lobbyId) buffer (some len)).1 = .success) :
    (getRTCRoomName (some v.lobbyId) buffer (some len)).2.2 = some (v.roomName ++ [0]) := by
  rw [snapshot_roomName v hv]
  unfold getRTCRoomName at hok ⊢
  dsimp only at hok ⊢
  split
  · next hshort => rw [if_pos hshort] at hok; cases hok
  · rfl

/-- The room is the lobby system's, for the lobby. -/
def RTCInterface.RoomOf (s : RTCInterface) (name id : Bytes) : Prop :=
  ∃ r, s.rooms.get? name = some r ∧ r.lobbyManaged = true ∧ r.lobbyId = id

/-- The lobby-managed rooms are those of the lobbies that are `managed`. -/
theorem RTCInterface.Linked.roomOf_iff (h : s.Linked) {name : Bytes} :
    s.RoomOf name id ↔ name = rtcRoomName id ∧ s.managed id = true := by
  constructor
  · rintro ⟨r, hr, hm, rfl⟩
    obtain rfl := h.named name r hr hm
    exact ⟨rfl, (managed_of_get hr).trans hm⟩
  · rintro ⟨rfl, hon⟩
    obtain ⟨r, hr, hm⟩ := (Option.any_eq_true _ _).1 hon
    exact ⟨r, hr, hm, rtcRoomName_inj.1 (h.named _ r hr hm).symm⟩

variable {n u : RTCNode} {a : RTCAction}

/-- The calls other than `PumpTick` change no lobby-managed room and post nothing about
connections. -/
theorem call_spec (h : n.rtc.Linked) (ha : ∀ ids names, a ≠ .pumpTick ids names)
    (hst : n.step a = some u) : u.rtc.Linked ∧ (∀ id, u.rtc.managed id = n.rtc.managed id) ∧
      ∀ id, u.rtc.connections id = n.rtc.connections id := by
  cases a with
  | lobby b =>
      obtain ⟨t, _, rfl⟩ := Option.map_eq_some_iff.1 hst
      exact ⟨h, fun _ => rfl, fun _ => rfl⟩
  | joinCustomRoom room =>
      cases hst
      show (n.rtc.joinCustomRoom room).2.Linked ∧
        (∀ id, (n.rtc.joinCustomRoom room).2.managed id = _) ∧
        ∀ id, (n.rtc.joinCustomRoom room).2.connections id = _
      unfold RTCInterface.joinCustomRoom
      cases hroom : n.rtc.rooms.get? room with
      | some r => exact ⟨h, fun _ => rfl, fun _ => rfl⟩
      | none =>
          have hoff : ∀ id, (if rtcRoomName id = room then false else n.rtc.managed id) =
            n.rtc.managed id :=
            fun id => by
              split
              · next heq => rw [RTCInterface.managed, heq, hroom]; rfl
              · rfl
          refine ⟨h.set nofun fun id => ?_, fun id => (managed_set _ _ _).trans
            (hoff id), fun id => ?_⟩
          · rw [connection?_bundle, List.append_nil, hoff]
            exact h.alternates id
          · rw [RTCInterface.connections, List.filterMap_append, connection?_bundle,
              List.append_nil]
            rfl
  | leaveCustomRoom room =>
      cases hst
      show (n.rtc.leaveCustomRoom room).2.Linked ∧
        (∀ id, (n.rtc.leaveCustomRoom room).2.managed id = _) ∧
        ∀ id, (n.rtc.leaveCustomRoom room).2.connections id = _
      unfold RTCInterface.leaveCustomRoom
      cases hroom : n.rtc.rooms.get? room with
      | none => exact ⟨h, fun _ => rfl, fun _ => rfl⟩
      | some r =>
          dsimp only
          split
          · exact ⟨h, fun _ => rfl, fun _ => rfl⟩
          · next hcustom =>
              have hoff : ∀ id, (if rtcRoomName id = room then false else n.rtc.managed id) =
                n.rtc.managed id :=
                fun id => by
                  split
                  · next heq => rw [managed_of_get (heq ▸ hroom), Bool.eq_false_iff.2 hcustom]
                  · rfl
              have hlink : RTCInterface.Linked
                  { n.rtc with rooms := n.rtc.rooms.erase room, posts := n.rtc.posts ++ [] } :=
                    h.erase fun id => by
                rw [List.filterMap_nil, List.append_nil, hoff]
                exact h.alternates id
              rw [List.append_nil] at hlink
              exact ⟨hlink, fun id => (managed_erase _ _).trans (hoff id), fun _ => rfl⟩
  | setLocalAudioStatus room status =>
      cases hst
      show (n.rtc.setLocalAudioStatus room status).2.Linked ∧
        (∀ id, (n.rtc.setLocalAudioStatus room status).2.managed id = _) ∧
        ∀ id, (n.rtc.setLocalAudioStatus room status).2.connections id = _
      unfold RTCInterface.setLocalAudioStatus
      cases hroom : n.rtc.rooms.get? room with
      | none => exact ⟨h, fun _ => rfl, fun _ => rfl⟩
      | some r =>
          have hsame : ∀ id, (if rtcRoomName id = room then r.lobbyManaged else n.rtc.managed id) =
            n.rtc.managed id :=
            fun id => by
              split
              · next heq => exact (managed_of_get (heq ▸ hroom)).symm
              · rfl
          have hnone : ∀ id, (if r.localAudioStatus ≠ status then
              [RTCPost.audioParticipantUpdated room n.rtc.localPid status] else []).filterMap
                (RTCPost.connection? id) = [] := by
            intro id
            split <;> rfl
          refine ⟨h.set (fun hm => h.named room r hroom hm) fun id => ?_, fun id =>
            (managed_set _ _ _).trans (hsame id), fun id => ?_⟩
          · rw [hnone, List.append_nil, hsame]
            exact h.alternates id
          · rw [RTCInterface.connections, List.filterMap_append, hnone, List.append_nil]
            rfl
  | pumpTick ids names => exact absurd rfl (ha ids names)

/-- `PumpTick` gives every lobby with a room its lobby-managed room, unless a custom room has its
name. -/
theorem pump_spec (h : n.rtc.Linked) {ids names : List Bytes}
    (hst : n.step (.pumpTick ids names) = some u) : u.lobby = n.lobby ∧ u.rtc.Linked ∧
      ∀ id, u.rtc.managed id = true ↔ n.lobby.lobby.InRTCLobby id ∧ n.rtc.shadowed id = false := by
  obtain ⟨⟨_, hids, _, hnames⟩, hst⟩ := Option.ite_none_right_eq_some.1 hst
  cases hst
  obtain ⟨hlink, hmanaged⟩ := pumpTick_spec snapshot_roomName h names fun name r hr => by
    have hwalked : name ∈ n.walked ids :=
      List.mem_toFinset.2 (List.mem_map.2 ⟨(name, r), Dict.mem_entries.2 hr, rfl⟩)
    rw [← hnames] at hwalked
    exact List.mem_toFinset.1 hwalked
  refine ⟨rfl, hlink, fun id => ?_⟩
  rw [hmanaged, Bool.and_eq_true, decide_eq_true_iff, mem_snapshot hids, Bool.not_eq_true']

/-- The rooms are linked in every run. -/
theorem linked_of_run {localPid : Bytes} (h : Run RTCNode.step Always (.start localPid) n) :
    n.rtc.Linked := by
  refine h.invariant (P := fun n => n.rtc.Linked) ⟨nofun, fun _ => .nil⟩ fun u v a hu _ hst => ?_
  by_cases ha : ∃ ids names, a = .pumpTick ids names
  · obtain ⟨ids, names, rfl⟩ := ha
    exact (pump_spec hu hst).2.1
  · exact (call_spec hu (fun ids names heq => ha ⟨ids, names, heq⟩) hst).1

end

/-- The lobby-managed rooms are the rooms of the lobbies that have one and that the user is a
member of, and the notifications about each lobby alternate up to that. -/
structure RTCNode.Follows (n : RTCNode) : Prop where
  rooms : ∀ name id, n.rtc.RoomOf name id ↔ name = rtcRoomName id ∧ n.lobby.lobby.InRTCLobby id
  alternates : ∀ id, ∃ on, (on = true ↔ n.lobby.lobby.InRTCLobby id) ∧
    Alternates on (n.rtc.connections id)

/-- **Voice rooms follow membership.** In every run the notifications about each lobby alternate,
and only `PumpTick` changes them or a lobby-managed room. A `PumpTick` leaves the rooms of exactly
the lobbies that have one and that the user is a member of, iff no custom room has the name of such
a lobby's room. -/
theorem rooms_follow {localPid : Bytes} {n : RTCNode}
    (h : Run RTCNode.step Always (.start localPid) n) :
    (∀ id, ∃ on, (on = true ↔ n.rtc.RoomOf (rtcRoomName id) id) ∧
    Alternates on (n.rtc.connections id)) ∧
      (∀ a t, (∀ ids names, a ≠ .pumpTick ids names) → n.step a = some t →
        (∀ name id, t.rtc.RoomOf name id ↔ n.rtc.RoomOf name id) ∧
          ∀ id, t.rtc.connections id = n.rtc.connections id) ∧
      ∀ ids names t, n.step (.pumpTick ids names) = some t →
        (t.Follows ↔ ∀ id, n.lobby.lobby.InRTCLobby id → n.rtc.shadowed id = false) := by
  have hlink := linked_of_run h
  refine ⟨fun id => ⟨_, ?_, hlink.alternates id⟩, fun a t ha hst => ?_, fun ids names t hst => ?_⟩
  · rw [hlink.roomOf_iff]
    exact ⟨fun hon => ⟨rfl, hon⟩, fun hr => hr.2⟩
  · obtain ⟨hlink', hmanaged, hconn⟩ := call_spec hlink ha hst
    refine ⟨fun name id => ?_, hconn⟩
    rw [hlink'.roomOf_iff, hlink.roomOf_iff, hmanaged]
  · obtain ⟨hlobby, hlink', hmanaged⟩ := pump_spec hlink hst
    constructor
    · intro hfollows id hid
      have hroom := (hfollows.rooms (rtcRoomName id) id).2 ⟨rfl, hlobby ▸ hid⟩
      exact ((hmanaged id).1 (hlink'.roomOf_iff.1 hroom).2).2
    · intro hfree
      have hiff : ∀ id, t.rtc.managed id = true ↔ t.lobby.lobby.InRTCLobby id := by
        intro id
        rw [hmanaged, hlobby]
        exact ⟨fun hr => hr.1, fun hid => ⟨hid, hfree id hid⟩⟩
      refine ⟨fun name id => ?_, fun id => ⟨_, hiff id, hlink'.alternates id⟩⟩
      rw [hlink'.roomOf_iff, hiff]

/-- The user's lobby with a voice room. -/
def sampleVoice : RTCAction :=
  .lobby (.createLobby 7 { sampleLobby (str "a") with bEnableRTCRoom := eosTrue })

/-- The `PumpTick` after it. -/
def samplePump : RTCAction := .pumpTick [sampleLobbyId (str "a")]
    [rtcRoomName (sampleLobbyId (str "a"))]

/-- Without a custom room the lobby's room is joined. -/
theorem rooms_follow_sample :
    ∃ n t, Run RTCNode.step Always (.start (str "a")) n ∧ n.step samplePump = some t ∧ t.Follows ∧
      t.rtc.connections (sampleLobbyId (str "a")) = [true] := by
  have hrun : ((exec RTCNode.step (.start (str "a")) [sampleVoice]).bind fun n =>
    (n.step samplePump).map fun t =>
      (n.rtc.rooms.entries.isEmpty, t.rtc.connections (sampleLobbyId (str "a")))) = some (true,
          [true]) := by
    decide +kernel
  obtain ⟨n, hn, hpump⟩ := Option.bind_eq_some_iff.1 hrun
  obtain ⟨t, ht, hseen⟩ := Option.map_eq_some_iff.1 hpump
  simp only [Prod.mk.injEq] at hseen
  obtain ⟨hempty, hconn⟩ := hseen
  have hl := Run.of_exec hn
  refine ⟨n, t, hl, ht, ((rooms_follow hl).2.2 _ _ t ht).2 fun id _ => ?_, hconn⟩
  rw [RTCInterface.shadowed, Dict.get?, List.isEmpty_iff.1 hempty]
  rfl

/-- Without the condition this fails: the game joins a custom room by the name of its new lobby's
room before the first `PumpTick`. -/
theorem not_rooms_follow :
    ¬ ∀ (localPid : Bytes) (n t : RTCNode) (ids names : List Bytes), Run RTCNode.step
        Always (.start localPid) n → n.step (.pumpTick ids names) = some t → t.Follows := by
  intro h
  have hrun : ((exec RTCNode.step (.start (str "a"))
      [sampleVoice, .joinCustomRoom (rtcRoomName (sampleLobbyId (str "a")))]).bind fun n =>
        (n.step samplePump).map fun t => (t.rtc.connections (sampleLobbyId (str "a")),
          decide (sampleLobbyId (str "a") ∈ t.lobby.lobby.memberOf),
          (t.lobby.lobby.known.get? (sampleLobbyId (str "a"))).map (·.bRTCRoomEnabled))) =
      some ([], true, some eosTrue) := by decide +kernel
  obtain ⟨n, hn, hpump⟩ := Option.bind_eq_some_iff.1 hrun
  obtain ⟨t, ht, hseen⟩ := Option.map_eq_some_iff.1 hpump
  simp only [Prod.mk.injEq] at hseen
  obtain ⟨hconn, hmember, hrec⟩ := hseen
  obtain ⟨r, hr, hvoice⟩ := Option.map_eq_some_iff.1 hrec
  obtain ⟨on, hon, halt⟩ := (h _ n t _ _ (Run.of_exec hn) ht).alternates (sampleLobbyId (str "a"))
  have hin : t.lobby.lobby.InRTCLobby (sampleLobbyId (str "a")) :=
    ⟨of_decide_eq_true hmember, r, hr, hvoice ▸ by decide⟩
  rw [hconn] at halt
  cases halt.last.2 (hon.2 hin)

end EOSEmu
