import EOSEmu.RTC.Rooms

/-!
# The participant events of a room

`PumpTick` compares the members of a lobby with the participants of its room, and posts `Joined`
and `Left` for the difference. `participants_replayed` says that the events of a lobby-managed room
since it connected are a history of its participants: replayed from nobody they give the
participants, whatever the snapshots were and in whatever order they listed the members. What a
platform does is a run of this interface (`rtc_run_of_node`).
-/

namespace EOSEmu

open Lib

/-! ## The interface by itself -/

/-- A call of the RTC interface. `PumpTick` is told the views of the lobby interface and the walk
of `Rooms_`. -/
inductive RTCCall where
  | joinCustomRoom (room : Bytes)
  | leaveCustomRoom (room : Bytes)
  | setLocalAudioStatus (room : Bytes) (status : SdkInt)
  | pumpTick (views : List LobbyRTCRoomView) (names : List Bytes)

/-- One call. -/
def RTCInterface.step (s : RTCInterface) : RTCCall → Option RTCInterface
  | .joinCustomRoom room => some (s.joinCustomRoom room).2
  | .leaveCustomRoom room => some (s.leaveCustomRoom room).2
  | .setLocalAudioStatus room status => some (s.setLocalAudioStatus room status).2
  | .pumpTick views names => some (s.pumpTick views names)

/-- The views name the rooms of their lobbies, and list every member once. -/
def DistinctMembers (_ : RTCInterface) : RTCCall → Prop
  | .pumpTick views _ => ∀ v ∈ views, v.roomName = rtcRoomName v.lobbyId ∧ v.memberPids.Nodup
  | _ => True

/-- The members of the lobbies are listed once. -/
def DistinctInLobbies (n : RTCNode) : RTCAction → Prop
  | .pumpTick ids _ => ∀ v ∈ n.lobby.lobby.snapshotRTCRooms ids, v.memberPids.Nodup
  | _ => True

/-- What a platform does is a run of its RTC interface. -/
theorem rtc_run_of_node {localPid : Bytes} {n : RTCNode}
    (h : Run RTCNode.step DistinctInLobbies (.start localPid) n) :
    Run RTCInterface.step DistinctMembers (.start localPid) n.rtc := by
  refine h.invariant (P := fun n => Run RTCInterface.step DistinctMembers (.start localPid) n.rtc)
    .refl ?_
  intro n t a ih hok hst
  cases a with
  | lobby b =>
      obtain ⟨l, _, rfl⟩ := Option.map_eq_some_iff.1 hst
      exact ih
  | joinCustomRoom room =>
      cases hst
      exact .tail (.joinCustomRoom room) ih trivial rfl
  | leaveCustomRoom room =>
      cases hst
      exact .tail (.leaveCustomRoom room) ih trivial rfl
  | setLocalAudioStatus room status =>
      cases hst
      exact .tail (.setLocalAudioStatus room status) ih trivial rfl
  | pumpTick ids names =>
      obtain ⟨_, hst⟩ := Option.ite_none_right_eq_some.1 hst
      cases hst
      exact .tail (.pumpTick _ names) ih (fun v hv => ⟨snapshot_roomName v hv, hok v hv⟩) rfl

/-! ## The events since the room connected -/

/-- What a post adds to the participant events of a lobby's room: a new connection begins with
none. -/
def noteEvent (id : Bytes) (events : List (Bytes × Bool)) : RTCPost → List (Bytes × Bool)
  | .lobbyRoomConnection j true => if j = id then [] else events
  | .participantStatus room pid joined => if room = rtcRoomName id then events ++
    [(pid, joined)] else events
  | _ => events

/-- The participant events of a lobby's room since it connected: who, and whether the status was
`Joined`. -/
def RTCInterface.eventsSince (s : RTCInterface) (id : Bytes) : List (Bytes × Bool) :=
  s.posts.foldl (noteEvent id) []

section
variable {s t : RTCInterface} {id name room pid : Bytes} {events : List (Bytes × Bool)} {r : Room}

/-- The events of participants that joined. -/
theorem foldl_bundles (room : Bytes) (pids : List Bytes) :
    (pids.flatMap (participantJoinedBundle room)).foldl (noteEvent id) events =
      if room = rtcRoomName id then events ++ pids.map (·, true) else events := by
  induction pids generalizing events with
  | nil => simp
  | cons pid pids ih =>
      have hbundle : (participantJoinedBundle room pid).foldl (noteEvent id) events =
          if room = rtcRoomName id then events ++ [(pid, true)] else events := rfl
      rw [List.flatMap_cons, List.foldl_append, hbundle, ih]
      split
      · rw [List.append_assoc]
        rfl
      · rfl

/-- The events of participants that left. -/
theorem foldl_left (room : Bytes) (pids : List Bytes) :
    (pids.map (RTCPost.participantStatus room · false)).foldl (noteEvent id) events =
      if room = rtcRoomName id then events ++ pids.map (·, false) else events := by
  induction pids generalizing events with
  | nil => simp
  | cons pid pids ih =>
      have hone : noteEvent id events (.participantStatus room pid false) =
          if room = rtcRoomName id then events ++ [(pid, false)] else events := rfl
      rw [List.map_cons, List.foldl_cons, hone, ih]
      split
      · rw [List.append_assoc]
        rfl
      · rfl

/-- A lobby-managed room has the name of its lobby's room, its participants are distinct, and its
events tell who they are. -/
structure RTCInterface.Told (s : RTCInterface) : Prop where
  named : ∀ name r, s.rooms.get? name = some r → r.lobbyManaged = true →
    name = rtcRoomName r.lobbyId
  told : ∀ id r, s.rooms.get? (rtcRoomName id) = some r → r.lobbyManaged = true →
    r.participants.Nodup ∧ Narrates (s.eventsSince id) r.participants.toFinset

/-- What is told after some more posts. -/
theorem eventsSince_append (posts new : List RTCPost) (rooms : Dict Bytes Room) :
    RTCInterface.eventsSince { s with rooms, posts := posts ++ new } id =
      new.foldl (noteEvent id) (posts.foldl (noteEvent id) []) := List.foldl_append

/-- A room is stored, and the posts are about it. -/
theorem RTCInterface.Told.set (h : s.Told) {new : List RTCPost}
    (hname : r.lobbyManaged = true → name = rtcRoomName r.lobbyId)
    (hroom : ∀ id, name = rtcRoomName id → r.lobbyManaged = true →
      r.participants.Nodup ∧ Narrates (new.foldl (noteEvent id) (s.eventsSince id))
        r.participants.toFinset)
    (hother : ∀ id, name ≠ rtcRoomName id → ∀ events, new.foldl (noteEvent id) events = events) :
    RTCInterface.Told { s with rooms := s.rooms.set name r, posts := s.posts ++ new } where
  named k r' hr' hm := by
    rw [Dict.get?_set] at hr'
    split at hr'
    · next heq =>
        cases hr'
        exact heq.trans (hname hm)
    · exact h.named k r' hr' hm
  told id r' hr' hm := by
    rw [eventsSince_append]
    rw [Dict.get?_set] at hr'
    split at hr'
    · next heq =>
        cases hr'
        exact hroom id heq.symm hm
    · next hne =>
        rw [hother id (Ne.symm hne)]
        exact h.told id r' hr' hm

/-- A room is erased, and the posts are about no participants. -/
theorem RTCInterface.Told.erase (h : s.Told) (name : Bytes) {new : List RTCPost}
    (hnew : ∀ id events, new.foldl (noteEvent id) events = events) :
    RTCInterface.Told { s with rooms := s.rooms.erase name, posts := s.posts ++ new } where
  named k r' hr' hm := by
    rw [Dict.get?_erase] at hr'
    split at hr'
    · cases hr'
    · exact h.named k r' hr' hm
  told id r' hr' hm := by
    rw [eventsSince_append, hnew]
    rw [Dict.get?_erase] at hr'
    split at hr'
    · cases hr'
    · exact h.told id r' hr' hm

/-- The first loop tells what it changes. -/
theorem RTCInterface.Told.pumpView (h : s.Told) {v : LobbyRTCRoomView}
    (hv : v.roomName = rtcRoomName v.lobbyId) (hnd : v.memberPids.Nodup) : (s.pumpView v).Told := by
  unfold RTCInterface.pumpView
  rw [hv]
  cases hroom : s.rooms.get? (rtcRoomName v.lobbyId) with
  | none =>
      refine h.set (fun _ => rfl) (fun id hid _ => ⟨hnd, ?_⟩) fun id hne events => ?_
      · obtain rfl := rtcRoomName_inj.1 hid
        have hfresh : noteEvent v.lobbyId (s.eventsSince v.lobbyId)
          (.lobbyRoomConnection v.lobbyId true) = [] :=
          if_pos rfl
        rw [List.foldl_cons, hfresh, foldl_bundles, if_pos rfl]
        simpa using Narrates.nil.enter hnd fun _ _ => Finset.notMem_empty _
      · have hkeep : noteEvent id events (.lobbyRoomConnection v.lobbyId true) = events :=
          if_neg fun heq => hne (congrArg rtcRoomName heq)
        rw [List.foldl_cons, hkeep, foldl_bundles, if_neg hne]
  | some r =>
      refine h.set (fun hm => h.named _ r hroom hm)
        (fun id hid hm => ⟨hnd, ?_⟩) fun id hne events => ?_
      · obtain rfl := rtcRoomName_inj.1 hid
        obtain ⟨hold, htold⟩ := h.told _ r hroom hm
        rw [List.foldl_append, foldl_bundles, foldl_left, if_pos rfl, if_pos rfl]
        have hentered := htold.enter (hnd.filter (· ∉ r.participants)) fun p hp hmem => by
          simp only [List.mem_filter, decide_eq_true_eq] at hp
          exact hp.2 (List.mem_toFinset.1 hmem)
        have hleft := hentered.leave (hold.filter (· ∉ v.memberPids)) fun p hp => by
          exact Finset.mem_union_left _ (List.mem_toFinset.2 (List.mem_filter.1 hp).1)
        have hnow :
          (r.participants.toFinset ∪ (v.memberPids.filter (· ∉ r.participants)).toFinset) \
            (r.participants.filter (· ∉ v.memberPids)).toFinset = v.memberPids.toFinset := by
          ext p
          simp only [Finset.mem_sdiff, Finset.mem_union, List.mem_toFinset, List.mem_filter,
            decide_eq_true_eq]
          tauto
        rw [hnow] at hleft
        exact hleft
      · rw [List.foldl_append, foldl_bundles, foldl_left, if_neg hne, if_neg hne]

/-- The second loop tells no participant event. -/
theorem RTCInterface.Told.pumpRoom (h : s.Told) (views : List LobbyRTCRoomView) (name : Bytes) :
    (s.pumpRoom views name).Told := by
  unfold RTCInterface.pumpRoom
  split
  · exact h
  · split
    · exact h.erase name fun _ _ => rfl
    · exact h

/-- A `PumpTick` tells what it changes. -/
theorem RTCInterface.Told.pumpTick (h : s.Told) {views : List LobbyRTCRoomView}
    (hok : ∀ v ∈ views, v.roomName = rtcRoomName v.lobbyId ∧ v.memberPids.Nodup)
    (names : List Bytes) : (s.pumpTick views names).Told := by
  have hrooms : ∀ {u : RTCInterface}, u.Told →
    (names.foldl (RTCInterface.pumpRoom views) u).Told := by
    induction names with
    | nil => exact fun hu => hu
    | cons name names ih => exact fun hu => ih (hu.pumpRoom views name)
  refine hrooms ?_
  clear hrooms
  induction views generalizing s with
  | nil => exact h
  | cons v views ih =>
      obtain ⟨hv, hnd⟩ := hok v List.mem_cons_self
      exact ih (h.pumpView hv hnd) fun u hu => hok u (List.mem_cons_of_mem _ hu)

/-- A call of a run tells what it changes. -/
theorem RTCInterface.Told.step (h : s.Told) {a : RTCCall} (hok : DistinctMembers s a)
    (hst : s.step a = some t) : t.Told := by
  cases a with
  | joinCustomRoom room =>
      cases hst
      unfold RTCInterface.joinCustomRoom
      split
      · exact h
      · refine h.set nofun (fun _ _ hm => nomatch hm) fun id hne events => ?_
        show noteEvent id events (.participantStatus room s.localPid true) = events
        exact if_neg hne
  | leaveCustomRoom room =>
      cases hst
      unfold RTCInterface.leaveCustomRoom
      split
      · exact h
      · split
        · exact h
        · have hquiet : ∀ id events, ([] : List RTCPost).foldl (noteEvent id) events =
            events := fun _ _ => rfl
          have herased := h.erase room hquiet
          rwa [List.append_nil] at herased
  | setLocalAudioStatus room status =>
      cases hst
      unfold RTCInterface.setLocalAudioStatus
      split
      · exact h
      · next r hr =>
          have hquiet : ∀ id events, (if r.localAudioStatus ≠ status then
              [RTCPost.audioParticipantUpdated room s.localPid status] else []).foldl
                (noteEvent id) events = events := by
            intro id events
            split <;> rfl
          refine h.set (fun hm => h.named room r hr hm) (fun id hid hm => ?_) fun id _ => hquiet id
          subst hid
          rw [hquiet]
          exact h.told id r hr hm
  | pumpTick views names =>
      cases hst
      exact h.pumpTick hok names

/-- The events tell the participants in every run. -/
theorem told_of_run {localPid : Bytes}
    (h : Run RTCInterface.step DistinctMembers (.start localPid) s) : s.Told :=
  h.invariant ⟨nofun, nofun⟩ fun _ _ _ hu hok hst => hu.step hok hst

/-! ## The order of the members -/

/-- Two rooms that list the same participants. -/
structure SameRoom (r r' : Room) : Prop where
  lobbyManaged : r.lobbyManaged = r'.lobbyManaged
  lobbyId : r.lobbyId = r'.lobbyId
  localAudioStatus : r.localAudioStatus = r'.localAudioStatus
  participants : r.participants.Perm r'.participants

/-- Two states that differ in the order of participants and posts only. -/
structure SameRooms (s t : RTCInterface) : Prop where
  localPid : s.localPid = t.localPid
  rooms : ∀ name, Option.Rel SameRoom (s.rooms.get? name) (t.rooms.get? name)
  posts : s.posts.Perm t.posts

/-- Two views that list the same members. -/
structure SameView (v v' : LobbyRTCRoomView) : Prop where
  lobbyId : v.lobbyId = v'.lobbyId
  roomName : v.roomName = v'.roomName
  memberPids : v.memberPids.Perm v'.memberPids

variable {r' : Room} {new new' : List RTCPost}

/-- Writing alike rooms under one name. -/
theorem SameRooms.set (h : SameRooms s t) (name : Bytes) (hr : SameRoom r r')
    (hnew : new.Perm new') :
    SameRooms { s with rooms := s.rooms.set name r, posts := s.posts ++ new }
      { t with rooms := t.rooms.set name r', posts := t.posts ++ new' } where
  localPid := h.localPid
  rooms k := by
    rw [Dict.get?_set, Dict.get?_set]
    split
    · exact .some hr
    · exact h.rooms k
  posts := h.posts.append hnew

/-- Erasing one name. -/
theorem SameRooms.erase (h : SameRooms s t) (name : Bytes) (hnew : new.Perm new') :
    SameRooms { s with rooms := s.rooms.erase name, posts := s.posts ++ new }
      { t with rooms := t.rooms.erase name, posts := t.posts ++ new' } where
  localPid := h.localPid
  rooms k := by
    rw [Dict.get?_erase, Dict.get?_erase]
    split
    · exact .none
    · exact h.rooms k
  posts := h.posts.append hnew

/-- The members that are in one list and not in the other do not depend on the orders. -/
theorem perm_filter_notMem {a a' b b' : List Bytes} (ha : a.Perm a') (hb : b.Perm b') :
    (a.filter (· ∉ b)).Perm (a'.filter (· ∉ b')) := by
  have hsame : (fun p => decide (p ∉ b)) = fun p => decide (p ∉ b') := by
    funext p
    exact decide_eq_decide.2 (not_congr hb.mem_iff)
  rw [hsame]
  exact ha.filter _

/-- One lobby's view, read on either side. -/
theorem SameRooms.pumpView (h : SameRooms s t) {v v' : LobbyRTCRoomView} (hv : SameView v v') :
    SameRooms (s.pumpView v) (t.pumpView v') := by
  obtain ⟨hid, hname, hpids⟩ := hv
  have hroom := h.rooms v.roomName
  unfold RTCInterface.pumpView
  rw [← hname, ← hid]
  cases hs : s.rooms.get? v.roomName with
  | none =>
      cases ht : t.rooms.get? v.roomName with
      | none => exact h.set _ ⟨rfl, rfl, rfl, hpids⟩ ((hpids.flatMap_right _).cons _)
      | some r' =>
          rw [hs, ht] at hroom
          cases hroom
  | some r =>
      cases ht : t.rooms.get? v.roomName with
      | none =>
          rw [hs, ht] at hroom
          cases hroom
      | some r' =>
          rw [hs, ht] at hroom
          cases hroom with
          | some hr =>
              refine h.set _ ⟨hr.lobbyManaged, hr.lobbyId, hr.localAudioStatus, hpids⟩
                (.append ?_ ?_)
              · exact (perm_filter_notMem hpids hr.participants).flatMap_right _
              · exact (perm_filter_notMem hr.participants hpids).map _

/-- One room, whatever the views beside their names. -/
theorem SameRooms.pumpRoom (h : SameRooms s t) {views views' : List LobbyRTCRoomView}
    (hviews : views.map (·.roomName) = views'.map (·.roomName)) (name : Bytes) :
    SameRooms (s.pumpRoom views name) (t.pumpRoom views' name) := by
  have hroom := h.rooms name
  have hnames : ∀ l : List LobbyRTCRoomView, (∀ v ∈ l, v.roomName ≠ name) ↔
    name ∉ l.map (·.roomName) := by
    intro l
    simp [List.mem_map]
  unfold RTCInterface.pumpRoom
  cases hs : s.rooms.get? name with
  | none =>
      cases ht : t.rooms.get? name with
      | none => exact h
      | some r' =>
          rw [hs, ht] at hroom
          cases hroom
  | some r =>
      cases ht : t.rooms.get? name with
      | none =>
          rw [hs, ht] at hroom
          cases hroom
      | some r' =>
          rw [hs, ht] at hroom
          cases hroom with
          | some hr =>
              simp only [hnames, hviews, hr.lobbyManaged, hr.lobbyId]
              split
              · exact h.erase name (.refl _)
              · exact h

/-- A `PumpTick` that lists the members in another order changes the order of the participants and
the posts only. -/
theorem SameRooms.pumpTick (h : SameRooms s t) {views views' : List LobbyRTCRoomView}
    (hviews : List.Forall₂ SameView views views') (names : List Bytes) :
    SameRooms (s.pumpTick views names) (t.pumpTick views' names) := by
  have hnames : views.map (·.roomName) = views'.map (·.roomName) := by
    induction hviews with
    | nil => rfl
    | cons hv _ ih => rw [List.map_cons, List.map_cons, hv.roomName, ih]
  have hrooms : ∀ {u u' : RTCInterface}, SameRooms u u' →
      SameRooms (names.foldl (RTCInterface.pumpRoom views) u)
        (names.foldl (RTCInterface.pumpRoom views') u') := by
    induction names with
    | nil => exact fun hu => hu
    | cons name names ih => exact fun hu => ih (hu.pumpRoom hnames name)
  refine hrooms ?_
  clear hrooms hnames
  induction hviews generalizing s t with
  | nil => exact h
  | cons hv _ ih => exact ih (h.pumpView hv)

end

/-- **Participant events.** In every run, whatever the snapshots of distinct members were: the
events of a lobby-managed room since it connected, replayed from nobody, give its participants, and
the events about each participant begin with `Joined` and alternate. A `PumpTick` whose snapshot
lists the members in another order posts the same events and leaves the same participants, up to
their order. -/
theorem participants_replayed {localPid : Bytes} {s : RTCInterface}
    (h : Run RTCInterface.step DistinctMembers (.start localPid) s) :
    (∀ name r, s.rooms.get? name = some r → r.lobbyManaged = true →
      name = rtcRoomName r.lobbyId ∧ roster (s.eventsSince r.lobbyId) = r.participants.toFinset ∧
        ∀ pid, Alternates (decide (pid ∈ r.participants))
          (reports pid (s.eventsSince r.lobbyId))) ∧
      ∀ t views views' names, SameRooms s t → List.Forall₂ SameView views views' →
        SameRooms (s.pumpTick views names) (t.pumpTick views' names) := by
  have htold := told_of_run h
  refine ⟨fun name r hr hm => ?_, fun t views views' names hst hviews => hst.pumpTick hviews names⟩
  obtain rfl := htold.named name r hr hm
  obtain ⟨_, hevents⟩ := htold.told _ r hr hm
  refine ⟨rfl, hevents.roster, fun pid => ?_⟩
  have hpid := hevents pid
  rwa [decide_eq_decide.2 List.mem_toFinset] at hpid

/-- A snapshot with one lobby. -/
def sampleViews (pids : List Bytes) : List LobbyRTCRoomView :=
  [{ lobbyId := str "l", roomName := rtcRoomName (str "l"), memberPids := pids }]

/-- The second member leaves the room when the third one comes. -/
theorem participants_replayed_sample :
    ∃ s, Run RTCInterface.step DistinctMembers (.start (str "a")) s ∧
      s.eventsSince (str "l") = [(str "a", true), (str "b", true), (str "c", true),
        (str "b", false)] ∧
      ∀ name r, s.rooms.get? name = some r → r.lobbyManaged = true →
        name = rtcRoomName r.lobbyId ∧ roster (s.eventsSince r.lobbyId) = r.participants.toFinset ∧
          ∀ pid, Alternates (decide (pid ∈ r.participants))
            (reports pid (s.eventsSince r.lobbyId)) := by
  have hok : ∀ s pids, pids.Nodup →
      DistinctMembers s (.pumpTick (sampleViews pids) [rtcRoomName (str "l")]) := by
    intro s pids hnd v hv
    rw [List.mem_singleton.1 hv]
    exact ⟨rfl, hnd⟩
  have hrun : Run RTCInterface.step DistinctMembers (.start (str "a")) _ :=
    .tail (.pumpTick (sampleViews [str "c", str "a"]) [rtcRoomName (str "l")])
      (.tail (.pumpTick (sampleViews [str "a", str "b"]) [rtcRoomName (str "l")]) .refl
        (hok _ _ (by decide)) rfl)
      (hok _ _ (by decide)) rfl
  exact ⟨_, hrun, by decide +kernel, (participants_replayed hrun).1⟩

end EOSEmu
