import EOSEmu.Lib.Trace
import EOSEmu.RTC.Rooms

/-!
# The audio status of a room

A room keeps the audio status that the local user has chosen, and the game hears of it through the
participant updates (`RTC.cpp`). `SetLocalAudioStatus` posts an update where the status changes.
`PumpTick` posts one that says "disabled" for every participant it finds to be new, the local user
among them: where an announce of the lobby has left the local user out and a later one names it
again, the game is told "disabled" while the room keeps the old status, until the status changes
(`audio_told`).
-/

namespace EOSEmu

open Lib

/-- The audio status that a post tells of a participant. -/
def RTCPost.audio? (room pid : Bytes) : RTCPost → Option SdkInt
  | .audioParticipantUpdated name p status => if name = room ∧ p = pid then some status else none
  | _ => none

/-- The audio status of a participant that the posts of a room told last. -/
def RTCInterface.heard (s : RTCInterface) (room pid : Bytes) : Option SdkInt :=
  (s.posts.filterMap (RTCPost.audio? room pid)).getLast?

section
variable {s t u : RTCInterface} {room name pid : Bytes} {r : Room} {v : LobbyRTCRoomView}
  {views : List LobbyRTCRoomView}

/-! ## Posts -/

/-- What is heard after some more posts. -/
theorem heard_append (posts new : List RTCPost) (rooms : Dict Bytes Room) :
    RTCInterface.heard { s with rooms, posts := posts ++ new } room pid =
      (new.filterMap (RTCPost.audio? room pid)).getLast?.or
        (posts.filterMap (RTCPost.audio? room pid)).getLast? := by
  rw [RTCInterface.heard, List.filterMap_append, List.getLast?_append]

/-- The participants that join are disabled. -/
theorem audio?_bundles (name : Bytes) (pids : List Bytes) :
    ((pids.flatMap (participantJoinedBundle name)).filterMap (RTCPost.audio? room pid)).getLast? =
      if name = room ∧ pid ∈ pids then some audioDisabled else none := by
  have hbundles : (pids.flatMap (participantJoinedBundle name)).filterMap
    (RTCPost.audio? room pid) =
      if name = room then List.replicate (pids.count pid) audioDisabled else [] := by
    induction pids with
    | nil => simp
    | cons p pids ih =>
        have hone : (participantJoinedBundle name p).filterMap (RTCPost.audio? room pid) =
            if name = room ∧ p = pid then [audioDisabled] else [] := by
          unfold participantJoinedBundle
          split
          · next h => simp [List.filterMap_cons, RTCPost.audio?, h]
          · next h => simp [List.filterMap_cons, RTCPost.audio?, h]
        rw [List.flatMap_cons, List.filterMap_append, hone, ih]
        by_cases hname : name = room
        · rcases eq_or_ne p pid with rfl | hp
          · simp [hname, List.replicate_succ]
          · simp [hname, hp]
        · simp [hname]
  rw [hbundles]
  by_cases hname : name = room
  · simp [hname, List.getLast?_replicate, List.count_eq_zero]
  · simp [hname]

/-- A participant that leaves is no news about its audio. -/
theorem audio?_left (name : Bytes) (pids : List Bytes) :
    (pids.map (RTCPost.participantStatus name · false)).filterMap (RTCPost.audio? room pid) =
      [] := by
  rw [List.filterMap_map]
  exact List.filterMap_eq_nil_iff.2 fun _ _ => rfl

/-! ## One call -/

/-- A step that leaves the room as it is, and tells nothing of its participants. -/
structure QuietAbout (room : Bytes) (s t : RTCInterface) : Prop where
  localPid : t.localPid = s.localPid
  same : t.rooms.get? room = s.rooms.get? room
  heard : ∀ pid, t.heard room pid = s.heard room pid

/-- Nothing was said about the room. -/
theorem QuietAbout.refl (room : Bytes) (s : RTCInterface) : QuietAbout room s s :=
  ⟨rfl, rfl, fun _ => rfl⟩

/-- Nothing was said, and nothing again. -/
theorem QuietAbout.trans (h : QuietAbout room s t) (h' : QuietAbout room t u) :
    QuietAbout room s u :=
  ⟨h'.localPid.trans h.localPid, h'.same.trans h.same,
    fun pid => (h'.heard pid).trans (h.heard pid)⟩

/-- What a snapshot does to a room it lists: its new participants are disabled, and the others are
not told of. -/
structure Reconciled (room : Bytes) (s t : RTCInterface) : Prop where
  localPid : t.localPid = s.localPid
  status : ∃ r', t.rooms.get? room = some r' ∧
    r'.localAudioStatus = ((s.rooms.get? room).map (·.localAudioStatus)).getD audioDisabled ∧
    ∀ pid ∈ r'.participants, t.heard room pid =
      if ∃ r, s.rooms.get? room = some r ∧ pid ∈ r.participants then s.heard room pid
      else some audioDisabled

/-- What happens in another room says nothing about this one. -/
theorem quietAbout_set {new : List RTCPost} (hne : room ≠ name)
    (hnew : ∀ pid, (new.filterMap (RTCPost.audio? room pid)).getLast? = none) :
    QuietAbout room s { s with rooms := s.rooms.set name r, posts := s.posts ++ new } := by
  refine ⟨rfl, ?_, fun pid => ?_⟩
  · rw [Dict.get?_set, if_neg hne]
  · rw [heard_append, hnew]
    rfl

/-- Another lobby's view says nothing about the room. -/
theorem quiet_pumpView (h : v.roomName ≠ room) : QuietAbout room s (s.pumpView v) := by
  have hbundles : ∀ (pids : List Bytes) (pid : Bytes),
    ((pids.flatMap (participantJoinedBundle v.roomName)).filterMap
      (RTCPost.audio? room pid)).getLast? = none := by
    intro pids pid
    rw [audio?_bundles, if_neg fun hc => h hc.1]
  unfold RTCInterface.pumpView
  split
  · exact quietAbout_set h.symm fun pid => hbundles v.memberPids pid
  · refine quietAbout_set h.symm fun pid => ?_
    rw [List.filterMap_append, audio?_left, List.append_nil, hbundles]

/-- The room of a view is reconciled with it. -/
theorem reconciled_pumpView (s : RTCInterface) (v : LobbyRTCRoomView) :
    Reconciled v.roomName s (s.pumpView v) := by
  unfold RTCInterface.pumpView
  cases hroom : s.rooms.get? v.roomName with
  | none =>
      refine ⟨rfl, _, by rw [Dict.get?_set, if_pos rfl], by rw [hroom]; rfl, fun pid hpid => ?_⟩
      rw [heard_append, List.filterMap_cons]
      dsimp only [RTCPost.audio?]
      rw [audio?_bundles, if_pos ⟨rfl, hpid⟩, if_neg (by simp [hroom])]
      rfl
  | some r =>
      refine ⟨rfl, _, by rw [Dict.get?_set, if_pos rfl], by rw [hroom]; rfl, fun pid hpid => ?_⟩
      have hknown : (∃ r, s.rooms.get? v.roomName = some r ∧ pid ∈ r.participants) ↔
        pid ∈ r.participants := by
        simp [hroom]
      rw [heard_append, List.filterMap_append, List.getLast?_append, audio?_bundles, audio?_left]
      simp only [hknown, List.mem_filter, decide_eq_true_eq]
      by_cases hold : pid ∈ r.participants
      · rw [if_pos hold, if_neg fun hc => hc.2.2 hold]
        rfl
      · rw [if_neg hold, if_pos ⟨trivial, hpid, hold⟩]
        rfl

/-- A room that stays is not spoken of in the second loop. -/
theorem quiet_pumpRoom {r' : Room} (hroom : (s.pumpRoom views name).rooms.get? room = some r') :
    QuietAbout room s (s.pumpRoom views name) := by
  unfold RTCInterface.pumpRoom at hroom ⊢
  split at hroom
  · exact .refl room s
  · split at hroom
    · next hgone =>
        rw [if_pos hgone]
        rw [Dict.get?_erase] at hroom
        obtain ⟨hne, _⟩ := Option.ite_none_left_eq_some.1 hroom
        refine ⟨rfl, ?_, fun pid => ?_⟩
        · rw [Dict.get?_erase, if_neg hne]
        · rw [heard_append]
          rfl
    · next hkept =>
        rw [if_neg hkept]
        exact .refl room s

/-- The second loop of `PumpTick` tells nothing of the rooms it keeps. -/
theorem quiet_pumpRooms {r' : Room} {names : List Bytes}
    (hroom : (names.foldl (RTCInterface.pumpRoom views) s).rooms.get? room = some r') :
    QuietAbout room s (names.foldl (RTCInterface.pumpRoom views) s) := by
  induction names generalizing s with
  | nil => exact .refl room s
  | cons name names ih =>
      have hrest := ih hroom
      rw [List.foldl_cons, hrest.same] at hroom
      exact (quiet_pumpRoom hroom).trans hrest

/-- News, and then nothing about the room. -/
theorem Reconciled.quiet (h : Reconciled room s t) (h' : QuietAbout room t u) :
    Reconciled room s u := by
  obtain ⟨r', hroom, hstatus, hheard⟩ := h.status
  refine ⟨h'.localPid.trans h.localPid, r', h'.same.trans hroom, hstatus, fun pid hpid => ?_⟩
  rw [h'.heard, hheard pid hpid]

/-- Nothing about the room, and then news. -/
theorem QuietAbout.reconciled (h : QuietAbout room s t) (h' : Reconciled room t u) :
    Reconciled room s u := by
  obtain ⟨r', hroom, hstatus, hheard⟩ := h'.status
  rw [h.same] at hstatus hheard
  refine ⟨h'.localPid.trans h.localPid, r', hroom, hstatus, fun pid hpid => ?_⟩
  rw [hheard pid hpid, h.heard]

/-- Other lobbies' views say nothing about the room. -/
theorem quiet_pumpViews (h : room ∉ views.map (·.roomName)) (s : RTCInterface) :
    QuietAbout room s (views.foldl RTCInterface.pumpView s) := by
  induction views generalizing s with
  | nil => exact .refl room s
  | cons v views ih =>
      rw [List.map_cons, List.mem_cons, not_or] at h
      exact (quiet_pumpView (Ne.symm h.1)).trans (ih h.2 _)

/-- The first loop of `PumpTick` reconciles the rooms it lists, each once. -/
theorem reconciled_pumpViews (room : Bytes) (hnodup : (views.map (·.roomName)).Nodup)
    (s : RTCInterface) :
    QuietAbout room s (views.foldl RTCInterface.pumpView s) ∨
    Reconciled room s (views.foldl RTCInterface.pumpView s) := by
  induction views generalizing s with
  | nil => exact .inl (.refl room s)
  | cons v views ih =>
      obtain ⟨hnew, hnodup⟩ := List.nodup_cons.1 hnodup
      rw [List.foldl_cons]
      rcases eq_or_ne v.roomName room with rfl | hne
      · exact .inr ((reconciled_pumpView s v).quiet (quiet_pumpViews hnew _))
      · exact (ih hnodup (s.pumpView v)).imp (quiet_pumpView hne).trans
          (quiet_pumpView hne).reconciled

/-- A new room has the local user in it. -/
theorem reconciled_joinCustomRoom (hroom : s.rooms.get? room = none) :
    Reconciled room s (s.joinCustomRoom room).2 := by
  unfold RTCInterface.joinCustomRoom
  rw [hroom]
  refine ⟨rfl, _, by rw [Dict.get?_set, if_pos rfl], by rw [hroom]; rfl, fun pid hpid => ?_⟩
  rw [heard_append, ← List.flatMap_singleton (participantJoinedBundle room), audio?_bundles,
    if_pos ⟨rfl, hpid⟩, if_neg (by simp [hroom])]
  rfl

/-- A change of the audio status is told. -/
structure StatusChanged (room : Bytes) (status : SdkInt) (s t : RTCInterface) : Prop where
  localPid : t.localPid = s.localPid
  kept : ∃ r, s.rooms.get? room = some r ∧ r.localAudioStatus ≠ status ∧
    t.rooms.get? room = some { r with localAudioStatus := status }
  heard : t.heard room s.localPid = some status
  others : ∀ pid, pid ≠ s.localPid → t.heard room pid = s.heard room pid

/-- A changed status is told once, as the local user's. -/
theorem statusChanged_setLocalAudioStatus {status : SdkInt} (hroom : s.rooms.get? room = some r)
    (hne : r.localAudioStatus ≠ status) :
      StatusChanged room status s (s.setLocalAudioStatus room status).2 := by
  unfold RTCInterface.setLocalAudioStatus
  rw [hroom]
  dsimp only
  rw [if_pos hne]
  refine ⟨rfl, ⟨r, hroom, hne, by rw [Dict.get?_set, if_pos rfl]⟩, ?_, fun pid hpid => ?_⟩
  · rw [heard_append]
    simp [RTCPost.audio?]
  · rw [heard_append]
    simp [RTCPost.audio?, hpid.symm, RTCInterface.heard]

end

/-! ## A run -/

abbrev RTCTransition := Transition RTCNode RTCAction

/-- A snapshot names the local user again, which the one before had left out of the room. -/
def Readmits (room : Bytes) (x : RTCTransition) : Prop :=
  ∃ r r', x.pre.rtc.rooms.get? room = some r ∧ x.post.rtc.rooms.get? room = some r' ∧
    x.pre.rtc.localPid ∉ r.participants ∧ x.pre.rtc.localPid ∈ r'.participants

/-- The game changes the audio status of the room. -/
def ChangesStatus (room : Bytes) (x : RTCTransition) : Prop :=
  ∃ status r, x.action = .setLocalAudioStatus room status ∧ x.pre.rtc.rooms.get? room = some r ∧
    r.localAudioStatus ≠ status

section
variable {l : List RTCTransition} {n n' : RTCNode} {a : RTCAction} {room localPid : Bytes}
  {r' : Room}

/-- A snapshot lists each room once. -/
theorem snapshot_rooms_nodup {s : LobbyInterface} {ids : List Bytes} (h : ids.Nodup) :
    ((s.snapshotRTCRooms ids).map (·.roomName)).Nodup := by
  have hids : ((s.snapshotRTCRooms ids).map (·.lobbyId)).Sublist ids := by
    clear h
    unfold LobbyInterface.snapshotRTCRooms
    induction ids with
    | nil => exact .slnil
    | cons id ids ih =>
        rw [List.filterMap_cons]
        split
        · exact ih.cons id
        · next v hv =>
            split at hv
            · cases hv
            · obtain ⟨_, heq⟩ := Option.ite_none_left_eq_some.1 hv
              cases heq
              exact ih.cons_cons id
  have hnames : (s.snapshotRTCRooms ids).map (·.roomName) =
    ((s.snapshotRTCRooms ids).map (·.lobbyId)).map rtcRoomName := by
    rw [List.map_map]
    exact List.map_congr_left snapshot_roomName
  rw [hnames]
  exact (h.sublist hids).map fun _ _ => rtcRoomName_inj.1

/-- What a step does to a room that stays or comes. -/
theorem audio_step (hst : n.step a = some n') (hroom : n'.rtc.rooms.get? room = some r') :
    ((QuietAbout room n.rtc n'.rtc ∨ Reconciled room n.rtc n'.rtc) ∧
    ¬ ChangesStatus room ⟨n, a, n'⟩) ∨
      (∃ status, StatusChanged room status n.rtc n'.rtc) ∧ ChangesStatus room ⟨n, a, n'⟩ := by
  have hother : (∀ status, a ≠ .setLocalAudioStatus room status) →
    ¬ ChangesStatus room ⟨n, a, n'⟩ := by
    rintro hne ⟨status, _, haction, _⟩
    exact hne status haction
  cases a with
  | lobby b =>
      obtain ⟨_, _, rfl⟩ := Option.map_eq_some_iff.1 hst
      exact .inl ⟨.inl (.refl room _), hother (by simp)⟩
  | joinCustomRoom name =>
      cases hst
      refine .inl ⟨?_, hother (by simp)⟩
      cases hname : n.rtc.rooms.get? name with
      | some r =>
          left
          simp only [RTCInterface.joinCustomRoom, hname]
          exact .refl room _
      | none =>
          rcases eq_or_ne room name with rfl | hne
          · exact .inr (reconciled_joinCustomRoom hname)
          · left
            simp only [RTCInterface.joinCustomRoom, hname]
            refine quietAbout_set hne fun pid => ?_
            simp [participantJoinedBundle, List.filterMap_cons, RTCPost.audio?, hne.symm]
  | leaveCustomRoom name =>
      cases hst
      refine .inl ⟨.inl ?_, hother (by simp)⟩
      unfold RTCInterface.leaveCustomRoom at hroom ⊢
      split
      · exact .refl room _
      · next r hr =>
          rw [hr] at hroom
          split
          · exact .refl room _
          · next hcustom =>
              dsimp only at hroom
              rw [if_neg hcustom, Dict.get?_erase] at hroom
              obtain ⟨hne, _⟩ := Option.ite_none_left_eq_some.1 hroom
              exact ⟨rfl, by rw [Dict.get?_erase, if_neg hne], fun _ => rfl⟩
  | setLocalAudioStatus name status =>
      cases hst
      cases hname : n.rtc.rooms.get? name with
      | none =>
          refine .inl ⟨.inl ?_, ?_⟩
          · simp only [RTCInterface.setLocalAudioStatus, hname]
            exact .refl room _
          · rintro ⟨_, _, haction, hr, _⟩
            cases haction
            cases hname.symm.trans hr
      | some r =>
          rcases eq_or_ne room name with rfl | hne
          · by_cases hsame : r.localAudioStatus = status
            · refine .inl ⟨.inl ?_, ?_⟩
              · simp only [RTCInterface.setLocalAudioStatus, hname]
                refine ⟨rfl, ?_, fun pid => ?_⟩
                · rw [Dict.get?_set, if_pos rfl, hname, ← hsame]
                · rw [heard_append, if_neg (not_not.2 hsame)]
                  rfl
              · rintro ⟨_, _, haction, hr, hchanged⟩
                cases haction
                cases hname.symm.trans hr
                exact hchanged hsame
            · exact .inr ⟨⟨status, statusChanged_setLocalAudioStatus hname hsame⟩, status, r, rfl,
                hname, hsame⟩
          · refine .inl ⟨.inl ?_, ?_⟩
            · simp only [RTCInterface.setLocalAudioStatus, hname]
              refine quietAbout_set hne fun pid => ?_
              split
              · simp [RTCPost.audio?, hne.symm]
              · rfl
            · rintro ⟨_, _, haction, _⟩
              cases haction
              exact hne rfl
  | pumpTick ids names =>
      obtain ⟨⟨hnodup, _⟩, heq⟩ := Option.ite_none_right_eq_some.1 hst
      cases heq
      refine .inl ⟨?_, hother (by simp)⟩
      have hviews : ((n.lobby.lobby.snapshotRTCRooms ids).map (·.roomName)).Nodup :=
        snapshot_rooms_nodup hnodup
      have hrest := quiet_pumpRooms hroom
      exact (reconciled_pumpViews room hviews n.rtc).imp (·.trans hrest) (·.quiet hrest)

/-- What the game has heard of a room. -/
structure AudioTold (localPid : Bytes) (l : List RTCTransition) (n : RTCNode) (room : Bytes)
    (r : Room) : Prop where
  /-- The other participants are disabled. -/
  others : ∀ pid ∈ r.participants, pid ≠ localPid → n.rtc.heard room pid = some audioDisabled
  /-- The local user has the status of the room, unless a snapshot has admitted it again since the
  last change. -/
  chosen : localPid ∈ r.participants → ¬ Since (Readmits room) (ChangesStatus room) l →
    n.rtc.heard room localPid = some r.localAudioStatus
  readmitted : localPid ∈ r.participants → Since (Readmits room) (ChangesStatus room) l →
    n.rtc.heard room localPid = some audioDisabled

/-- Steps that keep the local user, one after the other. -/
theorem localPid_foldl {β : Type} {f : RTCInterface → β → RTCInterface}
    (hf : ∀ s b, (f s b).localPid = s.localPid) (l : List β) (s : RTCInterface) :
    (l.foldl f s).localPid = s.localPid := by
  induction l generalizing s with
  | nil => rfl
  | cons b l ih => rw [List.foldl_cons, ih, hf]

/-- No step changes the local user. -/
theorem localPid_step (hst : n.step a = some n') : n'.rtc.localPid = n.rtc.localPid := by
  cases a with
  | lobby b =>
      obtain ⟨_, _, rfl⟩ := Option.map_eq_some_iff.1 hst
      rfl
  | joinCustomRoom name =>
      cases hst
      unfold RTCInterface.joinCustomRoom
      split <;> rfl
  | leaveCustomRoom name =>
      cases hst
      unfold RTCInterface.leaveCustomRoom
      split
      · rfl
      · split <;> rfl
  | setLocalAudioStatus name status =>
      cases hst
      unfold RTCInterface.setLocalAudioStatus
      split <;> rfl
  | pumpTick ids names =>
      obtain ⟨_, heq⟩ := Option.ite_none_right_eq_some.1 hst
      cases heq
      have hview : ∀ s v, (RTCInterface.pumpView s v).localPid = s.localPid := fun s v => by
        unfold RTCInterface.pumpView
        split <;> rfl
      have hroom : ∀ s name, (RTCInterface.pumpRoom (n.lobby.lobby.snapshotRTCRooms ids) s
        name).localPid = s.localPid := by
        intro s name
        unfold RTCInterface.pumpRoom
        split
        · rfl
        · split <;> rfl
      exact (localPid_foldl hroom names _).trans (localPid_foldl hview _ _)

/-- A step keeps what was told last of every participant. -/
theorem AudioTold.step
    (h : ∀ r, n.rtc.rooms.get? room = some r → AudioTold n.rtc.localPid l n room r)
    (hst : n.step a = some n') (hroom : n'.rtc.rooms.get? room = some r') :
    AudioTold n.rtc.localPid (l ++ [⟨n, a, n'⟩]) n' room r' := by
  rcases audio_step hst hroom with ⟨hquiet | hreconciled, hstays⟩ | ⟨⟨status, hchanged⟩, hchanges⟩
  · -- nothing is told of the room
    have hr : n.rtc.rooms.get? room = some r' := hquiet.same.symm.trans hroom
    obtain ⟨hothers, hchosen, hreadmitted⟩ := h r' hr
    have hnot : ¬ Readmits room ⟨n, a, n'⟩ := by
      rintro ⟨r₁, r₂, h₁, h₂, hout, hin⟩
      cases hr.symm.trans h₁
      cases hroom.symm.trans h₂
      exact hout hin
    have hsince : Since (Readmits room) (ChangesStatus room) (l ++ [⟨n, a, n'⟩]) ↔
        Since (Readmits room) (ChangesStatus room) l := by simp [since_snoc, hnot, hstays]
    refine ⟨fun pid hpid hne => ?_, fun hin hs => ?_, fun hin hs => ?_⟩ <;> rw [hquiet.heard]
    · exact hothers pid hpid hne
    · exact hchosen hin (mt hsince.2 hs)
    · exact hreadmitted hin (hsince.1 hs)
  · -- a snapshot lists the room
    obtain ⟨r₂, h₂, hstatus, hheard⟩ := hreconciled.status
    cases hroom.symm.trans h₂
    cases hr : n.rtc.rooms.get? room with
    | none =>
        rw [hr] at hstatus hheard
        have hnew : ∀ pid ∈ r'.participants, n'.rtc.heard room pid = some audioDisabled := by
          simpa using hheard
        refine ⟨fun pid hpid _ => hnew pid hpid, fun hin _ => ?_, fun hin _ => hnew _ hin⟩
        rw [hnew _ hin, hstatus]
        rfl
    | some r =>
        obtain ⟨hothers, hchosen, hreadmitted⟩ := h r hr
        have hkept : ∀ pid ∈ r'.participants, n'.rtc.heard room pid =
            if pid ∈ r.participants then n.rtc.heard room pid else some audioDisabled := by
          simpa [hr] using hheard
        have hsame : r'.localAudioStatus = r.localAudioStatus := by simpa [hr] using hstatus
        refine ⟨fun pid hpid hne => ?_, fun hin hs => ?_, fun hin hs => ?_⟩
        · rw [hkept pid hpid]
          split
          · next hold => exact hothers pid hold hne
          · rfl
        · have hold : n.rtc.localPid ∈ r.participants := by
            by_contra hout
            exact hs (.now ⟨r, r', hr, hroom, hout, hin⟩)
          rw [hkept _ hin, if_pos hold, hsame]
          exact hchosen hold fun hsince => hs (hsince.later hstays)
        · rw [hkept _ hin]
          split
          · next hold =>
              refine hreadmitted hold ?_
              rcases since_snoc.1 hs with ⟨r₁, _, h₁, _, hout, _⟩ | ⟨hsince, _⟩
              · cases hr.symm.trans h₁
                exact absurd hold hout
              · exact hsince
          · rfl
  · -- the game changes the status
    obtain ⟨r, hr, _, hnow⟩ := hchanged.kept
    cases hroom.symm.trans hnow
    have hnot : ¬ Readmits room ⟨n, a, n'⟩ := by
      rintro ⟨r₁, r₂, h₁, h₂, hout, hin⟩
      cases hr.symm.trans h₁
      cases hroom.symm.trans h₂
      exact hout hin
    refine ⟨fun pid hpid hne => ?_, fun _ _ => hchanged.heard, fun _ hs => ?_⟩
    · rw [hchanged.others pid hne]
      exact (h r hr).others pid hpid hne
    · rcases since_snoc.1 hs with hagain | ⟨_, hstays⟩
      · exact absurd hagain hnot
      · exact absurd hchanges hstays

/-- **The audio status is told.** In every run of the lobbies and the voice rooms: the game was
told last of each other participant of its rooms that it is disabled, and of the local user the
status that the game has chosen, unless a snapshot has named the local user again since the last
change; then the game was told "disabled", whatever the room says. -/
theorem audio_told (h : Trace RTCNode.step Always (.start localPid) l n) {r : Room}
    (hr : n.rtc.rooms.get? room = some r) : AudioTold localPid l n room r := by
  have hkept : n.rtc.localPid = localPid ∧ ∀ r, n.rtc.rooms.get? room = some r →
    AudioTold localPid l n room r := by
    refine h.invariant (P := fun l n => n.rtc.localPid = localPid ∧
      ∀ r, n.rtc.rooms.get? room = some r → AudioTold localPid l n room r) ⟨rfl, fun _ hnone => ?_⟩
      fun l n n' a _ hk _ hst => ?_
    · cases hnone
    · obtain ⟨rfl, htold⟩ := hk
      exact ⟨localPid_step hst, fun r hroom => AudioTold.step htold hst hroom⟩
  exact hkept.2 r hr

/-- An announce of a lobby with a voice room. -/
def voiceAnnounce (members : List String) : RTCAction :=
  .lobby (.datagram 0 {} (.announce
    { lobbyId := str "l"
      ownerProductId := str "a"
      maxMembers := 4
      bRTCRoomEnabled := eosTrue
      members := members.map fun pid => { productId := str pid } }))

/-- A tick in the room of that lobby. -/
def voiceTick : RTCAction := .pumpTick [str "l"] [rtcRoomName (str "l")]

/-- The user joins and enables its audio; the owner's next announce does not name it yet, and the
one after that does. -/
def sampleReadmission : List RTCAction :=
  [voiceAnnounce ["a"], .lobby (.joinLobbyById (str "l") (str "b")), voiceTick,
    .setLocalAudioStatus (rtcRoomName (str "l")) 1, voiceAnnounce ["a"], voiceTick,
      voiceAnnounce ["a", "b"], voiceTick]

/-- The room is enabled, and the game was told last that it is not. -/
theorem audio_told_sample : ∃ n r, exec RTCNode.step (.start (str "b")) sampleReadmission =
    some n ∧ n.rtc.rooms.get? (rtcRoomName (str "l")) = some r ∧
    AudioTold (str "b") (transitions RTCNode.step (.start (str "b")) sampleReadmission) n
      (rtcRoomName (str "l")) r ∧
    r.localAudioStatus = 1 ∧ n.rtc.heard (rtcRoomName (str "l")) (str "b") =
      some audioDisabled := by
  have hrun : (exec RTCNode.step (.start (str "b")) sampleReadmission).bind (fun n =>
      (n.rtc.rooms.get? (rtcRoomName (str "l"))).map fun r =>
        (r.localAudioStatus, n.rtc.heard (rtcRoomName (str "l")) (str "b"))) = some
          (1, some audioDisabled) := by
    decide +kernel
  obtain ⟨n, hn, hroom⟩ := Option.bind_eq_some_iff.1 hrun
  obtain ⟨r, hr, hseen⟩ := Option.map_eq_some_iff.1 hroom
  obtain ⟨hstatus, hheard⟩ := Prod.mk.inj hseen
  exact ⟨n, r, hn, hr, audio_told (Trace.of_exec hn) hr, hstatus, hheard⟩

end

end EOSEmu
