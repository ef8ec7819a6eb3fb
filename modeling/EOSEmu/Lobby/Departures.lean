import EOSEmu.Lobby.Typed
import Mathlib.Data.List.Nodup
import Mathlib.Algebra.BigOperators.Group.List.Basic

/-!
# Departures are reported

The news that a member is gone reaches the other nodes as a `LobbyLeave` and as the announce of a
record without it. As long as each `LobbyLeave` finds the member in the record it is about, what a
node's game is told and what its record lists are in balance (`following_step`), and one departure
is reported once (`departure_reported_once`). A `LobbyLeave` that arrives twice is reported twice:
`not_departure_reported_once`.
-/

namespace EOSEmu

open Lib

/-! ## No member is listed twice -/

/-- The record lists each member once. -/
def LobbyRecord.Distinct (r : LobbyRecord) : Prop := (r.members.map (·.productId)).Nodup

namespace LobbyRecord
variable {r : LobbyRecord} {pid : Bytes}

/-- Removing a member keeps the members distinct. -/
theorem Distinct.eraseMember (h : r.Distinct) (pid : Bytes) : (r.eraseMember pid).Distinct :=
  h.sublist ((List.eraseP_sublist).map _)

/-- Adding a member who is not listed keeps the members distinct. -/
theorem Distinct.addMember (h : r.Distinct) (hnot : ¬ r.Lists pid) :
    (r.addMember pid).Distinct := by
  unfold Distinct LobbyRecord.addMember
  rw [List.map_append, List.nodup_append]
  refine ⟨h, List.nodup_singleton _, ?_⟩
  rintro p hp q hq rfl
  rw [List.map_singleton, List.mem_singleton] at hq
  rw [hq] at hp
  exact hnot hp

/-- Letting a member in keeps the members distinct. -/
theorem Distinct.withMember (h : r.Distinct) (pid : Bytes) : (r.withMember pid).Distinct := by
  unfold LobbyRecord.withMember
  split
  · next hnone =>
      refine h.addMember fun hl => ?_
      rw [← findMember_isSome, Option.isSome_iff_ne_none] at hl
      exact hl (Option.isNone_iff_eq_none.1 hnone)
  · exact h

/-- Changing a member's attributes keeps the members distinct. -/
theorem Distinct.withAttrs (h : r.Distinct) (pid : Bytes) (adds : AttrList) (removes : List Bytes) :
    (r.withAttrs pid adds removes).Distinct := by
  unfold Distinct LobbyRecord.withAttrs
  rw [modifyMember_productIds fun m => applyMemberAttrs_productId m _ _]
  exact h

/-- A modification keeps the members distinct. -/
theorem Distinct.applyModification (h : r.Distinct) (m : LobbyModificationObj) :
    (EOSEmu.applyModification r m).Distinct := by
  unfold Distinct
  rw [applyModification_members, modifyMember_productIds fun m => applyMemberAttrs_productId m _ _]
  exact h

/-- An announce names the members of the record. -/
theorem carried_productIds (r : LobbyRecord) :
    r.carried.members.map (·.productId) = r.members.map (·.productId) := by
  unfold carried
  rw [List.map_map]
  rfl

/-- A member that is erased from a record is not listed in it any more. -/
theorem not_lists_eraseMember (h : r.Distinct) (pid : Bytes) :
    ¬ (r.eraseMember pid).Lists pid := by
  have herase : (r.eraseMember pid).members.map (·.productId) =
    (r.members.map (·.productId)).erase pid := by
    rw [List.erase_eq_eraseP', List.eraseP_map]
    exact congrArg (fun p => (r.members.eraseP p).map (·.productId))
      (funext fun m => (beq_eq_decide m.productId pid).symm)
  unfold Lists
  rw [herase]
  exact h.not_mem_erase

/-- A user that is not listed is not erased. -/
theorem eraseMember_of_not_lists (h : ¬ r.Lists pid) : r.eraseMember pid = r := by
  unfold eraseMember
  rw [List.eraseP_of_forall_not]
  intro m hm hp
  exact h (List.mem_map.2 ⟨m, hm, of_decide_eq_true hp⟩)

end LobbyRecord

/-- An announce lists each member once, and the reason of a `LobbyLeave` is one that nodes send. -/
def LobbyMessage.Sound : LobbyMessage → Prop
  | .announce r => r.Distinct
  | .leave _ _ reason => reason = lmsLeft ∨ reason = lmsKicked ∨ reason = lmsClosed
  | .update _ _ _ _ | .joinRequest _ _ => True

/-- A sound message is sound when it arrives. -/
theorem LobbyMessage.Sound.carried {m : LobbyMessage} (hm : m.Sound) : m.carried.Sound := by
  cases m with
  | announce r =>
      show r.carried.Distinct
      rw [LobbyRecord.Distinct, LobbyRecord.carried_productIds]
      exact hm
  | update | joinRequest | leave => exact hm

/-- The records of a node list each member once. -/
structure LobbyNode.Distinct (n : LobbyNode) : Prop where
  known : ∀ id r, n.lobby.known.get? id = some r → r.Distinct
  details : ∀ d ∈ n.details, d.Distinct

section
variable {n t : LobbyNode} {a : LobbyAction} {o : LobbyOutcome}

/-- A joined record has distinct members. -/
theorem LobbyNode.Distinct.joined (h : n.Distinct) {d : LobbyRecord} (hd : d.Distinct) :
    (n.lobby.joined d).Distinct := by
  unfold LobbyInterface.joined
  simp only
  split
  · exact hd
  · cases hr : n.lobby.known.get? d.lobbyId with
    | none => exact List.nodup_nil
    | some r => exact h.known _ r hr

/-- A section keeps the members distinct when the announce it takes in does. -/
theorem LobbyNode.Distinct.step (hd : n.Distinct)
    (hm : ∀ tick source m, a = .datagram tick source m → m.Sound) (h : n.step a = some t) :
      t.Distinct := by
  refine ⟨fun id r hr => ?_, fun d hd' => ?_⟩
  · have hv := LobbyNode.step_view h id
    replace hr : (t.lobby.view id).record = some r := hr
    have hold : ∀ r, (n.lobby.view id).record = some r → r.Distinct := hd.known id
    generalize n.lobby.view id = v at hv hold
    generalize t.lobby.view id = w at hv hr
    cases hv with
    | keep => exact hold r hr
    | create =>
        cases hr
        exact List.nodup_singleton _
    | ownerUpdate _ hrec _ =>
        cases hr
        exact (hold _ hrec).applyModification _
    | memberUpdate _ hrec _ _ =>
        cases hr
        exact (hold _ hrec).withAttrs _ _ _
    | destroy | leave | closed => cases hr
    | join hget _ _ =>
        cases hr
        exact (hd.joined (hd.details _ (List.mem_of_getElem? hget))).withMember _
    | joinById hrec _ =>
        cases hr
        exact (hold _ hrec).withMember _
    | migrate hrec _ _ _ _ =>
        cases hr
        exact (hold _ hrec).eraseMember _
    | promote _ hrec _ _ =>
        have hstored := hold _ hrec
        cases hr
        exact hstored
    | kick _ hrec _ =>
        cases hr
        exact (hold _ hrec).eraseMember _
    | announce _ _ _ =>
        cases hr
        exact hm _ _ _ rfl
    | update hrec _ _ =>
        cases hr
        exact (hold _ hrec).withAttrs _ _ _
    | joinRequest hrec _ hnone _ =>
        cases hr
        refine (hold _ hrec).addMember fun hl => ?_
        rw [← LobbyRecord.findMember_isSome, Option.isSome_iff_ne_none] at hl
        exact hl (Option.isNone_iff_eq_none.1 hnone)
    | left hrec _ =>
        cases hr
        split <;> exact (hold _ hrec).eraseMember _
  · obtain ⟨o, _, rfl⟩ := Option.map_eq_some_iff.1 h
    cases a with
    | copyDetails j =>
        rcases List.mem_append.1 hd' with hd' | hd'
        · exact hd.details d hd'
        · exact hd.known j d (Option.mem_toList.1 hd')
    | _ => exact hd.details d hd'

/-- A new node has no record with a member twice. -/
theorem LobbyNode.distinct_start (pid : Bytes) : (start pid).Distinct where
  known _ _ h := nomatch h
  details _ h := nomatch h

/-- What a node with distinct members sends is sound. -/
theorem LobbyNode.Distinct.sends (hd : t.Distinct) {s : LobbyInterface} {x : LobbySend}
    (hx : x.From s t.lobby) : x.message.Sound := by
  cases hx with
  | @announce id r hr _ =>
      exact hd.known id r hr
  | update | joinRequest => trivial
  | leave hreason => exact hreason

end

/-! ## What one section tells and lists -/

/-- The notification tells that the member left the lobby or was kicked from it. -/
def LobbyNote.isDeparture (id pid : Bytes) : LobbyNote → Bool
  | .memberStatus id' pid' status => id' == id && pid' == pid &&
    (status == lmsLeft || status == lmsKicked)
  | _ => false

/-- A `LobbyLeave` about a lobby the node is in or owns names a member that the record lists. -/
def Reports (n : LobbyNode) : LobbyAction → Prop
  | .datagram _ _ (.leave id pid reason) => reason ≠ lmsClosed →
      id ∈ n.lobby.memberOf ∨ id ∈ n.lobby.owned → ∀ r ∈ n.lobby.known.get? id, r.Lists pid
  | _ => True

/-- A section that lists the user again in no record that does not list it, replaces the record by
no new lobby's, and kicks the user from no lobby of the node's own. -/
def Tracks (n : LobbyNode) (id pid : Bytes) : LobbyAction → Prop
  | .createLobby tick o => newLobbyId o.localUserId tick n.lobby.lobbyCounter ≠ id
  | .joinLobby i me => ∀ d ∈ n.details[i]?, d.lobbyId = id → me ≠ pid
  | .joinLobbyById j me | .kickMember j me => j = id → me ≠ pid
  | .datagram _ _ (.announce r) => r.lobbyId = id → r.Lists pid →
    ∀ old ∈ n.lobby.known.get? id, old.Lists pid
  | .datagram _ _ (.joinRequest j joiner) => j = id → joiner ≠ pid
  | _ => True

instance (n : LobbyNode) (b : LobbyAction) : Decidable (Reports n b) :=
  match b with
  | .datagram _ _ (.leave id pid reason) => inferInstanceAs (Decidable (reason ≠ lmsClosed →
      id ∈ n.lobby.memberOf ∨ id ∈ n.lobby.owned → ∀ r ∈ n.lobby.known.get? id, r.Lists pid))
  | .createLobby _ _ | .updateLobby _ | .destroyLobby _ | .copyDetails _ | .joinLobby _
      _ | .joinLobbyById _ _
  | .leaveLobby _ _ | .promoteMember _ _ | .kickMember _ _ | .periodicAnnounce _ | .datagram _ _
      (.announce _)
  | .datagram _ _ (.update _ _ _ _) | .datagram _ _ (.joinRequest _ _) => .isTrue trivial

instance (n : LobbyNode) (id pid : Bytes) (b : LobbyAction) : Decidable (Tracks n id pid b) :=
  match b with
  | .createLobby tick o => inferInstanceAs
    (Decidable (newLobbyId o.localUserId tick n.lobby.lobbyCounter ≠ id))
  | .joinLobby i me => inferInstanceAs (Decidable (∀ d ∈ n.details[i]?, d.lobbyId = id → me ≠ pid))
  | .joinLobbyById j me | .kickMember j me => inferInstanceAs (Decidable (j = id → me ≠ pid))
  | .datagram _ _ (.announce r) => inferInstanceAs (Decidable (r.lobbyId = id → r.Lists pid →
      ∀ old ∈ n.lobby.known.get? id, old.Lists pid))
  | .datagram _ _ (.joinRequest j joiner) => inferInstanceAs (Decidable (j = id → joiner ≠ pid))
  | .updateLobby _ | .destroyLobby _ | .copyDetails _ | .leaveLobby _ _ | .promoteMember _
      _ | .periodicAnnounce _
  | .datagram _ _ (.update _ _ _ _) | .datagram _ _ (.leave _ _ _) => .isTrue trivial

/-- One if the record lists the user. -/
def LobbyRecord.listing (r : LobbyRecord) (pid : Bytes) : ℕ := if r.Lists pid then 1 else 0

/-- Records that agree on listing a user count the user alike. -/
theorem LobbyRecord.listing_congr {r r' : LobbyRecord} {pid : Bytes}
    (h : r'.Lists pid ↔ r.Lists pid) : r'.listing pid = r.listing pid := by
  simp only [listing, h]

section
variable {n : LobbyNode} {a : LobbyAction} {o : LobbyOutcome} {id pid : Bytes} {r : LobbyRecord}

/-- A member that a record lists is found once in it. -/
theorem LobbyRecord.Distinct.countP (h : r.Distinct) (pid : Bytes) :
    r.members.countP (fun m => m.productId == pid) = r.listing pid := by
  have hcount := h.count (a := pid)
  rw [List.count, List.countP_map] at hcount
  exact hcount

/-- The members that an announce leaves out are told to have left. -/
theorem departures_left {old fresh : LobbyRecord} (hold : old.Distinct) (hid : fresh.lobbyId = id)
    (hlists : fresh.Lists pid → old.Lists pid) :
    ((old.members.filter fun m => (fresh.findMember m.productId).isNone).map
      fun m => LobbyNote.memberStatus fresh.lobbyId m.productId lmsLeft).countP
        (LobbyNote.isDeparture id pid)
      + fresh.listing pid = old.listing pid := by
  have hnote : ∀ m : LobbyMemberRec, LobbyNote.isDeparture id pid
    (.memberStatus fresh.lobbyId m.productId lmsLeft) = (m.productId == pid) := by
    intro m
    simp [LobbyNote.isDeparture, hid]
  rw [List.countP_map, List.countP_filter]
  by_cases hl : fresh.Lists pid
  · have hzero : old.members.countP
      (fun m => (LobbyNote.isDeparture id pid ∘ fun m : LobbyMemberRec =>
        LobbyNote.memberStatus fresh.lobbyId m.productId lmsLeft) m &&
          (fresh.findMember m.productId).isNone) = 0 := by
      rw [List.countP_eq_zero]
      intro m _
      rw [Function.comp_apply, hnote, Bool.and_eq_true, beq_iff_eq]
      rintro ⟨rfl, hnone⟩
      rw [← LobbyRecord.findMember_isSome, Option.isSome_iff_ne_none] at hl
      exact hl (Option.isNone_iff_eq_none.1 hnone)
    rw [hzero, LobbyRecord.listing, LobbyRecord.listing, if_pos hl, if_pos (hlists hl)]
  · have hall : old.members.countP
      (fun m => (LobbyNote.isDeparture id pid ∘ fun m : LobbyMemberRec =>
        LobbyNote.memberStatus fresh.lobbyId m.productId lmsLeft) m &&
          (fresh.findMember m.productId).isNone)
        = old.members.countP fun m => m.productId == pid := by
      refine List.countP_congr fun m _ => ?_
      rw [Function.comp_apply, hnote, Bool.and_eq_true, beq_iff_eq]
      refine ⟨And.left, ?_⟩
      rintro rfl
      rw [← LobbyRecord.findMember_isSome, Bool.not_eq_true, Option.isSome_eq_false_iff] at hl
      exact ⟨rfl, hl⟩
    rw [hall, hold.countP, LobbyRecord.listing, LobbyRecord.listing, if_neg hl, Nat.add_zero]

/-- The announce of a record without a member tells once that it left. -/
theorem departures_announceNotes {old fresh : LobbyRecord} (hold : old.Distinct)
    (hid : fresh.lobbyId = id) (hlists : fresh.Lists pid → old.Lists pid) :
    (LobbyInterface.announceNotes old fresh).countP
      (LobbyNote.isDeparture id pid) + fresh.listing pid = old.listing pid := by
  have hjoined : ∀ l : List LobbyMemberRec,
    (l.map fun m => LobbyNote.memberStatus fresh.lobbyId m.productId
      lmsJoined).countP (LobbyNote.isDeparture id pid) = 0 := by
    intro l
    rw [List.countP_eq_zero]
    rintro x hx
    obtain ⟨m, _, rfl⟩ := List.mem_map.1 hx
    simp [LobbyNote.isDeparture, lmsJoined, lmsLeft, lmsKicked]
  have hchanged : ∀ l : List LobbyMemberRec, (l.map fun m => LobbyNote.memberUpdate fresh.lobbyId
      m.productId).countP (LobbyNote.isDeparture id pid) = 0 := by
    intro l
    rw [List.countP_eq_zero]
    rintro x hx
    obtain ⟨m, _, rfl⟩ := List.mem_map.1 hx
    simp [LobbyNote.isDeparture]
  have hleft := departures_left hold hid hlists
  have hupdate : (if fresh.version ≠ old.version then [LobbyNote.update fresh.lobbyId]
    else []).countP (LobbyNote.isDeparture id pid) = 0 := by
    split <;> rfl
  have hpromoted : (if old.ownerProductId ≠ fresh.ownerProductId ∧ fresh.ownerProductId ≠ [] then
      [LobbyNote.memberStatus fresh.lobbyId fresh.ownerProductId lmsPromoted] else []).countP
      (LobbyNote.isDeparture id pid) = 0 := by
    split
    · simp [LobbyNote.isDeparture, lmsPromoted, lmsLeft, lmsKicked]
    · rfl
  rw [LobbyInterface.announceNotes, List.countP_append, List.countP_append, List.countP_append,
    List.countP_append, hupdate, hjoined, hchanged, hpromoted]
  omega

/-- What a section tells about a departure and what it leaves listed add up to what was listed. -/
def Balanced (o : LobbyOutcome) (id pid : Bytes) (r : LobbyRecord) : Prop :=
  ∃ r', o.state.known.get? id = some r' ∧
    o.notes.countP (LobbyNote.isDeparture id pid) + r'.listing pid = r.listing pid

/-- Where nothing is told and the record lists the same. -/
theorem Balanced.of_same {r' : LobbyRecord} (hr' : o.state.known.get? id = some r')
    (hnotes : o.notes.countP (LobbyNote.isDeparture id pid) = 0)
    (hlists : r'.Lists pid ↔ r.Lists pid) : Balanced o id pid r :=
  ⟨r', hr', by rw [hnotes, Nat.zero_add, LobbyRecord.listing_congr hlists]⟩

/-- A call of a node that stays in the lobby. -/
theorem balanced_call (hk : n.Keyed) (htracks : Tracks n id pid a)
    (ha : ∀ tick source m, a ≠ .datagram tick source m) (hr : n.lobby.known.get? id = some r)
    (ho : n.outcome a = some o) (hstays : id ∈ o.state.memberOf) : Balanced o id pid r := by
  have hst : n.step a = some { lobby := o.state, details := n.held a } := by
    rw [LobbyNode.step, ho]; rfl
  have hv := LobbyNode.step_view hst id
  have hnotes : o.notes.countP (LobbyNote.isDeparture id pid) = 0 := by
    rw [LobbyNode.notes_of_call ho ha]
    rfl
  suffices hlists : ∃ r', (o.state.view id).record = some r' ∧ (r'.Lists pid ↔ r.Lists pid) by
    obtain ⟨r', hr', hsame⟩ := hlists
    exact .of_same hr' hnotes hsame
  have hmember : (o.state.view id).member = true := LobbyInterface.view_member.2 hstays
  have hrecord : (n.lobby.view id).record = some r := hr
  change ViewChange n id (n.lobby.view id) a (o.state.view id) at hv
  generalize n.lobby.view id = v at hv hrecord
  generalize o.state.view id = w at hv hmember
  cases hv with
  | keep => exact ⟨r, hrecord, Iff.rfl⟩
  | create _ _ hid => exact absurd hid.symm htracks
  | ownerUpdate _ hrec _ =>
      cases hrecord.symm.trans hrec
      exact ⟨_, rfl, LobbyRecord.lists_applyModification⟩
  | memberUpdate _ hrec _ _ =>
      cases hrecord.symm.trans hrec
      exact ⟨_, rfl, LobbyRecord.lists_withAttrs⟩
  | destroy | migrate | leave => cases hmember
  | join hd hid _ =>
      subst hid
      refine ⟨_, rfl, ?_⟩
      rw [hk.joined hr, LobbyRecord.lists_withMember]
      exact or_iff_left fun h => htracks _ hd rfl h.symm
  | joinById hrec _ =>
      cases hrecord.symm.trans hrec
      refine ⟨_, rfl, ?_⟩
      rw [LobbyRecord.lists_withMember]
      exact or_iff_left fun h => htracks rfl h.symm
  | promote _ hrec _ _ =>
      cases hrecord.symm.trans hrec
      exact ⟨_, rfl, Iff.rfl⟩
  | kick _ hrec _ =>
      cases hrecord.symm.trans hrec
      exact ⟨_, rfl, LobbyRecord.lists_eraseMember_of_ne fun h => htracks rfl h.symm⟩
  | announce | update | joinRequest | closed | left => exact absurd rfl (ha _ _ _)

/-- The announce of a record, at a member of the lobby. -/
theorem balanced_announce {tick : UInt64} {source : Endpoint} {fresh : LobbyRecord}
    (hd : n.Distinct) (htracks : Tracks n id pid (.datagram tick source (.announce fresh)))
    (hm : id ∈ n.lobby.memberOf) (hr : n.lobby.known.get? id = some r) :
      Balanced (n.lobby.onAnnounce tick source fresh) id pid r := by
  unfold LobbyInterface.onAnnounce
  split
  · exact .of_same hr rfl Iff.rfl
  · split
    · exact .of_same hr rfl Iff.rfl
    · by_cases hid : fresh.lobbyId = id
      · subst hid
        refine ⟨fresh.received tick source, (Dict.get?_set _ _ _ _).trans (if_pos rfl), ?_⟩
        simp only [if_pos hm, hr]
        exact departures_announceNotes (hd.known _ r hr) rfl fun hl => htracks rfl hl r hr
      · refine .of_same ((Dict.get?_set _ _ _ _).trans ((if_neg (Ne.symm hid)).trans hr)) ?_
          Iff.rfl
        rw [List.countP_eq_zero]
        intro x hx
        simp only at hx
        split at hx
        · split at hx
          · have hid' : (fresh.lobbyId == id) = false := beq_eq_false_iff_ne.2 hid
            simp only [LobbyInterface.announceNotes, List.mem_append, List.mem_map,
              List.mem_ite_nil_right, List.mem_singleton] at hx
            rcases hx with (((⟨_, rfl⟩ | ⟨_, _, rfl⟩) | ⟨_, _, rfl⟩) | ⟨_, _, rfl⟩) | ⟨_, rfl⟩ <;>
              simp [LobbyNote.isDeparture, hid']
          · cases hx
        · cases hx

/-- A `LobbyLeave`, at a member that stays in the lobby. -/
theorem balanced_leave {id' subject : Bytes} {reason : UInt8} (hd : n.Distinct)
    (hreason : reason = lmsLeft ∨ reason = lmsKicked ∨ reason = lmsClosed)
    (hreports : Reports n (.datagram 0 {} (.leave id' subject reason)))
    (hm : id ∈ n.lobby.memberOf) (hr : n.lobby.known.get? id = some r)
    (hstays : id ∈ (n.lobby.onLeave id' subject reason).state.memberOf) :
    Balanced (n.lobby.onLeave id' subject reason) id pid r := by
  unfold LobbyInterface.onLeave at *
  by_cases hid : id' = id
  · subst hid
    simp only [hr, if_pos hm] at hstays ⊢
    by_cases hclosed : reason = lmsClosed
    · simp only [if_pos hclosed, Finset.mem_erase] at hstays
      exact absurd rfl hstays.1
    · have hlisted := hreports hclosed (.inl hm) r hr
      simp only [if_neg hclosed]
      have hmem : ∀ q : LobbyRecord, (if id' ∈ n.lobby.owned then q.bump else q).listing pid =
        q.listing pid := by
        intro q
        split <;> rfl
      refine ⟨_, (Dict.get?_set _ _ _ _).trans (if_pos rfl), ?_⟩
      rw [hmem]
      by_cases hp : subject = pid
      · subst hp
        have hone : [LobbyNote.memberStatus id' subject reason].countP
          (LobbyNote.isDeparture id' subject) = 1 := by
          rcases hreason with rfl | rfl | rfl
          · simp [LobbyNote.isDeparture]
          · simp [LobbyNote.isDeparture]
          · exact absurd rfl hclosed
        have hgone := LobbyRecord.not_lists_eraseMember (hd.known _ r hr) subject
        rw [hone, LobbyRecord.listing, LobbyRecord.listing, if_neg hgone, if_pos hlisted]
      · have hnone : [LobbyNote.memberStatus id' subject reason].countP
          (LobbyNote.isDeparture id' pid) = 0 := by
          simp [LobbyNote.isDeparture, hp]
        rw [hnone, Nat.zero_add,
          LobbyRecord.listing_congr (LobbyRecord.lists_eraseMember_of_ne (r := r) (Ne.symm hp))]
  · have hnotes : ∀ b : Bool,
      (if b then [LobbyNote.memberStatus id' subject reason] else []).countP
        (LobbyNote.isDeparture id pid) = 0 := by
      intro b
      cases b <;> simp [LobbyNote.isDeparture, hid]
    cases hr' : n.lobby.known.get? id' with
    | none => exact .of_same hr rfl Iff.rfl
    | some q =>
        simp only
        split
        · refine .of_same ((Dict.get?_erase _ _ _).trans ((if_neg (Ne.symm hid)).trans hr)) ?_
            Iff.rfl
          simpa using hnotes (decide (id' ∈ n.lobby.memberOf))
        · refine .of_same ((Dict.get?_set _ _ _ _).trans ((if_neg (Ne.symm hid)).trans hr)) ?_
            Iff.rfl
          simpa using hnotes (decide (id' ∈ n.lobby.memberOf))

/-- A member's update, at the owner. -/
theorem balanced_update {id' member : Bytes} {adds : AttrList} {removes : List Bytes}
    (hr : n.lobby.known.get? id = some r) :
      Balanced (n.lobby.onUpdate id' member adds removes) id pid r := by
  unfold LobbyInterface.onUpdate
  cases hr' : n.lobby.known.get? id' with
  | none => exact .of_same hr rfl Iff.rfl
  | some q =>
      simp only
      split
      · by_cases hid : id' = id
        · subst hid
          cases hr.symm.trans hr'
          exact .of_same ((Dict.get?_set _ _ _ _).trans (if_pos rfl)) rfl
            LobbyRecord.lists_withAttrs
        · exact .of_same ((Dict.get?_set _ _ _ _).trans ((if_neg (Ne.symm hid)).trans hr)) rfl
            Iff.rfl
      · exact .of_same hr rfl Iff.rfl

/-- A join request, at the owner. -/
theorem balanced_joinRequest {tick : UInt64} {source : Endpoint} {id' joiner : Bytes}
    (htracks : Tracks n id pid (.datagram tick source (.joinRequest id' joiner)))
    (hr : n.lobby.known.get? id = some r) :
      Balanced (n.lobby.onJoinRequest id' joiner) id pid r := by
  have hnotes : [LobbyNote.memberStatus id' joiner lmsJoined].countP
    (LobbyNote.isDeparture id pid) = 0 := by
    simp [LobbyNote.isDeparture, lmsJoined, lmsLeft, lmsKicked]
  unfold LobbyInterface.onJoinRequest
  cases hr' : n.lobby.known.get? id' with
  | none => exact .of_same hr rfl Iff.rfl
  | some q =>
      simp only
      split
      · by_cases hid : id' = id
        · subst hid
          cases hr.symm.trans hr'
          refine .of_same ((Dict.get?_set _ _ _ _).trans (if_pos rfl)) hnotes ?_
          rw [LobbyRecord.lists_bump, LobbyRecord.lists_addMember]
          exact or_iff_left fun h => htracks rfl h.symm
        · exact .of_same ((Dict.get?_set _ _ _ _).trans ((if_neg (Ne.symm hid)).trans hr)) hnotes
            Iff.rfl
      · exact .of_same hr rfl Iff.rfl

/-- A section of a node that stays in the lobby. -/
theorem balanced_section (hk : n.Keyed) (hd : n.Distinct)
    (hsound : ∀ tick source m, a = .datagram tick source m → m.Sound) (hreports : Reports n a)
    (htracks : Tracks n id pid a) (hm : id ∈ n.lobby.memberOf)
    (hr : n.lobby.known.get? id = some r) (ho : n.outcome a = some o)
    (hstays : id ∈ o.state.memberOf) : Balanced o id pid r := by
  by_cases ha : ∀ tick source m, a ≠ .datagram tick source m
  · exact balanced_call hk htracks ha hr ho hstays
  · push Not at ha
    obtain ⟨tick, source, m, rfl⟩ := ha
    cases ho
    cases m with
    | announce fresh => exact balanced_announce hd htracks hm hr
    | update => exact balanced_update hr
    | joinRequest => exact balanced_joinRequest htracks hr
    | leave => exact balanced_leave hd (hsound tick source _ rfl) hreports hm hr hstays

/-- A `LobbyLeave` that names nobody the record lists changes nothing: the node is neither in the
lobby nor its owner. -/
theorem ignored_leave {tick : UInt64} {source : Endpoint} {id' subject : Bytes} {reason : UInt8}
    (hreports : Reports n (.datagram tick source (.leave id' subject reason)))
    (hclosed : reason ≠ lmsClosed) (habsent : ∀ r ∈ n.lobby.known.get? id', ¬ r.Lists subject) :
    let o := n.lobby.onLeave id' subject reason
    o.notes = [] ∧ o.sends = [] ∧ o.state.known.get? id' = n.lobby.known.get? id' := by
  unfold LobbyInterface.onLeave
  cases hr : n.lobby.known.get? id' with
  | none => exact ⟨rfl, rfl, hr⟩
  | some r =>
      have hnot := habsent r hr
      have hout : ¬(id' ∈ n.lobby.memberOf ∨ id' ∈ n.lobby.owned) := fun h =>
        hnot (hreports hclosed h r hr)
      rw [not_or] at hout
      simp only [if_neg hclosed, if_neg hout.1, if_neg hout.2,
        LobbyRecord.eraseMember_of_not_lists hnot, Dict.get?_set, if_true, and_self]

end

/-! ## The network -/

section
variable {endpoint : Bytes → Endpoint} {w w' : LobbyWorld} {a : LobbyEvent} {s j id pid : Bytes}

/-- The nodes and messages of a run of typed calls list no member twice. -/
theorem LobbyWorld.sound_of_run {ok : LobbyWorld → LobbyEvent → Prop}
    (h : Run (lobbyProtocol endpoint).step ok LobbyWorld.start w)
    (htyped : ∀ u a, ok u a → TypedCalls u a) :
    Carries (fun _ n => n.Distinct) LobbyMessage.Sound w := by
  refine h.invariant (carries_start LobbyNode.distinct_start) fun u v a hu hok hst => ?_
  refine carries_step (fun _ => LobbyMessage.Sound.carried) hu (htyped u a hok) hst ?_
  intro i b o n _ ho hn hstate hm
  have ht := (hu.nodes i).2.step hm hn
  exact ⟨ht, fun x hx => ht.sends (hstate ▸ LobbyNode.sends_from ho hx)⟩

/-- The call by which a user departs: it leaves the lobby, or is kicked from it. -/
structure Departs (n : LobbyNode) (id pid : Bytes) (b : LobbyAction) : Prop where
  call : b = .leaveLobby id pid ∨ b = .kickMember id pid
  success : (n.outcome b).map LobbyOutcome.result = some .success

/-- The departure is broadcast. -/
theorem Departs.sends {n : LobbyNode} {b : LobbyAction} {o : LobbyOutcome}
    (h : Departs n id pid b) (ho : n.outcome b = some o) :
    ∃ reason, (reason = lmsLeft ∨ reason = lmsKicked) ∧
    .broadcast (.leave id pid reason) ∈ o.sends := by
  obtain ⟨hcall, hsuccess⟩ := h
  rw [ho, Option.map_some, Option.some_inj] at hsuccess
  rcases hcall with rfl | rfl
  · refine ⟨lmsLeft, .inl rfl, ?_⟩
    cases LobbyNode.outcome_does ho with
    | fails hfail _ => exact absurd hsuccess hfail
    | migrates | leaves => exact List.mem_cons_self
  · refine ⟨lmsKicked, .inr rfl, ?_⟩
    cases LobbyNode.outcome_does ho with
    | fails hfail _ => exact absurd hsuccess hfail
    | kicks => exact List.mem_cons_self

/-- How often the node's game is told in the history that the user departed from the lobby. -/
def departuresTold (endpoint : Bytes → Endpoint) (j id pid : Bytes) (l : List LobbyTransition) :
    ℕ :=
  (l.map fun tr => ((LobbyWorld.actionAt endpoint tr.pre j tr.action).bind
    (tr.pre.nodes j).outcome).elim 0 fun o => o.notes.countP (LobbyNote.isDeparture id pid)).sum

/-- Calls are typed, and every `LobbyLeave` finds the member it names in the record of a node that
is in the lobby or owns it. -/
structure EachReports (endpoint : Bytes → Endpoint) (w : LobbyWorld) (a : LobbyEvent) : Prop where
  typed : LobbyWorld.TypedCalls w a
  reports : ∀ i b, LobbyWorld.actionAt endpoint w i a = some b → Reports (w.nodes i) b

/-- After the departure the node lists the user no more once it has stopped to. -/
def EachTracks (endpoint : Bytes → Endpoint) (j id pid : Bytes) (tr : LobbyTransition) : Prop :=
  ∀ b, LobbyWorld.actionAt endpoint tr.pre j tr.action = some b → Tracks (tr.pre.nodes j) id pid b

/-- Each departure is told at most once to every other node that is in the lobby with the user in
its record, and exactly once when the news has been delivered; a `LobbyLeave` about a user that is
not in the record changes nothing. `ok` restricts what happens after the departure. -/
structure ReportedOnce (endpoint : Bytes → Endpoint)
    (ok : Bytes → Bytes → Bytes → LobbyTransition → Prop) (l : List LobbyTransition)
    (w : LobbyWorld) : Prop where
  once : ∀ before tr after s j id pid b r, l = before ++ tr :: after → tr.action = .call s b →
    Departs (tr.pre.nodes s) id pid b →
    (∀ reason, fits (LobbyMessage.leave id pid reason).payload = true) → j ≠ s →
    id ∈ (tr.pre.nodes j).lobby.memberOf → (tr.pre.nodes j).lobby.known.get? id = some r →
      r.Lists pid →
    (∀ x ∈ after, id ∈ (x.post.nodes j).lobby.memberOf ∧ (∀ k, x.action ≠ .lose s j k) ∧
      ok j id pid x) →
    departuresTold endpoint j id pid after ≤ 1 ∧
      ((∀ reason, ¬ LobbyWorld.Heading w s j (.leave id pid reason)) →
      departuresTold endpoint j id pid after = 1)
  ignored : ∀ tr ∈ l, ∀ i tick source id subject reason,
    LobbyWorld.actionAt endpoint tr.pre i tr.action =
      some (.datagram tick source (.leave id subject reason)) →
    reason ≠ lmsClosed → (∀ r ∈ (tr.pre.nodes i).lobby.known.get? id, ¬ r.Lists subject) →
    let o := (tr.pre.nodes i).lobby.onLeave id subject reason
    o.notes = [] ∧ o.sends = [] ∧ o.state.known.get? id = (tr.pre.nodes i).lobby.known.get? id

/-- The state of affairs at a node after a departure of which it knew the user. -/
structure Following (j s id pid : Bytes) (told : ℕ) (w : LobbyWorld) : Prop where
  member : id ∈ (w.nodes j).lobby.memberOf
  balance : ∃ r, (w.nodes j).lobby.known.get? id = some r ∧ told + r.listing pid = 1 ∧
    (r.Lists pid → ∃ reason, (reason = lmsLeft ∨ reason = lmsKicked) ∧
      LobbyWorld.Heading w s j (.leave id pid reason))

/-- A step keeps it. -/
theorem following_step {told : ℕ} (hk : (w.nodes j).Keyed) (hd : (w.nodes j).Distinct)
    (hsound : ∀ s, ∀ c ∈ w.links s j, ∀ m, c.message.read = some m → m.Sound)
    (hreports : EachReports endpoint w a) (htracks : EachTracks endpoint j id pid ⟨w, a, w'⟩)
    (hlossless : ∀ k, a ≠ .lose s j k) (hst : (lobbyProtocol endpoint).step w a = some w')
    (hstays : id ∈ (w'.nodes j).lobby.memberOf) (h : Following j s id pid told w) :
    Following j s id pid (told + departuresTold endpoint j id pid [⟨w, a, w'⟩]) w' := by
  obtain ⟨hm, r, hr, hsum, hheading⟩ := h
  have hone : departuresTold endpoint j id pid [⟨w, a, w'⟩]
      = ((LobbyWorld.actionAt endpoint w j a).bind (w.nodes j).outcome).elim 0
        fun o => o.notes.countP (LobbyNote.isDeparture id pid) := by
    rw [departuresTold, List.map_singleton, List.sum_singleton]
  refine ⟨hstays, ?_⟩
  rcases LobbyWorld.node_step hst j with ⟨hnone, heq⟩ | ⟨b, hb, _⟩
  · refine ⟨r, heq ▸ hr, ?_, fun hl => ?_⟩
    · rw [hone, hnone]
      exact hsum
    · obtain ⟨reason, hreason, hto⟩ := hheading hl
      rcases LobbyWorld.heading_step hst hto with hto' | ⟨k, hlost⟩ | ⟨tick, hb⟩
      · exact ⟨reason, hreason, hto'⟩
      · exact absurd hlost (hlossless k)
      · rw [hnone, LobbyMessage.read_datagram (m := .leave id pid reason) trivial hto.2.1] at hb
        cases hb
  · obtain ⟨o, ho, hlobby, -⟩ := LobbyWorld.section_step hst hb
    rw [hlobby] at hstays ⊢
    have hmessage : ∀ tick source m, b = .datagram tick source m → m.Sound := by
      rintro tick source m rfl
      rcases LobbyWorld.actionAt_eq_some hb with ⟨_, hcall⟩ | ⟨s', k, tick', keep, c, m', _, hc,
        hread, heq⟩
      · cases hcall
      · cases heq
        exact hsound s' c (List.mem_of_getElem? hc) m hread
    obtain ⟨r', hr', hbalance⟩ := balanced_section hk hd hmessage (hreports.reports j b hb)
      (htracks b hb) hm hr ho hstays
    rw [hone, hb, Option.bind_some, ho, Option.elim_some]
    refine ⟨r', hr', by omega, fun hl => ?_⟩
    -- what is still listed was listed, and the news did not arrive in this step
    have hlisting : r'.listing pid = 1 := if_pos hl
    have hlisted : r.Lists pid := by
      by_contra hnot
      have hzero : r.listing pid = 0 := if_neg hnot
      omega
    obtain ⟨reason, hreason, hto⟩ := hheading hlisted
    rcases LobbyWorld.heading_step hst hto with hto' | ⟨k, hlost⟩ | ⟨tick, hb'⟩
    · exact ⟨reason, hreason, hto'⟩
    · exact absurd hlost (hlossless k)
    · rw [LobbyMessage.read_datagram (m := .leave id pid reason) trivial hto.2.1] at hb'
      cases hb.symm.trans hb'
      cases ho
      have htold : ((w.nodes j).lobby.onLeave id pid reason).notes.countP
        (LobbyNote.isDeparture id pid) = 1 := by
        simp only [LobbyInterface.onLeave, hr, if_pos hm]
        split <;> rcases hreason with rfl | rfl <;> simp [LobbyNote.isDeparture]
      have hlisting₀ : r.listing pid = 1 := if_pos hlisted
      change ((w.nodes j).lobby.onLeave id pid reason).notes.countP _ + _ = _ at hbalance
      omega

/-- Along a run in which each `LobbyLeave` finds the member it names, each departure is reported
once to a node that does not list the user again, and no `LobbyLeave` about an absent user changes
anything. -/
theorem departure_reported_once {l : List LobbyTransition}
    (h : Trace (lobbyProtocol endpoint).step (EachReports endpoint) LobbyWorld.start l w) :
    ReportedOnce endpoint (EachTracks endpoint) l w := by
  refine ⟨?_, ?_⟩
  · intro before tr after s j id pid b r heq haction hdeparts hfits hne hm hr hlists hafter
    obtain ⟨hbefore, hok, hst⟩ := h.forall_mem heq
    have hrun : Run (lobbyProtocol endpoint).step (EachReports endpoint) LobbyWorld.start
      tr.post :=
      .tail _ hbefore.run hok hst
    rw [haction] at hst
    have hstart : Following j s id pid 0 tr.post := by
      have hnone : LobbyWorld.actionAt endpoint tr.pre j (.call s b) = none :=
        if_neg fun h => hne h.1.symm
      have hsame : tr.post.nodes j = tr.pre.nodes j := by
        rcases LobbyWorld.node_step hst j with ⟨_, heq⟩ | ⟨b', hb', _⟩
        · exact heq
        · rw [hnone] at hb'
          cases hb'
      have hb : LobbyWorld.actionAt endpoint tr.pre s (.call s b) = some b := by
        refine if_pos ⟨rfl, ?_⟩
        rcases hdeparts.call with rfl | rfl <;> rfl
      obtain ⟨o, ho, _, th, hout⟩ := LobbyWorld.section_step hst hb
      obtain ⟨reason, hreason, hsend⟩ := hdeparts.sends ho
      refine ⟨hsame ▸ hm, r, hsame ▸ hr, ?_, fun _ => ⟨reason, hreason, hne, hfits reason,
        .inl ⟨th, hout ▸ hsend⟩⟩⟩
      rw [Nat.zero_add]
      exact if_pos hlists
    have hend : Following j s id pid (departuresTold endpoint j id pid after) w := by
      refine (h.after heq).invariant (P := fun l' w' =>
        (∀ x ∈ l', id ∈ (x.post.nodes j).lobby.memberOf ∧ (∀ k, x.action ≠ .lose s j k) ∧
          EachTracks endpoint j id pid x) →
          Following j s id pid (departuresTold endpoint j id pid l') w')
        (fun _ => hstart) ?_ hafter
      intro l' u v a hl' ih hoka hsta hall
      have hu : Run (lobbyProtocol endpoint).step (EachReports endpoint) LobbyWorld.start u :=
        hrun.trans hl'.run
      obtain ⟨hstays, hlossless, htracks⟩ :=
        hall _ (List.mem_append_right _ (List.mem_singleton_self _))
      have hsound := LobbyWorld.sound_of_run hu fun _ _ hok => hok.typed
      have hfollow := following_step (LobbyWorld.keyed_of_run hu j) (hsound.nodes j).2
        (fun s' c hc m hread => (hsound.links s' j c hc m hread).2) hoka htracks hlossless hsta
          hstays
        (ih fun x hx => hall x (List.mem_append_left _ hx))
      rw [departuresTold, List.map_append, List.sum_append]
      exact hfollow
    obtain ⟨_, q, _, hsum, hheading⟩ := hend
    refine ⟨by omega, fun hdelivered => ?_⟩
    have hgone : q.listing pid = 0 := by
      refine if_neg fun hl => ?_
      obtain ⟨reason, _, hto⟩ := hheading hl
      exact hdelivered reason hto
    omega
  · intro tr htr i tick source id subject reason hb hclosed habsent
    obtain ⟨before, after, heq⟩ := List.append_of_mem htr
    obtain ⟨-, hok, -⟩ := h.forall_mem heq
    exact ignored_leave (hok.reports i _ hb) hclosed habsent

end

/-- The second node visits the lobby of the first one and leaves it, and what follows. -/
def visitRun (test : LobbyWorld → LobbyEvent → Bool) (after : List LobbyEvent) :
    Option (LobbyWorld × LobbyWorld × LobbyWorld) :=
  (execIf (lobbyProtocol sampleEndpoints).step test LobbyWorld.start
    (sampleVisit (sampleLobby (str "a")))).bind fun u =>
    (execIf (lobbyProtocol sampleEndpoints).step test u
      [.call (str "b") (.leaveLobby (sampleLobbyId (str "a")) (str "b"))]).bind fun v =>
      (execIf (lobbyProtocol sampleEndpoints).step test v after).map fun w => (u, v, w)

/-- In such a run the second node leaves the lobby of the first one, which lists it. -/
def visitTest (x : LobbyWorld × LobbyWorld × LobbyWorld) : Bool :=
  sampleLobbyId (str "a") ∈ (x.1.nodes (str "a")).lobby.memberOf &&
  (((x.1.nodes (str "a")).lobby.known.get? (sampleLobbyId (str "a"))).any fun r => r.Lists
    (str "b")) &&
  (((x.1.nodes (str "b")).outcome (.leaveLobby (sampleLobbyId (str "a")) (str "b"))).map
    LobbyOutcome.result = some .success)

/-- The rest of a history in which nothing is lost and the first node stays in its lobby. -/
def staysTest (x : LobbyTransition) : Bool :=
  sampleLobbyId (str "a") ∈ (x.post.nodes (str "a")).lobby.memberOf &&
    (Protocol.actor x.action).isSome

/-- The sample histories are runs with the departure in the middle. -/
theorem of_visitRun {test : LobbyWorld → LobbyEvent → Bool} {after : List LobbyEvent}
    {u v w : LobbyWorld} {ok : LobbyWorld → LobbyEvent → Prop}
    (htest : ∀ s a, test s a = true → ok s a) (h : visitRun test after = some (u, v, w)) :
    ∃ l, Trace (lobbyProtocol sampleEndpoints).step ok LobbyWorld.start
      (l ++ ⟨u, .call (str "b") (.leaveLobby (sampleLobbyId (str "a")) (str "b")), v⟩ ::
        transitions (lobbyProtocol sampleEndpoints).step v after) w := by
  obtain ⟨u', hu, h⟩ := Option.bind_eq_some_iff.1 h
  obtain ⟨v', hv, h⟩ := Option.bind_eq_some_iff.1 h
  obtain ⟨w', hw, heq⟩ := Option.map_eq_some_iff.1 h
  cases heq
  have hleave := Trace.of_execIf htest hv
  have hone : transitions (lobbyProtocol sampleEndpoints).step u
      [.call (str "b") (.leaveLobby (sampleLobbyId (str "a")) (str "b"))] =
      [⟨u, .call (str "b") (.leaveLobby (sampleLobbyId (str "a")) (str "b")), v⟩] := by
    unfold execIf at hv
    split at hv
    · obtain ⟨v', hst, hv⟩ := Option.bind_eq_some_iff.1 hv
      cases hv
      simp only [transitions, hst]
    · cases hv
  rw [hone] at hleave
  refine ⟨transitions (lobbyProtocol sampleEndpoints).step LobbyWorld.start
    (sampleVisit (sampleLobby (str "a"))), ?_⟩
  rw [← List.singleton_append, ← List.append_assoc]
  exact ((Trace.of_execIf htest hu).trans hleave).trans (Trace.of_execIf htest hw)

/-- The test says that the member leaves and that the owner still lists it. -/
theorem of_visitTest {u v w : LobbyWorld} (h : visitTest (u, v, w) = true) :
    Departs (u.nodes (str "b")) (sampleLobbyId (str "a")) (str "b")
      (.leaveLobby (sampleLobbyId (str "a")) (str "b")) ∧
    sampleLobbyId (str "a") ∈ (u.nodes (str "a")).lobby.memberOf ∧
    ∃ r, (u.nodes (str "a")).lobby.known.get? (sampleLobbyId (str "a")) = some r ∧
      r.Lists (str "b") := by
  simp only [visitTest, Bool.and_eq_true, decide_eq_true_eq] at h
  obtain ⟨⟨hmember, hlists⟩, hsuccess⟩ := h
  obtain ⟨r, hr, hl⟩ := (Option.any_eq_true _ _).1 hlists
  exact ⟨⟨.inl rfl, hsuccess⟩, hmember, r, hr, of_decide_eq_true hl⟩

/-- The sample leave fits in a datagram. -/
theorem sampleLeave_fits (reason : UInt8) :
    fits (LobbyMessage.leave (sampleLobbyId (str "a")) (str "b") reason).payload = true := by
  have hlen : (LobbyMessage.leave (sampleLobbyId (str "a")) (str "b") reason).payload.length
      = (LobbyMessage.leave (sampleLobbyId (str "a")) (str "b") 0).payload.length := by
    simp [LobbyMessage.payload, ByteWriter.u8]
  rw [fits, hlen]
  decide +kernel

/-- A step with an actor loses nothing. -/
theorem lossless_of_actor {x : LobbyTransition} (h : (Protocol.actor x.action).isSome = true)
    (s j : Bytes) (k : ℕ) : x.action ≠ .lose s j k := by
  intro heq
  rw [heq] at h
  cases h

/-- The first node is told once that the second one left. -/
theorem departure_reported_once_sample : ∃ l w, Trace (lobbyProtocol sampleEndpoints).step
    (EachReports sampleEndpoints) LobbyWorld.start l w ∧
      ∃ after, after <:+ l ∧ departuresTold sampleEndpoints (str "a") (sampleLobbyId (str "a"))
        (str "b") after = 1 := by
  obtain ⟨⟨u, v, w⟩, hrun, htest⟩ :=
    (Option.any_eq_true (fun x : LobbyWorld × LobbyWorld × LobbyWorld => visitTest x &&
      ((transitions (lobbyProtocol sampleEndpoints).step x.2.1
        [.send (str "b") .game, .receive (str "b") (str "a") 0 9 false]).all fun y =>
          staysTest y && (LobbyWorld.actionAt sampleEndpoints y.pre (str "a") y.action).all fun b =>
            Tracks (y.pre.nodes (str "a")) (sampleLobbyId (str "a")) (str "b") b) &&
      (x.2.2.out (str "b") .game).isEmpty && (x.2.2.out (str "b") .receive).isEmpty &&
      (x.2.2.links (str "b") (str "a")).isEmpty)
    (visitRun (LobbyWorld.sectionTest (fun n b => b.Typed ∧ Reports n b) sampleEndpoints)
      [.send (str "b") .game, .receive (str "b") (str "a") 0 9 false])).1 (by decide +kernel)
  simp only [Bool.and_eq_true, List.all_eq_true, List.isEmpty_iff] at htest
  obtain ⟨⟨⟨⟨hvisit, hafter⟩, hgame⟩, hreceive⟩, hlink⟩ := htest
  obtain ⟨hdeparts, hmember, r, hr, hlists⟩ := of_visitTest hvisit
  have hreports : ∀ u a, LobbyWorld.sectionTest (fun n b => decide (b.Typed ∧ Reports n b))
    sampleEndpoints u a = true → EachReports sampleEndpoints u a := by
    intro u a ha
    obtain ⟨htyped, hsection⟩ := LobbyWorld.typed_of_sectionTest ha
    exact ⟨htyped, hsection⟩
  obtain ⟨l, hl⟩ := of_visitRun hreports hrun
  refine ⟨_, w, hl, _, ⟨l ++ [_], (List.append_assoc _ _ _).trans rfl⟩, ?_⟩
  refine ((departure_reported_once hl).once l _ _ (str "b") (str "a") _ (str "b") _ r rfl rfl
    hdeparts sampleLeave_fits (by decide) hmember hr hlists fun x hx => ?_).2 ?_
  · obtain ⟨hstays, htracks⟩ := hafter x hx
    rw [staysTest, Bool.and_eq_true, decide_eq_true_eq] at hstays
    refine ⟨hstays.1, lossless_of_actor hstays.2 _ _, fun b hb => ?_⟩
    exact of_decide_eq_true ((Option.all_eq_true _ _).1 htracks b hb)
  · rintro reason ⟨-, -, ⟨th, hx⟩ | ⟨c, hc, -⟩⟩
    · cases th with
      | game => rw [hgame] at hx; cases hx
      | receive => rw [hreceive] at hx; cases hx
    · rw [hlink] at hc
      cases hc

/-- Where the `LobbyLeave` arrives twice, the first node is told twice. -/
theorem not_departure_reported_once :
    ¬ ∀ l w, Trace (lobbyProtocol sampleEndpoints).step Always LobbyWorld.start l w →
    ReportedOnce sampleEndpoints (fun _ _ _ _ => True) l w := by
  intro hall
  obtain ⟨⟨u, v, w⟩, hrun, htest⟩ :=
    (Option.any_eq_true (fun x : LobbyWorld × LobbyWorld × LobbyWorld => visitTest x &&
      ((transitions (lobbyProtocol sampleEndpoints).step x.2.1
        [.send (str "b") .game, .receive (str "b") (str "a") 0 9 true, .send (str "a") .receive,
          .receive (str "b") (str "a") 0 10 false]).all staysTest) &&
      departuresTold sampleEndpoints (str "a") (sampleLobbyId (str "a")) (str "b")
        (transitions (lobbyProtocol sampleEndpoints).step x.2.1
          [.send (str "b") .game, .receive (str "b") (str "a") 0 9 true, .send (str "a") .receive,
            .receive (str "b") (str "a") 0 10 false]) = 2)
    (visitRun (fun _ _ => true) [.send (str "b") .game, .receive (str "b") (str "a") 0 9 true,
      .send (str "a") .receive, .receive (str "b") (str "a") 0 10 false])).1 (by decide +kernel)
  simp only [Bool.and_eq_true, List.all_eq_true, decide_eq_true_eq] at htest
  obtain ⟨⟨hvisit, hafter⟩, htwo⟩ := htest
  obtain ⟨hdeparts, hmember, r, hr, hlists⟩ := of_visitTest hvisit
  obtain ⟨l, hl⟩ := @of_visitRun _ _ u v w Always (fun _ _ _ => trivial) hrun
  have honce := ((hall _ w hl).once l _ _ (str "b") (str "a") _ (str "b") _ r rfl rfl hdeparts
    sampleLeave_fits (by decide) hmember hr hlists fun x hx => ?_).1
  · rw [htwo] at honce
    exact absurd honce (by decide)
  · have hstays := hafter x hx
    rw [staysTest, Bool.and_eq_true, decide_eq_true_eq] at hstays
    exact ⟨hstays.1, lossless_of_actor hstays.2 _ _, trivial⟩

end EOSEmu
