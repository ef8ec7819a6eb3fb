import EOSEmu.Lobby.Authority
import EOSEmu.Lobby.Departures

/-!
# What the owner's record holds of a member

The owner of a lobby merges the changes of a member's attributes into its record, and hands the
record over with the authority. `tally` reads off a history which changes were merged since the
record lists the member, and the owner's record holds their replay (`Replays`), whoever the owner
is by now.
-/

namespace EOSEmu

open Lib

/-! ## Changes of a member -/

/-- A change of a member's attributes: the entries it adds, boolean values normalised, and the keys
it removes. -/
abbrev MemberChange := AttrList × List Bytes

/-- The change that a datagram asks for. -/
def LobbyMessage.change (id pid : Bytes) : LobbyMessage → Option MemberChange
  | .update lobbyId memberPid adds removes =>
      if lobbyId = id ∧ memberPid = pid ∧
        (adds ≠ [] ∨ removes ≠ []) then some (normalisedAttrs adds, removes) else none
  | .announce _ | .joinRequest _ _ | .leave _ _ _ => none

/-- The change that a section makes or asks for. -/
def LobbyAction.change (id pid : Bytes) : LobbyAction → Option MemberChange
  | .updateLobby m => LobbyMessage.change id pid
    (.update m.lobbyId m.localUser m.addMemberAttrs m.removeMemberAttrs)
  | .datagram _ _ m => m.change id pid
  | _ => none

/-- A change applied to a list. -/
def applyChange : Option MemberChange → AttrList → AttrList
  | none, l => l
  | some u, l => applyAttrs u.1 u.2 l

/-- Changes applied in order to a new member. -/
def replay (us : List MemberChange) : AttrList := us.foldl (fun l u => applyAttrs u.1 u.2 l) []

/-- The attributes a record holds of a member, boolean values normalised. -/
def LobbyRecord.attrsOf (r : LobbyRecord) (pid : Bytes) : Option AttrList :=
  (r.findMember pid).map fun m => normalisedAttrs m.attributes

/-- A history with one more change, if any, is the change applied to the history. -/
theorem replay_append (us : List MemberChange) (u : Option MemberChange) :
    replay (us ++ u.toList) = applyChange u (replay us) := by
  cases u with
  | none => exact congrArg replay (List.append_nil us)
  | some u => exact List.foldl_append

/-! ### Normalising -/

/-- Normalising a value twice is normalising it once. -/
theorem AttrValue.normalised_normalised (v : AttrValue) :
    v.normalised.normalised = v.normalised := by
  unfold AttrValue.normalised
  split
  · next h => simp [h, eosBool, eosTrue, eosFalse]
  · rfl

/-- Normalising attributes twice is normalising them once. -/
theorem normalisedAttrs_normalisedAttrs (l : AttrList) :
    normalisedAttrs (normalisedAttrs l) = normalisedAttrs l := by
  unfold normalisedAttrs
  rw [List.map_map]
  refine List.map_congr_left fun a _ => ?_
  simp only [Function.comp_apply, AttrValue.normalised_normalised]

/-- An attribute is written before or after normalising. -/
theorem normalisedAttrs_upsert (k : Bytes) (v : LobbyAttr) (l : AttrList) :
    normalisedAttrs (upsert k v l) =
    upsert k { v with value := v.value.normalised } (normalisedAttrs l) := by
  induction l with
  | nil => rfl
  | cons e l ih =>
      have hcons : normalisedAttrs (e :: l) =
          (e.1, { e.2 with value := e.2.value.normalised }) :: normalisedAttrs l := rfl
      rw [hcons, upsert_cons, upsert_cons]
      split
      · rfl
      · rw [← ih]
        rfl

/-- An attribute is removed before or after normalising. -/
theorem normalisedAttrs_eraseFirst (k : Bytes) (l : AttrList) :
    normalisedAttrs (eraseFirst k l) = eraseFirst k (normalisedAttrs l) := by
  unfold normalisedAttrs eraseFirst
  rw [List.eraseP_map]
  rfl

/-- Normalising before and after a change. -/
theorem normalisedAttrs_applyAttrs (adds : AttrList) (removes : List Bytes) (l : AttrList) :
    normalisedAttrs (applyAttrs adds removes l) = applyAttrs (normalisedAttrs adds) removes
      (normalisedAttrs l) := by
  have hadds : ∀ (adds l : AttrList), normalisedAttrs
    (adds.foldl (fun l add => upsert add.1 add.2 l) l) =
      (normalisedAttrs adds).foldl (fun l add => upsert add.1 add.2 l) (normalisedAttrs l) := by
    intro adds
    induction adds with
    | nil => exact fun l => rfl
    | cons a adds ih =>
        intro l
        rw [List.foldl_cons, ih, normalisedAttrs_upsert]
        rfl
  have hremoves : ∀ (removes : List Bytes) (l : AttrList),
      normalisedAttrs (removes.foldl (fun l key => eraseFirst key l) l) =
        removes.foldl (fun l key => eraseFirst key l) (normalisedAttrs l) := by
    intro removes
    induction removes with
    | nil => exact fun l => rfl
    | cons k removes ih =>
        intro l
        rw [List.foldl_cons, ih, normalisedAttrs_eraseFirst]
        rfl
  unfold applyAttrs
  rw [hremoves, hadds]

/-! ### Records -/

namespace LobbyRecord
variable {r q : LobbyRecord} {pid p : Bytes}

/-- Who is not listed has no attributes. -/
theorem attrsOf_eq_none : r.attrsOf p = none ↔ ¬ r.Lists p := by
  rw [attrsOf, Option.map_eq_none_iff, ← findMember_isSome, Option.not_isSome_iff_eq_none]

/-- A member's attributes depend on the members only. -/
theorem attrsOf_congr (h : q.members = r.members) : q.attrsOf p = r.attrsOf p := by
  rw [attrsOf, findMember, h]
  rfl

/-- What a record carries are its members' attributes. -/
theorem attrsOf_carried (r : LobbyRecord) (p : Bytes) : r.carried.attrsOf p = r.attrsOf p := by
  unfold attrsOf findMember carried
  dsimp only
  rw [List.find?_map, Option.map_map]
  refine congrArg (fun f => Option.map f _) (funext fun m => ?_)
  exact normalisedAttrs_normalisedAttrs m.attributes

/-- A new member has no attributes. -/
theorem attrsOf_addMember (hnot : ¬ r.Lists pid) :
    (r.addMember pid).attrsOf p = if p = pid then some [] else r.attrsOf p := by
  have hfind : (r.addMember pid).findMember p =
      (r.findMember p).or (if pid = p then some { productId := pid } else none) := by
    unfold findMember addMember
    rw [List.find?_append]
    congr 1
    by_cases h : pid = p <;> simp [h]
  unfold attrsOf
  rw [hfind]
  by_cases h : p = pid
  · subst h
    have hnone : r.findMember p = none := by
      rwa [← Option.not_isSome_iff_eq_none, findMember_isSome]
    rw [hnone, if_pos rfl, if_pos rfl]
    rfl
  · rw [if_neg h, if_neg (Ne.symm h), Option.or_none]

/-- A member let in starts without attributes, and the others keep theirs. -/
theorem attrsOf_withMember : (r.withMember pid).attrsOf p =
    if p = pid ∧ ¬ r.Lists pid then some [] else r.attrsOf p := by
  unfold withMember
  by_cases hlists : r.Lists pid
  · have hsome : ¬ (r.findMember pid).isNone = true := by
      rw [Option.isNone_iff_eq_none, ← Ne, ← Option.isSome_iff_ne_none, findMember_isSome]
      exact hlists
    rw [if_neg hsome, if_neg fun h => h.2 hlists]
  · have hnone : (r.findMember pid).isNone = true := by
      rwa [Option.isNone_iff_eq_none, ← Option.not_isSome_iff_eq_none, findMember_isSome]
    rw [if_pos hnone, attrsOf_addMember hlists]
    simp only [hlists, not_false_eq_true, and_true]

/-- Removing one member leaves the others where they are found. -/
theorem find_eraseP_of_ne (hne : p ≠ pid) (ms : List LobbyMemberRec) :
    (ms.eraseP fun m => m.productId = pid).find? (fun m => m.productId = p) = ms.find? fun m =>
      m.productId = p := by
  induction ms with
  | nil => rfl
  | cons m ms ih =>
      rw [List.eraseP_cons, List.find?_cons]
      by_cases hm : m.productId = pid
      · simp [hm, hne.symm]
      · simp [hm, List.find?_cons, ih]

/-- A member that is erased is gone, and the others stay. -/
theorem attrsOf_eraseMember (h : r.Distinct) :
    (r.eraseMember pid).attrsOf p = if p = pid then none else r.attrsOf p := by
  by_cases hp : p = pid
  · rw [if_pos hp, attrsOf_eq_none, hp]
    exact not_lists_eraseMember h pid
  · rw [if_neg hp, attrsOf, findMember, eraseMember, find_eraseP_of_ne hp]
    rfl

/-- Modifying one member leaves the others as they are found. -/
theorem find_modifyMember_of_ne {f : LobbyMemberRec → LobbyMemberRec}
    (hf : ∀ m, (f m).productId = m.productId) (hne : p ≠ pid) (ms : List LobbyMemberRec) :
    (modifyMember pid f ms).find? (fun m => m.productId = p) = ms.find? fun m => m.productId =
      p := by
  induction ms with
  | nil => rfl
  | cons m ms ih =>
      rw [modifyMember_cons, List.find?_cons]
      by_cases hm : m.productId = pid
      · simp [hm, hf, hne.symm]
      · simp [hm, List.find?_cons, ih]

/-- A change of one member. -/
theorem attrsOf_modifyMember (adds : AttrList) (removes : List Bytes)
    (hq : q.members = modifyMember pid (fun m => applyMemberAttrs m adds removes) r.members) :
    q.attrsOf p = if p = pid then (r.attrsOf p).map (applyAttrs (normalisedAttrs adds) removes)
      else r.attrsOf p := by
  unfold attrsOf findMember
  rw [hq]
  by_cases hp : p = pid
  · subst hp
    rw [if_pos rfl, find_modifyMember (fun m => applyMemberAttrs_productId m adds removes),
      Option.map_map, Option.map_map]
    refine congrArg (fun f => Option.map f _) (funext fun m => ?_)
    exact normalisedAttrs_applyAttrs adds removes m.attributes
  · rw [if_neg hp, find_modifyMember_of_ne (fun m => applyMemberAttrs_productId m adds removes) hp]

end LobbyRecord

/-! ## A section of the owner -/

/-- What a record holds of the members after a section of the owner: a change is applied, and who
is listed newly has no attributes. -/
def Follows (id : Bytes) (b : LobbyAction) (r q : LobbyRecord) : Prop :=
  ∀ pid, q.Lists pid → q.attrsOf pid =
    if r.Lists pid then (r.attrsOf pid).map (applyChange (b.change id pid)) else some []

section
variable {n t : LobbyNode} {b : LobbyAction} {id : Bytes} {r q : LobbyRecord}

/-- An update is about its own lobby and its own member only. -/
theorem LobbyMessage.change_of_ne {j pid p : Bytes} {adds : AttrList} {removes : List Bytes}
    (h : j ≠ id ∨ pid ≠ p) : LobbyMessage.change id p (.update j pid adds removes) = none :=
  if_neg fun hc => h.elim (fun hj => hj hc.1) fun hp => hp hc.2.1

/-- Nothing to add and nothing to remove is no change. -/
theorem applyChange_change (pid : Bytes) (adds : AttrList) (removes : List Bytes) :
    applyChange (LobbyMessage.change id pid (.update id pid adds removes)) =
      applyAttrs (normalisedAttrs adds) removes := by
  have hchange : LobbyMessage.change id pid (.update id pid adds removes) =
      if id = id ∧ pid = pid ∧ (adds ≠ [] ∨ removes ≠ []) then some (normalisedAttrs adds, removes)
        else none := rfl
  rw [hchange]
  split
  · rfl
  · next h =>
      obtain ⟨hadds, hremoves⟩ : adds = [] ∧ removes = [] := by
        simp only [true_and, not_or, not_not] at h
        exact h
      rw [hadds, hremoves]
      rfl

/-- The record after a change of one member. -/
theorem follows_modifyMember {pid : Bytes} {adds : AttrList} {removes : List Bytes}
    (hq : q.members = modifyMember pid (fun m => applyMemberAttrs m adds removes) r.members)
    (hb : ∀ p, b.change id p = LobbyMessage.change id p (.update id pid adds removes)) :
      Follows id b r q := by
  intro p hlists
  have hattrs := LobbyRecord.attrsOf_modifyMember (p := p) adds removes hq
  have hr : r.Lists p := by
    by_contra hnot
    rw [LobbyRecord.attrsOf_eq_none.2 hnot, Option.map_none, ite_self,
      LobbyRecord.attrsOf_eq_none] at hattrs
    exact hattrs hlists
  rw [if_pos hr, hattrs, hb p]
  by_cases hp : p = pid
  · rw [if_pos hp, hp, applyChange_change]
  · rw [if_neg hp, LobbyMessage.change_of_ne (.inr (Ne.symm hp))]
    exact (congrFun Option.map_id _).symm

/-- The record after a section that changes no attributes, but perhaps who is listed. -/
theorem follows_of_attrsOf (hb : ∀ p, b.change id p = none)
    (h : ∀ p, q.Lists p → q.attrsOf p = if r.Lists p then r.attrsOf p else some []) :
      Follows id b r q := by
  intro p hlists
  rw [h p hlists, hb p]
  split
  · exact (congrFun Option.map_id _).symm
  · rfl

/-- Letting a member in merges nothing. -/
theorem follows_withMember (hb : ∀ p, b.change id p = none) (me : Bytes) :
    Follows id b r (r.withMember me) := by
  refine follows_of_attrsOf hb fun p hlists => ?_
  rw [LobbyRecord.attrsOf_withMember]
  by_cases hr : r.Lists p
  · rw [if_pos hr, if_neg fun h => h.2 (h.1 ▸ hr)]
  · obtain rfl := (LobbyRecord.lists_withMember.1 hlists).resolve_left hr
    rw [if_neg hr, if_pos ⟨rfl, hr⟩]

/-- Removing a member merges nothing. -/
theorem follows_eraseMember (hb : ∀ p, b.change id p = none) (hr : r.Distinct) (pid : Bytes)
    (hq : q.members = (r.eraseMember pid).members) : Follows id b r q := by
  refine follows_of_attrsOf hb fun p hlists => ?_
  have hattrs : q.attrsOf p = if p = pid then none else r.attrsOf p := by
    rw [LobbyRecord.attrsOf_congr hq]
    exact LobbyRecord.attrsOf_eraseMember hr
  have hp : p ≠ pid := by
    intro hp
    rw [if_pos hp, LobbyRecord.attrsOf_eq_none] at hattrs
    exact hattrs hlists
  rw [if_neg hp] at hattrs
  have hlisted : r.Lists p := by
    by_contra hnot
    rw [LobbyRecord.attrsOf_eq_none.2 hnot, LobbyRecord.attrsOf_eq_none] at hattrs
    exact hattrs hlists
  rw [if_pos hlisted, hattrs]

/-- A record with the same members merges nothing. -/
theorem follows_keep (hb : ∀ p, b.change id p = none) (hq : q.members = r.members) :
    Follows id b r q := by
  refine follows_of_attrsOf hb fun p hlists => ?_
  have hr : r.Lists p := by rwa [LobbyRecord.Lists, ← hq]
  rw [if_pos hr, LobbyRecord.attrsOf_congr hq]

/-- A section of the owner that changes no attributes. -/
theorem follows_view {v w : LobbyView} (hv : ViewChange n id v b w)
    (hb : ∀ p, b.change id p = none) (hk : n.Keyed)
    (hknown : v.record = n.lobby.known.get? id) (howner : v.owner = true) (hd : r.Distinct)
    (hnew : ∀ tick o, b = .createLobby tick o →
    id ≠ newLobbyId o.localUserId tick n.lobby.lobbyCounter)
    (hr : v.record = some r) (hq : w.record = some q) : Follows id b r q := by
  cases hv with
  | keep =>
      cases hr.symm.trans hq
      exact follows_keep hb rfl
  | @create tick o _ _ hid => exact absurd hid (hnew tick o rfl)
  | ownerUpdate hid hrec _ =>
      subst hid
      cases hr.symm.trans hrec
      cases hq
      exact follows_modifyMember (applyModification_members r _) fun p => rfl
  | memberUpdate _ _ _ hnot => exact absurd (hnot.symm.trans howner) nofun
  | destroy | leave | closed => cases hq
  | @join i me d _ hid _ =>
      subst hid
      rw [hk.joined (hknown.symm.trans hr)] at hq
      cases hq
      exact follows_withMember hb me
  | joinById hrec _ =>
      cases hr.symm.trans hrec
      cases hq
      exact follows_withMember hb _
  | migrate hrec _ _ _ _ | kick _ hrec _ =>
      cases hr.symm.trans hrec
      cases hq
      exact follows_eraseMember hb hd _ rfl
  | promote _ hrec _ _ =>
      cases hr.symm.trans hrec
      cases hq
      exact follows_keep hb rfl
  | announce _ _ hnot => exact absurd (hnot.symm.trans howner) nofun
  | update hrec _ _ =>
      cases hr.symm.trans hrec
      cases hq
      exact follows_modifyMember rfl fun p => rfl
  | @joinRequest _ _ pid _ hrec _ hnone _ =>
      cases hr.symm.trans hrec
      cases hq
      have hjoin : r.withMember pid = r.addMember pid := if_pos hnone
      exact hjoin ▸ follows_withMember hb pid
  | @left _ _ pid _ _ hrec _ =>
      cases hr.symm.trans hrec
      cases hq
      refine follows_eraseMember hb hd pid ?_
      rw [if_pos howner]
      rfl

/-- What a section of the owner leaves in the record. -/
theorem follows_step (hk : n.Keyed) (hd : n.Distinct) (h : n.step b = some t)
    (howned : id ∈ n.lobby.owned)
    (hnew : ∀ tick o, b = .createLobby tick o →
    id ≠ newLobbyId o.localUserId tick n.lobby.lobbyCounter)
    (hr : n.lobby.known.get? id = some r) (hq : t.lobby.known.get? id = some q) :
      Follows id b r q := by
  have hview : (∀ p, b.change id p = none) → Follows id b r q := fun hb =>
    follows_view (LobbyNode.step_view h id) hb hk rfl (LobbyInterface.view_owner.2 howned)
      (hd.known id r hr) hnew hr hq
  obtain ⟨o, ho, rfl⟩ := Option.map_eq_some_iff.1 h
  cases b with
  | updateLobby m =>
      by_cases hid : m.lobbyId = id
      · subst hid
        cases ho
        rw [LobbyInterface.updateLobby, hr] at hq
        dsimp only at hq
        rw [if_pos howned, Dict.get?_set, if_pos rfl] at hq
        cases hq
        exact follows_modifyMember (applyModification_members r m) fun p => rfl
      · exact hview fun p => LobbyMessage.change_of_ne (.inl hid)
  | datagram tick source m =>
      cases m with
      | update j pid adds removes =>
          by_cases hid : j = id
          · subst hid
            cases ho
            rw [LobbyInterface.onDatagram, LobbyInterface.onUpdate, hr] at hq
            dsimp only at hq
            split at hq
            · rw [Dict.get?_set, if_pos rfl] at hq
              cases hq
              exact follows_modifyMember rfl fun p => rfl
            · next hnone =>
                cases hr.symm.trans hq
                have hfind : r.findMember pid = none := by
                  rw [← Option.not_isSome_iff_eq_none]
                  exact fun hsome => hnone ⟨howned, hsome⟩
                refine follows_modifyMember ?_ fun p => rfl
                rw [(modifyMember_congr (g := fun m => m) r.members).2, modifyMember_id]
                intro m hm
                cases hfind.symm.trans hm
          · exact hview fun p => LobbyMessage.change_of_ne (.inl hid)
      | announce | joinRequest | leave => exact hview fun p => rfl
  | _ => exact hview fun p => rfl

end

/-- The record of a lobby that the section creates. -/
theorem record_of_created {n t : LobbyNode} {b : LobbyAction} {id : Bytes}
    (h : n.created b = some id) (hst : n.step b = some t) :
    ∃ o : CreateLobbyOptions, t.lobby.known.get? id = some { o.record with lobbyId := id } := by
  obtain ⟨out, hout, rfl⟩ := Option.map_eq_some_iff.1 hst
  cases b with
  | createLobby tick o =>
      rw [LobbyNode.created_createLobby hout] at h
      cases LobbyNode.outcome_does hout with
      | fails hfail _ =>
          rw [if_neg hfail] at h
          cases h
      | creates _ _ hid =>
          rw [if_pos rfl, ← hid] at h
          cases h
          exact ⟨o, (Dict.get?_set _ _ _ _).trans (if_pos rfl)⟩
  | _ => cases h

/-- A node that gains a lobby by creating one created it. -/
theorem created_of_gains {n t : LobbyNode} {id : Bytes} {tick : UInt64} {o : CreateLobbyOptions}
    (hst : n.step (.createLobby tick o) = some t) (hnot : id ∉ n.lobby.owned)
    (howned : id ∈ t.lobby.owned) : n.created (.createLobby tick o) = some id := by
  obtain ⟨out, hout, rfl⟩ := Option.map_eq_some_iff.1 hst
  rw [LobbyNode.created_createLobby hout]
  cases LobbyNode.outcome_does hout with
  | fails => exact absurd howned hnot
  | creates _ _ hid => rw [if_pos rfl, ← hid, (Finset.mem_insert.1 howned).resolve_right hnot]

/-- The record of a lobby that the node takes over. -/
theorem record_of_takesOver {n t : LobbyNode} {id : Bytes} {tick : UInt64} {source : Endpoint}
    {r : LobbyRecord} (hst : n.step (.datagram tick source (.announce r)) = some t)
    (hid : r.lobbyId = id) (hnot : id ∉ n.lobby.owned) (howned : id ∈ t.lobby.owned) :
    t.lobby.known.get? id = some (r.received tick source) := by
  obtain ⟨out, hout, rfl⟩ := Option.map_eq_some_iff.1 hst
  cases LobbyNode.outcome_does hout with
  | fails | ignores => exact absurd howned hnot
  | hears => exact (Dict.get?_set _ _ _ _).trans (if_pos hid.symm)

/-! ## The changes merged so far -/

/-- The node's record of the lobby lists the user. -/
def LobbyNode.lists (n : LobbyNode) (id pid : Bytes) : Bool :=
  (n.lobby.known.get? id).any fun r => decide (r.Lists pid)

/-- The changes of a member that are merged since the owner's record lists it, after one more
section: a section of the owner, or the one that creates the lobby. -/
def LobbyNode.tally (n t : LobbyNode) (id pid : Bytes) (b : LobbyAction)
    (merged : Option (List MemberChange)) : Option (List MemberChange) :=
  if id ∈ n.lobby.owned ∨ n.created b = some id then
    if t.lists id pid then
      if id ∈ n.lobby.owned ∧ n.lists id pid then merged.map (· ++ (b.change id pid).toList)
        else some []
    else none
  else merged

namespace LobbyWorld

/-- The section that a step takes, and the node that takes it. -/
def sectionOf (endpoint : Bytes → Endpoint) (w : LobbyWorld) (a : LobbyEvent) :
    Option (Bytes × LobbyAction) :=
  (Protocol.actor a).bind fun i => (actionAt endpoint w i a).map (i, ·)

/-- The changes of a member that are merged since the owner's record lists it; `none` while it does
not. -/
def tally (endpoint : Bytes → Endpoint) (id pid : Bytes) (l : List LobbyTransition) :
    Option (List MemberChange) :=
  l.foldl (fun merged x => (sectionOf endpoint x.pre x.action).elim merged fun s =>
    (x.pre.nodes s.1).tally (x.post.nodes s.1) id pid s.2 merged) none

/-- The record holds what was merged. -/
def Holds (endpoint : Bytes → Endpoint) (l : List LobbyTransition) (id : Bytes) (r : LobbyRecord) :
    Prop :=
  ∀ pid, r.attrsOf pid = (tally endpoint id pid l).map replay

/-- The record of the owner holds what was merged, and so does the announce that hands it over, as
it is read. -/
structure Replays (endpoint : Bytes → Endpoint) (id : Bytes) (l : List LobbyTransition)
    (w : LobbyWorld) : Prop where
  owner : ∀ i r, id ∈ (w.nodes i).lobby.owned → (w.nodes i).lobby.known.get? id = some r →
    Holds endpoint l id r
  outbox : ∀ i th x r, x ∈ w.out i th → x.handsOver i id = true → x.message = .announce r →
    Holds endpoint l id r
  link : ∀ s i c r, c ∈ w.links s i → handedTo i id c = true →
    c.message.read = some (.announce r) → Holds endpoint l id r

section
variable {endpoint : Bytes → Endpoint} {w w' : LobbyWorld} {a : LobbyEvent}
  {l : List LobbyTransition} {id pid i : Bytes} {b : LobbyAction}

/-- The section a step takes is what its actor does. -/
theorem sectionOf_eq_some {s : Bytes × LobbyAction} :
    sectionOf endpoint w a = some s ↔ actionAt endpoint w s.1 a = some s.2 := by
  unfold sectionOf
  rw [Option.bind_eq_some_iff]
  constructor
  · rintro ⟨i, _, h⟩
    obtain ⟨b, hb, rfl⟩ := Option.map_eq_some_iff.1 h
    exact hb
  · intro h
    exact ⟨s.1, actor_of_actionAt h, by rw [h]; rfl⟩

/-- The history after one more step. -/
theorem tally_snoc (x : LobbyTransition) : tally endpoint id pid (l ++ [x]) =
    (sectionOf endpoint x.pre x.action).elim (tally endpoint id pid l) fun s =>
      (x.pre.nodes s.1).tally (x.post.nodes s.1) id pid s.2 (tally endpoint id pid l) :=
        List.foldl_append

/-- The history after one more section. -/
theorem tally_section (hb : actionAt endpoint w i a = some b) :
    tally endpoint id pid (l ++ [⟨w, a, w'⟩]) =
      (w.nodes i).tally (w'.nodes i) id pid b (tally endpoint id pid l) := by
  have hsec : sectionOf endpoint w a = some (i, b) := sectionOf_eq_some.2 hb
  rw [tally_snoc, hsec]
  rfl

/-- A step in which no owner acts, and nobody creates the lobby. -/
theorem tally_other (h : ∀ i b, actionAt endpoint w i a = some b →
    id ∉ (w.nodes i).lobby.owned ∧ (w.nodes i).created b ≠ some id) :
    tally endpoint id pid (l ++ [⟨w, a, w'⟩]) = tally endpoint id pid l := by
  rw [tally_snoc]
  cases hsec : sectionOf endpoint w a with
  | none => rfl
  | some s =>
      obtain ⟨hnot, hcreated⟩ := h s.1 s.2 (sectionOf_eq_some.1 hsec)
      exact if_neg fun hor => hor.elim hnot hcreated

/-! ## The record holds what was merged -/

variable {r q : LobbyRecord}

/-- Whether a record holds the history depends on its members only. -/
theorem holds_congr (h : Holds endpoint l id r) (hq : q.members = r.members) :
    Holds endpoint l id q := fun pid => by
  rw [LobbyRecord.attrsOf_congr hq]
  exact h pid

/-- A record that travels holds the same history. -/
theorem holds_carried (h : Holds endpoint l id r) : Holds endpoint l id r.carried := fun pid => by
  rw [LobbyRecord.attrsOf_carried]
  exact h pid

/-- The members of a node are those of its cached record. -/
theorem lists_iff {n : LobbyNode} (hr : n.lobby.known.get? id = some r) :
    n.lists id pid = true ↔ r.Lists pid := by
  rw [LobbyNode.lists, hr, Option.any_some, decide_eq_true_iff]

/-- A section of the owner merges what the history says. -/
theorem holds_owner (h : Holds endpoint l id r) (hb : actionAt endpoint w i a = some b)
    (howned : id ∈ (w.nodes i).lobby.owned) (hr : (w.nodes i).lobby.known.get? id = some r)
    (hq : (w'.nodes i).lobby.known.get? id = some q) (hfollows : Follows id b r q) :
    Holds endpoint (l ++ [⟨w, a, w'⟩]) id q := by
  intro pid
  rw [tally_section hb, LobbyNode.tally, if_pos (.inl howned)]
  by_cases hlists : q.Lists pid
  · rw [if_pos ((lists_iff hq).2 hlists), hfollows pid hlists]
    by_cases hlisted : r.Lists pid
    · rw [if_pos hlisted, if_pos ⟨howned, (lists_iff hr).2 hlisted⟩, h pid, Option.map_map,
        Option.map_map]
      exact congrArg (fun f => Option.map f _) (funext fun us => (replay_append us _).symm)
    · rw [if_neg hlisted, if_neg fun hand => hlisted ((lists_iff hr).1 hand.2)]
      rfl
  · rw [if_neg fun hsome => hlists ((lists_iff hq).1 hsome), LobbyRecord.attrsOf_eq_none.2 hlists]
    rfl

/-- The section that creates the lobby lists the creator without attributes. -/
theorem holds_created (hb : actionAt endpoint w i a = some b)
    (hnot : id ∉ (w.nodes i).lobby.owned) (hcreated : (w.nodes i).created b = some id)
    (hst : (w.nodes i).step b = some (w'.nodes i))
    (hq : (w'.nodes i).lobby.known.get? id = some q) : Holds endpoint (l ++ [⟨w, a, w'⟩]) id q := by
  intro pid
  obtain ⟨o, rfl⟩ := (record_of_created hcreated hst).imp fun o ho =>
    Option.some.inj (hq.symm.trans ho)
  have hattrs : ({ o.record with lobbyId := id } : LobbyRecord).attrsOf pid =
      if o.localUserId = pid then some [] else none := by
    unfold LobbyRecord.attrsOf LobbyRecord.findMember CreateLobbyOptions.record
    by_cases hpid : o.localUserId = pid
    · simp [hpid, normalisedAttrs]
    · simp [hpid]
  rw [tally_section hb, LobbyNode.tally, if_pos (.inr hcreated)]
  by_cases hlists : ({ o.record with lobbyId := id } : LobbyRecord).Lists pid
  · rw [if_pos ((lists_iff hq).2 hlists), if_neg fun hand => hnot hand.1, hattrs, if_pos]
    · rfl
    · by_contra hne
      rw [if_neg hne, LobbyRecord.attrsOf_eq_none] at hattrs
      exact hattrs hlists
  · rw [if_neg fun hsome => hlists ((lists_iff hq).1 hsome), LobbyRecord.attrsOf_eq_none.2 hlists]
    rfl

/-! ## The run -/

/-- Where the authority over the lobby is at a node, it is nowhere else. -/
structure SoleAt (w : LobbyWorld) (id i : Bytes) : Prop where
  owner : ∀ j, id ∈ (w.nodes j).lobby.owned → j = i
  outbox : ∀ j th x, x ∈ w.out j th → x.handsOver j id = false
  link : ∀ s j c, c ∈ w.links s j → handedTo j id c = false

/-- An authority that is nowhere else lies at this node alone. -/
theorem soleAt_of_authority (h : ∀ p, p ≠ .owner i → w.authority id p = 0) : SoleAt w id i where
  owner j hj := by
    by_contra hne
    exact authority_owner_ne_zero.2 hj (h (.owner j) fun heq => hne (Authority.owner.inj heq))
  outbox j th x hx := by
    have hzero : (w.out j th).countP (LobbySend.handsOver j id) = 0 := h (.outbox j th) nofun
    exact Bool.eq_false_iff.2 (List.countP_eq_zero.1 hzero x hx)
  link s j c hc := by
    have hzero : (w.links s j).countP (handedTo j id) = 0 := h (.link s j) nofun
    exact Bool.eq_false_iff.2 (List.countP_eq_zero.1 hzero c hc)

/-- A lobby's owner is the only place of its authority. -/
theorem soleAt_owner (h : Sole (w.authority id)) (hi : id ∈ (w.nodes i).lobby.owned) :
    SoleAt w id i :=
  soleAt_of_authority fun p hp => by
    by_contra hne
    exact hp (h.unique hne (authority_owner_ne_zero.2 hi))

/-- What hands a lobby over announces a record. -/
theorem announce_of_handsOver {x : LobbySend} (h : x.handsOver i id = true) :
    ∃ r, x.message = .announce r := by
  unfold LobbySend.handsOver at h
  split at h
  · next r hm => exact ⟨r, hm⟩
  · cases h

/-- That record is the one the section left. -/
theorem record_of_handsOver {o : LobbyOutcome} {x : LobbySend}
    (ho : (w.nodes i).outcome b = some o) (hstate : (w'.nodes i).lobby = o.state)
    (hk : (w'.nodes i).Keyed) (hx : x ∈ o.sends) (hover : x.handsOver i id = true)
    (hm : x.message = .announce r) : (w'.nodes i).lobby.known.get? id = some r := by
  have hfrom := LobbyNode.sends_from ho hx
  rw [← hstate] at hfrom
  cases hfrom with
  | @announce j q hq _ =>
      cases hm
      obtain ⟨hid, _⟩ := (Bool.and_eq_true _ _).mp hover
      have hid : r.lobbyId = id := of_decide_eq_true hid
      exact (hk.known j r hq).1.symm.trans hid ▸ hq
  | update | joinRequest | leave => cases hover

/-- A datagram of a link that hands the lobby over was there, or is sent from an outbox. -/
theorem handedTo_of_step (hst : (lobbyProtocol endpoint).step w a = some w')
    (hfifo : Protocol.Fifo w a) {s j : Bytes} {c : Copy LobbyDatagram} (hc : c ∈ w'.links s j)
    (hto : handedTo j id c = true) :
    c ∈ w.links s j ∨ ∃ th x, x ∈ w.out s th ∧ x.message.datagram = c.message ∧
    fits x.message.payload = true ∧ x.handsOver s id = true := by
  rcases Protocol.mem_links_of_step hst hc with hc | ⟨_, _, _, k, d, rfl⟩ | ⟨hne, _, x,
    ⟨th, hx⟩ | ⟨o, ho, hx⟩, hwire⟩
  · exact .inl hc
  · cases hfifo.2
  · obtain ⟨hm, hfits⟩ := message_of_wire hwire
    obtain ⟨m, hread, hnames⟩ := (Option.any_eq_true _ _).1 ((Bool.and_eq_true _ _).mp hto).2
    rw [← hm] at hread
    rw [names_of_read hfits hread] at hnames
    exact .inr ⟨th, x, hx, hm, hfits, handsOver_of_names hne hnames⟩
  · rcases outcome_of_sectionAt ho with ⟨_, rfl⟩ | ⟨_, _, _, _, _, _, hlocked, _⟩
    · cases hx
    · rw [hlocked] at hx
      cases hx

/-- A hand-over in an outbox was there, or the section leaves it. -/
theorem handsOver_of_step (hst : (lobbyProtocol endpoint).step w a = some w') {j : Bytes}
    {th : ThreadKind} {x : LobbySend} (hx : x ∈ w'.out j th) :
    x ∈ w.out j th ∨ ∃ b o, actionAt endpoint w j a = some b ∧ (w.nodes j).outcome b = some o ∧
      (w.nodes j).step b = some (w'.nodes j) ∧ (w'.nodes j).lobby = o.state ∧ x ∈ o.sends := by
  rcases Protocol.mem_out_of_step hst hx with hx | ⟨o, ho, hx⟩
  · exact .inl hx
  · rcases outcome_of_sectionAt ho with ⟨_, rfl⟩ | ⟨b, q, hb, hq, _, _, _, hlater⟩
    · cases hx
    obtain ⟨q', hq', hstate, _⟩ := section_step hst hb
    cases hq.symm.trans hq'
    refine .inr ⟨b, q, hb, hq, ?_, hstate, hlater ▸ hx⟩
    rcases node_step hst j with ⟨hnone, _⟩ | ⟨b', hb', hn⟩
    · cases hnone.symm.trans hb
    · cases hb.symm.trans hb'
      exact hn

/-- After a section of the only node with the authority, what it leaves is told by its record. -/
theorem replays_section (hst : (lobbyProtocol endpoint).step w a = some w')
    (hfifo : Protocol.Fifo w a)
    (hk : ∀ i, (w'.nodes i).Keyed) (hsole : SoleAt w id i) (hb : actionAt endpoint w i a = some b)
    (hrecord : ∀ q, (w'.nodes i).lobby.known.get? id = some q →
    Holds endpoint (l ++ [⟨w, a, w'⟩]) id q) :
    Replays endpoint id (l ++ [⟨w, a, w'⟩]) w' where
  owner j q hj hq := by
    rcases node_step hst j with ⟨hnone, heq⟩ | ⟨b', hb', _⟩
    · rw [heq] at hj
      obtain rfl := hsole.owner j hj
      cases hnone.symm.trans hb
    · obtain rfl := actionAt_inj hb' hb
      exact hrecord q hq
  outbox j th x r hx hover hm := by
    rcases handsOver_of_step hst hx with hx | ⟨b', o, hb', ho, _, hstate, hx⟩
    · cases (hsole.outbox j th x hx).symm.trans hover
    · obtain rfl := actionAt_inj hb' hb
      exact hrecord r (record_of_handsOver ho hstate (hk j) hx hover hm)
  link s j c r hc hto hm := by
    rcases handedTo_of_step hst hfifo hc hto with hc | ⟨th, x, hx, _, _, hover⟩
    · cases (hsole.link s j c hc).symm.trans hto
    · cases (hsole.outbox s th x hx).symm.trans hover

/-- A step in which neither an owner of the lobby acts nor a creator. -/
theorem replays_other (hst : (lobbyProtocol endpoint).step w a = some w')
    (hfifo : Protocol.Fifo w a)
    (huntaken : Protocol.Untaken w) (hcarriable : ∀ i th x, x ∈ w.out i th → x.message.Carriable)
    (hk : ∀ i, (w'.nodes i).Keyed) (hpid : ∀ i, (w.nodes i).lobby.localPid = i)
    (hnamed : ∀ i, ((w'.nodes i).lobby.view id).Named (w.nodes i).lobby.localPid)
      (h : Replays endpoint id l w)
    (hother : ∀ i b, actionAt endpoint w i a = some b →
      id ∉ (w.nodes i).lobby.owned ∧ (w.nodes i).created b ≠ some id) :
    Replays endpoint id (l ++ [⟨w, a, w'⟩]) w' := by
  have hsame : ∀ r, Holds endpoint l id r → Holds endpoint (l ++ [⟨w, a, w'⟩]) id r := by
    intro r hr pid
    rw [tally_other hother]
    exact hr pid
  refine ⟨fun j q hj hq => hsame q ?_, fun j th x r hx hover hm => hsame r
    ?_, fun s j c r hc hto hm => hsame r ?_⟩
  · rcases node_step hst j with ⟨_, heq⟩ | ⟨b, hb, hn⟩
    · rw [heq] at hj hq
      exact h.owner j q hj hq
    · obtain ⟨hnot, hcreated⟩ := hother j b hb
      rcases gains hn hnot hj with ⟨tick, o, rfl, _⟩ | ⟨tick, source, r, rfl, hid, _, hname⟩
      · exact absurd (created_of_gains hn hnot hj) hcreated
      · rcases actionAt_eq_some hb with ⟨_, hcall⟩ | ⟨s, k, tick', keep, c, m, _, hc, hread, hdata⟩
        · cases hcall
        · have hmem := List.mem_of_getElem? hc
          cases hdata
          have hto : handedTo j id c = true := by
            rw [handedTo, huntaken s j c hmem, hread]
            simp [LobbyMessage.names, hid, hname, hpid j]
          cases hq.symm.trans (record_of_takesOver hn hid hnot hj)
          exact holds_congr (h.link s j c r hmem hto hread) rfl
  · rcases handsOver_of_step hst hx with hx | ⟨b, o, hb, ho, _, hstate, hx⟩
    · exact h.outbox j th x r hx hover hm
    · exact absurd (owned_of_handsOver (hk j) ho hstate (hnamed j) hx ((hpid j).symm ▸ hover)).1
        (hother j b hb).1
  · rcases handedTo_of_step hst hfifo hc hto with hc | ⟨th, x, hx, heq, hfits, hover⟩
    · exact h.link s j c r hc hto hm
    · -- the announce is read as what it carries
      obtain ⟨q, hq⟩ := announce_of_handsOver hover
      rw [← heq] at hm
      have hread := (hcarriable s th x hx).eq_of_read hfits hm
      rw [hq] at hread
      cases hread
      exact holds_carried (h.outbox s th x q hx hover hq)

/-- A lobby is created by the local user under a vacant id. -/
def CreatesVacant (w : LobbyWorld) : LobbyEvent → Prop
  | .call i (.createLobby tick o) => o.localUserId = i ∧
      w.Vacant (newLobbyId o.localUserId tick (w.nodes i).lobby.lobbyCounter)
  | _ => True

variable {ok : LobbyWorld → LobbyEvent → Prop}

/-- No announce hands a lobby over a second time when none is delivered again. -/
theorem handsOverOnce_of_untaken (huntaken : Protocol.Untaken w) (hvacant : CreatesVacant w a) :
    HandsOverOnce w a := by
  cases a with
  | call i b =>
      cases b with
      | createLobby tick o => exact hvacant
      | _ => trivial
  | receive s r k tick keep =>
      exact fun c hc _ _ _ => .inl (huntaken s r c (List.mem_of_getElem? hc))
  | send | lose => trivial

/-- On links that keep the order, every hand-over is taken over once. -/
theorem handsOverOnce_of_run (hok : ∀ w a, ok w a → Protocol.Fifo w a ∧ CreatesVacant w a)
    (h : Run (lobbyProtocol endpoint).step ok start w) :
    Run (lobbyProtocol endpoint).step HandsOverOnce start w ∧ Protocol.Untaken w := by
  induction h with
  | refl => exact ⟨.refl, fun s r c hc => nomatch hc⟩
  | @tail u v a _ hu hst ih =>
      obtain ⟨hrun, huntaken⟩ := ih
      obtain ⟨hfifo, hvacant⟩ := hok u a hu
      exact ⟨.tail a hrun (handsOverOnce_of_untaken huntaken hvacant) hst,
        Protocol.untaken_step hst huntaken hfifo⟩

/-- A lobby is created under an id that nobody knows. -/
theorem vacant_of_createLobby (h : CreatesVacant w a) {tick : UInt64} {o : CreateLobbyOptions}
    (hb : actionAt endpoint w i a = some (.createLobby tick o)) :
    w.Vacant (newLobbyId o.localUserId tick (w.nodes i).lobby.lobbyCounter) := by
  rcases actionAt_eq_some hb with ⟨rfl, _⟩ | ⟨_, _, _, _, _, _, _, _, _, hdata⟩
  · exact h.2
  · cases hdata

/-- A step keeps the records and the announces that hand over replaying what was merged. -/
theorem replays_step (hrun : Run (lobbyProtocol endpoint).step HandsOverOnce start w)
    (huntaken : Protocol.Untaken w)
    (hcarries : Carries (fun _ n => n.Distinct) LobbyMessage.Sound w) (hfifo : Protocol.Fifo w a)
    (hvacant : CreatesVacant w a) (hst : (lobbyProtocol endpoint).step w a = some w')
    (h : Replays endpoint id l w) : Replays endpoint id (l ++ [⟨w, a, w'⟩]) w' := by
  have hrun' := Run.tail a hrun (handsOverOnce_of_untaken huntaken hvacant) hst
  have hk' := keyed_of_run hrun'
  have hpid := localPid_of_run hrun
  have hnamed : ∀ i, ((w'.nodes i).lobby.view id).Named (w.nodes i).lobby.localPid := by
    intro i
    have hafter := (governed_of_run hrun').named i id
    rw [localPid_of_run hrun' i] at hafter
    rwa [hpid i]
  have hstep : ∀ {i b}, actionAt endpoint w i a = some b →
    (w.nodes i).step b = some (w'.nodes i) := by
    intro i b hb
    rcases node_step hst i with ⟨hnone, _⟩ | ⟨b', hb', hn⟩
    · cases hnone.symm.trans hb
    · cases hb.symm.trans hb'
      exact hn
  by_cases howner : ∃ i b, actionAt endpoint w i a = some b ∧ id ∈ (w.nodes i).lobby.owned
  · obtain ⟨i, b, hb, howned⟩ := howner
    obtain ⟨r, hr, _⟩ := (governed_of_run hrun).named i id (LobbyInterface.view_owner.2 howned)
    have hnew : ∀ tick o, b = .createLobby tick o →
        id ≠ newLobbyId o.localUserId tick (w.nodes i).lobby.lobbyCounter := by
      rintro tick o rfl rfl
      exact authority_owner_ne_zero.2 howned (vacant_of_createLobby hvacant hb (.owner i))
    refine replays_section hst hfifo hk' (soleAt_owner ((governed_of_run hrun).sole id) howned)
      hb fun q hq => ?_
    have hfollows := follows_step (keyed_of_run hrun i) (hcarries.nodes i).2 (hstep hb) howned hnew
      hr hq
    exact holds_owner (h.owner i r howned hr) hb howned hr hq hfollows
  · by_cases hcreator : ∃ i b, actionAt endpoint w i a = some b ∧ (w.nodes i).created b = some id
    · obtain ⟨i, b, hb, hcreated⟩ := hcreator
      have hnot : id ∉ (w.nodes i).lobby.owned := fun howned => howner ⟨i, b, hb, howned⟩
      have hnone : w.Vacant id := by
        cases b with
        | createLobby tick o =>
            obtain ⟨_, hid⟩ := Option.ite_none_right_eq_some.1 hcreated
            exact Option.some.inj hid ▸ vacant_of_createLobby hvacant hb
        | _ => cases hcreated
      exact replays_section hst hfifo hk' (soleAt_of_authority fun p _ => hnone p) hb fun q hq =>
        holds_created hb hnot hcreated (hstep hb) hq
    · exact replays_other hst hfifo huntaken (fun i th x hx => (hcarries.out i th x hx).1) hk' hpid
        hnamed h fun i b hb =>
        ⟨fun howned => howner ⟨i, b, hb, howned⟩, fun hcreated => hcreator ⟨i, b, hb, hcreated⟩⟩

/-- The owner's record replays what was merged, in every history. -/
theorem replays_of_trace (hok : ∀ w a, ok w a → Protocol.Fifo w a ∧ CreatesVacant w a)
    (htyped : ∀ w a, ok w a → TypedCalls w a)
    (h : Trace (lobbyProtocol endpoint).step ok start l w) : Replays endpoint id l w := by
  induction h with
  | refl =>
      exact ⟨fun _ _ hi => absurd hi (Finset.notMem_empty id), fun _ _ _ _ hx => absurd hx
        List.not_mem_nil, fun _ _ _ _ hc => absurd hc List.not_mem_nil⟩
  | @tail l u v a hl hu hst ih =>
      obtain ⟨hrun, huntaken⟩ := handsOverOnce_of_run hok hl.run
      obtain ⟨hfifo, hvacant⟩ := hok u a hu
      exact replays_step hrun huntaken (sound_of_run hl.run htyped) hfifo hvacant hst ih

end

end LobbyWorld

end EOSEmu
