import EOSEmu.Lobby.Interface

/-!
# What an announce tells

`OnDatagram(LobbyAnnounce)` compares the record that came in with the cached one by nested loops
over the members, and the members' attributes by `MemberAttrsEqual`. Here is what the comparison
stands for: attribute lists are finite maps (`memberAttrsEqual_iff`), and the notifications are the
differences of the two records, each once (`announced_exact`).
-/

namespace EOSEmu

open Lib (Dict)

/-! ## Attribute lists as finite maps -/

/-- The bit pattern is that of a NaN, or of a zero. -/
def doubleIsNaN (x : UInt64) : Bool := 0x7FF0000000000000 < x &&& 0x7FFFFFFFFFFFFFFF
def doubleIsZero (x : UInt64) : Bool := x &&& 0x7FFFFFFFFFFFFFFF == 0

/-- The number behind a bit pattern: the two zeros are one. -/
def doubleNumber (x : UInt64) : UInt64 := if doubleIsZero x then 0 else x

/-- `==` on doubles compares numbers. -/
theorem doubleEq_iff {a b : UInt64} (ha : doubleIsNaN a = false) (hb : doubleIsNaN b = false) :
    doubleEq a b = true ↔ doubleNumber a = doubleNumber b := by
  have heq : doubleEq a b = (!doubleIsNaN a && !doubleIsNaN b &&
    (a == b || (doubleIsZero a && doubleIsZero b))) := rfl
  have hzero : doubleIsZero 0 = true := rfl
  rw [heq, ha, hb]
  simp only [Bool.not_false, Bool.true_and, Bool.or_eq_true, beq_iff_eq, Bool.and_eq_true]
  unfold doubleNumber
  constructor
  · rintro (rfl | ⟨hza, hzb⟩)
    · rfl
    · rw [if_pos hza, if_pos hzb]
  · intro h
    split at h
    · next hza =>
        split at h
        · next hzb => exact .inr ⟨hza, hzb⟩
        · next hzb => exact absurd (h ▸ hzero) hzb
    · next hza =>
        split at h
        · next hzb => exact absurd (h ▸ hzero) hza
        · exact .inl h

/-- What an attribute value stands for: its type and the field of that type. -/
def AttrValue.meaning (v : AttrValue) : AttrValue :=
  match v.type with
  | 0 => { type := v.type, bool := v.bool }
  | 1 => { type := v.type, int := v.int }
  | 2 => { type := v.type, dbl := doubleNumber v.dbl }
  | 3 => { type := v.type, str := v.str }
  | _ => { type := v.type }

/-- The value has one of the four SDK types, and no NaN. -/
structure AttrValue.Comparable (v : AttrValue) : Prop where
  type : IsAttributeType v.type
  number : v.type = 2 → doubleIsNaN v.dbl = false

/-- `AttrEqual` compares what values stand for. -/
theorem attrEqual_iff {a b : AttrValue} (ha : a.Comparable) (hb : b.Comparable) :
    attrEqual a b = true ↔ a.meaning = b.meaning := by
  obtain ⟨hatype, hanum⟩ := ha
  obtain ⟨hbtype, hbnum⟩ := hb
  obtain ⟨atype, aint, adbl, abool, astr⟩ := a
  obtain ⟨btype, bint, bdbl, bbool, bstr⟩ := b
  cases hatype <;> cases hbtype <;> simp_all [attrEqual, AttrValue.meaning, doubleEq_iff]

/-- An attribute list as a finite map from keys to what the value stands for and the visibility. -/
def attrMap (l : AttrList) (key : Bytes) : Option (AttrValue × SdkInt) :=
  (l.lookup key).map fun a => (a.value.meaning, a.visibility)

/-- The keys of the list are distinct, and its values comparable. -/
structure AttrsDistinct (l : AttrList) : Prop where
  keys : (l.map Prod.fst).Nodup
  values : ∀ a ∈ l, a.2.value.Comparable

/-- `MemberAttrsEqual` compares two lists as finite maps. -/
theorem memberAttrsEqual_iff {a b : AttrList} (ha : AttrsDistinct a) (hb : AttrsDistinct b) :
    memberAttrsEqual a b = true ↔ attrMap a = attrMap b := by
  rw [funext_iff]
  refine Iff.trans ?_ (Lib.lookup_map_eq_iff
    (g := fun a : LobbyAttr => (a.value.meaning, a.visibility)) ha.keys hb.keys)
  rw [memberAttrsEqual, Bool.and_eq_true, beq_iff_eq, List.all_eq_true]
  refine and_congr_right fun _ => forall₂_congr fun e he => ?_
  cases hv : b.lookup e.1 with
  | none => simp
  | some v =>
      have hmem := (Lib.mem_iff_lookup hb.keys).2 hv
      simp only [Bool.and_eq_true, beq_iff_eq, Option.some.injEq, exists_eq_left', Prod.mk.injEq]
      rw [attrEqual_iff (ha.values e he) (hb.values _ hmem)]

/-! ## The notifications of an announce -/

/-- A record with distinct members, an owner, and comparable attribute lists. -/
structure LobbyRecord.Proper (r : LobbyRecord) : Prop where
  members : (r.members.map (·.productId)).Nodup
  owner : r.ownerProductId ≠ []
  attributes : ∀ m ∈ r.members, AttrsDistinct m.attributes

/-- The attributes of a member, as a finite map. -/
def LobbyRecord.memberMap (r : LobbyRecord) (pid : Bytes) :
    Option (Bytes → Option (AttrValue × SdkInt)) :=
  (r.findMember pid).map fun m => attrMap m.attributes

/-- The differences of two records of a lobby. -/
inductive AnnounceTells (old fresh : LobbyRecord) : LobbyNote → Prop
  | update : fresh.version ≠ old.version → AnnounceTells old fresh (.update fresh.lobbyId)
  | joined {pid : Bytes} : fresh.Lists pid → ¬ old.Lists pid →
      AnnounceTells old fresh (.memberStatus fresh.lobbyId pid lmsJoined)
  | left {pid : Bytes} : old.Lists pid → ¬ fresh.Lists pid →
      AnnounceTells old fresh (.memberStatus fresh.lobbyId pid lmsLeft)
  | changed {pid : Bytes} : old.Lists pid → fresh.Lists pid →
      old.memberMap pid ≠ fresh.memberMap pid →
      AnnounceTells old fresh (.memberUpdate fresh.lobbyId pid)
  | promoted : old.ownerProductId ≠ fresh.ownerProductId →
      AnnounceTells old fresh (.memberStatus fresh.lobbyId fresh.ownerProductId lmsPromoted)

/-- With distinct ids, a member is found under its id. -/
theorem LobbyRecord.findMember_of_mem {r : LobbyRecord}
    (hnd : (r.members.map (·.productId)).Nodup) {m : LobbyMemberRec} (hm : m ∈ r.members) :
    r.findMember m.productId = some m := by
  unfold findMember
  generalize r.members = l at hnd hm
  induction l with
  | nil => cases hm
  | cons m' l ih =>
      rw [List.map_cons, List.nodup_cons] at hnd
      rw [List.find?_cons]
      rcases List.mem_cons.1 hm with rfl | hm
      · simp
      · have hne : m'.productId ≠ m.productId := fun h => hnd.1 (h ▸ List.mem_map_of_mem hm)
        simp [hne, ih hnd.2 hm]

section
variable {old fresh : LobbyRecord}

/-- The members that one record lists and the other does not. -/
theorem mem_notListed {a b : LobbyRecord} {pid : Bytes} :
    pid ∈ (a.members.filter fun m => (b.findMember m.productId).isNone).map (·.productId) ↔
      a.Lists pid ∧ ¬ b.Lists pid := by
  simp only [List.mem_map, List.mem_filter, LobbyRecord.Lists]
  constructor
  · rintro ⟨m, ⟨hm, hnone⟩, rfl⟩
    refine ⟨⟨m, hm, rfl⟩, fun hlists => ?_⟩
    have hsome := LobbyRecord.findMember_isSome.2 (List.mem_map.2 hlists)
    rw [Option.isNone_iff_eq_none.1 hnone] at hsome
    cases hsome
  · rintro ⟨⟨m, hm, rfl⟩, hno⟩
    refine ⟨m, ⟨hm, ?_⟩, rfl⟩
    rw [Option.isNone_iff_eq_none, ← Option.not_isSome_iff_eq_none, LobbyRecord.findMember_isSome]
    exact fun h => hno (List.mem_map.1 h)

/-- The members of both records whose attributes differ. -/
theorem mem_changed (hold : old.Proper) (hfresh : fresh.Proper) {pid : Bytes} :
    pid ∈ (fresh.members.filter fun m =>
      match old.findMember m.productId with
      | some oldM => !memberAttrsEqual oldM.attributes m.attributes
      | none => false).map (·.productId) ↔
      old.Lists pid ∧ fresh.Lists pid ∧ old.memberMap pid ≠ fresh.memberMap pid := by
  have hdiffer : ∀ m ∈ fresh.members, ∀ oldM, old.findMember m.productId = some oldM →
      ((!memberAttrsEqual oldM.attributes m.attributes) = true ↔
        old.memberMap m.productId ≠ fresh.memberMap m.productId) := by
    intro m hm oldM hfind
    have holdM := List.mem_of_find?_eq_some hfind
    rw [LobbyRecord.memberMap, LobbyRecord.memberMap, hfind,
      LobbyRecord.findMember_of_mem hfresh.members hm,
      Option.map_some, Option.map_some, Bool.not_eq_true', ← Bool.not_eq_true,
      memberAttrsEqual_iff (hold.attributes oldM holdM) (hfresh.attributes m hm)]
    simp
  simp only [List.mem_map, List.mem_filter]
  constructor
  · rintro ⟨m, ⟨hm, htest⟩, rfl⟩
    cases hfind : old.findMember m.productId with
    | none =>
        rw [hfind] at htest
        cases htest
    | some oldM =>
        rw [hfind] at htest
        exact ⟨LobbyRecord.findMember_isSome.1 (by rw [hfind]; rfl), List.mem_map_of_mem hm,
          (hdiffer m hm oldM hfind).1 htest⟩
  · rintro ⟨hlists, hlists', hne⟩
    obtain ⟨m, hm, rfl⟩ := List.mem_map.1 hlists'
    obtain ⟨oldM, hfind⟩ := Option.isSome_iff_exists.1 (LobbyRecord.findMember_isSome.2 hlists)
    refine ⟨m, ⟨hm, ?_⟩, rfl⟩
    rw [hfind]
    exact (hdiffer m hm oldM hfind).2 hne

/-- A notification for each element of a list of members. -/
theorem mem_map_note {l : List LobbyMemberRec} {f : Bytes → LobbyNote} {note : LobbyNote} :
    note ∈ l.map (fun m => f m.productId) ↔ ∃ pid ∈ l.map (·.productId), f pid = note := by
  simp

/-- The notifications are the differences. -/
theorem mem_announceNotes (hold : old.Proper) (hfresh : fresh.Proper) {note : LobbyNote} :
    note ∈ LobbyInterface.announceNotes old fresh ↔ AnnounceTells old fresh note := by
  unfold LobbyInterface.announceNotes
  rw [List.mem_append, List.mem_append, List.mem_append, List.mem_append,
    mem_map_note (f := fun pid => .memberStatus fresh.lobbyId pid lmsJoined),
    mem_map_note (f := fun pid => .memberStatus fresh.lobbyId pid lmsLeft),
    mem_map_note (f := fun pid => .memberUpdate fresh.lobbyId pid)]
  constructor
  · rintro ((((h | ⟨pid, hpid, rfl⟩) | ⟨pid, hpid, rfl⟩) | ⟨pid, hpid, rfl⟩) | h)
    · split at h
      · next hne =>
          obtain rfl := List.mem_singleton.1 h
          exact .update hne
      · cases h
    · obtain ⟨hnew, hno⟩ := mem_notListed.1 hpid
      exact .joined hnew hno
    · obtain ⟨hwas, hno⟩ := mem_notListed.1 hpid
      exact .left hwas hno
    · obtain ⟨hwas, hnew, hne⟩ := (mem_changed hold hfresh).1 hpid
      exact .changed hwas hnew hne
    · split at h
      · next hne =>
          obtain rfl := List.mem_singleton.1 h
          exact .promoted hne.1
      · cases h
  · rintro (hne | ⟨hnew, hno⟩ | ⟨hwas, hno⟩ | ⟨hwas, hnew, hne⟩ | hne)
    · exact .inl (.inl (.inl (.inl (by rw [if_pos hne]; exact List.mem_singleton.2 rfl))))
    · exact .inl (.inl (.inl (.inr ⟨_, mem_notListed.2 ⟨hnew, hno⟩, rfl⟩)))
    · exact .inl (.inl (.inr ⟨_, mem_notListed.2 ⟨hwas, hno⟩, rfl⟩))
    · exact .inl (.inr ⟨_, (mem_changed hold hfresh).2 ⟨hwas, hnew, hne⟩, rfl⟩)
    · exact .inr (by rw [if_pos ⟨hne, hfresh.owner⟩]; exact List.mem_singleton.2 rfl)

/-- The order in which an announce posts its notifications. -/
def LobbyNote.rank : LobbyNote → ℕ
  | .update _ => 0
  | .memberStatus _ _ status => if status = lmsJoined then 1 else if status = lmsLeft then 2 else 4
  | .memberUpdate _ _ => 3

/-- Notifications of a later rank are none of the earlier ones. -/
theorem nodup_append_of_rank {l l' : List LobbyNote} {n : ℕ} (hl : l.Nodup ∧ ∀ x ∈ l, x.rank < n)
    (hl' : l'.Nodup) (hrank : ∀ x ∈ l', x.rank = n) :
    (l ++ l').Nodup ∧ ∀ x ∈ l ++ l', x.rank < n + 1 := by
  refine ⟨List.nodup_append.2 ⟨hl.1, hl', fun x hx y hy hxy => ?_⟩, fun x hx => ?_⟩
  · have hlt := hl.2 x hx
    have heq := hrank y hy
    subst hxy
    omega
  · rcases List.mem_append.1 hx with hx | hx
    · have hlt := hl.2 x hx
      omega
    · have heq := hrank x hx
      omega

/-- One notification for each of some members is posted once. -/
theorem nodup_map_note {r : LobbyRecord} (hr : r.Proper) (p : LobbyMemberRec → Bool)
    {f : Bytes → LobbyNote} (hf : Function.Injective f) :
    ((r.members.filter p).map fun m => f m.productId).Nodup := by
  have hnd : ((r.members.filter p).map (·.productId)).Nodup :=
    hr.members.sublist (List.filter_sublist.map _)
  have hmap := hnd.map hf
  rwa [List.map_map] at hmap

/-- Every notification is posted once. -/
theorem nodup_announceNotes (hold : old.Proper) (hfresh : fresh.Proper) :
    (LobbyInterface.announceNotes old fresh).Nodup := by
  unfold LobbyInterface.announceNotes
  have hone : ∀ {c : Prop} [Decidable c] {note : LobbyNote}, (if c then [note] else []).Nodup := by
    intro c _ note
    split
    · exact List.nodup_singleton _
    · exact List.nodup_nil
  refine (nodup_append_of_rank (n := 4)
    (nodup_append_of_rank (n := 3) (nodup_append_of_rank (n := 2)
    (nodup_append_of_rank (n := 1) ⟨hone, ?_⟩
      (nodup_map_note hfresh _ (f := fun pid => .memberStatus fresh.lobbyId pid lmsJoined) ?_) ?_)
      (nodup_map_note hold _ (f := fun pid => .memberStatus fresh.lobbyId pid lmsLeft) ?_) ?_)
      (nodup_map_note hfresh _ (f := fun pid => .memberUpdate fresh.lobbyId pid) ?_) ?_) hone ?_).1
  · intro x hx
    split at hx
    · obtain rfl := List.mem_singleton.1 hx
      exact Nat.zero_lt_one
    · cases hx
  · exact fun _ _ h => (LobbyNote.memberStatus.inj h).2.1
  · intro x hx
    obtain ⟨m, _, rfl⟩ := List.mem_map.1 hx
    rfl
  · exact fun _ _ h => (LobbyNote.memberStatus.inj h).2.1
  · intro x hx
    obtain ⟨m, _, rfl⟩ := List.mem_map.1 hx
    rfl
  · exact fun _ _ h => (LobbyNote.memberUpdate.inj h).2
  · intro x hx
    obtain ⟨m, _, rfl⟩ := List.mem_map.1 hx
    rfl
  · intro x hx
    split at hx
    · obtain rfl := List.mem_singleton.1 hx
      rfl
    · cases hx

/-- Records of the same members, owner and version have no differences. -/
theorem announceNotes_self (hfresh : fresh.Proper) {r : LobbyRecord}
    (hmembers : r.members = fresh.members) (howner : r.ownerProductId = fresh.ownerProductId)
    (hversion : r.version = fresh.version) : LobbyInterface.announceNotes r fresh = [] := by
  have hr : r.Proper := ⟨hmembers ▸ hfresh.members, howner ▸ hfresh.owner, hmembers ▸
    hfresh.attributes⟩
  refine List.eq_nil_iff_forall_not_mem.2 fun note hnote => ?_
  have hlists : ∀ pid, r.Lists pid ↔
    fresh.Lists pid := fun pid => by rw [LobbyRecord.Lists, hmembers]; rfl
  cases (mem_announceNotes hr hfresh).1 hnote with
  | update hne => exact hne hversion.symm
  | joined hnew hno => exact hno ((hlists _).2 hnew)
  | left hwas hno => exact hno ((hlists _).1 hwas)
  | changed _ _ hne =>
      refine hne ?_
      rw [LobbyRecord.memberMap, LobbyRecord.memberMap, LobbyRecord.findMember, hmembers]
      rfl
  | promoted hne => exact hne howner

end

/-! ## An announce to a member -/

/-- The record, but for the tick it was seen at. -/
def LobbyRecord.untimed (r : LobbyRecord) : LobbyRecord := { r with lastSeenTick := 0 }

/-- **The announce diff is exact and idempotent.** An announce that a member of the lobby gets, who
does not own it, posts each difference between the cached record and the new one, once, and nothing
else. The same announce once more posts nothing, and leaves the records, but for the tick, and the
two sets as they were. -/
theorem announced_exact {s : LobbyInterface} {old fresh : LobbyRecord} (hid : fresh.lobbyId ≠ [])
    (hmember : fresh.lobbyId ∈ s.memberOf) (howner : fresh.lobbyId ∉ s.owned)
    (hknown : s.known.get? fresh.lobbyId = some old) (hold : old.Proper) (hfresh : fresh.Proper)
    (tick tick' : UInt64) (source : Endpoint) : let first := s.onAnnounce tick source fresh
    let second := first.state.onAnnounce tick' source fresh
    (∀ note, note ∈ first.notes ↔ AnnounceTells old fresh note) ∧ first.notes.Nodup ∧
      second.notes = [] ∧
      (∀ id, (second.state.known.get? id).map LobbyRecord.untimed =
        (first.state.known.get? id).map LobbyRecord.untimed) ∧
      second.state.memberOf = first.state.memberOf ∧ second.state.owned = first.state.owned := by
  intro first second
  have hfirst : first.notes = LobbyInterface.announceNotes old fresh := by
    show (s.onAnnounce tick source fresh).notes = _
    rw [LobbyInterface.onAnnounce, if_neg hid, if_neg howner]
    dsimp only
    rw [if_pos hmember, hknown]
  have hstate : first.state.known = s.known.set fresh.lobbyId (fresh.received tick source) ∧
      first.state.memberOf = s.memberOf ∧ first.state.localPid = s.localPid := by
    show (s.onAnnounce tick source fresh).state.known = _ ∧
      (s.onAnnounce tick source fresh).state.memberOf = _ ∧
      (s.onAnnounce tick source fresh).state.localPid = _
    rw [LobbyInterface.onAnnounce, if_neg hid, if_neg howner]
    exact ⟨rfl, rfl, rfl⟩
  refine ⟨fun note => ?_, ?_, ?_⟩
  · rw [hfirst]
    exact mem_announceNotes hold hfresh
  · rw [hfirst]
    exact nodup_announceNotes hold hfresh
  · by_cases hadopted : fresh.lobbyId ∈ first.state.owned
    · -- the first announce handed the lobby over: the second is ignored
      have hsecond : second = { state := first.state } := by
        show first.state.onAnnounce tick' source fresh = _
        rw [LobbyInterface.onAnnounce, if_neg hid, if_pos hadopted]
      rw [hsecond]
      exact ⟨rfl, fun _ => rfl, rfl, rfl⟩
    · have hlocal : fresh.ownerProductId ≠ s.localPid := by
        intro hlocal
        refine hadopted ?_
        show fresh.lobbyId ∈ (s.onAnnounce tick source fresh).state.owned
        rw [LobbyInterface.onAnnounce, if_neg hid, if_neg howner]
        dsimp only
        rw [if_pos ⟨hmember, hlocal⟩]
        exact Finset.mem_insert_self _ _
      have hsecond : second = first.state.onAnnounce tick' source fresh := rfl
      rw [LobbyInterface.onAnnounce, if_neg hid, if_neg hadopted, hstate.1, hstate.2.1,
        hstate.2.2] at hsecond
      rw [hsecond]
      refine ⟨?_, fun id => ?_, hstate.2.1.symm ▸ rfl, ?_⟩
      · dsimp only
        rw [if_pos hmember, Dict.get?_set, if_pos rfl]
        exact announceNotes_self hfresh rfl rfl rfl
      · rw [hstate.1]
        dsimp only
        rw [Dict.get?_set, Dict.get?_set]
        split <;> rfl
      · dsimp only
        rw [if_neg fun h => hlocal h.2]

/-- One integer attribute. -/
def sampleAttrs (value : Int64) : AttrList := [(str "k", { value := readAttr 1 value 0 0 none })]

/-- A record of two members, and one that replaces it: a member joins, one leaves, one changes, and
the owner is new. -/
def sampleCached : LobbyRecord :=
  { lobbyId := str "id", ownerProductId := str "a", version := 1
    members := [{ productId := str "a" }, { productId := str "b", attributes := sampleAttrs 5 }] }

def sampleFresh : LobbyRecord :=
  { lobbyId := str "id", ownerProductId := str "c", version := 2
    members := [{ productId := str "b", attributes := sampleAttrs 6 }, { productId := str "c" }] }

/-- One attribute is a list of distinct keys. -/
theorem sampleAttrs_distinct (value : Int64) : AttrsDistinct (sampleAttrs value) where
  keys := List.nodup_singleton _
  values := by
    intro a ha
    obtain rfl := List.mem_singleton.1 ha
    exact ⟨.int64, fun h => by cases h⟩

/-- The cached record is a proper one. -/
theorem sampleCached_proper : sampleCached.Proper where
  members := by decide
  owner := by decide
  attributes := by
    intro m hm
    simp only [sampleCached, List.mem_cons, List.not_mem_nil, or_false] at hm
    rcases hm with rfl | rfl
    · exact ⟨List.nodup_nil, nofun⟩
    · exact sampleAttrs_distinct 5

/-- The announced record is a proper one. -/
theorem sampleFresh_proper : sampleFresh.Proper where
  members := by decide
  owner := by decide
  attributes := by
    intro m hm
    simp only [sampleFresh, List.mem_cons, List.not_mem_nil, or_false] at hm
    rcases hm with rfl | rfl
    · exact sampleAttrs_distinct 6
    · exact ⟨List.nodup_nil, nofun⟩

/-- A record with a new owner is told member by member. -/
theorem announced_exact_sample :
    let s : LobbyInterface :=
      { localPid := str "b", known := Dict.empty.set (str "id") sampleCached,
        memberOf := {str "id"} }
    (s.onAnnounce 0 {} sampleFresh).notes =
      [.update (str "id"), .memberStatus (str "id") (str "c") lmsJoined,
        .memberStatus (str "id") (str "a") lmsLeft, .memberUpdate (str "id") (str "b"),
        .memberStatus (str "id") (str "c") lmsPromoted] ∧
      ∀ note, note ∈ (s.onAnnounce 0 {} sampleFresh).notes ↔
        AnnounceTells sampleCached sampleFresh note := by
  intro s
  refine ⟨by decide +kernel, ?_⟩
  exact (announced_exact (s := s) (by decide) (by decide) (by decide) (by decide +kernel)
    sampleCached_proper sampleFresh_proper 0 0 {}).1

end EOSEmu
