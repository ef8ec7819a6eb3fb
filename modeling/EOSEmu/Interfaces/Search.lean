import EOSEmu.Lib.Collect
import EOSEmu.Interfaces.Comparison
import EOSEmu.Lobby.Interface
import EOSEmu.Sessions.Interface
import Mathlib.Data.Finset.Sort

/-!
# Searches

The search handles of lobbies and sessions with the functions that fill them in
(`Lobby_Exports.cpp`, `Sessions_Exports.cpp`), and `MatchesSearch` and `CollectSearchResults` of
`Lobby.cpp` and `Sessions.cpp`. A search asks for criteria (`SearchCriterion`), and a record meets
them by what it shows of itself (`SearchView`), which leaves its private attributes out.
`search_results` says that a search finds what meets its criteria. However a handle is filled in,
it asks for something and for no key twice (`wellFormed_calls`), and a call that fails leaves it
alone (`call_failed`).
-/

namespace EOSEmu

open Lib

/-! ## Search handles -/

/-- `LobbySearchObj::Param` and `SessionSearchObj::Param`. -/
structure SearchParam where
  key : Bytes
  value : AttrValue
  op : EComparisonOp

/-- `LobbySearchObj` and `SessionSearchObj`, which differ in their records. `byId` is `ByLobbyId`
and `BySessionId`, and the limit is `EOS_LOBBY_MAX_SEARCH_RESULTS` by default. -/
structure SearchObj (ρ : Type) where
  maxResults : UInt32 := 200
  byId : Bytes := []
  byTargetUser : Bytes := []
  params : List SearchParam := []
  results : List ρ := []

abbrev LobbySearchObj := SearchObj LobbyRecord
abbrev SessionSearchObj := SearchObj SessionRecord

/-- `EOS_LOBBY_SEARCH_BUCKET_ID` and `EOS_SESSIONS_SEARCH_BUCKET_ID`. -/
def searchBucketId : Bytes := str "bucket"

/-- `EOS_LOBBY_SEARCH_MINCURRENTMEMBERS`. -/
def searchMinCurrentMembers : Bytes := str "mincurrentmembers"

/-- `EOS_LOBBY_SEARCH_MINSLOTSAVAILABLE` and `EOS_SESSIONS_SEARCH_MINSLOTSAVAILABLE`. -/
def searchMinSlotsAvailable : Bytes := str "minslotsavailable"

/-- `EOS_SESSIONS_SEARCH_EMPTY_SERVERS_ONLY` and `EOS_SESSIONS_SEARCH_NONEMPTY_SERVERS_ONLY`. -/
def searchEmptyServersOnly : Bytes := str "emptyonly"
def searchNonemptyServersOnly : Bytes := str "nonemptyonly"

/-- `EOS_LAT_PUBLIC`. -/
def latPublic : SdkInt := 0

/-- `EOS_SAAT_Advertise`. -/
def saatAdvertise : SdkInt := 1

namespace SearchObj

variable {ρ : Type}

/-- `CreateLobbySearch` and `CreateSessionSearch`, with the options' limit if there are options. -/
def create (maxResults : Option UInt32) : SearchObj ρ :=
  match maxResults with
  | some limit => if 0 < limit then { maxResults := limit } else {}
  | none => {}

/-- `EOS_LobbySearch_SetLobbyId` and `EOS_SessionSearch_SetSessionId`. -/
def setId (search : SearchObj ρ) (id : Option Bytes) : EResult × SearchObj ρ :=
  match id with
  | none => (.invalidParameters, search)
  | some id => (.success, { search with byId := id })

/-- `EOS_LobbySearch_SetTargetUserId` and its sessions' double. -/
def setTargetUserId (search : SearchObj ρ) (targetUserId : ProductUserId) :
    EResult × SearchObj ρ :=
  if targetUserId = [] then (.invalidParameters, search)
    else (.success, { search with byTargetUser := targetUserId })

/-- The loop of `SetParameter`: the first parameter of the same key is replaced, else the new one
is added. -/
def replaceParam (p : SearchParam) : List SearchParam → List SearchParam
  | [] => [p]
  | existing :: params => if existing.key = p.key then p :: params else existing ::
    replaceParam p params

/-- `EOS_LobbySearch_SetParameter` and its sessions' double, on a parameter whose value `ReadAttr`
has read. -/
def setParameter (search : SearchObj ρ) (key : Option Bytes) (value : AttrValue)
    (op : EComparisonOp) : EResult × SearchObj ρ :=
  match key with
  | none => (.invalidParameters, search)
  | some key => (.success, { search with params := replaceParam { key, value, op } search.params })

/-- `EOS_LobbySearch_RemoveParameter` and its sessions' double. -/
def removeParameter (search : SearchObj ρ) (key : Option Bytes) : EResult × SearchObj ρ :=
  match key with
  | none => (.invalidParameters, search)
  | some key => (.success, { search with params := search.params.eraseP fun p => p.key = key })

/-- `EOS_LobbySearch_SetMaxResults` and its sessions' double. -/
def setMaxResults (search : SearchObj ρ) (maxResults : UInt32) : EResult × SearchObj ρ :=
  if maxResults = 0 then (.invalidParameters, search)
    else (.success, { search with maxResults := maxResults })

/-- `EOS_LobbySearch_CopySearchResultByIndex` and its sessions' double: the record in the details
handle. -/
def copySearchResultByIndex (search : SearchObj ρ) (index : UInt32) : EResult × Option ρ :=
  match search.results[index.toNat]? with
  | none => (.notFound, none)
  | some r => (.success, some r)

/-- A call that fills in a handle. -/
inductive Call where
  | setId (id : Option Bytes)
  | setTargetUserId (targetUserId : ProductUserId)
  | setParameter (key : Option Bytes) (value : AttrValue) (op : EComparisonOp)
  | removeParameter (key : Option Bytes)
  | setMaxResults (maxResults : UInt32)

def call (search : SearchObj ρ) : Call → EResult × SearchObj ρ
  | .setId id => search.setId id
  | .setTargetUserId targetUserId => search.setTargetUserId targetUserId
  | .setParameter key value op => search.setParameter key value op
  | .removeParameter key => search.removeParameter key
  | .setMaxResults maxResults => search.setMaxResults maxResults

/-- What every handle keeps: it asks for something, and no key twice. -/
structure WellFormed (search : SearchObj ρ) : Prop where
  limit : 0 < search.maxResults
  keys : (search.params.map (·.key)).Nodup

variable {search : SearchObj ρ}

/-- The default handle asks for something. -/
theorem wellFormed_default : ({} : SearchObj ρ).WellFormed :=
  ⟨show (0 : UInt32) < 200 by decide, List.nodup_nil⟩

/-- So does a new one, whatever it is given. -/
theorem wellFormed_create (maxResults : Option UInt32) :
    (create maxResults : SearchObj ρ).WellFormed := by
  unfold create
  split
  · split_ifs with hlimit
    · exact ⟨hlimit, List.nodup_nil⟩
    · exact wellFormed_default
  · exact wellFormed_default

/-- A new key goes to the end, and an old one stays where it is. -/
theorem keys_replaceParam (p : SearchParam) (params : List SearchParam) :
    (replaceParam p params).map (·.key) =
    if p.key ∈ params.map (·.key) then params.map (·.key) else params.map (·.key) ++ [p.key] := by
  induction params with
  | nil => simp [replaceParam]
  | cons existing params ih =>
      rw [replaceParam]
      by_cases hkey : existing.key = p.key
      · simp [hkey]
      · have hmem : p.key ∈ (existing :: params).map (·.key) ↔ p.key ∈ params.map (·.key) := by
          rw [List.map_cons, List.mem_cons, or_iff_right (Ne.symm hkey)]
        rw [if_neg hkey, List.map_cons, ih, ite_congr (propext hmem) (fun _ => rfl) (fun _ => rfl)]
        split_ifs <;> rfl

/-- Replacing a parameter keeps the keys distinct. -/
theorem nodup_replaceParam {p : SearchParam} {params : List SearchParam}
    (h : (params.map (·.key)).Nodup) : ((replaceParam p params).map (·.key)).Nodup := by
  rw [keys_replaceParam]
  split_ifs with hmem
  · exact h
  · exact List.nodup_append.2 ⟨h, List.nodup_singleton _, fun k hk j hj => by
      rw [List.mem_singleton.1 hj]
      rintro rfl
      exact hmem hk⟩

/-- Every call keeps a handle well formed. -/
theorem WellFormed.call (h : search.WellFormed) (c : Call) : (search.call c).2.WellFormed := by
  obtain ⟨hlimit, hkeys⟩ := h
  cases c with
  | setId id => cases id <;> exact ⟨hlimit, hkeys⟩
  | setTargetUserId targetUserId =>
      rw [SearchObj.call, setTargetUserId]
      split_ifs <;> exact ⟨hlimit, hkeys⟩
  | setParameter key value op =>
      cases key with
      | none => exact ⟨hlimit, hkeys⟩
      | some key => exact ⟨hlimit, nodup_replaceParam hkeys⟩
  | removeParameter key =>
      cases key with
      | none => exact ⟨hlimit, hkeys⟩
      | some key => exact ⟨hlimit, hkeys.sublist (List.eraseP_sublist.map _)⟩
  | setMaxResults maxResults =>
      rw [SearchObj.call, setMaxResults]
      split_ifs with hzero
      · exact ⟨hlimit, hkeys⟩
      · exact ⟨UInt32.pos_iff_ne_zero.2 hzero, hkeys⟩

/-- So it is however a game fills in a handle it has created. -/
theorem wellFormed_calls (maxResults : Option UInt32) (calls : List Call) :
    (calls.foldl (fun search c => (search.call c).2)
      (create maxResults : SearchObj ρ)).WellFormed :=
  List.foldlRecOn calls _ (wellFormed_create maxResults) fun _ h c _ => h.call c

/-- A call that fails leaves the handle as it was. -/
theorem call_failed {c : Call} (h : (search.call c).1 ≠ .success) :
    (search.call c).2 = search := by
  cases c with
  | setId id | setParameter id | removeParameter id =>
      cases id
      · rfl
      · exact absurd rfl h
  | setTargetUserId | setMaxResults =>
      revert h
      simp only [call, setTargetUserId, setMaxResults]
      split_ifs <;> simp

end SearchObj

/-! ## Matching and collecting -/

namespace LobbyInterface

/-- One round of the loop in `MatchesSearch`. A vector's size fits in `int64_t`. -/
def matchesParam (r : LobbyRecord) (p : SearchParam) : Bool :=
  if p.key = searchBucketId then r.bucketId = p.value.str
  else if p.key = searchMinCurrentMembers then ¬ (r.members.length : Int) < p.value.int.toInt
  else if p.key = searchMinSlotsAvailable then ¬ (r.availableSlots.toNat : Int) < p.value.int.toInt
  else r.attributes.any fun a => a.1 = p.key && a.2.visibility = latPublic &&
    compareAttr a.2.value p.op p.value

/-- `LobbyInterface::MatchesSearch`. -/
def matchesSearch (search : LobbySearchObj) (r : LobbyRecord) : Bool :=
  if search.byId ≠ [] then r.lobbyId = search.byId
  else if search.byTargetUser ≠ [] then (r.findMember search.byTargetUser).isSome
  else search.params.all (matchesParam r)

/-- `LobbyInterface::CollectSearchResults`. -/
def collectSearchResults (s : LobbyInterface) (search : LobbySearchObj) : LobbySearchObj :=
  { search with
    results := collectUntil (matchesSearch search) search.maxResults.toNat
      (s.known.entries.map Prod.snd) [] }

end LobbyInterface

namespace SessionRecord

/-- `SessionRecord::OpenSlots`, with the player count cast to `uint32_t`. -/
def openSlots (r : SessionRecord) : UInt32 :=
  let used := UInt32.ofNat r.registeredPlayers.length
  if used < r.maxPlayers then r.maxPlayers - used else 0

end SessionRecord

namespace SessionsInterface

/-- One round of the loop in `MatchesSearch`. -/
def matchesParam (r : SessionRecord) (p : SearchParam) : Bool :=
  if p.key = searchBucketId then r.bucketId = p.value.str
  else if p.key = searchMinSlotsAvailable then ¬ (r.openSlots.toNat : Int) < p.value.int.toInt
  else if p.key = searchEmptyServersOnly then r.registeredPlayers.isEmpty
  else if p.key = searchNonemptyServersOnly then !r.registeredPlayers.isEmpty
  else r.attributes.any fun a => a.1 = p.key && a.2.adv = saatAdvertise &&
    compareAttr a.2.value p.op p.value

/-- `SessionsInterface::MatchesSearch`. -/
def matchesSearch (search : SessionSearchObj) (r : SessionRecord) : Bool :=
  if search.byId ≠ [] then r.sessionId = search.byId
  else if search.byTargetUser ≠ [] then r.registeredPlayers.any (· = search.byTargetUser)
  else search.params.all (matchesParam r)

/-- The hosted sessions, by the order of their names in the set. -/
def hosted (s : SessionsInterface) : List SessionRecord :=
  (s.owned.sort (· ≤ ·)).filterMap s.localSessions.get?

/-- `SessionsInterface::CollectSearchResults`. -/
def collectSearchResults (s : SessionsInterface) (search : SessionSearchObj) : SessionSearchObj :=
  let considerRecord := consider (matchesSearch search) search.maxResults.toNat
  let results := (s.known.entries.map Prod.snd).foldl considerRecord []
  { search with results := s.hosted.foldl considerRecord results }

end SessionsInterface

/-! ## What a search asks for -/

/-- What a record shows to a search. -/
structure SearchView where
  id : Bytes
  users : List Bytes
  bucketId : Bytes
  freeSlots : ℕ
  attributes : List (Bytes × AttrValue)

/-- What a search may ask of a record. -/
inductive SearchCriterion where
  | id (id : Bytes)
  | user (productId : Bytes)
  | bucket (bucketId : Bytes)
  | users (least : Int)
  | freeSlots (least : Int)
  | empty
  | nonempty
  | attribute (key : Bytes) (op : EComparisonOp) (query : AttrValue)

/-- The record meets the criterion. -/
def SearchView.Meets (v : SearchView) : SearchCriterion → Prop
  | .id id => v.id = id
  | .user productId => productId ∈ v.users
  | .bucket bucketId => v.bucketId = bucketId
  | .users least => least ≤ v.users.length
  | .freeSlots least => least ≤ v.freeSlots
  | .empty => v.users = []
  | .nonempty => v.users ≠ []
  | .attribute key op query => ∃ value, (key, value) ∈ v.attributes ∧
    compareAttr value op query = true

/-- The criteria in force: the id if one is set, else the target user if one is set, else what
every parameter asks for. -/
def SearchObj.criteria {ρ : Type} (search : SearchObj ρ) (ofParam : SearchParam → SearchCriterion) :
    List SearchCriterion :=
  if search.byId ≠ [] then [.id search.byId]
  else if search.byTargetUser ≠ [] then [.user search.byTargetUser]
  else search.params.map ofParam

/-- What a parameter asks of a lobby. The special keys take a string or an integer, whatever the
operator. -/
def SearchParam.ofLobby (p : SearchParam) : SearchCriterion :=
  if p.key = searchBucketId then .bucket p.value.str
  else if p.key = searchMinCurrentMembers then .users p.value.int.toInt
  else if p.key = searchMinSlotsAvailable then .freeSlots p.value.int.toInt
  else .attribute p.key p.op p.value

/-- What a parameter asks of a session. -/
def SearchParam.ofSession (p : SearchParam) : SearchCriterion :=
  if p.key = searchBucketId then .bucket p.value.str
  else if p.key = searchMinSlotsAvailable then .freeSlots p.value.int.toInt
  else if p.key = searchEmptyServersOnly then .empty
  else if p.key = searchNonemptyServersOnly then .nonempty
  else .attribute p.key p.op p.value

/-- A lobby without its private attributes, and without those of its members. -/
def LobbyRecord.published (r : LobbyRecord) : LobbyRecord :=
  { r with
    attributes := r.attributes.filter fun a => a.2.visibility = latPublic
    members := r.members.map fun m =>
      { m with attributes := m.attributes.filter fun a => a.2.visibility = latPublic } }

/-- A session without the attributes it does not advertise. -/
def SessionRecord.published (r : SessionRecord) : SessionRecord :=
  { r with attributes := r.attributes.filter fun a => a.2.adv = saatAdvertise }

/-- What a lobby shows. -/
def LobbyRecord.searchView (r : LobbyRecord) : SearchView where
  id := r.lobbyId
  users := r.members.map (·.productId)
  bucketId := r.bucketId
  freeSlots := r.availableSlots.toNat
  attributes := r.published.attributes.map fun a => (a.1, a.2.value)

/-- What a session shows. -/
def SessionRecord.searchView (r : SessionRecord) : SearchView where
  id := r.sessionId
  users := r.registeredPlayers
  bucketId := r.bucketId
  freeSlots := r.openSlots.toNat
  attributes := r.published.attributes.map fun a => (a.1, a.2.value)

/-- What a search asks of lobbies, and of sessions. -/
def LobbySearchObj.Asks (search : LobbySearchObj) (r : LobbyRecord) : Prop :=
  ∀ c ∈ search.criteria SearchParam.ofLobby, r.searchView.Meets c

def SessionSearchObj.Asks (search : SessionSearchObj) (r : SessionRecord) : Prop :=
  ∀ c ∈ search.criteria SearchParam.ofSession, r.searchView.Meets c

/-! ## Matching is meeting the criteria -/

/-- All criteria in force are met iff the first part that is set is. -/
theorem SearchObj.forall_criteria {ρ : Type} {search : SearchObj ρ}
    {ofParam : SearchParam → SearchCriterion} {P : SearchCriterion → Prop} :
    (∀ c ∈ search.criteria ofParam, P c) ↔
      if search.byId ≠ [] then P (.id search.byId)
      else if search.byTargetUser ≠ [] then P (.user search.byTargetUser)
      else ∀ p ∈ search.params, P (ofParam p) := by
  rw [criteria]
  split_ifs <;> simp

/-- A comparison is made with the attributes that are shown. -/
theorem any_compareAttr {ι : Type*} (shown : ι → Bool) (value : ι → AttrValue)
    {attributes : List (Bytes × ι)} {p : SearchParam} :
    (attributes.any fun a => a.1 = p.key && shown a.2 && compareAttr (value a.2) p.op p.value) =
      true ↔
      ∃ v, (p.key, v) ∈ (attributes.filter fun a => shown a.2).map (fun a => (a.1, value a.2)) ∧
        compareAttr v p.op p.value = true := by
  simp only [List.any_eq_true, List.mem_map, List.mem_filter, Bool.and_eq_true, decide_eq_true_eq]
  constructor
  · rintro ⟨a, ha, ⟨hkey, hshown⟩, hcompare⟩
    exact ⟨value a.2, ⟨a, ⟨ha, hshown⟩, by rw [hkey]⟩, hcompare⟩
  · rintro ⟨v, ⟨a, ⟨ha, hshown⟩, heq⟩, hcompare⟩
    obtain ⟨hkey, rfl⟩ := Prod.ext_iff.1 heq
    exact ⟨a, ha, ⟨hkey, hshown⟩, hcompare⟩

/-- A lobby meets a parameter as what it shows does. -/
theorem LobbyInterface.matchesParam_iff {r : LobbyRecord} {p : SearchParam} :
    matchesParam r p = true ↔ r.searchView.Meets p.ofLobby := by
  unfold matchesParam SearchParam.ofLobby
  split_ifs
  · exact decide_eq_true_iff
  · rw [decide_eq_true_iff, not_lt]
    simp [SearchView.Meets, LobbyRecord.searchView]
  · rw [decide_eq_true_iff, not_lt]
    rfl
  · exact any_compareAttr (fun a : LobbyAttr => a.visibility = latPublic) LobbyAttr.value

/-- So does a session. -/
theorem SessionsInterface.matchesParam_iff {r : SessionRecord} {p : SearchParam} :
    matchesParam r p = true ↔ r.searchView.Meets p.ofSession := by
  unfold matchesParam SearchParam.ofSession
  split_ifs
  · exact decide_eq_true_iff
  · rw [decide_eq_true_iff, not_lt]
    rfl
  · exact List.isEmpty_iff
  · rw [Bool.not_eq_true', List.isEmpty_eq_false_iff]
    rfl
  · exact any_compareAttr (fun a : SessionAttr => a.adv = saatAdvertise) SessionAttr.value

/-- `MatchesSearch` accepts the lobbies that meet every criterion in force. -/
theorem LobbyInterface.matchesSearch_iff (search : LobbySearchObj) (r : LobbyRecord) :
    matchesSearch search r = true ↔ search.Asks r := by
  rw [LobbySearchObj.Asks, SearchObj.forall_criteria, matchesSearch]
  split_ifs
  · exact decide_eq_true_iff
  · exact LobbyRecord.findMember_isSome
  · rw [List.all_eq_true]
    exact forall₂_congr fun p _ => matchesParam_iff

/-- So it does the sessions. -/
theorem SessionsInterface.matchesSearch_iff (search : SessionSearchObj) (r : SessionRecord) :
    matchesSearch search r = true ↔ search.Asks r := by
  rw [SessionSearchObj.Asks, SearchObj.forall_criteria, matchesSearch]
  split_ifs
  · exact decide_eq_true_iff
  · simp [SearchView.Meets, SessionRecord.searchView]
  · rw [List.all_eq_true]
    exact forall₂_congr fun p _ => matchesParam_iff

/-! ## What others may see decides -/

/-- Lobbies that publish the same show the same to a search. -/
theorem LobbyRecord.searchView_congr {r r' : LobbyRecord} (h : r.published = r'.published) :
    r.searchView = r'.searchView := by
  have hview : ∀ r : LobbyRecord, r.searchView = { r.published.searchView with
      attributes := r.published.attributes.map fun a => (a.1, a.2.value) } := by
    intro r
    simp [searchView, published, availableSlots, Function.comp_def]
  rw [hview r, hview r', h]

/-- Sessions that publish the same show the same to a search. -/
theorem SessionRecord.searchView_congr {r r' : SessionRecord} (h : r.published = r'.published) :
    r.searchView = r'.searchView := by
  have hview : ∀ r : SessionRecord, r.searchView = { r.published.searchView with
      attributes := r.published.attributes.map fun a => (a.1, a.2.value) } := fun _ => rfl
  rw [hview r, hview r', h]

/-- Lobbies that publish the same match the same searches. -/
theorem LobbyInterface.matchesSearch_congr {search : LobbySearchObj} {r r' : LobbyRecord}
    (h : r.published = r'.published) : matchesSearch search r = matchesSearch search r' := by
  rw [Bool.eq_iff_iff, matchesSearch_iff, matchesSearch_iff, LobbySearchObj.Asks,
    LobbySearchObj.Asks, LobbyRecord.searchView_congr h]

/-- So do sessions. -/
theorem SessionsInterface.matchesSearch_congr {search : SessionSearchObj} {r r' : SessionRecord}
    (h : r.published = r'.published) : matchesSearch search r = matchesSearch search r' := by
  rw [Bool.eq_iff_iff, matchesSearch_iff, matchesSearch_iff, SessionSearchObj.Asks,
    SessionSearchObj.Asks, SessionRecord.searchView_congr h]

/-! ## What is found -/

namespace LobbyInterface

variable {s s' : LobbyInterface}

/-- The lobbies a search goes through. -/
def searched (s : LobbyInterface) : List LobbyRecord := s.known.entries.map Prod.snd

/-- The results are the first matching lobbies. -/
theorem results_collectSearchResults (search : LobbySearchObj) :
    (s.collectSearchResults search).results =
    (s.searched.filter (matchesSearch search)).take search.maxResults.toNat :=
  collectUntil_eq _ _ _

/-- The caches hold the same lobbies in the same order, but for private attributes. -/
def SamePublished (s s' : LobbyInterface) : Prop :=
  s.known.entries.map (fun e => (e.1, e.2.published)) = s'.known.entries.map fun e =>
    (e.1, e.2.published)

/-- Such caches are searched alike. -/
theorem SamePublished.searched (h : s.SamePublished s') :
    s.searched.map LobbyRecord.published = s'.searched.map LobbyRecord.published := by
  have hsnd := congrArg (List.map Prod.snd) h
  rw [List.map_map, List.map_map] at hsnd
  rw [LobbyInterface.searched, LobbyInterface.searched, List.map_map, List.map_map]
  exact hsnd

/-- Then a search finds the same lobbies, but for private attributes. -/
theorem SamePublished.results (h : s.SamePublished s') (search : LobbySearchObj) :
    (s.collectSearchResults search).results.map LobbyRecord.published =
      (s'.collectSearchResults search).results.map LobbyRecord.published := by
  rw [results_collectSearchResults, results_collectSearchResults]
  exact map_take_filter_congr (fun _ _ => matchesSearch_congr) h.searched _

end LobbyInterface

namespace SessionsInterface

variable {s s' : SessionsInterface}

/-- The sessions a search goes through: the discovered ones, then the hosted ones. -/
def searched (s : SessionsInterface) : List SessionRecord :=
  s.known.entries.map Prod.snd ++ s.hosted

/-- The results are the first matching sessions. -/
theorem results_collectSearchResults (search : SessionSearchObj) :
    (s.collectSearchResults search).results =
    (s.searched.filter (matchesSearch search)).take search.maxResults.toNat := by
  rw [collectSearchResults, searched, ← List.foldl_append, foldl_consider]
  rfl

/-- The caches hold the same sessions in the same order, but for attributes that are not
advertised, and the same names are hosted. -/
structure SamePublished (s s' : SessionsInterface) : Prop where
  known : s.known.entries.map (fun e => (e.1, e.2.published)) = s'.known.entries.map fun e =>
    (e.1, e.2.published)
  localSessions : s.localSessions.entries.map (fun e => (e.1, e.2.published)) =
    s'.localSessions.entries.map fun e => (e.1, e.2.published)
  owned : s.owned = s'.owned

/-- Such caches are searched alike. -/
theorem SamePublished.searched (h : s.SamePublished s') :
    s.searched.map SessionRecord.published = s'.searched.map SessionRecord.published := by
  have hknown := congrArg (List.map Prod.snd) h.known
  rw [List.map_map, List.map_map] at hknown
  have hlocal : ∀ name, (s.localSessions.get? name).map SessionRecord.published =
      (s'.localSessions.get? name).map SessionRecord.published := Dict.get?_congr h.localSessions
  rw [SessionsInterface.searched, SessionsInterface.searched, List.map_append, List.map_append,
    List.map_map, List.map_map, hosted, hosted, List.map_filterMap, List.map_filterMap, h.owned]
  congr 1
  exact List.filterMap_congr fun name _ => hlocal name

/-- Then a search finds the same sessions, but for attributes that are not advertised. -/
theorem SamePublished.results (h : s.SamePublished s') (search : SessionSearchObj) :
    (s.collectSearchResults search).results.map SessionRecord.published =
      (s'.collectSearchResults search).results.map SessionRecord.published := by
  rw [results_collectSearchResults, results_collectSearchResults]
  exact map_take_filter_congr (fun _ _ => matchesSearch_congr) h.searched _

end SessionsInterface

/-- A search finds lobbies or sessions that meet every criterion in force, at most as many as asked
for, each record of the cache and each hosted one at most once, and all of them if they are no more
than that. Private attributes have no part in which ones. -/
theorem search_results :
    (∀ (s : LobbyInterface) (search : LobbySearchObj),
      Found search.Asks search.maxResults.toNat s.searched
        (s.collectSearchResults search).results ∧
      ∀ s', s.SamePublished s' → (s.collectSearchResults search).results.map LobbyRecord.lobbyId =
        (s'.collectSearchResults search).results.map LobbyRecord.lobbyId) ∧
    (∀ (s : SessionsInterface) (search : SessionSearchObj),
      Found search.Asks search.maxResults.toNat s.searched
        (s.collectSearchResults search).results ∧
      ∀ s', s.SamePublished s' → (s.collectSearchResults search).results.map
        SessionRecord.sessionId =
        (s'.collectSearchResults search).results.map SessionRecord.sessionId) := by
  refine ⟨fun s search => ⟨?_, fun s' h => ?_⟩, fun s search => ⟨?_, fun s' h => ?_⟩⟩
  · rw [LobbyInterface.results_collectSearchResults]
    exact found_take (LobbyInterface.matchesSearch_iff search) _ _
  · have hids := congrArg (List.map LobbyRecord.lobbyId) (h.results search)
    rwa [List.map_map, List.map_map] at hids
  · rw [SessionsInterface.results_collectSearchResults]
    exact found_take (SessionsInterface.matchesSearch_iff search) _ _
  · have hids := congrArg (List.map SessionRecord.sessionId) (h.results search)
    rwa [List.map_map, List.map_map] at hids

/-- A cache of two lobbies, of which one has a public attribute and a private one. -/
def sampleSearched (secret : Int64) : LobbyInterface where
  localPid := str "a"
  known :=
    { entries := [(str "l",
        { lobbyId := str "l"
          attributes := [(str "mode", { value := { type := 1, int := 2 }, visibility := 0 }),
            (str "k", { value := { type := 1, int := secret }, visibility := 1 })] }),
        (str "m", { lobbyId := str "m" })]
      nodup := show [str "l", str "m"].Nodup by decide }

/-- A search for one of several lobbies whose mode is at least 2. -/
def sampleSearch : LobbySearchObj :=
  ((SearchObj.create (some 10)).setParameter (some (str "mode"))
    { type := 1, int := 2 } .greaterThanOrEqual).2

/-- The search finds the one lobby that has the mode, and the private attribute's value makes no
difference. -/
theorem search_results_sample :
    ((sampleSearched 1).collectSearchResults sampleSearch).results.map LobbyRecord.lobbyId =
      [str "l"] ∧
      ((sampleSearched 1).collectSearchResults sampleSearch).results.map LobbyRecord.lobbyId =
        ((sampleSearched 2).collectSearchResults sampleSearch).results.map LobbyRecord.lobbyId :=
  ⟨by decide +kernel, (search_results.1 (sampleSearched 1) sampleSearch).2 (sampleSearched 2) rfl⟩

end EOSEmu
