import EOSEmu.Core.PeerReports
import EOSEmu.Lib.Rank

/-!
# Friends

The friends of the local user are the peers it has heard of (`Friends.cpp`). Every call takes a
snapshot of the peer directory of its own and sorts it, and the receive thread adds peers between
the calls. A game that goes through the friends by index, and asks for their number before each
index, still sees every friend that was there when it began (`friends_enumerated`).
-/

namespace EOSEmu

open Lib

namespace PeerDirectory
variable (d : PeerDirectory)

/-- The account ids of the peers, null for those without one. -/
def epicAccountIds : List Bytes := d.peers.entries.map fun e => e.2.epicAccountId

/-- `FriendsInterface::FriendSnapshot`. -/
def friendSnapshot : List Bytes := (d.epicAccountIds.filter (· ≠ [])).insertionSort (· ≤ ·)

/-- `GetFriendsCount`. -/
def getFriendsCount : ℤ := (d.friendSnapshot.length : ℤ).bmod (2 ^ 32)

/-- `GetFriendAtIndex`. -/
def getFriendAtIndex (index : ℤ) : Bytes :=
  if index < 0 ∨ d.getFriendsCount ≤ index then [] else d.friendSnapshot[index.toNat]?.getD []

/-- Whether `GetStatus` gives `EOS_FS_Friends`. -/
def isFriend (target : Bytes) : Bool := target ≠ [] && (d.findByEpic target).isSome

end PeerDirectory

/-- Where a game is in its loop over the friends. -/
inductive EnumerationStage where
  | idle
  | count (index : ℕ)
  | visit (index : ℕ)
  deriving DecidableEq, Repr

/-- A directory and a game that goes through the friends. -/
structure FriendsLoop where
  directory : PeerDirectory := {}
  stage : EnumerationStage := .idle
  visited : List Bytes := []

/-- What happens: the receive thread and the tick change the directory, and the game goes through
it. -/
inductive FriendsAction where
  | peer (c : PeerCall)
  | begin
  | count
  | visit

namespace FriendsLoop
variable (s : FriendsLoop)

/-- One step. -/
def step : FriendsAction → Option FriendsLoop
  | .peer c => some { s with directory := c.after s.directory }
  | .begin => some { s with stage := .count 0, visited := [] }
  | .count =>
      match s.stage with
      | .count index => some { s with
          stage := if (index : ℤ) < s.directory.getFriendsCount then .visit index else .idle }
      | _ => none
  | .visit =>
      match s.stage with
      | .visit index => some { s with
          stage := .count (index + 1)
          visited := s.visited ++ [s.directory.getFriendAtIndex index] }
      | _ => none

end FriendsLoop

abbrev FriendsTransition := Transition FriendsLoop FriendsAction

/-- A peer that is known announces the account id it has announced before, and the number of peers
is an `int32_t`. -/
structure AccountsKept (s : FriendsLoop) (a : FriendsAction) : Prop where
  same : ∀ o endpoint now, a = .peer (.observe o endpoint now) →
    ∀ info, s.directory.find o.productId = some info → info.epicAccountId = o.epicId
  few : s.directory.friendSnapshot.length < 2 ^ 31

/-! ## Snapshots -/

namespace PeerDirectory
variable {d : PeerDirectory} {c : PeerCall}

/-- A friend is an account of a known peer. -/
theorem mem_friendSnapshot {x : Bytes} : x ∈ d.friendSnapshot ↔ x ≠ [] ∧
    ∃ p info, d.find p = some info ∧ info.epicAccountId = x := by
  rw [friendSnapshot, List.mem_insertionSort, List.mem_filter, epicAccountIds, List.mem_map,
    and_comm]
  refine and_congr (by simp) ?_
  constructor
  · rintro ⟨⟨p, info⟩, hmem, rfl⟩
    exact ⟨p, info, Dict.mem_entries.1 hmem, rfl⟩
  · rintro ⟨p, info, hfind, rfl⟩
    exact ⟨(p, info), Dict.mem_entries.2 hfind, rfl⟩

/-- The friends are sorted. -/
theorem sorted_friendSnapshot (d : PeerDirectory) : d.friendSnapshot.Pairwise (· ≤ ·) :=
  List.pairwise_insertionSort _ _

/-- A call adds account ids, and takes none away. -/
theorem epicAccountIds_after (hok : ∀ o endpoint now, c = .observe o endpoint now →
    ∀ info, d.find o.productId = some info → info.epicAccountId = o.epicId) :
    d.epicAccountIds.Sublist (c.after d).epicAccountIds := by
  cases c with
  | observe o endpoint now =>
      show d.epicAccountIds.Sublist (d.observe o endpoint now).2.epicAccountIds
      unfold observe
      split
      · exact List.Sublist.refl _
      · exact Dict.map_set_sublist (hok o endpoint now rfl)
  | markStale now timeout =>
      have hsame : ((PeerCall.markStale now timeout).after d).epicAccountIds =
        d.epicAccountIds := by
        refine Dict.map_mapAccum (fun out p info => ?_) d.peers []
        split <;> rfl
      rw [hsame]
  | markOffline productId =>
      show d.epicAccountIds.Sublist (d.markOffline productId).2.epicAccountIds
      unfold markOffline
      split
      · exact List.Sublist.refl _
      · split
        · exact List.Sublist.refl _
        · next info hinfo =>
            split
            · exact List.Sublist.refl _
            · refine Dict.map_set_sublist fun w hw => ?_
              cases hinfo.symm.trans hw
              rfl

/-- They only grow as the accounts do. -/
theorem friendSnapshot_subperm {d' : PeerDirectory}
    (h : d.epicAccountIds.Sublist d'.epicAccountIds) :
    d.friendSnapshot.Subperm d'.friendSnapshot := by
  have hsub := (h.filter fun x => decide (x ≠ [])).subperm
  exact (List.perm_insertionSort _ _).subperm_right.2
    ((List.perm_insertionSort _ _).subperm_left.2 hsub)

/-- `GetStatus` and the snapshot agree. -/
theorem isFriend_iff {x : Bytes} : d.isFriend x = true ↔ x ∈ d.friendSnapshot := by
  rw [mem_friendSnapshot, isFriend, Bool.and_eq_true]
  refine and_congr (by simp) ?_
  rw [findByEpic, Option.isSome_map, List.find?_isSome]
  constructor
  · rintro ⟨⟨p, info⟩, hmem, heq⟩
    exact ⟨p, info, Dict.mem_entries.1 hmem, of_decide_eq_true heq⟩
  · rintro ⟨p, info, hfind, heq⟩
    exact ⟨(p, info), Dict.mem_entries.2 hfind, decide_eq_true heq⟩

/-- The count is exact below `2 ^ 31`. -/
theorem getFriendsCount_eq (hfew : d.friendSnapshot.length < 2 ^ 31) :
    d.getFriendsCount = d.friendSnapshot.length := by
  unfold getFriendsCount
  rw [Int.bmod_eq_of_le (by omega) (by omega)]

/-- The friend at an index below the number of friends. -/
theorem getFriendAtIndex_eq (hfew : d.friendSnapshot.length < 2 ^ 31) {index : ℕ}
    (h : index < d.friendSnapshot.length) :
      d.friendSnapshot[index]? = some (d.getFriendAtIndex index) := by
  have hcount := getFriendsCount_eq hfew
  have hin : ¬ ((index : ℤ) < 0 ∨ d.getFriendsCount ≤ index) := by omega
  rw [getFriendAtIndex, if_neg hin, Int.toNat_natCast, List.getElem?_eq_getElem h]
  rfl

end PeerDirectory

/-! ## The loop -/

/-- A loop that began with the friends `friends`. -/
structure Enumerating (friends : List Bytes) (s : FriendsLoop) : Prop where
  /-- Before the loop asks for an index, what it has not visited is at that index or behind it. -/
  count : ∀ i, s.stage = .count i → ∀ x ∈ friends, Awaits x i s.visited s.directory.friendSnapshot
  visit : ∀ i, s.stage = .visit i → i < s.directory.friendSnapshot.length ∧
    ∀ x ∈ friends, Awaits x i s.visited s.directory.friendSnapshot
  ended : s.stage = .idle → ∀ x ∈ friends, x ∈ s.visited
  /-- What it has visited is a friend. -/
  genuine : ∀ x ∈ s.visited, x ∈ s.directory.friendSnapshot

section
variable {friends : List Bytes} {s t : FriendsLoop} {a : FriendsAction} {l : List FriendsTransition}

/-- A loop that begins has everything ahead. -/
theorem Enumerating.begin (s : FriendsLoop) :
    Enumerating s.directory.friendSnapshot { s with stage := .count 0, visited := [] } := by
  refine ⟨fun i hi x hx => ?_, fun i hi => ?_, fun hi => ?_, by simp⟩
  · cases hi
    exact Awaits.start hx
  · cases hi
  · cases hi

/-- A step of the loop or of the directory keeps what is ahead. -/
theorem Enumerating.step (h : Enumerating friends s) (hok : AccountsKept s a)
    (hst : s.step a = some t) (hbegin : a ≠ .begin) : Enumerating friends t := by
  cases a with
  | begin => exact absurd rfl hbegin
  | peer c =>
      cases hst
      have hgrow := PeerDirectory.friendSnapshot_subperm
        (PeerDirectory.epicAccountIds_after (d := s.directory) (c := c)
        fun o endpoint now hc => hok.same o endpoint now (congrArg _ hc))
      refine ⟨fun i hi x hx => (h.count i hi x hx).grow hgrow, fun i hi => ?_,
        h.ended, fun x hx => ?_⟩
      · obtain ⟨hin, hall⟩ := h.visit i hi
        exact ⟨hin.trans_le hgrow.length_le, fun x hx => (hall x hx).grow hgrow⟩
      · exact hgrow.subset (h.genuine x hx)
  | count =>
      dsimp only [FriendsLoop.step] at hst
      split at hst
      · next index hstage =>
          cases hst
          have hall := h.count index hstage
          have hcount := PeerDirectory.getFriendsCount_eq hok.few
          by_cases hin : (index : ℤ) < s.directory.getFriendsCount
          · refine ⟨?_, ?_, ?_, h.genuine⟩ <;> simp only [if_pos hin]
            · rintro _ ⟨⟩
            · rintro _ ⟨⟩
              exact ⟨by omega, hall⟩
            · rintro ⟨⟩
          · refine ⟨?_, ?_, ?_, h.genuine⟩ <;> simp only [if_neg hin]
            · rintro _ ⟨⟩
            · rintro _ ⟨⟩
            · exact fun _ x hx => (hall x hx).done (by omega)
      · cases hst
  | visit =>
      dsimp only [FriendsLoop.step] at hst
      split at hst
      · next index hstage =>
          cases hst
          obtain ⟨hin, hall⟩ := h.visit index hstage
          have hfound := PeerDirectory.getFriendAtIndex_eq hok.few hin
          refine ⟨?_, ?_, ?_, fun x hx => ?_⟩
          · rintro _ ⟨⟩ x hx
            exact (hall x hx).visit (PeerDirectory.sorted_friendSnapshot _) hfound
          · rintro _ ⟨⟩
          · rintro ⟨⟩
          · rcases List.mem_append.1 hx with hx | hx
            · exact h.genuine x hx
            · rw [List.mem_singleton.1 hx]
              exact List.mem_of_getElem? hfound
      · cases hst

/-- A game begins a loop. -/
def Begins (x : FriendsTransition) : Prop := x.action = .begin

/-- A game begins a loop with the friends `friends`. -/
def BeginsWith (friends : List Bytes) (x : FriendsTransition) : Prop :=
  x.action = .begin ∧ x.pre.directory.friendSnapshot = friends

/-- **No friend is missed.** Whatever the receive thread and the tick do to the directory during a
loop over the friends, the loop has visited every friend that was known when it began when it ends,
and everything it has visited is a friend. -/
theorem friends_enumerated (h : Trace FriendsLoop.step AccountsKept {} l s)
    (hbegan : Since (BeginsWith friends) Begins l) :
    (s.stage = .idle → ∀ friend ∈ friends, friend ∈ s.visited) ∧
    ∀ friend ∈ s.visited, friend ≠ [] ∧ s.directory.isFriend friend = true := by
  have hkept : Enumerating friends s := by
    refine h.invariant (P := fun l s => Since (BeginsWith friends) Begins l →
      Enumerating friends s)
      (fun hnone => absurd hnone not_since_nil) (fun l s t a _ ih hok hst hsince => ?_) hbegan
    rcases since_snoc.1 hsince with ⟨hbegin, hfriends⟩ | ⟨hearlier, hbegin⟩
    · cases hbegin
      rw [← hfriends, ← Option.some.inj hst]
      exact .begin s
    · exact (ih hearlier).step hok hst hbegin
  refine ⟨hkept.ended, fun friend hfriend => ?_⟩
  have hmem := hkept.genuine friend hfriend
  exact ⟨(PeerDirectory.mem_friendSnapshot.1 hmem).1, PeerDirectory.isFriend_iff.2 hmem⟩

/-- A Hello of a peer with an account. -/
def accountHello (product epic : String) : Observation :=
  { productId := str product, epicId := str epic, displayName := [], presence := {} }

/-- Two peers are known, and before the second visit one appears whose account sorts first. -/
def sampleFriends : List FriendsAction :=
  [.peer (.observe (accountHello "p" "m") {} 1), .peer (.observe (accountHello "q" "t") {} 1),
    .begin, .count, .visit,
    .peer (.observe (accountHello "r" "c") {} 2), .count, .visit, .count, .visit, .count]

/-- A test for `AccountsKept`. -/
def accountsKept (s : FriendsLoop) (a : FriendsAction) : Bool :=
  (match a with
    | .peer (.observe o _ _) => (s.directory.find o.productId).all fun info => info.epicAccountId =
      o.epicId
    | _ => true) && decide (s.directory.friendSnapshot.length < 8)

/-- A step that passes the test meets `AccountsKept`. -/
theorem accountsKept_of_test (s : FriendsLoop) (a : FriendsAction) (h : accountsKept s a = true) :
    AccountsKept s a := by
  obtain ⟨hsame, hfew⟩ := Bool.and_eq_true_iff.1 h
  refine ⟨?_, (of_decide_eq_true hfew).trans (by omega)⟩
  rintro o endpoint now rfl info hinfo
  simpa [hinfo] using hsame

/-- The friend that came first is visited again behind the new one, and the last friend is still
visited. -/
theorem friends_enumerated_sample : ∃ s, execIf FriendsLoop.step accountsKept {} sampleFriends =
    some s ∧ (s.stage = .idle → ∀ friend ∈ [str "m", str "t"], friend ∈ s.visited) ∧
    s.visited = [str "m", str "m", str "t"] := by
  have hex : (execIf FriendsLoop.step accountsKept {} sampleFriends).map (fun s => s.visited) =
      some [str "m", str "m", str "t"] := by decide
  obtain ⟨s, hs, hvisited⟩ := Option.map_eq_some_iff.1 hex
  refine ⟨s, hs, (friends_enumerated (Trace.of_execIf accountsKept_of_test hs) ?_).1, hvisited⟩
  refine ⟨transitions FriendsLoop.step {} (sampleFriends.take 2), _,
    transitions FriendsLoop.step _ (sampleFriends.drop 3),
    rfl, ⟨rfl, by decide⟩, fun y hy hbegin => ?_⟩
  have hmem := action_mem_of_transitions hy
  rw [Begins] at hbegin
  simp [hbegin, sampleFriends] at hmem

end

end EOSEmu
