import EOSEmu.Interfaces.Search
import EOSEmu.Lib.Retire
import EOSEmu.Lib.Standing

/-!
# Released searches

Search handles are pointers the game owns. `EOS_LobbySearch_Release` does not free the object:
`RetireSearch` (`Lobby_Exports.cpp`) keeps the last sixteen released ones in `g_RetiredSearches`,
since some games copy a result after the release. `EOS_SessionSearch_Release` frees at once, which
is a ring without room. A step that reads or frees memory that is not allocated has no successor.
`releases_tolerated` says which handles may still be used and what they show.
-/

namespace EOSEmu

open Lib

/-- The address of a search object. -/
abbrev SearchHandle := ℕ

/-- The length of `g_RetiredSearches` in `RetireSearch`. -/
def retiredSearches : ℕ := 16

/-- The search objects of the process and the ring of the released ones. -/
structure SearchHeap (ρ : Type) where
  heap : Dict SearchHandle (SearchObj ρ) := .empty
  retired : List SearchHandle := []

/-- What the game does with search handles; `none` is the null pointer. -/
inductive SearchUse (ρ : Type) where
  /-- `CreateLobbySearch`, for which `new` returns this address. -/
  | create (h : SearchHandle) (maxResults : Option UInt32)
  | call (h : Option SearchHandle) (c : SearchObj.Call)
  /-- `Find`, where `CollectSearchResults` finds these records. -/
  | find (h : Option SearchHandle) (results : List ρ)
  | release (h : Option SearchHandle)

namespace SearchUse
variable {ρ : Type}

/-- The handle an action creates, releases, or writes to. -/
def creates : SearchUse ρ → Option SearchHandle
  | .create h _ => some h
  | _ => none

def releases : SearchUse ρ → Option SearchHandle
  | .release h => h
  | _ => none

def writes : SearchUse ρ → Option SearchHandle
  | .call h _ => h
  | .find h _ => h
  | _ => none

end SearchUse

namespace SearchHeap
variable {ρ : Type} (n : ℕ) (s : SearchHeap ρ)

/-- `RetireSearch`, with a ring of `n` places. -/
def retireSearch (h : SearchHandle) : Option (SearchHeap ρ) :=
  let ring := trim n (s.retired ++ [h])
  (freeAll s.heap ring.1).map fun heap => { heap, retired := ring.2 }

/-- A call on an object. -/
def onObject (h : SearchHandle) (f : SearchObj ρ → SearchObj ρ) : Option (SearchHeap ρ) :=
  (s.heap.get? h).map fun search => { s with heap := s.heap.set h (f search) }

/-- One action. -/
def step : SearchUse ρ → Option (SearchHeap ρ)
  | .create h maxResults =>
      if s.heap.contains h then none else some { s with heap := s.heap.set h (.create maxResults) }
  | .call none _ => some s
  | .call (some h) c => s.onObject h fun search => (search.call c).2
  | .find none _ => some s
  | .find (some h) results => s.onObject h fun search => { search with results }
  | .release none => some s
  | .release (some h) => s.retireSearch n h

/-- `CopySearchResultByIndex` on a handle: nothing, where it reads freed memory. -/
def copySearchResultByIndex (h : SearchHandle) (index : UInt32) : Option (EResult × Option ρ) :=
  (s.heap.get? h).map (·.copySearchResultByIndex index)

end SearchHeap

/-! ## One step -/

/-- What every state keeps: the ring holds allocated objects, none of them twice. -/
structure SearchHeap.Sane {ρ : Type} (s : SearchHeap ρ) : Prop where
  nodup : s.retired.Nodup
  allocated : ∀ h ∈ s.retired, s.heap.contains h = true

/-- The game releases a handle it has created and not released yet. -/
def ReleasesOwn {ρ : Type} (s : SearchHeap ρ) (a : SearchUse ρ) : Prop :=
  ∀ h, a.releases = some h → s.heap.contains h = true ∧ h ∉ s.retired

namespace SearchHeap
variable {ρ : Type} {n : ℕ} {s t : SearchHeap ρ} {a : SearchUse ρ} {h : SearchHandle}

/-- What a step does to the ring and to each object. -/
structure HeapStep (n : ℕ) (s t : SearchHeap ρ) (a : SearchUse ρ) : Prop where
  ring : t.retired = (s.retired ++ a.releases.toList).rtake n
  freed : ∀ h, t.heap.contains h = true ↔ a.creates = some h ∨
    (s.heap.contains h = true ∧ h ∉ (s.retired ++ a.releases.toList).rdrop n)
  fresh : ∀ h, a.creates = some h → s.heap.contains h = false
  same : ∀ h, a.writes ≠ some h → s.heap.contains h = true → t.heap.contains h = true →
    t.heap.get? h = s.heap.get? h

/-- A stored object is there, and so is what was there. -/
theorem contains_set (d : Dict SearchHandle (SearchObj ρ)) (h j : SearchHandle)
    (search : SearchObj ρ) : (d.set h search).contains j = true ↔ j = h ∨ d.contains j = true := by
  rw [Dict.contains, Dict.get?_set]
  split <;> simp_all [Dict.contains]

/-- A step that does not release. -/
theorem HeapStep.unreleased (hlen : s.retired.length ≤ n) (ha : a.releases = none)
    (hretired : t.retired = s.retired)
    (hcontains : ∀ h, t.heap.contains h = true ↔ a.creates = some h ∨ s.heap.contains h = true)
    (hfresh : ∀ h, a.creates = some h → s.heap.contains h = false)
    (hsame : ∀ h, a.writes ≠ some h → s.heap.contains h = true → t.heap.get? h = s.heap.get? h) :
      HeapStep n s t a := by
  have hshort : s.retired.length - n = 0 := Nat.sub_eq_zero_of_le hlen
  refine ⟨?_, fun h => ?_, hfresh, fun h hw hs _ => hsame h hw hs⟩
  · rw [ha, hretired, Option.toList_none, List.append_nil, List.rtake, hshort, List.drop_zero]
  · rw [hcontains, ha, Option.toList_none, List.append_nil, List.rdrop, hshort, List.take_zero]
    simp

/-- A step that does nothing. -/
theorem HeapStep.nothing (hlen : s.retired.length ≤ n) (hc : a.creates = none)
    (hr : a.releases = none) : HeapStep n s s a := by
  refine .unreleased hlen hr rfl (fun h => ?_) (fun h hh => ?_) fun _ _ _ => rfl
  · rw [hc]
    simp
  · rw [hc] at hh
    cases hh

/-- A call on an object writes that object only. -/
theorem onObject_step (hlen : s.retired.length ≤ n) {f : SearchObj ρ → SearchObj ρ}
    (hw : a.writes = some h) (hc : a.creates = none) (hr : a.releases = none)
    (ht : s.onObject h f = some t) : HeapStep n s t a := by
  obtain ⟨search, hsearch, rfl⟩ := Option.map_eq_some_iff.1 ht
  refine .unreleased hlen hr rfl (fun j => ?_) (fun j hj => ?_) fun j hj _ => ?_
  · rw [contains_set, hc]
    constructor
    · rintro (rfl | hj)
      · exact .inr (Option.isSome_iff_exists.2 ⟨search, hsearch⟩)
      · exact .inr hj
    · rintro (hj | hj)
      · cases hj
      · exact .inr hj
  · rw [hc] at hj
    cases hj
  · rw [Dict.get?_set, if_neg]
    rintro rfl
    exact hj hw

/-- The ring before it is trimmed. -/
theorem Sane.ring (hs : s.Sane) (hok : ReleasesOwn s a) : (s.retired ++ a.releases.toList).Nodup ∧
    ∀ j ∈ s.retired ++ a.releases.toList, s.heap.contains j = true := by
  cases hr : a.releases with
  | none =>
      rw [Option.toList_none, List.append_nil]
      exact ⟨hs.nodup, hs.allocated⟩
  | some h =>
      obtain ⟨hh, hnew⟩ := hok h hr
      rw [Option.toList_some]
      constructor
      · rw [List.nodup_append]
        refine ⟨hs.nodup, List.nodup_singleton h, fun j hj k hk => ?_⟩
        rw [List.mem_singleton.1 hk]
        rintro rfl
        exact hnew hj
      · intro j hj
        rcases List.mem_append.1 hj with hj | hj
        · exact hs.allocated j hj
        · rwa [List.mem_singleton.1 hj]

/-- A release frees what leaves the ring. -/
theorem retireSearch_eq (hs : s.Sane) (hok : ReleasesOwn s (.release (some h))) :
    ∃ t, s.retireSearch n h = some t ∧ t.retired = (s.retired ++ [h]).rtake n ∧
      ∀ j, t.heap.get? j = if j ∈ (s.retired ++ [h]).rdrop n then none else s.heap.get? j := by
  obtain ⟨hnodup, hallocated⟩ : (s.retired ++ [h]).Nodup ∧
    ∀ j ∈ s.retired ++ [h], s.heap.contains j = true := hs.ring hok
  have hdropped : (s.retired ++ [h]).rdrop n <+: s.retired ++ [h] := List.take_prefix _ _
  obtain ⟨heap, hfree, hget⟩ :=
    freeAll_eq (hnodup.sublist hdropped.sublist) fun j hj => hallocated j (hdropped.subset hj)
  refine ⟨{ heap, retired := (s.retired ++ [h]).rtake n }, ?_, rfl, hget⟩
  simp only [retireSearch, trim_eq, hfree, Option.map_some]

/-- Every step is one of `HeapStep`. -/
theorem step_heap (hs : s.Sane) (hlen : s.retired.length ≤ n) (hok : ReleasesOwn s a)
    (hst : s.step n a = some t) : HeapStep n s t a := by
  cases a with
  | create h maxResults =>
      obtain ⟨hnew, heq⟩ := Option.ite_none_left_eq_some.1 hst
      cases heq
      refine .unreleased hlen rfl rfl (fun j => ?_) (fun j hj => ?_) fun j _ hj => ?_
      · rw [contains_set, SearchUse.creates, Option.some_inj, eq_comm]
      · cases hj
        exact Bool.not_eq_true _ ▸ hnew
      · rw [Dict.get?_set, if_neg]
        rintro rfl
        exact hnew hj
  | call handle c =>
      cases handle with
      | none =>
          cases hst
          exact .nothing hlen rfl rfl
      | some h => exact onObject_step hlen rfl rfl rfl hst
  | find handle results =>
      cases handle with
      | none =>
          cases hst
          exact .nothing hlen rfl rfl
      | some h => exact onObject_step hlen rfl rfl rfl hst
  | release handle =>
      cases handle with
      | none =>
          cases hst
          exact .nothing hlen rfl rfl
      | some h =>
          obtain ⟨u, hu, hring, hget⟩ := retireSearch_eq (n := n) hs hok
          cases hu.symm.trans hst
          refine ⟨hring, fun j => ?_, fun j hj => ?_, fun j _ _ hj => ?_⟩
          · rw [Dict.contains, hget]
            by_cases hj : j ∈ (s.retired ++ [h]).rdrop n <;>
              simp [SearchUse.creates, SearchUse.releases, Dict.contains, hj]
          · cases hj
          · rw [Dict.contains, hget] at hj
            rw [hget]
            split at hj
            · cases hj
            · next hkept => exact if_neg hkept

/-- Every state is sane. -/
theorem Sane.step (hs : s.Sane) (hlen : s.retired.length ≤ n) (hok : ReleasesOwn s a)
    (hst : s.step n a = some t) : t.Sane ∧ t.retired.length ≤ n := by
  have hstep := step_heap hs hlen hok hst
  have hring := hs.ring hok
  rw [← rdrop_append_rtake (n := n) (s.retired ++ a.releases.toList), List.nodup_append] at hring
  obtain ⟨⟨_, hnodup, hdisjoint⟩, hallocated⟩ := hring
  refine ⟨⟨hstep.ring ▸ hnodup, fun j hj => ?_⟩, hstep.ring ▸ length_rtake_le _⟩
  rw [hstep.ring] at hj
  exact (hstep.freed j).2
    (.inr ⟨hallocated j (List.mem_append_right _ hj), fun hdrop => hdisjoint j hdrop j hj rfl⟩)

end SearchHeap

/-! ## A run -/

/-- A transition of the heap. -/
abbrev SearchTransition (ρ : Type) := Transition (SearchHeap ρ) (SearchUse ρ)

section
variable {ρ : Type}

/-- A transition creates, releases, or writes to the object of a handle. -/
def CreatesSearch (h : SearchHandle) (x : SearchTransition ρ) : Prop := x.action.creates = some h
def ReleasesSearch (h : SearchHandle) (x : SearchTransition ρ) : Prop := x.action.releases = some h
def WritesSearch (h : SearchHandle) (x : SearchTransition ρ) : Prop := x.action.writes = some h

/-- The handles released in a run, oldest first. -/
def releasedHandles (l : List (SearchTransition ρ)) : List SearchHandle :=
  l.flatMap fun x => x.action.releases.toList

/-- The handles that a run leaves usable: created and not released since, or among the last `n`
released ones. -/
def UsableSearch (n : ℕ) (l : List (SearchTransition ρ)) (h : SearchHandle) : Prop :=
  Since (CreatesSearch h) (ReleasesSearch h) l ∨ h ∈ (releasedHandles l).rtake n

/-- What a run leaves of the searches. -/
structure ReleasesTolerated (n : ℕ) (l : List (SearchTransition ρ)) (s : SearchHeap ρ) : Prop where
  /-- Exactly the usable handles have an object: nothing is freed early, and no more than `n`
  released ones stay. -/
  usable : ∀ h, s.heap.contains h = true ↔ UsableSearch n l h
  /-- Before `n` more releases, a released search shows what it showed at its release, unless the
  game writes to it. -/
  kept : ∀ before x after h, l = before ++ x :: after → ReleasesSearch h x →
    (releasedHandles after).length < n →
    (∀ y ∈ after, ¬ WritesSearch h y) → s.heap.get? h = x.pre.heap.get? h
  /-- No use of a usable handle faults, and no release of one that was not released. -/
  noFault : ∀ h, UsableSearch n l h → (∀ c, (s.step n (.call (some h) c)).isSome) ∧
    (∀ results, (s.step n (.find (some h) results)).isSome) ∧
    (∀ index, (s.copySearchResultByIndex h index).isSome) ∧
    (Since (CreatesSearch h) (ReleasesSearch h) l → (s.step n (.release (some h))).isSome)

/-- The handles released after one more step. -/
theorem releasedHandles_snoc (l : List (SearchTransition ρ)) (x : SearchTransition ρ) :
    releasedHandles (l ++ [x]) = releasedHandles l ++ x.action.releases.toList := by
  simp [releasedHandles]

/-- The invariant of a run. -/
structure SearchesKept (n : ℕ) (l : List (SearchTransition ρ)) (s : SearchHeap ρ) : Prop where
  sane : s.Sane
  size : s.retired.length ≤ n
  ring : s.retired = (releasedHandles l).rtake n
  held : ∀ h, (s.heap.contains h = true ∧ h ∉ s.retired) ↔
    Since (CreatesSearch h) (ReleasesSearch h) l

/-- A step keeps the accounts of the handles. -/
theorem SearchesKept.step {n : ℕ} {l : List (SearchTransition ρ)} {s t : SearchHeap ρ}
    {a : SearchUse ρ} (hk : SearchesKept n l s) (hok : ReleasesOwn s a)
    (hst : s.step n a = some t) : SearchesKept n (l ++ [⟨s, a, t⟩]) t := by
  have hstep := SearchHeap.step_heap hk.sane hk.size hok hst
  obtain ⟨hsane, hsize⟩ := hk.sane.step hk.size hok hst
  refine ⟨hsane, hsize, ?_, fun h => ?_⟩
  · rw [hstep.ring, releasedHandles_snoc, hk.ring]
    cases a.releases with
    | none => rw [Option.toList_none, List.append_nil, List.append_nil, rtake_rtake]
    | some h => exact rtake_snoc _ _
  · obtain ⟨_, hallocated⟩ := hk.sane.ring hok
    rw [since_snoc, ← hk.held, hstep.freed, hstep.ring]
    have hsplit := rdrop_append_rtake (n := n) (s.retired ++ a.releases.toList)
    have hreleased : h ∈ s.retired ++ a.releases.toList ↔ h ∈ s.retired ∨ a.releases = some h := by
      rw [List.mem_append, Option.mem_toList]
    have hsides : h ∈ s.retired ++ a.releases.toList ↔
      h ∈ (s.retired ++ a.releases.toList).rdrop n ∨
        h ∈ (s.retired ++ a.releases.toList).rtake n := by
      rw [← List.mem_append, hsplit]
    constructor
    · rintro ⟨hcreates | ⟨hs, hdrop⟩, htake⟩
      · exact .inl hcreates
      · have hout : ¬ (h ∈ s.retired ∨ a.releases = some h) := fun hin =>
          (hsides.1 (hreleased.2 hin)).elim hdrop htake
        exact .inr ⟨⟨hs, fun hin => hout (.inl hin)⟩, fun hin => hout (.inr hin)⟩
    · rintro (hcreates | ⟨⟨hs, hout⟩, hkept⟩)
      · refine ⟨.inl hcreates, fun htake => ?_⟩
        exact Bool.false_ne_true ((hstep.fresh h hcreates).symm.trans
          (hallocated h (hsides.2 (.inr htake))))
      · have hnot : h ∉ s.retired ++ a.releases.toList := fun hin =>
          (hreleased.1 hin).elim hout hkept
        exact ⟨.inr ⟨hs, fun hin => hnot (hsides.2 (.inl hin))⟩, fun hin => hnot
          (hsides.2 (.inr hin))⟩

section
variable {n : ℕ} {l : List (SearchTransition ρ)} {s t : SearchHeap ρ} {h : SearchHandle}

/-- The accounts hold in every run. -/
theorem SearchesKept.of_trace (ht : Trace (SearchHeap.step n) ReleasesOwn {} l s) :
    SearchesKept n l s := by
  refine ht.invariant ⟨⟨List.nodup_nil, by simp⟩,
    Nat.zero_le n, by simp [releasedHandles], fun h => ?_⟩
    fun l u v a _ hk hok hst => hk.step hok hst
  exact iff_of_false (fun hs => Bool.false_ne_true hs.1) not_since_nil

/-- An object is there exactly as long as its handle is usable. -/
theorem SearchesKept.usable (hk : SearchesKept n l s) (h : SearchHandle) :
    s.heap.contains h = true ↔ UsableSearch n l h := by
  rw [UsableSearch, ← hk.held, ← hk.ring]
  constructor
  · intro hs
    rcases Classical.em (h ∈ s.retired) with hin | hout
    · exact .inr hin
    · exact .inl ⟨hs, hout⟩
  · rintro (⟨hs, _⟩ | hin)
    · exact hs
    · exact hk.sane.allocated h hin

/-- It stays allocated until `n` more releases. -/
theorem SearchesKept.released {before after : List (SearchTransition ρ)} {x : SearchTransition ρ}
    (hk : SearchesKept n (before ++ x :: after) s) (hx : ReleasesSearch h x)
    (hfew : (releasedHandles after).length < n) : s.heap.contains h = true := by
  have hone : x.action.releases = some h := hx
  have hrel : releasedHandles (before ++ x :: after) = releasedHandles before ++ h ::
    releasedHandles after := by
    simp [releasedHandles, hone]
  refine (hk.usable h).2 (.inr ?_)
  rw [hrel]
  exact mem_rtake hfew

/-- A released search is left alone until `n` more releases. -/
theorem released_kept (ht : Trace (SearchHeap.step n) ReleasesOwn {} l s)
    {before after : List (SearchTransition ρ)} {x : SearchTransition ρ}
    (heq : l = before ++ x :: after) (hx : ReleasesSearch h x)
    (hfew : (releasedHandles after).length < n) (hwrites : ∀ y ∈ after, ¬ WritesSearch h y) :
    s.heap.get? h = x.pre.heap.get? h := by
  induction ht generalizing after with
  | refl => simp at heq
  | @tail l u v a hl hok hst ih =>
      have hu := SearchesKept.of_trace hl
      have hv := SearchesKept.of_trace (.tail a hl hok hst)
      rw [heq] at hv
      have hstep := SearchHeap.step_heap hu.sane hu.size hok hst
      have hin := hv.released hx hfew
      rcases List.eq_nil_or_concat after with rfl | ⟨after, z, rfl⟩
      · obtain ⟨rfl, hlast⟩ := List.append_inj' heq rfl
        cases hlast
        have hnone : a.writes ≠ some h := by
          have hone : a.releases = some h := hx
          cases a <;> simp_all [SearchUse.releases, SearchUse.writes]
        exact hstep.same h hnone (hok h hx).1 hin
      · have hassoc : before ++ x :: after.concat z = (before ++ x :: after) ++ [z] := by simp
        obtain ⟨hbefore, hlast⟩ := List.append_inj' (heq.trans hassoc) rfl
        cases hlast
        rw [List.concat_eq_append, releasedHandles_snoc, List.length_append] at hfew
        have hold := ih hbefore (by omega) fun y hy => hwrites y (by simp [hy])
        rw [hbefore] at hu
        have hlast : ¬ WritesSearch h (⟨u, a, v⟩ : SearchTransition ρ) := hwrites _ (by simp)
        rw [hstep.same h hlast (hu.released hx (by omega)) hin, hold]

/-- **Releases are tolerated.** In every run of a game that releases each search it created at most
once, exactly the searches that are not released or are among the last `n` released ones are still
allocated; none of them faults when it is used, and no release frees anything twice; and a released
search shows the results it had until `n` more searches are released, unless the game itself
changes it. Lobby searches have `n = retiredSearches`, session searches none. -/
theorem releases_tolerated (ht : Trace (SearchHeap.step n) ReleasesOwn {} l s) :
    ReleasesTolerated n l s := by
  have hk := SearchesKept.of_trace ht
  refine ⟨hk.usable, fun before x after h heq hx hfew hw => released_kept ht heq hx hfew
    hw, fun h hh => ?_⟩
  have hin := (hk.usable h).2 hh
  refine ⟨fun c => ?_, fun results => ?_, fun index => ?_, fun hheld => ?_⟩
  · exact Option.isSome_map.trans hin
  · exact Option.isSome_map.trans hin
  · exact Option.isSome_map.trans hin
  · obtain ⟨t, hst, _⟩ := SearchHeap.retireSearch_eq (n := n) (h := h) hk.sane fun j hj => by
      cases hj
      exact (hk.held h).2 hheld
    exact Option.isSome_iff_exists.2 ⟨t, hst⟩

end

end

/-- The executable form of `ReleasesOwn`. -/
def releasesOwnTest {ρ : Type} (s : SearchHeap ρ) (a : SearchUse ρ) : Bool :=
  a.releases.all fun h => s.heap.contains h && !s.retired.contains h

/-- A step that passes the test meets `ReleasesOwn`. -/
theorem releasesOwn_of_test {ρ : Type} (s : SearchHeap ρ) (a : SearchUse ρ)
    (h : releasesOwnTest s a = true) : ReleasesOwn s a := by
  intro j hj
  simpa [releasesOwnTest, hj] using h

/-- A game's host flow: it releases a search before it copies the result, and goes on to the next
search. -/
def sampleHostFlow : List (SearchUse LobbyRecord) :=
  [.create 1 none, .find (some 1) [{ lobbyId := str "l" }], .release (some 1), .create 2 (some 1),
    .release (some 2)]

/-- The result is copied from a search that was released. -/
theorem releases_tolerated_sample :
    ∃ s, execIf (SearchHeap.step retiredSearches) releasesOwnTest {} sampleHostFlow = some s ∧
      ReleasesTolerated retiredSearches (transitions (SearchHeap.step retiredSearches)
        {} sampleHostFlow) s ∧
      (s.copySearchResultByIndex 1 0).map (·.1) = some .success :=
  ⟨_, rfl, releases_tolerated (Trace.of_execIf releasesOwn_of_test rfl), rfl⟩

end EOSEmu
