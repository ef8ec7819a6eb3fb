import EOSEmu.Lib.Dict
import EOSEmu.Lib.Trace
import EOSEmu.Sdk
import Mathlib.Data.List.Count
import Mathlib.Data.List.Infix
import Mathlib.Data.List.Perm.Basic

/-!
# Achievements

The unlocked achievements of each user (`Achievements.cpp`), which all platforms of the process
share. Unlocking has two locked sections: the first records what is new, the second takes the
handlers that are told of it, and other threads come in between. What is recorded stays recorded
under its index, and nobody is told of an achievement twice (`achievements_once`).
-/

namespace EOSEmu

open Lib

/-- The options of `UnlockAchievements`: the ids in memory, null pointers included, and how many of
them to read. -/
structure UnlockOptions where
  userId : Bytes
  achievementIds : Option (List (Option Bytes))
  achievementsCount : UInt32

/-- A call between its two sections. -/
structure UnlockCall where
  user : Bytes
  newly : List Bytes
  deriving DecidableEq, Repr

/-- A notification: the handler, the user and the achievement. -/
structure UnlockNote where
  handler : ℕ
  user : Bytes
  achievement : Bytes
  deriving DecidableEq, Repr

/-- The state of the process. -/
structure Achievements where
  unlocked : Dict Bytes (List Bytes) := .empty
  notifyV2 : List ℕ := []
  notifyV1 : List ℕ := []
  nextNotificationId : ℕ := 1
  calls : List UnlockCall := []
  /-- Whether there is a current platform to post to. -/
  platform : Bool := false

/-- What the threads do. -/
inductive AchievementAction where
  /-- `SeedUnlockedAchievement`. -/
  | seed (productId achievementId : Bytes)
  /-- The first section of `UnlockAchievements`. -/
  | unlock (options : Option UnlockOptions)
  /-- The second section of one of the calls in progress, with its posts. -/
  | post (i : ℕ)
  | addNotifyV2
  | addNotifyV1
  | removeNotify (id : ℕ)
  | setPlatform (present : Bool)

/-- The loop of `UnlockAchievements` over the ids: the user's list after it, and what was new. -/
def unlockInto : List Bytes → List (Option Bytes) → List Bytes × List Bytes
  | v, [] => (v, [])
  | v, none :: ids => unlockInto v ids
  | v, some id :: ids =>
      if id ∈ v then unlockInto v ids
      else ((unlockInto (v ++ [id]) ids).1, id :: (unlockInto (v ++ [id]) ids).2)

/-- The ids that the loop reads. -/
def UnlockOptions.ids (o : UnlockOptions) : List (Option Bytes) :=
  (o.achievementIds.getD []).take o.achievementsCount.toNat

namespace Achievements
variable (s : Achievements)

/-- A user's list, empty where there is none. -/
def unlockedOf (user : Bytes) : List Bytes := (s.unlocked.get? user).getD []

/-- `SeedUnlockedAchievement`. -/
def seed (productId achievementId : Bytes) : Achievements :=
  if productId = [] ∨ achievementId = [] then s
  else { s with
    unlocked := s.unlocked.set productId
      (if achievementId ∈ s.unlockedOf productId then s.unlockedOf productId
        else s.unlockedOf productId ++ [achievementId]) }

/-- The first section of `UnlockAchievements`. -/
def unlock : Option UnlockOptions → Achievements
  | none => { s with calls := s.calls ++ [⟨[], []⟩] }
  | some o =>
      if o.userId = [] then { s with calls := s.calls ++ [⟨[], []⟩] }
      else { s with
        unlocked := s.unlocked.set o.userId (unlockInto (s.unlockedOf o.userId) o.ids).1
        calls := s.calls ++ [⟨o.userId, (unlockInto (s.unlockedOf o.userId) o.ids).2⟩] }

/-- `RemoveNotifyAchievementsUnlocked`. -/
def removeNotify (id : ℕ) : Achievements :=
  if id ∈ s.notifyV2 then { s with notifyV2 := s.notifyV2.erase id }
    else { s with notifyV1 := s.notifyV1.erase id }

/-- One step. -/
def step : AchievementAction → Option Achievements
  | .seed productId achievementId => some (s.seed productId achievementId)
  | .unlock options => some (s.unlock options)
  | .post i => (s.calls[i]?).map fun _ => { s with calls := s.calls.eraseIdx i }
  | .addNotifyV2 => some { s with
      notifyV2 := s.notifyV2 ++ [s.nextNotificationId], nextNotificationId :=
        s.nextNotificationId + 1 }
  | .addNotifyV1 => some { s with
      notifyV1 := s.notifyV1 ++ [s.nextNotificationId], nextNotificationId :=
        s.nextNotificationId + 1 }
  | .removeNotify id => some (s.removeNotify id)
  | .setPlatform present => some { s with platform := present }

/-- What the second section of a call tells, with its user. -/
def announcedAt : AchievementAction → List (Bytes × Bytes)
  | .post i => ((s.calls[i]?).map fun c => c.newly.map fun id => (c.user, id)).getD []
  | _ => []

/-- The closures that a step posts for the handlers, if there is a platform. The handlers of the
deprecated kind are copied as well, and not told. -/
def postsAt (a : AchievementAction) : List UnlockNote :=
  if s.platform then (s.announcedAt a).flatMap fun p => s.notifyV2.map fun handler =>
    ⟨handler, p.1, p.2⟩ else []

/-- What a step finds to be new, with its user. -/
def newAt : AchievementAction → List (Bytes × Bytes)
  | .unlock (some o) =>
      if o.userId = [] then [] else (unlockInto (s.unlockedOf o.userId) o.ids).2.map fun id =>
        (o.userId, id)
  | _ => []

/-- What the calls in progress have still to tell. -/
def untold : List (Bytes × Bytes) := s.calls.flatMap fun c => c.newly.map fun id => (c.user, id)

end Achievements

/-- The achievements that an action gives to users. -/
def AchievementAction.gives : AchievementAction → List (Bytes × Bytes)
  | .seed productId achievementId =>
      if productId = [] ∨ achievementId = [] then [] else [(productId, achievementId)]
  | .unlock (some o) => if o.userId = [] then [] else (o.ids.filterMap id).map fun a =>
    (o.userId, a)
  | _ => []

/-! ## The loop -/

section
variable {v : List Bytes} {ids : List (Option Bytes)}

/-- What is new comes behind what was there, and nothing is there twice. -/
theorem unlockInto_eq (v : List Bytes) (ids : List (Option Bytes)) :
    (unlockInto v ids).1 = v ++ (unlockInto v ids).2 := by
  induction ids generalizing v with
  | nil => exact (List.append_nil v).symm
  | cons id ids ih =>
      cases id with
      | none => exact ih v
      | some id =>
          unfold unlockInto
          split
          · exact ih v
          · rw [ih (v ++ [id]), List.append_assoc]
            rfl

/-- Unlocking lists no achievement twice. -/
theorem nodup_unlockInto (h : v.Nodup) (ids : List (Option Bytes)) :
    (unlockInto v ids).1.Nodup := by
  induction ids generalizing v with
  | nil => exact h
  | cons id ids ih =>
      cases id with
      | none => exact ih h
      | some id =>
          unfold unlockInto
          split
          · exact ih h
          · next hnew =>
              refine ih (List.nodup_append.2 ⟨h, List.nodup_singleton id, fun a ha b hb => ?_⟩)
              rw [List.mem_singleton.1 hb]
              rintro rfl
              exact hnew ha

/-- What is new is among the ids. -/
theorem mem_of_mem_unlockInto {a : Bytes} (h : a ∈ (unlockInto v ids).2) :
    a ∈ ids.filterMap id := by
  induction ids generalizing v with
  | nil => cases h
  | cons id ids ih =>
      cases id with
      | none => exact ih h
      | some b =>
          unfold unlockInto at h
          split at h
          · exact List.mem_cons_of_mem _ (ih h)
          · rcases List.mem_cons.1 h with rfl | h
            · exact List.mem_cons_self
            · exact List.mem_cons_of_mem _ (ih h)

/-- What is there afterwards was there before, or is among the ids. -/
theorem mem_unlockInto {a : Bytes} : a ∈ (unlockInto v ids).1 ↔ a ∈ v ∨ a ∈ ids.filterMap id := by
  induction ids generalizing v with
  | nil => simp [unlockInto]
  | cons id ids ih =>
      cases id with
      | none =>
          show a ∈ (unlockInto v ids).1 ↔ _
          rw [ih]
          simp
      | some b =>
          unfold unlockInto
          split
          · next hold =>
              rw [ih]
              constructor
              · exact fun h => h.imp_right fun h => List.mem_cons_of_mem _ h
              · rintro (h | h)
                · exact .inl h
                · rcases List.mem_cons.1 h with rfl | h
                  · exact .inl hold
                  · exact .inr h
          · rw [ih, List.mem_append, List.mem_singleton, or_assoc]
            simp

end

/-! ## One step -/

namespace Achievements
variable {s t : Achievements} {a : AchievementAction}

/-- What a step does to the lists. -/
structure ListStep (s t : Achievements) (a : AchievementAction) : Prop where
  grows : ∀ u, s.unlockedOf u <+: t.unlockedOf u
  nodup : (∀ u, (s.unlockedOf u).Nodup) → ∀ u, (t.unlockedOf u).Nodup
  mem : ∀ u id, id ∈ t.unlockedOf u ↔ id ∈ s.unlockedOf u ∨ (u, id) ∈ a.gives

/-- What a step does to the lists and to what has to be told. -/
structure UnlockStep (s t : Achievements) (a : AchievementAction) : Prop where
  lists : ListStep s t a
  given : ∀ p ∈ s.newAt a, p ∈ a.gives
  new : (∀ u, (s.unlockedOf u).Nodup) → (s.newAt a).Nodup ∧ ∀ p ∈ s.newAt a, p.2 ∉ s.unlockedOf p.1
  told : (s.newAt a ++ s.untold).Perm (s.announcedAt a ++ t.untold)

/-- A step that sets the list of one user. -/
theorem ListStep.set {user : Bytes} {v : List Bytes} (given : List Bytes)
    (hunlocked : t.unlocked = s.unlocked.set user v) (hgrows : s.unlockedOf user <+: v)
    (hnodup : (s.unlockedOf user).Nodup → v.Nodup)
    (hmem : ∀ id, id ∈ v ↔ id ∈ s.unlockedOf user ∨ id ∈ given)
    (hgives : a.gives = given.map fun id => (user, id)) : ListStep s t a := by
  have hof : ∀ u, t.unlockedOf u = if u = user then v else s.unlockedOf u := by
    intro u
    rw [unlockedOf, hunlocked, Dict.get?_set]
    split <;> rfl
  refine ⟨fun u => ?_, fun h u => ?_, fun u id => ?_⟩
  · rw [hof]
    split
    · next heq => rwa [heq]
    · exact List.prefix_refl _
  · rw [hof]
    split
    · exact hnodup (h user)
    · exact h u
  · rw [hof, hgives, List.mem_map]
    split
    · next heq =>
        rw [hmem, heq]
        simp
    · next hne => simp [Ne.symm hne]

/-- A step that leaves the lists alone. -/
theorem UnlockStep.same (hunlocked : t.unlocked = s.unlocked) (hgives : a.gives = [])
    (hnew : s.newAt a = []) (htold : s.untold.Perm (s.announcedAt a ++ t.untold)) :
    UnlockStep s t a := by
  have hof : ∀ u, t.unlockedOf u = s.unlockedOf u := fun u => by rw [unlockedOf, hunlocked,
    unlockedOf]
  refine ⟨⟨fun u => ?_, fun h u => ?_, fun u id => ?_⟩, fun p hp => ?_, fun _ => ?_, ?_⟩
  · rw [hof]
  · rw [hof]
    exact h u
  · rw [hof, hgives]
    simp
  · rw [hnew] at hp
    cases hp
  · rw [hnew]
    simp
  · rwa [hnew]

/-- What seeding does. -/
theorem step_seed (s : Achievements) (productId achievementId : Bytes) :
    UnlockStep s (s.seed productId achievementId) (.seed productId achievementId) := by
  unfold seed
  split
  · next hempty => exact .same rfl (if_pos hempty) rfl (.refl _)
  · next hempty =>
      refine ⟨.set [achievementId] rfl ?_ ?_ ?_ (if_neg hempty), by simp [newAt], by simp [newAt],
        .refl _⟩
      · split
        · exact List.prefix_refl _
        · exact List.prefix_append _ _
      · intro h
        split
        · exact h
        · next hnew =>
            refine List.nodup_append.2 ⟨h, List.nodup_singleton _, fun b hb c hc => ?_⟩
            rw [List.mem_singleton.1 hc]
            rintro rfl
            exact hnew hb
      · intro id
        rw [List.mem_singleton]
        split
        · next hold =>
            constructor
            · exact .inl
            · rintro (h | rfl)
              · exact h
              · exact hold
        · rw [List.mem_append, List.mem_singleton]

/-- A call that unlocks nothing. -/
theorem untold_idle (s : Achievements) :
    s.untold.Perm ({ s with calls := s.calls ++ [⟨[], []⟩] } : Achievements).untold := by
  simp [untold]

/-- What the first section of an unlock does. -/
theorem step_unlock (s : Achievements) (options : Option UnlockOptions) :
    UnlockStep s (s.unlock options) (.unlock options) := by
  cases options with
  | none => exact .same rfl rfl rfl s.untold_idle
  | some o =>
      unfold unlock
      dsimp only
      split
      · next hempty => exact .same rfl (if_pos hempty) (if_pos hempty) s.untold_idle
      · next hempty =>
          have hnew : s.newAt (.unlock (some o)) =
              (unlockInto (s.unlockedOf o.userId) o.ids).2.map fun id => (o.userId, id) :=
                if_neg hempty
          have hgives : AchievementAction.gives (.unlock (some o)) =
              (o.ids.filterMap id).map fun a => (o.userId, a) := if_neg hempty
          have hsplit := unlockInto_eq (s.unlockedOf o.userId) o.ids
          refine ⟨.set _ rfl ?_ (fun h => nodup_unlockInto h o.ids) (fun id => mem_unlockInto)
            hgives, fun p hp => ?_, fun h => ?_, ?_⟩
          · rw [hsplit]
            exact List.prefix_append _ _
          · rw [hnew] at hp
            rw [hgives]
            obtain ⟨id, hid, rfl⟩ := List.mem_map.1 hp
            exact List.mem_map_of_mem (mem_of_mem_unlockInto hid)
          · have hnodup := nodup_unlockInto (h o.userId) o.ids
            rw [hsplit, List.nodup_append] at hnodup
            obtain ⟨_, hfresh, hdisjoint⟩ := hnodup
            rw [hnew]
            refine ⟨hfresh.map fun x y heq => (Prod.mk.inj heq).2, fun p hp hold => ?_⟩
            obtain ⟨id, hid, rfl⟩ := List.mem_map.1 hp
            exact hdisjoint id hold id hid rfl
          · rw [hnew]
            simpa [untold, announcedAt] using List.perm_append_comm

/-- Every step is one of `UnlockStep`. -/
theorem step_unlocked (h : s.step a = some t) : UnlockStep s t a := by
  cases a with
  | seed productId achievementId =>
      cases h
      exact step_seed s productId achievementId
  | unlock options =>
      cases h
      exact step_unlock s options
  | post i =>
      obtain ⟨c, hc, rfl⟩ := Option.map_eq_some_iff.1 h
      refine .same rfl rfl rfl ?_
      have hi : i < s.calls.length := (List.getElem?_eq_some_iff.1 hc).1
      have hperm : s.calls.Perm (c :: s.calls.eraseIdx i) := by
        have hget := (List.getElem_cons_eraseIdx_perm hi).symm
        rwa [(List.getElem?_eq_some_iff.1 hc).2] at hget
      simpa [untold, announcedAt, hc] using hperm.flatMap_right _
  | addNotifyV2 | addNotifyV1 | setPlatform =>
      cases h
      exact .same rfl rfl rfl (.refl _)
  | removeNotify id =>
      cases h
      unfold removeNotify
      split <;> exact .same rfl rfl rfl (.refl _)

/-- What every state keeps of the handlers: their ids are below the next one, and none is there
twice. -/
structure HandlersSane (s : Achievements) : Prop where
  nodup : s.notifyV2.Nodup
  below : ∀ id ∈ s.notifyV2, id < s.nextNotificationId

/-- The handlers that are told, after a step. -/
theorem step_notifyV2 (h : s.step a = some t) : s.nextNotificationId ≤ t.nextNotificationId ∧
    ((t.notifyV2.Sublist s.notifyV2) ∨
      (a = .addNotifyV2 ∧ t.notifyV2 = s.notifyV2 ++ [s.nextNotificationId] ∧
        t.nextNotificationId = s.nextNotificationId + 1)) := by
  cases a with
  | seed productId achievementId =>
      cases h
      unfold seed
      split <;> exact ⟨Nat.le_refl _, .inl (List.Sublist.refl _)⟩
  | unlock options =>
      cases h
      cases options with
      | none => exact ⟨Nat.le_refl _, .inl (List.Sublist.refl _)⟩
      | some o =>
          unfold unlock
          dsimp only
          split <;> exact ⟨Nat.le_refl _, .inl (List.Sublist.refl _)⟩
  | post i =>
      obtain ⟨c, _, rfl⟩ := Option.map_eq_some_iff.1 h
      exact ⟨Nat.le_refl _, .inl (List.Sublist.refl _)⟩
  | addNotifyV2 =>
      cases h
      exact ⟨Nat.le_succ _, .inr ⟨rfl, rfl, rfl⟩⟩
  | addNotifyV1 =>
      cases h
      exact ⟨Nat.le_succ _, .inl (List.Sublist.refl _)⟩
  | removeNotify id =>
      cases h
      unfold removeNotify
      split
      · exact ⟨Nat.le_refl _, .inl List.erase_sublist⟩
      · exact ⟨Nat.le_refl _, .inl (List.Sublist.refl _)⟩
  | setPlatform present =>
      cases h
      exact ⟨Nat.le_refl _, .inl (List.Sublist.refl _)⟩

/-- A step keeps the handlers distinct, and below the next id. -/
theorem HandlersSane.step (hs : s.HandlersSane) (h : s.step a = some t) : t.HandlersSane := by
  obtain ⟨hnext, hsub | ⟨_, hadded, hone⟩⟩ := step_notifyV2 h
  · exact ⟨hs.nodup.sublist hsub, fun id hid => Nat.lt_of_lt_of_le (hs.below id (hsub.subset hid))
      hnext⟩
  · constructor
    · rw [hadded]
      refine List.nodup_append.2 ⟨hs.nodup, List.nodup_singleton _, fun b hb c hc => ?_⟩
      rw [List.mem_singleton.1 hc]
      exact Nat.ne_of_lt (hs.below b hb)
    · intro id hid
      rw [hadded, List.mem_append, List.mem_singleton] at hid
      rw [hone]
      rcases hid with hid | rfl
      · exact Nat.lt_succ_of_lt (hs.below id hid)
      · exact Nat.lt_succ_self _

/-- What a step posts: to the handlers there are, each thing once. -/
theorem mem_postsAt {n : UnlockNote} (h : n ∈ s.postsAt a) :
    n.handler ∈ s.notifyV2 ∧ (n.user, n.achievement) ∈ s.announcedAt a := by
  unfold postsAt at h
  split at h
  · obtain ⟨p, hp, hn⟩ := List.mem_flatMap.1 h
    obtain ⟨handler, hhandler, rfl⟩ := List.mem_map.1 hn
    exact ⟨hhandler, hp⟩
  · cases h

/-- A step posts nothing twice. -/
theorem nodup_postsAt (hs : s.HandlersSane) (h : (s.announcedAt a).Nodup) :
    (s.postsAt a).Nodup := by
  unfold postsAt
  split
  · refine List.nodup_flatMap.2 ⟨fun p _ => hs.nodup.map fun x y heq => (UnlockNote.mk.inj heq).1,
      ?_⟩
    refine h.imp fun {p q} hne n hp hq => ?_
    obtain ⟨_, _, rfl⟩ := List.mem_map.1 hp
    obtain ⟨_, _, heq⟩ := List.mem_map.1 hq
    obtain ⟨_, huser, hachievement⟩ := UnlockNote.mk.inj heq
    exact hne (Prod.ext huser.symm hachievement.symm)
  · exact List.nodup_nil

end Achievements

/-! ## A run -/

/-- A transition of the achievements. -/
abbrev AchievementTransition := Transition Achievements AchievementAction

section
variable (l : List AchievementTransition)

/-- What a run found to be new, and what it told of. -/
def foundNew : List (Bytes × Bytes) := l.flatMap fun x => x.pre.newAt x.action
def announcedNew : List (Bytes × Bytes) := l.flatMap fun x => x.pre.announcedAt x.action

/-- The notifications it posted. -/
def postedNotes : List UnlockNote := l.flatMap fun x => x.pre.postsAt x.action

end

/-- What becomes of the achievements in a run. -/
structure AchievementsOnce (l : List AchievementTransition) (s : Achievements) : Prop where
  /-- A user has what was seeded or unlocked, nothing twice. -/
  unlocked : ∀ user id, id ∈ s.unlockedOf user ↔ ∃ x ∈ l, (user, id) ∈ x.action.gives
  nodup : ∀ user, (s.unlockedOf user).Nodup
  /-- It stays under its index. -/
  stays : ∀ x ∈ l, ∀ user, x.pre.unlockedOf user <+: s.unlockedOf user
  /-- What was found to be new is told of once, or about to be. -/
  told : (foundNew l).Perm (announcedNew l ++ s.untold)
  /-- No handler is told twice of an achievement. -/
  once : (postedNotes l).Nodup
  /-- A handler is told of what a user has unlocked. -/
  genuine : ∀ n ∈ postedNotes l, (n.user, n.achievement) ∈ announcedNew l ∧
    n.achievement ∈ s.unlockedOf n.user
  /-- The handlers of the deprecated kind are told of nothing. -/
  deprecated : ∀ n ∈ postedNotes l, ∃ x ∈ l, x.action = .addNotifyV2 ∧
    x.pre.nextNotificationId = n.handler

/-- The invariant of a run. -/
structure AchievementsKept (l : List AchievementTransition) (s : Achievements) : Prop where
  once : AchievementsOnce l s
  handlers : s.HandlersSane
  found : (foundNew l).Nodup ∧ ∀ p ∈ foundNew l, p.2 ∈ s.unlockedOf p.1
  added : ∀ id ∈ s.notifyV2, ∃ x ∈ l, x.action = .addNotifyV2 ∧ x.pre.nextNotificationId = id

section
variable {l : List AchievementTransition} {s t : Achievements} {a : AchievementAction}

/-- What was found new after one more step. -/
theorem foundNew_snoc (x : AchievementTransition) :
    foundNew (l ++ [x]) = foundNew l ++ x.pre.newAt x.action := by
  simp [foundNew]

/-- What was announced after one more step. -/
theorem announcedNew_snoc (x : AchievementTransition) :
    announcedNew (l ++ [x]) = announcedNew l ++ x.pre.announcedAt x.action := by
  simp [announcedNew]

/-- What was posted after one more step. -/
theorem postedNotes_snoc (x : AchievementTransition) :
    postedNotes (l ++ [x]) = postedNotes l ++ x.pre.postsAt x.action := by
  simp [postedNotes]

/-- A step keeps the accounts of the achievements. -/
theorem AchievementsKept.step (h : AchievementsKept l s) (hst : s.step a = some t) :
    AchievementsKept (l ++ [⟨s, a, t⟩]) t := by
  have hstep := Achievements.step_unlocked hst
  obtain ⟨hnewNodup, hnewFresh⟩ := hstep.new h.once.nodup
  have hkept : ∀ u id, id ∈ s.unlockedOf u →
    id ∈ t.unlockedOf u := fun u id hid => (hstep.lists.grows u).subset hid
  have hfound : (foundNew (l ++ [⟨s, a, t⟩])).Nodup ∧ ∀ p ∈ foundNew (l ++ [⟨s, a, t⟩]), p.2 ∈
    t.unlockedOf p.1 := by
    rw [foundNew_snoc]
    constructor
    · refine List.nodup_append.2 ⟨h.found.1, hnewNodup, fun p hp q hq heq => ?_⟩
      exact hnewFresh q hq (heq ▸ h.found.2 p hp)
    · intro p hp
      rcases List.mem_append.1 hp with hp | hp
      · exact hkept _ _ (h.found.2 p hp)
      · exact (hstep.lists.mem p.1 p.2).2 (.inr (hstep.given p hp))
  have htold : (foundNew (l ++ [⟨s, a, t⟩])).Perm
    (announcedNew (l ++ [⟨s, a, t⟩]) ++ t.untold) := by
    rw [foundNew_snoc, announcedNew_snoc, List.append_assoc]
    calc foundNew l ++ s.newAt a
      _ |>.Perm (announcedNew l ++ s.untold ++ s.newAt a) := h.once.told.append_right _
      _ |>.Perm (announcedNew l ++ (s.newAt a ++ s.untold)) := by
          rw [List.append_assoc]
          exact List.perm_append_comm.append_left _
      _ |>.Perm (announcedNew l ++ (s.announcedAt a ++ t.untold)) := hstep.told.append_left _
  have hannounced : (announcedNew l ++ s.announcedAt a).Nodup := by
    have hall := htold.nodup_iff.1 hfound.1
    rw [announcedNew_snoc] at hall
    exact hall.sublist (List.sublist_append_left _ _)
  obtain ⟨_, hnow, hdisjoint⟩ := List.nodup_append.1 hannounced
  refine ⟨⟨fun u id => ?_, hstep.lists.nodup h.once.nodup, fun x hx u => ?_, htold,
    ?_, fun n hn => ?_, fun n hn => ?_⟩, h.handlers.step hst, hfound, fun id hid => ?_⟩
  · rw [hstep.lists.mem, h.once.unlocked]
    simp [or_and_right, exists_or]
  · rcases List.mem_append.1 hx with hx | hx
    · exact (h.once.stays x hx u).trans (hstep.lists.grows u)
    · rw [List.mem_singleton.1 hx]
      exact hstep.lists.grows u
  · rw [postedNotes_snoc]
    refine List.nodup_append.2 ⟨h.once.once, Achievements.nodup_postsAt h.handlers
      hnow, fun n hn m hm heq => ?_⟩
    exact hdisjoint _ (h.once.genuine n hn).1 _ (heq ▸ (Achievements.mem_postsAt hm).2) rfl
  · rw [postedNotes_snoc] at hn
    have hin : (n.user, n.achievement) ∈ announcedNew (l ++ [⟨s, a, t⟩]) := by
      rw [announcedNew_snoc]
      rcases List.mem_append.1 hn with hn | hn
      · exact List.mem_append_left _ (h.once.genuine n hn).1
      · exact List.mem_append_right _ (Achievements.mem_postsAt hn).2
    exact ⟨hin, hfound.2 _ (htold.mem_iff.2 (List.mem_append_left _ hin))⟩
  · rw [postedNotes_snoc] at hn
    have hold : ∃ x ∈ l, x.action = .addNotifyV2 ∧ x.pre.nextNotificationId = n.handler := by
      rcases List.mem_append.1 hn with hn | hn
      · exact h.once.deprecated n hn
      · exact h.added n.handler (Achievements.mem_postsAt hn).1
    obtain ⟨x, hx, hadds⟩ := hold
    exact ⟨x, List.mem_append_left _ hx, hadds⟩
  · rcases (Achievements.step_notifyV2 hst).2 with hsub | ⟨hadds, hadded, _⟩
    · obtain ⟨x, hx, hbefore⟩ := h.added id (hsub.subset hid)
      exact ⟨x, List.mem_append_left _ hx, hbefore⟩
    · rw [hadded, List.mem_append, List.mem_singleton] at hid
      rcases hid with hid | rfl
      · obtain ⟨x, hx, hbefore⟩ := h.added id hid
        exact ⟨x, List.mem_append_left _ hx, hbefore⟩
      · exact ⟨⟨s, a, t⟩, by simp, hadds, rfl⟩

/-- **Achievements are told once.** In every run of the threads, with platforms coming and going: a
user has exactly what was seeded or unlocked, each achievement once and under the index it came
with; each one that an unlock found to be new is taken to the handlers once; no handler is told
twice of one, or of one the user does not have, and the handlers of the deprecated kind are told of
nothing. -/
theorem achievements_once (h : Trace Achievements.step Always {} l s) : AchievementsOnce l s := by
  refine (h.invariant (P := AchievementsKept) ?_ fun l s t a _ hk _ hst => hk.step hst).once
  constructor
  · constructor <;> simp [Achievements.unlockedOf, foundNew, announcedNew, postedNotes,
      Achievements.untold]
  · exact ⟨List.nodup_nil, by simp⟩
  · simp [foundNew]
  · simp

/-- Two threads unlock the same achievement, and the handler that is registered between the
sections of the first call is told of it once. -/
def sampleUnlocks : List AchievementAction :=
  [.setPlatform true, .seed (str "a") (str "old"), .unlock
    (some ⟨str "a", some [some (str "new"), none], 2⟩),
    .unlock (some ⟨str "a", some [some (str "new"), some (str "old")], 2⟩), .addNotifyV2,
      .addNotifyV1, .post 1, .post 0]

/-- Of two threads one finds the achievement new, and its handler is told once. -/
theorem achievements_once_sample : ∃ s, exec Achievements.step {} sampleUnlocks = some s ∧
    AchievementsOnce (transitions Achievements.step {} sampleUnlocks) s ∧
    postedNotes (transitions Achievements.step {} sampleUnlocks) = [⟨1, str "a", str "new"⟩] :=
  ⟨_, rfl, achievements_once (Trace.of_exec rfl), by decide⟩

end

end EOSEmu
