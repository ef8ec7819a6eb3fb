import EOSEmu.Core.Dispatch
import EOSEmu.Lib.Trace

/-!
# Notification callbacks

The registries of notification callbacks (`NotifyRegistry` of `interfaces/Common.h`, the filtered
lists of `P2P.h`, `RoomNotifyRegistry` of `RTC.h`, the lists of `Achievements.cpp`) and their
fan-outs, as steps of the game thread, the receive thread and the drains of the dispatcher at lock
granularity. A registration is known by the id its `AddNotify` returned; closures carry the whole
entry here, although the code copies the function and the client data only, so that the run can
tell which registration a callback belongs to.
-/

namespace EOSEmu

open Lib

/-- The notification families that some event of the program fires. -/
inductive NotifyFamily where
  | connectionRequest | connectionEstablished | connectionInterrupted | connectionClosed | queueFull
  | authStatusChanged | connectStatusChanged
  | lobbyUpdateReceived | lobbyMemberUpdateReceived | lobbyMemberStatusReceived
  | lobbyInviteReceived | lobbyInviteAccepted | lobbyInviteRejected | lobbyJoinAccepted
  | rtcRoomConnection
  | sessionInviteReceived | sessionInviteAccepted | sessionInviteRejected | sessionJoinAccepted
  | presenceChanged | displaySettings | customInviteReceived | achievementsUnlockedV2
  | rtcParticipantStatus | rtcAudioParticipantUpdated | rtcDataParticipantUpdated
  deriving DecidableEq, Repr

/-- The two ways a site fans an event out. -/
inductive FanOut where
  /-- Copies the registry when the event happens and posts one closure for each entry. -/
  | posted
  /-- Posts one closure, which copies the registry when it runs and calls the entries one after the
  other. -/
  | atFire
  deriving DecidableEq, Repr

/-- How the sites of a family fan out: `FireStatusChanged` of `Auth.cpp`, the login closures of
`Connect.cpp` and the fire helpers of `RTC.cpp` copy the registry inside the closure, all others
before they post. -/
def NotifyFamily.fanOut : NotifyFamily → FanOut
  | .authStatusChanged | .connectStatusChanged | .rtcRoomConnection
  | .rtcParticipantStatus | .rtcAudioParticipantUpdated | .rtcDataParticipantUpdated => .atFire
  | _ => .posted

/-- Whether an entry registered for `scope` gets an event of `event`: `SocketMatches` for the
connection families, the room test of `RoomNotifyRegistry::Snapshot` for the RTC families, every
entry elsewhere. -/
def NotifyFamily.matches (f : NotifyFamily) (scope event : Bytes) : Bool :=
  match f with
  | .connectionRequest | .connectionEstablished | .connectionInterrupted | .connectionClosed =>
      scope.isEmpty || scope == event
  | .rtcParticipantStatus | .rtcAudioParticipantUpdated | .rtcDataParticipantUpdated =>
    scope == event
  | _ => true

/-- `NotifyRegistry::Entry`, `FilteredEntry` and `RoomNotifyRegistry::Entry`: the function pointer,
the client data, and the socket or room the entry is limited to. -/
structure NotifyEntry (φ δ : Type) where
  id : UInt64
  fn : φ
  clientData : δ
  scope : Bytes := []

/-- A closure in the dispatcher, as far as notifications go. -/
inductive NotifyTask (φ δ : Type) where
  /-- Calls one entry. -/
  | notify (f : NotifyFamily) (e : NotifyEntry φ δ)
  /-- Copies the registry and calls its entries. -/
  | fanOut (f : NotifyFamily) (event : Bytes)
  /-- The completion of some other call. -/
  | completion

/-- The registration whose callback a closure will call. -/
def NotifyTask.copy {φ δ : Type} : NotifyTask φ δ → Option (NotifyFamily × UInt64)
  | .notify f e => some (f, e.id)
  | .fanOut _ _ | .completion => none

/-- The registries, the fan-outs that have copied a registry and not posted all their closures yet,
the dispatcher, and the closures that each `Drain` under way has still to run. `drawn` holds the
ids an `Add` has taken and not stored yet. -/
structure NotifyState (φ δ : Type) where
  counter : UInt64 := 1
  drawn : List UInt64 := []
  registry : NotifyFamily → List (NotifyEntry φ δ) := fun _ => []
  fanOuts : List (NotifyFamily × List (NotifyEntry φ δ)) := []
  dispatch : Dispatcher (NotifyTask φ δ) := {}
  drains : List (List (NotifyTask φ δ)) := []

/-- What the threads do. -/
inductive NotifyAction (φ δ : Type) where
  /-- `NextNotificationId`. -/
  | nextId
  /-- The locked part of an `AddNotify`. -/
  | add (f : NotifyFamily) (id : UInt64) (fn : φ) (clientData : δ) (scope : Bytes)
  /-- `RemoveNotify`. -/
  | remove (f : NotifyFamily) (id : UInt64)
  /-- An event, with the socket or room it is about; a posting fan-out posts `n` closures for each
  entry (one for each unlocked achievement, one everywhere else). -/
  | raise (f : NotifyFamily) (event : Bytes) (n : ℕ)
  /-- A fan-out posts its next closure. -/
  | post (i : ℕ)
  /-- Some other code posts the completion of its call, at once or with a delay. -/
  | complete
  | completeAfter (now : TimePoint) (delayMs : ℕ)
  /-- A `Drain` takes the closures. -/
  | drain (now : TimePoint)
  /-- A drain runs its next closure. -/
  | run (i : ℕ)

namespace NotifyState
variable {φ δ : Type} (s : NotifyState φ δ)

/-- `Snapshot`: the entries an event reaches. -/
def snapshot (f : NotifyFamily) (event : Bytes) : List (NotifyEntry φ δ) :=
  (s.registry f).filter fun e => f.matches e.scope event

/-- `Remove`: erases the first entry with the id. -/
def removeEntry (f : NotifyFamily) (id : UInt64) : NotifyState φ δ :=
  { s with registry := fun g =>
      if g = f then (s.registry g).eraseP fun e => e.id = id else s.registry g }

/-- One step. -/
def step : NotifyAction φ δ → Option (NotifyState φ δ)
  | .nextId => some { s with counter := s.counter + 1, drawn := s.drawn ++ [s.counter] }
  | .add f id fn clientData scope =>
      if id ∈ s.drawn then
        some { s with
          drawn := s.drawn.erase id
          registry := fun g =>
            if g = f then s.registry g ++ [{ id, fn, clientData, scope }] else s.registry g }
      else none
  | .remove f id => some (s.removeEntry f id)
  | .raise f event n =>
      match f.fanOut with
      | .posted =>
          some { s with fanOuts := s.fanOuts ++
            [(f, (List.replicate n (s.snapshot f event)).flatten)] }
      | .atFire => some { s with dispatch := s.dispatch.post (.fanOut f event) }
  | .post i =>
      match s.fanOuts[i]? with
      | some (f, e :: es) =>
          some { s with fanOuts := s.fanOuts.set i (f, es), dispatch :=
              s.dispatch.post (.notify f e) }
      | _ => none
  | .complete => some { s with dispatch := s.dispatch.post .completion }
  | .completeAfter now delayMs =>
    some { s with dispatch := s.dispatch.postAfter now delayMs .completion }
  | .drain now =>
      some { s with dispatch := (s.dispatch.drain now).2, drains := s.drains ++
        [(s.dispatch.drain now).1] }
  | .run i =>
      match s.drains[i]? with
      | some (.fanOut f event :: rest) =>
          some { s with drains := s.drains.set i ((s.snapshot f event).map (.notify f) ++ rest) }
      | some (_ :: rest) => some { s with drains := s.drains.set i rest }
      | _ => none

/-- The callback a step calls, by the registration it belongs to. -/
def invoked : NotifyAction φ δ → Option (NotifyFamily × UInt64)
  | .run i => (s.drains[i]?.bind List.head?).bind NotifyTask.copy
  | _ => none

/-- The registrations whose callback is already on its way: copied by a fan-out, waiting in the
dispatcher, or next in a drain. -/
def copies : List (NotifyFamily × UInt64) :=
  (s.fanOuts.flatMap fun p => p.2.map fun e => (p.1, e.id)) ++
    (s.dispatch.tasks ++ s.drains.flatten).filterMap NotifyTask.copy

/-- Nothing of the registration is left. -/
structure Gone (f : NotifyFamily) (id : UInt64) : Prop where
  notRegistered : ∀ e ∈ s.registry f, e.id ≠ id
  noCopy : (f, id) ∉ s.copies

end NotifyState

namespace NotifyState
variable {φ δ : Type} {s t : NotifyState φ δ} {a : NotifyAction φ δ} {f : NotifyFamily}
  {id : UInt64}

/-- A callback is copied in a fan-out, in a queue or in a drain. -/
theorem mem_copies {p : NotifyFamily × UInt64} : p ∈ s.copies ↔
    (∃ q ∈ s.fanOuts, q.1 = p.1 ∧ ∃ e ∈ q.2, e.id = p.2) ∨
    (∃ w ∈ s.dispatch.tasks, w.copy = some p) ∨ ∃ ws ∈ s.drains, ∃ w ∈ ws, w.copy = some p := by
  obtain ⟨f, id⟩ := p
  simp only [copies, List.mem_append, List.mem_flatMap, List.mem_map, List.mem_filterMap,
    List.mem_flatten, Prod.mk.injEq, or_and_right, exists_or]
  refine or_congr ?_ (or_congr Iff.rfl ?_)
  · refine exists_congr fun q => and_congr_right fun _ => ?_
    constructor
    · rintro ⟨e, he, hf, hid⟩
      exact ⟨hf, e, he, hid⟩
    · rintro ⟨hf, e, he, hid⟩
      exact ⟨e, he, hf, hid⟩
  · constructor
    · rintro ⟨w, ⟨ws, hws, hw⟩, hc⟩
      exact ⟨ws, hws, w, hw, hc⟩
    · rintro ⟨ws, hws, w, hw, hc⟩
      exact ⟨w, ⟨ws, hws, hw⟩, hc⟩

/-- The registry grows only by an `AddNotify`. -/
theorem step_registry (h : s.step a = some t) {e : NotifyEntry φ δ} (he : e ∈ t.registry f) :
    e ∈ s.registry f ∨ ∃ fn clientData scope, a = .add f e.id fn clientData scope := by
  cases a with
  | add g id fn clientData scope =>
      simp only [step] at h
      split at h
      · cases h
        simp only at he
        split at he
        · next hg =>
            rcases List.mem_append.1 he with he | he
            · exact .inl he
            · rw [List.mem_singleton] at he
              exact .inr ⟨fn, clientData, scope, by rw [he, hg]⟩
        · exact .inl he
      · cases h
  | remove g id =>
      cases h
      simp only [removeEntry] at he
      split at he
      · exact .inl (List.mem_of_mem_eraseP he)
      · exact .inl he
  | raise g event n =>
      simp only [step] at h
      split at h <;> (cases h; exact .inl he)
  | post i =>
      simp only [step] at h
      split at h
      · cases h
        exact .inl he
      · cases h
  | run i =>
      simp only [step] at h
      split at h
      · cases h
        exact .inl he
      · cases h
        exact .inl he
      · cases h
  | nextId | complete | completeAfter | drain =>
      cases h
      exact .inl he

/-- A task that calls nothing puts no callback on its way. -/
theorem copies_of_posted {d : Dispatcher (NotifyTask φ δ)} {w : NotifyTask φ δ}
    (hd : ∀ x ∈ d.tasks, x ∈ s.dispatch.tasks ∨ x = w) (hw : w.copy = none)
    {p : NotifyFamily × UInt64} (hp : p ∈ copies { s with dispatch := d }) : p ∈ s.copies := by
  rw [mem_copies] at hp ⊢
  rcases hp with hp | ⟨x, hx, hc⟩ | hp
  · exact .inl hp
  · rcases hd x hx with hx | rfl
    · exact .inr (.inl ⟨x, hx, hc⟩)
    · rw [hw] at hc
      cases hc
  · exact .inr (.inr hp)

/-- A drain that runs its first task for some others puts on their way the callbacks of these. -/
theorem copies_of_run {i : ℕ} {w : NotifyTask φ δ} {rest ws : List (NotifyTask φ δ)}
    (hi : s.drains[i]? = some (w :: rest)) {p : NotifyFamily × UInt64}
    (hp : p ∈ copies { s with drains := s.drains.set i (ws ++ rest) }) :
    p ∈ s.copies ∨ ∃ x ∈ ws, x.copy = some p := by
  rw [mem_copies] at hp ⊢
  rcases hp with hp | hp | ⟨l, hl, x, hx, hc⟩
  · exact .inl (.inl hp)
  · exact .inl (.inr (.inl hp))
  · rcases List.mem_or_eq_of_mem_set hl with hl | rfl
    · exact .inl (.inr (.inr ⟨l, hl, x, hx, hc⟩))
    · rcases List.mem_append.1 hx with hx | hx
      · exact .inr ⟨x, hx, hc⟩
      · exact .inl (.inr (.inr ⟨_, List.mem_of_getElem? hi, x, List.mem_cons_of_mem _ hx, hc⟩))

/-- A callback gets on its way only by an event that finds it registered. -/
theorem step_copies (h : s.step a = some t) {p : NotifyFamily × UInt64} (hp : p ∈ t.copies) :
    p ∈ s.copies ∨ ∃ e ∈ s.registry p.1, e.id = p.2 := by
  cases a with
  | add g id fn clientData scope =>
      simp only [step] at h
      split at h
      · cases h
        exact .inl hp
      · cases h
  | nextId | remove =>
      cases h
      exact .inl hp
  | raise g event n =>
      simp only [step] at h
      split at h
      · -- the closures to come are copies of registered entries
        cases h
        rw [mem_copies] at hp ⊢
        rcases hp with ⟨q, hq, hf, e, he, hid⟩ | hp
        · rcases List.mem_append.1 hq with hq | hq
          · exact .inl (.inl ⟨q, hq, hf, e, he, hid⟩)
          · rw [List.mem_singleton] at hq
            subst hq
            obtain ⟨es, hes, he⟩ := List.mem_flatten.1 he
            rw [(List.mem_replicate.1 hes).2] at he
            refine .inr ⟨e, ?_, hid⟩
            rw [← hf]
            exact (List.mem_filter.1 he).1
        · exact .inl (.inr hp)
      · cases h
        exact .inl (copies_of_posted (fun _ => Dispatcher.mem_tasks_post.1) rfl hp)
  | post i =>
      simp only [step] at h
      split at h
      · next g e es hi =>
          have hmem : (g, e :: es) ∈ s.fanOuts := List.mem_of_getElem? hi
          cases h
          rw [mem_copies] at hp ⊢
          rcases hp with ⟨q, hq, hf, e', he', hid⟩ | ⟨w, hw, hc⟩ | hp
          · rcases List.mem_or_eq_of_mem_set hq with hq | rfl
            · exact .inl (.inl ⟨q, hq, hf, e', he', hid⟩)
            · exact .inl (.inl ⟨_, hmem, hf, e', List.mem_cons_of_mem _ he', hid⟩)
          · rcases Dispatcher.mem_tasks_post.1 hw with hw | rfl
            · exact .inl (.inr (.inl ⟨w, hw, hc⟩))
            · cases hc
              exact .inl (.inl ⟨_, hmem, rfl, e, List.mem_cons_self, rfl⟩)
          · exact .inl (.inr (.inr hp))
      · cases h
  | complete =>
      cases h
      exact .inl (copies_of_posted (fun _ => Dispatcher.mem_tasks_post.1) rfl hp)
  | completeAfter now delayMs =>
      cases h
      exact .inl (copies_of_posted (fun _ => Dispatcher.mem_tasks_postAfter.1) rfl hp)
  | drain now =>
      cases h
      rw [mem_copies] at hp ⊢
      rcases hp with hp | ⟨w, hw, hc⟩ | ⟨ws, hws, w, hw, hc⟩
      · exact .inl (.inl hp)
      · exact .inl (.inr (.inl ⟨w, Dispatcher.mem_drain.1 (.inr hw), hc⟩))
      · rcases List.mem_append.1 hws with hws | hws
        · exact .inl (.inr (.inr ⟨ws, hws, w, hw, hc⟩))
        · rw [List.mem_singleton] at hws
          subst hws
          exact .inl (.inr (.inl ⟨w, Dispatcher.mem_drain.1 (.inl hw), hc⟩))
  | run i =>
      simp only [step] at h
      split at h
      · -- the closure copies the registry now
        next g event rest hi =>
          cases h
          rcases copies_of_run hi hp with hp | ⟨x, hx, hc⟩
          · exact .inl hp
          · obtain ⟨e, he, rfl⟩ := List.mem_map.1 hx
            cases hc
            exact .inr ⟨e, (List.mem_filter.1 he).1, rfl⟩
      · next w' rest _ hi =>
          cases h
          have hp' : p ∈ copies { s with drains := s.drains.set i ([] ++ rest) } := hp
          rcases copies_of_run hi hp' with hp | ⟨x, hx, _⟩
          · exact .inl hp
          · cases hx
      · cases h

/-- A callback that is called was on its way. -/
theorem invoked_copies {p : NotifyFamily × UInt64} (h : s.invoked a = some p) : p ∈ s.copies := by
  cases a with
  | run i =>
      obtain ⟨w, hw, hc⟩ := Option.bind_eq_some_iff.1 h
      obtain ⟨ws, hws, hhead⟩ := Option.bind_eq_some_iff.1 hw
      exact mem_copies.2
        (.inr (.inr ⟨ws, List.mem_of_getElem? hws, w, List.mem_of_head? hhead, hc⟩))
  | nextId | add | remove | raise | post | complete | completeAfter | drain => cases h

/-- What is gone stays gone until its id is registered again. -/
theorem Gone.step (hs : s.Gone f id) (h : s.step a = some t)
    (ha : ∀ fn clientData scope, a ≠ .add f id fn clientData scope) : t.Gone f id := by
  refine ⟨fun e he hid => ?_, fun hp => ?_⟩
  · rcases step_registry h he with he | ⟨fn, clientData, scope, rfl⟩
    · exact hs.notRegistered e he hid
    · exact ha fn clientData scope (by rw [hid])
  · rcases step_copies h hp with hp | ⟨e, he, hid⟩
    · exact hs.noCopy hp
    · exact hs.notRegistered e he hid

end NotifyState

/-! ## No callback after removal -/

section
variable {φ δ : Type}

/-- The step removes the registration. -/
def RemovedNow (f : NotifyFamily) (id : UInt64)
    (x : Transition (NotifyState φ δ) (NotifyAction φ δ)) : Prop :=
  match x.action with
  | .remove g id' => g = f ∧ id' = id
  | _ => False

/-- The step registers a callback under the id. -/
def AddedNow (f : NotifyFamily) (id : UInt64)
    (x : Transition (NotifyState φ δ) (NotifyAction φ δ)) : Prop :=
  match x.action with
  | .add g id' _ _ _ => g = f ∧ id' = id
  | _ => False

instance (f : NotifyFamily) (id : UInt64) :
    DecidablePred (RemovedNow (φ := φ) (δ := δ) f id) := fun x => by
  unfold RemovedNow
  split <;> infer_instance

instance (f : NotifyFamily) (id : UInt64) :
    DecidablePred (AddedNow (φ := φ) (δ := δ) f id) := fun x => by
  unfold AddedNow
  split <;> infer_instance

/-- **No callback after removal**: no step of the history calls a callback whose id was removed,
and not registered again, before it. -/
def NoCallbackAfterRemoval (l : List (Transition (NotifyState φ δ) (NotifyAction φ δ))) : Prop :=
  ∀ before x after, l = before ++ x :: after → ∀ f id, x.pre.invoked x.action = some (f, id) →
    ¬ Since (RemovedNow f id) (AddedNow f id) before

/-- A removal finds the callback at rest: registered at most once, and neither copied by a fan-out
nor posted nor next in a drain. -/
def AtRest (s : NotifyState φ δ) : NotifyAction φ δ → Prop
  | .remove f id => ((s.registry f).countP fun e => e.id = id) ≤ 1 ∧ (f, id) ∉ s.copies
  | _ => True

instance (s : NotifyState φ δ) : ∀ a : NotifyAction φ δ, Decidable (AtRest s a)
  | .remove _ _ => inferInstanceAs (Decidable (_ ∧ _))
  | .nextId | .add .. | .raise .. | .post _ | .complete | .completeAfter .. | .drain _ | .run _ =>
    .isTrue trivial

variable {s t : NotifyState φ δ}

/-- Erasing the only element that passes leaves none. -/
theorem not_of_mem_eraseP {α : Type} {p : α → Bool} {l : List α} (h : l.countP p ≤ 1) {x : α}
    (hx : x ∈ l.eraseP p) : ¬ p x := by
  induction l with
  | nil => cases hx
  | cons y l ih =>
      rw [List.countP_cons] at h
      rw [List.eraseP_cons] at hx
      cases hy : p y with
      | true =>
          rw [hy] at h hx
          have hzero : l.countP p = 0 := by
            simp only [if_true] at h
            omega
          exact List.countP_eq_zero.1 hzero x hx
      | false =>
          rw [hy] at h hx
          rcases List.mem_cons.1 hx with rfl | hx
          · simp [hy]
          · exact ih (by simpa using h) hx

/-- A removal at rest leaves nothing of the registration. -/
theorem gone_of_removal {f : NotifyFamily} {id : UInt64} (hok : AtRest s (.remove f id))
    (h : s.step (.remove f id) = some t) : t.Gone f id := by
  cases h
  refine ⟨fun e he hid => ?_, hok.2⟩
  simp only [NotifyState.removeEntry, if_true] at he
  exact not_of_mem_eraseP hok.1 he (decide_eq_true hid)

/-- What was removed, and not registered again, is gone. -/
theorem gone_of_since {l : List (Transition (NotifyState φ δ) (NotifyAction φ δ))}
    (h : Trace NotifyState.step AtRest {} l t) {f : NotifyFamily} {id : UInt64}
    (hs : Since (RemovedNow f id) (AddedNow f id) l) : t.Gone f id := by
  induction h with
  | refl => exact absurd hs not_since_nil
  | tail a _ hok hst ih =>
      rcases since_snoc.1 hs with hnow | ⟨hsince, hnot⟩
      · cases a with
        | remove g id' =>
            obtain ⟨rfl, rfl⟩ : g = f ∧ id' = id := hnow
            exact gone_of_removal hok hst
        | nextId | add | raise | post | complete | completeAfter | drain | run => exact hnow.elim
      · refine (ih hsince).step hst fun fn clientData scope ha => hnot ?_
        rw [AddedNow, ha]
        exact ⟨rfl, rfl⟩

/-- **No callback after removal**, in every run whose removals all find the callback at rest. -/
theorem no_callback_after_removal {l : List (Transition (NotifyState φ δ) (NotifyAction φ δ))}
    (h : Trace NotifyState.step AtRest {} l t) : NoCallbackAfterRemoval l := by
  intro before x after heq f id hcall hsince
  obtain ⟨htr, _⟩ := h.forall_mem heq
  exact (gone_of_since htr hsince).noCopy (NotifyState.invoked_copies hcall)

/-- A connection-request callback is registered, called for one event, and removed at rest. -/
def removedAtRest : List (NotifyAction ℕ ℕ) :=
  [.nextId, .add .connectionRequest 1 7 0 [], .raise .connectionRequest (str "S") 1, .post 0,
    .drain 0, .run 0,
    .remove .connectionRequest 1, .raise .connectionRequest (str "S") 1, .drain 16000000]

/-- The callback removed at rest is not called again. -/
theorem no_callback_after_removal_sample :
    NoCallbackAfterRemoval (transitions NotifyState.step {} removedAtRest) := by
  have hrun : (execIf NotifyState.step (fun s a => decide (AtRest s a)) {}
      removedAtRest).isSome = true := by
    decide
  obtain ⟨t, ht⟩ := Option.isSome_iff_exists.1 hrun
  exact no_callback_after_removal (Trace.of_execIf (fun _ _ => of_decide_eq_true) ht)

/-- The receive thread posts a connection request, the game removes the callback, and a drain takes
the closure. -/
def removedInFlight : List (NotifyAction ℕ ℕ) :=
  [.nextId, .add .connectionRequest 1 7 0 [], .raise .connectionRequest (str "S") 1, .post 0,
    .remove .connectionRequest 1, .drain 0]

/-- After that run the drain calls the removed callback. -/
theorem not_no_callback_after_removal :
    ¬ ∀ (l : List (Transition (NotifyState ℕ ℕ) (NotifyAction ℕ ℕ))) t,
    Trace NotifyState.step Always {} l t → NoCallbackAfterRemoval l := by
  intro h
  have hrun : (exec NotifyState.step {} removedInFlight).map (fun s =>
      (s.invoked (.run 0), (s.step (.run 0)).isSome)) = some (some (.connectionRequest, 1),
          true) := by decide
  obtain ⟨s, hs, heq⟩ := Option.map_eq_some_iff.1 hrun
  obtain ⟨hcall, hsome⟩ := Prod.ext_iff.1 heq
  obtain ⟨t, ht⟩ := Option.isSome_iff_exists.1 hsome
  have hsince : Since (RemovedNow .connectionRequest 1) (AddedNow .connectionRequest 1)
      (transitions NotifyState.step {} removedInFlight) := by decide
  exact h _ t (.tail (.run 0) (Trace.of_exec hs) trivial ht) _ _ [] rfl _ _ hcall hsince

end

end EOSEmu
