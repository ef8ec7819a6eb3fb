import EOSEmu.Core.Dispatch
import EOSEmu.Lib.Trace

/-!
# What the dispatcher runs, and when

`Post` and `PostAfter` may come at any time, also from a closure that a drain runs; `Drain` takes
the ready closures under the lock and runs them outside it, one after the other. The states below
are those between the locked sections. Everything posted is in one of four places
(`Accounts.perm`): it has run, the drain in progress has still to run it, or it waits in one of the
two queues.
-/

namespace EOSEmu

open Lib

/-- A closure, named by its place in the order of the posts; a delayed one has a time it is due.
What it does when it runs are the posts that follow. -/
structure Task where
  number : ℕ
  due : Option TimePoint := none
  deriving DecidableEq, Repr

namespace Task

/-- Whether a closure was queued by `Post`. -/
def immediate (task : Task) : Bool := task.due.isNone

/-- Whether a drain that starts at a time takes the closure. -/
def Ready (task : Task) (now : TimePoint) : Prop := ∀ due, task.due = some due → due ≤ now

end Task

/-- The dispatcher, the number of posts so far, the clock, and what the drain in progress has still
to run. -/
structure DispatchState where
  dispatcher : Dispatcher Task := {}
  posted : ℕ := 0
  clock : TimePoint
  running : Option (List Task) := none

/-- The locked sections, the closures of a drain, its end, and the passing of time. -/
inductive DispatchAction
  | post
  | postAfter (delayMs : ℕ)
  | drain
  | run
  | finish
  | pass (elapsed : ℕ)
  deriving DecidableEq, Repr

namespace DispatchState

/-- One step. A drain is not started within a drain. -/
def step (s : DispatchState) : DispatchAction → Option DispatchState
  | .post => some { s with dispatcher := s.dispatcher.post ⟨s.posted, none⟩, posted := s.posted + 1
    }
  | .postAfter delayMs => some { s with
      dispatcher := s.dispatcher.postAfter s.clock delayMs
        ⟨s.posted, some (s.clock + milliseconds delayMs)⟩
      posted := s.posted + 1 }
  | .drain => match s.running with
      | none =>
          some { s with
            dispatcher := (s.dispatcher.drain s.clock).2
            running := some (s.dispatcher.drain s.clock).1 }
      | some _ => none
  | .run => match s.running with
      | some (_ :: rest) => some { s with running := some rest }
      | _ => none
  | .finish => match s.running with
      | some [] => some { s with running := none }
      | _ => none
  | .pass elapsed => some { s with clock := s.clock + elapsed }

/-- The closures the drain in progress has still to run. -/
def remaining (s : DispatchState) : List Task := s.running.getD []

/-- The closure a step posts. -/
def postedBy (x : Transition DispatchState DispatchAction) : Option Task :=
  match x.action with
  | .post => some ⟨x.pre.posted, none⟩
  | .postAfter delayMs => some ⟨x.pre.posted, some (x.pre.clock + milliseconds delayMs)⟩
  | _ => none

/-- The closure a step runs. -/
def ranBy (x : Transition DispatchState DispatchAction) : Option Task :=
  match x.action with
  | .run => x.pre.remaining.head?
  | _ => none

/-- The closures posted, in order. -/
def posts (l : List (Transition DispatchState DispatchAction)) : List Task := l.filterMap postedBy

/-- The closures that ran, in order. -/
def runs (l : List (Transition DispatchState DispatchAction)) : List Task := l.filterMap ranBy

variable {l : List (Transition DispatchState DispatchAction)} {s s' t : DispatchState}
  {a : DispatchAction} {x : Transition DispatchState DispatchAction} {start : TimePoint}

/-- The closures posted after one more step. -/
theorem posts_snoc : posts (l ++ [x]) = posts l ++ (postedBy x).toList := by
  rw [posts, List.filterMap_append, posts]
  cases h : postedBy x <;> simp [h]

/-- The closures run after one more step. -/
theorem runs_snoc : runs (l ++ [x]) = runs l ++ (ranBy x).toList := by
  rw [runs, List.filterMap_append, runs]
  cases h : ranBy x <;> simp [h]

/-- What a step does: it posts a closure into a queue, takes the ready ones, runs the first of
them, ends the drain, or lets time pass. -/
inductive Moves (s s' : DispatchState) : DispatchAction → Option Task → Option Task → Prop
  | post : s' = { s with dispatcher := s.dispatcher.post ⟨s.posted, none⟩, posted := s.posted + 1
      } → Moves s s' .post (some ⟨s.posted, none⟩) none
  | postAfter (delayMs : ℕ) (due : TimePoint) : due = s.clock + milliseconds delayMs →
      s' = { s with dispatcher := { s.dispatcher with delayed := s.dispatcher.delayed ++
        [(due, ⟨s.posted, some due⟩)] }
                    posted := s.posted + 1 } →
      Moves s s' (.postAfter delayMs) (some ⟨s.posted, some due⟩) none
  | drain : s.running = none →
      s' = { s with
        dispatcher := (s.dispatcher.drain s.clock).2
        running := some (s.dispatcher.drain s.clock).1 } →
      Moves s s' .drain none none
  | run (task : Task) (rest : List Task) : s.running = some (task :: rest) →
      s' = { s with running := some rest } → Moves s s' .run none (some task)
  | finish : s.running = some [] → s' = { s with running := none } → Moves s s' .finish none none
  | pass (elapsed : ℕ) : s' = { s with clock := s.clock + elapsed } → Moves s s'
      (.pass elapsed) none none

/-- Every step is one of `Moves`. -/
theorem moves_of_step (h : s.step a = some s') :
    Moves s s' a (postedBy ⟨s, a, s'⟩) (ranBy ⟨s, a, s'⟩) := by
  cases a with
  | post => exact .post (Option.some.inj h).symm
  | postAfter delayMs => exact .postAfter delayMs _ rfl (Option.some.inj h).symm
  | drain =>
      cases hr : s.running with
      | none =>
          simp only [step, hr] at h
          exact .drain hr (Option.some.inj h).symm
      | some _ => simp [step, hr] at h
  | run =>
      cases hr : s.running with
      | none => simp [step, hr] at h
      | some tasks =>
          cases tasks with
          | nil => simp [step, hr] at h
          | cons task rest =>
              simp only [step, hr] at h
              have hran : ranBy ⟨s, .run, s'⟩ = some task := by simp [ranBy, remaining, hr]
              rw [hran]
              exact .run task rest hr (Option.some.inj h).symm
  | finish =>
      cases hr : s.running with
      | none => simp [step, hr] at h
      | some tasks =>
          cases tasks with
          | nil =>
              simp only [step, hr] at h
              exact .finish hr (Option.some.inj h).symm
          | cons _ _ => simp [step, hr] at h
  | pass elapsed => exact .pass elapsed (Option.some.inj h).symm

/-- No move turns the clock back. -/
theorem clock_le_of_moves {posted ran : Option Task} (h : Moves s s' a posted ran) :
    s.clock ≤ s'.clock := by
  cases h with
  | post heq | postAfter _ _ _ heq | drain _ heq | run _ _ _ heq | finish _ heq =>
      subst heq
      exact Int.le_refl _
  | pass elapsed heq =>
      subst heq
      exact Int.le_add_of_nonneg_right (Int.natCast_nonneg elapsed)

/-- A posted closure waits in a queue. -/
theorem mem_tasks_of_moves {task : Task} {ran : Option Task} (h : Moves s s' a (some task) ran) :
    task ∈ s'.dispatcher.tasks := by
  cases h with
  | post heq =>
      rw [heq]
      exact Dispatcher.mem_tasks_post.2 (.inr rfl)
  | postAfter delayMs due _ heq =>
      rw [heq]
      simp [Dispatcher.tasks]

/-! ## Where every closure is -/

/-- The closures that have not run. -/
def waiting (s : DispatchState) : List Task := s.remaining ++ s.dispatcher.tasks

/-- A step puts the closure it posts among the waiting ones, and takes the one it runs from
them. -/
theorem waiting_step {posted ran : Option Task} (h : Moves s s' a posted ran) :
    (s.waiting ++ posted.toList).Perm (ran.toList ++ s'.waiting) := by
  cases h with
  | post heq =>
      subst heq
      rw [waiting, List.append_assoc]
      exact (Dispatcher.tasks_post _).symm.append_left s.remaining
  | postAfter delayMs due hdue heq =>
      subst heq
      simp [waiting, remaining, Dispatcher.tasks]
  | drain hrun heq =>
      subst heq
      have hperm := Dispatcher.tasks_drain (d := s.dispatcher) s.clock
      simpa [waiting, remaining, hrun] using hperm.symm
  | run task rest hrun heq =>
      subst heq
      simp [waiting, remaining, hrun]
  | finish hrun heq =>
      subst heq
      simp [waiting, remaining, hrun]
  | pass elapsed heq =>
      subst heq
      simp [waiting, remaining]

/-- Everything posted has run or waits: to be run by the drain in progress, or in one of the
queues. The immediate closures stand in the order of their posts across the three places. -/
structure Accounts (l : List (Transition DispatchState DispatchAction)) (s : DispatchState) :
    Prop where
  numbers : (posts l).map Task.number = List.range s.posted
  perm : (posts l).Perm (runs l ++ s.waiting)
  ordered : (posts l).filter Task.immediate = (runs l ++ s.remaining).filter Task.immediate ++
    s.dispatcher.pending
  pending : ∀ task ∈ s.dispatcher.pending, task.immediate = true
  delayed : ∀ e ∈ s.dispatcher.delayed, e.2.due = some e.1

/-- The immediate closures a drain takes are the pending ones. -/
theorem filter_drain (hpending : ∀ task ∈ s.dispatcher.pending, task.immediate = true)
    (hdelayed : ∀ e ∈ s.dispatcher.delayed, e.2.due = some e.1) :
    (s.dispatcher.drain s.clock).1.filter Task.immediate = s.dispatcher.pending := by
  have hnone : ((s.dispatcher.delayed.filter fun t => t.1 ≤ s.clock).map
    Prod.snd).filter Task.immediate = [] := by
    rw [List.filter_eq_nil_iff]
    intro task htask
    obtain ⟨e, he, rfl⟩ := List.mem_map.1 htask
    simp [Task.immediate, hdelayed e (List.mem_of_mem_filter he)]
  rw [Dispatcher.drain, List.filter_append, hnone, List.append_nil, List.filter_eq_self.2 hpending]

/-- A step keeps the accounts of the closures. -/
theorem Accounts.step (h : Accounts l s) (hstep : s.step a = some s') :
    Accounts (l ++ [⟨s, a, s'⟩]) s' := by
  have hmoves := moves_of_step hstep
  have hposts := posts_snoc (l := l) (x := ⟨s, a, s'⟩)
  have hruns := runs_snoc (l := l) (x := ⟨s, a, s'⟩)
  have hordered := h.ordered
  generalize postedBy ⟨s, a, s'⟩ = posted at hmoves hposts
  generalize ranBy ⟨s, a, s'⟩ = ran at hmoves hruns
  have hperm : (posts l ++ posted.toList).Perm (runs l ++ ran.toList ++ s'.waiting) := by
    rw [List.append_assoc]
    refine ((h.perm.append_right _).trans ?_).trans ((waiting_step hmoves).append_left (runs l))
    rw [List.append_assoc]
  rw [← hposts, ← hruns] at hperm
  rw [List.filter_append] at hordered
  cases hmoves with
  | post heq =>
      subst heq
      refine ⟨?_, hperm, ?_, ?_, h.delayed⟩
      · rw [hposts, List.map_append, h.numbers, List.range_succ]
        rfl
      · rw [hposts, hruns, List.filter_append, hordered]
        simp [Dispatcher.post, Task.immediate, remaining]
      · intro task htask
        rcases List.mem_append.1 htask with htask | htask
        · exact h.pending task htask
        · rw [List.mem_singleton.1 htask]
          rfl
  | postAfter delayMs due hdue heq =>
      subst heq
      refine ⟨?_, hperm, ?_, h.pending, ?_⟩
      · rw [hposts, List.map_append, h.numbers, List.range_succ]
        rfl
      · rw [hposts, hruns, List.filter_append, hordered]
        simp [Task.immediate, remaining]
      · intro e he
        rcases List.mem_append.1 he with he | he
        · exact h.delayed e he
        · rw [List.mem_singleton.1 he]
  | drain hrun heq =>
      subst heq
      refine ⟨?_, hperm, ?_, by rintro _ ⟨⟩, fun e he => h.delayed e (List.mem_of_mem_filter he)⟩
      · rw [hposts]
        simpa using h.numbers
      · have hready := filter_drain h.pending h.delayed
        have hleft : (s.dispatcher.drain s.clock).2.pending = [] := rfl
        rw [hposts, hruns]
        simp [hordered, remaining, hrun, hready, hleft]
  | run task rest hrun heq =>
      subst heq
      refine ⟨?_, hperm, ?_, h.pending, h.delayed⟩
      · rw [hposts]
        simpa using h.numbers
      · rw [hposts, hruns]
        simp [hordered, remaining, hrun]
  | finish hrun heq =>
      subst heq
      refine ⟨?_, hperm, ?_, h.pending, h.delayed⟩
      · rw [hposts]
        simpa using h.numbers
      · rw [hposts, hruns]
        simp [hordered, remaining, hrun]
  | pass elapsed heq =>
      subst heq
      refine ⟨?_, hperm, ?_, h.pending, h.delayed⟩
      · rw [hposts]
        simpa using h.numbers
      · rw [hposts, hruns]
        simp [hordered, remaining]

/-- The accounts hold in every run. -/
theorem accounts_of_trace (h : Trace step Always ⟨{}, 0, start, none⟩ l t) : Accounts l t := by
  refine h.invariant ⟨rfl, List.Perm.refl _, rfl, nofun, nofun⟩ ?_
  intro l u v a _ hu _ hstep
  exact hu.step hstep

/-- What ran and what waits are different closures. -/
theorem Accounts.nodup (h : Accounts l s) : ((runs l ++ s.waiting).map Task.number).Nodup := by
  have hperm := h.perm.map Task.number
  rw [h.numbers] at hperm
  exact hperm.nodup_iff.1 List.nodup_range

/-! ## One drain -/

/-- A step that starts a drain. -/
def StartsDrain (x : Transition DispatchState DispatchAction) : Prop := x.action = .drain

/-- A step that starts a drain which takes the closure if it waits. -/
def Takes (task : Task) (x : Transition DispatchState DispatchAction) : Prop :=
  x.action = .drain ∧ task.Ready x.pre.clock

/-- Only the start of a drain adds to what a drain has to run. -/
theorem remaining_step (hstep : s.step a = some s') (ha : a ≠ .drain) :
    s.remaining = (ranBy ⟨s, a, s'⟩).toList ++ s'.remaining := by
  have hmoves := moves_of_step hstep
  generalize postedBy ⟨s, a, s'⟩ = posted at hmoves
  generalize ranBy ⟨s, a, s'⟩ = ran at hmoves ⊢
  cases hmoves with
  | drain => exact absurd rfl ha
  | post heq | postAfter _ _ _ heq | pass _ heq =>
      subst heq
      simp [remaining]
  | run task rest hrun heq | finish hrun heq =>
      subst heq
      simp [remaining, hrun]

/-- While a drain is in progress, no other starts. -/
theorem not_drain_of_remaining (hstep : s.step a = some s') {task : Task}
    (htask : task ∈ s.remaining) : a ≠ .drain := by
  rintro rfl
  cases hr : s.running with
  | none => simp [remaining, hr] at htask
  | some _ => simp [step, hr] at hstep

/-- What a drain has to run is run, or the drain has still to run it. -/
theorem ran_or_remaining {task : Task} (h : Trace step Always s l t) (htask : task ∈ s.remaining) :
    task ∈ runs l ∨ task ∈ t.remaining := by
  refine h.invariant (P := fun l t => task ∈ runs l ∨ task ∈ t.remaining) (.inr htask) ?_
  intro l u v a _ hu _ hstep
  rw [runs_snoc, List.mem_append]
  rcases hu with hu | hu
  · exact .inl (.inl hu)
  · rw [remaining_step hstep (not_drain_of_remaining hstep hu), List.mem_append] at hu
    rcases hu with hu | hu
    · exact .inl (.inr hu)
    · exact .inr hu

/-- Without a drain starting, what is not to be run stays so. -/
theorem not_remaining_of_no_drain {task : Task} (h : Trace step Always s l t)
    (hno : ∀ x ∈ l, x.action ≠ .drain) (htask : task ∉ s.remaining) : task ∉ t.remaining := by
  induction h with
  | refl => exact htask
  | @tail l u v a hl _ hstep ih =>
      have hkeep := remaining_step hstep (hno ⟨u, a, v⟩ (by simp))
      intro hmem
      refine ih (fun x hx => hno x (by simp [hx])) ?_
      rw [hkeep]
      exact List.mem_append_right _ hmem

/-- The drain that has still to run a closure was started when it was ready. -/
def StartedReady (l : List (Transition DispatchState DispatchAction)) (s : DispatchState) : Prop :=
  ∀ task ∈ s.remaining, Since (Takes task) StartsDrain l ∧ task.Ready s.clock

/-- What a drain takes is ready. -/
theorem ready_of_mem_drain (h : Accounts l s) {task : Task}
    (htask : task ∈ (s.dispatcher.drain s.clock).1) : task.Ready s.clock := by
  intro due hdue
  rcases List.mem_append.1 htask with htask | htask
  · have himm := h.pending task htask
    rw [Task.immediate, hdue] at himm
    cases himm
  · obtain ⟨e, he, rfl⟩ := List.mem_map.1 htask
    obtain ⟨hmem, hle⟩ := List.mem_filter.1 he
    rw [h.delayed e hmem] at hdue
    cases hdue
    exact of_decide_eq_true hle

/-- A drain takes every ready closure that waits in a queue. -/
theorem mem_drain_of_ready (h : Accounts l s) {task : Task} (htask : task ∈ s.dispatcher.tasks)
    (hready : task.Ready s.clock) : task ∈ (s.dispatcher.drain s.clock).1 := by
  rcases List.mem_append.1 htask with htask | htask
  · exact List.mem_append_left _ htask
  · obtain ⟨e, he, rfl⟩ := List.mem_map.1 htask
    have hle : e.1 ≤ s.clock := hready e.1 (h.delayed e he)
    exact List.mem_append_right _ (List.mem_map.2
      ⟨e, List.mem_filter.2 ⟨he, decide_eq_true hle⟩, rfl⟩)

/-- A step keeps the started closures ready. -/
theorem StartedReady.step (hacc : Accounts l s) (h : StartedReady l s)
    (hstep : s.step a = some s') : StartedReady (l ++ [⟨s, a, s'⟩]) s' := by
  have hclock := clock_le_of_moves (moves_of_step hstep)
  intro task htask
  by_cases ha : a = .drain
  · subst ha
    cases hr : s.running with
    | some _ => simp [DispatchState.step, hr] at hstep
    | none =>
        simp only [DispatchState.step, hr, Option.some.injEq] at hstep
        subst hstep
        have hready := ready_of_mem_drain hacc htask
        exact ⟨.now ⟨rfl, hready⟩, hready⟩
  · have hmem : task ∈ s.remaining := by
      rw [remaining_step hstep ha]
      exact List.mem_append_right _ htask
    obtain ⟨hsince, hready⟩ := h task hmem
    exact ⟨hsince.later ha, fun due hdue => Int.le_trans (hready due hdue) hclock⟩

/-- They are ready in every run. -/
theorem startedReady_of_trace (h : Trace step Always ⟨{}, 0, start, none⟩ l t) :
    StartedReady l t := by
  refine h.invariant (P := StartedReady) nofun ?_
  intro l u v a hl hu _ hstep
  exact hu.step (accounts_of_trace hl) hstep

/-- Only what a drain has taken runs. -/
theorem mem_remaining_of_ranBy {task : Task} (h : ranBy x = some task) :
    task ∈ x.pre.remaining := by
  unfold ranBy at h
  split at h
  · exact List.mem_of_mem_head? h
  · cases h

/-- No closure runs twice. The immediate ones run in the order they were posted. What was posted
before a drain started, and was ready then, has run when the drain ends. Between the post of a
closure and its run a drain starts. A closure runs in a drain that started when it was ready, so a
delayed one is not run before it is due. -/
theorem dispatcher_runs (h : Trace step Always ⟨{}, 0, start, none⟩ l t) :
    ((runs l).map Task.number).Nodup ∧
    (runs l).filter Task.immediate <+: (posts l).filter Task.immediate ∧
    (∀ before x mid y after, l = before ++ x :: (mid ++ y :: after) → x.action = .drain →
    y.action = .finish →
      ∀ task ∈ posts before, task.Ready x.pre.clock → task ∈ runs (before ++ x :: mid)) ∧
    (∀ before x mid y after task, l = before ++ x :: (mid ++ y :: after) → postedBy x = some task →
      ranBy y = some task → ∃ z ∈ mid, StartsDrain z) ∧
    ∀ before y after task, l = before ++ y :: after → ranBy y = some task →
      task ∈ posts before ∧ Since (Takes task) StartsDrain before ∧ task.Ready y.pre.clock := by
  have hacc := accounts_of_trace h
  refine ⟨?_, ?_, ?_, ?_, ?_⟩
  · have hnodup := hacc.nodup
    rw [List.map_append] at hnodup
    exact hnodup.of_append_left
  · rw [hacc.ordered, List.filter_append, List.append_assoc]
    exact List.prefix_append _ _
  · intro before x mid y after heq hx hy task htask hready
    obtain ⟨hbefore, _, hstep⟩ := h.forall_mem heq
    obtain ⟨hmid, _, hfinish⟩ := (h.after heq).forall_mem rfl
    rw [hx] at hstep
    rw [hy] at hfinish
    have haccx := accounts_of_trace hbefore
    have hdone : y.pre.remaining = [] := by
      cases hr : y.pre.running with
      | none => simp [step, hr] at hfinish
      | some tasks =>
          cases tasks with
          | nil => simp [remaining, hr]
          | cons _ _ => simp [step, hr] at hfinish
    have hplaces : task ∈ runs before ∨ task ∈ x.post.remaining := by
      cases hr : x.pre.running with
      | some _ => simp [step, hr] at hstep
      | none =>
          simp only [step, hr, Option.some.injEq] at hstep
          have hmem := haccx.perm.mem_iff.1 htask
          rw [List.mem_append, waiting, remaining, hr] at hmem
          rcases hmem with hmem | hmem
          · exact .inl hmem
          · refine .inr ?_
            rw [← hstep]
            exact mem_drain_of_ready haccx hmem hready
    rw [runs, List.filterMap_append, List.mem_append]
    rcases hplaces with hran | hrem
    · exact .inl hran
    · rcases ran_or_remaining hmid hrem with hran | hrem
      · refine .inr ?_
        rw [List.filterMap_cons]
        split
        · exact hran
        · exact List.mem_cons_of_mem _ hran
      · rw [hdone] at hrem
        cases hrem
  · intro before x mid y after task heq hpost hran
    by_contra hno
    simp only [StartsDrain, not_exists, not_and] at hno
    obtain ⟨hbefore, _, hstep⟩ := h.forall_mem heq
    obtain ⟨hmid, _, _⟩ := (h.after heq).forall_mem rfl
    have haccx := (accounts_of_trace hbefore).step hstep
    have hmoves := moves_of_step hstep
    rw [hpost] at hmoves
    -- the closure waits in a queue, so the drain in progress does not run it
    have hqueued := mem_tasks_of_moves hmoves
    have hnot : task ∉ x.post.remaining := by
      intro hmem
      have hnodup := haccx.nodup
      rw [List.map_append, waiting, List.map_append] at hnodup
      have hdisj := List.disjoint_of_nodup_append hnodup.of_append_right
      exact hdisj (List.mem_map_of_mem hmem) (List.mem_map_of_mem hqueued)
    exact not_remaining_of_no_drain hmid hno hnot (mem_remaining_of_ranBy hran)
  · intro before y after task heq hran
    obtain ⟨hbefore, _, _⟩ := h.forall_mem heq
    have hmem := mem_remaining_of_ranBy hran
    obtain ⟨hsince, hready⟩ := startedReady_of_trace hbefore task hmem
    have hposted := (accounts_of_trace hbefore).perm.mem_iff.2
      (List.mem_append_right _ (List.mem_append_left _ hmem))
    exact ⟨hposted, hsince, hready⟩

/-- A closure posts another one while a drain runs it; a third is due after ten milliseconds. -/
def sampleDrains : List DispatchAction :=
  [.post, .postAfter 10, .drain, .run, .post, .finish, .pass 10000000, .drain, .run, .run, .finish]

/-- The second drain runs what the first one left. -/
theorem dispatcher_runs_sample :
    ∃ l t, Trace step Always ⟨{}, 0, 0, none⟩ l t ∧ (runs l).map Task.number = [0, 2, 1] ∧
    ((runs l).map Task.number).Nodup := by
  have hex : (exec step ⟨{}, 0, 0, none⟩ sampleDrains).isSome = true := by decide
  obtain ⟨t, ht⟩ := Option.isSome_iff_exists.1 hex
  have htrace := Trace.of_exec ht
  exact ⟨_, t, htrace, by decide, (dispatcher_runs htrace).1⟩

end DispatchState

end EOSEmu
