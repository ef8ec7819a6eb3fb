import EOSEmu.Sdk

/-!
# The dispatcher

`Dispatcher` of `core/Dispatch.h`: closures wait in `Pending_`, or in `Delayed_` until they are
due, and `Drain` takes all of them at once. What a closure does is up to the type `τ` of tasks.
-/

namespace EOSEmu

/-- `Dispatcher`. -/
structure Dispatcher (τ : Type) where
  pending : List τ := []
  delayed : List (TimePoint × τ) := []

namespace Dispatcher
variable {τ : Type} (d : Dispatcher τ)

/-- `Dispatcher::Post`. -/
def post (work : τ) : Dispatcher τ := { d with pending := d.pending ++ [work] }

/-- `Dispatcher::PostAfter`, called at `now`. -/
def postAfter (now : TimePoint) (delayMs : ℕ) (work : τ) : Dispatcher τ :=
  { d with delayed := d.delayed ++ [(now + milliseconds delayMs, work)] }

/-- The locked part of `Dispatcher::Drain` at `now`: the closures it goes on to run, and what
stays. -/
def drain (now : TimePoint) : List τ × Dispatcher τ :=
  (d.pending ++ (d.delayed.filter fun t => t.1 ≤ now).map Prod.snd,
    { pending := [], delayed := d.delayed.filter fun t => ¬ t.1 ≤ now })

/-- The closures that wait. -/
def tasks : List τ := d.pending ++ d.delayed.map Prod.snd

variable {d}

/-- A posted closure waits with the others. -/
theorem mem_tasks_post {work t : τ} : t ∈ (d.post work).tasks ↔ t ∈ d.tasks ∨ t = work := by
  simp only [tasks, post, List.mem_append, List.mem_singleton]
  tauto

/-- A delayed closure comes last. -/
theorem tasks_postAfter (now : TimePoint) (delayMs : ℕ) (work : τ) :
    (d.postAfter now delayMs work).tasks = d.tasks ++ [work] := by
  simp [tasks, postAfter]

/-- A delayed closure waits with the others. -/
theorem mem_tasks_postAfter {now : TimePoint} {delayMs : ℕ} {work t : τ} :
    t ∈ (d.postAfter now delayMs work).tasks ↔ t ∈ d.tasks ∨ t = work := by
  rw [tasks_postAfter, List.mem_append, List.mem_singleton]

/-- Posting adds a closure, and keeps the others. -/
theorem tasks_post (work : τ) : (d.post work).tasks.Perm (d.tasks ++ [work]) := by
  rw [tasks, tasks, post, List.append_assoc, List.append_assoc]
  exact List.perm_append_comm.append_left d.pending

/-- A drain keeps every closure it does not take. -/
theorem tasks_drain (now : TimePoint) :
    ((d.drain now).1 ++ (d.drain now).2.tasks).Perm d.tasks := by
  have hsplit : (d.delayed.filter (fun t => t.1 ≤ now) ++ d.delayed.filter fun t => ¬ t.1 ≤
    now).Perm d.delayed := by
    have h := List.filter_append_perm (fun t : TimePoint × τ => decide (t.1 ≤ now)) d.delayed
    simpa only [decide_not] using h
  rw [tasks, tasks, drain, List.nil_append, List.append_assoc, ← List.map_append]
  exact (hsplit.map Prod.snd).append_left d.pending

/-- A drain loses no closure and invents none. -/
theorem mem_drain {now : TimePoint} {t : τ} :
    t ∈ (d.drain now).1 ∨ t ∈ (d.drain now).2.tasks ↔ t ∈ d.tasks := by
  rw [← List.mem_append]
  exact (tasks_drain now).mem_iff

end Dispatcher

end EOSEmu
