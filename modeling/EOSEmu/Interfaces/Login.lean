import EOSEmu.Core.Dispatch
import EOSEmu.Lib.Conveyor
import EOSEmu.Lib.Switch

/-!
# Logging in and out

`AuthInterface` and `ConnectInterface` (`Auth.cpp`, `Connect.cpp`) keep whether the local user is
logged in. A call changes that at once, and posts a closure that calls the game back in a later
tick, takes a snapshot of the handlers and tells them of the change. Callbacks and handlers may
call the interface again, so a tick takes one step at a time here; ticks inside of ticks are left
out. Nothing that was posted is lost, repeated or overtaken, and where every login has a callback
the changes tell the status (`logins_told`).
-/

namespace EOSEmu

open Lib

/-- `EOS_ELoginStatus`. -/
inductive ELoginStatus where
  | notLoggedIn
  | usingLocalProfile
  | loggedIn
  deriving DecidableEq, Repr

/-- The two interfaces. -/
inductive LoginKind where
  | auth
  | connect
  deriving DecidableEq, Repr

/-- The calls; `CreateUser` is Connect's alone. -/
inductive LoginCall where
  | login
  | logout
  | createUser
  deriving DecidableEq, Repr

/-- What a handler is told. -/
structure StatusChange where
  previous : ELoginStatus
  current : ELoginStatus
  deriving DecidableEq, Repr

/-- The user logs in, or out. -/
def StatusChange.turn (on : Bool) : StatusChange :=
  if on then ⟨.notLoggedIn, .loggedIn⟩ else ⟨.loggedIn, .notLoggedIn⟩

/-- What a closure does: calls back, if the game gave a callback, and tells of a change, if there
was one. -/
structure LoginTask where
  call : LoginCall
  callback : Bool
  change : Option StatusChange
  deriving DecidableEq, Repr

/-- Where a tick is with the closure it runs. -/
inductive LoginStage where
  | idle
  /-- The callback has returned. -/
  | changed (c : StatusChange)
  /-- The snapshot is taken, and these handlers are still to be told. -/
  | telling (c : StatusChange) (ids : List UInt64)

/-- An interface and the closures it has posted; `running` are those that the tick has drained. -/
structure LoginInterface where
  kind : LoginKind
  loggedIn : Bool := false
  dispatch : Dispatcher LoginTask := {}
  running : List LoginTask := []
  stage : LoginStage := .idle
  handlers : List UInt64 := []

/-- What happens. -/
inductive LoginAction where
  | call (c : LoginCall) (callback : Bool)
  | addNotify (id : UInt64)
  | removeNotify (id : UInt64)
  | drain (now : TimePoint)
  | complete
  | snapshot
  | tell

/-- The status after a call. `EOS_Connect_Logout` completes and leaves the user logged in. -/
def LoginKind.after : LoginKind → LoginCall → Bool → Bool
  | _, .login, _ => true
  | _, .createUser, _ => true
  | .auth, .logout, _ => false
  | .connect, .logout, loggedIn => loggedIn

/-- The change that the closure of a call tells. -/
def LoginKind.change : LoginKind → LoginCall → Bool → Option StatusChange
  | _, .login, wasLoggedIn => if wasLoggedIn then none else some ⟨.notLoggedIn, .loggedIn⟩
  | .auth, .logout, wasLoggedIn => if wasLoggedIn then some ⟨.loggedIn, .notLoggedIn⟩ else none
  | _, _, _ => none

/-- Without a callback there is no closure, but for `AuthInterface::Logout`. -/
def LoginKind.posts : LoginKind → LoginCall → Bool → Bool
  | .auth, .logout, _ => true
  | _, _, callback => callback

/-- Auth has no `CreateUser`. -/
def LoginKind.offers : LoginKind → LoginCall → Bool
  | .auth, .createUser => false
  | _, _ => true

namespace LoginInterface
variable (s : LoginInterface)

/-- The closure of a call. -/
def task (c : LoginCall) (callback : Bool) : LoginTask :=
  { call := c, callback, change := s.kind.change c s.loggedIn }

/-- One step. -/
def step : LoginAction → Option LoginInterface
  | .call c callback =>
      if s.kind.offers c then some { s with
        loggedIn := s.kind.after c s.loggedIn
        dispatch := if s.kind.posts c callback then s.dispatch.post (s.task c callback)
          else s.dispatch }
      else none
  | .addNotify id => if id ∈ s.handlers then none else some
    { s with handlers := s.handlers ++ [id] }
  | .removeNotify id => some { s with handlers := s.handlers.erase id }
  | .drain now =>
      match s.running, s.stage with
      | [], .idle => some { s with running := (s.dispatch.drain now).1, dispatch :=
        (s.dispatch.drain now).2 }
      | _, _ => none
  | .complete =>
      match s.running, s.stage with
      | t :: rest, .idle => some { s with
          running := rest
          stage := match t.change with
            | none => .idle
            | some c => .changed c }
      | _, _ => none
  | .snapshot =>
      match s.stage with
      | .changed c => some { s with stage := .telling c s.handlers }
      | _ => none
  | .tell =>
      match s.stage with
      | .telling c (_ :: ids) => some { s with stage := .telling c ids }
      | .telling _ [] => some { s with stage := .idle }
      | _ => none

/-- The closure that a step posts. -/
def postsAt : LoginAction → List LoginTask
  | .call c callback => if s.kind.posts c callback then [s.task c callback] else []
  | _ => []

/-- The closure whose callback a step calls. -/
def completesAt : LoginAction → List LoginTask
  | .complete => s.running.head?.toList
  | _ => []

/-- The change a step takes a snapshot for. -/
def firesAt : LoginAction → List StatusChange
  | .snapshot =>
      match s.stage with
      | .changed c => [c]
      | _ => []
  | _ => []

/-- What a step tells a handler. -/
def tellsAt (id : UInt64) : LoginAction → List StatusChange
  | .tell =>
      match s.stage with
      | .telling c (j :: _) => if j = id then [c] else []
      | _ => []
  | _ => []

/-- The closures that wait. -/
def waiting : List LoginTask := s.running ++ s.dispatch.pending

/-- The change whose snapshot is due. -/
def due : List StatusChange :=
  match s.stage with
  | .changed c => [c]
  | _ => []

/-- The handlers that are still to be told from the last snapshot. -/
def remaining : List UInt64 :=
  match s.stage with
  | .telling _ ids => ids
  | _ => []

/-- What a handler is still to be told from it. -/
def owed (id : UInt64) : List StatusChange :=
  match s.stage with
  | .telling c ids => if id ∈ ids then [c] else []
  | _ => []

end LoginInterface

/-- A transition of an interface. -/
abbrev LoginTransition := Transition LoginInterface LoginAction

section
variable (l : List LoginTransition)

/-- The closures that a run posted. -/
def postedTasks : List LoginTask := l.flatMap fun x => x.pre.postsAt x.action

/-- Those that ran, as far as their callback. -/
def completedTasks : List LoginTask := l.flatMap fun x => x.pre.completesAt x.action

/-- The changes that were told to the handlers of that moment. -/
def firedChanges : List StatusChange := l.flatMap fun x => x.pre.firesAt x.action

/-- Those that were fired while a handler was registered. -/
def firedFor (id : UInt64) : List StatusChange :=
  l.flatMap fun x => if id ∈ x.pre.handlers then x.pre.firesAt x.action else []

/-- What a handler was told. -/
def toldTo (id : UInt64) : List StatusChange := l.flatMap fun x => x.pre.tellsAt id x.action

end

/-! ## One step -/

namespace LoginInterface
variable {s t : LoginInterface} {a : LoginAction}

/-- What every state keeps: nobody is registered, or told, twice, and no closure is delayed. -/
structure Sane (s : LoginInterface) : Prop where
  handlers : s.handlers.Nodup
  remaining : s.remaining.Nodup
  delayed : s.dispatch.delayed = []

/-- What a step does to the closures, to the changes and to the handlers. -/
structure LoginStep (s t : LoginInterface) (a : LoginAction) : Prop where
  sane : t.Sane
  kind : t.kind = s.kind
  tasks : s.waiting ++ s.postsAt a = s.completesAt a ++ t.waiting
  changes : s.due ++ (s.completesAt a).filterMap (·.change) = s.firesAt a ++ t.due
  told : ∀ id, s.owed id ++ (if id ∈ s.handlers then s.firesAt a else []) = s.tellsAt id a ++
    t.owed id

/-- A step outside of the ticks. -/
theorem LoginStep.outside (hsane : t.Sane) (hkind : t.kind = s.kind)
    (hrunning : t.running = s.running) (hstage : t.stage = s.stage)
    (hpending : t.dispatch.pending = s.dispatch.pending ++ s.postsAt a)
    (hcompletes : s.completesAt a = []) (hfires : s.firesAt a = [])
    (htells : ∀ id, s.tellsAt id a = []) : LoginStep s t a where
  sane := hsane
  kind := hkind
  tasks := by rw [waiting, waiting, hcompletes, hrunning, hpending, List.nil_append,
    List.append_assoc]
  changes := by simp [due, hcompletes, hfires, hstage]
  told id := by simp [owed, hfires, htells, hstage]

/-- Every step is one of `LoginStep`. -/
theorem step_login (hs : s.Sane) (h : s.step a = some t) : LoginStep s t a := by
  cases a with
  | call c callback =>
      obtain ⟨_, heq⟩ := Option.ite_none_right_eq_some.1 h
      cases heq
      refine .outside ⟨hs.handlers, hs.remaining, ?_⟩ rfl rfl rfl ?_ rfl rfl fun _ => rfl
      · dsimp only
        split <;> exact hs.delayed
      · unfold postsAt Dispatcher.post
        dsimp only
        split
        · rfl
        · exact (List.append_nil _).symm
  | addNotify id =>
      obtain ⟨hnew, heq⟩ := Option.ite_none_left_eq_some.1 h
      cases heq
      refine .outside ⟨?_, hs.remaining, hs.delayed⟩ rfl rfl rfl (List.append_nil _).symm rfl
        rfl fun _ => rfl
      exact List.nodup_append.2 ⟨hs.handlers, List.nodup_singleton id, fun j hj k hk => by
        rw [List.mem_singleton.1 hk]
        rintro rfl
        exact hnew hj⟩
  | removeNotify id =>
      cases h
      exact .outside ⟨hs.handlers.erase id, hs.remaining, hs.delayed⟩ rfl rfl
        rfl (List.append_nil _).symm rfl rfl fun _ => rfl
  | drain now =>
      simp only [step] at h
      split at h
      · next hrunning hstage =>
          cases h
          refine ⟨⟨hs.handlers, hs.remaining, ?_⟩, rfl, ?_, ?_, fun id => ?_⟩
          · simp [Dispatcher.drain, hs.delayed]
          · simp [waiting, postsAt, completesAt, hrunning, Dispatcher.drain, hs.delayed]
          · simp [due, completesAt, firesAt]
          · simp [owed, firesAt, tellsAt]
      · cases h
  | complete =>
      simp only [step] at h
      split at h
      · next task rest hrunning hstage =>
          cases h
          have hremaining : s.remaining = [] := by simp [remaining, hstage]
          refine ⟨⟨hs.handlers, ?_, hs.delayed⟩, rfl, ?_, ?_, fun id => ?_⟩
          · cases hchange : task.change <;> simp [remaining]
          · simp [waiting, postsAt, completesAt, hrunning]
          · cases hchange : task.change <;> simp [due, completesAt, firesAt, hrunning, hstage,
              hchange]
          · cases hchange : task.change <;> simp [owed, firesAt, tellsAt, hstage]
      · cases h
  | snapshot =>
      simp only [step] at h
      split at h
      · next c hstage =>
          cases h
          refine ⟨⟨hs.handlers, hs.handlers, hs.delayed⟩, rfl, ?_, ?_, fun id => ?_⟩
          · simp [waiting, postsAt, completesAt]
          · simp [due, completesAt, firesAt, hstage]
          · simp [owed, firesAt, tellsAt, hstage]
      · cases h
  | tell =>
      simp only [step] at h
      split at h
      · next c j ids hstage =>
          cases h
          have hnodup : (j :: ids).Nodup := by
            have hremaining := hs.remaining
            rwa [remaining, hstage] at hremaining
          refine ⟨⟨hs.handlers, (List.nodup_cons.1 hnodup).2, hs.delayed⟩, rfl,
            ?_, ?_, fun id => ?_⟩
          · simp [waiting, postsAt, completesAt]
          · simp [due, completesAt, firesAt, hstage]
          · rcases eq_or_ne j id with rfl | hne
            · simp [owed, firesAt, tellsAt, hstage, (List.nodup_cons.1 hnodup).1]
            · simp [owed, firesAt, tellsAt, hstage, hne, hne.symm]
      · next c hstage =>
          cases h
          refine ⟨⟨hs.handlers, List.nodup_nil, hs.delayed⟩, rfl, ?_, ?_, fun id => ?_⟩
          · simp [waiting, postsAt, completesAt]
          · simp [due, completesAt, firesAt, hstage]
          · simp [owed, firesAt, tellsAt, hstage]
      · cases h

/-- The changes that a step posts. -/
def changesAt (s : LoginInterface) (a : LoginAction) : List StatusChange :=
  (s.postsAt a).filterMap (·.change)

/-- Only calls log in or out. -/
theorem step_loggedIn (h : s.step a = some t) (ha : ∀ c callback, a ≠ .call c callback) :
    t.loggedIn = s.loggedIn ∧ s.changesAt a = [] := by
  cases a with
  | call c callback => exact absurd rfl (ha c callback)
  | addNotify id =>
      obtain ⟨_, heq⟩ := Option.ite_none_left_eq_some.1 h
      cases heq
      exact ⟨rfl, rfl⟩
  | removeNotify id =>
      cases h
      exact ⟨rfl, rfl⟩
  | _ =>
      simp only [step] at h
      split at h <;> cases h
      all_goals exact ⟨rfl, rfl⟩

/-- A call is one that the interface offers, and leaves the state it is to leave. -/
theorem step_call {c : LoginCall} {callback : Bool} (h : s.step (.call c callback) = some t) :
    s.kind.offers c = true ∧ t.loggedIn = s.kind.after c s.loggedIn := by
  obtain ⟨hoffers, heq⟩ := Option.ite_none_right_eq_some.1 h
  cases heq
  exact ⟨hoffers, rfl⟩

/-- A call that posts a closure posts its change. -/
theorem changesAt_call {c : LoginCall} {callback : Bool} (hposts : s.kind.posts c callback = true) :
    s.changesAt (.call c callback) = (s.kind.change c s.loggedIn).toList := by
  rw [changesAt, postsAt, if_pos hposts, List.filterMap_cons]
  unfold task
  cases s.kind.change c s.loggedIn <;> rfl

/-- Auth tells each turn of its status, where a login has a callback. -/
theorem step_turn (hkind : s.kind = .auth)
    (hcallback : ∀ callback, a = .call .login callback → callback = true) (h : s.step a = some t) :
    (s.changesAt a = [] ∧ t.loggedIn = s.loggedIn) ∨
      (s.changesAt a = [.turn (!s.loggedIn)] ∧ t.loggedIn = !s.loggedIn) := by
  rcases Classical.em (∃ c callback, a = .call c callback) with ⟨c, callback, rfl⟩ | hother
  · obtain ⟨hoffers, hlogged⟩ := step_call h
    rw [hkind] at hoffers hlogged
    have hposts : s.kind.posts c callback = true := by
      cases c with
      | login => rw [hkind, hcallback callback rfl]; rfl
      | logout => rw [hkind]; rfl
      | createUser => cases hoffers
    rw [changesAt_call hposts, hlogged, hkind]
    cases c with
    | login | logout => cases s.loggedIn <;>
      simp [LoginKind.change, LoginKind.after, StatusChange.turn]
    | createUser => cases hoffers
  · have hsame := step_loggedIn h fun c callback heq => hother ⟨c, callback, heq⟩
    exact .inl hsame.symm

/-- Connect tells of the first login only. -/
theorem step_connect (hkind : s.kind = .connect) (h : s.step a = some t) :
    (t.loggedIn = true ↔ s.loggedIn = true ∨ ∃ c callback, a = .call c callback ∧ c ≠ .logout) ∧
      (s.changesAt a = [] ∨ (s.changesAt a = [.turn true] ∧ s.loggedIn = false ∧
      t.loggedIn = true)) := by
  rcases Classical.em (∃ c callback, a = .call c callback) with ⟨c, callback, rfl⟩ | hother
  · obtain ⟨_, hlogged⟩ := step_call h
    rw [hlogged, hkind]
    constructor
    · cases c <;> simp [LoginKind.after]
    · rcases Bool.eq_false_or_eq_true callback with rfl | rfl
      · rw [changesAt_call (by rw [hkind]; cases c <;> rfl), hkind]
        cases c <;> cases s.loggedIn <;>
          simp [LoginKind.change, LoginKind.after, StatusChange.turn]
      · refine .inl ?_
        rw [changesAt, postsAt, hkind]
        cases c <;> rfl
  · obtain ⟨hsame, hnone⟩ := step_loggedIn h fun c callback heq => hother ⟨c, callback, heq⟩
    refine ⟨?_, .inl hnone⟩
    rw [hsame, or_iff_left]
    rintro ⟨c, callback, heq, _⟩
    exact hother ⟨c, callback, heq⟩

end LoginInterface

/-! ## A run -/

/-- The changes that a run posted. -/
def postedChanges (l : List LoginTransition) : List StatusChange :=
  (postedTasks l).filterMap (·.change)

/-- A call that logs in. -/
def LogsIn (x : LoginTransition) : Prop := ∃ c callback, x.action = .call c callback ∧ c ≠ .logout

/-- What a run tells. -/
structure LoginsTold (l : List LoginTransition) (s : LoginInterface) : Prop where
  /-- What was posted was run, once and in order, or waits. -/
  completes : postedTasks l = completedTasks l ++ s.waiting
  /-- The changes of what was run were told to the handlers of that moment, once and in order, or
  are about to be. -/
  fires : (completedTasks l).filterMap (·.change) = firedChanges l ++ s.due
  /-- So each handler was told what was fired while it was registered, or is about to be. -/
  tells : ∀ id, firedFor l id = toldTo l id ++ s.owed id
  /-- Where every login has a callback, Auth's changes are the turns of its status. -/
  auth : s.kind = .auth → (∀ x ∈ l, ∀ callback, x.action = .call .login callback →
    callback = true) → ∃ turns, Alternates s.loggedIn turns ∧ postedChanges l = turns.map .turn
  /-- Connect logs in for good, and tells that once at most. -/
  connect : s.kind = .connect → (s.loggedIn = true ↔ ∃ x ∈ l, LogsIn x) ∧
    (postedChanges l = [] ∨ (postedChanges l = [.turn true] ∧ s.loggedIn = true))

section
variable {l : List LoginTransition} {s t : LoginInterface} {a : LoginAction}

/-- The changes posted after one more step. -/
theorem postedChanges_snoc (x : LoginTransition) :
    postedChanges (l ++ [x]) = postedChanges l ++ x.pre.changesAt x.action := by
  simp [postedChanges, postedTasks, LoginInterface.changesAt]

/-- Auth, after one more step. -/
theorem LoginsTold.auth_step (h : LoginsTold l s) (hst : s.step a = some t)
    (hkind : t.kind = s.kind) (hauth : t.kind = .auth)
    (hcallback : ∀ x ∈ l ++ [⟨s, a, t⟩], ∀ callback, x.action = .call .login callback →
    callback = true) :
    ∃ turns, Alternates t.loggedIn turns ∧ postedChanges (l ++ [⟨s, a, t⟩]) = turns.map .turn := by
  obtain ⟨turns, halternates, hturns⟩ := h.auth (hkind ▸ hauth) fun x hx =>
    hcallback x (List.mem_append_left _ hx)
  rw [postedChanges_snoc, hturns]
  rcases LoginInterface.step_turn (hkind ▸ hauth) (hcallback ⟨s, a, t⟩ (by simp))
    hst with ⟨hnone, hsame⟩ | ⟨hone, hturn⟩
  · refine ⟨turns, hsame ▸ halternates, ?_⟩
    rw [hnone, List.append_nil]
  · refine ⟨turns ++ [!s.loggedIn], hturn ▸ halternates.turn, ?_⟩
    rw [hone, List.map_append, List.map_singleton]

/-- Connect, after one more step. -/
theorem LoginsTold.connect_step (h : LoginsTold l s) (hst : s.step a = some t)
    (hkind : t.kind = s.kind) (hconnect : t.kind = .connect) :
    (t.loggedIn = true ↔ ∃ x ∈ l ++ [⟨s, a, t⟩], LogsIn x) ∧
      (postedChanges (l ++ [⟨s, a, t⟩]) = [] ∨
        (postedChanges (l ++ [⟨s, a, t⟩]) = [.turn true] ∧ t.loggedIn = true)) := by
  obtain ⟨hlogged, hchanges⟩ := h.connect (hkind ▸ hconnect)
  obtain ⟨hnow, hstep⟩ := LoginInterface.step_connect (hkind ▸ hconnect) hst
  constructor
  · rw [hnow, hlogged]
    constructor
    · rintro (⟨x, hx, hin⟩ | hin)
      · exact ⟨x, List.mem_append_left _ hx, hin⟩
      · exact ⟨⟨s, a, t⟩, by simp, hin⟩
    · rintro ⟨x, hx, hin⟩
      rcases List.mem_append.1 hx with hx | hx
      · exact .inl ⟨x, hx, hin⟩
      · rw [List.mem_singleton.1 hx] at hin
        exact .inr hin
  · have hstays : s.loggedIn = true → t.loggedIn = true := fun hs => hnow.2 (.inl hs)
    rw [postedChanges_snoc]
    rcases hstep with hnone | ⟨hone, hout, hin⟩
    · rw [hnone, List.append_nil]
      exact hchanges.imp_right fun hold => ⟨hold.1, hstays hold.2⟩
    · rcases hchanges with hold | ⟨_, hwas⟩
      · exact .inr ⟨by rw [hold, hone]; rfl, hin⟩
      · cases hout.symm.trans hwas

/-- So every step of a run is one of `LoginStep`. -/
theorem LoginInterface.step_of_run {kind : LoginKind}
    (h : Run LoginInterface.step Always { kind } s) (hst : s.step a = some t) :
    LoginStep s t a := by
  refine step_login (h.invariant ?_ fun s t a hs _ hst => (step_login hs hst).sane) hst
  exact ⟨List.nodup_nil, List.nodup_nil, rfl⟩

/-- The closures and the changes of a run, in their order. -/
theorem conveyed {kind : LoginKind} (h : Trace LoginInterface.step Always { kind } l s) :
    postedTasks l = completedTasks l ++ s.waiting ∧
    (completedTasks l).filterMap (·.change) = firedChanges l ++ s.due ∧
    ∀ id, firedFor l id = toldTo l id ++ s.owed id := by
  have hstep := fun s t a (hs : Run LoginInterface.step Always { kind } s)
      (hst : s.step a = some t) =>
    LoginInterface.step_of_run hs hst
  refine ⟨?_, ?_, fun id => ?_⟩
  · exact h.conveys LoginInterface.postsAt LoginInterface.completesAt LoginInterface.waiting rfl
      fun s t a hs _ hst => (hstep s t a hs hst).tasks
  · rw [completedTasks, List.filterMap_flatMap]
    exact h.conveys (fun s a => (s.completesAt a).filterMap (·.change)) LoginInterface.firesAt
      LoginInterface.due rfl fun s t a hs _ hst => (hstep s t a hs hst).changes
  · exact h.conveys (fun s a => if id ∈ s.handlers then s.firesAt a else [])
      (fun s a => s.tellsAt id a)
      (fun s => s.owed id) rfl fun s t a hs _ hst => (hstep s t a hs hst).told id

/-- **Logins are told.** In every run of the calls, the handlers and the ticks, whatever the game
does in its callbacks: each closure runs once and in the order of the calls, each change is told
once and in order to the handlers registered at its moment, Auth's changes alternate and end at its
status where every login has a callback, and Connect logs in for good. -/
theorem logins_told {kind : LoginKind} (h : Trace LoginInterface.step Always { kind } l s) :
    s.kind = kind ∧ LoginsTold l s := by
  refine h.invariant (P := fun l s => s.kind = kind ∧
    LoginsTold l s) ?_ fun l s t a hl hk hok hst => ?_
  · refine ⟨rfl, rfl, rfl, fun _ => rfl, fun _ _ => ⟨[], .nil, rfl⟩, fun _ => ?_⟩
    exact ⟨by simp, .inl rfl⟩
  · obtain ⟨hkind, htold⟩ := hk
    have hstep := LoginInterface.step_of_run hl.run hst
    obtain ⟨hcompletes, hfires, htells⟩ := conveyed (.tail a hl hok hst)
    exact ⟨hstep.kind.trans hkind, hcompletes, hfires, htells, htold.auth_step hst hstep.kind,
      htold.connect_step hst hstep.kind⟩

/-- A user logs in, a handler logs out before it is told, and both changes are told in the two
ticks. -/
def sampleLogins : List LoginAction :=
  [.addNotify 1, .addNotify 2, .call .login true, .drain 0, .complete, .snapshot, .tell,
    .call .logout false, .tell, .tell, .drain 1, .complete, .snapshot, .tell, .tell]

/-- The second handler is told of both changes, in order. -/
theorem logins_told_sample : ∃ s, exec LoginInterface.step { kind := .auth } sampleLogins =
    some s ∧ LoginsTold (transitions LoginInterface.step { kind := .auth } sampleLogins) s ∧
    toldTo (transitions LoginInterface.step { kind := .auth } sampleLogins)
      2 = [.turn true, .turn false] :=
  ⟨_, rfl, (logins_told (Trace.of_exec rfl)).2, rfl⟩

end

end EOSEmu
