import EOSEmu.Lib.Trace
import Mathlib.Data.List.Perm.Basic
import Mathlib.Logic.Function.Basic

/-!
# Nodes with two threads on a datagram network

A node has a game thread and a receive thread. Each takes locked sections: it changes the node's
state, sends some messages under the lock, and keeps others in its outbox to send one by one after
the lock is released; a thread takes its next section when its outbox is empty. A link holds the
datagrams on their way from one node to another, oldest first. `Protocol.step` interleaves the
threads of all nodes with the deliveries: any datagram of a link may be delivered, may stay on the
link to be delivered again, and may be lost. Order, loss and duplication are restricted by the side
condition of a run.
-/

namespace Lib

/-- The threads of a node. -/
inductive ThreadKind where
  | game
  | receive
  deriving DecidableEq

/-- What a locked section leaves: the node, the sends made under the lock, and the ones still to be
made. -/
structure Section (ν σ : Type*) where
  node : ν
  locked : List σ := []
  later : List σ := []

/-- A datagram on a link. `taken` remembers that a delivery of it has been marked by the
protocol. -/
structure Copy (μ : Type*) where
  message : μ
  taken : Bool := false

/-- The behaviour of nodes named by `ι`, with states `ν`, calls `α`, sends `σ`, messages `μ`, and
the data `δ` that a delivery brings along. -/
structure Protocol (ι α δ ν σ μ : Type*) where
  /-- A section of the game thread. -/
  call : ν → α → Option (Section ν σ)
  /-- A section of the receive thread, for a message of a sender. -/
  handle : ν → δ → ι → μ → Section ν σ
  /-- What a send puts on the link to a receiver. -/
  wire : σ → ι → Option μ
  /-- The deliveries that mark the copy they deliver. -/
  takes : ν → μ → Bool := fun _ _ => false

/-- The state of all nodes, their threads and the links. -/
structure World (ι ν σ μ : Type*) where
  nodes : ι → ν
  out : ι → ThreadKind → List σ := fun _ _ => []
  links : ι → ι → List (Copy μ) := fun _ _ => []

/-- What happens next. -/
inductive NetAction (ι α δ : Type*) where
  | call (i : ι) (a : α)
  | send (i : ι) (th : ThreadKind)
  | receive (s r : ι) (k : ℕ) (d : δ) (keep : Bool)
  | lose (s r : ι) (k : ℕ)

section
variable {ι α δ ν σ μ : Type*} [DecidableEq ι]

namespace World
variable (w : World ι ν σ μ)

/-- Replaces the state of a node. -/
def setNode (i : ι) (n : ν) : World ι ν σ μ := { w with nodes := Function.update w.nodes i n }

/-- Replaces the outbox of a thread. -/
def setOut (i : ι) (th : ThreadKind) (xs : List σ) : World ι ν σ μ :=
  { w with out := fun j th' => if j = i ∧ th' = th then xs else w.out j th' }

/-- Replaces the datagrams of a link. -/
def setLink (s r : ι) (l : List (Copy μ)) : World ι ν σ μ :=
  { w with links := fun s' r' => if s' = s ∧ r' = r then l else w.links s' r' }

end World

namespace Protocol
variable (P : Protocol ι α δ ν σ μ)

/-- The datagrams that some sends put on the link to a receiver. -/
def copies (xs : List σ) (r : ι) : List (Copy μ) :=
  xs.filterMap fun x => (P.wire x r).map fun m => { message := m }

/-- The sends of a node, put on the links to all others. -/
def post (w : World ι ν σ μ) (i : ι) (xs : List σ) : World ι ν σ μ :=
  { w with links := fun s r => if s = i ∧ r ≠ i then w.links s r ++
    P.copies xs r else w.links s r }

/-- The link after a delivery: the datagram is gone, or it stays to be delivered again. -/
def delivered (n : ν) (l : List (Copy μ)) (k : ℕ) (c : Copy μ) (keep : Bool) : List (Copy μ) :=
  if keep then l.set k { c with taken := c.taken || P.takes n c.message } else l.eraseIdx k

/-- One step. -/
def step (w : World ι ν σ μ) : NetAction ι α δ → Option (World ι ν σ μ)
  | .call i a =>
      if w.out i .game = [] then
        (P.call (w.nodes i) a).map fun o => P.post ((w.setNode i o.node).setOut i .game o.later) i
          o.locked
      else none
  | .send i th =>
      match w.out i th with
      | [] => none
      | x :: xs => some (P.post (w.setOut i th xs) i [x])
  | .receive s r k d keep =>
      if w.out r .receive = [] then
        (w.links s r)[k]?.map fun c =>
          let o := P.handle (w.nodes r) d s c.message
          let w := w.setLink s r (P.delivered (w.nodes r) (w.links s r) k c keep)
          P.post ((w.setNode r o.node).setOut r .receive o.later) r o.locked
      else none
  | .lose s r k =>
      if k < (w.links s r).length then some (w.setLink s r ((w.links s r).eraseIdx k)) else none

/-- Every link delivers in the order of the sends, once, and loses nothing. -/
def Fifo (_ : World ι ν σ μ) : NetAction ι α δ → Prop
  | .receive _ _ k _ keep => k = 0 ∧ keep = false
  | .lose _ _ _ => False
  | .call _ _ | .send _ _ => True

/-- The executable form of `Fifo`. -/
def fifoTest (_ : World ι ν σ μ) : NetAction ι α δ → Bool
  | .receive _ _ k _ keep => k == 0 && !keep
  | .lose _ _ _ => false
  | .call _ _ | .send _ _ => true

omit [DecidableEq ι] in
/-- A step that passes the test meets `Fifo`. -/
theorem fifo_of_test (w : World ι ν σ μ) (a : NetAction ι α δ) (h : fifoTest w a = true) :
    Fifo w a := by
  cases a with
  | receive s r k d keep => simpa [fifoTest, Fifo] using h
  | lose => cases h
  | call | send => trivial

variable {P} {w w' : World ι ν σ μ}

/-! ## What a step can do -/

/-- A call: the outbox was empty, and the section's messages go out under the lock or wait. -/
theorem step_call {i : ι} {a : α} (h : P.step w (.call i a) = some w') :
    w.out i .game = [] ∧ ∃ o, P.call (w.nodes i) a = some o ∧
      w' = P.post ((w.setNode i o.node).setOut i .game o.later) i o.locked := by
  simp only [step] at h
  split at h
  · next hout =>
      obtain ⟨o, ho, rfl⟩ := Option.map_eq_some_iff.1 h
      exact ⟨hout, o, ho, rfl⟩
  · cases h

/-- A send: the first message of the outbox goes on the links. -/
theorem step_send {i : ι} {th : ThreadKind} (h : P.step w (.send i th) = some w') :
    ∃ x xs, w.out i th = x :: xs ∧ w' = P.post (w.setOut i th xs) i [x] := by
  simp only [step] at h
  split at h
  · cases h
  · next x xs hout =>
      cases h
      exact ⟨x, xs, hout, rfl⟩

/-- A delivery: a datagram of the link is handled, and is gone or stays. -/
theorem step_receive {s r : ι} {k : ℕ} {d : δ} {keep : Bool}
    (h : P.step w (.receive s r k d keep) = some w') :
    w.out r .receive = [] ∧ ∃ c, (w.links s r)[k]? = some c ∧
      w' = P.post (((w.setLink s r (P.delivered (w.nodes r) (w.links s r) k c keep)).setNode r
        (P.handle (w.nodes r) d s c.message).node).setOut r .receive
          (P.handle (w.nodes r) d s c.message).later) r
        (P.handle (w.nodes r) d s c.message).locked := by
  simp only [step] at h
  split at h
  · next hout =>
      obtain ⟨c, hc, rfl⟩ := Option.map_eq_some_iff.1 h
      exact ⟨hout, c, hc, rfl⟩
  · cases h

/-- A loss: a datagram of the link is gone. -/
theorem step_lose {s r : ι} {k : ℕ} (h : P.step w (.lose s r k) = some w') :
    k < (w.links s r).length ∧ w' = w.setLink s r ((w.links s r).eraseIdx k) := by
  simp only [step] at h
  split at h
  · next hk =>
      cases h
      exact ⟨hk, rfl⟩
  · cases h

@[simp] theorem post_nil (w : World ι ν σ μ) (i : ι) : P.post w i [] = w := by
  simp [post, copies]

/-- A send takes the first entry off its outbox, and puts what it carries on the links of the
node. -/
structure Transmits (P : Protocol ι α δ ν σ μ) (i : ι) (th : ThreadKind) (x : σ)
    (w w' : World ι ν σ μ) : Prop where
  nodes : w'.nodes = w.nodes
  sent : w.out i th = x :: w'.out i th
  out : ∀ j th', (j = i → th' ≠ th) → w'.out j th' = w.out j th'
  link : ∀ r, w'.links i r = if r ≠ i then w.links i r ++ P.copies [x] r else w.links i r
  links : ∀ s r, s ≠ i → w'.links s r = w.links s r

/-- Every send is one of `Transmits`. -/
theorem transmits_of_step {i : ι} {th : ThreadKind} (h : P.step w (.send i th) = some w') :
    ∃ x, Transmits P i th x w w' := by
  obtain ⟨x, xs, hout, rfl⟩ := step_send h
  have hrest : (P.post (w.setOut i th xs) i [x]).out i th = xs := if_pos ⟨rfl, rfl⟩
  refine ⟨x, rfl, ?_, fun j th' hne => if_neg fun heq => hne heq.1 heq.2, fun r => ?_,
    fun s r hs => if_neg fun heq => hs heq.1⟩
  · rw [hrest]
    exact hout
  · by_cases hr : r = i
    · rw [if_neg (not_not.2 hr)]
      exact if_neg fun h => h.2 hr
    · rw [if_pos hr]
      exact if_pos ⟨rfl, hr⟩

/-- A delivery in order takes the first datagram off its link; its section sends nothing under the
lock. -/
structure Delivers (P : Protocol ι α δ ν σ μ) (s r : ι) (d : δ) (c : Copy μ)
    (w w' : World ι ν σ μ) : Prop where
  node : w'.nodes r = (P.handle (w.nodes r) d s c.message).node
  nodes : ∀ i, i ≠ r → w'.nodes i = w.nodes i
  link : w.links s r = c :: w'.links s r
  links : ∀ s' r', ¬ (s' = s ∧ r' = r) → w'.links s' r' = w.links s' r'
  later : w'.out r .receive = (P.handle (w.nodes r) d s c.message).later
  out : ∀ i th, (i = r → th ≠ .receive) → w'.out i th = w.out i th

/-- Every delivery in order is one of `Delivers`. -/
theorem delivers_of_step {s r : ι} {d : δ} (hlocked : ∀ n d s m, (P.handle n d s m).locked = [])
    (h : P.step w (.receive s r 0 d false) = some w') : ∃ c, Delivers P s r d c w w' := by
  obtain ⟨_, c, hc, rfl⟩ := step_receive h
  rw [hlocked, post_nil]
  refine ⟨c, Function.update_self r _ _, fun i hi => Function.update_of_ne hi _ _,
    ?_, fun s' r' hne => if_neg hne,
    if_pos ⟨rfl, rfl⟩, fun i th hne => if_neg fun heq => hne heq.1 heq.2⟩
  refine Eq.trans ?_ (congrArg (c :: ·) (if_pos ⟨rfl, rfl⟩).symm)
  cases hl : w.links s r with
  | nil =>
      rw [hl] at hc
      cases hc
  | cons x rest =>
      rw [hl] at hc
      cases hc
      rfl

/-- The section a step takes at a node. -/
inductive SectionAt (P : Protocol ι α δ ν σ μ) (w : World ι ν σ μ) (i : ι) :
    NetAction ι α δ → Section ν σ → Prop
  | call {a : α} {o : Section ν σ} : P.call (w.nodes i) a = some o → SectionAt P w i (.call i a) o
  | handle {s : ι} {k : ℕ} {d : δ} {keep : Bool} {c : Copy μ} : (w.links s i)[k]? = some c →
      SectionAt P w i (.receive s i k d keep) (P.handle (w.nodes i) d s c.message)

/-- A node changes by its sections only. -/
theorem step_node {a : NetAction ι α δ} (h : P.step w a = some w') (i : ι) :
    w'.nodes i = w.nodes i ∨ ∃ o, SectionAt P w i a o ∧ w'.nodes i = o.node := by
  cases a with
  | call j b =>
      obtain ⟨_, o, ho, rfl⟩ := step_call h
      by_cases hij : i = j
      · subst hij
        exact .inr ⟨o, .call ho, Function.update_self i _ _⟩
      · exact .inl (Function.update_of_ne hij _ _)
  | send j th =>
      obtain ⟨x, xs, _, rfl⟩ := step_send h
      exact .inl rfl
  | receive s r k d keep =>
      obtain ⟨_, c, hc, rfl⟩ := step_receive h
      by_cases hir : i = r
      · subst hir
        exact .inr ⟨_, .handle hc, Function.update_self i _ _⟩
      · exact .inl (Function.update_of_ne hir _ _)
  | lose s r k =>
      obtain ⟨_, rfl⟩ := step_lose h
      exact .inl rfl

/-! ## What is in the outboxes -/

/-- A send stays in its outbox until its thread makes it. -/
theorem out_stays {a : NetAction ι α δ} (h : P.step w a = some w') {i : ι} {th : ThreadKind}
    {x : σ} (hx : x ∈ w.out i th) :
    x ∈ w'.out i th ∨ (a = .send i th ∧ ∃ xs, w.out i th = x :: xs) := by
  have hset : ∀ (j : ι) (th' : ThreadKind) (xs : List σ), (i = j → th = th' → x ∈ xs) →
      x ∈ if i = j ∧ th = th' then xs else w.out i th := by
    intro j th' xs hxs
    split
    · next heq => exact hxs heq.1 heq.2
    · exact hx
  cases a with
  | call j b =>
      obtain ⟨hout, o, _, rfl⟩ := step_call h
      refine .inl (hset j .game o.later ?_)
      rintro rfl rfl
      rw [hout] at hx
      cases hx
  | send j th' =>
      obtain ⟨y, ys, hout, rfl⟩ := step_send h
      by_cases heq : i = j ∧ th = th'
      · obtain ⟨rfl, rfl⟩ := heq
        rw [hout] at hx
        rcases List.mem_cons.1 hx with rfl | hx
        · exact .inr ⟨rfl, ys, hout⟩
        · exact .inl (hset i th ys fun _ _ => hx)
      · exact .inl (hset j th' ys fun hj hth => absurd ⟨hj, hth⟩ heq)
  | receive s r k d keep =>
      obtain ⟨hout, c, _, rfl⟩ := step_receive h
      refine .inl (hset r .receive _ ?_)
      rintro rfl rfl
      rw [hout] at hx
      cases hx
  | lose s r k =>
      obtain ⟨_, rfl⟩ := step_lose h
      exact .inl hx

/-! ## What is on the links -/

omit [DecidableEq ι] in
/-- What is copied to a node is what its messages carry to it. -/
theorem mem_copies {xs : List σ} {r : ι} {c : Copy μ} :
    c ∈ P.copies xs r ↔ ∃ x ∈ xs, ∃ m, P.wire x r = some m ∧ c = { message := m } := by
  simp only [copies, List.mem_filterMap, Option.map_eq_some_iff]
  refine exists_congr fun x => and_congr_right fun _ => exists_congr fun m =>
    and_congr_right fun _ => ?_
  exact eq_comm

/-- What is on a link after some sends. -/
theorem mem_post {i s r : ι} {xs : List σ} {c : Copy μ} :
    c ∈ (P.post w i xs).links s r ↔ c ∈ w.links s r ∨ s = i ∧ r ≠ i ∧ c ∈ P.copies xs r := by
  by_cases h : s = i ∧ r ≠ i
  · simp only [post, if_pos h, List.mem_append]
    exact ⟨fun hc => hc.imp id fun hc => ⟨h.1, h.2, hc⟩, fun hc => hc.imp id fun hc => hc.2.2⟩
  · simp only [post, if_neg h]
    exact ⟨.inl, fun hc => hc.resolve_right fun hc => h ⟨hc.1, hc.2.1⟩⟩

/-- The node that takes a section or sends in a step. -/
def actor : NetAction ι α δ → Option ι
  | .call i _ | .send i _ | .receive _ i _ _ _ => some i
  | .lose _ _ _ => none

/-- The links of a node that does not act stay empty. -/
theorem links_of_actor_ne {a : NetAction ι α δ} {i j : ι} (h : P.step w a = some w')
    (hi : actor a ≠ some i) (hempty : w.links i j = []) : w'.links i j = [] := by
  have hpost : ∀ (v : World ι ν σ μ) (k : ι) (xs : List σ), k ≠ i → v.links i j = [] →
      (P.post v k xs).links i j = [] := fun v k xs hk hv => (if_neg fun h => hk h.1.symm).trans hv
  have hlink : ∀ (s r : ι) (l : List (Copy μ)), (s = i → r = j → l = []) →
    (w.setLink s r l).links i j = [] := by
    intro s r l hl
    show (if i = s ∧ j = r then l else w.links i j) = []
    split
    · next heq => exact hl heq.1.symm heq.2.symm
    · exact hempty
  cases a with
  | call k b =>
      obtain ⟨_, o, _, rfl⟩ := step_call h
      exact hpost _ _ _ (fun hk => hi (congrArg some hk)) hempty
  | send k th =>
      obtain ⟨x, xs, _, rfl⟩ := step_send h
      exact hpost _ _ _ (fun hk => hi (congrArg some hk)) hempty
  | receive s r k d keep =>
      obtain ⟨_, c, hc, rfl⟩ := step_receive h
      refine hpost _ _ _ (fun hk => hi (congrArg some hk)) (hlink _ _ _ ?_)
      rintro rfl rfl
      rw [hempty] at hc
      cases hc
  | lose s r k =>
      obtain ⟨hk, rfl⟩ := step_lose h
      refine hlink _ _ _ ?_
      rintro rfl rfl
      rw [hempty] at hk
      exact absurd hk (Nat.not_lt_zero _)

omit [DecidableEq ι] in
/-- A delivery leaves the other datagrams of the link, and its own where it is kept. -/
theorem mem_delivered (n : ν) {l : List (Copy μ)} {k : ℕ} {c x : Copy μ} (keep : Bool)
    (hc : l[k]? = some c) (hx : x ∈ l) :
    (∃ y ∈ P.delivered n l k c keep, y.message = x.message) ∨ keep = false ∧
    x = c := by
  obtain ⟨j, hj⟩ := List.mem_iff_getElem?.1 hx
  unfold delivered
  by_cases hjk : j = k
  · subst hjk
    cases hc.symm.trans hj
    cases keep with
    | true =>
        refine .inl ⟨{ c with taken := c.taken || P.takes n c.message },
          List.mem_iff_getElem?.2 ⟨j, ?_⟩, rfl⟩
        rw [if_pos rfl, List.getElem?_set_self (List.getElem?_eq_some_iff.1 hj).1]
    | false => exact .inr ⟨rfl, rfl⟩
  · refine .inl ⟨x, ?_, rfl⟩
    cases keep with
    | true =>
        rw [if_pos rfl]
        refine List.mem_iff_getElem?.2 ⟨j, ?_⟩
        rw [List.getElem?_set_ne (Ne.symm hjk)]
        exact hj
    | false => exact List.mem_eraseIdx_iff_getElem?.2 ⟨j, hjk, hj⟩

omit [DecidableEq ι] in
/-- A delivery leaves no more datagrams of a kind than there were, where marking one makes none of
that kind. -/
theorem countP_delivered_le {n : ν} {l : List (Copy μ)} {k : ℕ} {c : Copy μ} (keep : Bool)
    {p : Copy μ → Bool} (hc : l[k]? = some c)
    (hp : p { c with taken := c.taken || P.takes n c.message } = true → p c = true) :
    (P.delivered n l k c keep).countP p ≤ l.countP p := by
  obtain ⟨hk, hget⟩ := List.getElem?_eq_some_iff.1 hc
  unfold delivered
  split
  · rw [List.countP_set hk, hget]
    cases hmarked : p { c with taken := c.taken || P.takes n c.message } with
    | true =>
        have hpos : 0 < l.countP p := List.countP_pos_iff.2
          ⟨c, List.mem_of_getElem? hc, hp hmarked⟩
        rw [if_pos (hp hmarked), if_pos rfl]
        omega
    | false =>
        rw [if_neg Bool.false_ne_true]
        omega
  · exact (List.eraseIdx_sublist l k).countP_le

omit [DecidableEq ι] in
/-- A delivery of a datagram of a kind leaves fewer of that kind, where marking it makes it
another. -/
theorem countP_delivered_lt {n : ν} {l : List (Copy μ)} {k : ℕ} {c : Copy μ} (keep : Bool)
    {p : Copy μ → Bool} (hc : l[k]? = some c) (hpc : p c = true)
    (hp : p { c with taken := c.taken || P.takes n c.message } = false) :
    (P.delivered n l k c keep).countP p < l.countP p := by
  obtain ⟨hk, hget⟩ := List.getElem?_eq_some_iff.1 hc
  have hpos : 0 < l.countP p := List.countP_pos_iff.2 ⟨c, List.mem_of_getElem? hc, hpc⟩
  unfold delivered
  split
  · rw [List.countP_set hk, hget, if_pos hpc, hp]
    simp only [Bool.false_eq_true, if_false]
    omega
  · have hperm := (List.getElem_cons_eraseIdx_perm hk).countP_eq p
    rw [List.countP_cons, hget, if_pos hpc] at hperm
    omega

/-- A datagram stays on its link until it is lost or delivered for the last time. -/
theorem message_stays {a : NetAction ι α δ} (h : P.step w a = some w') {s r : ι} {x : Copy μ}
    (hx : x ∈ w.links s r) :
    (∃ y ∈ w'.links s r, y.message = x.message) ∨ (∃ k, a = .lose s r k) ∨
      ∃ k d, a = .receive s r k d false ∧ (w.links s r)[k]? = some x := by
  cases a with
  | call i b =>
      obtain ⟨_, o, _, rfl⟩ := step_call h
      exact .inl ⟨x, mem_post.2 (.inl hx), rfl⟩
  | send i th =>
      obtain ⟨y, ys, _, rfl⟩ := step_send h
      exact .inl ⟨x, mem_post.2 (.inl hx), rfl⟩
  | receive s' r' k d keep =>
      obtain ⟨_, c, hc, rfl⟩ := step_receive h
      by_cases hsr : s = s' ∧ r = r'
      · obtain ⟨rfl, rfl⟩ := hsr
        rcases mem_delivered (P := P) (w.nodes r) keep hc hx with ⟨y, hy, hmsg⟩ | ⟨rfl, rfl⟩
        · refine .inl ⟨y, mem_post.2 (.inl ?_), hmsg⟩
          simpa [World.setLink, World.setNode, World.setOut] using hy
        · exact .inr (.inr ⟨k, d, rfl, hc⟩)
      · refine .inl ⟨x, mem_post.2 (.inl ?_), rfl⟩
        simpa [World.setLink, World.setNode, World.setOut, hsr] using hx
  | lose s' r' k =>
      obtain ⟨_, rfl⟩ := step_lose h
      by_cases hsr : s = s' ∧ r = r'
      · obtain ⟨rfl, rfl⟩ := hsr
        exact .inr (.inl ⟨k, rfl⟩)
      · refine .inl ⟨x, ?_, rfl⟩
        simpa [World.setLink, hsr] using hx

/-! ## Where sends and datagrams come from -/

/-- A send in an outbox was there, or a section of the node leaves it. -/
theorem mem_out_of_step {a : NetAction ι α δ} (h : P.step w a = some w') {i : ι} {th : ThreadKind}
    {x : σ} (hx : x ∈ w'.out i th) : x ∈ w.out i th ∨ ∃ o, SectionAt P w i a o ∧ x ∈ o.later := by
  have hset : ∀ (j : ι) (th' : ThreadKind) (xs : List σ),
    (x ∈ if i = j ∧ th = th' then xs else w.out i th) →
      x ∈ w.out i th ∨ i = j ∧ th = th' ∧ x ∈ xs := by
    intro j th' xs hxs
    split at hxs
    · next heq => exact .inr ⟨heq.1, heq.2, hxs⟩
    · exact .inl hxs
  cases a with
  | call j b =>
      obtain ⟨_, o, ho, rfl⟩ := step_call h
      rcases hset j .game o.later hx with hx | ⟨rfl, _, hx⟩
      · exact .inl hx
      · exact .inr ⟨o, .call ho, hx⟩
  | send j th' =>
      obtain ⟨y, ys, hout, rfl⟩ := step_send h
      rcases hset j th' ys hx with hx | ⟨rfl, rfl, hys⟩
      · exact .inl hx
      · rw [hout]
        exact .inl (List.mem_cons_of_mem _ hys)
  | receive s r k d keep =>
      obtain ⟨_, c, hc, rfl⟩ := step_receive h
      rcases hset r .receive _ hx with hx | ⟨rfl, _, hx⟩
      · exact .inl hx
      · exact .inr ⟨_, .handle hc, hx⟩
  | lose s r k =>
      obtain ⟨_, rfl⟩ := step_lose h
      exact .inl hx

/-- A node makes a send in a step: from an outbox, or under the lock of its section. -/
def Sends (P : Protocol ι α δ ν σ μ) (w : World ι ν σ μ) (i : ι) (a : NetAction ι α δ) (x : σ) :
    Prop :=
  (∃ th, x ∈ w.out i th) ∨ ∃ o, SectionAt P w i a o ∧ x ∈ o.locked

/-- A datagram on a link was there, perhaps without the mark of a delivery that kept it, or its
sender sends it now. -/
theorem mem_links_of_step {a : NetAction ι α δ} (h : P.step w a = some w') {s r : ι} {c : Copy μ}
    (hc : c ∈ w'.links s r) :
    c ∈ w.links s r ∨ (∃ y ∈ w.links s r, y.message = c.message ∧
    ∃ k d, a = .receive s r k d true) ∨
      r ≠ s ∧ c.taken = false ∧ ∃ x, Sends P w s a x ∧ P.wire x r = some c.message := by
  cases a with
  | call i b =>
      obtain ⟨_, o, ho, rfl⟩ := step_call h
      rcases mem_post.1 hc with hc | ⟨rfl, hne, hc⟩
      · exact .inl hc
      · obtain ⟨x, hx, m, hm, rfl⟩ := mem_copies.1 hc
        exact .inr (.inr ⟨hne, rfl, x, .inr ⟨o, .call ho, hx⟩, hm⟩)
  | send i th =>
      obtain ⟨y, ys, hout, rfl⟩ := step_send h
      rcases mem_post.1 hc with hc | ⟨rfl, hne, hc⟩
      · exact .inl hc
      · obtain ⟨x, hx, m, hm, rfl⟩ := mem_copies.1 hc
        rw [List.mem_singleton.1 hx] at hm
        exact .inr (.inr ⟨hne, rfl, y, .inl ⟨th, hout ▸ List.mem_cons_self⟩, hm⟩)
  | receive s' r' k d keep =>
      obtain ⟨_, c', hc', rfl⟩ := step_receive h
      rcases mem_post.1 hc with hc | ⟨rfl, hne, hc⟩
      · change c ∈ if s = s' ∧ r = r' then _ else w.links s r at hc
        split at hc
        · next heq =>
            obtain ⟨rfl, rfl⟩ := heq
            unfold delivered at hc
            split at hc
            · next hkeep =>
                rcases List.mem_or_eq_of_mem_set hc with hc | rfl
                · exact .inl hc
                · exact .inr (.inl ⟨c', List.mem_of_getElem? hc', rfl, k, d, by rw [hkeep]⟩)
            · exact .inl (List.mem_of_mem_eraseIdx hc)
        · exact .inl hc
      · obtain ⟨x, hx, m, hm, rfl⟩ := mem_copies.1 hc
        exact .inr (.inr ⟨hne, rfl, x, .inr ⟨_, .handle hc', hx⟩, hm⟩)
  | lose s' r' k =>
      obtain ⟨_, rfl⟩ := step_lose h
      change c ∈ if s = s' ∧ r = r' then _ else w.links s r at hc
      split at hc
      · next heq =>
          obtain ⟨rfl, rfl⟩ := heq
          exact .inl (List.mem_of_mem_eraseIdx hc)
      · exact .inl hc

/-- A node that has sent nothing that is still on its way, and has nothing left to send. -/
def Silent (w : World ι ν σ μ) (i : ι) : Prop := (∀ th, w.out i th = []) ∧ ∀ j, w.links i j = []

/-- It stays silent while others act. -/
theorem silent_step {a : NetAction ι α δ} {i : ι} (h : P.step w a = some w')
    (hi : actor a ≠ some i) (hw : Silent w i) : Silent w' i := by
  refine ⟨fun th => List.eq_nil_iff_forall_not_mem.2 fun x hx => ?_, fun j => links_of_actor_ne h
    hi (hw.2 j)⟩
  rcases mem_out_of_step h hx with hx | ⟨o, ho, _⟩
  · rw [hw.1 th] at hx
    cases hx
  · cases ho <;> exact hi rfl

/-- A node that does not act in a list of actions stays silent. -/
theorem silent_of_execIf {test : World ι ν σ μ → NetAction ι α δ → Bool}
    {as : List (NetAction ι α δ)} {i : ι} (h : execIf P.step test w as = some w')
    (hi : some i ∉ as.map actor) (hw : Silent w i) : Silent w' i := by
  induction as generalizing w with
  | nil =>
      cases h
      exact hw
  | cons a as ih =>
      unfold execIf at h
      split at h
      · obtain ⟨u, hu, h⟩ := Option.bind_eq_some_iff.1 h
        rw [List.map_cons, List.mem_cons, not_or] at hi
        exact ih h hi.2 (silent_step hu (Ne.symm hi.1) hw)
      · cases h

/-- No delivery has marked a datagram that is still on a link. -/
def Untaken (w : World ι ν σ μ) : Prop := ∀ s r, ∀ c ∈ w.links s r, c.taken = false

/-- That stays so where every datagram is delivered once. -/
theorem untaken_step {a : NetAction ι α δ} (h : P.step w a = some w') (hw : Untaken w)
    (hfifo : Fifo w a) : Untaken w' := by
  intro s r c hc
  rcases mem_links_of_step h hc with hc | ⟨y, _, _, k, d, rfl⟩ | ⟨_, huntaken, _⟩
  · exact hw s r c hc
  · cases hfifo.2
  · exact huntaken

/-- The message is on its way to a node: on a link, or in the outbox of another node. -/
def Coming (P : Protocol ι α δ ν σ μ) (w : World ι ν σ μ) (r : ι) (m : μ) : Prop :=
  ∃ s, (r ≠ s ∧ ∃ th, ∃ x ∈ w.out s th, P.wire x r = some m) ∨ ∃ c ∈ w.links s r, c.message = m

/-- A message gets on its way by a section of another node that sends it. -/
theorem coming_of_step {a : NetAction ι α δ} (h : P.step w a = some w') {r : ι} {m : μ}
    (hm : Coming P w' r m) :
    Coming P w r m ∨ ∃ i o x, r ≠ i ∧ SectionAt P w i a o ∧ (x ∈ o.locked ∨ x ∈ o.later) ∧
    P.wire x r = some m := by
  obtain ⟨s, ⟨hne, th, x, hx, hwire⟩ | ⟨c, hc, rfl⟩⟩ := hm
  · rcases mem_out_of_step h hx with hx | ⟨o, ho, hx⟩
    · exact .inl ⟨s, .inl ⟨hne, th, x, hx, hwire⟩⟩
    · exact .inr ⟨s, o, x, hne, ho, .inr hx, hwire⟩
  · rcases mem_links_of_step h hc with hc | ⟨y, hy, hsame, _⟩ | ⟨hne, _, x, ⟨th, hx⟩ | ⟨o, ho, hx⟩,
      hwire⟩
    · exact .inl ⟨s, .inr ⟨c, hc, rfl⟩⟩
    · exact .inl ⟨s, .inr ⟨y, hy, hsame⟩⟩
    · exact .inl ⟨s, .inl ⟨hne, th, x, hx, hwire⟩⟩
    · exact .inr ⟨s, o, x, hne, ho, .inl hx, hwire⟩

/-! ## Invariants of nodes and messages -/

/-- Every node satisfies `N`, every send in an outbox `S`, and every datagram on a link `M`. -/
structure Sound (N : ι → ν → Prop) (S : σ → Prop) (M : μ → Prop) (w : World ι ν σ μ) : Prop where
  nodes : ∀ i, N i (w.nodes i)
  out : ∀ i th, ∀ x ∈ w.out i th, S x
  links : ∀ s r, ∀ c ∈ w.links s r, M c.message

/-- The sections of a protocol keep `N`, and send what satisfies `S` when they receive what
satisfies `M`. -/
structure Preserves (P : Protocol ι α δ ν σ μ) (N : ι → ν → Prop) (S : σ → Prop) (M : μ → Prop) :
    Prop where
  call : ∀ i n a o, N i n → P.call n a = some o → N i o.node ∧ ∀ x, x ∈ o.locked ∨ x ∈ o.later →
    S x
  handle : ∀ i n d s m, N i n → M m →
    N i (P.handle n d s m).node ∧ ∀ x, x ∈ (P.handle n d s m).locked ∨
    x ∈ (P.handle n d s m).later → S x
  wire : ∀ x r m, S x → P.wire x r = some m → M m

variable {N : ι → ν → Prop} {S : σ → Prop} {M : μ → Prop}

/-- A step whose section keeps `N` and sends what satisfies `S` keeps everything sound. -/
theorem Sound.step_of (hwire : ∀ x r m, S x → P.wire x r = some m → M m) (h : Sound N S M w)
    {a : NetAction ι α δ} (hst : P.step w a = some w')
    (hsection : ∀ i o, SectionAt P w i a o → N i o.node ∧ ∀ x, x ∈ o.locked ∨ x ∈ o.later → S x) :
    Sound N S M w' where
  nodes i := by
    rcases step_node hst i with heq | ⟨o, ho, heq⟩
    · rw [heq]
      exact h.nodes i
    · rw [heq]
      exact (hsection i o ho).1
  out i th x hx := by
    rcases mem_out_of_step hst hx with hx | ⟨o, ho, hx⟩
    · exact h.out i th x hx
    · exact (hsection i o ho).2 x (.inr hx)
  links s r c hc := by
    rcases mem_links_of_step hst hc with hc | ⟨y, hy, hsame, _⟩ | ⟨_, _, x, ⟨th, hx⟩ | ⟨o, ho, hx⟩,
      hm⟩
    · exact h.links s r c hc
    · exact hsame ▸ h.links s r y hy
    · exact hwire x r _ (h.out s th x hx) hm
    · exact hwire x r _ ((hsection s o ho).2 x (.inl hx)) hm

/-- A step of a protocol that preserves soundness. -/
theorem Sound.step (hp : Preserves P N S M) (h : Sound N S M w) {a : NetAction ι α δ}
    (hst : P.step w a = some w') : Sound N S M w' := by
  refine h.step_of hp.wire hst fun i o hsec => ?_
  cases hsec with
  | call ho => exact hp.call i _ _ o (h.nodes i) ho
  | handle hc => exact hp.handle i _ _ _ _ (h.nodes i) (h.links _ _ _ (List.mem_of_getElem? hc))

end Protocol
end

end Lib
