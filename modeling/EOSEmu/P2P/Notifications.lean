import EOSEmu.P2P.Connections

/-!
# The notifications of a connection

A handler changes `Connections_` under the lock and posts its notifications after it has released
it, so the game thread and the receive thread can overtake each other on the way to the Dispatcher.
A `ThreadedNode` keeps what each thread has still to post. Every notification carries, for the
proofs only, what its lock section knew: its place in the order of lock sections, the lifetime of
the entry, whether the section removed the entry and whether it ended an interruption.
`Disciplined` is the law of a history; `made_disciplined` shows it for the order of the lock
sections, and `posted_disciplined` for what is posted, where the threads do not overtake each other
and every `P2PConnectClose` finds its entry. Neither condition can be dropped (`not_disciplined`,
`not_disciplined_overtaking`).
-/

namespace EOSEmu

open Lib (Dict Run Always Transition Since exec execIf)

/-! ## Postings -/

/-- A notification on its way to the Dispatcher. -/
structure Posting where
  note : Notification
  /-- Its place in the order of lock sections. -/
  stamp : ℕ
  /-- How many entries the key had had by then. -/
  life : ℕ
  /-- The lock section erased the entry. -/
  removed : Bool
  /-- The lock section ended an interruption of the entry. -/
  answered : Bool
  deriving DecidableEq, Repr

namespace Posting

/-- It is about the connection. -/
def about (key : Bytes) (x : Posting) : Bool := x.note.connKey = some key

def isClosed (x : Posting) : Bool :=
  match x.note with
  | .connectionClosed .. => true
  | _ => false

def isEstablished (x : Posting) : Bool :=
  match x.note with
  | .connectionEstablished .. => true
  | _ => false

/-- `EOS_CET_NewConnection`. -/
def isNew (x : Posting) : Bool :=
  match x.note with
  | .connectionEstablished _ _ type => type = .newConnection
  | _ => false

def isInterrupted (x : Posting) : Bool :=
  match x.note with
  | .connectionInterrupted .. => true
  | _ => false

/-- An `Interrupted` of this lifetime. -/
def InterruptedIn (life : ℕ) (x : Posting) : Prop := x.isInterrupted = true ∧ x.life = life

/-- An `Established` of this lifetime. -/
def EstablishedIn (life : ℕ) (x : Posting) : Prop := x.isEstablished = true ∧ x.life = life

/-- The `Established` that answers an interruption in this lifetime. -/
def AnsweredIn (life : ℕ) (x : Posting) : Prop := x.EstablishedIn life ∧ x.answered = true

/-- The notification may come next in the history of its connection. -/
structure Fits (l : List Posting) (x : Posting) : Prop where
  /-- `Closed` is for an entry that existed and was removed. -/
  removed : x.isClosed = true → x.removed = true
  /-- Lifetimes come in order. -/
  inOrder : ∀ y ∈ l, y.life ≤ x.life
  /-- `Closed` is the last of its lifetime. -/
  open_ : ∀ y ∈ l, y.isClosed = true → y.life ≠ x.life
  /-- `NewConnection` comes once in a lifetime. -/
  once : x.isNew = true → ∀ y ∈ l, y.isNew = true → y.life ≠ x.life
  /-- An earlier `Interrupted` of the lifetime has been answered. -/
  answeredBefore : x.isInterrupted = true → ¬ Since (InterruptedIn x.life) (EstablishedIn x.life) l
  /-- An answer comes after the `Interrupted` it answers. -/
  answers : x.isEstablished = true → x.answered = true →
    Since (InterruptedIn x.life) (AnsweredIn x.life) l

end Posting

open Posting

/-- The law of the notifications of one connection, oldest first. -/
def Disciplined (l : List Posting) : Prop := ∀ before x after, l = before ++ x :: after →
    Fits before x

/-- Nothing posted is disciplined. -/
theorem Disciplined.nil : Disciplined [] := by
  intro before x after h
  simp at h

/-- The last notification fits what came before. -/
theorem Disciplined.snoc {l : List Posting} {x : Posting} (h : Disciplined l) (hx : Fits l x) :
    Disciplined (l ++ [x]) := by
  intro before y after heq
  rcases List.eq_nil_or_concat after with rfl | ⟨after, z, rfl⟩
  · obtain ⟨rfl, hxy⟩ := List.append_inj' heq rfl
    cases hxy
    exact hx
  · have hassoc : before ++ y :: (after.concat z) = (before ++ y :: after) ++ [z] := by simp
    obtain ⟨rfl, _⟩ := List.append_inj' (heq.trans hassoc) rfl
    exact h before y after rfl

/-- The beginning of a lawful history is lawful. -/
theorem Disciplined.of_append {l m : List Posting} (h : Disciplined (l ++ m)) : Disciplined l := by
  rintro before x after rfl
  exact h before x (after ++ m) (by simp)

/-! ## Threads -/

/-- The threads of the interface. -/
inductive Thread where
  | game
  | receive
  deriving DecidableEq, Repr

/-- The game thread calls the API and ticks, the receive thread handles datagrams. -/
def NodeAction.thread : NodeAction → Thread
  | .call _ => .game
  | .datagram .. => .receive

/-- A node, what its threads have still to post, and what has been posted. `made` are all
notifications in the order of the lock sections and `lives` counts the entries a key has had; the
code reads neither. -/
structure ThreadedNode where
  node : P2PNode
  outbox : Thread → List Posting := fun _ => []
  posted : List Posting := []
  made : List Posting := []
  lives : Bytes → ℕ := fun _ => 0

namespace ThreadedNode

/-- The entries the key has had after a step. -/
def livesAfter (w : ThreadedNode) (tr : Transition P2PNode NodeAction) (key : Bytes) : ℕ :=
  if Created key tr then w.lives key + 1 else w.lives key

/-- The entry was interrupted before and is there and not interrupted after. -/
def endsInterruption (o o' : Option Connection) : Bool :=
  (o.map (·.bInterrupted)).getD false && (o'.map (!·.bInterrupted)).getD false

/-- A notification with what its lock section knew. -/
def posting (w : ThreadedNode) (tr : Transition P2PNode NodeAction) (note : Notification)
    (stamp : ℕ) : Posting :=
  let key := note.connKey.getD []
  { note, stamp
    life := w.livesAfter tr key
    removed := decide (Removed key tr)
    answered := endsInterruption (tr.pre.p2p.connections.get? key)
      (tr.post.p2p.connections.get? key) }

/-- The notifications a step leaves to post. -/
def postings (w : ThreadedNode) (tr : Transition P2PNode NodeAction) : List Posting :=
  ((posts (tr.pre.outs tr.action)).zipIdx w.made.length).map fun e => w.posting tr e.1 e.2

/-- The node after one of its lock sections. -/
def after (w : ThreadedNode) (tr : Transition P2PNode NodeAction) : ThreadedNode :=
  { w with
    node := tr.post
    outbox := Function.update w.outbox tr.action.thread (w.postings tr)
    made := w.made ++ w.postings tr
    lives := w.livesAfter tr }

end ThreadedNode

/-- What can happen: a thread that has posted everything runs a lock section, or it posts its next
notification. -/
inductive ThreadedAction where
  | act (a : NodeAction)
  | post (t : Thread)

/-- The step function of the two threads. -/
def threadedStep (w : ThreadedNode) : ThreadedAction → Option ThreadedNode
  | .act a =>
      if (w.outbox a.thread).isEmpty then
        (nodeStep w.node a).map fun n => w.after ⟨w.node, a, n⟩
      else none
  | .post t =>
      match w.outbox t with
      | [] => none
      | x :: rest => some { w with
          outbox := Function.update w.outbox t rest, posted := w.posted ++ [x] }

/-- A freshly started node. -/
def ThreadedNode.start (localPid : ProductUserId) : ThreadedNode :=
  { node := P2PNode.start localPid }

/-! ## One connection, in the order of the lock sections -/

/-- What the history of a connection says about its entry, in the entry's `c`-th lifetime. -/
structure Linked (l : List Posting) (o : Option Connection) (c : ℕ) : Prop where
  lives : ∀ y ∈ l, y.life ≤ c
  open_ : o.isSome = true → ∀ y ∈ l, y.isClosed = true → y.life ≠ c
  fresh : ∀ conn, o = some conn → conn.bEstablished = false → ∀ y ∈ l, y.isNew = true → y.life ≠ c
  up : ∀ conn, o = some conn → conn.bInterrupted = false →
    ¬ Since (InterruptedIn c) (EstablishedIn c) l
  down : ∀ conn, o = some conn → conn.bInterrupted = true →
    Since (InterruptedIn c) (AnsweredIn c) l

/-- A connection without an entry or a history is well linked. -/
theorem Linked.nil : Linked [] none 0 := ⟨nofun, nofun, nofun, nofun, nofun⟩

section
variable {l : List Posting} {o : Option Connection} {c : ℕ} {conn : Connection}

/-- An entry that comes into being has no history. -/
theorem Linked.create (h : Linked l none c) (hint : conn.bInterrupted = false) :
    Linked l (some conn) (c + 1) := by
  have hold : ∀ y ∈ l, y.life ≠ c + 1 := by
    intro y hy hlife
    have hle := h.lives y hy
    omega
  refine ⟨fun y hy => Nat.le_succ_of_le (h.lives y hy), fun _ y hy _ => hold y hy,
    fun _ _ _ y hy _ => hold y hy, ?_, ?_⟩
  · rintro _ _ _ ⟨before, x, after, rfl, hx, _⟩
    exact hold x (by simp) hx.2
  · intro _ hc hdown
    cases hc
    rw [hint] at hdown
    cases hdown

/-- An entry that is there after a step was there before, or begins its next lifetime. -/
theorem Linked.entry {o' : Option Connection} {c' : ℕ} (h : Linked l o c)
    (hlife : c' = if o = none ∧ o'.isSome = true then c + 1 else c) (hsome : o'.isSome = true)
    (hint : conn.bInterrupted = false) : Linked l (some (o.getD conn)) c' := by
  cases o with
  | none =>
      rw [hlife, if_pos ⟨rfl, hsome⟩]
      exact h.create hint
  | some conn' =>
      rw [hlife, if_neg fun hnone => Option.some_ne_none _ hnone.1]
      exact h

/-- An entry that is erased leaves its lifetimes. -/
theorem Linked.remove (h : Linked l o c) : Linked l none c := ⟨h.lives, nofun, nofun, nofun, nofun⟩

/-- An entry that stays, and about which nothing is posted. -/
theorem Linked.quiet (h : Linked l (some conn) c) {conn' : Connection}
    (hest : conn'.bEstablished = false → conn.bEstablished = false)
    (hint : conn'.bInterrupted = conn.bInterrupted) : Linked l (some conn') c := by
  refine ⟨h.lives, fun _ => h.open_ rfl, ?_, ?_, ?_⟩
  · intro _ hc hf
    cases hc
    exact h.fresh conn rfl (hest hf)
  · intro _ hc hf
    cases hc
    exact h.up conn rfl (hint ▸ hf)
  · intro _ hc hf
    cases hc
    exact h.down conn rfl (hint ▸ hf)

/-- What a notification about an entry that stays says of the flags before and after. -/
inductive Tells (x : Posting) (conn conn' : Connection) : Prop
  /-- The peer stopped answering. -/
  | interrupted : x.isInterrupted = true → x.isEstablished = false → conn.bInterrupted = false →
      conn'.bInterrupted = true → Tells x conn conn'
  /-- The connection is there, or there again. -/
  | established : x.isInterrupted = false → x.answered = conn.bInterrupted →
      x.isEstablished = true → conn'.bInterrupted = false → Tells x conn conn'
  /-- Nothing about interruptions. -/
  | other : x.isInterrupted = false → x.answered = false →
      conn'.bInterrupted = conn.bInterrupted → Tells x conn conn'

/-- An entry that stays, and about which one notification is posted. -/
theorem Linked.post (h : Linked l (some conn) c) {conn' : Connection} {x : Posting}
    (hlife : x.life = c) (hclosed : x.isClosed = false)
    (hnew : x.isNew = true → conn.bEstablished = false)
    (hest : conn'.bEstablished = false → conn.bEstablished = false ∧ x.isNew = false)
    (htells : Tells x conn conn') : Fits l x ∧ Linked (l ++ [x]) (some conn') c := by
  subst hlife
  have hfits : Fits l x := by
    refine ⟨fun hc => ?_, h.lives, h.open_ rfl, fun hn => h.fresh conn rfl (hnew hn), fun hi => ?_,
      fun he ha => ?_⟩
    · rw [hclosed] at hc
      cases hc
    · cases htells with
      | interrupted _ _ hup _ => exact h.up conn rfl hup
      | established hno | other hno =>
          rw [hno] at hi
          cases hi
    · cases htells with
      | interrupted _ hno =>
          rw [hno] at he
          cases he
      | established _ hanswered => exact h.down conn rfl (hanswered ▸ ha)
      | other _ hno =>
          rw [hno] at ha
          cases ha
  refine ⟨hfits, ?_, fun _ y hy hc => ?_, ?_, ?_, ?_⟩
  · intro y hy
    rcases List.mem_append.1 hy with hy | hy
    · exact h.lives y hy
    · rw [List.mem_singleton.1 hy]
  · rcases List.mem_append.1 hy with hy | hy
    · exact h.open_ rfl y hy hc
    · rw [List.mem_singleton.1 hy, hclosed] at hc
      cases hc
  · intro _ hc hf y hy hn
    cases hc
    rcases List.mem_append.1 hy with hy | hy
    · exact h.fresh conn rfl (hest hf).1 y hy hn
    · rw [List.mem_singleton.1 hy, (hest hf).2] at hn
      cases hn
  · intro _ hc hf hsince
    cases hc
    rcases Lib.since_snoc.1 hsince with ⟨hi, _⟩ | ⟨hsince, he⟩
    · cases htells with
      | interrupted _ _ _ hdown =>
          rw [hdown] at hf
          cases hf
      | established hno | other hno =>
          rw [hno] at hi
          cases hi
    · cases htells with
      | interrupted _ _ hup _ => exact h.up conn rfl hup hsince
      | established _ _ hyes => exact he ⟨hyes, rfl⟩
      | other _ _ hsame => exact h.up conn rfl (hsame ▸ hf) hsince
  · intro _ hc hf
    cases hc
    cases htells with
    | interrupted hyes => exact .now ⟨hyes, rfl⟩
    | established _ _ _ hup =>
        rw [hup] at hf
        cases hf
    | other _ hno hsame =>
        refine (h.down conn rfl (hsame ▸ hf)).later ?_
        rintro ⟨_, ha⟩
        rw [hno] at ha
        cases ha

/-- An entry that is erased, which is posted. -/
theorem Linked.close (h : Linked l (some conn) c) {x : Posting} (hlife : x.life = c)
    (hremoved : x.removed = true)
    (hno : x.isNew = false ∧ x.isInterrupted = false ∧ x.isEstablished = false) :
    Fits l x ∧ Linked (l ++ [x]) none c := by
  subst hlife
  refine ⟨⟨fun _ => hremoved, h.lives, h.open_ rfl, ?_, ?_, ?_⟩, ?_, nofun, nofun, nofun, nofun⟩
  · intro hn
    rw [hno.1] at hn
    cases hn
  · intro hi
    rw [hno.2.1] at hi
    cases hi
  · intro he
    rw [hno.2.2] at he
    cases he
  · intro y hy
    rcases List.mem_append.1 hy with hy | hy
    · exact h.lives y hy
    · rw [List.mem_singleton.1 hy]

end

/-! ## One step -/

/-- The notifications a step leaves to post about one connection. -/
theorem postings_about (w : ThreadedNode) (tr : Transition P2PNode NodeAction) (key : Bytes) :
    ∃ stamps : List ℕ, stamps.length = (postsOf key (tr.pre.outs tr.action)).length ∧
      (w.postings tr).filter (about key) =
        List.zipWith (w.posting tr) (postsOf key (tr.pre.outs tr.action)) stamps := by
  unfold ThreadedNode.postings postsOf
  generalize posts (tr.pre.outs tr.action) = notes
  generalize w.made.length = k
  induction notes generalizing k with
  | nil => exact ⟨[], rfl, rfl⟩
  | cons note notes ih =>
      obtain ⟨stamps, hlen, heq⟩ := ih (k + 1)
      have habout : (w.posting tr note k).about key = decide (note.connKey = some key) := rfl
      rw [List.zipIdx_cons, List.map_cons, List.filter_cons, List.filter_cons, habout, heq]
      by_cases hkey : note.connKey = some key
      · exact ⟨k :: stamps, by simp [hkey, hlen], by simp [hkey]⟩
      · exact ⟨stamps, by simp [hkey, hlen], by simp [hkey]⟩

/-- A handler owes nothing, a new connection, or a reconnection. -/
theorem establishedNotes_cases (peer : ProductUserId) (socket : Bytes) (e r : Bool) :
    (establishedNotes peer socket e r = [] ∧ e = false ∧ r = false) ∨
    (establishedNotes peer socket e r = [.connectionEstablished peer socket .newConnection] ∧
      e = true) ∨
    (establishedNotes peer socket e r = [.connectionEstablished peer socket .reconnection] ∧
      e = false ∧ r = true) := by
  cases e <;> cases r <;> simp [establishedNotes]

/-- A `P2PConnectClose` finds its entry. -/
def CloseExpected (n : P2PNode) (a : NodeAction) : Prop :=
  ∀ m, a.received = some m → m.body = .connectClose →
    n.p2p.connections.contains (connKey m.sender m.socket) = true

/-- A lock section keeps the history of a connection lawful. -/
theorem made_step {w : ThreadedNode} {a : NodeAction} {n' : P2PNode} (hp : w.node.p2p.ConnKeyed)
    (hok : CloseExpected w.node a) (hst : nodeStep w.node a = some n') (key : Bytes)
    {l : List Posting} (hd : Disciplined l)
    (hl : Linked l (w.node.p2p.connections.get? key) (w.lives key)) :
    let tr : Transition P2PNode NodeAction := ⟨w.node, a, n'⟩
    Disciplined (l ++ (w.postings tr).filter (about key)) ∧
      Linked (l ++ (w.postings tr).filter (about key)) (n'.p2p.connections.get? key)
        (w.livesAfter tr key) := by
  intro tr
  have hchange := nodeStep_conn hp hst key
  obtain ⟨stamps, hlen, hnew⟩ := postings_about w tr key
  have hnotes : postsOf key (tr.pre.outs tr.action) = postsOf key (w.node.outs a) := rfl
  rw [hnotes] at hlen hnew
  rw [hnew]
  clear hnew hnotes
  -- what a posting about this connection carries
  have hposting : ∀ note k, note.connKey = some key → w.posting tr note k =
      { note, stamp := k, life := w.livesAfter tr key, removed := decide (Removed key tr)
        answered := ThreadedNode.endsInterruption (w.node.p2p.connections.get? key)
          (n'.p2p.connections.get? key) } := by
    intro note k hkey
    simp only [ThreadedNode.posting, hkey, Option.getD_some, tr]
  have hcreated : w.livesAfter tr key = if w.node.p2p.connections.get? key = none ∧
      (n'.p2p.connections.get? key).isSome = true then w.lives key + 1 else w.lives key := rfl
  have hremoved : Removed key tr ↔ (w.node.p2p.connections.get? key).isSome = true ∧
      n'.p2p.connections.get? key = none := Iff.rfl
  have hexpected : ∀ m, a.received = some m → m.body = .connectClose →
      connKey m.sender m.socket = key → (w.node.p2p.connections.get? key).isSome = true := by
    rintro m hm hbody rfl
    exact hok m hm hbody
  have hkeyed : ∀ conn, w.node.p2p.connections.get? key = some conn →
      connKey conn.peer conn.socketName = key := fun conn hc => (hp key conn hc).symm
  generalize w.livesAfter tr key = c at hposting hcreated ⊢
  generalize ho : w.node.p2p.connections.get? key = o at *
  clear ho
  generalize n'.p2p.connections.get? key = o' at hchange hposting hcreated hremoved ⊢
  generalize postsOf key (w.node.outs a) = notes at hchange hlen ⊢
  have hbase := fun (d : Connection) (hdown : d.bInterrupted = false) (hsome : o'.isSome = true) =>
    hl.entry hcreated hsome hdown
  -- an entry that is gone after the step
  have hgone : o' = none → c = w.lives key := by
    rintro rfl
    rw [hcreated, if_neg (fun h => by cases h.2)]
  -- nothing is posted, or one notification
  have hnone : ∀ o'', notes = [] → Linked l o'' c →
      Disciplined (l ++ List.zipWith (w.posting tr) notes stamps) ∧
        Linked (l ++ List.zipWith (w.posting tr) notes stamps) o'' c := by
    rintro o'' rfl h
    rw [List.zipWith_nil_left, List.append_nil]
    exact ⟨hd, h⟩
  have hone : ∀ o'' note, notes = [note] → note.connKey = some key →
      (∀ k, let x : Posting := ⟨note, k, c, decide (Removed key tr),
          ThreadedNode.endsInterruption o o'⟩
        Fits l x ∧ Linked (l ++ [x]) o'' c) →
      Disciplined (l ++ List.zipWith (w.posting tr) notes stamps) ∧
        Linked (l ++ List.zipWith (w.posting tr) notes stamps) o'' c := by
    rintro o'' note rfl hkey h
    obtain ⟨k, rfl⟩ := List.length_eq_one_iff.1 hlen
    have hx := h k
    dsimp only at hx
    rw [List.zipWith_cons_cons, List.zipWith_nil_left, hposting note k hkey]
    exact ⟨hd.snoc hx.1, hx.2⟩
  cases hchange with
  | keep _ _ =>
      refine hnone _ rfl ?_
      cases o with
      | none =>
          rw [hgone rfl]
          exact hl
      | some conn => exact hbase {} rfl rfl
  | send _ _ _ _ => exact hnone _ rfl ((hbase _ rfl rfl).quiet (fun h => h) rfl)
  | accept _ _ _ hkey =>
      have h := hbase {} rfl rfl
      rcases establishedNotes_cases _ _ _ _ with ⟨hno, hest, _⟩ | ⟨hnew, hest⟩ | ⟨_, _, hr⟩
      · refine hnone _ hno (h.quiet ?_ rfl)
        intro hf
        cases hf
      · refine hone _ _ hnew (congrArg some hkey) fun k =>
          h.post rfl rfl (fun _ => by simpa using hest) ?_ (.other rfl ?_ rfl)
        · intro hf
          cases hf
        · cases o <;> simp [ThreadedNode.endsInterruption]
      · cases hr
  | request _ _ hkey _ =>
      refine hone _ _ rfl (congrArg some hkey) fun k => (hbase {} rfl rfl).post rfl rfl
        (fun hn => by cases hn) (fun hf => ⟨hf, rfl⟩) (.other rfl ?_ rfl)
      cases o <;> simp [ThreadedNode.endsInterruption]
  | accepted _ _ hkey | data _ _ hkey =>
      have h := hbase {} rfl rfl
      rcases establishedNotes_cases _ _ _ _ with ⟨hno, hest, hr⟩ | ⟨hnew, hest⟩ | ⟨hrec, hest, hr⟩
      · refine hnone _ hno (h.quiet ?_ hr.symm)
        intro hf
        cases hf
      · refine hone _ _ hnew (congrArg some hkey) fun k =>
          h.post rfl rfl (fun _ => by simpa using hest) ?_ (.established rfl ?_ rfl rfl)
        · intro hf
          cases hf
        · cases o <;> simp [ThreadedNode.endsInterruption]
      · refine hone _ _ hrec (congrArg some hkey) fun k =>
          h.post rfl rfl (fun hn => by cases hn) ?_ (.established rfl ?_ rfl rfl)
        · intro hf
          cases hf
        · cases o <;> simp [ThreadedNode.endsInterruption]
  | @ack conn _ _ _ hkey =>
      have h := hbase {} rfl rfl
      rcases establishedNotes_cases _ _ _ _ with ⟨hno, _, hr⟩ | ⟨_, hest⟩ | ⟨hrec, _, hr⟩
      · exact hnone _ hno (h.quiet (fun hf => hf) hr.symm)
      · cases hest
      · refine hone _ _ hrec (congrArg some hkey) fun k =>
          h.post rfl rfl (fun hn => by cases hn) (fun hf => ⟨hf, rfl⟩)
            (.established rfl ?_ rfl rfl)
        simp [ThreadedNode.endsInterruption]
  | closeLocal _ =>
      refine hnone _ rfl ?_
      rw [hgone rfl]
      exact hl.remove
  | ignored _ _ hkey =>
      rw [hgone rfl] at hnone hone ⊢
      cases o with
      | none => exact hnone _ rfl hl.remove
      | some conn =>
          exact hone _ _ rfl (congrArg some hkey) fun k =>
            hl.close rfl (decide_eq_true (hremoved.2 ⟨rfl, rfl⟩)) ⟨rfl, rfl, rfl⟩
  | closedByPeer hm hbody hkey =>
      rw [hgone rfl] at hone ⊢
      cases o with
      | none => cases hexpected _ hm hbody hkey
      | some conn =>
          exact hone _ _ rfl (congrArg some hkey) fun k =>
            hl.close rfl (decide_eq_true (hremoved.2 ⟨rfl, rfl⟩)) ⟨rfl, rfl, rfl⟩
  | interrupt _ hfresh hkey _ =>
      exact hone _ _ rfl (congrArg some hkey) fun k => (hbase {} rfl rfl).post rfl rfl
        (fun hn => by cases hn) (fun hf => ⟨hf, rfl⟩) (.interrupted rfl rfl hfresh rfl)
  | timeout _ _ =>
      rw [hgone rfl] at hone ⊢
      exact hone _ _ rfl (congrArg some (hkeyed _ rfl)) fun k =>
        hl.close rfl (decide_eq_true (hremoved.2 ⟨rfl, rfl⟩)) ⟨rfl, rfl, rfl⟩

/-! ## The two threads -/

/-- No other thread has an earlier notification about the same connection still to post. -/
def InTurn (w : ThreadedNode) (t : Thread) : Prop :=
  ∀ x ∈ (w.outbox t).head?, ∀ t', t' ≠ t → ∀ y ∈ w.outbox t', ∀ key, x.about key = true →
    y.about key = true → x.stamp < y.stamp

/-- What is posted is, for each connection, the beginning of what was made; the rest waits with the
threads. -/
structure ThreadedNode.Ordered (w : ThreadedNode) : Prop where
  made : w.made.Pairwise (·.stamp < ·.stamp)
  bound : ∀ x ∈ w.made, x.stamp < w.made.length
  outbox : ∀ t, (w.outbox t).Pairwise (·.stamp < ·.stamp)
  rest : ∀ key, ∃ rest, w.made.filter (about key) = w.posted.filter (about key) ++ rest ∧
    ∀ y, y ∈ rest ↔ y.about key = true ∧ ∃ t, y ∈ w.outbox t

/-- A new node is in order. -/
theorem ThreadedNode.Ordered.start (localPid : ProductUserId) :
    (ThreadedNode.start localPid).Ordered := by
  refine ⟨.nil, nofun, fun _ => .nil, fun key => ⟨[], rfl, fun y => ?_⟩⟩
  constructor
  · intro h
    cases h
  · rintro ⟨_, _, h⟩
    cases h

/-- The postings of a step are numbered from the end of what was made. -/
theorem ThreadedNode.postings_stamps (w : ThreadedNode) (tr : Transition P2PNode NodeAction) :
    (w.postings tr).map (·.stamp) = List.range' w.made.length (w.postings tr).length := by
  have hlen : (w.postings tr).length = (posts (tr.pre.outs tr.action)).length := by
    simp [ThreadedNode.postings]
  rw [hlen, ← List.zipIdx_map_snd, ThreadedNode.postings, List.map_map]
  rfl

/-- A lock section. -/
theorem ThreadedNode.Ordered.after {w : ThreadedNode} (h : w.Ordered)
    {tr : Transition P2PNode NodeAction} (hidle : w.outbox tr.action.thread = []) :
    (w.after tr).Ordered := by
  have hstamps := w.postings_stamps tr
  have hsorted : (w.postings tr).Pairwise (·.stamp < ·.stamp) := by
    rw [← List.pairwise_map (f := Posting.stamp) (R := (· < ·)), hstamps]
    exact List.pairwise_lt_range'
  have hrange : ∀ x ∈ w.postings tr, w.made.length ≤ x.stamp ∧
      x.stamp < w.made.length + (w.postings tr).length := by
    intro x hx
    have hmem : x.stamp ∈ (w.postings tr).map (·.stamp) := List.mem_map.2 ⟨x, hx, rfl⟩
    rw [hstamps] at hmem
    exact List.mem_range'_1.1 hmem
  have houtbox : ∀ t, (w.after tr).outbox t =
      if t = tr.action.thread then w.postings tr else w.outbox t := by
    intro t
    show Function.update w.outbox tr.action.thread (w.postings tr) t = _
    rw [Function.update_apply]
  refine ⟨?_, ?_, ?_, fun key => ?_⟩
  · refine List.pairwise_append.2 ⟨h.made, hsorted, fun x hx y hy => ?_⟩
    exact Nat.lt_of_lt_of_le (h.bound x hx) (hrange y hy).1
  · intro x hx
    show x.stamp < (w.made ++ w.postings tr).length
    rw [List.length_append]
    rcases List.mem_append.1 hx with hx | hx
    · exact Nat.lt_add_right _ (h.bound x hx)
    · exact (hrange x hx).2
  · intro t
    rw [houtbox]
    split
    · exact hsorted
    · exact h.outbox t
  · obtain ⟨rest, hrest, hmem⟩ := h.rest key
    refine ⟨rest ++ (w.postings tr).filter (about key), ?_, fun y => ?_⟩
    · show (w.made ++ w.postings tr).filter (about key) = _
      rw [List.filter_append, hrest, List.append_assoc]
      rfl
    · rw [List.mem_append, hmem, List.mem_filter]
      constructor
      · rintro (⟨hkey, t, ht⟩ | ⟨hy, hkey⟩)
        · refine ⟨hkey, t, ?_⟩
          rw [houtbox, if_neg]
          · exact ht
          · rintro rfl
            rw [hidle] at ht
            cases ht
        · exact ⟨hkey, _, by rw [houtbox, if_pos rfl]; exact hy⟩
      · rintro ⟨hkey, t, ht⟩
        rw [houtbox] at ht
        split at ht
        · exact .inr ⟨ht, hkey⟩
        · exact .inl ⟨hkey, t, ht⟩

/-- A notification that is posted in its turn. -/
theorem ThreadedNode.Ordered.post {w : ThreadedNode} (h : w.Ordered) {t : Thread} {x : Posting}
    {tail : List Posting} (ht : w.outbox t = x :: tail) (hturn : InTurn w t) :
    ThreadedNode.Ordered { w with
      outbox := Function.update w.outbox t tail, posted := w.posted ++ [x] } := by
  have hbox := h.outbox t
  rw [ht, List.pairwise_cons] at hbox
  have hupdate : ∀ t', Function.update w.outbox t tail t' = if t' = t then tail else w.outbox t' :=
    fun t' => Function.update_apply ..
  -- every other waiting notification about its connection is later
  have hfirst : ∀ key y t', x.about key = true → y.about key = true →
      y ∈ Function.update w.outbox t tail t' → x.stamp < y.stamp := by
    intro key y t' hx hy hmem
    rw [hupdate] at hmem
    split at hmem
    · exact hbox.1 y hmem
    · next hne => exact hturn x (by rw [ht]; rfl) t' hne y hmem key hx hy
  refine ⟨h.made, h.bound, fun t' => ?_, fun key => ?_⟩
  · show (Function.update w.outbox t tail t').Pairwise _
    rw [hupdate]
    split
    · exact hbox.2
    · exact h.outbox t'
  · obtain ⟨rest, hrest, hmem⟩ := h.rest key
    have hwaiting : ∀ y, (∃ t', y ∈ w.outbox t') ↔
        y = x ∨ ∃ t', y ∈ Function.update w.outbox t tail t' := by
      intro y
      constructor
      · rintro ⟨t', hy⟩
        by_cases htt : t' = t
        · subst htt
          rw [ht] at hy
          rcases List.mem_cons.1 hy with rfl | hy
          · exact .inl rfl
          · exact .inr ⟨t', by rw [hupdate, if_pos rfl]; exact hy⟩
        · exact .inr ⟨t', by rw [hupdate, if_neg htt]; exact hy⟩
      · rintro (rfl | ⟨t', hy⟩)
        · exact ⟨t, by rw [ht]; exact List.mem_cons_self⟩
        · rw [hupdate] at hy
          split at hy
          · exact ⟨t, by rw [ht]; exact List.mem_cons_of_mem _ hy⟩
          · exact ⟨t', hy⟩
    by_cases hkey : x.about key = true
    · -- it is the first of the rest
      have hsorted : rest.Pairwise (·.stamp < ·.stamp) := by
        have hall := h.made.sublist (List.filter_sublist (p := about key))
        rw [hrest] at hall
        exact (List.pairwise_append.1 hall).2.1
      have hxrest : x ∈ rest := (hmem x).2 ⟨hkey, (hwaiting x).2 (.inl rfl)⟩
      cases rest with
      | nil => cases hxrest
      | cons y rest =>
          rw [List.pairwise_cons] at hsorted
          obtain rfl : y = x := by
            by_contra hne
            obtain ⟨hy, hbox⟩ := (hmem y).1 List.mem_cons_self
            rcases (hwaiting y).1 hbox with rfl | ⟨t', hy'⟩
            · exact hne rfl
            · have hlater := hfirst key y t' hkey hy hy'
              rcases List.mem_cons.1 hxrest with rfl | hx
              · exact hne rfl
              · exact absurd (hsorted.1 x hx) (Nat.not_lt.2 hlater.le)
          refine ⟨rest, ?_, fun z => ?_⟩
          · show w.made.filter (about key) = (w.posted ++ [y]).filter (about key) ++ rest
            rw [hrest, List.filter_append, List.filter_cons, if_pos hkey, List.append_assoc]
            rfl
          · constructor
            · intro hz
              obtain ⟨hzkey, hbox⟩ := (hmem z).1 (List.mem_cons_of_mem _ hz)
              rcases (hwaiting z).1 hbox with rfl | hbox
              · exact absurd (hsorted.1 z hz) (Nat.lt_irrefl _)
              · exact ⟨hzkey, hbox⟩
            · rintro ⟨hzkey, t', hz⟩
              have hlater := hfirst key z t' hkey hzkey hz
              rcases List.mem_cons.1
                ((hmem z).2 ⟨hzkey, (hwaiting z).2 (.inr ⟨t', hz⟩)⟩) with rfl | hz
              · exact absurd hlater (Nat.lt_irrefl _)
              · exact hz
    · refine ⟨rest, ?_, fun z => ?_⟩
      · show w.made.filter (about key) = (w.posted ++ [x]).filter (about key) ++ rest
        rw [hrest, List.filter_append, List.filter_cons, if_neg hkey, List.filter_nil,
          List.append_nil]
      · rw [hmem, hwaiting]
        constructor
        · rintro ⟨hz, rfl | hbox⟩
          · exact absurd hz hkey
          · exact ⟨hz, hbox⟩
        · rintro ⟨hz, hbox⟩
          exact ⟨hz, .inr hbox⟩

/-- The lock sections meet their condition. -/
def Expected (w : ThreadedNode) : ThreadedAction → Prop
  | .act a => CloseExpected w.node a
  | .post _ => True

/-- So do they, and the threads post in turn. -/
def Orderly (w : ThreadedNode) : ThreadedAction → Prop
  | .act a => CloseExpected w.node a
  | .post t => InTurn w t

/-- In the order of the lock sections the history of every connection is lawful, where every
`P2PConnectClose` finds its entry. -/
theorem made_disciplined {localPid : ProductUserId} {w : ThreadedNode}
    (h : Run threadedStep Expected (ThreadedNode.start localPid) w) (key : Bytes) :
    Disciplined (w.made.filter (about key)) := by
  have hinv : w.node.p2p.ConnKeyed ∧ Disciplined (w.made.filter (about key)) ∧
      Linked (w.made.filter (about key)) (w.node.p2p.connections.get? key) (w.lives key) := by
    refine h.invariant (P := fun w => w.node.p2p.ConnKeyed ∧
      Disciplined (w.made.filter (about key)) ∧
      Linked (w.made.filter (about key)) (w.node.p2p.connections.get? key) (w.lives key)) ?_ ?_
    · exact ⟨nofun, .nil, .nil⟩
    · intro u v a hu hok hst
      obtain ⟨hk, hd, hl⟩ := hu
      cases a with
      | act a =>
          simp only [threadedStep] at hst
          split at hst
          · obtain ⟨n, hn, rfl⟩ := Option.map_eq_some_iff.1 hst
            have hstep := made_step hk hok hn key hd hl
            refine ⟨nodeStep_keyed hk hn, ?_, ?_⟩
            · show Disciplined ((u.made ++ u.postings ⟨u.node, a, n⟩).filter (about key))
              rw [List.filter_append]
              exact hstep.1
            · show Linked ((u.made ++ u.postings ⟨u.node, a, n⟩).filter (about key)) _ _
              rw [List.filter_append]
              exact hstep.2
          · cases hst
      | post t =>
          simp only [threadedStep] at hst
          split at hst
          · cases hst
          · cases hst
            exact ⟨hk, hd, hl⟩
  exact hinv.2.1

/-- **Notification discipline**, as long as every `P2PConnectClose` finds its entry and the threads
do not overtake each other about one connection: in every run, what has been posted about a
connection follows the life of its entry. -/
theorem posted_disciplined (localPid : ProductUserId) {w : ThreadedNode}
    (h : Run threadedStep Orderly (ThreadedNode.start localPid) w) (key : Bytes) :
    Disciplined (w.posted.filter (about key)) := by
  have hordered : w.Ordered := by
    refine h.invariant (P := ThreadedNode.Ordered) (.start localPid) ?_
    intro u v a hu hok hst
    cases a with
    | act a =>
        simp only [threadedStep] at hst
        split at hst
        · next hidle =>
            obtain ⟨n, hn, rfl⟩ := Option.map_eq_some_iff.1 hst
            exact hu.after (List.isEmpty_iff.1 hidle)
        · cases hst
    | post t =>
        simp only [threadedStep] at hst
        split at hst
        · cases hst
        · next x rest hbox =>
            cases hst
            exact hu.post hbox hok
  have hrun : Run threadedStep Expected (ThreadedNode.start localPid) w := by
    refine h.mono fun w a hok => ?_
    cases a with
    | act a => exact hok
    | post t => trivial
  obtain ⟨rest, hrest, _⟩ := hordered.rest key
  have hmade := made_disciplined hrun key
  rw [hrest] at hmade
  exact hmade.of_append

/-- The executable form of `Orderly`. -/
def orderlyTest (w : ThreadedNode) : ThreadedAction → Bool
  | .act a =>
      match a.received with
      | some m => m.body ≠ .connectClose || w.node.p2p.connections.contains
        (connKey m.sender m.socket)
      | none => true
  | .post t =>
      match w.outbox t with
      | [] => true
      | x :: _ => [Thread.game, .receive].all fun t' => t' = t || (w.outbox t').all fun y =>
          x.note.connKey ≠ y.note.connKey || x.stamp < y.stamp

/-- A step that passes the test meets `Orderly`. -/
theorem orderlyTest_orderly (w : ThreadedNode) (a : ThreadedAction) (h : orderlyTest w a = true) :
    Orderly w a := by
  cases a with
  | act a =>
      intro m hm hbody
      simp only [orderlyTest, hm, hbody] at h
      simpa using h
  | post t =>
      intro x hx t' hne y hy key hxkey hykey
      simp only [orderlyTest] at h
      cases hbox : w.outbox t with
      | nil =>
          rw [hbox] at hx
          cases hx
      | cons x' rest =>
          rw [hbox] at hx h
          cases hx
          have hall := List.all_eq_true.1 h t' (by cases t' <;> simp)
          have hboth : x.note.connKey = y.note.connKey := by
            rw [Posting.about, decide_eq_true_eq] at hxkey hykey
            rw [hxkey, hykey]
          rw [decide_eq_false hne, Bool.false_or] at hall
          simpa [hboth] using List.all_eq_true.1 hall y hy

/-- The peer closes a connection that the application has accepted. -/
def closeOfPeer : ThreadedAction :=
  .act (.datagram sampleEndpoint .p2pConnectClose (encode ⟨str "b", str "CHAT", .connectClose⟩) 0
    0)

/-- A connection is accepted, which is posted, and closed, which is posted too. -/
theorem posted_disciplined_sample :
    ∃ w, Run threadedStep Orderly (ThreadedNode.start (str "a")) w ∧
      w.posted.map (·.note) = [.connectionEstablished (str "b") (str "CHAT") .newConnection,
        .connectionClosed (str "b") (str "CHAT") .closedByPeer] ∧
      Disciplined (w.posted.filter (about (connKey (str "b") (str "CHAT")))) := by
  have hrun : (execIf threadedStep orderlyTest (ThreadedNode.start (str "a"))
      [.act (.call (.acceptConnection (some ⟨str "b", some (str "CHAT")⟩))), .post .game,
        closeOfPeer, .post .receive]).map (fun w => w.posted.map (·.note)) =
      some [.connectionEstablished (str "b") (str "CHAT") .newConnection,
        .connectionClosed (str "b") (str "CHAT") .closedByPeer] := by decide +kernel
  obtain ⟨w, hw, hposted⟩ := Option.map_eq_some_iff.1 hrun
  have hl := Run.of_execIf orderlyTest_orderly hw
  exact ⟨w, hl, hposted, posted_disciplined (str "a") hl _⟩

/-- Without the conditions this fails: a `P2PConnectClose` for a connection that does not exist is
posted as its `Closed`. -/
theorem not_disciplined :
    ¬ ∀ w, Run threadedStep Always (ThreadedNode.start (str "a")) w → ∀ key,
      Disciplined (w.posted.filter (about key)) := by
  intro h
  have hrun : (exec threadedStep (ThreadedNode.start (str "a")) [closeOfPeer, .post .receive]).map
      (fun w => (w.posted.filter (about (connKey (str "b") (str "CHAT")))).map fun x =>
        (x.isClosed, x.removed)) = some [(true, false)] := by decide +kernel
  obtain ⟨w, hw, heq⟩ := Option.map_eq_some_iff.1 hrun
  obtain ⟨x, hx, hflags⟩ := List.map_eq_singleton_iff.1 heq
  obtain ⟨hclosed, hremoved⟩ := Prod.ext_iff.1 hflags
  have hfits := h w (Run.of_exec hw) _ [] x [] hx
  rw [hfits.removed hclosed] at hremoved
  cases hremoved

/-- Nor is the first condition enough: the receive thread can overtake the game thread, and the
connection's `Established` is posted after its `Closed`. -/
theorem not_disciplined_overtaking :
    ¬ ∀ w, Run threadedStep Expected (ThreadedNode.start (str "a")) w → ∀ key,
      Disciplined (w.posted.filter (about key)) := by
  intro h
  have hrun : (execIf threadedStep (fun w a => match a with
      | .act a => orderlyTest w (.act a)
      | .post _ => true) (ThreadedNode.start (str "a"))
      [.act (.call (.acceptConnection (some ⟨str "b", some (str "CHAT")⟩))), closeOfPeer,
        .post .receive, .post .game]).map (fun w =>
        (w.posted.filter (about (connKey (str "b") (str "CHAT")))).map fun x =>
          (x.isClosed, x.life)) =
      some [(true, 1), (false, 1)] := by decide +kernel
  obtain ⟨w, hw, heq⟩ := Option.map_eq_some_iff.1 hrun
  have hl : Run threadedStep Expected (ThreadedNode.start (str "a")) w := by
    refine Run.of_execIf (fun w a ha => ?_) hw
    cases a with
    | act a => exact orderlyTest_orderly w (.act a) ha
    | post t => trivial
  obtain ⟨x, l, hcons, hx, hrest⟩ := List.map_eq_cons_iff.1 heq
  obtain ⟨y, rfl, hy⟩ := List.map_eq_singleton_iff.1 hrest
  have hfits := h w hl _ [x] y [] hcons
  have hxclosed : x.isClosed = true := congrArg Prod.fst hx
  have hxlife : x.life = 1 := congrArg Prod.snd hx
  have hylife : y.life = 1 := congrArg Prod.snd hy
  exact hfits.open_ x (List.mem_singleton_self x) hxclosed (hxlife.trans hylife.symm)

end EOSEmu
