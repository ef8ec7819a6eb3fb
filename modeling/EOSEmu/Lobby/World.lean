import EOSEmu.Lobby.Datagram
import EOSEmu.Lobby.Node
import EOSEmu.Lib.Network

/-!
# Lobby nodes on the network

The lobby interfaces of any number of nodes, each named by its product id, with the datagrams
between them. A link holds the bytes that were sent, and the receiver reads them; a datagram that
it cannot read it drops. What one node does in a step of the network is a locked section of
`LobbyNode` (`node_step`), so what a section keeps holds at every node of a run.
-/

namespace EOSEmu

open Lib

/-- A received announce makes the node the owner of its lobby. -/
def LobbyNode.takesOver (n : LobbyNode) : LobbyMessage → Bool
  | .announce r => r.lobbyId ∈ n.lobby.memberOf ∧ r.lobbyId ∉ n.lobby.owned ∧
      r.ownerProductId = n.lobby.localPid
  | _ => false

/-- What the receive thread does with a message, at the receiver's tick. -/
def LobbyNode.handle (n : LobbyNode) (tick : UInt64) (source : Endpoint) (m : LobbyMessage) :
    Section LobbyNode LobbySend :=
  let o := n.lobby.onDatagram tick source m
  { node := { n with lobby := o.state }, later := o.sends }

/-- Lobby nodes that receive unicasts at the given endpoints. A delivery brings along the
receiver's tick. -/
def lobbyProtocol (endpoint : Bytes → Endpoint) :
    Protocol Bytes LobbyAction UInt64 LobbyNode LobbySend LobbyDatagram where
  call n a := if a.isDatagram then none else (n.outcome a).map fun o =>
    { node := { lobby := o.state, details := n.held a }, later := o.sends }
  handle n tick s d := (d.read.map (n.handle tick (endpoint s))).getD { node := n }
  wire
    | .broadcast m, _ => if fits m.payload then some m.datagram else none
    | .sendTo dest m, r => if fits m.payload ∧ dest.valid ∧
      endpoint r = dest then some m.datagram else none
  takes n d := d.read.any n.takesOver

/-- The state of a network of lobby nodes. -/
abbrev LobbyWorld := World Bytes LobbyNode LobbySend LobbyDatagram

/-- What happens next on a network of lobby nodes. -/
abbrev LobbyEvent := NetAction Bytes LobbyAction UInt64

/-- A transition of the network. -/
abbrev LobbyTransition := Transition LobbyWorld LobbyEvent

namespace LobbyWorld

/-- Fresh platforms. -/
def start : LobbyWorld := { nodes := LobbyNode.start }

/-- The locked section a node takes in a step of the network: the one it is called for, or the one
for the message it reads. -/
def actionAt (endpoint : Bytes → Endpoint) (w : LobbyWorld) (i : Bytes) :
    LobbyEvent → Option LobbyAction
  | .call j a => if j = i ∧ a.isDatagram = false then some a else none
  | .receive s r k tick _ =>
      if r = i then (w.links s r)[k]?.bind fun c =>
        c.message.read.map (.datagram tick (endpoint s)) else none
  | .send _ _ | .lose _ _ _ => none

variable {endpoint : Bytes → Endpoint} {w w' : LobbyWorld} {a : LobbyEvent}

/-- A datagram that is read is handled as its message. -/
theorem handle_read {n : LobbyNode} {tick : UInt64} {s : Bytes} {d : LobbyDatagram}
    {m : LobbyMessage} (h : d.read = some m) :
    (lobbyProtocol endpoint).handle n tick s d = n.handle tick
      (endpoint s) m := by
  show (d.read.map (n.handle tick (endpoint s))).getD _ = _
  rw [h]
  rfl

/-- One that is not read changes nothing. -/
theorem handle_unread {n : LobbyNode} {tick : UInt64} {s : Bytes} {d : LobbyDatagram}
    (h : d.read = none) : (lobbyProtocol endpoint).handle n tick s d = { node := n } := by
  show (d.read.map (n.handle tick (endpoint s))).getD _ = _
  rw [h]
  rfl

/-- No send is made under the lock. -/
theorem handle_locked (n : LobbyNode) (tick : UInt64) (s : Bytes) (d : LobbyDatagram) :
    ((lobbyProtocol endpoint).handle n tick s d).locked = [] := by
  cases h : d.read with
  | none => rw [handle_unread h]
  | some m =>
      rw [handle_read h]
      rfl

/-- The section of a delivery. -/
theorem actionAt_receive {s r : Bytes} {k : ℕ} {tick : UInt64} {keep : Bool}
    {c : Copy LobbyDatagram} (hc : (w.links s r)[k]? = some c) :
    actionAt endpoint w r (.receive s r k tick keep) =
      c.message.read.map (.datagram tick (endpoint s)) := by
  rw [actionAt, if_pos rfl, hc, Option.bind_some]

/-- A node does nothing in a step of the network, or takes one locked section. -/
theorem node_step (h : (lobbyProtocol endpoint).step w a = some w') (i : Bytes) :
    (actionAt endpoint w i a = none ∧ w'.nodes i = w.nodes i) ∨
      ∃ b, actionAt endpoint w i a = some b ∧ (w.nodes i).step b = some (w'.nodes i) := by
  cases a with
  | call j b =>
      obtain ⟨_, o, ho, rfl⟩ := Protocol.step_call h
      simp only [lobbyProtocol] at ho
      split at ho
      · cases ho
      · next hb =>
          obtain ⟨q, hq, rfl⟩ := Option.map_eq_some_iff.1 ho
          by_cases hj : j = i
          · subst hj
            refine .inr ⟨b, if_pos ⟨rfl, by simpa using hb⟩, ?_⟩
            have hnode := Function.update_self j
              ({ lobby := q.state, details := (w.nodes j).held b } : LobbyNode) w.nodes
            rw [LobbyNode.step, hq]
            exact congrArg some hnode.symm
          · refine .inl ⟨if_neg fun hji => hj hji.1, ?_⟩
            exact Function.update_of_ne (Ne.symm hj) _ _
  | send j th =>
      obtain ⟨x, xs, _, rfl⟩ := Protocol.step_send h
      exact .inl ⟨rfl, rfl⟩
  | receive s r k tick keep =>
      obtain ⟨_, c, hc, rfl⟩ := Protocol.step_receive h
      by_cases hr : r = i
      · subst hr
        rw [actionAt_receive hc]
        have hnode := Function.update_self r
          ((lobbyProtocol endpoint).handle (w.nodes r) tick s c.message).node w.nodes
        cases hread : c.message.read with
        | none => exact .inl ⟨rfl, hnode.trans (congrArg Section.node (handle_unread hread))⟩
        | some m => exact .inr ⟨_, rfl, congrArg some
          (hnode.trans (congrArg Section.node (handle_read hread))).symm⟩
      · exact .inl ⟨if_neg hr, Function.update_of_ne (Ne.symm hr) _ _⟩
  | lose s r k =>
      obtain ⟨_, rfl⟩ := Protocol.step_lose h
      exact .inl ⟨rfl, rfl⟩

/-- The section a node takes leaves its state and, in the outbox of the thread, its sends. -/
theorem section_step (h : (lobbyProtocol endpoint).step w a = some w') {i : Bytes}
    {b : LobbyAction} (hb : actionAt endpoint w i a = some b) :
    ∃ o, (w.nodes i).outcome b = some o ∧ (w'.nodes i).lobby = o.state ∧
    ∃ th, w'.out i th = o.sends := by
  rcases node_step h i with ⟨hnone, _⟩ | ⟨b', hb', hn⟩
  · rw [hnone] at hb
    cases hb
  cases hb.symm.trans hb'
  obtain ⟨o, ho, hnode⟩ := Option.map_eq_some_iff.1 hn
  refine ⟨o, ho, (congrArg LobbyNode.lobby hnode).symm, ?_⟩
  cases a with
  | call j b' =>
      obtain ⟨_, x, hx, rfl⟩ := Protocol.step_call h
      simp only [actionAt] at hb
      split at hb
      · next hj =>
          obtain ⟨rfl, hcall⟩ := hj
          cases hb
          simp only [lobbyProtocol, hcall, Bool.false_eq_true, if_false, ho] at hx
          cases hx
          exact ⟨.game, if_pos ⟨rfl, rfl⟩⟩
      · cases hb
  | receive s r k tick keep =>
      obtain ⟨_, c, hc, rfl⟩ := Protocol.step_receive h
      by_cases hr : r = i
      · subst hr
        rw [actionAt_receive hc] at hb
        obtain ⟨m, hread, rfl⟩ := Option.map_eq_some_iff.1 hb
        cases ho
        refine ⟨.receive, Eq.trans (if_pos ⟨rfl, rfl⟩) ?_⟩
        rw [handle_read hread]
        rfl
      · rw [actionAt, if_neg hr] at hb
        cases hb
  | send | lose => cases hb

/-- A unicast goes to the nodes at its destination. -/
theorem wire_sendTo (dest : Endpoint) (m : LobbyMessage) (r : Bytes) :
    (lobbyProtocol endpoint).wire (.sendTo dest m) r =
      if fits m.payload ∧ dest.valid ∧ endpoint r = dest then some m.datagram else none := rfl

/-- A send puts the datagram of its own message on a link, if it fits. -/
theorem message_of_wire {x : LobbySend} {r : Bytes} {d : LobbyDatagram}
    (h : (lobbyProtocol endpoint).wire x r = some d) :
      x.message.datagram = d ∧ fits x.message.payload = true := by
  cases x with
  | broadcast m =>
      obtain ⟨hfits, hd⟩ := Option.ite_none_right_eq_some.1 h
      exact ⟨Option.some.inj hd, hfits⟩
  | sendTo dest m =>
      obtain ⟨hfits, hd⟩ := Option.ite_none_right_eq_some.1 h
      exact ⟨Option.some.inj hd, hfits.1⟩

/-- A section of the protocol is a locked section of the node, or drops what it cannot read. All
sends are made after the lock is released. -/
theorem outcome_of_sectionAt {i : Bytes} {o : Section LobbyNode LobbySend}
    (h : Protocol.SectionAt (lobbyProtocol endpoint) w i a o) :
    (actionAt endpoint w i a = none ∧ o = { node := w.nodes i }) ∨
      ∃ b q, actionAt endpoint w i a = some b ∧ (w.nodes i).outcome b = some q ∧
      (w.nodes i).step b = some o.node ∧
        o.node.lobby = q.state ∧ o.locked = [] ∧ o.later = q.sends := by
  cases h with
  | @call b _ ho =>
      simp only [lobbyProtocol] at ho
      split at ho
      · cases ho
      · next hb =>
          obtain ⟨q, hq, rfl⟩ := Option.map_eq_some_iff.1 ho
          refine .inr ⟨b, q, if_pos ⟨rfl, by simpa using hb⟩, hq, ?_, rfl, rfl, rfl⟩
          rw [LobbyNode.step, hq]
          rfl
  | @handle s k tick keep c hc =>
      rw [actionAt_receive hc]
      cases hread : c.message.read with
      | none => exact .inl ⟨rfl, handle_unread hread⟩
      | some m =>
          rw [handle_read hread]
          exact .inr ⟨_, _, rfl, rfl, rfl, rfl, rfl, rfl⟩

/-- What a datagram on a link is read as. -/
def ReadsAs (M : LobbyMessage → Prop) (d : LobbyDatagram) : Prop := ∀ m, d.read = some m → M m

/-- Where the section of a step keeps `N` and, once it receives what satisfies `M`, sends what
satisfies `S`, and what is sent is read as what satisfies `M`, the step keeps all three. -/
theorem sound_step {N : Bytes → LobbyNode → Prop} {S M : LobbyMessage → Prop}
    (hread : ∀ m m', S m → fits m.payload = true → m.datagram.read = some m' → M m')
    (h : Protocol.Sound N (fun x : LobbySend => S x.message) (ReadsAs M) w)
    (hst : (lobbyProtocol endpoint).step w a = some w')
    (hsection : ∀ i b o n, actionAt endpoint w i a = some b → (w.nodes i).outcome b = some o →
      (w.nodes i).step b = some n → n.lobby = o.state →
      (∀ tick source m, b = .datagram tick source m → M m) →
      N i n ∧ ∀ x ∈ o.sends, S x.message) :
    Protocol.Sound N (fun x : LobbySend => S x.message) (ReadsAs M) w' := by
  have hwire : ∀ (x : LobbySend) r d, S x.message → (lobbyProtocol endpoint).wire x r = some d →
    ReadsAs M d := by
    intro x r d hx hwire m hm
    obtain ⟨rfl, hfits⟩ := message_of_wire hwire
    exact hread _ m hx hfits hm
  refine h.step_of hwire hst fun i o hsec => ?_
  rcases outcome_of_sectionAt hsec with ⟨_, rfl⟩ | ⟨b, q, hb, hq, hnode, hstate, hlocked, hlater⟩
  · exact ⟨h.nodes i, fun x hx => absurd hx (by simp)⟩
  have hreceived : ∀ tick source m, b = .datagram tick source m → M m := by
    rintro tick source m rfl
    cases hsec with
    | call =>
        obtain ⟨⟨_, hcall⟩, heq⟩ := Option.ite_none_right_eq_some.1 hb
        cases heq
        cases hcall
    | @handle s k _ _ c hc =>
        rw [actionAt_receive hc] at hb
        obtain ⟨m', hm', heq⟩ := Option.map_eq_some_iff.1 hb
        cases heq
        exact h.links s i c (List.mem_of_getElem? hc) m hm'
  obtain ⟨hn, hsends⟩ := hsection i b q _ hb hq hnode hstate hreceived
  rw [hlocked, hlater]
  exact ⟨hn, fun x hx => hsends x (hx.resolve_left List.not_mem_nil)⟩

/-- What every locked section keeps at a node holds of all nodes of a run. -/
theorem run_invariant {ok : LobbyWorld → LobbyEvent → Prop} {P : LobbyNode → Prop}
    (h : Run (lobbyProtocol endpoint).step ok start w) (hs : ∀ pid, P (.start pid))
    (hstep : ∀ u a i b n, ok u a → actionAt endpoint u i a = some b → P (u.nodes i) →
      (u.nodes i).step b = some n → P n) (i : Bytes) : P (w.nodes i) := by
  refine h.invariant (P := fun w => ∀ i, P (w.nodes i)) hs ?_ i
  intro u v a ih hok hst j
  rcases node_step hst j with ⟨_, heq⟩ | ⟨b, hb, hn⟩
  · rw [heq]
    exact ih j
  · exact hstep u a j b _ hok hb (ih j) hn

/-- The nodes of a run are named by their product ids. -/
theorem localPid_of_run {ok : LobbyWorld → LobbyEvent → Prop}
    (h : Run (lobbyProtocol endpoint).step ok start w) (i : Bytes) :
    (w.nodes i).lobby.localPid = i := by
  refine h.invariant (P := fun w => ∀ i, (w.nodes i).lobby.localPid = i) (fun _ => rfl) ?_ i
  intro u v a ih _ hst j
  rcases node_step hst j with ⟨_, heq⟩ | ⟨b, _, hn⟩
  · rw [heq]
    exact ih j
  · rw [LobbyNode.step_localPid hn]
    exact ih j

/-- The nodes of a run keep their records under their own ids. -/
theorem keyed_of_run {ok : LobbyWorld → LobbyEvent → Prop}
    (h : Run (lobbyProtocol endpoint).step ok start w) (i : Bytes) : (w.nodes i).Keyed :=
  run_invariant h LobbyNode.keyed_start (fun _ _ _ _ _ _ _ hk hn => hk.step hn) i

/-- The sections of a step are its call, or the handling of the message its delivery is read as. -/
theorem actionAt_eq_some {i : Bytes} {b : LobbyAction} (h : actionAt endpoint w i a = some b) :
    (a = .call i b ∧ b.isDatagram = false) ∨ ∃ s k tick keep c m, a = .receive s i k tick keep ∧
      (w.links s i)[k]? = some c ∧ c.message.read = some m ∧
      b = .datagram tick (endpoint s) m := by
  cases a with
  | call j b' =>
      simp only [actionAt] at h
      split at h
      · next hj =>
          obtain ⟨rfl, hb⟩ := hj
          cases h
          exact .inl ⟨rfl, hb⟩
      · cases h
  | receive s r k tick keep =>
      simp only [actionAt] at h
      split at h
      · next hr =>
          subst hr
          obtain ⟨c, hc, h⟩ := Option.bind_eq_some_iff.1 h
          obtain ⟨m, hread, rfl⟩ := Option.map_eq_some_iff.1 h
          exact .inr ⟨s, k, tick, keep, c, m, rfl, hc, hread, rfl⟩
      · cases h
  | send | lose => cases h

/-- A step takes a section at one node only. -/
theorem actionAt_inj {i j : Bytes} {b b' : LobbyAction} (hi : actionAt endpoint w i a = some b)
    (hj : actionAt endpoint w j a = some b') : i = j := by
  rcases actionAt_eq_some hi with ⟨rfl, _⟩ | ⟨s, k, tick, keep, c, m, rfl, _⟩ <;>
    rcases actionAt_eq_some hj with ⟨heq, _⟩ | ⟨s', k', tick', keep', c', m', heq, _⟩ <;> cases heq
  · rfl
  · rfl

/-- The node that takes the section is the one that acts. -/
theorem actor_of_actionAt {i : Bytes} {b : LobbyAction} (h : actionAt endpoint w i a = some b) :
    Protocol.actor a = some i := by
  rcases actionAt_eq_some h with ⟨rfl, _⟩ | ⟨s, k, tick, keep, c, m, rfl, _⟩ <;> rfl

/-- A broadcast is in an outbox of the node, or on its way from there to another one. -/
def Heading (w : LobbyWorld) (s i : Bytes) (m : LobbyMessage) : Prop :=
  i ≠ s ∧ fits m.payload = true ∧
    ((∃ th, .broadcast m ∈ w.out s th) ∨ ∃ c ∈ w.links s i, c.message = m.datagram)

/-- It gets there, unless it is lost, and is read. -/
theorem heading_step (h : (lobbyProtocol endpoint).step w a = some w') {s i : Bytes}
    {m : LobbyMessage} (hm : Heading w s i m) :
    Heading w' s i m ∨ (∃ k, a = .lose s i k) ∨
      ∃ tick, actionAt endpoint w i a = m.datagram.read.map (.datagram tick (endpoint s)) := by
  obtain ⟨hne, hfits, ⟨th, hx⟩ | ⟨c, hc, hmsg⟩⟩ := hm
  · rcases Protocol.out_stays h hx with hstays | ⟨rfl, xs, hout⟩
    · exact .inl ⟨hne, hfits, .inl ⟨th, hstays⟩⟩
    · obtain ⟨y, ys, hy, rfl⟩ := Protocol.step_send h
      cases hout.symm.trans hy
      have hwire : (lobbyProtocol endpoint).wire (.broadcast m) i = some m.datagram := if_pos hfits
      have hcopy := Protocol.mem_copies.2 ⟨_, List.mem_singleton_self _, _, hwire, rfl⟩
      exact .inl ⟨hne, hfits, .inr ⟨_, Protocol.mem_post.2 (.inr ⟨rfl, hne, hcopy⟩), rfl⟩⟩
  · rcases Protocol.message_stays h hc with ⟨y, hy, hsame⟩ | ⟨k, hlost⟩ | ⟨k, tick, rfl, hget⟩
    · exact .inl ⟨hne, hfits, .inr ⟨y, hy, hsame.trans hmsg⟩⟩
    · exact .inr (.inl ⟨k, hlost⟩)
    · refine .inr (.inr ⟨tick, ?_⟩)
      rw [actionAt_receive hget, hmsg]

/-- A test of the section a step takes. -/
def sectionTest (test : LobbyNode → LobbyAction → Bool) (endpoint : Bytes → Endpoint)
    (w : LobbyWorld) (a : LobbyEvent) : Bool :=
  match a with
  | .call i _ => (actionAt endpoint w i a).all (test (w.nodes i))
  | .receive _ r _ _ _ => (actionAt endpoint w r a).all (test (w.nodes r))
  | .send _ _ | .lose _ _ _ => true

/-- A test that decides a property of sections decides it of the section a step takes. -/
theorem of_sectionTest {test : LobbyNode → LobbyAction → Bool}
    {ok : LobbyNode → LobbyAction → Prop} (htest : ∀ n b, test n b = true → ok n b)
    (w : LobbyWorld) (a : LobbyEvent) (h : sectionTest test endpoint w a = true) (i : Bytes)
    (b : LobbyAction) (hb : actionAt endpoint w i a = some b) : ok (w.nodes i) b := by
  refine htest _ _ ?_
  rcases actionAt_eq_some hb with ⟨rfl, _⟩ | ⟨s, k, tick, keep, c, m, rfl, _⟩
  · exact (Option.all_eq_true _ _).1 h b hb
  · exact (Option.all_eq_true _ _).1 h b hb

end LobbyWorld

/-- The first node creates a lobby, and the second one gets the announce. -/
def sampleMeeting : List LobbyEvent :=
  [.call (str "a") (.createLobby 7 (sampleLobby (str "a"))), .send (str "a") .game,
    .receive (str "a") (str "b") 0 7 false]

/-- The first node creates a lobby, and the second one joins it. -/
def sampleVisit (o : CreateLobbyOptions) : List LobbyEvent :=
  [.call (str "a") (.createLobby 7 o), .send (str "a") .game, .receive (str "a")
    (str "b") 0 7 false,
    .call (str "b") (.joinLobbyById (sampleLobbyId (str "a")) (str "b")), .send (str "b") .game,
    .receive (str "b") (str "a") 0 8 false, .send (str "a") .receive,
      .receive (str "a") (str "b") 0 8 false]

end EOSEmu
