import EOSEmu.P2P.Steps

/-!
# Nodes over a network

A world is a family of nodes and the datagrams in flight between them. The network loses datagrams,
delivers them in any order and any number of times, and invents none. A node restarts under its
product user id with its interface as new. A datagram is handed over as it was sent: the receiver
reads it back from its bytes (`onDatagram_encode`). `worldStep_cases` says what a step of the world
is for its nodes, and `honest_of_run` what holds of every world the nodes can reach: a datagram
names the node it comes from, reliable data in flight was queued for its destination at its
position, and a position is used once.
-/

namespace EOSEmu

open Lib (Dict SeqMap Run Always)

/-- The user ids and addresses of the nodes. -/
structure P2PConfig (ι : Type) where
  pid : ι → ProductUserId
  endpoint : ι → Endpoint
  pid_inj : Function.Injective pid
  endpoint_inj : Function.Injective endpoint
  pid_noNul : ∀ i, 0 ∉ pid i

/-- A datagram in flight. -/
structure Packet where
  src : Endpoint
  dst : Endpoint
  datagram : Datagram Pos
  deriving DecidableEq, Repr

/-- The nodes and the network. -/
structure P2PWorld (ι : Type) where
  node : ι → P2PNode
  net : List Packet := []

/-- What can happen. A delivered datagram stays in the network and may be delivered again. -/
inductive WorldAction (ι : Type) where
  | call (i : ι) (c : Call)
  | deliver (i : ι) (j : ℕ) (now : TimePoint)
  | lose (j : ℕ)
  /-- Node `i` handles a Hello of node `j`. -/
  | hello (i j : ι)
  | restart (i : ι)

/-- A process that starts anew. Its counter of send streams and its history are not part of it. -/
def P2PNode.restart (n : P2PNode) : P2PNode :=
  { localPid := n.localPid, p2p := { incs := n.p2p.incs }, log := n.log ++ [.restarted]
    returns := n.returns }

section
variable {ι : Type} [DecidableEq ι] (cfg : P2PConfig ι)

/-- The world after node `i` moved on with these outputs. -/
def P2PWorld.put (w : P2PWorld ι) (i : ι) (r : P2PNode × List Out) : P2PWorld ι :=
  { node := Function.update w.node i r.1
    net := w.net ++ (sends r.2).map fun d => ⟨cfg.endpoint i, d.1, d.2⟩ }

@[simp] theorem P2PWorld.put_self (w : P2PWorld ι) (i : ι) (r : P2PNode × List Out) :
    (w.put cfg i r).node i = r.1 := Function.update_self ..

/-- What one node does leaves the others as they are. -/
theorem P2PWorld.put_other (w : P2PWorld ι) {i j : ι} (hj : j ≠ i) (r : P2PNode × List Out) :
    (w.put cfg i r).node j = w.node j := Function.update_of_ne hj ..

/-- The step function of a world. The directories are filled by Hellos of the nodes only. -/
def worldStep (w : P2PWorld ι) : WorldAction ι → Option (P2PWorld ι)
  | .call _ (.observe ..) => none
  | .call i c => ((w.node i).step c).map (w.put cfg i)
  | .deliver i j now =>
      match w.net[j]? with
      | none => none
      | some pkt =>
          if pkt.dst = cfg.endpoint i then
            some (w.put cfg i ((w.node i).deliver pkt.src pkt.datagram now))
          else none
  | .lose j => some { w with net := w.net.eraseIdx j }
  | .hello i j => ((w.node i).step (.observe (cfg.pid j) (cfg.endpoint j))).map (w.put cfg i)
  | .restart i => some (w.put cfg i ((w.node i).restart, []))

/-- All nodes freshly started. -/
def P2PWorld.start : P2PWorld ι := { node := fun i => P2PNode.start (cfg.pid i) }

end

/-! ## What a step of the world is -/

/-- A step of node `i`: what it does to its streams, why, and what else it touches. -/
structure NodeStep {ι : Type} (cfg : P2PConfig ι) (w : P2PWorld ι) (action : WorldAction ι)
    (i : ι) (cause : Cause) (outs : List Out) (w' : P2PWorld ι) : Prop where
  steps : (w.node i).Steps cause (w'.node i) outs
  others : ∀ j, j ≠ i → w'.node j = w.node j
  net : w'.net = w.net ++ (sends outs).map fun d => ⟨cfg.endpoint i, d.1, d.2⟩
  queue : ∀ c now, cause = .queue c now → c ∈ (w.node i).sending
  message : ∀ from_ m inc, cause = .message from_ m inc → ∃ j now pkt,
    action = .deliver i j now ∧ w.net[j]? = some pkt ∧ pkt.dst = cfg.endpoint i ∧
      pkt.src = from_ ∧ pkt.datagram.wire = m ∧ pkt.datagram.inc = inc
  peers : ∀ p e, (w'.node i).peers.get? p = some e → (w.node i).peers.get? p = some e ∨
    ∃ j, p = cfg.pid j ∧ e = cfg.endpoint j
  sending : ∀ c ∈ (w'.node i).sending, c ∈ (w.node i).sending ∨
    c.endpoint = (w.node i).endpointFor c.options.remoteUserId ∧ c.endpoint.valid = true

namespace P2PNode

/-- Only a Hello adds to the directory. -/
theorem step_peers {n n' : P2PNode} {c : Call} {outs : List Out} (h : n.step c = some (n', outs))
    (hc : ∀ peer endpoint, c ≠ .observe peer endpoint) : n'.peers = n.peers := by
  cases c with
  | sendPacket options =>
      simp only [step] at h
      split at h <;> cases h
      · exact recordReturn_peers ..
      · rfl
  | sendPacketQueue i now =>
      simp only [step] at h
      split at h <;> cases h
      exact recordReturn_peers ..
  | observe peer endpoint => exact absurd rfl (hc peer endpoint)
  | _ => cases h; rfl

end P2PNode

section
variable {ι : Type} [DecidableEq ι] {cfg : P2PConfig ι} {w w' : P2PWorld ι} {action : WorldAction ι}

/-- A step of the node's own threads, as a step of the world. -/
theorem nodeStep_call {i : ι} {c : Call} {n' : P2PNode} {outs : List Out}
    (h : (w.node i).step c = some (n', outs))
    (hpeers : ∀ p e, n'.peers.get? p = some e → (w.node i).peers.get? p = some e ∨
      ∃ j, p = cfg.pid j ∧ e = cfg.endpoint j) :
    NodeStep cfg w action i ((w.node i).causeOf c) outs (w.put cfg i (n', outs)) where
  steps := by
    rw [P2PWorld.put_self]
    exact P2PNode.step_steps h
  others _ hj := w.put_other cfg hj _
  net := rfl
  queue call now hcause := by
    obtain ⟨k, _, hk⟩ := P2PNode.causeOf_queue hcause
    exact List.mem_of_getElem? hk
  message from_ m inc hcause := absurd hcause P2PNode.causeOf_ne_message
  peers p e he := by
    rw [P2PWorld.put_self] at he
    exact hpeers p e he
  sending call hcall := by
    rw [P2PWorld.put_self] at hcall
    exact (P2PNode.step_sending h call hcall).imp_right And.right

/-- A step of the world is a step of one node, a step of the network alone, or a restart. -/
theorem worldStep_cases (h : worldStep cfg w action = some w') :
    (∃ i cause outs, NodeStep cfg w action i cause outs w') ∨
    (w'.node = w.node ∧ ∀ pkt ∈ w'.net, pkt ∈ w.net) ∨
    ∃ i, w' = w.put cfg i ((w.node i).restart, []) := by
  cases action with
  | call i c =>
      left
      have hobs : ∀ peer endpoint, c ≠ .observe peer endpoint := by
        rintro peer endpoint rfl
        cases h
      have h' : ((w.node i).step c).map (w.put cfg i) = some w' := by
        cases c with
        | observe peer endpoint => cases h
        | _ => exact h
      obtain ⟨⟨n', outs⟩, hstep, rfl⟩ := Option.map_eq_some_iff.1 h'
      refine ⟨i, _, outs, nodeStep_call hstep fun p e he => ?_⟩
      rw [P2PNode.step_peers hstep hobs] at he
      exact .inl he
  | deliver i j now =>
      simp only [worldStep] at h
      split at h
      · cases h
      · next pkt hpkt =>
          split at h
          · next hdst =>
              cases h
              unfold P2PNode.deliver
              split
              · refine .inr (.inl ⟨?_, ?_⟩)
                · exact Function.update_eq_self i w.node
                · intro p hp
                  simpa [P2PWorld.put] using hp
              · refine .inl ⟨i, .message pkt.src pkt.datagram.wire pkt.datagram.inc,
                  ((w.node i).receive pkt.src pkt.datagram.wire pkt.datagram.inc now).2, ?_⟩
                exact {
                  steps := by
                    rw [P2PWorld.put_self]
                    exact P2PNode.receive_steps ..
                  others := fun _ hk => w.put_other cfg hk _
                  net := rfl
                  queue := nofun
                  message := by
                    rintro from_ m inc ⟨⟩
                    exact ⟨j, now, pkt, rfl, hpkt, hdst, rfl, rfl, rfl⟩
                  peers := fun p e he => by
                    rw [P2PWorld.put_self] at he
                    exact .inl he
                  sending := fun c hc => by
                    rw [P2PWorld.put_self] at hc
                    exact .inl hc }
          · cases h
  | lose j =>
      cases h
      exact .inr (.inl ⟨rfl, fun pkt hpkt => List.mem_of_mem_eraseIdx hpkt⟩)
  | hello i j =>
      left
      obtain ⟨⟨n', outs⟩, hstep, rfl⟩ := Option.map_eq_some_iff.1 h
      refine ⟨i, _, outs, nodeStep_call hstep fun p e he => ?_⟩
      simp only [P2PNode.step] at hstep
      split at hstep <;> cases hstep
      rw [Dict.get?_set] at he
      split at he
      · next hp => cases he; exact .inr ⟨j, hp, rfl⟩
      · exact .inl he
  | restart i =>
      cases h
      exact .inr (.inr ⟨i, rfl⟩)

/-- The records of a node are kept. -/
theorem worldStep_log (h : worldStep cfg w action = some w') (i : ι) :
    ∃ es, (w'.node i).log = (w.node i).log ++ es := by
  rcases worldStep_cases h with ⟨j, cause, outs, hstep⟩ | ⟨hnode, _⟩ | ⟨j, rfl⟩
  · by_cases hij : i = j
    · subst hij
      exact ⟨_, hstep.steps.log⟩
    · exact ⟨[], by rw [hstep.others i hij, List.append_nil]⟩
  · exact ⟨[], by rw [hnode, List.append_nil]⟩
  · by_cases hij : i = j
    · subst hij
      exact ⟨[.restarted], by rw [P2PWorld.put_self]; rfl⟩
    · exact ⟨[], by rw [w.put_other cfg hij, List.append_nil]⟩

/-- What a node recorded stays recorded. -/
theorem worldStep_mem_log (h : worldStep cfg w action = some w') {i : ι} {e : Event}
    (he : e ∈ (w.node i).log) : e ∈ (w'.node i).log := by
  obtain ⟨es, hlog⟩ := worldStep_log h i
  rw [hlog]
  exact List.mem_append_left _ he

end

/-! ## What holds in every world -/

section
variable {ι : Type} (cfg : P2PConfig ι)

/-- The datagram carries reliable data of node `i` to the peer of the key, and the packet was
queued under this position. -/
def Routed (i : ι) (log : List Event) (key : Bytes) (pos : Pos) (dst : Endpoint)
    (d : Datagram Pos) : Prop :=
  ∃ j socket channel mode bytes, key = streamKey (cfg.pid j) socket channel (modeOrdered mode) ∧
    modeReliable mode = true ∧ dst = cfg.endpoint j ∧
    d = ⟨cfg.pid i, socket, .data channel mode pos bytes⟩ ∧ .queued key pos bytes ∈ log

/-- Node `i` sends what its callers gave it, under its own name, to where it belongs, and numbers
the packets of a stream one after another. -/
structure HonestNode (i : ι) (n : P2PNode) : Prop where
  localPid : n.localPid = cfg.pid i
  peers : ∀ p e, n.peers.get? p = some e → ∃ j, p = cfg.pid j ∧ e = cfg.endpoint j
  sending : ∀ c ∈ n.sending,
    ∃ j, c.options.remoteUserId = cfg.pid j ∧ c.endpoint = cfg.endpoint j
  pending : ∀ key s k u, n.p2p.sendStreams.get? key = some s → s.pending.get? k = some u →
    Routed cfg i n.log key ⟨s.inc, k⟩ u.toEndpoint u.payload
  stream : ∀ key s, n.p2p.sendStreams.get? key = some s → s.inc < n.p2p.incs ∧ 1 ≤ s.nextSeq
  queued : ∀ key pos data, .queued key pos data ∈ n.log → pos.inc < n.p2p.incs ∧ 1 ≤ pos.seq ∧
    ∀ s, n.p2p.sendStreams.get? key = some s → s.inc = pos.inc → pos.seq < s.nextSeq
  unique : ∀ key pos data data', .queued key pos data ∈ n.log → .queued key pos data' ∈ n.log →
    data = data'

/-- A datagram in flight comes from the node it names, and reliable data goes to where it was
queued for. -/
def HonestPacket (w : P2PWorld ι) (pkt : Packet) : Prop :=
  ∃ i, pkt.src = cfg.endpoint i ∧ pkt.datagram.sender = cfg.pid i ∧
    ∀ channel mode pos bytes, pkt.datagram.body = .data channel mode pos bytes →
      modeReliable mode = true →
        ∃ key, Routed cfg i (w.node i).log key pos pkt.dst pkt.datagram

/-- All nodes and all datagrams in flight are honest. -/
structure P2PWorld.Honest (w : P2PWorld ι) : Prop where
  node : ∀ i, HonestNode cfg i (w.node i)
  net : ∀ pkt ∈ w.net, HonestPacket cfg w pkt

variable {cfg} {w w' : P2PWorld ι} {action : WorldAction ι} {i : ι}

/-- A packet stays routed as the log grows. -/
theorem Routed.mono {log log' : List Event} {key : Bytes} {pos : Pos} {dst : Endpoint}
    {d : Datagram Pos} (h : Routed cfg i log key pos dst d) (hlog : ∀ e ∈ log, e ∈ log') :
    Routed cfg i log' key pos dst d := by
  obtain ⟨j, socket, channel, mode, bytes, hkey, hmode, hdst, hd, hmem⟩ := h
  exact ⟨j, socket, channel, mode, bytes, hkey, hmode, hdst, hd, hlog _ hmem⟩

/-- The endpoint of a peer in the directory is the peer's. -/
theorem HonestNode.endpointFor {n : P2PNode} (h : HonestNode cfg i n) {peer : ProductUserId}
    (hv : (n.endpointFor peer).valid = true) :
    ∃ j, peer = cfg.pid j ∧ n.endpointFor peer = cfg.endpoint j := by
  unfold P2PNode.endpointFor at hv ⊢
  cases hp : n.peers.get? peer with
  | none =>
      rw [hp] at hv
      cases hv
  | some e => exact h.peers _ _ hp

/-- A pending number is below the next one. -/
theorem HonestNode.pending_lt {n : P2PNode} (h : HonestNode cfg i n) {key : Bytes}
    {s : SendStream} {k : ℕ} {u : Unacked} (hs : n.p2p.sendStreams.get? key = some s)
    (hu : s.pending.get? k = some u) : k < s.nextSeq := by
  obtain ⟨_, _, _, _, bytes, _, _, _, _, hmem⟩ := h.pending key s k u hs hu
  exact (h.queued key ⟨s.inc, k⟩ bytes hmem).2.2 s hs rfl

/-- What a step of an honest node leaves pending is routed. -/
theorem NodeStep.pending {cause : Cause} {outs : List Out}
    (h : NodeStep cfg w action i cause outs w') (hw : HonestNode cfg i (w.node i)) {key : Bytes}
    {t : SendStream} {k : ℕ} {u : Unacked} (ht : (w'.node i).p2p.sendStreams.get? key = some t)
    (hu : t.pending.get? k = some u) :
    Routed cfg i (w'.node i).log key ⟨t.inc, k⟩ u.toEndpoint u.payload := by
  have hst := h.steps.streams.send key
  rw [ht] at hst
  rw [h.steps.log]
  rcases hst.pending hu with ⟨s, v, hs, hv, hpay, hto⟩ |
    ⟨c, now, hcause, hmode, hkey, hpay, hto, hmem⟩
  · rw [hs] at hst
    rw [hst.grows.1, hpay, hto]
    exact (hw.pending key s k v hs hv).mono fun e he => List.mem_append_left _ he
  · obtain ⟨j, hj, hend⟩ := hw.sending c (h.queue c now hcause)
    refine ⟨j, socketName c.options.socketId, c.options.channel, c.options.mode.toByte,
      c.options.data.data, ?_, ?_, ?_, ?_, List.mem_append_right _ hmem⟩
    · rw [← hkey, SendPacketOptions.key, hj, modeOrdered_toByte]
    · rw [modeReliable_toByte, hmode]
    · rw [hto, hend]
    · rw [hpay, SendPacketOptions.datagram, hw.localPid]

/-- A step of an honest node numbers what it queues after everything it queued before. -/
theorem NodeStep.queued {cause : Cause} {outs : List Out}
    (h : NodeStep cfg w action i cause outs w') (hw : HonestNode cfg i (w.node i)) {key : Bytes}
    {pos : Pos} {data data' : Bytes} (hold : .queued key pos data ∈ (w.node i).log) :
    .queued key pos data' ∉ events outs := by
  intro hnew
  obtain ⟨c, now, t, _, _, ht, hinc, hnext, hbefore⟩ := (h.steps.streams.send key).queued hnew
  obtain ⟨hlt, hpos, hseq⟩ := hw.queued key pos data hold
  rcases hbefore with ⟨s, hs, hsinc, hsnext⟩ | ⟨hnone, _⟩
  · have := hseq s hs hsinc
    omega
  · have := (h.steps.streams.fresh key t hnone ht).1
    omega

/-- A step of an honest node leaves it honest. -/
theorem NodeStep.honest {cause : Cause} {outs : List Out}
    (h : NodeStep cfg w action i cause outs w') (hw : HonestNode cfg i (w.node i)) :
    HonestNode cfg i (w'.node i) := by
  have hst := h.steps.streams
  have hstream : ∀ key t, (w'.node i).p2p.sendStreams.get? key = some t →
      t.inc < (w'.node i).p2p.incs ∧ 1 ≤ t.nextSeq := by
    intro key t ht
    have hsend := hst.send key
    have hincs := hst.incs
    rw [ht] at hsend
    cases hs : (w.node i).p2p.sendStreams.get? key with
    | none =>
        have hfresh := hst.fresh key t hs ht
        refine ⟨by omega, ?_⟩
        rw [hs] at hsend
        cases hsend with
        | keep _ hrel => cases hrel
        | queue t₀ => exact Nat.succ_le_succ (Nat.zero_le _)
    | some s =>
        rw [hs] at hsend
        obtain ⟨hlt, hpos⟩ := hw.stream key s hs
        obtain ⟨hinc, hnext⟩ := hsend.grows
        omega
  have hqueued : ∀ key pos data, .queued key pos data ∈ (w'.node i).log →
      .queued key pos data ∈ (w.node i).log ∨ .queued key pos data ∈ events outs := by
    intro key pos data he
    rw [h.steps.log] at he
    exact List.mem_append.1 he
  refine ⟨?_, ?_, ?_, fun key s k u hs hu => h.pending hw hs hu, hstream, ?_, ?_⟩
  · rw [h.steps.localPid, hw.localPid]
  · intro p e he
    exact (h.peers p e he).elim (hw.peers p e) id
  · intro c hc
    rcases h.sending c hc with hc | ⟨hend, hv⟩
    · exact hw.sending c hc
    · rw [hend] at hv ⊢
      exact hw.endpointFor hv
  · intro key pos data he
    rcases hqueued key pos data he with hold | hnew
    · obtain ⟨hlt, hpos, hseq⟩ := hw.queued key pos data hold
      refine ⟨Nat.lt_of_lt_of_le hlt hst.incs, hpos, fun t ht hinc => ?_⟩
      cases hs : (w.node i).p2p.sendStreams.get? key with
      | none =>
          have := (hst.fresh key t hs ht).1
          omega
      | some s =>
          have hsend := hst.send key
          rw [hs, ht] at hsend
          obtain ⟨hgrow, hnext⟩ := hsend.grows
          have := hseq s hs (by rw [← hgrow, hinc])
          omega
    · obtain ⟨c, now, t, _, _, ht, hinc, hnext, hbefore⟩ := (hst.send key).queued hnew
      refine ⟨by rw [← hinc]; exact (hstream key t ht).1, ?_, fun t' ht' _ => ?_⟩
      · rcases hbefore with ⟨s, hs, _, hsnext⟩ | ⟨_, hone⟩
        · rw [← hsnext]
          exact (hw.stream key s hs).2
        · omega
      · rw [ht] at ht'
        cases ht'
        omega
  · intro key pos data data' he he'
    rcases hqueued key pos data he with hold | hnew
    · rcases hqueued key pos data' he' with hold' | hnew'
      · exact hw.unique key pos data data' hold hold'
      · exact absurd hnew' (h.queued hw hold)
    · rcases hqueued key pos data' he' with hold' | hnew'
      · exact absurd hnew (h.queued hw hold')
      · obtain ⟨c, now, _, hcause, hdata, _⟩ := (hst.send key).queued hnew
        obtain ⟨c', now', _, hcause', hdata', _⟩ := (hst.send key).queued hnew'
        rw [hcause] at hcause'
        cases hcause'
        rw [hdata, hdata']

/-- An honest node stays honest when it restarts. -/
theorem HonestNode.restart {n : P2PNode} (h : HonestNode cfg i n) :
    HonestNode cfg i n.restart := by
  have hlog : ∀ key pos data, .queued key pos data ∈ n.restart.log →
      .queued key pos data ∈ n.log := by
    intro key pos data he
    rcases List.mem_append.1 he with he | he
    · exact he
    · cases List.mem_singleton.1 he
  refine ⟨h.localPid, (fun _ _ hp => nomatch hp), (fun _ hc => nomatch hc),
    (fun _ _ _ _ hs => nomatch hs), (fun _ _ hs => nomatch hs), ?_, ?_⟩
  · intro key pos data he
    obtain ⟨hlt, hpos, _⟩ := h.queued key pos data (hlog key pos data he)
    exact ⟨hlt, hpos, fun _ hs => nomatch hs⟩
  · intro key pos data data' he he'
    exact h.unique key pos data data' (hlog _ _ _ he) (hlog _ _ _ he')

/-- What a step of an honest node sends is honest. -/
theorem NodeStep.sent {cause : Cause} {outs : List Out}
    (h : NodeStep cfg w action i cause outs w') (hw : HonestNode cfg i (w.node i))
    {d : Endpoint × Datagram Pos} (hd : d ∈ sends outs) :
    HonestPacket cfg w' ⟨cfg.endpoint i, d.1, d.2⟩ := by
  have hpid := hw.localPid
  cases h.steps.streams.sent d hd with
  | control hdata _ =>
      exact ⟨i, rfl, hpid, fun channel mode pos bytes hb _ => (hdata _ _ _ _ hb).elim⟩
  | @unreliable c _ _ _ hmode =>
      refine ⟨i, rfl, hpid, fun channel mode pos bytes hb hrel => ?_⟩
      cases hb
      rw [modeReliable_toByte, hmode] at hrel
      cases hrel
  | @packet key s k u hs hu =>
      have hrouted : Routed cfg i (w'.node i).log key ⟨s.inc, k⟩ u.toEndpoint u.payload := by
        rcases hs with hs | hs
        · refine (hw.pending key s k u hs hu).mono fun e he => ?_
          rw [h.steps.log]
          exact List.mem_append_left _ he
        · exact h.pending hw hs hu
      obtain ⟨j, socket, channel, mode, bytes, hkey, hmode, hdst, hpay, hmem⟩ := hrouted
      refine ⟨i, rfl, by rw [hpay], fun channel' mode' pos' bytes' hb hmode' => ?_⟩
      rw [hpay] at hb ⊢
      cases hb
      exact ⟨key, j, socket, channel, mode, bytes, hkey, hmode, hdst, rfl, hmem⟩
  | ack => exact ⟨i, rfl, hpid, fun channel mode pos bytes hb _ => nomatch hb⟩

end

section
variable {ι : Type} [DecidableEq ι] {cfg : P2PConfig ι} {w w' : P2PWorld ι} {action : WorldAction ι}

/-- A datagram stays honest as the logs grow. -/
theorem HonestPacket.step (h : worldStep cfg w action = some w') {pkt : Packet}
    (hpkt : HonestPacket cfg w pkt) : HonestPacket cfg w' pkt := by
  obtain ⟨i, hsrc, hsender, hdata⟩ := hpkt
  refine ⟨i, hsrc, hsender, fun channel mode pos bytes hb hmode => ?_⟩
  obtain ⟨key, hrouted⟩ := hdata channel mode pos bytes hb hmode
  exact ⟨key, hrouted.mono fun e he => worldStep_mem_log h he⟩

/-- A step of the world keeps it honest. -/
theorem P2PWorld.Honest.step (hw : w.Honest cfg) (h : worldStep cfg w action = some w') :
    w'.Honest cfg := by
  have hold : ∀ pkt ∈ w.net, HonestPacket cfg w' pkt := fun pkt hpkt => (hw.net pkt hpkt).step h
  rcases worldStep_cases h with ⟨i, cause, outs, hstep⟩ | ⟨hnode, hnet⟩ | ⟨i, rfl⟩
  · refine ⟨fun j => ?_, fun pkt hpkt => ?_⟩
    · by_cases hj : j = i
      · subst hj
        exact hstep.honest (hw.node j)
      · rw [hstep.others j hj]
        exact hw.node j
    · rw [hstep.net, List.mem_append] at hpkt
      rcases hpkt with hpkt | hpkt
      · exact hold pkt hpkt
      · obtain ⟨d, hd, rfl⟩ := List.mem_map.1 hpkt
        exact hstep.sent (hw.node i) hd
  · exact ⟨fun j => by rw [hnode]; exact hw.node j, fun pkt hpkt => hold pkt (hnet pkt hpkt)⟩
  · refine ⟨fun j => ?_, fun pkt hpkt => hold pkt (by simpa [P2PWorld.put] using hpkt)⟩
    by_cases hj : j = i
    · subst hj
      rw [P2PWorld.put_self]
      exact (hw.node j).restart
    · rw [w.put_other cfg hj]
      exact hw.node j

/-- Every world that can be reached is honest. -/
theorem honest_of_run {ok : P2PWorld ι → WorldAction ι → Prop}
    (h : Run (worldStep cfg) ok (P2PWorld.start cfg) w) : w.Honest cfg := by
  refine h.invariant ⟨fun i => ?_, nofun⟩ fun u v a hu _ hstep => hu.step hstep
  exact ⟨rfl, (fun _ _ hp => nomatch hp), (fun _ hc => nomatch hc), (fun _ _ _ _ hs => nomatch hs),
    (fun _ _ hs => nomatch hs), (fun _ _ _ he => nomatch he), (fun _ _ _ _ he => nomatch he)⟩

/-- The records of a node are kept along a run. -/
theorem run_log {ok : P2PWorld ι → WorldAction ι → Prop} (h : Run (worldStep cfg) ok w w') (i : ι) :
    ∃ es, (w'.node i).log = (w.node i).log ++ es := by
  refine h.relates (R := fun u v : P2PWorld ι => ∃ es, (v.node i).log = (u.node i).log ++ es)
    (fun u => ⟨[], (List.append_nil _).symm⟩) ?_ fun u v a _ hstep => worldStep_log hstep i
  rintro s t u ⟨es, hes⟩ ⟨fs, hfs⟩
  exact ⟨es ++ fs, by rw [hfs, hes, List.append_assoc]⟩

end

end EOSEmu
