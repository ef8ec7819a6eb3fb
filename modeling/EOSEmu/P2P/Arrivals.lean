import EOSEmu.P2P.Inbox
import EOSEmu.P2P.Reliable
import EOSEmu.Lib.Trace

/-!
# What a stream enqueues arrives in the inbox

`Stream.enqueued` reads the packets of a stream off the receiver's log. A step that records packets
there appends them to `Inbox_`, in the same order (`step_gains`, `onMessage_gains`), so in every
run the payloads the stream enqueued are, in order, among those that came into the inbox under its
key (`enqueued_arrives`).
-/

namespace EOSEmu

open Lib (Dict SeqMap Run Always Trace Transition)

/-- The packet is of the peer, the socket and the channel of the stream. -/
def IncomingPacket.On (key : Bytes) (pkt : IncomingPacket) : Prop :=
  ∃ ordered, streamKey pkt.peer pkt.socketName pkt.channel ordered = key

instance (key : Bytes) (pkt : IncomingPacket) : Decidable (pkt.On key) :=
  inferInstanceAs (Decidable (∃ o : Bool, streamKey pkt.peer pkt.socketName pkt.channel o = key))

/-- What the events say a stream enqueued is, in order, among what an inbox takes in after
another. -/
def Gains (b : Inbox) (es : List Event) (c : Inbox) : Prop :=
  ∀ key, ((enqueuedOn key es).map Prod.snd).Sublist
    (((c.packets.drop b.packets.length).filter (·.On key)).map (·.data))

/-- The receive streams are stored under their keys. -/
def P2P.RecvKeyed (p : P2P) : Prop :=
  ∀ key s, p.recvStreams.get? key = some s → streamKey s.peer s.socket s.channel s.ordered = key

section
variable {b c d : Inbox} {es fs : List Event}

/-- Events that tell of no packet. -/
theorem gains_quiet (h : ∀ key pos data, .enqueued key pos data ∉ es) : Gains b es c := by
  intro key
  have hnil : enqueuedOn key es = [] := by
    refine List.filterMap_eq_nil_iff.2 fun e he => ?_
    cases e with
    | enqueued key' pos data => exact absurd he (h key' pos data)
    | _ => rfl
  rw [hnil]
  exact List.nil_sublist _

/-- No events, whatever becomes of the inbox. -/
theorem gains_nil : Gains b [] c := fun _ => List.nil_sublist _

/-- One part of a step after another. -/
theorem Gains.trans (h : Gains b es c) (h' : Gains c fs d) {l l' : List IncomingPacket}
    (hc : Enqueues b l c) (hd : Enqueues c l' d) : Gains b (es ++ fs) d := by
  intro key
  have hfirst := h key
  have hsecond := h' key
  rw [hc.packets, List.drop_left] at hfirst
  rw [hd.packets, List.drop_left] at hsecond
  rw [(hc.trans hd).packets, List.drop_left, List.filter_append, List.map_append,
    enqueuedOn_append, List.map_append]
  exact hfirst.append hsecond

/-- A drained stream enqueues nothing on another one. -/
theorem enqueuedOn_drainLog_of_ne {key key' : Bytes} (hne : key' ≠ key) (inc : ℕ)
    (moved : List (ℕ × Bytes)) : enqueuedOn key (P2P.drainLog key' inc moved) = [] := by
  rw [enqueuedOn_recvLog, recvLog_drainLog, if_neg hne]
  rfl

/-- A drain records what it appends. -/
theorem gains_drain {s : RecvStream} {key : Bytes}
    (hs : streamKey s.peer s.socket s.channel s.ordered = key) (b : Inbox) (inc : ℕ) :
    Gains b (P2P.drainLog key inc (drainRecvStream b s).moved) (drainRecvStream b s).inbox := by
  intro key'
  by_cases hkey : key = key'
  · subst hkey
    have hall : ∀ pkt ∈ s.incoming (drainRecvStream b s).moved, decide (pkt.On key) = true := by
      intro pkt hpkt
      obtain ⟨e, _, rfl⟩ := List.mem_map.1 hpkt
      exact decide_eq_true ⟨s.ordered, hs⟩
    rw [(drainRecvStream_enqueues b s).packets, List.drop_left, List.filter_eq_self.2 hall,
      enqueuedOn_drainLog, RecvStream.incoming, List.map_map]
    exact List.Sublist.refl _
  · rw [enqueuedOn_drainLog_of_ne hkey]
    exact List.nil_sublist _

end

section
variable {p : P2P}

/-- The loop of `Pump` records what it appends. -/
theorem drained_gains (hp : p.RecvKeyed) :
    Gains p.inbox (p.recvStreams.mapAccum P2P.drainOne (p.inbox, [])).1.2
      (p.recvStreams.mapAccum P2P.drainOne (p.inbox, [])).1.1 := by
  refine (Dict.mapAccum_inv (P := fun acc : Inbox × List Event =>
    (∃ l, Enqueues p.inbox l acc.1) ∧ Gains p.inbox acc.2 acc.1) ?_ ⟨⟨[], .nil _⟩, gains_nil⟩).2
  rintro acc key s hs ⟨⟨l, hl⟩, hgains⟩
  unfold P2P.drainOne
  split
  · exact ⟨⟨l, hl⟩, hgains⟩
  · have henq := drainRecvStream_enqueues acc.1 s
    exact ⟨⟨_, hl.trans henq⟩, hgains.trans (gains_drain (hp key s hs) acc.1 s.inc) hl henq⟩

/-- `Pump` puts into the inbox what its events say. -/
theorem pump_gains (hp : p.RecvKeyed) (now : TimePoint) :
    Gains p.inbox (events (p.pump now).2) (p.pump now).1.inbox := by
  have hdrained := drained_gains hp
  obtain ⟨l, hl⟩ := drained_enqueues p
  unfold P2P.pump
  dsimp only
  generalize p.recvStreams.mapAccum P2P.drainOne (p.inbox, []) = drained at hdrained hl ⊢
  generalize p.sendStreams.mapAccum (retransmit now) { connections := p.connections } = sent
  have hswept := sweep_inbox (p := { p with
    inbox := drained.1.1, recvStreams := drained.2
    connections := sent.1.connections, sendStreams := sent.2 }) now
  generalize P2P.sweep { p with
    inbox := drained.1.1, recvStreams := drained.2
    connections := sent.1.connections, sendStreams := sent.2 } now = swept at hswept ⊢
  simp only [events_append, events_log, events_logs, events_sends, events_posts, List.append_nil]
  rw [hswept]
  refine hdrained.trans (gains_quiet fun key pos data he => ?_) hl (.nil _)
  obtain ⟨_, _, he⟩ := List.mem_map.1 he
  cases he

/-- New data leaves the names of a stream as they are. -/
theorem RecvStream.receive_key (s : RecvStream) (k : ℕ) (data : Bytes) :
    streamKey (s.receive k data).peer (s.receive k data).socket (s.receive k data).channel
      (s.receive k data).ordered = streamKey s.peer s.socket s.channel s.ordered := by
  unfold RecvStream.receive
  split <;> rfl

/-- Reliable data that arrives is recorded before it is drained. -/
theorem receiveData_gains (localPid : ProductUserId) (from_ : Endpoint) (peer : ProductUserId)
    (socket : Bytes) (channel : UInt8) (ordered : Bool) (wireSeq : UInt32) (data : Bytes)
    (inc : ℕ) : let r := p.receiveData localPid from_ peer socket channel ordered wireSeq data inc
    Gains p.inbox (events r.2.1) r.1.inbox := by
  intro r
  obtain ⟨s, k, d, hs, hd, heq⟩ :=
    receiveData_drain (p := p) localPid from_ peer socket channel ordered wireSeq data inc
  have hkey : streamKey s.peer s.socket s.channel s.ordered =
    streamKey peer socket channel ordered := by
    rw [hs]
    rfl
  have hclassified : Gains p.inbox [s.dataEvent (streamKey peer socket channel ordered) inc k data]
    p.inbox := by
    refine gains_quiet fun key pos data' he => ?_
    unfold RecvStream.dataEvent at he
    split at he <;> cases List.mem_singleton.1 he
  have hdrained := hclassified.trans
    (gains_drain ((s.receive_key k data).trans hkey) p.inbox s.inc) (.nil _)
    (drainRecvStream_enqueues p.inbox (s.receive k data))
  rw [← hd] at hdrained
  have hev : ∀ es : List Event, ∀ d, events (es.map Out.log ++ [.send from_ d]) = es := by simp
  have hr : r = _ := heq
  rw [hr]
  dsimp only
  rw [hev]
  exact hdrained

/-- A datagram that is handled. -/
theorem onMessage_gains (localPid : ProductUserId) (from_ : Endpoint) (m : Datagram UInt32)
    (inc : ℕ) (now : TimePoint) :
    Gains p.inbox (events (p.onMessage localPid from_ m inc now).2)
      (p.onMessage localPid from_ m inc now).1.inbox := by
  unfold P2P.onMessage
  split
  · refine gains_quiet fun key pos data he => ?_
    unfold P2P.onConnectRequest at he
    dsimp only at he
    split at he
    · cases he
    · split at he <;> cases he
  · refine gains_quiet fun key pos data he => ?_
    unfold P2P.onConnectIgnored at he
    dsimp only at he
    rw [events_cons_log, events_ite_post] at he
    cases List.mem_singleton.1 he
  · refine gains_quiet fun key pos data he => ?_
    unfold P2P.onConnectAccept at he
    rw [events_establishedOuts] at he
    cases he
  · exact gains_quiet fun key pos data he => by cases List.mem_singleton.1 he
  · next channel mode seq bytes _ =>
      unfold P2P.onData
      dsimp only
      split
      · refine gains_quiet fun key pos data he => ?_
        rw [events_append, events_establishedOuts, events_ite_post] at he
        cases he
      · rw [events_append, events_append, events_establishedOuts, events_ite_post, List.append_nil,
          List.append_nil]
        exact receiveData_gains (p := p.learnConn from_ m.sender m.socket) localPid from_ m.sender
          m.socket channel (modeOrdered mode) seq bytes inc
  · refine gains_quiet fun key pos data he => ?_
    unfold P2P.onAck at he
    dsimp only at he
    split at he
    · rw [events_establishedOuts] at he
      cases he
    · rw [events_append, events_establishedOuts, events_logs, List.append_nil] at he
      obtain ⟨_, _, he⟩ := List.mem_map.1 he
      cases he

end

/-! ## The steps of a node -/

namespace P2PNode
variable {n n' : P2PNode}

/-- A call records the packets it appends. -/
theorem step_gains {c : Call} {outs : List Out} (hn : n.p2p.RecvKeyed)
    (h : n.step c = some (n', outs)) : Gains n.p2p.inbox (events outs) n'.p2p.inbox := by
  cases c with
  | sendPacket options =>
      have hquiet : ∀ key pos data, .enqueued key pos data ∉
          events (sendPacketOpen n.localPid n.endpointFor options n.p2p).2.1 := by
        intro key pos data he
        unfold sendPacketOpen at he
        cases options with
        | none => cases he
        | some o =>
            dsimp only at he
            split at he
            · cases he
            · split at he <;> split at he
              · cases he
              · rw [events_ite_send] at he
                cases he
              · cases he
              · cases he
      simp only [step] at h
      split at h <;> cases h <;> exact gains_quiet hquiet
  | sendPacketQueue i now =>
      simp only [step] at h
      split at h
      · cases h
      · cases h
        refine gains_quiet fun key pos data he => ?_
        unfold sendPacketQueue at he
        split at he
        · cases List.mem_singleton.1 he
        · cases he
  | receivePacket | setPacketQueueSize | clearPacketQueue | addNotifyPeerConnectionRequest
  | removeNotifyPeerConnectionRequest | rehash =>
      cases h
      exact gains_nil
  | acceptConnection o =>
      cases h
      refine gains_quiet fun key pos data he => ?_
      unfold P2P.acceptConnection at he
      cases o with
      | none => cases he
      | some o =>
          dsimp only at he
          split at he
          · cases he
          · rw [events_append, events_ite_send, events_establishedOuts] at he
            cases he
  | closeConnection o =>
      cases h
      refine gains_quiet fun key pos data he => ?_
      unfold P2P.closeConnection at he
      cases o with
      | none => cases he
      | some o =>
          dsimp only at he
          split at he
          · cases he
          · rw [events_cons_log, events_ite_send] at he
            cases List.mem_singleton.1 he
  | closeConnections o =>
      cases h
      refine gains_quiet fun key pos data he => ?_
      unfold P2P.closeConnections at he
      split at he
      · cases he
      · cases he
      · rw [events_append, events_logs, events_sends, List.append_nil] at he
        obtain ⟨_, _, he⟩ := List.mem_map.1 he
        cases he
  | pump now =>
      cases h
      exact pump_gains hn now
  | observe peer endpoint =>
      simp only [step] at h
      split at h <;> cases h
      exact gains_nil

end P2PNode

/-- Every step keeps the receive streams under their keys. -/
theorem StreamStep.recvKeyed {localPid : ProductUserId} {cause : Cause} {es : List Event}
    {ds : List (Endpoint × Datagram Pos)} {p q : P2P} (h : StreamStep localPid cause es ds p q)
    (hp : p.RecvKeyed) : q.RecvKeyed := by
  intro key t ht
  have hrecv := h.recv key
  rw [ht] at hrecv
  generalize hs : p.recvStreams.get? key = s at hrecv
  cases hrecv with
  | keep _ => exact hp key t hs
  | drain hd _ =>
      have hkey := hp key _ hs
      rw [hd.frame]
      exact hkey
  | data s₀ _ _ _ hkey hs₀ hd _ =>
      rw [hd.frame, ← hkey, hs₀]
      unfold RecvStream.receive
      split <;> rfl

/-! ## The world -/

namespace P2PWorld
variable {ι : Type} [DecidableEq ι] {cfg : P2PConfig ι} {w₀ w w' : P2PWorld ι} {a : WorldAction ι}

/-- In every world the receive streams are stored under their keys. -/
theorem recvKeyed_of_run {ok : P2PWorld ι → WorldAction ι → Prop}
    (h : Run (worldStep cfg) ok w₀ w) (h₀ : ∀ i, (w₀.node i).p2p.RecvKeyed) (i : ι) :
    (w.node i).p2p.RecvKeyed := by
  refine h.invariant (P := fun w => (w.node i).p2p.RecvKeyed) (h₀ i) ?_
  intro u v a hu _ hst
  rcases worldStep_cases hst with ⟨j, cause, outs, hstep⟩ | ⟨hnode, _⟩ | ⟨j, rfl⟩
  · by_cases hij : i = j
    · subst hij
      exact hstep.steps.streams.recvKeyed hu
    · exact hstep.others i hij ▸ hu
  · exact hnode ▸ hu
  · by_cases hij : i = j
    · subst hij
      rw [put_self]
      exact fun _ _ hs => nomatch hs
    · exact u.put_other cfg hij _ ▸ hu

/-- A step of the world records at each node the packets it appends to the node's inbox. -/
theorem worldStep_gains (hk : ∀ i, (w.node i).p2p.RecvKeyed) (h : worldStep cfg w a = some w')
    (i : ι) :
    ∃ es, (w'.node i).log = (w.node i).log ++ es ∧
    Gains (w.node i).p2p.inbox es (w'.node i).p2p.inbox := by
  have hsame : w'.node i = w.node i →
      ∃ es, (w'.node i).log = (w.node i).log ++ es ∧
      Gains (w.node i).p2p.inbox es (w'.node i).p2p.inbox := by
    intro heq
    exact ⟨[], by rw [heq, List.append_nil], gains_nil⟩
  have hput : ∀ {j : ι} {r : P2PNode × List Out}, (r.1.log = (w.node j).log ++ events r.2) →
      Gains (w.node j).p2p.inbox (events r.2) r.1.p2p.inbox → w' = w.put cfg j r →
      ∃ es, (w'.node i).log = (w.node i).log ++ es ∧
        Gains (w.node i).p2p.inbox es (w'.node i).p2p.inbox := by
    intro j r hlog hgains heq
    by_cases hij : i = j
    · subst hij
      rw [heq, put_self]
      exact ⟨_, hlog, hgains⟩
    · exact hsame (heq ▸ w.put_other cfg hij r)
  have hcall : ∀ {j : ι} {c : Call}, ((w.node j).step c).map (w.put cfg j) = some w' →
      ∃ es, (w'.node i).log = (w.node i).log ++ es ∧
      Gains (w.node i).p2p.inbox es (w'.node i).p2p.inbox := by
    intro j c hc
    obtain ⟨⟨n', outs⟩, hst, rfl⟩ := Option.map_eq_some_iff.1 hc
    exact hput (P2PNode.step_steps hst).log (P2PNode.step_gains (hk j) hst) rfl
  cases a with
  | call j c =>
      have h' : ((w.node j).step c).map (w.put cfg j) = some w' := by
        cases c with
        | observe => cases h
        | _ => exact h
      exact hcall h'
  | deliver j k now =>
      simp only [worldStep] at h
      split at h
      · cases h
      · split at h
        · cases h
          refine hput ?_ ?_ rfl <;> unfold P2PNode.deliver <;> split
          · exact (List.append_nil _).symm
          · rfl
          · exact gains_nil
          · exact onMessage_gains _ _ _ _ _
        · cases h
  | lose j =>
      cases h
      exact hsame rfl
  | hello j k => exact hcall h
  | restart j =>
      cases h
      by_cases hij : i = j
      · subst hij
        rw [put_self]
        refine ⟨[.restarted], rfl, gains_quiet fun key pos data he => ?_⟩
        cases List.mem_singleton.1 he
      · exact hsame (w.put_other cfg hij _)

/-- The packets that come into a node's inbox, oldest first. A step takes packets out or appends
some. -/
def arrivals (i : ι) (l : List (Transition (P2PWorld ι) (WorldAction ι))) : List IncomingPacket :=
  l.flatMap fun x => (x.post.node i).p2p.inbox.packets.drop (x.pre.node i).p2p.inbox.packets.length

/-- **What a stream enqueues comes into `Inbox_`.** In every run from a world that can be reached,
the payloads that `Stream.enqueued` lists are, in their order, among the packets that come into the
receiver's inbox under the stream's key. -/
theorem enqueued_arrives {ok : P2PWorld ι → WorldAction ι → Prop}
    (hreach : Run (worldStep cfg) Always (start cfg) w₀)
    {l : List (Transition (P2PWorld ι) (WorldAction ι))} (h : Trace (worldStep cfg) ok w₀ l w)
    (st : Stream ι) :
    ((st.enqueued cfg w₀ w).map Prod.snd).Sublist
      (((arrivals st.receiver l).filter (·.On (st.recvKey cfg))).map (·.data)) := by
  have hk₀ : ∀ i, (w₀.node i).p2p.RecvKeyed := recvKeyed_of_run hreach fun i _ _ hs => nomatch hs
  refine h.invariant (P := fun l w => ((st.enqueued cfg w₀ w).map Prod.snd).Sublist
    (((arrivals st.receiver l).filter (·.On (st.recvKey cfg))).map (·.data))) ?_ ?_
  · rw [Stream.enqueued, since, List.drop_length]
    exact List.nil_sublist _
  · intro l u v a hl hu _ hst
    obtain ⟨es, hlog, hgains⟩ := worldStep_gains (recvKeyed_of_run hl.run hk₀) hst st.receiver
    obtain ⟨before, hbefore⟩ := run_log hl.run st.receiver
    have hsince : w₀.since v st.receiver = w₀.since u st.receiver ++ es :=
      since_append ⟨before, hbefore⟩ hlog
    rw [Stream.enqueued, hsince, enqueuedOn_append, List.map_append, arrivals, List.flatMap_append,
      List.filter_append, List.map_append, List.flatMap_singleton]
    exact hu.append (hgains _)

end P2PWorld

end EOSEmu
