import EOSEmu.P2P.Retained

/-!
# No orphan send stream

`Pump` gives up on a silent peer through its connection, so a stream with pending packets needs the
connection it belongs to. Every handler that erases a connection clears its streams in the same
critical section, but `SendPacket` creates the connection in one section and stores the packet in
the next. `noOrphan_of_connected` shows that this gap is all there is to it: where the connection
is still there when the second section runs, no stream is ever orphaned. `not_noOrphan` closes the
connection in the gap.
-/

namespace EOSEmu

open Lib (Dict SeqMap Run Always exec execIf)

/-! ## What a step can do to the connections -/

/-- Every connection is stored under the key of its peer and socket. -/
def P2P.ConnKeyed (p : P2P) : Prop :=
  ∀ key conn, p.connections.get? key = some conn → key = connKey conn.peer conn.socketName

/-- The key was cleared with its streams. -/
def ClearsConn (es : List Event) (key : Bytes) : Prop :=
  ∃ peer socket, .cleared peer socket ∈ es ∧ key = connKey peer socket

/-- A step keeps connections under their keys, and erases only those whose streams it clears. -/
structure ConnStep (es : List Event) (p q : P2P) : Prop where
  keyed : q.ConnKeyed
  kept : ∀ key conn, p.connections.get? key = some conn →
    (∃ conn', q.connections.get? key = some conn') ∨ ClearsConn es key

section
variable {es : List Event} {p q : P2P}

/-- A step that leaves the connections alone. -/
theorem ConnStep.same (hp : p.ConnKeyed)
    (h : ∀ key, q.connections.get? key = p.connections.get? key) : ConnStep es p q where
  keyed key conn hc := hp key conn (h key ▸ hc)
  kept key conn hc := .inl ⟨conn, by rw [h, hc]⟩

/-- A step that stores a connection under its key. -/
theorem ConnStep.store (hp : p.ConnKeyed) {key : Bytes} {conn : Connection}
    (hkey : key = connKey conn.peer conn.socketName)
    (h : q.connections = p.connections.set key conn) : ConnStep es p q := by
  refine ⟨fun j c hc => ?_, fun j c hc => .inl ?_⟩
  · rw [h, Dict.get?_set] at hc
    split at hc
    · next hj =>
        cases hc
        rw [hj, hkey]
    · exact hp j c hc
  · rw [h, Dict.get?_set]
    split
    · exact ⟨conn, rfl⟩
    · exact ⟨c, hc⟩

/-- A step that erases some connections, having cleared the streams of each. -/
theorem ConnStep.eraseIf (hp : p.ConnKeyed) {g : Connection → Bool}
    (h : ∀ key, q.connections.get? key = (p.connections.get? key).filter fun conn => !g conn)
    (hclear : ∀ key conn, p.connections.get? key = some conn → g conn = true →
      .cleared conn.peer conn.socketName ∈ es) : ConnStep es p q := by
  refine ⟨fun key conn hc => ?_, fun key conn hc => ?_⟩
  · rw [h, Option.filter_eq_some_iff] at hc
    exact hp key conn hc.1
  · by_cases hg : g conn = true
    · exact .inr ⟨_, _, hclear key conn hc hg, hp key conn hc⟩
    · exact .inl ⟨conn, by rw [h, Option.filter_eq_some_iff]; exact ⟨hc, by simpa using hg⟩⟩

/-- A connection as it is stored, or a fresh one, has the key it was looked up with. -/
theorem P2P.ConnKeyed.stored (hp : p.ConnKeyed) {key : Bytes} {conn : Connection}
    (hc : p.connections.get? key = some conn) {conn' : Connection}
    (hpeer : conn'.peer = conn.peer) (hsock : conn'.socketName = conn.socketName) :
    key = connKey conn'.peer conn'.socketName := by
  rw [hpeer, hsock]
  exact hp key conn hc

/-! ## The handlers -/

/-- Before a message is queued, `SendPacket` takes no connection away. -/
theorem sendPacketOpen_conns (hp : p.ConnKeyed) (localPid : ProductUserId)
    (endpointFor : ProductUserId → Endpoint) (options : Option SendPacketOptions) :
    ConnStep es p (sendPacketOpen localPid endpointFor options p).1 := by
  have hsame : ConnStep es p p := .same hp fun _ => rfl
  unfold sendPacketOpen
  cases options with
  | none => exact hsame
  | some o =>
      dsimp only
      cases o.check with
      | error e => exact hsame
      | ok socket =>
          dsimp only
          cases hc : p.connections.get? (connKey o.remoteUserId socket) with
          | none =>
              dsimp only
              split
              · exact hsame
              · refine .store hp ?_ rfl
                rfl
          | some conn =>
              dsimp only
              split
              · exact hsame
              · refine .store hp ?_ rfl
                exact hp.stored hc rfl rfl

/-- Queueing takes no connection away. -/
theorem sendPacketQueue_conns (hp : p.ConnKeyed) (localPid : ProductUserId) (c : SendCall)
    (now : TimePoint) : ConnStep es p (sendPacketQueue localPid c now p).1 := by
  unfold sendPacketQueue
  split <;> exact .same hp fun _ => rfl

/-- A connection closed by the local user had its streams cleared. -/
theorem closeLocal_conns (hp : p.ConnKeyed) {peer : ProductUserId} {socket : Bytes}
    (hes : .cleared peer socket ∈ es) : ConnStep es p (p.closeLocal peer socket) := by
  refine ⟨fun key conn hc => ?_, fun key conn hc => ?_⟩
  · rw [P2P.closeLocal, Dict.get?_erase] at hc
    split at hc
    · cases hc
    · exact hp key conn hc
  · by_cases hk : key = connKey peer socket
    · exact .inr ⟨peer, socket, hes, hk⟩
    · exact .inl ⟨conn, by rw [P2P.closeLocal, Dict.get?_erase, if_neg hk, hc]⟩

/-- `OnDatagram` on any datagram. -/
theorem onMessage_conns (hp : p.ConnKeyed) (localPid : ProductUserId) (from_ : Endpoint)
    (m : Datagram UInt32) (inc : ℕ) (now : TimePoint) :
    ConnStep (events (p.onMessage localPid from_ m inc now).2) p
      (p.onMessage localPid from_ m inc now).1 := by
  have hsame : ∀ {es}, ConnStep es p p := .same hp fun _ => rfl
  unfold P2P.onMessage
  cases m.body with
  | connectRequest =>
      dsimp only
      unfold P2P.onConnectRequest
      dsimp only
      split
      · refine .store hp ?_ rfl
        rfl
      · split <;> exact hsame
  | connectIgnored => exact closeLocal_conns hp (by simp [P2P.onConnectIgnored])
  | connectAccept =>
      refine .store hp ?_ rfl
      rfl
  | connectClose => exact closeLocal_conns hp (by simp [P2P.onConnectClose])
  | data channel mode seq bytes =>
      have hlearn : ∀ {es} {q : P2P},
          q.connections = (p.learnConn from_ m.sender m.socket).connections → ConnStep es p q := by
        intro es q hq
        refine .store hp ?_ hq
        rfl
      dsimp only
      unfold P2P.onData
      dsimp only
      split
      · exact hlearn rfl
      · exact hlearn rfl
  | ack channel orderedByte ackSeq sack =>
      have hlife : ∀ {es} {q : P2P},
          q.connections = (p.proofOfLife m.sender m.socket).connections → ConnStep es p q := by
        intro es q hq
        unfold P2P.proofOfLife at hq
        split at hq
        · next conn hc =>
            refine .store hp ?_ hq
            exact hp.stored hc rfl rfl
        · exact .same hp fun key => by rw [hq]
      dsimp only
      unfold P2P.onAck
      dsimp only
      split <;> exact hlife rfl

/-- `AcceptConnection` takes no connection away. -/
theorem acceptConnection_conns (hp : p.ConnKeyed) (localPid : ProductUserId)
    (endpointFor : ProductUserId → Endpoint) (options : Option P2P.ConnectionOptions) :
    ConnStep es p (p.acceptConnection localPid endpointFor options).1 := by
  have hsame : ConnStep es p p := .same hp fun _ => rfl
  unfold P2P.acceptConnection
  cases options with
  | none => exact hsame
  | some o =>
      dsimp only
      split
      · exact hsame
      · refine .store hp ?_ rfl
        rfl

/-- `CloseConnection` clears the streams of what it closes. -/
theorem closeConnection_conns (hp : p.ConnKeyed) (localPid : ProductUserId)
    (options : Option P2P.ConnectionOptions) :
    ConnStep (events (p.closeConnection localPid options).2.1) p
      (p.closeConnection localPid options).1 := by
  have hsame : ∀ {es}, ConnStep es p p := .same hp fun _ => rfl
  unfold P2P.closeConnection
  cases options with
  | none => exact hsame
  | some o =>
      dsimp only
      split
      · exact hsame
      · exact closeLocal_conns hp (by simp)

/-- `CloseConnections` clears the streams of what it closes. -/
theorem closeConnections_conns (hp : p.ConnKeyed) (localPid : ProductUserId)
    (options : Option (Option Bytes)) :
    ConnStep (events (p.closeConnections localPid options).2.1) p
      (p.closeConnections localPid options).1 := by
  have hsame : ∀ {es}, ConnStep es p p := .same hp fun _ => rfl
  unfold P2P.closeConnections
  cases options with
  | none => exact hsame
  | some socketId =>
      cases socketId with
      | none => exact hsame
      | some socketId =>
          refine .eraseIf (g := fun conn => conn.socketName = socketName (some socketId)) hp
            (fun key => Dict.get?_eraseIf _ _ _) fun key conn hc hgone => ?_
          have hsock : conn.socketName = socketName (some socketId) := by simpa using hgone
          simp only [events_append, events_logs, events_sends, List.append_nil, List.mem_map]
          refine ⟨conn, ⟨(key, conn), ?_, rfl⟩, by rw [hsock]⟩
          exact List.mem_filter.2 ⟨Dict.mem_entries.2 hc, by simp [hsock]⟩

/-- Interrupting connections keeps them under their keys. -/
def Interrupts (p : P2P) (st : PumpState) : Prop :=
  ∀ key, (p.connections.get? key).map (fun c => (c.peer, c.socketName)) =
    (st.connections.get? key).map fun c => (c.peer, c.socketName)

/-- Interrupting one more connection keeps it under its key. -/
theorem Interrupts.interrupt {st : PumpState} (h : Interrupts p st) (now : TimePoint)
    (peer : ProductUserId) (socket : Bytes) : Interrupts p (st.interrupt now peer socket) := by
  unfold PumpState.interrupt
  cases hc : st.connections.get? (connKey peer socket) with
  | none => exact h
  | some conn =>
      dsimp only
      split
      · exact h
      · intro key
        rw [h, Dict.get?_set]
        split
        · next hk => rw [hk, hc]; rfl
        · rfl

/-- Resending a stream only interrupts. -/
theorem Interrupts.retransmit {st : PumpState} (h : Interrupts p st) (now : TimePoint)
    (key : Bytes) (s : SendStream) : Interrupts p (retransmit now st key s).1 := by
  unfold EOSEmu.retransmit
  split
  · exact h
  · refine SeqMap.mapAccum_inv (P := Interrupts p) (fun st k u _ ih => ?_) h
    unfold retransmitOne
    split
    · exact ih
    · dsimp only
      split
      · exact ih.interrupt now s.peer s.socket
      · exact ih

/-- `Pump` clears the streams of what it gives up. -/
theorem pump_conns (hp : p.ConnKeyed) (now : TimePoint) :
    ConnStep (events (p.pump now).2) p (p.pump now).1 := by
  unfold P2P.pump
  dsimp only
  have hsent : Interrupts p
      (p.sendStreams.mapAccum (retransmit now) { connections := p.connections }).1 :=
    Dict.mapAccum_inv (P := Interrupts p) (fun st key s _ ih => ih.retransmit now key s)
      fun key => rfl
  generalize p.sendStreams.mapAccum (retransmit now) { connections := p.connections } = sent
    at hsent ⊢
  have hmid : ∀ key conn, sent.1.connections.get? key = some conn →
      ∃ c, p.connections.get? key = some c ∧ c.peer = conn.peer ∧
      c.socketName = conn.socketName := by
    intro key conn hc
    have hk := hsent key
    rw [hc] at hk
    obtain ⟨c, hc', heq⟩ := Option.map_eq_some_iff.1 hk
    exact ⟨c, hc', congrArg Prod.fst heq, congrArg Prod.snd heq⟩
  refine ⟨fun key conn hc => ?_, fun key conn hc => ?_⟩
  · rw [P2P.sweep, Dict.get?_eraseIf, Option.filter_eq_some_iff] at hc
    obtain ⟨c, hc', hpeer, hsock⟩ := hmid key conn hc.1
    exact hp.stored hc' hpeer.symm hsock.symm
  · have hk := hsent key
    rw [hc] at hk
    obtain ⟨c, hc', heq⟩ := Option.map_eq_some_iff.1 hk.symm
    by_cases hdead : P2P.timedOut now c = true
    · right
      refine ⟨c.peer, c.socketName, ?_, ?_⟩
      · simp only [events_append, events_log, events_logs, events_sends, events_posts,
          List.append_nil, List.mem_append]
        refine .inr (List.mem_map.2 ⟨(c.peer, c.socketName), ?_, rfl⟩)
        exact List.mem_map.2 ⟨(key, c), List.mem_filter.2
          ⟨Dict.mem_entries.2 hc', hdead⟩, rfl⟩
      · have hpeer : c.peer = conn.peer := congrArg Prod.fst heq
        have hsock : c.socketName = conn.socketName := congrArg Prod.snd heq
        exact hp.stored hc hpeer hsock
    · left
      refine ⟨c, ?_⟩
      rw [P2P.sweep, Dict.get?_eraseIf, Option.filter_eq_some_iff]
      exact ⟨hc', by simpa using hdead⟩

end

/-- A step of a node's own threads. -/
theorem P2PNode.step_conns {n n' : P2PNode} {c : Call} {outs : List Out} (hp : n.p2p.ConnKeyed)
    (h : n.step c = some (n', outs)) : ConnStep (events outs) n.p2p n'.p2p := by
  have hsame : ∀ {es} {q : P2P}, q.connections = n.p2p.connections → ConnStep es n.p2p q :=
    fun hq => .same hp fun _ => by rw [hq]
  cases c with
  | sendPacket options =>
      simp only [P2PNode.step] at h
      split at h <;> cases h
      · rw [P2PNode.recordReturn_p2p]
        exact sendPacketOpen_conns hp ..
      · exact sendPacketOpen_conns hp ..
  | sendPacketQueue i now =>
      simp only [P2PNode.step] at h
      split at h <;> cases h
      rw [P2PNode.recordReturn_p2p]
      exact sendPacketQueue_conns hp ..
  | receivePacket o =>
      cases h
      refine hsame ?_
      unfold P2PNode.update P2P.receivePacket
      dsimp only
      split
      · rfl
      · split <;> rfl
  | setPacketQueueSize maxBytes => cases h; exact hsame rfl
  | clearPacketQueue o =>
      cases h
      refine hsame ?_
      unfold P2PNode.update P2P.clearPacketQueue
      dsimp only
      split <;> rfl
  | acceptConnection o => cases h; exact acceptConnection_conns hp ..
  | closeConnection o => cases h; exact closeConnection_conns hp ..
  | closeConnections o => cases h; exact closeConnections_conns hp ..
  | addNotifyPeerConnectionRequest socketId => cases h; exact hsame rfl
  | removeNotifyPeerConnectionRequest id => cases h; exact hsame rfl
  | pump now => cases h; exact pump_conns hp now
  | observe peer endpoint =>
      simp only [P2PNode.step] at h
      split at h <;> cases h
      exact hsame rfl
  | rehash c s r =>
      cases h
      exact .same hp fun key => Dict.get?_toFront _ _ _

/-! ## Streams and their connections -/

/-- A stream with pending packets is stored under a key of its peer and socket, and their
connection exists. -/
def P2P.Attached (p : P2P) : Prop :=
  ∀ key s, p.sendStreams.get? key = some s → (∃ k u, s.pending.get? k = some u) →
    (∃ channel ordered, key = streamKey s.peer s.socket channel ordered) ∧
      ∃ conn, p.connections.get? (connKey s.peer s.socket) = some conn

section
variable {localPid : ProductUserId} {cause : Cause} {es : List Event}
  {ds : List (Endpoint × Datagram Pos)} {p q : P2P}

/-- A connection that outlives a step keeps its streams attached: erasing it would have cleared
them. -/
theorem ConnStep.attached (hc : ConnStep es p q) (h : StreamStep localPid cause es ds p q)
    {peer : ProductUserId} {socket : Bytes} {channel : UInt8} {ordered : Bool} {t : SendStream}
    (ht : q.sendStreams.get? (streamKey peer socket channel ordered) = some t)
    (hconn : ∃ conn, p.connections.get? (connKey peer socket) = some conn) :
    ∃ conn, q.connections.get? (connKey peer socket) = some conn := by
  obtain ⟨conn, hconn⟩ := hconn
  rcases hc.kept _ conn hconn with hkept | ⟨peer', socket', hmem, hkey⟩
  · exact hkept
  · have hpre : streamPrefix peer' socket' = streamPrefix peer socket := by
      rw [streamPrefix, streamPrefix, hkey]
    have hclears : Clears es (streamKey peer socket channel ordered) :=
      ⟨peer', socket', hmem, hpre ▸ streamPrefix_isPrefixOf peer socket channel ordered⟩
    rw [(h.cleared _ hclears).1] at ht
    cases ht

/-- One step keeps streams attached, if a packet that is stored finds its connection. -/
theorem StreamStep.attached (h : StreamStep localPid cause es ds p q) (hc : ConnStep es p q)
    (hqueue : ∀ c now, cause = .queue c now → c.options.mode.isReliable = true →
      ∃ conn, p.connections.get?
        (connKey c.options.remoteUserId (socketName c.options.socketId)) = some conn)
    (hp : p.Attached) : q.Attached := by
  intro key t ht hpend
  have hsend := h.send key
  rw [ht] at hsend
  generalize hs : p.sendStreams.get? key = s at hsend
  cases hsend with
  | keep _ hrel =>
      cases hrel with
      | some hres =>
          obtain ⟨k, v, hv⟩ := hpend
          obtain ⟨u, hu, _⟩ := hres.pending' hv
          obtain ⟨⟨channel, ordered, rfl⟩, hconn⟩ := hp key _ hs ⟨k, u, hu⟩
          have hq := hc.attached h ht hconn
          rw [hres.frame]
          exact ⟨⟨channel, ordered, rfl⟩, hq⟩
  | queue s₀ hcause hrel hkey _ _ =>
      subst hkey
      exact ⟨⟨_, _, rfl⟩, hc.attached h ht (hqueue _ _ hcause hrel)⟩
  | ack _ _ _ _ =>
      obtain ⟨k, u, hu⟩ := hpend
      obtain ⟨⟨channel, ordered, rfl⟩, hconn⟩ :=
        hp key _ hs ⟨k, u, (SendStream.processAck_pending.1 hu).1⟩
      have hq := hc.attached h ht hconn
      rw [SendStream.processAck_frame]
      exact ⟨⟨channel, ordered, rfl⟩, hq⟩

end

/-! ## Runs -/

/-- Where no `SendPacket` is in progress, every stream with pending packets has its connection. -/
def P2PNode.NoOrphan (n : P2PNode) : Prop :=
  n.sending = [] → ∀ key s, n.p2p.sendStreams.get? key = some s → s.pending.isEmpty = false →
    n.p2p.connections.contains (connKey s.peer s.socket) = true

/-- The second section of a reliable `SendPacket` finds the connection its first section left. -/
def Connected (n : P2PNode) : NodeAction → Prop
  | .call (.sendPacketQueue i _) => ∀ c, n.sending[i]? = some c →
      c.options.mode.isReliable = true → n.p2p.connections.contains
        (connKey c.options.remoteUserId (socketName c.options.socketId)) = true
  | _ => True

/-- A map that is not empty has an entry. -/
theorem exists_pending {m : SeqMap Unacked} (h : m.isEmpty = false) :
    ∃ k u, m.get? k = some u := by
  obtain ⟨⟨k, u⟩, l, hl⟩ := List.exists_cons_of_ne_nil (l := m.entries)
    (fun hnil => by simp [SeqMap.isEmpty, hnil] at h)
  exact ⟨k, u, SeqMap.mem_entries.1 (by rw [hl]; exact List.mem_cons_self)⟩

/-- One step. -/
theorem P2PNode.attached_step {n n' : P2PNode} {a : NodeAction} (hk : n.p2p.ConnKeyed)
    (hp : n.p2p.Attached) (hok : Connected n a) (h : nodeStep n a = some n') :
    n'.p2p.ConnKeyed ∧ n'.p2p.Attached := by
  cases a with
  | datagram from_ type payload inc now =>
      cases h
      unfold P2PNode.onDatagram
      cases decode type payload with
      | none => exact ⟨hk, hp⟩
      | some m =>
          have hconn := onMessage_conns hk n.localPid from_ m inc now
          exact ⟨hconn.keyed, (P2PNode.receive_steps n from_ m inc now).streams.attached hconn
            (fun c now hcause => by cases hcause) hp⟩
  | call c =>
      obtain ⟨⟨m, outs⟩, hstep, rfl⟩ := Option.map_eq_some_iff.1 h
      have hconn := P2PNode.step_conns hk hstep
      refine ⟨hconn.keyed, (P2PNode.step_steps hstep).streams.attached hconn ?_ hp⟩
      intro call now hcause hrel
      obtain ⟨i, rfl, hi⟩ := P2PNode.causeOf_queue hcause
      exact Dict.contains_iff.1 (hok call hi hrel)

/-- **No orphan send stream**, as long as the connection outlives the gap between the two sections
of `SendPacket`: in every state a node can reach in which no `SendPacket` is in progress, each send
stream with a non-empty `Pending` has a `Connections_` entry for its peer and socket. -/
theorem noOrphan_of_connected (localPid : ProductUserId) {n : P2PNode}
    (h : Run nodeStep Connected (P2PNode.start localPid) n) : n.NoOrphan := by
  have hinv : n.p2p.ConnKeyed ∧ n.p2p.Attached := by
    refine h.invariant (P := fun n : P2PNode => n.p2p.ConnKeyed ∧ n.p2p.Attached) ?_
      fun u v a hu hok hst => P2PNode.attached_step hu.1 hu.2 hok hst
    refine ⟨?_, ?_⟩
    · intro key conn hc
      cases hc
    · intro key s hs
      cases hs
  intro _ key s hs hpend
  exact Dict.contains_iff.2 (hinv.2 key s hs (exists_pending hpend)).2

/-- `b` is known, a call passes its first section, and `b` answers the connection request that it
has no listener before the call goes on. -/
def ignoredInTheGap : List NodeAction :=
  [.call (.observe (str "b") sampleEndpoint), .call (.sendPacket (some samplePacket)),
    .datagram sampleEndpoint .p2pConnectIgnored (encode ⟨str "b", str "CHAT", .connectIgnored⟩) 0
      0,
    .call (.sendPacketQueue 0 0)]

/-- Without the condition this fails: the packet is stored on a stream whose connection was
closed in the gap. -/
theorem not_noOrphan :
    ¬ ∀ n, Run nodeStep Always (P2PNode.start (str "a")) n → n.NoOrphan := by
  intro h
  have hbad : (exec nodeStep (P2PNode.start (str "a")) ignoredInTheGap).map (fun n =>
      (n.sending, (n.p2p.sendStreams.get? samplePacket.key).map fun s =>
        (s.pending.isEmpty, n.p2p.connections.contains (connKey s.peer s.socket)))) =
      some ([], some (false, false)) := by decide +kernel
  obtain ⟨n, hn, heq⟩ := Option.map_eq_some_iff.1 hbad
  obtain ⟨hsending, hstream⟩ := Prod.ext_iff.1 heq
  obtain ⟨s, hs, hpair⟩ := Option.map_eq_some_iff.1 hstream
  obtain ⟨hpend, hconn⟩ := Prod.ext_iff.1 hpair
  have hgood := h n (Run.of_exec hn) hsending samplePacket.key s hs hpend
  rw [hgood] at hconn
  cases hconn

/-- A test for the condition. -/
def connectedTest (n : P2PNode) : NodeAction → Bool
  | .call (.sendPacketQueue i _) =>
      match n.sending[i]? with
      | some c => n.p2p.connections.contains
        (connKey c.options.remoteUserId (socketName c.options.socketId))
      | none => true
  | _ => true

/-- A run that meets the condition and leaves a packet pending. -/
theorem noOrphan_of_connected_sample :
    ∃ n, Run nodeStep Connected (P2PNode.start (str "a")) n ∧
      (n.p2p.sendStreams.get? samplePacket.key).map (·.pending.isEmpty) = some false ∧
      n.NoOrphan := by
  have hret : (execIf nodeStep connectedTest (P2PNode.start (str "a"))
      [.call (.observe (str "b") sampleEndpoint), .call (.sendPacket (some samplePacket)),
        .call (.sendPacketQueue 0 0)]).map
        (fun n => (n.p2p.sendStreams.get? samplePacket.key).map (·.pending.isEmpty)) =
      some (some false) := by decide +kernel
  obtain ⟨n, hn, hpend⟩ := Option.map_eq_some_iff.1 hret
  have hrun : Run nodeStep Connected (P2PNode.start (str "a")) n := by
    refine Run.of_execIf (fun n a ha => ?_) hn
    unfold Connected
    split
    · intro c hc _
      simpa only [connectedTest, hc] using ha
    · trivial
  exact ⟨n, hrun, hpend, noOrphan_of_connected (str "a") hrun⟩

end EOSEmu
