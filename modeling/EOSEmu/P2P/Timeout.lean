import EOSEmu.P2P.Connections

/-!
# Interruption and timeout

`Pump` interrupts a connection over a packet it has transmitted `kMaxTransmits` times, a sign of
life of the peer ends the interruption, and `Pump` closes a connection whose interruption has
lasted `kInterruptedGrace`. `Transmits` ties the counter `Tries` to the datagrams that went out,
`interruptedBy_of_run` traces the flag back to the `Pump` that set it, and `timeouts_earned` puts
the parts together. `ClearStreams` erases by a prefix that ends in a separator, so closing one
connection spares the streams of the others only among names without NUL bytes:
`not_timeouts_earned` is a socket name from the wire that contains one.
-/

namespace EOSEmu

open Lib (Dict SeqMap Run Always Trace Transition Since exec execIf)

/-! ## Transmissions -/

/-- The number of steps that transmitted the datagram. -/
def transmissions (d : Datagram Pos) (l : List (Transition P2PNode NodeAction)) : ℕ :=
  l.countP fun tr => (sends (tr.pre.outs tr.action)).any fun s => s.2 = d

/-- Transmissions are never taken back. -/
theorem transmissions_le (d : Datagram Pos) (l : List (Transition P2PNode NodeAction))
    (tr : Transition P2PNode NodeAction) : transmissions d l ≤ transmissions d (l ++ [tr]) := by
  rw [transmissions, transmissions, List.countP_append]
  omega

/-- A step that sends the datagram counts it once. -/
theorem transmissions_sent {d : Datagram Pos} {e : Endpoint}
    {l : List (Transition P2PNode NodeAction)} {tr : Transition P2PNode NodeAction}
    (h : (e, d) ∈ sends (tr.pre.outs tr.action)) :
    transmissions d (l ++ [tr]) = transmissions d l + 1 := by
  have hany : (sends (tr.pre.outs tr.action)).any (fun s => decide (s.2 = d)) = true :=
    List.any_eq_true.2 ⟨_, h, decide_eq_true rfl⟩
  rw [transmissions, transmissions, List.countP_append, List.countP_singleton, if_pos hany]

/-- How a step with these datagrams counts tries: what is pending after it was pending before with
as many tries, or with one less and went out, or is new and went out. -/
structure Transmits (ds : List (Endpoint × Datagram Pos)) (p q : P2P) : Prop where
  packet : ∀ {key t k v}, q.sendStreams.get? key = some t → t.pending.get? k = some v →
    (∃ s u, p.sendStreams.get? key = some s ∧ s.pending.get? k = some u ∧ v.payload = u.payload ∧
      (v.tries = u.tries ∨ v.tries = u.tries + 1 ∧ (v.toEndpoint, v.payload) ∈ ds)) ∨
    (v.tries = 1 ∧ (v.toEndpoint, v.payload) ∈ ds)

section
variable {ds : List (Endpoint × Datagram Pos)} {p q : P2P}

/-- A step that stores no send stream. -/
theorem Transmits.sub
    (h : ∀ key t, q.sendStreams.get? key = some t → p.sendStreams.get? key = some t) :
    Transmits ds p q :=
  ⟨fun ht hv => .inl ⟨_, _, h _ _ ht, hv, rfl, .inl rfl⟩⟩

/-- A step that leaves the send streams alone. -/
theorem Transmits.same (h : q.sendStreams = p.sendStreams) : Transmits ds p q :=
  .sub fun _ _ ht => h ▸ ht

/-- `ClearStreams` stores nothing. -/
theorem Transmits.closeLocal (p : P2P) (peer : ProductUserId) (socket : Bytes) :
    Transmits ds p (p.closeLocal peer socket) := by
  refine .sub fun key t ht => ?_
  rw [P2P.closeLocal] at ht
  dsimp only at ht
  rw [(get?_clearStreams p peer socket key).1] at ht
  split at ht
  · cases ht
  · exact ht

/-- Before a message is queued, `SendPacket` leaves the sending streams alone. -/
theorem sendPacketOpen_sendStreams (p : P2P) (localPid : ProductUserId)
    (endpointFor : ProductUserId → Endpoint) (options : Option SendPacketOptions) :
    (sendPacketOpen localPid endpointFor options p).1.sendStreams = p.sendStreams := by
  unfold sendPacketOpen
  cases options with
  | none => rfl
  | some o =>
      dsimp only
      cases o.check with
      | error e => rfl
      | ok socket =>
          dsimp only
          cases p.connections.get? (connKey o.remoteUserId socket) with
          | none =>
              dsimp only
              split <;> rfl
          | some conn =>
              dsimp only
              split <;> rfl

/-- A queued packet is transmitted once, when it becomes pending. -/
theorem sendPacketQueue_transmits (p : P2P) (localPid : ProductUserId) (c : SendCall)
    (now : TimePoint) : Transmits (sends (sendPacketQueue localPid c now p).2) p
      (sendPacketQueue localPid c now p).1 := by
  unfold sendPacketQueue
  split
  · refine ⟨fun {key t k v} ht hv => ?_⟩
    dsimp only at ht
    rw [Dict.get?_set] at ht
    split at ht
    · next hkey =>
        cases ht
        by_cases hk : k = (p.openSendStream c.options.key).nextSeq
        · subst hk
          rw [SendStream.queue_new] at hv
          cases hv
          exact .inr ⟨rfl, List.mem_singleton_self _⟩
        · rw [SendStream.queue_old _ _ _ _ hk] at hv
          -- an older packet: the stream was there
          unfold P2P.openSendStream at hv
          cases hs : p.sendStreams.get? c.options.key with
          | none =>
              rw [hs] at hv
              cases hv
          | some s =>
              rw [hs] at hv
              exact .inl ⟨s, v, hkey ▸ hs, hv, rfl, .inl rfl⟩
    · exact .inl ⟨t, v, ht, hv, rfl, .inl rfl⟩
  · exact .same rfl

/-- Delivery writes the inbox and the receive streams. Stated over their new values, so that
nothing unfolds the code that computes them. -/
theorem received_sendStreams (p : P2P) (inbox : Inbox) (recvStreams : Dict Bytes RecvStream) :
    ({ p with inbox, recvStreams } : P2P).sendStreams = p.sendStreams := rfl

/-- Data leave the sending streams alone. -/
theorem onData_sendStreams (p : P2P) (localPid : ProductUserId) (from_ : Endpoint)
    (peer : ProductUserId) (socket : Bytes) (channel mode : UInt8) (wireSeq : UInt32)
    (data : Bytes) (inc : ℕ) :
    (p.onData localPid from_ peer socket channel mode wireSeq data inc).1.sendStreams =
      p.sendStreams := by
  have hreceive : ∀ q : P2P, (q.receiveData localPid from_ peer socket channel (modeOrdered mode)
      wireSeq data inc).1.sendStreams = q.sendStreams := by
    intro q
    unfold P2P.receiveData
    exact received_sendStreams q _ _
  unfold P2P.onData
  dsimp only
  split
  · rfl
  · rw [hreceive]
    rfl

/-- An ack leaves fewer packets pending, and counts no transmission. -/
theorem onAck_transmits (p : P2P) (peer : ProductUserId) (socket : Bytes)
    (channel orderedByte : UInt8) (wireAckSeq sack : UInt32) (now : TimePoint) :
    Transmits ds p (p.onAck peer socket channel orderedByte wireAckSeq sack now).1 := by
  have hproof : (p.proofOfLife peer socket).sendStreams = p.sendStreams := by
    unfold P2P.proofOfLife
    split <;> rfl
  unfold P2P.onAck
  dsimp only
  rw [hproof]
  split
  · exact .same hproof
  · next s hs =>
      generalize extend32 s.nextSeq wireAckSeq = ackSeq
      refine ⟨fun {key t k v} ht hv => ?_⟩
      rw [Dict.get?_set] at ht
      split at ht
      · next hkey =>
          cases ht
          exact .inl ⟨s, v, hkey ▸ hs, (SendStream.processAck_pending.1 hv).1, rfl, .inl rfl⟩
      · exact .inl ⟨t, v, ht, hv, rfl, .inl rfl⟩

/-- No message leaves more packets pending. -/
theorem onMessage_transmits (p : P2P) (localPid : ProductUserId) (from_ : Endpoint)
    (m : Datagram UInt32) (inc : ℕ) (now : TimePoint) :
    Transmits ds p (p.onMessage localPid from_ m inc now).1 := by
  unfold P2P.onMessage
  cases m.body with
  | connectRequest =>
      dsimp only
      unfold P2P.onConnectRequest
      dsimp only
      split
      · exact .same rfl
      · split <;> exact .same rfl
  | connectIgnored => exact .closeLocal p m.sender m.socket
  | connectAccept => exact .same rfl
  | connectClose => exact .closeLocal p m.sender m.socket
  | data channel mode seq bytes =>
      exact .same (onData_sendStreams ..)
  | ack channel orderedByte ackSeq sack => exact onAck_transmits ..

/-- Closing connections leaves fewer packets pending. -/
theorem closeConnections_transmits (p : P2P) (localPid : ProductUserId)
    (options : Option (Option Bytes)) : Transmits ds p (p.closeConnections localPid options).1 := by
  unfold P2P.closeConnections
  cases options with
  | none => exact .same rfl
  | some socketId =>
      cases socketId with
      | none => exact .same rfl
      | some socketId =>
          dsimp only
          generalize (p.connections.entries.filter fun e =>
            e.2.socketName = socketName (some socketId)).map Prod.snd = toClose
          refine .sub fun key t ht => ?_
          have hfold := (get?_foldl_clearStreams
            (toClose.map fun c => (c.peer, socketName (some socketId))) p key).1
          rw [List.foldl_map] at hfold
          dsimp only at ht
          rw [hfold] at ht
          split at ht
          · cases ht
          · exact ht

/-- A turn of the loop over `Pending` either leaves the packet alone or transmits it. -/
theorem retransmitOne_tries (rto : Int) (now : TimePoint) (peer : ProductUserId) (socket : Bytes)
    (st : PumpState) (k : ℕ) (u : Unacked) : let r := retransmitOne rto now peer socket st k u
    st.toSend ⊆ r.1.toSend ∧ (r.2.tries = u.tries ∨
      r.2.tries = u.tries + 1 ∧ (r.2.toEndpoint, r.2.payload) ∈ r.1.toSend) := by
  unfold retransmitOne
  split
  · exact ⟨fun _ h => h, .inl rfl⟩
  · have hsend : (if maxTransmits ≤ u.tries then st.interrupt now peer socket else st).toSend =
        st.toSend := by
      split
      · exact PumpState.interrupt_toSend ..
      · rfl
    dsimp only
    rw [hsend]
    exact ⟨List.subset_append_left _ _, .inr ⟨rfl, by simp⟩⟩

/-- So does the loop over `SendStreams_`, for every packet of a stream. -/
theorem retransmit_tries (now : TimePoint) (st : PumpState) (key : Bytes) (s : SendStream) :
    let r := retransmit now st key s
    st.toSend ⊆ r.1.toSend ∧ ∀ k v, r.2.pending.get? k = some v →
      ∃ u, s.pending.get? k = some u ∧ v.payload = u.payload ∧ (v.tries = u.tries ∨
        v.tries = u.tries + 1 ∧ (v.toEndpoint, v.payload) ∈ r.1.toSend) := by
  unfold retransmit
  split
  · exact ⟨fun _ h => h, fun k v hv => ⟨v, hv, rfl, .inl rfl⟩⟩
  · have hturn := fun st k u => retransmitOne_tries (rtoFor s) now s.peer s.socket st k u
    obtain ⟨hsub, hall⟩ := SeqMap.mapAccum_le (R := fun a b : PumpState => a.toSend ⊆ b.toSend)
      (fun _ _ h => h) (fun _ _ _ h₁ h₂ _ h => h₂ (h₁ h)) (fun st k u => (hturn st k u).1)
      s.pending st
    refine ⟨hsub, fun k v hv => ?_⟩
    obtain ⟨st', u, hu, rfl, hrest⟩ := hall k v hv
    refine ⟨u, hu, (retransmitOne_packet _ _ _ _ st' k u).1, ?_⟩
    rcases (hturn st' k u).2 with hsame | ⟨htries, hsent⟩
    · exact .inl hsame
    · exact .inr ⟨htries, hrest hsent⟩

/-- `Pump` counts every packet it transmits. -/
theorem pump_transmits (p : P2P) (now : TimePoint) :
    Transmits (sends (p.pump now).2) p (p.pump now).1 := by
  have hturn := retransmit_tries now
  obtain ⟨_, hall⟩ := Dict.mapAccum_le (R := fun a b : PumpState => a.toSend ⊆ b.toSend)
    (fun _ _ h => h) (fun _ _ _ h₁ h₂ _ h => h₂ (h₁ h)) (fun st k s => (hturn st k s).1)
    p.sendStreams { connections := p.connections }
  unfold P2P.pump
  dsimp only
  generalize p.recvStreams.mapAccum P2P.drainOne (p.inbox, []) = drained
  generalize p.sendStreams.mapAccum (retransmit now) { connections := p.connections } =
    sent at hall ⊢
  generalize hq : ({ p with
    inbox := drained.1.1, recvStreams := drained.2
    connections := sent.1.connections, sendStreams := sent.2 } : P2P) = q
  simp only [sends_append, sends_log, sends_logs, sends_sends, sends_posts, List.append_nil,
    List.nil_append, Prod.mk.eta, List.map_id']
  refine ⟨fun {key t k v} ht hv => ?_⟩
  rw [(sweep_spec q now).1, (get?_foldl_clearStreams _ q key).1] at ht
  split at ht
  · cases ht
  · have ht' : sent.2.get? key = some t := by
      rw [← hq] at ht
      exact ht
    obtain ⟨st, s, hs, rfl, hrest⟩ := hall key t ht'
    obtain ⟨u, hu, hpay, htries⟩ := (hturn st key s).2 k v hv
    refine .inl ⟨s, u, hs, hu, hpay, ?_⟩
    rcases htries with hsame | ⟨htries, hsent⟩
    · exact .inl hsame
    · exact .inr ⟨htries, hrest hsent⟩

end

/-- Every step of a node counts tries that way. -/
theorem nodeStep_transmits {n n' : P2PNode} {a : NodeAction} (h : nodeStep n a = some n') :
    Transmits (sends (n.outs a)) n.p2p n'.p2p := by
  cases a with
  | datagram from_ type payload inc now =>
      cases h
      unfold P2PNode.onDatagram
      cases decode type payload with
      | none => exact .same rfl
      | some m => exact onMessage_transmits ..
  | call c =>
      obtain ⟨⟨m, outs⟩, hstep, rfl⟩ := Option.map_eq_some_iff.1 h
      have houts : n.outs (.call c) = outs := by
        rw [P2PNode.outs, hstep]
        rfl
      rw [houts]
      cases c with
      | sendPacket options =>
          have hopen := sendPacketOpen_sendStreams n.p2p n.localPid n.endpointFor options
          simp only [P2PNode.step] at hstep
          split at hstep <;> cases hstep
          · refine .same ?_
            rw [P2PNode.recordReturn_p2p]
            exact hopen
          · exact .same hopen
      | sendPacketQueue i now =>
          simp only [P2PNode.step] at hstep
          split at hstep <;> cases hstep
          rw [P2PNode.recordReturn_p2p]
          exact sendPacketQueue_transmits ..
      | receivePacket o =>
          cases hstep
          refine .same ?_
          unfold P2PNode.update P2P.receivePacket
          dsimp only
          split
          · rfl
          · split <;> rfl
      | setPacketQueueSize maxBytes => cases hstep; exact .same rfl
      | clearPacketQueue o =>
          cases hstep
          refine .same ?_
          unfold P2PNode.update P2P.clearPacketQueue
          dsimp only
          split <;> rfl
      | acceptConnection o =>
          cases hstep
          refine .same ?_
          unfold P2PNode.update P2P.acceptConnection
          cases o with
          | none => rfl
          | some o =>
              dsimp only
              split <;> rfl
      | closeConnection o =>
          cases hstep
          unfold P2PNode.update P2P.closeConnection
          cases o with
          | none => exact .same rfl
          | some o =>
              dsimp only
              split
              · exact .same rfl
              · exact .closeLocal n.p2p o.remoteUserId (socketName o.socketId)
      | closeConnections o => cases hstep; exact closeConnections_transmits ..
      | addNotifyPeerConnectionRequest socketId => cases hstep; exact .same rfl
      | removeNotifyPeerConnectionRequest id => cases hstep; exact .same rfl
      | pump now => cases hstep; exact pump_transmits n.p2p now
      | observe peer endpoint =>
          simp only [P2PNode.step] at hstep
          split at hstep <;> cases hstep
          exact .same rfl
      | rehash c s r =>
          cases hstep
          refine .sub fun key t ht => ?_
          rw [← ht]
          exact (Dict.get?_toFront n.p2p.sendStreams s key).symm

/-- `Tries` counts transmissions. -/
theorem tries_le_transmissions {ok : P2PNode → NodeAction → Prop} {localPid : ProductUserId}
    {l : List (Transition P2PNode NodeAction)} {n : P2PNode}
    (h : Trace nodeStep ok (P2PNode.start localPid) l n) {key : Bytes} {s : SendStream} {k : ℕ}
    {u : Unacked} (hs : n.p2p.sendStreams.get? key = some s) (hu : s.pending.get? k = some u) :
    u.tries ≤ transmissions u.payload l := by
  refine h.invariant (P := fun l n => ∀ key s k u, n.p2p.sendStreams.get? key = some s →
    s.pending.get? k = some u → u.tries ≤ transmissions u.payload l) (fun _ _ _ _ hs => nomatch hs)
    ?_ key s k u hs hu
  intro l n n' a _ ih _ hst key t k v ht hv
  rcases (nodeStep_transmits hst).packet ht hv with ⟨s, u, hs, hu, hpay, htries⟩ | ⟨hone, hsent⟩
  · have hle := ih key s k u hs hu
    rw [hpay]
    rcases htries with hsame | ⟨htries, hsent⟩
    · rw [hsame]
      exact hle.trans (transmissions_le ..)
    · rw [hpay] at hsent
      rw [htries, transmissions_sent hsent]
      omega
  · rw [hone, transmissions_sent hsent]
    omega

/-! ## Names without NUL bytes -/

/-- A name without NUL bytes. Those of the application are C strings; those of a datagram can be
anything. -/
def Plain (name : Bytes) : Prop := 0 ∉ name

instance : DecidablePred Plain := fun _ => inferInstanceAs (Decidable (_ ∉ _))

/-- The name of a socket ends at its first zero byte. -/
theorem socketName_plain (socketId : Option Bytes) : Plain (socketName socketId) := by
  intro h
  have hne := List.mem_takeWhile_imp h
  simp at hne

/-- Among plain names, the prefix of one connection begins the streams of that connection only. -/
theorem streamPrefix_eq {p q : ProductUserId} {s t : Bytes} {channel : UInt8} {ordered : Bool}
    (hp : Plain p) (hs : Plain s) (hq : Plain q) (ht : Plain t)
    (h : (streamPrefix p s).isPrefixOf (streamKey q t channel ordered) = true) : p = q ∧ s = t := by
  obtain ⟨rest, hrest⟩ := List.isPrefixOf_iff_prefix.1 h
  have hfull : p ++ 0 :: (s ++ 0 :: rest) =
      q ++ 0 :: (t ++ 0 :: [channel, if ordered then 79 else 85]) := by
    simpa [streamPrefix, streamKey, connKey] using hrest
  obtain ⟨hpq, htail⟩ := append_sep_inj hp hq hfull
  exact ⟨hpq, (append_sep_inj hs ht htail).1⟩

/-- The names an action brings in are plain. -/
def PlainNames (_ : P2PNode) (a : NodeAction) : Prop :=
  (∀ m, a.received = some m → Plain m.sender ∧ Plain m.socket) ∧
  (∀ o, a = .call (.sendPacket (some o)) → Plain o.remoteUserId) ∧
  ∀ o, a = .call (.acceptConnection (some o)) → Plain o.remoteUserId

/-- All names in the node are plain, and every stream is stored under the key of its names. -/
structure P2PNode.Named (n : P2PNode) : Prop where
  conns : ∀ key conn, n.p2p.connections.get? key = some conn →
    Plain conn.peer ∧ Plain conn.socketName
  sends : ∀ key s, n.p2p.sendStreams.get? key = some s →
    (∃ channel ordered, key = streamKey s.peer s.socket channel ordered) ∧ Plain s.peer ∧
      Plain s.socket
  recvs : ∀ key s, n.p2p.recvStreams.get? key = some s →
    (∃ channel ordered, key = streamKey s.peer s.socket channel ordered) ∧ Plain s.peer ∧
      Plain s.socket
  sending : ∀ c ∈ n.sending, Plain c.options.remoteUserId

section
variable {localPid : ProductUserId} {cause : Cause} {key : Bytes} {es : List Event}

/-- A send stream keeps its names; a packet that is queued names its own stream. -/
theorem SendStep.named {o : Option SendStream} {t : SendStream}
    (h : SendStep localPid cause key es o (some t))
    (hcall : ∀ c now, cause = .queue c now → Plain c.options.remoteUserId)
    (ho : ∀ s, o = some s → (∃ channel ordered, key = streamKey s.peer s.socket channel ordered) ∧
      Plain s.peer ∧ Plain s.socket) :
    (∃ channel ordered, key = streamKey t.peer t.socket channel ordered) ∧ Plain t.peer ∧
      Plain t.socket := by
  cases h with
  | keep _ hrel =>
      cases hrel with
      | some hres =>
          have hs := ho _ rfl
          rw [hres.frame]
          exact hs
  | queue t₀ hcause _ hkey _ _ => exact ⟨⟨_, _, hkey.symm⟩, hcall _ _ hcause, socketName_plain _⟩
  | ack _ _ _ _ =>
      have hs := ho _ rfl
      rw [SendStream.processAck_frame]
      exact hs

/-- A receive stream keeps its names; data names its own stream. -/
theorem RecvStep.named {o : Option RecvStream} {t : RecvStream}
    (h : RecvStep cause key es o (some t))
    (hmessage : ∀ from_ m inc, cause = .message from_ m inc → Plain m.sender ∧ Plain m.socket)
    (ho : ∀ s, o = some s → (∃ channel ordered, key = streamKey s.peer s.socket channel ordered) ∧
      Plain s.peer ∧ Plain s.socket) :
    (∃ channel ordered, key = streamKey t.peer t.socket channel ordered) ∧ Plain t.peer ∧
      Plain t.socket := by
  cases h with
  | keep => exact ho _ rfl
  | drain hdeliv =>
      have hs := ho _ rfl
      rw [hdeliv.frame]
      exact hs
  | data s₀ hcause _ _ hkey hs₀ hdeliv =>
      have hpeer : t.peer = s₀.peer ∧ t.socket = s₀.socket := by
        rw [hdeliv.frame]
        unfold RecvStream.receive
        split <;> exact ⟨rfl, rfl⟩
      rw [hpeer.1, hpeer.2, hs₀]
      exact ⟨⟨_, _, hkey.symm⟩, hmessage _ _ _ hcause⟩

end

/-- One step. -/
theorem P2PNode.Named.step {n n' : P2PNode} {a : NodeAction} (hk : n.p2p.ConnKeyed) (hn : n.Named)
    (hok : PlainNames n a) (h : nodeStep n a = some n') : n'.Named := by
  obtain ⟨hreceived, hsendPacket, haccept⟩ := hok
  have hconns : ∀ key conn, n'.p2p.connections.get? key = some conn →
      Plain conn.peer ∧ Plain conn.socketName := by
    intro key conn hconn
    have hchange := nodeStep_conn hk h key
    have hold := hn.conns key
    generalize n.p2p.connections.get? key = o at hchange hold
    rw [hconn] at hchange
    generalize postsOf key (n.outs a) = notes at hchange
    generalize ho' : some conn = o' at hchange
    cases hchange with
    | keep => exact hold conn ho'.symm
    | send ha hcheck hkey _ =>
        cases ho'
        cases o with
        | none =>
            refine ⟨hsendPacket _ ha, ?_⟩
            show Plain _
            rw [SendPacketOptions.check_socket hcheck]
            exact socketName_plain _
        | some c => exact hold c rfl
    | accept ha _ _ _ =>
        cases ho'
        exact ⟨haccept _ ha, socketName_plain _⟩
    | request hm | accepted hm | data hm =>
        cases ho'
        exact hreceived _ hm
    | ack | interrupt =>
        have hc := hold _ rfl
        cases ho'
        exact hc
    | closeLocal | ignored | closedByPeer | timeout => cases ho'
  cases a with
  | datagram from_ type payload inc now =>
      cases h
      unfold P2PNode.onDatagram at hconns ⊢
      cases hm : decode type payload with
      | none => exact hn
      | some m =>
          rw [hm] at hconns
          have hplain := hreceived m hm
          have hstreams := (P2PNode.receive_steps n from_ m inc now).streams
          refine ⟨hconns, fun key t ht => ?_, fun key t ht => ?_, hn.sending⟩
          · refine SendStep.named (ht ▸ hstreams.send key) ?_ (hn.sends key)
            intro c now hcause
            cases hcause
          · refine RecvStep.named (ht ▸ hstreams.recv key) ?_ (hn.recvs key)
            intro f m' i hcause
            cases hcause
            exact hplain
  | call c =>
      obtain ⟨⟨m, outs⟩, hstep, rfl⟩ := Option.map_eq_some_iff.1 h
      have hstreams := (P2PNode.step_steps hstep).streams
      refine ⟨hconns, fun key t ht => ?_, fun key t ht => ?_, fun call hcall => ?_⟩
      · refine SendStep.named (ht ▸ hstreams.send key) ?_ (hn.sends key)
        intro call now hcause
        obtain ⟨i, _, hi⟩ := P2PNode.causeOf_queue hcause
        exact hn.sending call (List.mem_of_getElem? hi)
      · refine RecvStep.named (ht ▸ hstreams.recv key) ?_ (hn.recvs key)
        intro f m' i hcause
        exact absurd hcause P2PNode.causeOf_ne_message
      · rcases P2PNode.step_sending hstep call hcall with hold | ⟨hnew, _⟩
        · exact hn.sending call hold
        · exact hsendPacket _ (congrArg NodeAction.call hnew)

/-- Every run that brings in plain names. -/
theorem named_of_run {localPid : ProductUserId} {n : P2PNode}
    (h : Run nodeStep PlainNames (P2PNode.start localPid) n) : n.Named := by
  refine h.invariant' (P := P2PNode.Named) ?_ ?_
  · exact ⟨(fun _ _ hc => nomatch hc), (fun _ _ hs => nomatch hs), (fun _ _ hs => nomatch hs),
      (fun _ hc => nomatch hc)⟩
  · intro u v a hr hu hok hst
    exact hu.step (keyed_of_run hr) hok hst

/-! ## What `Pump` closes -/

/-- The connections whose streams a `Pump` clears are those whose interruption has outlasted the
grace period when it starts. -/
theorem mem_pump_cleared {p : P2P} {now : TimePoint} {peer : ProductUserId} {socket : Bytes} :
    .cleared peer socket ∈ events (p.pump now).2 ↔ ∃ key c, p.connections.get? key = some c ∧
      P2P.timedOut now c = true ∧ c.peer = peer ∧ c.socketName = socket := by
  have hint := fun key => Interruption.sendStreams p now key
  have hnoclear := drained_noClear p peer socket
  unfold P2P.pump
  dsimp only
  generalize p.recvStreams.mapAccum P2P.drainOne (p.inbox, []) = drained at hnoclear ⊢
  generalize p.sendStreams.mapAccum (retransmit now) { connections := p.connections } =
    sent at hint ⊢
  -- interrupting does not make a connection time out
  have hmid : ∀ key c, P2P.timedOut now c = true →
      (sent.1.connections.get? key = some c ↔ p.connections.get? key = some c) := by
    intro key c htime
    rcases hint key with ⟨hget, _⟩ | ⟨c₀, _, _, hc₀, hfresh, _, _, _, hget⟩
    · rw [hget]
    · have hgrace : ¬ interruptedGrace ≤ now - now := by
        rw [Int.sub_self]
        decide
      rw [hget, hc₀]
      constructor
      · intro h
        cases h
        simp only [P2P.timedOut, hgrace, decide_false, Bool.and_false] at htime
        cases htime
      · intro h
        cases h
        simp only [P2P.timedOut, hfresh, Bool.false_and] at htime
        cases htime
  simp only [events_append, events_log, events_logs, events_sends, events_posts, List.append_nil,
    List.mem_append, hnoclear, false_or, P2P.sweep, List.mem_map, List.mem_filter]
  constructor
  · rintro ⟨_, ⟨⟨key, c⟩, ⟨hmem, htime⟩, rfl⟩, heq⟩
    cases heq
    exact ⟨key, c, (hmid key c htime).1 (Dict.mem_entries.1 hmem), htime, rfl, rfl⟩
  · rintro ⟨key, c, hc, htime, rfl, rfl⟩
    exact ⟨_, ⟨(key, c), ⟨Dict.mem_entries.2 ((hmid key c htime).2 hc), htime⟩, rfl⟩, rfl⟩

section
variable {n n' : P2PNode} {now : TimePoint} {key : Bytes} {o o' : Option Connection}
  {notes : List Notification}

/-- What a `Pump` does to one connection: nothing, an interruption, or a timeout. -/
theorem ConnChange.pump (h : ConnChange n (.call (.pump now)) key o o' notes) :
    (o' = o ∧ notes = [] ∧ ∀ c, o = some c → P2P.timedOut now c = false) ∨
    (∃ c peer socket, o = some c ∧ c.bInterrupted = false ∧ connKey peer socket = key ∧
      n.p2p.Unanswered now peer socket ∧ notes = [.connectionInterrupted peer socket] ∧
      o' = some { c with bInterrupted := true, interruptedAt := now }) ∨
    ∃ c, o = some c ∧ P2P.timedOut now c = true ∧ o' = none ∧
      notes = [.connectionClosed c.peer c.socketName .timedOut] := by
  cases h with
  | keep _ htime => exact .inl ⟨rfl, rfl, fun c hc => htime c now hc rfl⟩
  | interrupt ha hfresh hkey hun =>
      cases ha
      exact .inr (.inl ⟨_, _, _, rfl, hfresh, hkey, hun, rfl, rfl⟩)
  | timeout ha htime =>
      cases ha
      exact .inr (.inr ⟨_, rfl, htime, rfl, rfl⟩)
  | send ha | accept ha => cases ha
  | request hm | accepted hm | data hm | ack hm | ignored hm | closedByPeer hm => cases hm
  | closeLocal ha => rcases ha with ⟨_, ha⟩ | ⟨_, ha⟩ <;> cases ha

/-- The connection is there and interrupted. -/
def P2PNode.interrupted (n : P2PNode) (key : Bytes) : Bool :=
  ((n.p2p.connections.get? key).map (·.bInterrupted)).getD false

/-- A connection is interrupted if its entry says so. -/
theorem P2PNode.interrupted_iff {n : P2PNode} : n.interrupted key = true ↔
    ∃ c, n.p2p.connections.get? key = some c ∧ c.bInterrupted = true := by
  unfold P2PNode.interrupted
  cases n.p2p.connections.get? key with
  | none => simp
  | some c => simp

/-- Some pending reliable packet of the pair has been transmitted `kMaxTransmits` times by the
steps of `l`, and its back-off wait is over. -/
def P2PNode.Overdue (n : P2PNode) (l : List (Transition P2PNode NodeAction)) (now : TimePoint)
    (key : Bytes) : Prop :=
  ∃ skey s k u, n.p2p.sendStreams.get? skey = some s ∧ connKey s.peer s.socket = key ∧
    s.pending.get? k = some u ∧ maxTransmits ≤ transmissions u.payload l ∧
    backoff (rtoFor s) u.tries ≤ now - u.lastSent

/-- A `Pump` at time `t` interrupts the connection. -/
def Interrupting (key : Bytes) (t : TimePoint) (tr : Transition P2PNode NodeAction) : Prop :=
  tr.action = .call (.pump t) ∧ tr.pre.interrupted key = false ∧ tr.post.interrupted key = true

/-- The connection was interrupted at time `t`, over an overdue packet, and its peer has not shown
life since. -/
def InterruptedBy (key : Bytes) (t : TimePoint) (l : List (Transition P2PNode NodeAction)) : Prop :=
  ∃ before tr after, l = before ++ tr :: after ∧ Interrupting key t tr ∧
    tr.pre.Overdue before t key ∧ ∀ x ∈ after, ¬ x.action.IsLife key

/-- Without a sign of life it stays so. -/
theorem InterruptedBy.later {t : TimePoint} {l : List (Transition P2PNode NodeAction)}
    {x : Transition P2PNode NodeAction} (h : InterruptedBy key t l) (hx : ¬ x.action.IsLife key) :
    InterruptedBy key t (l ++ [x]) := by
  obtain ⟨before, tr, after, rfl, htr, hdue, hafter⟩ := h
  refine ⟨before, tr, after ++ [x], by simp, htr, hdue, fun y hy => ?_⟩
  rcases List.mem_append.1 hy with hy | hy
  · exact hafter y hy
  · rw [List.mem_singleton.1 hy]
    exact hx

/-- A datagram other than data, an ack or an accept is no sign of life. -/
theorem not_isLife_body {a : NodeAction} {m : Datagram UInt32} (hm : a.received = some m)
    (hbody : m.body = .connectRequest) : ¬ a.IsLife key := by
  rintro ⟨m', hm', _, hlife⟩
  rw [hm] at hm'
  cases hm'
  rw [hbody] at hlife
  exact hlife

/-- The flag of a connection goes back to the `Pump` that set it, and carries its time. -/
theorem interruptedBy_of_run {ok : P2PNode → NodeAction → Prop} {localPid : ProductUserId}
    {l : List (Transition P2PNode NodeAction)}
    (h : Trace nodeStep ok (P2PNode.start localPid) l n) {c : Connection}
    (hc : n.p2p.connections.get? key = some c) (hdown : c.bInterrupted = true) :
    InterruptedBy key c.interruptedAt l := by
  refine h.invariant (P := fun l n => ∀ c, n.p2p.connections.get? key = some c →
    c.bInterrupted = true → InterruptedBy key c.interruptedAt l) (fun _ hc => nomatch hc) ?_ c hc
      hdown
  intro l u v a hl ih _ hst c hc hdown
  have hchange := nodeStep_conn (keyed_of_run hl.run) hst key
  generalize ho : u.p2p.connections.get? key = o at hchange ih
  generalize hnotes : postsOf key (u.outs a) = notes at hchange
  generalize ho' : v.p2p.connections.get? key = o' at hchange
  rw [hc] at ho'
  cases hchange with
  | keep hlife _ =>
      refine (ih c ho'.symm hdown).later fun hl => ?_
      rw [hlife c ho'.symm hl] at hdown
      cases hdown
  | send ha _ _ _ =>
      cases ho'
      subst ha
      cases o with
      | none => cases hdown
      | some c => exact (ih c rfl hdown).later not_isLife_call
  | accept ha _ _ _ =>
      cases ho'
      subst ha
      cases o with
      | none => cases hdown
      | some c => exact (ih c rfl hdown).later not_isLife_call
  | request hm hbody _ _ =>
      cases ho'
      cases o with
      | none => cases hdown
      | some c => exact (ih c rfl hdown).later (not_isLife_body hm hbody)
  | accepted | data | ack =>
      cases ho'
      cases hdown
  | closeLocal | ignored | closedByPeer | timeout => cases ho'
  | interrupt ha hfresh hkey hun =>
      obtain ⟨skey, s, k, w, hs, rfl, rfl, hw, htries, hwait⟩ := hun
      refine ⟨l, _, [], rfl, ⟨?_, ?_, ?_⟩, ?_, fun _ h => nomatch h⟩
      · cases ho'
        exact ha
      · simp only [P2PNode.interrupted, ho, Option.map_some, Option.getD_some, hfresh]
      · exact P2PNode.interrupted_iff.2 ⟨c, hc, hdown⟩
      · cases ho'
        exact ⟨skey, s, k, w, hs, hkey, hw, htries.trans (tries_le_transmissions hl hs hw), hwait⟩

/-- A connection that has been interrupted since a `Pump` at time `t` carries that time. -/
theorem interruptedAt_of_since {ok : P2PNode → NodeAction → Prop} {localPid : ProductUserId}
    {l : List (Transition P2PNode NodeAction)}
    (h : Trace nodeStep ok (P2PNode.start localPid) l n) {t : TimePoint}
    (hsince : Since (Interrupting key t) (fun tr => tr.post.interrupted key = false) l) :
    ∃ c, n.p2p.connections.get? key = some c ∧ c.bInterrupted = true ∧ c.interruptedAt = t := by
  refine h.invariant (P := fun l n => Since (Interrupting key t)
    (fun tr => tr.post.interrupted key = false) l → ∃ c, n.p2p.connections.get? key = some c ∧
      c.bInterrupted = true ∧ c.interruptedAt = t) (fun hnil => absurd hnil Lib.not_since_nil) ?_
        hsince
  intro l u v a hl ih _ hst hsince
  have hchange := nodeStep_conn (keyed_of_run hl.run) hst key
  have hpost : v.interrupted key = true := by
    rcases Lib.since_snoc.1 hsince with ⟨_, _, hup⟩ | ⟨_, hup⟩
    · exact hup
    · simpa using hup
  obtain ⟨c', hc', hdown⟩ := P2PNode.interrupted_iff.1 hpost
  rcases Lib.since_snoc.1 hsince with ⟨ha, hpre, _⟩ | ⟨hsince, _⟩
  · -- the `Pump` itself
    dsimp only at ha hpre
    subst ha
    rw [hc'] at hchange
    rcases hchange.pump with ⟨heq, _, _⟩ | ⟨c, _, _, _, _, _, _, _, heq⟩ | ⟨_, _, _, heq, _⟩
    · have hup : u.interrupted key = true := P2PNode.interrupted_iff.2 ⟨c', heq.symm, hdown⟩
      rw [hpre] at hup
      cases hup
    · cases heq
      exact ⟨_, hc', rfl, rfl⟩
    · cases heq
  · -- a later step: it keeps the time, for nothing else leaves the flag up
    obtain ⟨c, hc, hcdown, rfl⟩ := ih hsince
    rw [hc, hc'] at hchange
    generalize postsOf key (u.outs a) = notes at hchange
    generalize ho : some c = o at hchange
    generalize ho' : some c' = o' at hchange
    refine ⟨c', hc', hdown, ?_⟩
    cases hchange with
    | keep => rw [Option.some.inj (ho'.trans ho.symm)]
    | send | accept | request =>
        cases ho
        cases ho'
        rfl
    | accepted | data | ack =>
        cases ho'
        cases hdown
    | interrupt _ hfresh _ _ =>
        cases ho
        rw [hfresh] at hcdown
        cases hcdown
    | closeLocal | ignored | closedByPeer | timeout => cases ho'

end

/-! ## Every timeout is earned -/

/-- Interruption and timeout are earned: what a `Pump` at time `now` does in the state `n` that the
history `l` leads to. -/
structure P2PNode.TimeoutsEarned (n : P2PNode) (l : List (Transition P2PNode NodeAction))
    (now : TimePoint) (n' : P2PNode) : Prop where
  /-- It interrupts only over an overdue packet. -/
  interrupted : ∀ key, n.interrupted key = false → n'.interrupted key = true → n.Overdue l now key
  /-- It reports a timeout only for a connection it erases, which was so interrupted the grace
  period ago or earlier and whose peer has not shown life since. -/
  closed : ∀ peer socket, .connectionClosed peer socket .timedOut ∈
      posts (n.outs (.call (.pump now))) →
    Removed (connKey peer socket) ⟨n, .call (.pump now), n'⟩ ∧
      ∃ t, InterruptedBy (connKey peer socket) t l ∧ t + interruptedGrace ≤ now
  /-- A connection that has been interrupted for the grace period is closed. -/
  givenUp : ∀ key t, Since (Interrupting key t) (fun tr => tr.post.interrupted key = false) l →
    t + interruptedGrace ≤ now → n'.p2p.connections.get? key = none
  /-- Any other connection stays, interrupted now or as it was. -/
  spared : ∀ key c, n.p2p.connections.get? key = some c → P2P.timedOut now c = false →
    n'.p2p.connections.get? key = some c ∨
      n'.p2p.connections.get? key = some { c with bInterrupted := true, interruptedAt := now }
  /-- Send streams go with their own connection, and only with it. -/
  sends : ∀ key s, n.p2p.sendStreams.get? key = some s → (n'.p2p.sendStreams.get? key = none ↔
    ∃ c, n.p2p.connections.get? (connKey s.peer s.socket) = some c ∧ P2P.timedOut now c = true)
  /-- So do receive streams. -/
  recvs : ∀ key s, n.p2p.recvStreams.get? key = some s → (n'.p2p.recvStreams.get? key = none ↔
    ∃ c, n.p2p.connections.get? (connKey s.peer s.socket) = some c ∧ P2P.timedOut now c = true)

/-- Among plain names, `Pump` clears the streams of a connection exactly if it times out. -/
theorem pump_clears_iff {n : P2PNode} {now : TimePoint} (hk : n.p2p.ConnKeyed) (hn : n.Named)
    {peer : ProductUserId} {socket key : Bytes} (hpeer : Plain peer) (hsocket : Plain socket)
    (hkey : ∃ channel ordered, key = streamKey peer socket channel ordered) :
    Clears (events (n.p2p.pump now).2) key ↔
      ∃ c, n.p2p.connections.get? (connKey peer socket) = some c ∧ P2P.timedOut now c = true := by
  obtain ⟨channel, ordered, rfl⟩ := hkey
  constructor
  · rintro ⟨_, _, hmem, hpre⟩
    obtain ⟨key, c, hc, htime, rfl, rfl⟩ := mem_pump_cleared.1 hmem
    obtain ⟨hp, hs⟩ := hn.conns key c hc
    obtain ⟨rfl, rfl⟩ := streamPrefix_eq hp hs hpeer hsocket hpre
    exact ⟨c, hk key c hc ▸ hc, htime⟩
  · rintro ⟨c, hc, htime⟩
    refine ⟨c.peer, c.socketName, mem_pump_cleared.2 ⟨_, c, hc, htime, rfl, rfl⟩, ?_⟩
    rw [streamPrefix, ← hk _ c hc]
    exact streamPrefix_isPrefixOf peer socket channel ordered

/-- **Interruption and timeout are earned**, in every run in which the names that datagrams and
calls bring in have no NUL bytes. -/
theorem timeouts_earned (localPid : ProductUserId) {l : List (Transition P2PNode NodeAction)}
    {n n' : P2PNode} {now : TimePoint}
    (h : Trace nodeStep PlainNames (P2PNode.start localPid) l n)
    (hst : nodeStep n (.call (.pump now)) = some n') : n.TimeoutsEarned l now n' := by
  have hk := keyed_of_run h.run
  have hn := named_of_run h.run
  have hchange := nodeStep_conn hk hst
  have hnode : n' = n.update (n.p2p.pump now) := by
    simpa [nodeStep, P2PNode.step] using hst.symm
  have hstreams := pump_streams n.p2p n.localPid .other now
  refine ⟨?_, ?_, ?_, ?_, ?_, ?_⟩
  · intro key hup hdown
    obtain ⟨c', hc', hdown⟩ := P2PNode.interrupted_iff.1 hdown
    rcases (hchange key).pump with ⟨heq, _, _⟩ | ⟨c, _, _, _, _, hkey, hun, _, _⟩ | ⟨_, _, _, heq,
      _⟩
    · rw [heq] at hc'
      have hdown' : n.interrupted key = true := P2PNode.interrupted_iff.2 ⟨c', hc', hdown⟩
      rw [hup] at hdown'
      cases hdown'
    · obtain ⟨skey, s, k, u, hs, rfl, rfl, hu, htries, hwait⟩ := hun
      exact ⟨skey, s, k, u, hs, hkey, hu, htries.trans (tries_le_transmissions h hs hu), hwait⟩
    · rw [heq] at hc'
      cases hc'
  · intro peer socket hpost
    have hmem : .connectionClosed peer socket .timedOut ∈
        postsOf (connKey peer socket) (n.outs (.call (.pump now))) :=
      List.mem_filter.2 ⟨hpost, by simp [Notification.connKey]⟩
    rcases (hchange (connKey peer socket)).pump with ⟨_, hnotes, _⟩ | ⟨_, _, _, _, _, _, _, hnotes,
      _⟩ | ⟨c, hc, htime, hgone, hnotes⟩
    · rw [hnotes] at hmem
      cases hmem
    · rw [hnotes, List.mem_singleton] at hmem
      cases hmem
    · simp only [P2P.timedOut, Bool.and_eq_true, decide_eq_true_eq] at htime
      refine ⟨⟨?_, hgone⟩, c.interruptedAt, interruptedBy_of_run h hc htime.1,
        Int.add_le_of_le_sub_left htime.2⟩
      rw [hc]
      rfl
  · intro key t hsince hgrace
    obtain ⟨c, hc, hdown, rfl⟩ := interruptedAt_of_since h hsince
    have htime : P2P.timedOut now c = true := by
      simp only [P2P.timedOut, hdown, Bool.true_and, decide_eq_true_eq]
      exact Int.le_sub_left_of_add_le hgrace
    rcases (hchange key).pump with ⟨_, _, hkeep⟩ | ⟨c', _, _, hc', hfresh, _⟩ | ⟨_, _, _, hgone, _⟩
    · rw [hkeep c hc] at htime
      cases htime
    · rw [hc] at hc'
      cases hc'
      rw [hfresh] at hdown
      cases hdown
    · exact hgone
  · intro key c hc hyoung
    rcases (hchange key).pump with ⟨heq, _, _⟩ | ⟨c', _, _, hc', _, _, _, _, heq⟩ | ⟨c', hc',
      htime, _⟩
    · exact .inl (heq.trans hc)
    · rw [hc] at hc'
      cases hc'
      exact .inr heq
    · rw [hc] at hc'
      cases hc'
      rw [hyoung] at htime
      cases htime
  · intro key s hs
    obtain ⟨hkey, hpeer, hsocket⟩ := hn.sends key s hs
    rw [← pump_clears_iff hk hn hpeer hsocket hkey, hnode]
    constructor
    · intro hnone
      have hstep := hstreams.send key
      rw [hs, show (n.p2p.pump now).1.sendStreams.get? key = none from hnone] at hstep
      cases hstep with
      | keep _ hrel => cases hrel
      | clear _ hclears => exact hclears
    · intro hclears
      exact (hstreams.cleared key hclears).1
  · intro key s hs
    obtain ⟨hkey, hpeer, hsocket⟩ := hn.recvs key s hs
    rw [← pump_clears_iff hk hn hpeer hsocket hkey, hnode]
    constructor
    · intro hnone
      have hstep := hstreams.recv key
      rw [hs, show (n.p2p.pump now).1.recvStreams.get? key = none from hnone] at hstep
      cases hstep with
      | clear _ hclears => exact hclears
    · intro hclears
      exact (hstreams.cleared key hclears).2

/-! ## A vanished peer -/

/-- `b` is known and does not answer: one packet is sent at time 0, and `Pump` runs once a
second. -/
def vanishedPeer : List NodeAction :=
  [.call (.observe (str "b") sampleEndpoint), .call (.sendPacket (some samplePacket)),
    .call (.sendPacketQueue 0 0)] ++
  (List.range 16).map fun k => .call (.pump (milliseconds (1000 * (k + 1))))

/-- The executable form of `PlainNames`. -/
def plainTest (_ : P2PNode) (a : NodeAction) : Bool :=
  (match a.received with
    | some m => decide (Plain m.sender ∧ Plain m.socket)
    | none => true) &&
  match a with
  | .call (.sendPacket (some o)) => decide (Plain o.remoteUserId)
  | .call (.acceptConnection (some o)) => decide (Plain o.remoteUserId)
  | _ => true

/-- A step that passes the test meets `PlainNames`. -/
theorem plainTest_plain (n : P2PNode) (a : NodeAction) (h : plainTest n a = true) :
    PlainNames n a := by
  unfold plainTest at h
  rw [Bool.and_eq_true] at h
  refine ⟨fun m hm => ?_, ?_, ?_⟩
  · have hnames := h.1
    simp only [hm] at hnames
    exact of_decide_eq_true hnames
  · rintro o rfl
    exact of_decide_eq_true h.2
  · rintro o rfl
    exact of_decide_eq_true h.2

/-- The connection is interrupted in the sixteenth second and given up ten seconds later. -/
theorem timeouts_earned_sample :
    ∃ l n n', Trace nodeStep PlainNames (P2PNode.start (str "a")) l n ∧
      n.interrupted (connKey (str "b") (str "CHAT")) = true ∧
      n'.p2p.connections.get? (connKey (str "b") (str "CHAT")) = none ∧
      n.TimeoutsEarned l (milliseconds 26000) n' := by
  have hrun : (execIf nodeStep plainTest (P2PNode.start (str "a")) vanishedPeer).map (fun n =>
      (n.interrupted (connKey (str "b") (str "CHAT")),
        (n.p2p.pump (milliseconds 26000)).1.connections.get? (connKey (str "b") (str "CHAT")))) =
      some (true, none) := by decide +kernel
  obtain ⟨n, hn, heq⟩ := Option.map_eq_some_iff.1 hrun
  obtain ⟨hdown, hgone⟩ := Prod.ext_iff.1 heq
  have hl := Trace.of_execIf plainTest_plain hn
  exact ⟨_, n, n.update (n.p2p.pump (milliseconds 26000)), hl, hdown, hgone,
    timeouts_earned (str "a") hl rfl⟩

/-- The time an action reads from the clock. -/
def NodeAction.clock : NodeAction → Option TimePoint
  | .call (.sendPacketQueue _ now) => some now
  | .call (.pump now) => some now
  | .datagram _ _ _ _ now => some now
  | _ => none

/-- The clock does not go backwards. -/
def Chronological (as : List NodeAction) : Prop := (as.filterMap NodeAction.clock).Pairwise (· ≤ ·)

/-- `b`, which vanished on `CHAT`, has sent data on a socket whose name is `CHAT`, a NUL byte and
`X`. -/
def vanishedOnOneSocket : List NodeAction :=
  .datagram sampleEndpoint .p2pData (encode ⟨str "b", str "CHAT" ++ 0 :: str "X",
    .data 0 EPacketReliability.reliableOrdered.toByte 1 (str "hi")⟩) 0 0 :: vanishedPeer

/-- Without the condition this fails: closing the one connection takes the receive stream of the
other with it. -/
theorem not_timeouts_earned :
    ¬ ∀ l n n' now, Trace nodeStep Always (P2PNode.start (str "a")) l n →
      Chronological (l.map Transition.action ++ [.call (.pump now)]) →
      nodeStep n (.call (.pump now)) = some n' → n.TimeoutsEarned l now n' := by
  intro h
  let other := str "CHAT" ++ 0 :: str "X"
  let key := streamKey (str "b") other 0 true
  have hrun : (exec nodeStep (P2PNode.start (str "a")) vanishedOnOneSocket).map (fun n =>
      ((n.p2p.recvStreams.get? key).map fun s => (s.peer, s.socket),
        (n.p2p.connections.get? (connKey (str "b") other)).map (P2P.timedOut (milliseconds 26000)),
        ((n.p2p.pump (milliseconds 26000)).1.recvStreams.get? key).isSome)) =
      some (some (str "b", other), some false, false) := by decide +kernel
  have hclock : Chronological ((Lib.transitions nodeStep (P2PNode.start (str "a"))
      vanishedOnOneSocket).map Transition.action ++ [.call (.pump (milliseconds 26000))]) := by
    unfold Chronological
    decide +kernel
  obtain ⟨n, hn, heq⟩ := Option.map_eq_some_iff.1 hrun
  obtain ⟨hstream, hrest⟩ := Prod.ext_iff.1 heq
  obtain ⟨hconn, hcleared⟩ := Prod.ext_iff.1 hrest
  obtain ⟨s, hs, hnames⟩ := Option.map_eq_some_iff.1 hstream
  obtain ⟨hpeer, hsocket⟩ := Prod.ext_iff.1 hnames
  have hearned := h _ n _ (milliseconds 26000) (Trace.of_exec hn) hclock rfl
  obtain ⟨c, hc, htime⟩ := (hearned.recvs key s hs).1 (Option.not_isSome_iff_eq_none.1
    (Bool.not_eq_true _ ▸ hcleared))
  dsimp only at hpeer hsocket
  rw [hpeer, hsocket] at hc
  dsimp only at hconn
  rw [hc, Option.map_some, htime] at hconn
  cases hconn

end EOSEmu
