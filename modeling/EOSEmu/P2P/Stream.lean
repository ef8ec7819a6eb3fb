import EOSEmu.P2P.World

/-!
# One stream of a world

A reliable stream leads from one node to another on a socket and a channel. `worldStep_sender` and
`worldStep_receiver` say what a step of the world does to its two ends, `worldStep_data` and
`worldStep_ack` where a new datagram of the stream comes from.
-/

namespace EOSEmu

open Lib (Dict SeqMap)

/-- A reliable stream: the `(peer, socket, channel)` of both ends, ordered or not. -/
structure Stream (ι : Type) where
  sender : ι
  receiver : ι
  socket : Bytes
  channel : UInt8
  ordered : Bool
  deriving DecidableEq

section
variable {ι : Type} (cfg : P2PConfig ι) (st : Stream ι)

/-- The key of the sender's `SendStream`. -/
def Stream.sendKey : Bytes :=
  streamKey (cfg.pid st.receiver) st.socket st.channel st.ordered

/-- The key of the receiver's `RecvStream`. -/
def Stream.recvKey : Bytes := streamKey (cfg.pid st.sender) st.socket st.channel st.ordered

/-- The sender's `SendStream`. -/
def P2PWorld.sendStream (w : P2PWorld ι) : Option SendStream :=
  (w.node st.sender).p2p.sendStreams.get? (st.sendKey cfg)

/-- The receiver's `RecvStream`. -/
def P2PWorld.recvStream (w : P2PWorld ι) : Option RecvStream :=
  (w.node st.receiver).p2p.recvStreams.get? (st.recvKey cfg)

/-- The packet carries data of the stream: this position and these bytes. -/
def Stream.IsData (pkt : Packet) (pos : Pos) (bytes : Bytes) : Prop :=
  pkt.dst = cfg.endpoint st.receiver ∧ pkt.datagram.sender = cfg.pid st.sender ∧
    pkt.datagram.socket = st.socket ∧ ∃ mode, modeReliable mode = true ∧
      modeOrdered mode = st.ordered ∧ pkt.datagram.body = .data st.channel mode pos bytes

/-- The packet carries an acknowledgement of the stream. -/
def Stream.IsAck (pkt : Packet) (pos : Pos) (sack : UInt32) : Prop :=
  pkt.dst = cfg.endpoint st.sender ∧ pkt.datagram.sender = cfg.pid st.receiver ∧
    pkt.datagram.socket = st.socket ∧ ∃ orderedByte, decide (orderedByte ≠ 0) = st.ordered ∧
      pkt.datagram.body = .ack st.channel orderedByte pos sack

/-- The cause is a datagram that this action delivers to node `i`. -/
def Arrives (w : P2PWorld ι) (action : WorldAction ι) (i : ι) (cause : Cause) : Prop :=
  ∀ from_ m inc, cause = .message from_ m inc → ∃ j now pkt,
    action = .deliver i j now ∧ w.net[j]? = some pkt ∧ pkt.dst = cfg.endpoint i ∧
      pkt.src = from_ ∧ pkt.datagram.wire = m ∧ pkt.datagram.inc = inc

variable {cfg st} {w w' : P2PWorld ι} {action : WorldAction ι} {i : ι} {cause : Cause}
  {from_ : Endpoint} {m : Datagram UInt32} {inc : ℕ}

/-- Data of the stream was queued on it at its position. -/
theorem Stream.IsData.queued (hw : w.Honest cfg) {pkt : Packet} (hpkt : pkt ∈ w.net) {pos : Pos}
    {bytes : Bytes} (h : st.IsData cfg pkt pos bytes) :
    .queued (st.sendKey cfg) pos bytes ∈ (w.node st.sender).log := by
  obtain ⟨hdst, hsender, hsocket, mode, hmode, hord, hbody⟩ := h
  obtain ⟨i, _, hi, hdata⟩ := hw.net pkt hpkt
  obtain ⟨key, j, socket, channel, mode', bytes', hkey, _, hto, hd, hmem⟩ :=
    hdata _ _ _ _ hbody hmode
  rw [hd] at hsender hsocket hbody
  cases hbody
  have hi' : i = st.sender := cfg.pid_inj (by rw [← hsender])
  have hj : j = st.receiver := cfg.endpoint_inj (hto.symm.trans hdst)
  have hkey' : key = st.sendKey cfg := by
    rw [hkey, hj, hord, Stream.sendKey, ← hsocket]
  rwa [hkey', hi'] at hmem

/-- Reliable data that reaches the receiver under the stream's key is data of the stream. -/
theorem Arrives.data (hw : w.Honest cfg) (h : Arrives cfg w action st.receiver cause)
    {channel mode : UInt8} {wire : UInt32} {bytes : Bytes} (hcause : cause = .message from_ m inc)
    (hm : m.body = .data channel mode wire bytes) (hmode : modeReliable mode = true)
    (hkey : streamKey m.sender m.socket channel (modeOrdered mode) = st.recvKey cfg) :
    modeOrdered mode = st.ordered ∧ ∃ j now pkt pos, action = .deliver st.receiver j now ∧
    w.net[j]? = some pkt ∧
      st.IsData cfg pkt pos bytes ∧ wire = UInt32.ofNat pos.seq ∧ inc = pos.inc := by
  obtain ⟨j, now, pkt, haction, hpkt, hdst, _, rfl, hinc⟩ := h from_ m inc hcause
  obtain ⟨k, _, hsender, _⟩ := hw.net pkt (List.mem_of_getElem? hpkt)
  obtain ⟨src, dst, sender, socket, body⟩ := pkt
  cases body with
  | data channel' mode' pos bytes' =>
      cases hm
      have hnul : 0 ∉ sender := by
        rw [show sender = cfg.pid k from hsender]
        exact cfg.pid_noNul k
      obtain ⟨hpid, hsocket, hchannel, hord⟩ :=
        streamKey_inj hnul (cfg.pid_noNul st.sender) hkey
      cases hchannel
      exact ⟨hord, j, now, _, pos, haction, hpkt,
        ⟨hdst, hpid, hsocket, mode, hmode, hord, rfl⟩, rfl, hinc.symm⟩
  | _ => cases hm

/-- An ack that reaches the sender under the stream's key is an ack of the stream. -/
theorem Arrives.ack (hw : w.Honest cfg) (h : Arrives cfg w action st.sender cause)
    {channel orderedByte : UInt8} {wire sack : UInt32} (hcause : cause = .message from_ m inc)
    (hm : m.body = .ack channel orderedByte wire sack)
    (hkey : streamKey m.sender m.socket channel (orderedByte ≠ 0) = st.sendKey cfg) :
    ∃ j now pkt pos, action = .deliver st.sender j now ∧ w.net[j]? = some pkt ∧
      st.IsAck cfg pkt pos sack ∧ wire = UInt32.ofNat pos.seq := by
  obtain ⟨j, now, pkt, haction, hpkt, hdst, _, rfl, _⟩ := h from_ m inc hcause
  obtain ⟨k, _, hsender, _⟩ := hw.net pkt (List.mem_of_getElem? hpkt)
  obtain ⟨src, dst, sender, socket, body⟩ := pkt
  cases body with
  | ack channel' orderedByte' pos sack' =>
      cases hm
      have hnul : 0 ∉ sender := by
        rw [show sender = cfg.pid k from hsender]
        exact cfg.pid_noNul k
      obtain ⟨hpid, hsocket, hchannel, hord⟩ :=
        streamKey_inj hnul (cfg.pid_noNul st.receiver) hkey
      cases hchannel
      exact ⟨j, now, _, pos, haction, hpkt, ⟨hdst, hpid, hsocket, orderedByte, hord, rfl⟩, rfl⟩
  | _ => cases hm

end

section
variable {ι : Type} [DecidableEq ι] {cfg : P2PConfig ι} {w w' : P2PWorld ι} {action : WorldAction ι}

/-- What a step of the world does to the sender's end of a stream. -/
theorem worldStep_sender (hw : w.Honest cfg) (h : worldStep cfg w action = some w')
    (st : Stream ι) : ∃ es, (w'.node st.sender).log = (w.node st.sender).log ++ es ∧
      ((∃ cause, SendStep (cfg.pid st.sender) cause (st.sendKey cfg) es (w.sendStream cfg st)
          (w'.sendStream cfg st) ∧ Arrives cfg w action st.sender cause) ∨
        es = [.restarted] ∧ w'.sendStream cfg st = none) := by
  have hsame : w'.node st.sender = w.node st.sender →
      ∃ es, (w'.node st.sender).log = (w.node st.sender).log ++ es ∧
      ((∃ cause, SendStep (cfg.pid st.sender) cause (st.sendKey cfg) es (w.sendStream cfg st)
          (w'.sendStream cfg st) ∧ Arrives cfg w action st.sender cause) ∨
        es = [.restarted] ∧ w'.sendStream cfg st = none) := by
    intro hnode
    refine ⟨[], by rw [hnode, List.append_nil], .inl ⟨.other, ?_, nofun⟩⟩
    rw [P2PWorld.sendStream, P2PWorld.sendStream, hnode]
    exact .keep rfl (resent_rel _)
  rcases worldStep_cases h with ⟨i, cause, outs, hstep⟩ | ⟨hnode, _⟩ | ⟨i, rfl⟩
  · by_cases hi : st.sender = i
    · subst hi
      refine ⟨_, hstep.steps.log, .inl ⟨cause, ?_, hstep.message⟩⟩
      rw [← (hw.node st.sender).localPid]
      exact hstep.steps.streams.send _
    · exact hsame (hstep.others _ hi)
  · exact hsame (congrFun hnode _)
  · by_cases hi : st.sender = i
    · subst hi
      refine ⟨[.restarted], by rw [P2PWorld.put_self]; rfl, .inr ⟨rfl, ?_⟩⟩
      rw [P2PWorld.sendStream, P2PWorld.put_self]
      rfl
    · exact hsame (w.put_other cfg hi _)

/-- What a step of the world does to the receiver's end of a stream. -/
theorem worldStep_receiver (h : worldStep cfg w action = some w') (st : Stream ι) :
    ∃ es, (w'.node st.receiver).log = (w.node st.receiver).log ++ es ∧
      ((∃ cause, RecvStep cause (st.recvKey cfg) es (w.recvStream cfg st) (w'.recvStream cfg st) ∧
          Arrives cfg w action st.receiver cause) ∨
        es = [.restarted] ∧ w'.recvStream cfg st = none) := by
  have hsame : w'.node st.receiver = w.node st.receiver →
      ∃ es, (w'.node st.receiver).log = (w.node st.receiver).log ++ es ∧
      ((∃ cause, RecvStep cause (st.recvKey cfg) es (w.recvStream cfg st) (w'.recvStream cfg st) ∧
          Arrives cfg w action st.receiver cause) ∨
        es = [.restarted] ∧ w'.recvStream cfg st = none) := by
    intro hnode
    refine ⟨[], by rw [hnode, List.append_nil], .inl ⟨.other, ?_, nofun⟩⟩
    rw [P2PWorld.recvStream, P2PWorld.recvStream, hnode]
    exact .keep rfl
  rcases worldStep_cases h with ⟨i, cause, outs, hstep⟩ | ⟨hnode, _⟩ | ⟨i, rfl⟩
  · by_cases hi : st.receiver = i
    · subst hi
      exact ⟨_, hstep.steps.log, .inl ⟨cause, hstep.steps.streams.recv _, hstep.message⟩⟩
    · exact hsame (hstep.others _ hi)
  · exact hsame (congrFun hnode _)
  · by_cases hi : st.receiver = i
    · subst hi
      refine ⟨[.restarted], by rw [P2PWorld.put_self]; rfl, .inr ⟨rfl, ?_⟩⟩
      rw [P2PWorld.recvStream, P2PWorld.put_self]
      rfl
    · exact hsame (w.put_other cfg hi _)

/-- New data of a stream is a packet of the sender's `Pending`. -/
theorem worldStep_data (hw : w.Honest cfg) (h : worldStep cfg w action = some w') {st : Stream ι}
    {pkt : Packet} {pos : Pos} {bytes : Bytes} (hpkt : pkt ∈ w'.net)
    (hdata : st.IsData cfg pkt pos bytes) : pkt ∈ w.net ∨ ∃ s u,
      (w.sendStream cfg st = some s ∨ w'.sendStream cfg st = some s) ∧
        s.pending.get? pos.seq = some u ∧ u.payload = pkt.datagram := by
  rcases worldStep_cases h with ⟨i, cause, outs, hstep⟩ | ⟨_, hnet⟩ | ⟨i, rfl⟩
  · rw [hstep.net, List.mem_append] at hpkt
    rcases hpkt with hpkt | hpkt
    · exact .inl hpkt
    · right
      obtain ⟨d, hd, rfl⟩ := List.mem_map.1 hpkt
      obtain ⟨hdst, hsender, hsocket, mode, hrel, hord, hbody⟩ := hdata
      have hpid := (hw.node i).localPid
      cases hstep.steps.streams.sent d hd with
      | control hne _ => exact (hne _ _ _ _ hbody).elim
      | unreliable _ hmode =>
          rw [← (Body.data.inj hbody).2.1, modeReliable_toByte, hmode] at hrel
          cases hrel
      | ack => cases hbody
      | @packet key s k u hs hu =>
          have hrouted : ∃ log, Routed cfg i log key ⟨s.inc, k⟩ u.toEndpoint u.payload := by
            rcases hs with hs | hs
            · exact ⟨_, (hw.node i).pending key s k u hs hu⟩
            · exact ⟨_, hstep.pending (hw.node i) hs hu⟩
          obtain ⟨_, j, socket, channel, mode', bytes', hkey, _, hto, hpay, _⟩ := hrouted
          dsimp only at hdst hsender hsocket hbody
          rw [hpay] at hsender hsocket hbody
          cases hbody
          have hi : i = st.sender := cfg.pid_inj hsender
          have hj : j = st.receiver := cfg.endpoint_inj (hto.symm.trans hdst)
          have hkey' : key = st.sendKey cfg := by
            rw [hkey, hj, hord, Stream.sendKey, ← hsocket]
          rw [hi, hkey'] at hs
          exact ⟨s, u, hs, hu, rfl⟩
  · exact .inl (hnet pkt hpkt)
  · exact .inl (by simpa [P2PWorld.put] using hpkt)

/-- A new ack of a stream has the numbers of the receiver's `RecvStream`. -/
theorem worldStep_ack (hw : w.Honest cfg) (h : worldStep cfg w action = some w') {st : Stream ι}
    {pkt : Packet} {pos : Pos} {sack : UInt32} (hpkt : pkt ∈ w'.net)
    (hack : st.IsAck cfg pkt pos sack) : pkt ∈ w.net ∨ ∃ r,
      w'.recvStream cfg st = some r ∧ pos = ⟨r.inc, r.ackSeq⟩ ∧ sack = r.sack := by
  rcases worldStep_cases h with ⟨i, cause, outs, hstep⟩ | ⟨_, hnet⟩ | ⟨i, rfl⟩
  · rw [hstep.net, List.mem_append] at hpkt
    rcases hpkt with hpkt | hpkt
    · exact .inl hpkt
    · right
      obtain ⟨d, hd, rfl⟩ := List.mem_map.1 hpkt
      obtain ⟨hdst, hsender, hsocket, orderedByte, hord, hbody⟩ := hack
      have hpid := (hw.node i).localPid
      cases hstep.steps.streams.sent d hd with
      | control _ hne => exact (hne _ _ _ _ hbody).elim
      | unreliable => cases hbody
      | @packet key s k u hs hu =>
          have hrouted : ∃ log, Routed cfg i log key ⟨s.inc, k⟩ u.toEndpoint u.payload := by
            rcases hs with hs | hs
            · exact ⟨_, (hw.node i).pending key s k u hs hu⟩
            · exact ⟨_, hstep.pending (hw.node i) hs hu⟩
          obtain ⟨_, j, socket, channel, mode', bytes', _, _, _, hpay, _⟩ := hrouted
          dsimp only at hbody
          rw [hpay] at hbody
          cases hbody
      | @ack from_ m inc r channel mode wire bytes hcause hm hmode hr =>
          cases hbody
          obtain ⟨j, now, pkt, _, hj, _, hsrc, rfl, _⟩ := hstep.message from_ m inc hcause
          obtain ⟨k, hksrc, hksender, _⟩ := hw.net pkt (List.mem_of_getElem? hj)
          have hi : i = st.receiver := cfg.pid_inj (hpid.symm.trans hsender)
          have hk : k = st.sender :=
            cfg.endpoint_inj ((hksrc.symm.trans hsrc).trans hdst)
          have hmodeOrd : modeOrdered mode = st.ordered := by
            rw [← hord]
            cases modeOrdered mode <;> rfl
          have hkey : streamKey pkt.datagram.sender pkt.datagram.socket st.channel
              (modeOrdered mode) = st.recvKey cfg := by
            rw [hksender, hk, hmodeOrd, Stream.recvKey, ← hsocket]
            rfl
          refine ⟨r, ?_, rfl, rfl⟩
          rw [P2PWorld.recvStream, ← hkey, ← hi]
          exact hr
  · exact .inl (hnet pkt hpkt)
  · exact .inl (by simpa [P2PWorld.put] using hpkt)

end

end EOSEmu
