import EOSEmu.P2P.Steps

/-!
# A reliable packet stays in `Pending`

A `SendPacket` call that returns success has stored its packet, and only a covering ack or the
clearing of its stream takes it out again. This holds when every reliable call that gets past the
checks finds a valid endpoint in the peer directory (`reliable_retained`). The early return for an
unknown peer breaks it: the call reports success and stores nothing, even when the connection
itself has learned a valid endpoint from the peer's datagrams (`not_retains`).
-/

namespace EOSEmu

open Lib (Dict SeqMap Run Always exec execIf)

/-! ## What is pending -/

/-- The packet is in the `Pending` map of the send stream of this key and number. -/
def P2P.Holds (p : P2P) (key : Bytes) (pos : Pos) (d : Datagram Pos) : Prop :=
  ∃ s u, p.sendStreams.get? key = some s ∧ s.inc = pos.inc ∧
    s.pending.get? pos.seq = some u ∧ u.payload = d

/-- The event takes the packet out of `Pending`: an ack that covers it, or the clearing of its
stream, which closing, ignoring and timing out do. -/
def Removes (e : Event) (key : Bytes) (pos : Pos) : Prop :=
  (∃ ackSeq sack, e = .acked key pos ackSeq sack ∧ Covers ackSeq sack pos.seq) ∨
    ∃ peer socket, e = .cleared peer socket ∧ (streamPrefix peer socket).isPrefixOf key = true

/-- The numbers in `Pending` are below `NextSeq`. -/
def P2P.Numbered (p : P2P) : Prop :=
  ∀ key s, p.sendStreams.get? key = some s → ∀ k u, s.pending.get? k = some u → k < s.nextSeq

section
variable {localPid : ProductUserId} {cause : Cause} {es : List Event}
  {ds : List (Endpoint × Datagram Pos)} {p q : P2P}

/-- Every step keeps the numbers below `NextSeq`. -/
theorem StreamStep.numbered (h : StreamStep localPid cause es ds p q) (hp : p.Numbered) :
    q.Numbered := by
  intro key t ht k u hu
  have hsend := h.send key
  rw [ht] at hsend
  generalize hs : p.sendStreams.get? key = s at hsend
  cases hsend with
  | keep _ hrel =>
      cases hrel with
      | some hres =>
          obtain ⟨v, hv, _⟩ := hres.pending' hu
          rw [hres.frame]
          exact hp key _ hs k v hv
  | queue s₀ _ _ _ hs₀ _ =>
      show k < s₀.nextSeq + 1
      by_cases hk : k = s₀.nextSeq
      · omega
      · rw [SendStream.queue_old _ _ _ _ hk] at hu
        rcases hs₀ with rfl | ⟨_, _, hempty⟩
        · have := hp key s₀ hs k u hu
          omega
        · rw [hempty] at hu
          cases hu
  | ack _ _ _ _ =>
      rw [SendStream.processAck_frame]
      exact hp key _ hs k u (SendStream.processAck_pending.1 hu).1

/-- A packet that is pending stays so, or one of the step's events took it out. -/
theorem StreamStep.holds (h : StreamStep localPid cause es ds p q) (hp : p.Numbered) {key : Bytes}
    {pos : Pos} {d : Datagram Pos} (hold : p.Holds key pos d) :
    q.Holds key pos d ∨ ∃ e ∈ es, Removes e key pos := by
  obtain ⟨s, u, hs, hinc, hu, hd⟩ := hold
  have hsend := h.send key
  rw [hs] at hsend
  generalize ht : q.sendStreams.get? key = t at hsend
  cases hsend with
  | keep _ hrel =>
      cases hrel with
      | some hres =>
          obtain ⟨v, hv, hpay, _⟩ := hres.pending hu
          exact .inl ⟨_, v, ht, by rw [hres.frame]; exact hinc, hv, by rw [hpay, hd]⟩
  | clear _ hclears =>
      obtain ⟨peer, socket, hmem, hpre⟩ := hclears
      exact .inr ⟨_, hmem, .inr ⟨peer, socket, rfl, hpre⟩⟩
  | queue s₀ _ _ _ hs₀ _ =>
      rcases hs₀ with hs₀ | ⟨hnone, _⟩
      · cases hs₀
        have hne : pos.seq ≠ s.nextSeq := Nat.ne_of_lt (hp key s hs pos.seq u hu)
        exact .inl ⟨_, u, ht, hinc, by rw [SendStream.queue_old _ _ _ _ hne, hu], hd⟩
      · cases hnone
  | @ack _ from_ m inc now channel orderedByte wire sack _ _ _ hlog =>
      by_cases hcov : Covers (extend32 s.nextSeq wire) sack pos.seq
      · right
        have hmem : pos.seq ∈ s.ackedBy (extend32 s.nextSeq wire) sack :=
          SendStream.mem_ackedBy.2 ⟨SeqMap.contains_iff.2 ⟨u, hu⟩, hcov⟩
        have hev : .acked key ⟨s.inc, pos.seq⟩ (extend32 s.nextSeq wire) sack ∈
          sendLog key es := by
          rw [hlog]
          exact List.mem_map.2 ⟨_, hmem, rfl⟩
        refine ⟨_, List.mem_of_mem_filter hev, .inl ⟨_, _, ?_, hcov⟩⟩
        rw [hinc]
      · refine .inl ⟨_, u, ht, ?_, SendStream.processAck_pending.2 ⟨hu, hcov⟩, hd⟩
        rw [SendStream.processAck_frame]
        exact hinc

end

/-- A reliable packet is pending as soon as its call has gone through the second lock section. -/
theorem sendPacketQueue_holds (localPid : ProductUserId) {c : SendCall} (now : TimePoint)
    (p : P2P) (hrel : c.options.mode.isReliable = true) :
    (sendPacketQueue localPid c now p).1.Holds c.options.key
      ⟨(p.openSendStream c.options.key).inc, (p.openSendStream c.options.key).nextSeq⟩
      (c.options.datagram localPid
        ⟨(p.openSendStream c.options.key).inc, (p.openSendStream c.options.key).nextSeq⟩) := by
  rw [sendPacketQueue, if_pos hrel]
  exact ⟨(p.openSendStream c.options.key).queue localPid c now, _,
    by rw [Dict.get?_set, if_pos rfl], rfl, SendStream.queue_new .., rfl⟩

/-! ## The calls that find no endpoint -/

/-- The call passes the checks and the connection rules of `SendPacket`. -/
def P2PNode.Admits (n : P2PNode) (o : SendPacketOptions) : Prop :=
  o.check = .ok (socketName o.socketId) ∧ (o.autoAccept = true ∨
    ∃ conn, n.p2p.connections.get? (connKey o.remoteUserId (socketName o.socketId)) = some conn ∧
      conn.bAcceptedLocally = true)

/-- A reliable call that passes the rules finds a valid endpoint in the peer directory. -/
def Discovered (n : P2PNode) : NodeAction → Prop
  | .call (.sendPacket (some o)) =>
      o.mode.isReliable = true → n.Admits o → (n.endpointFor o.remoteUserId).valid = true
  | _ => True

/-- The checks answer with the socket name. -/
theorem SendPacketOptions.check_ok {o : SendPacketOptions} {socket : Bytes}
    (h : o.check = .ok socket) : socket = socketName o.socketId := by
  unfold SendPacketOptions.check at h
  split at h
  · cases h
  · split at h
    · cases h
    · split at h
      · cases h
      · split at h <;> cases h
        rfl

/-- `SendPacket` returns success from its first section only for a call that passes the rules and
finds no valid endpoint. -/
theorem sendPacketOpen_success {n : P2PNode} {o : SendPacketOptions}
    (h : (sendPacketOpen n.localPid n.endpointFor (some o) n.p2p).2.2 = .inl .success) :
    n.Admits o ∧ (n.endpointFor o.remoteUserId).valid = false := by
  have hcont : sendPacketContinue o (n.endpointFor o.remoteUserId) = .inl .success →
      (n.endpointFor o.remoteUserId).valid = false := by
    intro hc
    unfold sendPacketContinue at hc
    split at hc
    · next hv => simpa using hv
    · cases hc
  unfold sendPacketOpen at h
  dsimp only at h
  cases hchk : o.check with
  | error e =>
      rw [hchk] at h
      have herr : e = .success := by injection h
      unfold SendPacketOptions.check at hchk
      split at hchk
      · cases hchk; cases herr
      · split at hchk
        · cases hchk; cases herr
        · split at hchk
          · cases hchk; cases herr
          · split at hchk <;> cases hchk
            cases herr
  | ok socket =>
      rw [hchk] at h
      obtain rfl := SendPacketOptions.check_ok hchk
      dsimp only at h
      unfold P2PNode.Admits
      rw [hchk]
      cases hconn : n.p2p.connections.get? (connKey o.remoteUserId (socketName o.socketId)) with
      | none =>
          rw [hconn] at h
          dsimp only at h
          split at h
          · cases h
          · next hauto => exact ⟨⟨rfl, .inl (by simpa using hauto)⟩, hcont h⟩
      | some conn =>
          rw [hconn] at h
          dsimp only at h
          split at h
          · cases h
          · next hacc =>
              refine ⟨⟨rfl, ?_⟩, hcont h⟩
              by_cases hauto : o.autoAccept = true
              · exact .inl hauto
              · exact .inr ⟨conn, rfl, by simpa [hauto] using hacc⟩

/-! ## Runs -/

/-- Every reliable `SendPacket` that returned success stored its packet under some position, and
the packet is still pending there unless an event after the return took it out. -/
def P2PNode.Retains (n : P2PNode) : Prop :=
  ∀ r ∈ n.returns, r.result = .success → r.options.mode.isReliable = true →
    ∃ pos, r.slot = some pos ∧
      (n.p2p.Holds r.options.key pos (r.options.datagram n.localPid pos) ∨
        ∃ e ∈ n.log.drop r.time, Removes e r.options.key pos)

/-- What a run maintains. -/
structure P2PNode.RetainInv (n : P2PNode) : Prop where
  numbered : n.p2p.Numbered
  times : ∀ r ∈ n.returns, r.time ≤ n.log.length
  retains : n.Retains

section
variable {n n' : P2PNode} {cause : Cause} {outs : List Out}

/-- A step that returns from no call. -/
theorem P2PNode.Steps.retain (h : n.Steps cause n' outs) (hret : n'.returns = n.returns)
    (hn : n.RetainInv) : n'.RetainInv := by
  refine ⟨h.streams.numbered hn.numbered, fun r hr => ?_, fun r hr hsucc hrel => ?_⟩
  · rw [hret] at hr
    have := hn.times r hr
    rw [h.log, List.length_append]
    omega
  · rw [hret] at hr
    obtain ⟨pos, hslot, hkept⟩ := hn.retains r hr hsucc hrel
    rw [h.log, h.localPid, List.drop_append_of_le_length (hn.times r hr)]
    refine ⟨pos, hslot, ?_⟩
    rcases hkept with hold | ⟨e, he, hrem⟩
    · rcases h.streams.holds hn.numbered hold with hold | ⟨e, he, hrem⟩
      · exact .inl hold
      · exact .inr ⟨e, List.mem_append_right _ he, hrem⟩
    · exact .inr ⟨e, List.mem_append_left _ he, hrem⟩

/-- A return whose packet is held is recorded. -/
theorem P2PNode.RetainInv.recordReturn (hn : n.RetainInv) {o : SendPacketOptions}
    {result : EResult} {slot : Option Pos}
    (h : result = .success → o.mode.isReliable = true → ∃ pos, slot = some pos ∧
      n.p2p.Holds o.key pos (o.datagram n.localPid pos)) :
    (n.recordReturn (some o) result slot).RetainInv := by
  refine ⟨by simpa using hn.numbered, fun r hr => ?_, fun r hr hsucc hrel => ?_⟩
  · rcases List.mem_append.1 hr with hr | hr
    · exact hn.times r hr
    · obtain rfl := List.mem_singleton.1 hr
      exact Nat.le_refl _
  · rcases List.mem_append.1 hr with hr | hr
    · exact hn.retains r hr hsucc hrel
    · obtain rfl := List.mem_singleton.1 hr
      obtain ⟨pos, hslot, hold⟩ := h hsucc hrel
      exact ⟨pos, hslot, .inl hold⟩

/-- The steps of the node's own threads other than `SendPacket`'s two return from no call. -/
theorem P2PNode.step_returns {c : Call} (h : n.step c = some (n', outs))
    (h₁ : ∀ o, c ≠ .sendPacket o) (h₂ : ∀ i now, c ≠ .sendPacketQueue i now) :
    n'.returns = n.returns := by
  cases c with
  | sendPacket o => exact absurd rfl (h₁ o)
  | sendPacketQueue i now => exact absurd rfl (h₂ i now)
  | observe peer endpoint =>
      simp only [P2PNode.step] at h
      split at h <;> cases h
      rfl
  | _ => cases h; rfl

/-- One step. -/
theorem P2PNode.RetainInv.step {a : NodeAction} (hn : n.RetainInv) (hok : Discovered n a)
    (h : nodeStep n a = some n') : n'.RetainInv := by
  cases a with
  | datagram from_ type payload inc now =>
      cases h
      unfold P2PNode.onDatagram
      cases decode type payload with
      | none => exact hn
      | some m => exact (P2PNode.receive_steps n from_ m inc now).retain rfl hn
  | call c =>
      obtain ⟨⟨m, outs⟩, hstep, rfl⟩ := Option.map_eq_some_iff.1 h
      have hsteps := P2PNode.step_steps hstep
      cases c with
      | sendPacket options =>
          cases options with
          | none =>
              cases hstep
              exact hsteps.retain rfl hn
          | some o =>
              simp only [P2PNode.step] at hstep
              split at hstep
              · next r hr =>
                  cases hstep
                  have hmid : n.Steps _ (n.update
                      ((sendPacketOpen n.localPid n.endpointFor (some o) n.p2p).1,
                        (sendPacketOpen n.localPid n.endpointFor (some o) n.p2p).2.1)) _ :=
                    ⟨rfl, rfl, hsteps.streams⟩
                  refine (hmid.retain rfl hn).recordReturn fun hsucc hrel => ?_
                  rw [hsucc] at hr
                  obtain ⟨hadm, hinv⟩ := sendPacketOpen_success hr
                  rw [hok hrel hadm] at hinv
                  cases hinv
              · cases hstep
                exact hsteps.retain rfl hn
      | sendPacketQueue i now =>
          simp only [P2PNode.step] at hstep
          split at hstep
          · cases hstep
          · next c hc =>
              cases hstep
              have hmid : n.Steps _ { n.update (sendPacketQueue n.localPid c now n.p2p) with
                  sending := n.sending.eraseIdx i } _ := ⟨rfl, rfl, hsteps.streams⟩
              refine (hmid.retain rfl hn).recordReturn fun _ hrel => ?_
              refine ⟨_, by rw [P2PNode.slotOf, if_pos hrel], ?_⟩
              exact sendPacketQueue_holds n.localPid now n.p2p hrel
      | _ => exact hsteps.retain (P2PNode.step_returns hstep (by simp) (by simp)) hn

end

/-- **No reliable packet is silently discarded**, as long as every reliable call that passes the
rules finds a valid endpoint: in every state a node can reach, among any datagrams from anywhere,
each reliable `SendPacket` that returned success has its packet in `Pending`, or an ack that
covered it or the clearing of its stream took it out after the call returned. -/
theorem reliable_retained (localPid : ProductUserId) {n : P2PNode}
    (h : Run nodeStep Discovered (P2PNode.start localPid) n) : n.Retains := by
  have hstart : (P2PNode.start localPid).RetainInv := by
    refine ⟨?_, ?_, ?_⟩
    · intro key s hs
      cases hs
    · intro r hr
      cases hr
    · intro r hr
      cases hr
  exact (h.invariant hstart fun u v a hu hok hst => hu.step hok hst).retains

/-! ## The failing input -/

/-- An endpoint on the LAN. -/
def sampleEndpoint : Endpoint := ⟨0xC0A80002, 7777⟩

/-- A reliable packet for `b` on socket `CHAT`. -/
def samplePacket : SendPacketOptions :=
  { apiVersion := 3, remoteUserId := str "b", socketId := some (str "CHAT"), channel := 0
    data := .bytes (str "hi"), reliability := .reliableOrdered }

/-- Data from `b` arrives, so the connection knows its endpoint, while no Hello of `b` has; then
the application answers. -/
def answerUndiscovered : List NodeAction :=
  [.datagram sampleEndpoint .p2pData
      (encode ⟨str "b", str "CHAT", .data 0 2 1 (str "yo")⟩) 0 0,
    .call (.sendPacket (some samplePacket))]

/-- Without the condition this fails: the answer to a peer whose endpoint the connection knows
returns success and is stored nowhere. -/
theorem not_retains :
    ¬ ∀ n, Run nodeStep Always (P2PNode.start (str "a")) n → n.Retains := by
  intro h
  have hret : (exec nodeStep (P2PNode.start (str "a")) answerUndiscovered).map (·.returns) =
      some [⟨samplePacket, .success, none, 2⟩] := by decide +kernel
  obtain ⟨n, hn, hreturns⟩ := Option.map_eq_some_iff.1 hret
  obtain ⟨pos, hslot, _⟩ := h n (Run.of_exec hn) ⟨samplePacket, .success, none, 2⟩
    (by rw [hreturns]; exact List.mem_singleton_self _) rfl rfl
  cases hslot

/-- A run that meets the condition: `b` is discovered, then sent the packet. -/
theorem reliable_retained_sample :
    ∃ n, Run nodeStep Discovered (P2PNode.start (str "a")) n ∧
      n.returns = [⟨samplePacket, .success, some ⟨0, 1⟩, 1⟩] ∧ n.Retains := by
  have hret : (execIf nodeStep (fun n a => match a with
      | .call (.sendPacket (some o)) => (n.endpointFor o.remoteUserId).valid
      | _ => true) (P2PNode.start (str "a"))
      [.call (.observe (str "b") sampleEndpoint), .call (.sendPacket (some samplePacket)),
        .call (.sendPacketQueue 0 0)]).map (·.returns) =
      some [⟨samplePacket, .success, some ⟨0, 1⟩, 1⟩] := by decide +kernel
  obtain ⟨n, hn, hreturns⟩ := Option.map_eq_some_iff.1 hret
  have hrun : Run nodeStep Discovered (P2PNode.start (str "a")) n := by
    refine Run.of_execIf (fun n a ha => ?_) hn
    unfold Discovered
    split
    · exact fun _ _ => ha
    · trivial
  exact ⟨n, hrun, hreturns, reliable_retained (str "a") hrun⟩

end EOSEmu
