import EOSEmu.P2P.Reliable

/-!
# Streams that are discarded on one side

A close, an ignore, a timeout or a restart can discard one end of a stream and leave the other.
Data and acks carry no incarnation, so the peer may take a packet of the new stream for one of the
old. `resynced_of_matched` gives the condition under which it does not: what arrives is of the
incarnation it is processed against. `not_resynced` is a run that breaks it.
-/

namespace EOSEmu

open Lib (Dict SeqMap Run Always exec execIf)

/-! ## The property and its condition -/

/-- The datagram is of the incarnation it is processed against: data meets no stream, or the stream
it belongs to, or is an old duplicate; an ack is of the send stream, or covers nothing pending.
Their numbers are extended to what they were cut from. -/
def P2PNode.Matches (n : P2PNode) (d : Datagram Pos) : Prop :=
  match d.body with
  | .data channel mode pos _ =>
      modeReliable mode = true →
        let o := n.p2p.recvStreams.get? (streamKey d.sender d.socket channel (modeOrdered mode))
        extend32 ((o.map (·.nextExpected)).getD 1) (UInt32.ofNat pos.seq) = pos.seq ∧
          ∀ r, o = some r → pos.inc = r.inc ∨ pos.inc < r.inc ∧ r.isDuplicate pos.seq = true
  | .ack channel orderedByte pos sack =>
      ∀ s, n.p2p.sendStreams.get? (streamKey d.sender d.socket channel (orderedByte ≠ 0)) =
        some s → pos.inc = s.inc ∧ extend32 s.nextSeq (UInt32.ofNat pos.seq) = pos.seq ∨
          ∀ k, s.pending.contains k = true →
            ¬ Covers (extend32 s.nextSeq (UInt32.ofNat pos.seq)) sack k
  | _ => True

section
variable {ι : Type} (cfg : P2PConfig ι)

/-- A delivered datagram matches the incarnation it meets. -/
def Matched (w : P2PWorld ι) (action : WorldAction ι) : Prop :=
  ∀ i j now pkt, action = .deliver i j now → w.net[j]? = some pkt →
    (w.node i).Matches pkt.datagram

/-- No packet is taken for one of an earlier incarnation: what was classified as a duplicate had
been accepted itself, or its number in a later incarnation had; what was accepted is what was
queued at that position; and what was acknowledged had been accepted with its own payload. -/
structure P2PWorld.Resynced (w : P2PWorld ι) : Prop where
  duplicate : ∀ (st : Stream ι) (pos : Pos),
    .duplicate (st.recvKey cfg) pos ∈ (w.node st.receiver).log → ∃ inc data, pos.inc ≤ inc ∧
      .accepted (st.recvKey cfg) ⟨inc, pos.seq⟩ data ∈ (w.node st.receiver).log
  accepted : ∀ (st : Stream ι) (pos : Pos) (data : Bytes),
    .accepted (st.recvKey cfg) pos data ∈ (w.node st.receiver).log →
      .queued (st.sendKey cfg) pos data ∈ (w.node st.sender).log
  acked : ∀ (st : Stream ι) (pos : Pos) (ackSeq : ℕ) (sack : UInt32),
    .acked (st.sendKey cfg) pos ackSeq sack ∈ (w.node st.sender).log → ∃ data,
      .queued (st.sendKey cfg) pos data ∈ (w.node st.sender).log ∧
      .accepted (st.recvKey cfg) pos data ∈ (w.node st.receiver).log

/-- What makes it inductive: a number that a receive stream has was accepted in its incarnation,
and so was every number that an ack in flight covers. -/
structure P2PWorld.ResyncInv (w : P2PWorld ι) : Prop extends w.Resynced cfg where
  got : ∀ (st : Stream ι) r, w.recvStream cfg st = some r → 1 ≤ r.nextExpected ∧ ∀ k, r.Got k →
    ∃ data, .accepted (st.recvKey cfg) ⟨r.inc, k⟩ data ∈ (w.node st.receiver).log
  acks : ∀ (st : Stream ι) pkt pos sack, pkt ∈ w.net → st.IsAck cfg pkt pos sack →
    ∀ k ∈ coveredBy pos.seq sack,
      ∃ data, .accepted (st.recvKey cfg) ⟨pos.inc, k⟩ data ∈ (w.node st.receiver).log

variable {cfg} {w : P2PWorld ι} {st : Stream ι} {pkt : Packet} {pos : Pos}

/-- The condition on data, in the words of its stream. -/
theorem P2PNode.Matches.data (h : (w.node st.receiver).Matches pkt.datagram) {bytes : Bytes}
    (hdata : st.IsData cfg pkt pos bytes) :
    extend32 (((w.recvStream cfg st).map (·.nextExpected)).getD 1) (UInt32.ofNat pos.seq) =
      pos.seq ∧ ∀ r, w.recvStream cfg st = some r →
        pos.inc = r.inc ∨ pos.inc < r.inc ∧ r.isDuplicate pos.seq = true := by
  obtain ⟨_, hsender, hsocket, mode, hmode, hord, hbody⟩ := hdata
  simp only [P2PNode.Matches, hbody, hsender, hsocket, hord] at h
  exact h hmode

/-- The condition on an ack, in the words of its stream. -/
theorem P2PNode.Matches.ack (h : (w.node st.sender).Matches pkt.datagram) {sack : UInt32}
    (hack : st.IsAck cfg pkt pos sack) : ∀ s, w.sendStream cfg st = some s →
      pos.inc = s.inc ∧ extend32 s.nextSeq (UInt32.ofNat pos.seq) = pos.seq ∨
        ∀ k, s.pending.contains k = true →
          ¬ Covers (extend32 s.nextSeq (UInt32.ofNat pos.seq)) sack k := by
  obtain ⟨_, hsender, hsocket, orderedByte, hord, hbody⟩ := hack
  simp only [P2PNode.Matches, hbody, hsender, hsocket, hord] at h
  exact h

/-- Data that a matched step accepts or classifies belongs to its stream. -/
theorem P2PWorld.Honest.arrived (hw : w.Honest cfg) {action : WorldAction ι}
    (hok : Matched w action) {cause : Cause} (harr : Arrives cfg w action st.receiver cause)
    {from_ : Endpoint} {m : Datagram UInt32} {inc : ℕ} {channel mode : UInt8} {wire : UInt32}
    {bytes : Bytes} (hcause : cause = .message from_ m inc)
    (hm : m.body = .data channel mode wire bytes) (hmode : modeReliable mode = true)
    (hkey : streamKey m.sender m.socket channel (modeOrdered mode) = st.recvKey cfg) :
    ∃ seq, extend32 (((w.recvStream cfg st).map (·.nextExpected)).getD 1) wire = seq ∧ 1 ≤ seq ∧
      (∀ r, w.recvStream cfg st = some r → inc = r.inc ∨ inc < r.inc ∧ r.isDuplicate seq = true) ∧
      .queued (st.sendKey cfg) ⟨inc, seq⟩ bytes ∈ (w.node st.sender).log := by
  obtain ⟨_, j, now, pkt, pos, haction, hpkt, hdata, rfl, rfl⟩ := harr.data hw hcause hm hmode hkey
  obtain ⟨hext, hinc⟩ := (hok _ j now pkt haction hpkt).data hdata
  have hqueued := hdata.queued hw (List.mem_of_getElem? hpkt)
  exact ⟨pos.seq, hext, ((hw.node _).queued _ _ _ hqueued).2.1, hinc, hqueued⟩

end

/-! ## One step -/

section
variable {cause : Cause} {key : Bytes} {es : List Event} {o : Option RecvStream}

/-- An event of a step of the receiving end that is no release is the classification of the data it
handled. -/
theorem RecvStep.classified {o' : Option RecvStream} (h : RecvStep cause key es o o') {e : Event}
    (he : e ∈ es) (hkey : e.recvKey = some key) (hne : ∀ pos data, e ≠ .enqueued key pos data) :
    ∃ from_ m inc channel mode wire bytes s₀, cause = .message from_ m inc ∧
      m.body = .data channel mode wire bytes ∧ modeReliable mode = true ∧
      streamKey m.sender m.socket channel (modeOrdered mode) = key ∧
      s₀ = { o.getD { inc } with
        peer := m.sender, socket := m.socket, channel, ordered := modeOrdered mode } ∧
      e = s₀.dataEvent key inc (extend32 s₀.nextExpected wire) bytes := by
  have hmem := mem_recvLog he hkey
  have hdrain : ∀ {inc : ℕ} {moved : List (ℕ × Bytes)}, e ∉ P2P.drainLog key inc moved := by
    intro inc moved hin
    obtain ⟨x, _, rfl⟩ := List.mem_map.1 hin
    exact hne _ _ rfl
  cases h with
  | keep hlog =>
      rw [hlog] at hmem
      cases hmem
  | clear hlog _ =>
      obtain ⟨pos, data, rfl⟩ := hlog e hmem
      exact absurd rfl (hne pos data)
  | drain _ hlog =>
      rw [hlog] at hmem
      exact absurd hmem hdrain
  | data s₀ hcause hm hmode hk hs₀ _ hlog =>
      rw [hlog, List.mem_cons] at hmem
      rcases hmem with hmem | hmem
      · exact ⟨_, _, _, _, _, _, _, s₀, hcause, hm, hmode, hk, hs₀, hmem⟩
      · exact absurd hmem hdrain

/-- What a receive stream has after a step it had before in the same incarnation, or the step
accepted it. -/
theorem RecvStep.got {t : RecvStream} (h : RecvStep cause key es o (some t))
    (hpos : ∀ s, o = some s → 1 ≤ s.nextExpected) : 1 ≤ t.nextExpected ∧ ∀ k, t.Got k →
      (∃ s, o = some s ∧ s.inc = t.inc ∧ s.Got k) ∨
      ∃ from_ m inc channel mode wire bytes, cause = .message from_ m inc ∧
        m.body = .data channel mode wire bytes ∧ modeReliable mode = true ∧
        streamKey m.sender m.socket channel (modeOrdered mode) = key ∧
        k = extend32 ((o.map (·.nextExpected)).getD 1) wire ∧ t.inc = (o.map (·.inc)).getD inc ∧
        (∀ s, o = some s → s.isDuplicate k = false) ∧ .accepted key ⟨inc, k⟩ bytes ∈ es := by
  cases h with
  | keep => exact ⟨hpos t rfl, fun k hk => .inl ⟨t, rfl, rfl, hk⟩⟩
  | @drain s _ _ hdeliv _ =>
      rw [hdeliv.frame]
      exact ⟨hpos s rfl, fun k hk => .inl ⟨s, rfl, rfl, hk⟩⟩
  | @data _ _ from_ m inc channel mode wire bytes moved s₀ hcause hm hmode hk hs₀ hdeliv hlog =>
      have hfields : s₀.nextExpected = (o.map (·.nextExpected)).getD 1 ∧
          s₀.inc = (o.map (·.inc)).getD inc ∧ 1 ≤ s₀.nextExpected ∧
          (∀ s, o = some s → ∀ k, s₀.isDuplicate k = s.isDuplicate k) ∧
          ∀ k, s₀.Got k → ∃ s, o = some s ∧ s.Got k := by
        subst hs₀
        cases o with
        | none =>
            refine ⟨rfl, rfl, Nat.le_refl 1, nofun, fun k hgot => ?_⟩
            obtain ⟨h₁, h₂ | h₂⟩ := hgot
            · exact absurd h₂ (Nat.not_lt.2 h₁)
            · cases h₂
        | some s =>
            refine ⟨rfl, rfl, hpos s rfl, ?_, fun k hgot => ⟨s, rfl, hgot⟩⟩
            rintro _ ⟨⟩ k
            rfl
      obtain ⟨hnext, hinc, hone, hdup, hgot⟩ := hfields
      generalize hk' : extend32 s₀.nextExpected wire = k₀ at hdeliv hlog
      have hold : ∀ k, s₀.Got k → ∃ s, o = some s ∧ s.inc = s₀.inc ∧ s.Got k := by
        intro k hsk
        obtain ⟨s, rfl, hs⟩ := hgot k hsk
        exact ⟨s, rfl, hinc.symm, hs⟩
      rw [hdeliv.frame]
      unfold RecvStream.receive
      split
      · exact ⟨hone, fun k hsk => .inl (hold k hsk)⟩
      · next hnew =>
          refine ⟨Nat.le_trans hone (s₀.le_accept_nextExpected k₀ bytes), fun k hsk => ?_⟩
          have hk₀ : 1 ≤ k₀ := by
            by_contra hlt
            refine hnew ?_
            simp only [RecvStream.isDuplicate, Bool.or_eq_true, decide_eq_true_eq]
            omega
          rcases (RecvStream.accept_got bytes hone hk₀ k).1 hsk with rfl | hsk
          · right
            refine ⟨from_, m, inc, channel, mode, wire, bytes, hcause, hm, hmode, hk,
              by rw [← hk', hnext], hinc, fun s hs => ?_, ?_⟩
            · rw [← hdup s hs]
              exact Bool.eq_false_iff.2 hnew
            · have hmem : s₀.dataEvent key inc k bytes ∈ recvLog key es := by
                rw [hlog]
                exact List.mem_cons_self
              rw [RecvStream.dataEvent, if_neg hnew] at hmem
              exact (List.mem_filter.1 hmem).1
          · exact .inl (hold k hsk)

/-- What a step of the sending end acknowledges was pending, and an ack that arrived covers it. -/
theorem SendStep.acked {localPid : ProductUserId} {o o' : Option SendStream}
    (h : SendStep localPid cause key es o o') {pos : Pos} {ackSeq : ℕ} {sack : UInt32}
    (he : .acked key pos ackSeq sack ∈ es) :
    ∃ s from_ m inc channel orderedByte wire, o = some s ∧ pos.inc = s.inc ∧
      s.pending.contains pos.seq = true ∧ cause = .message from_ m inc ∧
      m.body = .ack channel orderedByte wire sack ∧
      streamKey m.sender m.socket channel (orderedByte ≠ 0) = key ∧
      ackSeq = extend32 s.nextSeq wire ∧ Covers ackSeq sack pos.seq := by
  have hmem := mem_sendLog he rfl
  cases h with
  | keep hlog _ =>
      rw [hlog] at hmem
      cases hmem
  | clear hlog _ =>
      rw [hlog] at hmem
      cases hmem
  | queue _ _ _ _ _ hlog =>
      rw [hlog, List.mem_singleton] at hmem
      cases hmem
  | @ack s from_ m inc now channel orderedByte wire sack' hcause hm hkey hlog =>
      rw [hlog] at hmem
      obtain ⟨k, hk, heq⟩ := List.mem_map.1 hmem
      cases heq
      obtain ⟨hpend, hcov⟩ := SendStream.mem_ackedBy.1 hk
      exact ⟨s, from_, m, inc, channel, orderedByte, wire, rfl, rfl, hpend, hcause, hm, hkey, rfl,
        hcov⟩

end

section
variable {ι : Type} [DecidableEq ι] {cfg : P2PConfig ι} {w w' : P2PWorld ι} {action : WorldAction ι}

namespace P2PWorld.ResyncInv
variable (hw : w.Honest cfg) (hinv : w.ResyncInv cfg) (hok : Matched w action)
  (h : worldStep cfg w action = some w')
include hw hinv hok h

/-- A payload is accepted as it was queued. -/
theorem accepted_step (st : Stream ι) (pos : Pos) (data : Bytes)
    (he : .accepted (st.recvKey cfg) pos data ∈ (w'.node st.receiver).log) :
    .queued (st.sendKey cfg) pos data ∈ (w'.node st.sender).log := by
  obtain ⟨es, hes, hstep⟩ := worldStep_receiver h st
  rw [hes, List.mem_append] at he
  rcases he with he | he
  · exact worldStep_mem_log h (hinv.accepted st pos data he)
  rcases hstep with ⟨cause, hrecv, harr⟩ | ⟨rfl, _⟩
  · obtain ⟨from_, m, inc, channel, mode, wire, bytes, s₀, hcause, hm, hmode, hkey, hs₀, hev⟩ :=
      hrecv.classified he rfl (by simp)
    obtain ⟨seq, hseq, _, _, hqueued⟩ := hw.arrived hok harr hcause hm hmode hkey
    have hnext : s₀.nextExpected = ((w.recvStream cfg st).map (·.nextExpected)).getD 1 := by
      rw [hs₀]
      cases w.recvStream cfg st <;> rfl
    rw [RecvStream.dataEvent, hnext, hseq] at hev
    split at hev <;> cases hev
    exact worldStep_mem_log h hqueued
  · cases List.mem_singleton.1 he

/-- A number that a receive stream has was accepted in its incarnation. -/
theorem got_step (st : Stream ι) (r : RecvStream) (hr : w'.recvStream cfg st = some r) :
    1 ≤ r.nextExpected ∧ ∀ k, r.Got k →
      ∃ data, .accepted (st.recvKey cfg) ⟨r.inc, k⟩ data ∈ (w'.node st.receiver).log := by
  obtain ⟨es, hes, hstep⟩ := worldStep_receiver h st
  rcases hstep with ⟨cause, hrecv, harr⟩ | ⟨_, hnone⟩
  · rw [hr] at hrecv
    obtain ⟨hone, hall⟩ := hrecv.got fun s hs => (hinv.got st s hs).1
    refine ⟨hone, fun k hk => ?_⟩
    rcases hall k hk with ⟨s, hs, hinc, hsk⟩ |
      ⟨from_, m, inc, channel, mode, wire, bytes, hcause, hm, hmode, hkey, hk', hinc, hnew, hev⟩
    · obtain ⟨data, hdata⟩ := (hinv.got st s hs).2 k hsk
      exact ⟨data, worldStep_mem_log h (hinc ▸ hdata)⟩
    · obtain ⟨seq, hseq, _, hmatch, _⟩ := hw.arrived hok harr hcause hm hmode hkey
      have hinc' : r.inc = inc := by
        rw [hinc]
        cases hs : w.recvStream cfg st with
        | none => rfl
        | some s =>
            rw [hs] at hk' hseq
            rcases hmatch s hs with heq | ⟨_, hdup⟩
            · exact heq.symm
            · rw [← hseq, ← hk', hnew s hs] at hdup
              cases hdup
      rw [hinc', hes]
      exact ⟨bytes, List.mem_append_right _ hev⟩
  · rw [hr] at hnone
    cases hnone

/-- What is taken for a duplicate was accepted, in this incarnation or a later one. -/
theorem duplicate_step (st : Stream ι) (pos : Pos)
    (he : .duplicate (st.recvKey cfg) pos ∈ (w'.node st.receiver).log) :
    ∃ inc data, pos.inc ≤ inc ∧ .accepted (st.recvKey cfg) ⟨inc, pos.seq⟩ data ∈
      (w'.node st.receiver).log := by
  obtain ⟨es, hes, hstep⟩ := worldStep_receiver h st
  rw [hes, List.mem_append] at he
  rcases he with he | he
  · obtain ⟨inc, data, hle, hmem⟩ := hinv.duplicate st pos he
    exact ⟨inc, data, hle, worldStep_mem_log h hmem⟩
  rcases hstep with ⟨cause, hrecv, harr⟩ | ⟨rfl, _⟩
  · obtain ⟨from_, m, inc, channel, mode, wire, bytes, s₀, hcause, hm, hmode, hkey, hs₀, hev⟩ :=
      hrecv.classified he rfl (by simp)
    obtain ⟨seq, hseq, hpos, hmatch, _⟩ := hw.arrived hok harr hcause hm hmode hkey
    cases hs : w.recvStream cfg st with
    | none =>
        -- a stream the datagram creates has no duplicates
        rw [hs] at hs₀ hseq
        have hdup : s₀.isDuplicate (extend32 s₀.nextExpected wire) = false := by
          rw [hs₀]
          show (decide (extend32 1 wire < 1) || false) = false
          rw [show extend32 1 wire = seq from hseq]
          simpa using Nat.ne_of_gt hpos
        rw [RecvStream.dataEvent, hdup] at hev
        cases hev
    | some s =>
        rw [hs] at hs₀ hseq
        have hsame : s₀.nextExpected = s.nextExpected ∧ s₀.received = s.received := by
          rw [hs₀]
          exact ⟨rfl, rfl⟩
        rw [RecvStream.dataEvent, hsame.1] at hev
        split at hev
        · next hdup =>
            cases hev
            have hgotSeq : s.Got (extend32 s.nextExpected wire) := by
              rw [show extend32 s.nextExpected wire = seq from hseq] at hdup ⊢
              refine (RecvStream.isDuplicate_iff hpos).1 ?_
              rwa [RecvStream.isDuplicate, hsame.1, hsame.2] at hdup
            obtain ⟨data, hdata⟩ := (hinv.got st s hs).2 _ hgotSeq
            have hle : inc ≤ s.inc := by
              rcases hmatch s hs with heq | ⟨hlt, _⟩
              · exact Nat.le_of_eq heq
              · exact Nat.le_of_lt hlt
            exact ⟨s.inc, data, hle, worldStep_mem_log h hdata⟩
        · cases hev
  · cases List.mem_singleton.1 he

/-- An acknowledged packet was queued, and accepted with that payload. -/
theorem acked_step (st : Stream ι) (pos : Pos) (ackSeq : ℕ) (sack : UInt32)
    (he : .acked (st.sendKey cfg) pos ackSeq sack ∈ (w'.node st.sender).log) :
    ∃ data, .queued (st.sendKey cfg) pos data ∈ (w'.node st.sender).log ∧
      .accepted (st.recvKey cfg) pos data ∈ (w'.node st.receiver).log := by
  obtain ⟨es, hes, hstep⟩ := worldStep_sender hw h st
  rw [hes, List.mem_append] at he
  rcases he with he | he
  · obtain ⟨data, hqueued, hacc⟩ := hinv.acked st pos ackSeq sack he
    exact ⟨data, worldStep_mem_log h hqueued, worldStep_mem_log h hacc⟩
  rcases hstep with ⟨cause, hsend, harr⟩ | ⟨rfl, _⟩
  · obtain ⟨s, from_, m, inc, channel, orderedByte, wire, hs, hinc, hpend, hcause, hm, hkey, hack,
      hcov⟩ := hsend.acked he
    obtain ⟨j, now, pkt, apos, haction, hpkt, hisack, rfl⟩ := harr.ack hw hcause hm hkey
    obtain ⟨u, hu⟩ := SeqMap.contains_iff.1 hpend
    obtain ⟨_, _, _, _, bytes, _, _, _, _, hqueued⟩ := (hw.node st.sender).pending _ s _ u hs hu
    have hone : 1 ≤ pos.seq := ((hw.node st.sender).queued _ _ _ hqueued).2.1
    rcases (hok _ j now pkt haction hpkt).ack hisack s hs with ⟨hinc', hext⟩ | hnone
    · rw [hack, hext] at hcov
      obtain ⟨data, hacc⟩ := hinv.acks st pkt apos sack (List.mem_of_getElem? hpkt) hisack
        pos.seq ⟨hone, hcov⟩
      have hpos : (⟨apos.inc, pos.seq⟩ : Pos) = pos := by
        rw [hinc', ← hinc]
      rw [hpos] at hacc
      exact ⟨data, worldStep_mem_log h (hinv.accepted st pos data hacc), worldStep_mem_log h hacc⟩
    · rw [hack] at hcov
      exact absurd hcov (hnone _ hpend)
  · cases List.mem_singleton.1 he

/-- One step. -/
theorem step : w'.ResyncInv cfg := by
  refine ⟨⟨duplicate_step hw hinv hok h, accepted_step hw hinv hok h, acked_step hw hinv hok h⟩,
    got_step hw hinv hok h, fun st pkt pos sack hpkt hisack k hk => ?_⟩
  rcases worldStep_ack hw h hpkt hisack with hold | ⟨r, hr, rfl, rfl⟩
  · obtain ⟨data, hdata⟩ := hinv.acks st pkt pos sack hold hisack k hk
    exact ⟨data, worldStep_mem_log h hdata⟩
  · obtain ⟨hone, hall⟩ := got_step hw hinv hok h st r hr
    exact hall k (RecvStream.got_of_covers hone hk.1 hk.2)

end P2PWorld.ResyncInv

/-- **Stream resynchronisation**, as long as what is delivered matches the incarnation it meets: in
every world that can be reached, with streams discarded on one side or both at any time, no packet
was taken for one of an earlier incarnation, and none left `Pending` by an ack before the receiver
accepted it with its own payload. -/
theorem resynced_of_matched (h : Run (worldStep cfg) Matched (P2PWorld.start cfg) w) :
    w.Resynced cfg := by
  have hinv : w.ResyncInv cfg := by
    refine h.invariant' ⟨⟨nofun, nofun, nofun⟩, nofun, nofun⟩ fun u v a hu ih hok hstep => ?_
    exact ih.step (honest_of_run hu) hok hstep
  exact hinv.toResynced

end

/-! ## The failing run -/

/-- `a` sends a packet, which `b` receives; `a` closes the connection, and its `P2PConnectClose` is
lost; `a` sends again. -/
def closeLost : List (WorldAction Bool) :=
  [.hello false true, sampleSend .reliableOrdered "hi", .call false (.sendPacketQueue 0 0),
    .deliver true 1 0,
    .call false (.closeConnection (some ⟨str "b", some (str "CHAT")⟩)),
    sampleSend .reliableOrdered "yo", .call false (.sendPacketQueue 0 0),
    .deliver true 5 0, .deliver false 6 0]

/-- Without the condition this fails: the first packet of the new stream is classified as a
duplicate of the old stream's, and acknowledged in its place. -/
theorem not_resynced :
    ¬ ∀ w, Run (worldStep sampleConfig) Always (P2PWorld.start sampleConfig) w →
      w.Resynced sampleConfig := by
  intro h
  have hrun : (exec (worldStep sampleConfig) (P2PWorld.start sampleConfig) closeLost).map
      (fun w => ((w.node false).log.any fun e => match e with
          | .acked key ⟨1, 1⟩ 1 0 => decide (key = (sampleStream true).sendKey sampleConfig)
          | _ => false,
        (w.node true).log.any fun e => match e with
          | .accepted _ ⟨1, 1⟩ _ => true
          | _ => false)) = some (true, false) := by
    decide +kernel
  obtain ⟨w, hw, heq⟩ := Option.map_eq_some_iff.1 hrun
  obtain ⟨hacked, hnone⟩ := Prod.ext_iff.1 heq
  obtain ⟨e, he, hmatch⟩ := List.any_eq_true.1 hacked
  have hmem : .acked ((sampleStream true).sendKey sampleConfig) ⟨1, 1⟩ 1 0 ∈
    (w.node false).log := by
    split at hmatch
    · rw [decide_eq_true_eq] at hmatch
      rwa [← hmatch]
    · cases hmatch
  obtain ⟨data, _, hacc⟩ := (h w (Run.of_exec hw)).acked (sampleStream true) ⟨1, 1⟩ 1 0 hmem
  have hfalse := List.any_eq_false.1 hnone _ hacc
  exact hfalse rfl

/-- A test for the condition, for runs in which every ack is of its stream. -/
def matchedTest (w : P2PWorld Bool) : WorldAction Bool → Bool
  | .deliver i j _ =>
      match w.net[j]? with
      | none => true
      | some pkt =>
          match pkt.datagram.body with
          | .data channel mode pos _ =>
              match (w.node i).p2p.recvStreams.get?
                (streamKey pkt.datagram.sender pkt.datagram.socket channel (modeOrdered mode)) with
              | none => extend32 1 (UInt32.ofNat pos.seq) == pos.seq
              | some r => extend32 r.nextExpected (UInt32.ofNat pos.seq) == pos.seq &&
                pos.inc == r.inc
          | .ack channel orderedByte pos _ =>
              match (w.node i).p2p.sendStreams.get?
                (streamKey pkt.datagram.sender pkt.datagram.socket channel (orderedByte ≠ 0)) with
              | none => true
              | some s => extend32 s.nextSeq (UInt32.ofNat pos.seq) == pos.seq && pos.inc == s.inc
          | _ => true
  | _ => true

/-- A step that passes the test meets `Matched`. -/
theorem matched_of_matchedTest (w : P2PWorld Bool) (action : WorldAction Bool)
    (h : matchedTest w action = true) : Matched w action := by
  rintro i j now pkt rfl hpkt
  simp only [matchedTest, hpkt] at h
  unfold P2PNode.Matches
  cases hbody : pkt.datagram.body with
  | data channel mode pos bytes =>
      simp only [hbody] at h
      intro _
      cases hr : (w.node i).p2p.recvStreams.get?
          (streamKey pkt.datagram.sender pkt.datagram.socket channel (modeOrdered mode)) with
      | none =>
          simp only [hr, beq_iff_eq] at h
          exact ⟨h, by simp⟩
      | some r =>
          simp only [hr, Bool.and_eq_true, beq_iff_eq] at h
          refine ⟨h.1, ?_⟩
          rintro _ ⟨⟩
          exact .inl h.2
  | ack channel orderedByte pos sack =>
      simp only [hbody] at h
      intro s hs
      simp only [hs, Bool.and_eq_true, beq_iff_eq] at h
      exact .inl ⟨h.2, h.1⟩
  | _ => trivial

/-- A run that meets the condition, in which both packets are acknowledged. -/
theorem resynced_of_matched_sample : ∃ w,
    Run (worldStep sampleConfig) Matched (P2PWorld.start sampleConfig) w ∧
    (w.node false).log.length = 4 ∧ w.Resynced sampleConfig := by
  have hrun : (execIf (worldStep sampleConfig) matchedTest (P2PWorld.start sampleConfig)
      (sampleExchange .reliableOrdered)).map (fun w => (w.node false).log.length) = some 4 := by
    decide +kernel
  obtain ⟨w, hw, hlen⟩ := Option.map_eq_some_iff.1 hrun
  have hrun : Run (worldStep sampleConfig) Matched (P2PWorld.start sampleConfig) w :=
    Run.of_execIf matched_of_matchedTest hw
  exact ⟨w, hrun, hlen, resynced_of_matched hrun⟩

end EOSEmu
