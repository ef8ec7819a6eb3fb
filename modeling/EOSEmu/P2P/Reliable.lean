import EOSEmu.P2P.Stream
import EOSEmu.Lib.Arq

/-!
# A stream is a retransmission channel

The two ends of a stream and its datagrams in flight, seen as a state of `Lib.Arq` (`Stream.view`).
As long as nothing clears the stream and every delivered number is near its watermark, a step of
the world is a sequence of steps of that channel (`worldStep_refines`), whatever the step is:
`SendPacket`, `Pump` on either side, a call on the packet queue, or the handling of any datagram.
What the channel guarantees then holds of the code: `ordered_delivery` and `unordered_delivery`.
-/

namespace EOSEmu

open Lib (Dict SeqMap Run Always execIf)
open Lib.Arq (Inv Step)
open Relation (ReflTransGen)

/-! ## What the logs say was sent and delivered -/

/-- The payload, if the event queues one on the send stream. -/
def Event.queuedOn (key : Bytes) : Event → Option Bytes
  | .queued k _ data => if k = key then some data else none
  | _ => none

/-- Number and payload, if the event moves a packet of the receive stream to the inbox. -/
def Event.enqueuedOn (key : Bytes) : Event → Option (ℕ × Bytes)
  | .enqueued k pos data => if k = key then some (pos.seq, data) else none
  | _ => none

/-- The payloads queued on a send stream, in order. -/
def queuedOn (key : Bytes) (es : List Event) : List Bytes := es.filterMap (Event.queuedOn key)

/-- The packets moved from a receive stream to the inbox, in order. -/
def enqueuedOn (key : Bytes) (es : List Event) : List (ℕ × Bytes) :=
  es.filterMap (Event.enqueuedOn key)

@[simp] theorem queuedOn_append (key : Bytes) (es fs : List Event) :
    queuedOn key (es ++ fs) = queuedOn key es ++ queuedOn key fs := List.filterMap_append ..

@[simp] theorem enqueuedOn_append (key : Bytes) (es fs : List Event) :
    enqueuedOn key (es ++ fs) = enqueuedOn key es ++ enqueuedOn key fs := List.filterMap_append ..

/-- Only the stream's own events count. -/
theorem queuedOn_sendLog (key : Bytes) (es : List Event) :
    queuedOn key es = queuedOn key (sendLog key es) := by
  rw [queuedOn, queuedOn, sendLog, List.filterMap_filter]
  refine List.filterMap_congr fun e _ => ?_
  cases e <;> simp [Event.sendKey, Event.queuedOn]

/-- What enters the inbox from a stream is told by the events of that stream. -/
theorem enqueuedOn_recvLog (key : Bytes) (es : List Event) :
    enqueuedOn key es = enqueuedOn key (recvLog key es) := by
  rw [enqueuedOn, enqueuedOn, recvLog, List.filterMap_filter]
  refine List.filterMap_congr fun e _ => ?_
  cases e <;> simp [Event.recvKey, Event.enqueuedOn]

/-- The records of a drain say what it moved. -/
@[simp] theorem enqueuedOn_drainLog (key : Bytes) (inc : ℕ) (moved : List (ℕ × Bytes)) :
    enqueuedOn key (P2P.drainLog key inc moved) = moved := by
  induction moved with
  | nil => rfl
  | cons e moved ih =>
      have hcons : P2P.drainLog key inc (e :: moved) =
          [.enqueued key ⟨inc, e.1⟩ e.2] ++ P2P.drainLog key inc moved := rfl
      rw [hcons, enqueuedOn_append, ih]
      simp [enqueuedOn, Event.enqueuedOn]

/-! ## The two ends as parts of a channel -/

/-- The payload of a data datagram. -/
def Datagram.bytes? {N : Type} (d : Datagram N) : Option Bytes :=
  match d.body with
  | .data _ _ _ bytes => some bytes
  | _ => none

/-- What is in `Pending`: number and payload. -/
def unackedOf (o : Option SendStream) : Set (ℕ × Bytes) :=
  {e | ∃ s u, o = some s ∧ s.pending.get? e.1 = some u ∧ u.payload.bytes? = some e.2}

/-- The numbers received. -/
def gotOf (o : Option RecvStream) : Set ℕ := {k | ∃ s, o = some s ∧ s.Got k}

/-- What is in `Buffer`. -/
def bufferOf (o : Option RecvStream) : Set (ℕ × Bytes) :=
  {e | ∃ s, o = some s ∧ s.buffer.get? e.1 = some e.2}

/-- The numbers an ack covers. -/
def coveredBy (ackSeq : ℕ) (sack : UInt32) : Set ℕ := {k | 1 ≤ k ∧ Covers ackSeq sack k}

/-- The sending end is that of the channel. -/
structure SendCoupled (o : Option SendStream) (S : Lib.Arq.State Bytes) : Prop where
  pending : S.pending = unackedOf o
  nextSeq : ∀ s, o = some s → s.nextSeq = S.sent.length + 1
  none : o = none → S.sent = []

/-- The receiving end is that of the channel. -/
structure RecvCoupled (ordered : Bool) (o : Option RecvStream) (S : Lib.Arq.State Bytes) :
    Prop where
  got : S.got = gotOf o
  buffer : S.buffer = bufferOf o
  nextExpected : ∀ s, o = some s → 1 ≤ s.nextExpected
  isOrdered : ∀ s, o = some s → s.ordered = ordered
  nextToDeliver : ∀ s, o = some s → ordered = true → s.nextToDeliver = S.out.length + 1
  none : o = none → S.out = []

section
variable {S : Lib.Arq.State Bytes} {ordered : Bool} {key : Bytes} {es : List Event} {cause : Cause}
  {localPid : ProductUserId}

/-- Retransmission does not change what is in `Pending`. -/
theorem unackedOf_resent {s t : SendStream} (h : Resent s t) :
    unackedOf (some t) = unackedOf (some s) := by
  ext ⟨k, bytes⟩
  constructor
  · rintro ⟨_, u, ⟨⟩, hu, hb⟩
    obtain ⟨v, hv, hpay, _⟩ := h.pending' hu
    exact ⟨s, v, rfl, hv, by rw [← hpay, hb]⟩
  · rintro ⟨_, u, ⟨⟩, hu, hb⟩
    obtain ⟨v, hv, hpay, _⟩ := h.pending hu
    exact ⟨t, v, rfl, hv, by rw [hpay, hb]⟩

/-- A queued packet joins `Pending`, whose other numbers are smaller. -/
theorem unackedOf_queue {t : SendStream} {c : SendCall} {now : TimePoint}
    (hnew : t.pending.get? t.nextSeq = none) : unackedOf (some (t.queue localPid c now)) =
      insert (t.nextSeq, c.options.data.data) (unackedOf (some t)) := by
  ext ⟨k, bytes⟩
  constructor
  · rintro ⟨_, u, ⟨⟩, hu, hb⟩
    dsimp only at hu hb
    by_cases hk : k = t.nextSeq
    · subst hk
      rw [SendStream.queue_new] at hu
      cases hu
      cases hb
      exact .inl rfl
    · rw [SendStream.queue_old _ _ _ _ hk] at hu
      exact .inr ⟨t, u, rfl, hu, hb⟩
  · rintro (heq | ⟨_, u, ⟨⟩, hu, hb⟩)
    · cases heq
      exact ⟨_, _, rfl, SendStream.queue_new .., rfl⟩
    · refine ⟨_, u, rfl, ?_, hb⟩
      dsimp only at hu ⊢
      rwa [SendStream.queue_old]
      rintro rfl
      rw [hnew] at hu
      cases hu

/-- What an ack leaves in `Pending`, whose numbers are positive. -/
theorem unackedOf_processAck {s : SendStream} {ackSeq : ℕ} {sack : UInt32} {now : TimePoint}
    (hpos : ∀ e ∈ unackedOf (some s), 1 ≤ e.1) :
    unackedOf (some (s.processAck ackSeq sack now)) =
      {e | e ∈ unackedOf (some s) ∧ e.1 ∉ coveredBy ackSeq sack} := by
  ext ⟨k, bytes⟩
  constructor
  · rintro ⟨_, u, ⟨⟩, hu, hb⟩
    obtain ⟨hold, hcov⟩ := SendStream.processAck_pending.1 hu
    exact ⟨⟨s, u, rfl, hold, hb⟩, fun h => hcov h.2⟩
  · rintro ⟨hmem, hcov⟩
    have hk : 1 ≤ k := hpos _ hmem
    obtain ⟨_, u, ⟨⟩, hu, hb⟩ := hmem
    exact ⟨_, u, rfl, SendStream.processAck_pending.2 ⟨hu, fun h => hcov ⟨hk, h⟩⟩, hb⟩

/-- A step of the sending end is a sequence of steps of the channel. -/
theorem SendStep.refines {o o' : Option SendStream} (hS : Inv (ordered = true) S)
    (hc : SendCoupled o S) (hlt : ∀ s k u, o = some s → s.pending.get? k = some u → k < s.nextSeq)
    (h : SendStep localPid cause key es o o') (hclear : ¬ Clears es key)
    (hack : ∀ from_ m inc channel orderedByte wire sack, cause = .message from_ m inc →
      m.body = .ack channel orderedByte wire sack →
      streamKey m.sender m.socket channel (orderedByte ≠ 0) = key →
      ∃ v, coveredBy v sack ∈ S.acks ∧ wire = UInt32.ofNat v ∧
        ∀ s, o = some s → Near s.nextSeq v) :
    ∃ T, ReflTransGen (Step (ordered = true)) S T ∧ T.sent = S.sent ++ queuedOn key es ∧
      T.data = S.data ∧ T.got = S.got ∧ T.buffer = S.buffer ∧ T.out = S.out ∧ S.acks ⊆ T.acks ∧
      SendCoupled o' T := by
  have hno : sendLog key es = [] → S.sent = S.sent ++ queuedOn key es := by
    intro hlog
    rw [queuedOn_sendLog, hlog]
    exact (List.append_nil _).symm
  cases h with
  | keep hlog hrel =>
      refine ⟨S, .refl, hno hlog, rfl, rfl, rfl, rfl, Set.Subset.rfl, ?_⟩
      cases hrel with
      | none => exact hc
      | @some s t hres =>
          refine ⟨by rw [hc.pending, unackedOf_resent hres], ?_, nofun⟩
          rintro _ ⟨⟩
          rw [hres.frame]
          exact hc.nextSeq s rfl
  | clear _ hcl => exact absurd hcl hclear
  | @queue _ c now t _ _ _ hold hlog =>
      have hnext : t.nextSeq = S.sent.length + 1 ∧ unackedOf (some t) = S.pending := by
        rcases hold with rfl | ⟨rfl, hone, hempty⟩
        · exact ⟨hc.nextSeq t rfl, hc.pending.symm⟩
        · refine ⟨by rw [hone, hc.none rfl]; rfl, ?_⟩
          rw [hc.pending]
          ext e
          constructor
          · rintro ⟨_, u, ⟨⟩, hu, _⟩
            rw [hempty] at hu
            cases hu
          · rintro ⟨_, _, ⟨⟩, _⟩
      have hnew : t.pending.get? t.nextSeq = none := by
        by_contra hne
        obtain ⟨u, hu⟩ := Option.ne_none_iff_exists'.1 hne
        rcases hold with rfl | ⟨_, _, hempty⟩
        · exact absurd (hlt t _ u rfl hu) (Nat.lt_irrefl _)
        · rw [hempty] at hu
          cases hu
      have hqueued : queuedOn key es = [c.options.data.data] := by
        rw [queuedOn_sendLog, hlog]
        simp [queuedOn, Event.queuedOn]
      refine ⟨_, .single (.send S c.options.data.data), by rw [hqueued], rfl, rfl, rfl, rfl,
        Set.Subset.rfl, ?_, ?_, nofun⟩
      · rw [unackedOf_queue hnew, hnext.1, hnext.2]
      · rintro _ ⟨⟩
        show t.nextSeq + 1 = (S.sent ++ [c.options.data.data]).length + 1
        rw [List.length_append, hnext.1]
        rfl
  | @ack s from_ m inc now channel orderedByte wire sack hcause hm hkey hlog =>
      obtain ⟨v, hv, rfl, hnear⟩ := hack _ _ _ _ _ _ _ hcause hm hkey
      have hqueued : queuedOn key es = [] := by
        rw [queuedOn_sendLog, hlog]
        refine List.filterMap_eq_nil_iff.2 fun e he => ?_
        obtain ⟨k, _, rfl⟩ := List.mem_map.1 he
        rfl
      have hpos : ∀ e ∈ unackedOf (some s), 1 ≤ e.1 := by
        intro e he
        rw [← hc.pending] at he
        exact (hS.pending e he).1
      generalize hack' : extend32 s.nextSeq (UInt32.ofNat v) = ackSeq
      -- what the ack was taken for covers numbers that have been received
      have hgot : coveredBy ackSeq sack ⊆ S.got := by
        intro k hk
        refine hS.acks _ hv ⟨hk.1, hk.2.of_near ?_⟩
        rw [← hack']
        exact extend32_near (hnear s rfl)
      have hadd : Step (ordered = true) S
          { S with data := S.data, acks := insert (coveredBy ackSeq sack) S.acks } := by
        refine .channel S S.data _ Set.subset_union_left fun g hg => ?_
        rcases hg with rfl | hg
        · exact .inr hgot
        · exact .inl hg
      refine ⟨_, .tail (.single hadd) (.acknowledge _ (coveredBy ackSeq sack) (.inl rfl)),
        by rw [hqueued, List.append_nil], rfl, rfl, rfl, rfl, fun g hg => .inr hg, ?_, ?_, nofun⟩
      · rw [unackedOf_processAck hpos, ← hc.pending]
      · rintro _ ⟨⟩
        rw [SendStream.processAck_frame]
        exact hc.nextSeq s rfl

/-- A sequence of releases is one of the channel. -/
theorem Delivers.refines {s t : RecvStream} {moved : List (ℕ × Bytes)} (h : Delivers s moved t)
    (hc : RecvCoupled ordered (some s) S) :
    ∃ T, ReflTransGen (Step (ordered = true)) S T ∧ T.sent = S.sent ∧ T.pending = S.pending ∧
      T.data = S.data ∧ T.acks = S.acks ∧ T.out = S.out ++ moved ∧
      RecvCoupled ordered (some t) T := by
  induction h generalizing S with
  | nil s => exact ⟨S, .refl, rfl, rfl, rfl, rfl, (List.append_nil _).symm, hc⟩
  | @cons s t k data l hget hnext _ ih =>
      have hord : s.ordered = ordered := hc.isOrdered s rfl
      have hrelease : Step (ordered = true) S { S with
          buffer := {f | f ∈ S.buffer ∧ f.1 ≠ k}, out := S.out ++ [(k, data)] } := by
        refine .release S (k, data) ?_ fun ho => ?_
        · rw [hc.buffer]
          exact ⟨s, rfl, hget⟩
        · rw [← hc.nextToDeliver s rfl ho]
          exact hnext (hord.trans ho)
      have hmid : RecvCoupled ordered (some (s.release k)) { S with
          buffer := {f | f ∈ S.buffer ∧ f.1 ≠ k}, out := S.out ++ [(k, data)] } := by
        refine ⟨?_, ?_, ?_, ?_, ?_, nofun⟩
        · show S.got = gotOf (some (s.release k))
          rw [hc.got]
          ext j
          constructor
          · rintro ⟨_, ⟨⟩, hj⟩
            exact ⟨_, rfl, (s.release_got k j).2 hj⟩
          · rintro ⟨_, ⟨⟩, hj⟩
            exact ⟨_, rfl, (s.release_got k j).1 hj⟩
        · show {f | f ∈ S.buffer ∧ f.1 ≠ k} = bufferOf (some (s.release k))
          rw [hc.buffer]
          ext ⟨j, bytes⟩
          constructor
          · rintro ⟨⟨_, ⟨⟩, hj⟩, hne⟩
            refine ⟨_, rfl, ?_⟩
            rw [RecvStream.release_buffer, SeqMap.get?_erase, if_neg hne]
            exact hj
          · rintro ⟨_, ⟨⟩, hj⟩
            rw [RecvStream.release_buffer, SeqMap.get?_erase] at hj
            split at hj
            · cases hj
            · next hne => exact ⟨⟨s, rfl, hj⟩, hne⟩
        · rintro _ ⟨⟩
          exact hc.nextExpected s rfl
        · rintro _ ⟨⟩
          exact hord
        · rintro _ ⟨⟩ ho
          show (if s.ordered then s.nextToDeliver + 1 else s.nextToDeliver) =
            (S.out ++ [(k, data)]).length + 1
          rw [if_pos (hord.trans ho), hc.nextToDeliver s rfl ho, List.length_append]
          rfl
      obtain ⟨T, hT, hsent, hpending, hdata, hacks, hout, hcT⟩ := ih hmid
      refine ⟨T, .head hrelease hT, hsent, hpending, hdata, hacks, ?_, hcT⟩
      rw [hout, List.append_assoc]
      rfl

/-- What reliable data does to its stream before the drain: nothing if it is a duplicate, and else
the channel accepts it. -/
theorem RecvStream.receive_refines {s : RecvStream} {v : ℕ} {bytes : Bytes}
    (hS : Inv (ordered = true) S) (hc : RecvCoupled ordered (some s) S)
    (hdata : (v, bytes) ∈ S.data) (hnear : Near s.nextExpected v) :
    ∃ T, ReflTransGen (Step (ordered = true)) S T ∧ T.sent = S.sent ∧ T.pending = S.pending ∧
      T.data = S.data ∧ T.acks = S.acks ∧ T.out = S.out ∧
      RecvCoupled ordered
        (some (s.receive (extend32 s.nextExpected (UInt32.ofNat v)) bytes)) T := by
  unfold RecvStream.receive
  split
  · exact ⟨S, .refl, rfl, rfl, rfl, rfl, rfl, hc⟩
  · next hdup =>
      have hfar : s.nextExpected ≤ extend32 s.nextExpected (UInt32.ofNat v) := by
        by_contra hlt
        exact hdup (by simp only [RecvStream.isDuplicate, Bool.or_eq_true,
          decide_eq_true_eq]; omega)
      -- a number that was taken for a smaller one would have been a duplicate
      have hv : extend32 s.nextExpected (UInt32.ofNat v) = v := by
        rcases extend32_near hnear with h | h
        · exact h
        · have := hnear.1
          omega
      rw [hv] at hdup hfar ⊢
      have hne : 1 ≤ s.nextExpected := hc.nextExpected s rfl
      have hpos : 1 ≤ v := Nat.le_trans hne hfar
      have hnew : v ∉ S.got := by
        rw [hc.got]
        rintro ⟨_, ⟨⟩, hgot⟩
        exact hdup ((RecvStream.isDuplicate_iff hpos).2 hgot)
      refine ⟨_, .single (.accept S (v, bytes) hdata hnew), rfl, rfl, rfl, rfl, rfl,
        ?_, ?_, ?_, ?_, ?_, by rintro ⟨⟩⟩
      · show insert v S.got = gotOf (some (s.accept v bytes))
        rw [hc.got]
        ext j
        constructor
        · rintro (rfl | ⟨_, ⟨⟩, hj⟩)
          · exact ⟨_, rfl, (RecvStream.accept_got bytes hne hpos j).2 (.inl rfl)⟩
          · exact ⟨_, rfl, (RecvStream.accept_got bytes hne hpos j).2 (.inr hj)⟩
        · rintro ⟨_, ⟨⟩, hj⟩
          rcases (RecvStream.accept_got bytes hne hpos j).1 hj with rfl | hj
          · exact .inl rfl
          · exact .inr ⟨s, rfl, hj⟩
      · show insert (v, bytes) S.buffer = bufferOf (some (s.accept v bytes))
        ext ⟨j, bytes'⟩
        constructor
        · rintro (heq | hj)
          · cases heq
            refine ⟨_, rfl, ?_⟩
            rw [RecvStream.accept_buffer, SeqMap.get?_set, if_pos rfl]
          · have hjv : j ≠ v := by
              rintro rfl
              exact hnew ((hS.got j).2 (.inl ⟨bytes', hj⟩))
            rw [hc.buffer] at hj
            obtain ⟨_, ⟨⟩, hj⟩ := hj
            refine ⟨_, rfl, ?_⟩
            rw [RecvStream.accept_buffer, SeqMap.get?_set, if_neg hjv]
            exact hj
        · rintro ⟨_, ⟨⟩, hj⟩
          rw [RecvStream.accept_buffer, SeqMap.get?_set] at hj
          split at hj
          · next hjv =>
              cases hj
              exact .inl (Prod.ext hjv rfl)
          · right
            rw [hc.buffer]
            exact ⟨s, rfl, hj⟩
      · rintro _ ⟨⟩
        exact Nat.le_trans hne (s.le_accept_nextExpected v bytes)
      · rintro _ ⟨⟩
        exact hc.isOrdered s rfl
      · rintro _ ⟨⟩ ho
        exact hc.nextToDeliver s rfl ho

/-- A step of the receiving end is a sequence of steps of the channel. -/
theorem RecvStep.refines {o o' : Option RecvStream} (hS : Inv (ordered = true) S)
    (hc : RecvCoupled ordered o S) (h : RecvStep cause key es o o') (hclear : ¬ Clears es key)
    (hdata : ∀ from_ m inc channel mode wire bytes, cause = .message from_ m inc →
      m.body = .data channel mode wire bytes → modeReliable mode = true →
      streamKey m.sender m.socket channel (modeOrdered mode) = key →
      modeOrdered mode = ordered ∧ ∃ v, (v, bytes) ∈ S.data ∧ wire = UInt32.ofNat v ∧
        Near ((o.map (·.nextExpected)).getD 1) v) :
    ∃ T, ReflTransGen (Step (ordered = true)) S T ∧ T.sent = S.sent ∧ T.pending = S.pending ∧
      T.data = S.data ∧ T.acks = S.acks ∧ T.out = S.out ++ enqueuedOn key es ∧
      RecvCoupled ordered o' T := by
  cases h with
  | keep hlog =>
      refine ⟨S, .refl, rfl, rfl, rfl, rfl, ?_, hc⟩
      rw [enqueuedOn_recvLog, hlog]
      exact (List.append_nil _).symm
  | clear _ hcl => exact absurd hcl hclear
  | drain hdeliv hlog =>
      rw [enqueuedOn_recvLog, hlog, enqueuedOn_drainLog]
      exact hdeliv.refines hc
  | @data _ t from_ m inc channel mode wire bytes moved s₀ hcause hm hmode hkey hs₀ hdeliv hlog =>
      obtain ⟨hord, v, hmem, rfl, hnear⟩ := hdata _ _ _ _ _ _ _ hcause hm hmode hkey
      -- the stream the datagram is processed against, which it may have created
      have hopen : RecvCoupled ordered (some s₀) S ∧ Near s₀.nextExpected v := by
        cases o with
        | none =>
            subst hs₀
            refine ⟨⟨?_, ?_, ?_, ?_, ?_, nofun⟩, hnear⟩
            · rw [hc.got]
              ext j
              constructor
              · rintro ⟨_, ⟨⟩, _⟩
              · rintro ⟨_, ⟨⟩, hj⟩
                obtain ⟨hpos, hlt | hrec⟩ := hj
                · exact absurd hlt (Nat.not_lt.2 hpos)
                · cases hrec
            · rw [hc.buffer]
              ext e
              constructor
              · rintro ⟨_, ⟨⟩, _⟩
              · rintro ⟨_, ⟨⟩, he⟩
                cases he
            · rintro _ ⟨⟩
              exact Nat.le_refl 1
            · rintro _ ⟨⟩
              exact hord
            · rintro _ ⟨⟩ _
              rw [hc.none rfl]
              rfl
        | some s =>
            have hfields : s₀.nextExpected = s.nextExpected ∧ s₀.received = s.received ∧
                s₀.buffer = s.buffer ∧ s₀.nextToDeliver = s.nextToDeliver ∧
                s₀.ordered = modeOrdered mode := by
              rw [hs₀]
              exact ⟨rfl, rfl, rfl, rfl, rfl⟩
            obtain ⟨h₁, h₂, h₃, h₄, h₅⟩ := hfields
            refine ⟨⟨?_, ?_, ?_, ?_, ?_, nofun⟩, by rw [h₁]; exact hnear⟩
            · rw [hc.got]
              simp only [gotOf, RecvStream.Got, Option.some.injEq, exists_eq_left', h₁, h₂]
            · rw [hc.buffer]
              simp only [bufferOf, Option.some.injEq, exists_eq_left', h₃]
            · rintro _ ⟨⟩
              rw [h₁]
              exact hc.nextExpected s rfl
            · rintro _ ⟨⟩
              rw [h₅, hord]
            · rintro _ ⟨⟩ ho
              rw [h₄]
              exact hc.nextToDeliver s rfl ho
      obtain ⟨T, hT, hsent, hpending, hTdata, hacks, hout, hcT⟩ :=
        RecvStream.receive_refines hS hopen.1 hmem hopen.2
      obtain ⟨U, hU, hsentU, hpendingU, hdataU, hacksU, houtU, hcU⟩ := hdeliv.refines hcT
      refine ⟨U, hT.trans hU, hsentU.trans hsent, hpendingU.trans hpending, hdataU.trans hTdata,
        hacksU.trans hacks, ?_, hcU⟩
      have hevent : enqueuedOn key [s₀.dataEvent key inc
          (extend32 s₀.nextExpected (UInt32.ofNat v)) bytes] = [] := by
        unfold RecvStream.dataEvent
        split <;> rfl
      rw [houtU, hout, enqueuedOn_recvLog, hlog, ← List.singleton_append, enqueuedOn_append,
        hevent, List.nil_append, enqueuedOn_drainLog]

end

/-! ## A stream of a world as a channel -/

/-- What node `i` recorded since the world was `w₀`. -/
def P2PWorld.since {ι : Type} (w₀ w : P2PWorld ι) (i : ι) : List Event :=
  (w.node i).log.drop (w₀.node i).log.length

section
variable {ι : Type} (cfg : P2PConfig ι) (st : Stream ι) (w₀ w : P2PWorld ι)

/-- The payloads `SendPacket` has queued on the stream, in order. -/
def Stream.queued : List Bytes := queuedOn (st.sendKey cfg) (w₀.since w st.sender)

/-- The packets enqueued to the receiver's inbox for the stream, number and payload, in order. -/
def Stream.enqueued : List (ℕ × Bytes) := enqueuedOn (st.recvKey cfg) (w₀.since w st.receiver)

/-- The sequence number is in the sender's `Pending`. -/
def Stream.Pending (k : ℕ) : Prop :=
  ∃ s u, w.sendStream cfg st = some s ∧ s.pending.get? k = some u

/-- The packet is in the receiver's `Buffer`. -/
def Stream.Buffered (k : ℕ) (data : Bytes) : Prop :=
  ∃ s, w.recvStream cfg st = some s ∧ s.buffer.get? k = some data

/-- Neither end of the stream exists, and nothing of it is in flight. -/
structure Stream.Fresh : Prop where
  send : w.sendStream cfg st = none
  recv : w.recvStream cfg st = none
  data : ∀ pkt ∈ w.net, ∀ pos bytes, ¬ st.IsData cfg pkt pos bytes
  acks : ∀ pkt ∈ w.net, ∀ pos sack, ¬ st.IsAck cfg pkt pos sack

/-- Since `w₀` no end of the stream was cleared by a close, an ignore or a timeout, and neither
node restarted. -/
structure Stream.NotReset : Prop where
  send : ¬ Clears (w₀.since w st.sender) (st.sendKey cfg)
  recv : ¬ Clears (w₀.since w st.receiver) (st.recvKey cfg)
  sender : .restarted ∉ w₀.since w st.sender
  receiver : .restarted ∉ w₀.since w st.receiver

/-- A delivered number of the stream is less than `2 ^ 31` away from the position it is extended
against: `NextExpected` of the receiver for data, `NextSeq` of the sender for an ack. -/
def Stream.near (action : WorldAction ι) : Prop :=
  ∀ i j now pkt, action = .deliver i j now → w.net[j]? = some pkt →
    (∀ pos bytes, st.IsData cfg pkt pos bytes →
      Near (((w.recvStream cfg st).map (·.nextExpected)).getD 1) pos.seq) ∧
    ∀ pos sack, st.IsAck cfg pkt pos sack →
      ∀ s, w.sendStream cfg st = some s → Near s.nextSeq pos.seq

/-- The stream as a state of the channel. -/
def Stream.view : Lib.Arq.State Bytes where
  sent := st.queued cfg w₀ w
  pending := unackedOf (w.sendStream cfg st)
  data := {e | ∃ pkt ∈ w.net, ∃ inc, st.IsData cfg pkt ⟨inc, e.1⟩ e.2}
  got := gotOf (w.recvStream cfg st)
  buffer := bufferOf (w.recvStream cfg st)
  out := st.enqueued cfg w₀ w
  acks := {g | ∃ pkt ∈ w.net, ∃ pos sack, st.IsAck cfg pkt pos sack ∧ g = coveredBy pos.seq sack}

/-- Both ends are those of the channel. -/
structure Stream.Coupled : Prop where
  send : SendCoupled (w.sendStream cfg st) (st.view cfg w₀ w)
  recv : RecvCoupled st.ordered (w.recvStream cfg st) (st.view cfg w₀ w)

variable {cfg st w₀ w}

/-- The receiving end couples to a channel state by three of its parts. -/
theorem RecvCoupled.congr {ordered : Bool} {o : Option RecvStream} {S T : Lib.Arq.State Bytes}
    (h : RecvCoupled ordered o S) (hgot : T.got = S.got) (hbuffer : T.buffer = S.buffer)
    (hout : T.out = S.out) : RecvCoupled ordered o T :=
  ⟨hgot.trans h.got, hbuffer.trans h.buffer, h.nextExpected, h.isOrdered,
    fun s hs ho => by rw [hout]; exact h.nextToDeliver s hs ho, fun ho => hout.trans (h.none ho)⟩

/-- The sending end couples to a channel state by two of its parts. -/
theorem SendCoupled.congr {o : Option SendStream} {S T : Lib.Arq.State Bytes}
    (h : SendCoupled o S) (hsent : T.sent = S.sent) (hpending : T.pending = S.pending) :
    SendCoupled o T :=
  ⟨hpending.trans h.pending, fun s hs => by rw [hsent]; exact h.nextSeq s hs,
    fun ho => hsent.trans (h.none ho)⟩

/-- A stream on which nothing has happened is a channel on which nothing has. -/
theorem Stream.Fresh.start (h : st.Fresh cfg w) :
    st.Coupled cfg w w ∧ Inv (st.ordered = true) (st.view cfg w w) := by
  have hqueued : st.queued cfg w w = [] := by
    rw [Stream.queued, P2PWorld.since, List.drop_length]
    rfl
  have henqueued : st.enqueued cfg w w = [] := by
    rw [Stream.enqueued, P2PWorld.since, List.drop_length]
    rfl
  have hnone : ∀ {s : SendStream}, w.sendStream cfg st ≠ some s := by
    rw [h.send]
    exact nofun
  have hnone' : ∀ {s : RecvStream}, w.recvStream cfg st ≠ some s := by
    rw [h.recv]
    exact nofun
  refine ⟨⟨⟨rfl, fun s hs => absurd hs hnone, fun _ => hqueued⟩,
    ⟨rfl, rfl, fun s hs => absurd hs hnone', fun s hs => absurd hs hnone',
      fun s hs => absurd hs hnone', fun _ => henqueued⟩⟩, Lib.Arq.inv_start ?_⟩
  refine ⟨hqueued, ?_, ?_, ?_, ?_, henqueued, ?_⟩ <;> refine Set.eq_empty_of_forall_notMem ?_
  · rintro e ⟨s, u, hs, _⟩
    exact hnone hs
  · rintro e ⟨pkt, hpkt, inc, hdata⟩
    exact h.data pkt hpkt _ _ hdata
  · rintro k ⟨s, hs, _⟩
    exact hnone' hs
  · rintro e ⟨s, hs, _⟩
    exact hnone' hs
  · rintro g ⟨pkt, hpkt, pos, sack, hack, _⟩
    exact h.acks pkt hpkt pos sack hack

/-- A queued packet that is not pending has been enqueued or is buffered. -/
theorem Stream.delivered (hS : Inv (st.ordered = true) (st.view cfg w₀ w)) {k : ℕ} {data : Bytes}
    (hk : (st.queued cfg w₀ w)[k]? = some data) (hpend : ¬ st.Pending cfg w (k + 1)) :
    (k + 1, data) ∈ st.enqueued cfg w₀ w ∨ st.Buffered cfg w (k + 1) data := by
  have hentry : (st.view cfg w₀ w).Entry (k + 1, data) := ⟨Nat.succ_pos k, hk⟩
  refine hS.delivered hentry fun hmem => hpend ?_
  obtain ⟨s, u, hs, hu, _⟩ := hmem
  exact ⟨s, u, hs, hu⟩

/-- A log that grew by some events did so since `w₀`, too. -/
theorem since_append {u v : P2PWorld ι} {i : ι} {es : List Event}
    (hlog : ∃ fs, (u.node i).log = (w₀.node i).log ++ fs)
    (hes : (v.node i).log = (u.node i).log ++ es) : w₀.since v i = w₀.since u i ++ es := by
  obtain ⟨fs, hfs⟩ := hlog
  rw [P2PWorld.since, P2PWorld.since, hes, hfs, List.append_assoc, List.drop_left, List.drop_left]

/-- What was not cleared in the end was not cleared on the way. -/
theorem not_clears_append {key : Bytes} {es fs : List Event} (h : ¬ Clears (es ++ fs) key) :
    ¬ Clears es key ∧ ¬ Clears fs key := by
  refine ⟨?_, ?_⟩ <;> rintro ⟨peer, socket, hmem, hpre⟩ <;> refine h ⟨peer, socket, ?_, hpre⟩
  · exact List.mem_append_left _ hmem
  · exact List.mem_append_right _ hmem

end

section
variable {ι : Type} [DecidableEq ι] {cfg : P2PConfig ι} {st : Stream ι} {w₀ u v w : P2PWorld ι}
  {action : WorldAction ι}

/-- A step of the world is a sequence of steps of the channel. -/
theorem worldStep_refines (hu : u.Honest cfg)
    (hlog : ∀ i, ∃ es, (u.node i).log = (w₀.node i).log ++ es)
    (h : worldStep cfg u action = some v) (hnear : st.near cfg u action)
    (hreset : st.NotReset cfg w₀ v) (hS : Inv (st.ordered = true) (st.view cfg w₀ u))
    (hc : st.Coupled cfg w₀ u) :
    ReflTransGen (Step (st.ordered = true)) (st.view cfg w₀ u) (st.view cfg w₀ v) ∧
      st.Coupled cfg w₀ v := by
  obtain ⟨es, hes, hsender⟩ := worldStep_sender hu h st
  obtain ⟨fs, hfs, hreceiver⟩ := worldStep_receiver h st
  have hsinceS := since_append (hlog st.sender) hes
  have hsinceR := since_append (hlog st.receiver) hfs
  obtain ⟨hclearS, hclearR, hrestS, hrestR⟩ := hreset
  rw [hsinceS] at hclearS hrestS
  rw [hsinceR] at hclearR hrestR
  rcases hsender with ⟨cause, hsend, harrS⟩ | ⟨rfl, _⟩
  swap
  · exact absurd (List.mem_append_right _ (List.mem_singleton_self _)) hrestS
  rcases hreceiver with ⟨cause', hrecv, harrR⟩ | ⟨rfl, _⟩
  swap
  · exact absurd (List.mem_append_right _ (List.mem_singleton_self _)) hrestR
  -- what is pending before the step may be transmitted in it
  have hfirst : Step (st.ordered = true) (st.view cfg w₀ u) { st.view cfg w₀ u with
      data := (st.view cfg w₀ u).data ∪ (st.view cfg w₀ u).pending
      acks := (st.view cfg w₀ u).acks } :=
    .channel _ _ _ Set.Subset.rfl fun g hg => .inl hg
  obtain ⟨T, hT, hTsent, hTdata, hTgot, hTbuffer, hTout, hTacks, hTc⟩ :=
    SendStep.refines (hS.step hfirst) (hc.send.congr rfl rfl)
      (fun s k x hs hx => (hu.node st.sender).pending_lt hs hx) hsend
      (not_clears_append hclearS).2 (by
        intro from_ m inc channel orderedByte wire sack hcause hm hkey
        obtain ⟨j, now, pkt, pos, haction, hpkt, hack, hwire⟩ := harrS.ack hu hcause hm hkey
        exact ⟨pos.seq, ⟨pkt, List.mem_of_getElem? hpkt, pos, sack, hack, rfl⟩, hwire,
          (hnear _ j now pkt haction hpkt).2 pos sack hack⟩)
  have hTinv : Inv (st.ordered = true) T := (hS.step hfirst).steps hT
  obtain ⟨U, hU, hUsent, hUpending, hUdata, hUacks, hUout, hUc⟩ :=
    RecvStep.refines hTinv (hc.recv.congr hTgot hTbuffer hTout) hrecv
      (not_clears_append hclearR).2 (by
        intro from_ m inc channel mode wire bytes hcause hm hmode hkey
        obtain ⟨hord, j, now, pkt, pos, haction, hpkt, hdata, hwire, _⟩ :=
          harrR.data hu hcause hm hmode hkey
        refine ⟨hord, pos.seq, ?_, hwire, (hnear _ j now pkt haction hpkt).1 pos bytes hdata⟩
        rw [hTdata]
        exact .inl ⟨pkt, List.mem_of_getElem? hpkt, pos.inc, hdata⟩)
  have hpendingU : U.pending = unackedOf (v.sendStream cfg st) := hUpending.trans hTc.pending
  have hsentU : U.sent = st.queued cfg w₀ v := by
    rw [hUsent, hTsent, Stream.queued, hsinceS, queuedOn_append]
    rfl
  have houtU : U.out = st.enqueued cfg w₀ v := by
    rw [hUout, hTout, Stream.enqueued, hsinceR, enqueuedOn_append]
    rfl
  have hlast : Step (st.ordered = true) U (st.view cfg w₀ v) := by
    have hview : st.view cfg w₀ v = { U with
        data := (st.view cfg w₀ v).data, acks := (st.view cfg w₀ v).acks } :=
      Lib.Arq.State.ext hsentU.symm hpendingU.symm rfl hUc.got.symm hUc.buffer.symm houtU.symm rfl
    rw [hview]
    refine .channel U _ _ ?_ ?_
    · rintro ⟨k, bytes⟩ ⟨pkt, hpkt, inc, hdata⟩
      rcases worldStep_data hu h hpkt hdata with hold | ⟨s, x, hs, hx, hpay⟩
      · left
        rw [hUdata, hTdata]
        exact .inl ⟨pkt, hold, inc, hdata⟩
      · obtain ⟨_, _, _, mode, _, _, hbody⟩ := hdata
        have hbytes : x.payload.bytes? = some bytes := by
          rw [hpay, Datagram.bytes?, hbody]
        rcases hs with hs | hs
        · left
          rw [hUdata, hTdata]
          exact .inr ⟨s, x, hs, hx, hbytes⟩
        · right
          rw [hpendingU]
          exact ⟨s, x, hs, hx, hbytes⟩
    · rintro g ⟨pkt, hpkt, pos, sack, hack, rfl⟩
      rcases worldStep_ack hu h hpkt hack with hold | ⟨r, hr, rfl, rfl⟩
      · left
        rw [hUacks]
        exact hTacks ⟨pkt, hold, pos, sack, hack, rfl⟩
      · right
        rintro k ⟨hk, hcov⟩
        rw [hUc.got]
        exact ⟨r, hr, RecvStream.got_of_covers (hUc.nextExpected r hr) hk hcov⟩
  refine ⟨.tail (.trans (.head hfirst hT) hU) hlast, ?_, ?_⟩
  · exact hTc.congr (hsentU.symm.trans hUsent) (hpendingU.symm.trans hUpending)
  · exact hUc.congr hUc.got.symm hUc.buffer.symm houtU.symm

/-- Along a run the stream stays a channel. -/
theorem Stream.channel_of_run (hreach : Run (worldStep cfg) Always (P2PWorld.start cfg) w₀)
    (hfresh : st.Fresh cfg w₀) (hrun : Run (worldStep cfg) (st.near cfg) w₀ w)
    (hreset : st.NotReset cfg w₀ w) :
    st.Coupled cfg w₀ w ∧ Inv (st.ordered = true) (st.view cfg w₀ w) := by
  revert hreset
  refine hrun.invariant' (P := fun u : P2PWorld ι => st.NotReset cfg w₀ u →
    st.Coupled cfg w₀ u ∧ Inv (st.ordered = true) (st.view cfg w₀ u)) (fun _ => hfresh.start) ?_
  intro u v action hu ih hnear hstep hreset
  have hhonest : u.Honest cfg := honest_of_run (hreach.trans (hu.mono fun _ _ _ => trivial))
  have hlog := run_log hu
  have hmid : st.NotReset cfg w₀ u := by
    obtain ⟨es, hes⟩ := worldStep_log hstep st.sender
    obtain ⟨fs, hfs⟩ := worldStep_log hstep st.receiver
    obtain ⟨hclearS, hclearR, hrestS, hrestR⟩ := hreset
    rw [since_append (hlog st.sender) hes] at hclearS hrestS
    rw [since_append (hlog st.receiver) hfs] at hclearR hrestR
    exact ⟨(not_clears_append hclearS).1, (not_clears_append hclearR).1,
      fun h => hrestS (List.mem_append_left _ h), fun h => hrestR (List.mem_append_left _ h)⟩
  obtain ⟨hc, hS⟩ := ih hmid
  obtain ⟨hsteps, hc'⟩ := worldStep_refines hhonest hlog hstep hnear hreset hS hc
  exact ⟨hc', hS.steps hsteps⟩

/-- **ReliableOrdered delivery.** From a world in which the stream is fresh, along any run that
keeps its numbers near their watermarks and does not reset it: the payloads enqueued to the
receiver's inbox are a prefix of those `SendPacket` queued, each once and in order, and a number
that has left `Pending` (the numbers used are `1` to `NextSeq - 1`) has been enqueued with its
payload or is in `Buffer`. -/
theorem ordered_delivery (hreach : Run (worldStep cfg) Always (P2PWorld.start cfg) w₀)
    (hfresh : st.Fresh cfg w₀) (hrun : Run (worldStep cfg) (st.near cfg) w₀ w)
    (hreset : st.NotReset cfg w₀ w) (hord : st.ordered = true) :
    (st.enqueued cfg w₀ w).map Prod.snd <+: st.queued cfg w₀ w ∧
    (st.enqueued cfg w₀ w).map Prod.fst = List.range' 1 (st.enqueued cfg w₀ w).length ∧
    (∀ s, w.sendStream cfg st = some s → s.nextSeq = (st.queued cfg w₀ w).length + 1) ∧
    ∀ k data, (st.queued cfg w₀ w)[k]? = some data → ¬ st.Pending cfg w (k + 1) →
      (k + 1, data) ∈ st.enqueued cfg w₀ w ∨ st.Buffered cfg w (k + 1) data := by
  obtain ⟨hc, hS⟩ := Stream.channel_of_run hreach hfresh hrun hreset
  refine ⟨?_, hS.consecutive hord, hc.send.nextSeq, fun k data hk => Stream.delivered hS hk⟩
  have htake : (st.enqueued cfg w₀ w).map Prod.snd =
      (st.queued cfg w₀ w).take (st.enqueued cfg w₀ w).length := hS.prefix_of_ordered hord
  rw [htake]
  exact List.take_prefix _ _

/-- **ReliableUnordered delivery**, which holds of either kind of stream: no number is enqueued
twice, and each with the payload it was queued with; a number that has left `Pending` has been
enqueued or is in `Buffer`; and the numbers received are the disjoint union of those enqueued and
the keys of `Buffer`. -/
theorem unordered_delivery (hreach : Run (worldStep cfg) Always (P2PWorld.start cfg) w₀)
    (hfresh : st.Fresh cfg w₀) (hrun : Run (worldStep cfg) (st.near cfg) w₀ w)
    (hreset : st.NotReset cfg w₀ w) :
    ((st.enqueued cfg w₀ w).map Prod.fst).Nodup ∧
    (∀ e ∈ st.enqueued cfg w₀ w, 1 ≤ e.1 ∧ (st.queued cfg w₀ w)[e.1 - 1]? = some e.2) ∧
    (∀ s, w.sendStream cfg st = some s → s.nextSeq = (st.queued cfg w₀ w).length + 1) ∧
    (∀ k data, (st.queued cfg w₀ w)[k]? = some data → ¬ st.Pending cfg w (k + 1) →
      (k + 1, data) ∈ st.enqueued cfg w₀ w ∨ st.Buffered cfg w (k + 1) data) ∧
    ∀ r, w.recvStream cfg st = some r → ∀ k,
      r.Got k ↔ Xor (k ∈ (st.enqueued cfg w₀ w).map Prod.fst) (r.buffer.contains k = true) := by
  obtain ⟨hc, hS⟩ := Stream.channel_of_run hreach hfresh hrun hreset
  refine ⟨hS.nodup, hS.out, hc.send.nextSeq, fun k data hk => Stream.delivered hS hk, ?_⟩
  intro r hr k
  have hgot : r.Got k ↔ k ∈ (st.view cfg w₀ w).got := by
    constructor
    · intro h
      exact ⟨r, hr, h⟩
    · rintro ⟨r', hr', h⟩
      rw [hr] at hr'
      cases hr'
      exact h
  have hbuf : r.buffer.contains k = true ↔ ∃ data, (k, data) ∈ (st.view cfg w₀ w).buffer := by
    rw [SeqMap.contains_iff]
    constructor
    · rintro ⟨data, h⟩
      exact ⟨data, r, hr, h⟩
    · rintro ⟨data, r', hr', h⟩
      rw [hr] at hr'
      cases hr'
      exact ⟨data, h⟩
  rw [hgot, hS.got k, hbuf]
  constructor
  · rintro (⟨data, hb⟩ | hout)
    · exact .inr ⟨⟨data, hb⟩, hS.disjoint _ hb⟩
    · exact .inl ⟨hout, fun ⟨data, hb⟩ => hS.disjoint _ hb hout⟩
  · rintro (⟨hout, _⟩ | ⟨hb, _⟩)
    · exact .inr hout
    · exact .inl hb

end

/-! ## Sample exchanges -/

/-- Two nodes, `a` and `b`. -/
def sampleConfig : P2PConfig Bool where
  pid i := if i then str "b" else str "a"
  endpoint i := ⟨if i then 2 else 1, 7777⟩
  pid_inj := by
    rintro (_ | _) (_ | _) h
    · rfl
    · exact absurd h (by decide)
    · exact absurd h (by decide)
    · rfl
  endpoint_inj := by
    rintro (_ | _) (_ | _) h
    · rfl
    · exact absurd h (by decide)
    · exact absurd h (by decide)
    · rfl
  pid_noNul := by decide

/-- A reliable packet for `b`. -/
def sampleSend (r : EPacketReliability) (data : String) : WorldAction Bool :=
  .call false (.sendPacket (some
    { apiVersion := 3, remoteUserId := str "b", socketId := some (str "CHAT"), channel := 0
      data := .bytes (str data), reliability := r }))

/-- `a` sends two packets. The second arrives first, then the first, which arrives twice, and the
last of the three acks reaches `a`. -/
def sampleExchange (r : EPacketReliability) : List (WorldAction Bool) :=
  [.hello false true, sampleSend r "hi", .call false (.sendPacketQueue 0 0),
    sampleSend r "yo", .call false (.sendPacketQueue 0 0),
    .deliver true 2 0, .deliver true 1 0, .deliver true 1 0, .deliver false 5 0]

/-- The stream of that exchange. -/
def sampleStream (ordered : Bool) : Stream Bool := ⟨false, true, str "CHAT", 0, ordered⟩

/-- The numbers of a delivered packet are near, whatever stream it is of. -/
def nearTest (st : Stream Bool) (w : P2PWorld Bool) : WorldAction Bool → Bool
  | .deliver _ j _ =>
      match w.net[j]? with
      | none => true
      | some pkt =>
          match pkt.datagram.body with
          | .data _ _ pos _ =>
              decide (Near (((w.recvStream sampleConfig st).map (·.nextExpected)).getD 1) pos.seq)
          | .ack _ _ pos _ =>
              match w.sendStream sampleConfig st with
              | none => true
              | some s => decide (Near s.nextSeq pos.seq)
          | _ => true
  | _ => true

/-- A step that passes the test keeps both ends of the stream near. -/
theorem near_of_nearTest (st : Stream Bool) (w : P2PWorld Bool) (action : WorldAction Bool)
    (h : nearTest st w action = true) : st.near sampleConfig w action := by
  rintro i j now pkt rfl hpkt
  simp only [nearTest, hpkt] at h
  refine ⟨fun pos bytes hdata => ?_, fun pos sack hack s hs => ?_⟩
  · obtain ⟨_, _, _, mode, _, _, hbody⟩ := hdata
    simp only [hbody, decide_eq_true_eq] at h
    exact h
  · obtain ⟨_, _, _, orderedByte, _, hbody⟩ := hack
    simp only [hbody, hs] at h
    exact of_decide_eq_true h

/-- The event neither clears a stream nor restarts the node. -/
def Event.harmless : Event → Bool
  | .cleared .. | .restarted => false
  | _ => true

/-- Where nothing harmful was recorded, no stream was reset. -/
theorem notReset_of_harmless {st : Stream Bool} {w : P2PWorld Bool}
    (h : ∀ i, (w.node i).log.all Event.harmless = true) :
    st.NotReset sampleConfig (P2PWorld.start sampleConfig) w := by
  have hsince : ∀ i, (P2PWorld.start sampleConfig).since w i = (w.node i).log := fun _ => rfl
  have hmem : ∀ i e, e ∈ (w.node i).log → e.harmless = true := fun i =>
    List.all_eq_true.1 (h i)
  refine ⟨?_, ?_, ?_, ?_⟩
  · rw [hsince]
    exact not_clears fun peer socket he => nomatch hmem _ _ he
  · rw [hsince]
    exact not_clears fun peer socket he => nomatch hmem _ _ he
  · rw [hsince]
    exact fun he => nomatch hmem _ _ he
  · rw [hsince]
    exact fun he => nomatch hmem _ _ he

/-- At the start every stream is fresh. -/
theorem fresh_start (st : Stream Bool) : st.Fresh sampleConfig (P2PWorld.start sampleConfig) :=
  ⟨rfl, rfl, nofun, nofun⟩

/-- What the exchange leaves: the payloads queued, the packets enqueued, whether anything is
pending, and that nothing was reset. -/
def sampleOutcome (st : Stream Bool) (w : P2PWorld Bool) :
    List Bytes × List (ℕ × Bytes) × Option Bool × Bool :=
  (st.queued sampleConfig (P2PWorld.start sampleConfig) w,
    st.enqueued sampleConfig (P2PWorld.start sampleConfig) w,
    (w.sendStream sampleConfig st).map (·.pending.isEmpty),
    [false, true].all fun i => (w.node i).log.all Event.harmless)

/-- The ordered exchange: the second packet waits for the first. -/
theorem ordered_delivery_sample : ∃ w,
    Run (worldStep sampleConfig) ((sampleStream true).near sampleConfig)
      (P2PWorld.start sampleConfig) w ∧
    (sampleStream true).enqueued sampleConfig (P2PWorld.start sampleConfig) w =
      [(1, str "hi"), (2, str "yo")] ∧
    ((sampleStream true).enqueued sampleConfig (P2PWorld.start sampleConfig) w).map Prod.snd <+:
      (sampleStream true).queued sampleConfig (P2PWorld.start sampleConfig) w := by
  have hrun : (execIf (worldStep sampleConfig) (nearTest (sampleStream true))
      (P2PWorld.start sampleConfig) (sampleExchange .reliableOrdered)).map
        (sampleOutcome (sampleStream true)) =
      some ([str "hi", str "yo"], [(1, str "hi"), (2, str "yo")], some true, true) := by
    decide +kernel
  obtain ⟨w, hw, hout⟩ := Option.map_eq_some_iff.1 hrun
  obtain ⟨_, hrest⟩ := Prod.ext_iff.1 hout
  obtain ⟨henq, hrest⟩ := Prod.ext_iff.1 hrest
  have hharm := List.all_eq_true.1 (Prod.ext_iff.1 hrest).2
  have hrun : Run (worldStep sampleConfig) ((sampleStream true).near sampleConfig) _ w :=
    Run.of_execIf (near_of_nearTest (sampleStream true)) hw
  exact ⟨w, hrun, henq, (ordered_delivery .refl (fresh_start _) hrun
    (notReset_of_harmless fun i => hharm i (by cases i <;> simp)) rfl).1⟩

/-- The unordered exchange: the packets are enqueued as they arrive, the duplicate is not. -/
theorem unordered_delivery_sample : ∃ w,
    Run (worldStep sampleConfig) ((sampleStream false).near sampleConfig)
      (P2PWorld.start sampleConfig) w ∧
    (sampleStream false).enqueued sampleConfig (P2PWorld.start sampleConfig) w =
      [(2, str "yo"), (1, str "hi")] ∧
    (((sampleStream false).enqueued sampleConfig (P2PWorld.start sampleConfig) w).map
      Prod.fst).Nodup := by
  have hrun : (execIf (worldStep sampleConfig) (nearTest (sampleStream false))
      (P2PWorld.start sampleConfig) (sampleExchange .reliableUnordered)).map
        (sampleOutcome (sampleStream false)) =
      some ([str "hi", str "yo"], [(2, str "yo"), (1, str "hi")], some true, true) := by
    decide +kernel
  obtain ⟨w, hw, hout⟩ := Option.map_eq_some_iff.1 hrun
  obtain ⟨_, hrest⟩ := Prod.ext_iff.1 hout
  obtain ⟨henq, hrest⟩ := Prod.ext_iff.1 hrest
  have hharm := List.all_eq_true.1 (Prod.ext_iff.1 hrest).2
  have hrun : Run (worldStep sampleConfig) ((sampleStream false).near sampleConfig) _ w :=
    Run.of_execIf (near_of_nearTest (sampleStream false)) hw
  exact ⟨w, hrun, henq, (unordered_delivery .refl (fresh_start _) hrun
    (notReset_of_harmless fun i => hharm i (by cases i <;> simp))).1⟩

end EOSEmu
