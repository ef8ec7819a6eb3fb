import EOSEmu.P2P.Node

/-!
# What a step can do to a stream

Every property of the streams is proved from these lemmas, never by unfolding a handler. A step has
a `Cause`: a waiting `SendPacket` going on, a datagram, or anything else. `SendStep` lists what can
become of the send stream of one key and which events tell of it, `RecvStep` the same for a receive
stream, and `Sent` where a datagram handed to the transport can come from. `step_steps` and
`receive_steps` say that the steps of a node do nothing else.
-/

namespace EOSEmu

open Lib (Dict SeqMap)

/-! ## The events of a stream -/

/-- The send stream an event tells of. -/
def Event.sendKey : Event → Option Bytes
  | .queued key .. | .acked key .. => some key
  | _ => none

/-- The receive stream an event tells of. -/
def Event.recvKey : Event → Option Bytes
  | .accepted key .. | .duplicate key .. | .enqueued key .. => some key
  | _ => none

/-- The events of one send stream. -/
def sendLog (key : Bytes) (es : List Event) : List Event :=
  es.filter fun e => e.sendKey = some key

/-- The events of one receive stream. -/
def recvLog (key : Bytes) (es : List Event) : List Event :=
  es.filter fun e => e.recvKey = some key

@[simp] theorem sendLog_append (key : Bytes) (es fs : List Event) :
    sendLog key (es ++ fs) = sendLog key es ++ sendLog key fs := List.filter_append ..

@[simp] theorem recvLog_append (key : Bytes) (es fs : List Event) :
    recvLog key (es ++ fs) = recvLog key es ++ recvLog key fs := List.filter_append ..

/-- Events that tell of no stream. -/
def Quiet (es : List Event) : Prop := ∀ e ∈ es, e.sendKey = none ∧ e.recvKey = none

/-- Quiet events leave every sending stream's history as it is. -/
theorem Quiet.sendLog {es : List Event} (h : Quiet es) (key : Bytes) : sendLog key es = [] :=
  List.filter_eq_nil_iff.2 fun e he => by simp [(h e he).1]

/-- Quiet events leave every receiving stream's history as it is. -/
theorem Quiet.recvLog {es : List Event} (h : Quiet es) (key : Bytes) : recvLog key es = [] :=
  List.filter_eq_nil_iff.2 fun e he => by simp [(h e he).2]

/-- No events are quiet. -/
theorem Quiet.nil : Quiet [] := fun _ h => nomatch h

/-- Quiet events after quiet events are quiet. -/
theorem Quiet.append {es fs : List Event} (h₁ : Quiet es) (h₂ : Quiet fs) : Quiet (es ++ fs) :=
  fun e he => (List.mem_append.1 he).elim (h₁ e) (h₂ e)

/-- What is cleared is told of connections, not of streams. -/
theorem Quiet.cleared (l : List (ProductUserId × Bytes)) :
    Quiet (l.map fun c => .cleared c.1 c.2) := by
  intro e he
  obtain ⟨c, _, rfl⟩ := List.mem_map.1 he
  exact ⟨rfl, rfl⟩

/-- The records of a drain tell of its own receive stream. -/
theorem recvLog_drainLog (key key' : Bytes) (inc : ℕ) (moved : List (ℕ × Bytes)) :
    recvLog key (P2P.drainLog key' inc moved) =
      if key' = key then P2P.drainLog key inc moved else [] := by
  split
  · next h =>
      subst h
      refine List.filter_eq_self.2 fun e he => ?_
      obtain ⟨x, _, rfl⟩ := List.mem_map.1 he
      simp [Event.recvKey]
  · next h =>
      refine List.filter_eq_nil_iff.2 fun e he => ?_
      obtain ⟨x, _, rfl⟩ := List.mem_map.1 he
      simpa [Event.recvKey] using h

/-- The records of a drain tell of no send stream. -/
theorem sendLog_drainLog (key key' : Bytes) (inc : ℕ) (moved : List (ℕ × Bytes)) :
    sendLog key (P2P.drainLog key' inc moved) = [] := by
  refine List.filter_eq_nil_iff.2 fun e he => ?_
  obtain ⟨x, _, rfl⟩ := List.mem_map.1 he
  simp [Event.sendKey]

/-! ## Causes and effects -/

/-- What makes a step happen, as far as streams are concerned. -/
inductive Cause where
  | queue (c : SendCall) (now : TimePoint)
  | message (from_ : Endpoint) (m : Datagram UInt32) (inc : ℕ)
  | other

/-- `ClearStreams` ran on a prefix of the key. -/
def Clears (es : List Event) (key : Bytes) : Prop :=
  ∃ peer socket, .cleared peer socket ∈ es ∧ (streamPrefix peer socket).isPrefixOf key = true

/-- What a step can do to the send stream of a key, with the step's events. -/
inductive SendStep (localPid : ProductUserId) (cause : Cause) (key : Bytes) (es : List Event) :
    Option SendStream → Option SendStream → Prop
  | keep {s t : Option SendStream} :
      sendLog key es = [] → Option.Rel Resent s t → SendStep localPid cause key es s t
  | clear {s : Option SendStream} :
      sendLog key es = [] → Clears es key → SendStep localPid cause key es s none
  | queue {s : Option SendStream} {c : SendCall} {now : TimePoint} (t : SendStream) :
      cause = .queue c now → c.options.mode.isReliable = true → c.options.key = key →
      (s = some t ∨ s = none ∧ t.nextSeq = 1 ∧ t.pending = .empty) →
      sendLog key es = [.queued key ⟨t.inc, t.nextSeq⟩ c.options.data.data] →
      SendStep localPid cause key es s (some (t.queue localPid c now))
  | ack {s : SendStream} {from_ : Endpoint} {m : Datagram UInt32} {inc : ℕ} {now : TimePoint}
      {channel orderedByte : UInt8} {wire sack : UInt32} :
      cause = .message from_ m inc → m.body = .ack channel orderedByte wire sack →
      streamKey m.sender m.socket channel (orderedByte ≠ 0) = key →
      sendLog key es = ((s.ackedBy (extend32 s.nextSeq wire) sack).map
        fun k => .acked key ⟨s.inc, k⟩ (extend32 s.nextSeq wire) sack) →
      SendStep localPid cause key es (some s)
        (some (s.processAck (extend32 s.nextSeq wire) sack now))

/-- What a step can do to the receive stream of a key, with the step's events. -/
inductive RecvStep (cause : Cause) (key : Bytes) (es : List Event) :
    Option RecvStream → Option RecvStream → Prop
  | keep {s : Option RecvStream} : recvLog key es = [] → RecvStep cause key es s s
  | clear {s : Option RecvStream} :
      (∀ e ∈ recvLog key es, ∃ pos data, e = .enqueued key pos data) → Clears es key →
      RecvStep cause key es s none
  | drain {s t : RecvStream} {moved : List (ℕ × Bytes)} :
      Delivers s moved t → recvLog key es = P2P.drainLog key s.inc moved →
      RecvStep cause key es (some s) (some t)
  | data {s : Option RecvStream} {t : RecvStream} {from_ : Endpoint} {m : Datagram UInt32}
      {inc : ℕ} {channel mode : UInt8} {wire : UInt32} {bytes : Bytes}
      {moved : List (ℕ × Bytes)} (s₀ : RecvStream) :
      cause = .message from_ m inc → m.body = .data channel mode wire bytes →
        modeReliable mode = true →
      streamKey m.sender m.socket channel (modeOrdered mode) = key →
      s₀ = { s.getD { inc } with
        peer := m.sender, socket := m.socket, channel, ordered := modeOrdered mode } →
      Delivers (s₀.receive (extend32 s₀.nextExpected wire) bytes) moved t →
      recvLog key es = s₀.dataEvent key inc (extend32 s₀.nextExpected wire) bytes ::
        P2P.drainLog key s₀.inc moved →
      RecvStep cause key es s (some t)

/-- Where a datagram that a step hands to the transport can come from. -/
inductive Sent (localPid : ProductUserId) (cause : Cause) (p q : P2P) :
    Endpoint × Datagram Pos → Prop
  | control {e : Endpoint} {socket : Bytes} {body : Body Pos} :
      (∀ channel mode pos bytes, body ≠ .data channel mode pos bytes) →
      (∀ channel orderedByte pos sack, body ≠ .ack channel orderedByte pos sack) →
      Sent localPid cause p q (e, ⟨localPid, socket, body⟩)
  | unreliable {c : SendCall} {now : TimePoint} {pos : Pos} :
      cause = .queue c now → c.options.mode.isReliable = false →
      Sent localPid cause p q (c.endpoint, c.options.datagram localPid pos)
  | packet {key : Bytes} {s : SendStream} {k : ℕ} {u : Unacked} :
      (p.sendStreams.get? key = some s ∨ q.sendStreams.get? key = some s) →
      s.pending.get? k = some u → Sent localPid cause p q (u.toEndpoint, u.payload)
  | ack {from_ : Endpoint} {m : Datagram UInt32} {inc : ℕ} {s : RecvStream}
      {channel mode : UInt8} {wire : UInt32} {bytes : Bytes} :
      cause = .message from_ m inc → m.body = .data channel mode wire bytes →
        modeReliable mode = true →
      q.recvStreams.get? (streamKey m.sender m.socket channel (modeOrdered mode)) = some s →
      Sent localPid cause p q (from_, ⟨localPid, m.socket,
        .ack channel (if modeOrdered mode then 1 else 0) ⟨s.inc, s.ackSeq⟩ s.sack⟩)

/-- What a step does to all streams of an interface, with its events and datagrams. -/
structure StreamStep (localPid : ProductUserId) (cause : Cause) (es : List Event)
    (ds : List (Endpoint × Datagram Pos)) (p q : P2P) : Prop where
  send : ∀ key, SendStep localPid cause key es (p.sendStreams.get? key) (q.sendStreams.get? key)
  recv : ∀ key, RecvStep cause key es (p.recvStreams.get? key) (q.recvStreams.get? key)
  cleared : ∀ key, Clears es key → q.sendStreams.get? key = none ∧ q.recvStreams.get? key = none
  incs : p.incs ≤ q.incs
  fresh : ∀ key t, p.sendStreams.get? key = none → q.sendStreams.get? key = some t →
    t.inc = p.incs ∧ p.incs < q.incs
  sent : ∀ d ∈ ds, Sent localPid cause p q d

/-! ## What the steps of a send stream give -/

section
variable {localPid : ProductUserId} {cause : Cause} {key : Bytes} {es : List Event}
  {s t : SendStream} {o o' : Option SendStream}

/-- An event of a send stream is in its log. -/
theorem mem_sendLog {e : Event} (he : e ∈ es) (hkey : e.sendKey = some key) :
    e ∈ sendLog key es :=
  List.mem_filter.2 ⟨he, by simpa using hkey⟩

/-- An event of a receive stream is in its log. -/
theorem mem_recvLog {e : Event} (he : e ∈ es) (hkey : e.recvKey = some key) :
    e ∈ recvLog key es :=
  List.mem_filter.2 ⟨he, by simpa using hkey⟩

/-- A stream that stays keeps its number, and `NextSeq` only grows. -/
theorem SendStep.grows (h : SendStep localPid cause key es (some s) (some t)) :
    t.inc = s.inc ∧ s.nextSeq ≤ t.nextSeq := by
  cases h with
  | keep _ hrel =>
      cases hrel with
      | some hres =>
          rw [hres.frame]
          exact ⟨rfl, Nat.le_refl _⟩
  | queue t₀ _ _ _ hold _ =>
      rcases hold with hold | ⟨hnone, _⟩
      · cases hold
        exact ⟨rfl, Nat.le_succ _⟩
      · cases hnone
  | ack _ _ _ _ =>
      rw [SendStream.processAck_frame]
      exact ⟨rfl, Nat.le_refl _⟩

/-- What is pending after a step was pending before it, or is the packet of the call that went
on. -/
theorem SendStep.pending (h : SendStep localPid cause key es o (some t)) {k : ℕ} {u : Unacked}
    (hu : t.pending.get? k = some u) :
    (∃ s v, o = some s ∧ s.pending.get? k = some v ∧ u.payload = v.payload ∧
      u.toEndpoint = v.toEndpoint) ∨
    ∃ c now, cause = .queue c now ∧ c.options.mode.isReliable = true ∧ c.options.key = key ∧
      u.payload = c.options.datagram localPid ⟨t.inc, k⟩ ∧ u.toEndpoint = c.endpoint ∧
      .queued key ⟨t.inc, k⟩ c.options.data.data ∈ es := by
  cases h with
  | keep _ hrel =>
      cases hrel with
      | some hres =>
          obtain ⟨v, hv, heq⟩ := hres.pending' hu
          exact .inl ⟨_, v, rfl, hv, heq⟩
  | @queue _ c now t₀ hcause hmode hkey hold hlog =>
      by_cases hk : k = t₀.nextSeq
      · subst hk
        rw [SendStream.queue_new] at hu
        obtain rfl := Option.some.inj hu
        have hmem : .queued key ⟨t₀.inc, t₀.nextSeq⟩ c.options.data.data ∈ sendLog key es := by
          rw [hlog]
          exact List.mem_singleton_self _
        exact .inr ⟨c, now, hcause, hmode, hkey, rfl, rfl, (List.mem_filter.1 hmem).1⟩
      · rw [SendStream.queue_old _ _ _ _ hk] at hu
        rcases hold with hold | ⟨_, _, hempty⟩
        · exact .inl ⟨t₀, u, hold, hu, rfl, rfl⟩
        · rw [hempty] at hu
          cases hu
  | ack _ _ _ _ =>
      exact .inl ⟨_, u, rfl, (SendStream.processAck_pending.1 hu).1, rfl, rfl⟩

/-- A packet is queued under the next number of its stream. -/
theorem SendStep.queued (h : SendStep localPid cause key es o o') {pos : Pos} {data : Bytes}
    (he : .queued key pos data ∈ es) :
    ∃ c now t, cause = .queue c now ∧ data = c.options.data.data ∧ o' = some t ∧
      t.inc = pos.inc ∧ t.nextSeq = pos.seq + 1 ∧
      ((∃ s, o = some s ∧ s.inc = pos.inc ∧ s.nextSeq = pos.seq) ∨ o = none ∧ pos.seq = 1) := by
  have hmem := mem_sendLog he rfl
  cases h with
  | keep hlog _ =>
      rw [hlog] at hmem
      cases hmem
  | clear hlog _ =>
      rw [hlog] at hmem
      cases hmem
  | @queue _ c now t₀ hcause _ _ hold hlog =>
      rw [hlog, List.mem_singleton] at hmem
      cases hmem
      refine ⟨c, now, _, hcause, rfl, rfl, rfl, rfl, ?_⟩
      rcases hold with hold | ⟨hnone, hone, _⟩
      · exact .inl ⟨t₀, hold, rfl, rfl⟩
      · exact .inr ⟨hnone, hone⟩
  | ack _ _ _ hlog =>
      rw [hlog] at hmem
      obtain ⟨k, _, hk⟩ := List.mem_map.1 hmem
      cases hk

end

/-! ## Steps that leave the streams alone -/

section
variable {localPid : ProductUserId} {cause : Cause} {es : List Event}
  {ds : List (Endpoint × Datagram Pos)} {p q : P2P}

/-- A sending stream left alone resends nothing new. -/
theorem resent_rel (s : Option SendStream) : Option.Rel Resent s s := by
  cases s with
  | none => exact .none
  | some s => exact .some (Resent.refl s)

/-- Where nothing was cleared, there is nothing to say about it. -/
theorem not_clears {key : Bytes} (h : ∀ peer socket, .cleared peer socket ∉ es) :
    ¬ Clears es key :=
  fun ⟨peer, socket, hmem, _⟩ => h peer socket hmem

/-- A step that leaves the streams alone and sends at most control datagrams. -/
theorem StreamStep.quiet (hs : ∀ key, q.sendStreams.get? key = p.sendStreams.get? key)
    (hr : ∀ key, q.recvStreams.get? key = p.recvStreams.get? key) (hes : es = [])
    (hi : q.incs = p.incs) (hds : ∀ d ∈ ds, Sent localPid cause p q d) :
    StreamStep localPid cause es ds p q where
  send key := by rw [hs, hes]; exact .keep rfl (resent_rel _)
  recv key := by rw [hr, hes]; exact .keep rfl
  cleared _ h := absurd h (not_clears (by simp [hes]))
  incs := Nat.le_of_eq hi.symm
  fresh key t hp hq := by rw [hs, hp] at hq; cases hq
  sent := hds

/-- The parts of the state before a step that count are the streams. -/
theorem StreamStep.ofStreams {p' : P2P} (hs : p'.sendStreams = p.sendStreams)
    (hr : p'.recvStreams = p.recvStreams) (hi : p'.incs = p.incs)
    (h : StreamStep localPid cause es ds p q) : StreamStep localPid cause es ds p' q where
  send key := hs ▸ h.send key
  recv key := hr ▸ h.recv key
  cleared := h.cleared
  incs := hi ▸ h.incs
  fresh key t hp hq := hi ▸ h.fresh key t (hs ▸ hp) hq
  sent d hd := by
    cases h.sent d hd with
    | control h₁ h₂ => exact .control h₁ h₂
    | unreliable h₁ h₂ => exact .unreliable h₁ h₂
    | packet h₁ h₂ => exact .packet (hs ▸ h₁) h₂
    | ack h₁ h₂ h₃ h₄ => exact .ack h₁ h₂ h₃ h₄

/-- What `ClearStreams` leaves. -/
theorem get?_clearStreams (p : P2P) (peer : ProductUserId) (socket key : Bytes) :
    ((p.clearStreams peer socket).sendStreams.get? key =
      if (streamPrefix peer socket).isPrefixOf key then none else p.sendStreams.get? key) ∧
    ((p.clearStreams peer socket).recvStreams.get? key =
      if (streamPrefix peer socket).isPrefixOf key then none else p.recvStreams.get? key) :=
  ⟨Dict.get?_eraseIf_key _ _ _, Dict.get?_eraseIf_key _ _ _⟩

/-- Some connection of the list has this key's prefix. -/
def clearsAny (l : List (ProductUserId × Bytes)) (key : Bytes) : Bool :=
  l.any fun c => (streamPrefix c.1 c.2).isPrefixOf key

/-- The list was logged, so a cleared key is one of the list's. -/
theorem clearsAny_of_clears {l : List (ProductUserId × Bytes)} {key : Bytes}
    (h : Clears (l.map fun c => .cleared c.1 c.2) key) : clearsAny l key = true := by
  obtain ⟨peer, socket, hmem, hpre⟩ := h
  obtain ⟨c, hc, heq⟩ := List.mem_map.1 hmem
  cases heq
  exact List.any_eq_true.2 ⟨c, hc, hpre⟩

/-- What `ClearStreams` leaves, for a list of connections. -/
theorem get?_foldl_clearStreams (l : List (ProductUserId × Bytes)) (p : P2P) (key : Bytes) :
    ((l.foldl (fun q c => q.clearStreams c.1 c.2) p).sendStreams.get? key =
      if clearsAny l key then none else p.sendStreams.get? key) ∧
    ((l.foldl (fun q c => q.clearStreams c.1 c.2) p).recvStreams.get? key =
      if clearsAny l key then none else p.recvStreams.get? key) := by
  induction l generalizing p with
  | nil => exact ⟨rfl, rfl⟩
  | cons c l ih =>
      obtain ⟨h₁, h₂⟩ := ih (p.clearStreams c.1 c.2)
      obtain ⟨g₁, g₂⟩ := get?_clearStreams p c.1 c.2 key
      have hany : clearsAny (c :: l) key =
          ((streamPrefix c.1 c.2).isPrefixOf key || clearsAny l key) := rfl
      rw [List.foldl_cons, h₁, h₂, g₁, g₂, hany]
      cases (streamPrefix c.1 c.2).isPrefixOf key <;> cases clearsAny l key <;> exact ⟨rfl, rfl⟩

/-- Clearing streams does not touch the count of created ones. -/
theorem foldl_clearStreams_incs {α : Type} (f : α → ProductUserId × Bytes) (l : List α) (p : P2P) :
    (l.foldl (fun q c => q.clearStreams (f c).1 (f c).2) p).incs = p.incs := by
  induction l generalizing p with
  | nil => rfl
  | cons c l ih => exact ih _

/-- A step that clears the streams of some connections, logs it, and sends at most control
datagrams. -/
theorem StreamStep.clears (l : List (ProductUserId × Bytes))
    (hs : q.sendStreams = (l.foldl (fun q c => q.clearStreams c.1 c.2) p).sendStreams)
    (hr : q.recvStreams = (l.foldl (fun q c => q.clearStreams c.1 c.2) p).recvStreams)
    (hes : es = l.map fun c => .cleared c.1 c.2) (hi : q.incs = p.incs)
    (hds : ∀ d ∈ ds, Sent localPid cause p q d) : StreamStep localPid cause es ds p q := by
  have hquiet : Quiet es := hes ▸ Quiet.cleared l
  have hclears : ∀ key, clearsAny l key = true → Clears es key := by
    intro key hany
    obtain ⟨c, hc, hpre⟩ := List.any_eq_true.1 hany
    exact ⟨c.1, c.2, hes ▸ List.mem_map.2 ⟨c, hc, rfl⟩, hpre⟩
  refine ⟨fun key => ?_, fun key => ?_, fun key hkey => ?_, Nat.le_of_eq hi.symm,
    fun key t hnone hsome => ?_, hds⟩
  · rw [hs, (get?_foldl_clearStreams l p key).1]
    split
    · next h => exact .clear (hquiet.sendLog key) (hclears key h)
    · exact .keep (hquiet.sendLog key) (resent_rel _)
  · rw [hr, (get?_foldl_clearStreams l p key).2]
    split
    · next h =>
        exact .clear (fun e he => by rw [hquiet.recvLog key] at he; cases he) (hclears key h)
    · exact .keep (hquiet.recvLog key)
  · have hany : clearsAny l key = true := clearsAny_of_clears (hes ▸ hkey)
    rw [hs, hr, (get?_foldl_clearStreams l p key).1, (get?_foldl_clearStreams l p key).2,
      if_pos hany, if_pos hany]
    exact ⟨rfl, rfl⟩
  · rw [hs, (get?_foldl_clearStreams l p key).1, hnone, ite_self] at hsome
    cases hsome

end

/-! ## The outputs of the handlers -/

@[simp] theorem events_nil : events [] = [] := rfl
@[simp] theorem sends_nil : sends [] = [] := rfl
@[simp] theorem events_cons_log (e : Event) (os : List Out) :
    events (.log e :: os) = e :: events os := rfl
@[simp] theorem events_cons_post (n : Notification) (os : List Out) :
    events (.post n :: os) = events os := rfl
@[simp] theorem events_cons_send (e : Endpoint) (d : Datagram Pos) (os : List Out) :
    events (.send e d :: os) = events os := rfl
@[simp] theorem sends_cons_log (e : Event) (os : List Out) : sends (.log e :: os) = sends os := rfl
@[simp] theorem sends_cons_post (n : Notification) (os : List Out) :
    sends (.post n :: os) = sends os := rfl
@[simp] theorem sends_cons_send (e : Endpoint) (d : Datagram Pos) (os : List Out) :
    sends (.send e d :: os) = (e, d) :: sends os := rfl

section
variable {α : Type} (l : List α)

@[simp] theorem events_posts (f : α → Notification) :
    events (l.map fun x => .post (f x)) = [] := by
  induction l with
  | nil => rfl
  | cons x l ih => simpa using ih

@[simp] theorem sends_posts (f : α → Notification) : sends (l.map fun x => .post (f x)) = [] := by
  induction l with
  | nil => rfl
  | cons x l ih => simpa using ih

@[simp] theorem events_sends (f : α → Endpoint) (g : α → Datagram Pos) :
    events (l.map fun x => .send (f x) (g x)) = [] := by
  induction l with
  | nil => rfl
  | cons x l ih => simpa using ih

@[simp] theorem sends_sends (f : α → Endpoint) (g : α → Datagram Pos) :
    sends (l.map fun x => .send (f x) (g x)) = l.map fun x => (f x, g x) := by
  induction l with
  | nil => rfl
  | cons x l ih => simpa using ih

@[simp] theorem events_logs (f : α → Event) : events (l.map fun x => .log (f x)) = l.map f := by
  induction l with
  | nil => rfl
  | cons x l ih => simpa using ih

@[simp] theorem sends_logs (f : α → Event) : sends (l.map fun x => .log (f x)) = [] := by
  induction l with
  | nil => rfl
  | cons x l ih => simpa using ih

end

@[simp] theorem events_establishedOuts (peer : ProductUserId) (socket : Bytes) (e r : Bool) :
    events (P2P.establishedOuts peer socket e r) = [] := by
  cases e <;> cases r <;> rfl

@[simp] theorem sends_establishedOuts (peer : ProductUserId) (socket : Bytes) (e r : Bool) :
    sends (P2P.establishedOuts peer socket e r) = [] := by
  cases e <;> cases r <;> rfl

/-- A datagram sent if the endpoint is valid. -/
@[simp] theorem events_ite_send (c : Bool) (e : Endpoint) (d : Datagram Pos) :
    events (if c = true then [.send e d] else []) = [] := by
  cases c <;> rfl

/-- A datagram sent on a condition is that datagram. -/
theorem mem_sends_ite {c : Bool} {e : Endpoint} {d : Datagram Pos} {x : Endpoint × Datagram Pos}
    (h : x ∈ sends (if c = true then [.send e d] else [])) : x = (e, d) := by
  cases c with
  | true => exact List.mem_singleton.1 h
  | false => cases h

/-- A notification posted on a condition. -/
@[simp] theorem events_ite_post (c : Bool) (n : Notification) :
    events (if c = true then [.post n] else []) = [] := by
  cases c <;> rfl

@[simp] theorem sends_ite_post (c : Bool) (n : Notification) :
    sends (if c = true then [.post n] else []) = [] := by
  cases c <;> rfl

/-- A datagram that carries neither data nor an ack. -/
theorem Sent.ofControl {localPid : ProductUserId} {cause : Cause} {p q : P2P} {e : Endpoint}
    {socket : Bytes} {body : Body Pos}
    (h : body ∈ [Body.connectRequest, .connectIgnored, .connectAccept, .connectClose]) :
    Sent localPid cause p q (e, ⟨localPid, socket, body⟩) := by
  refine .control (fun channel mode pos bytes hb => ?_) (fun channel o pos sack hb => ?_) <;>
    · subst hb
      simp at h

/-! ## The handlers, one by one -/

section
variable (p : P2P) (localPid : ProductUserId) (cause : Cause) (from_ : Endpoint)
  (peer : ProductUserId) (socket : Bytes)

@[simp] theorem RecvStream.dataEvent_sendKey (s : RecvStream) (key : Bytes) (inc k : ℕ)
    (data : Bytes) : (s.dataEvent key inc k data).sendKey = none := by
  unfold RecvStream.dataEvent
  split <;> rfl

@[simp] theorem RecvStream.dataEvent_recvKey (s : RecvStream) (key : Bytes) (inc k : ℕ)
    (data : Bytes) : (s.dataEvent key inc k data).recvKey = some key := by
  unfold RecvStream.dataEvent
  split <;> rfl

/-- Before a message is queued, `SendPacket` touches no stream. -/
theorem sendPacketOpen_streams (endpointFor : ProductUserId → Endpoint)
    (options : Option SendPacketOptions) : let r := sendPacketOpen localPid endpointFor options p
    StreamStep localPid cause (events r.2.1) (sends r.2.1) p r.1 := by
  have hquiet : ∀ {q : P2P}, q.sendStreams = p.sendStreams → q.recvStreams = p.recvStreams →
      q.incs = p.incs → StreamStep localPid cause (events []) (sends []) p q := fun hs hr hi =>
    .quiet (fun _ => by rw [hs]) (fun _ => by rw [hr]) rfl hi nofun
  unfold sendPacketOpen
  cases options with
  | none => exact hquiet rfl rfl rfl
  | some o =>
      dsimp only
      cases o.check with
      | error e => exact hquiet rfl rfl rfl
      | ok socket =>
          dsimp only
          cases p.connections.get? (connKey o.remoteUserId socket) with
          | none =>
              dsimp only
              split
              · exact hquiet rfl rfl rfl
              · by_cases hv : (endpointFor o.remoteUserId).valid = true
                · simp only [hv, if_true]
                  refine .quiet (fun _ => rfl) (fun _ => rfl) rfl rfl ?_
                  intro d hd
                  obtain rfl := List.mem_singleton.1 hd
                  exact .ofControl (by simp)
                · simp only [hv]
                  exact hquiet rfl rfl rfl
          | some conn =>
              dsimp only
              split
              · exact hquiet rfl rfl rfl
              · exact hquiet rfl rfl rfl

/-- A connection request touches no stream. -/
theorem onConnectRequest_streams :
    let r := p.onConnectRequest localPid from_ peer socket
    StreamStep localPid cause (events r.2) (sends r.2) p r.1 := by
  unfold P2P.onConnectRequest
  dsimp only
  split
  · exact .quiet (fun _ => rfl) (fun _ => rfl) rfl rfl (by rintro _ ⟨⟩)
  · split
    · refine .quiet (fun _ => rfl) (fun _ => rfl) rfl rfl fun d hd => ?_
      obtain rfl := List.mem_singleton.1 hd
      exact .ofControl (by simp)
    · exact .quiet (fun _ => rfl) (fun _ => rfl) rfl rfl (by rintro _ ⟨⟩)

/-- An ignored request clears the streams of its connection. -/
theorem onConnectIgnored_streams :
    let r := p.onConnectIgnored peer socket
    StreamStep localPid cause (events r.2) (sends r.2) p r.1 := by
  unfold P2P.onConnectIgnored
  dsimp only
  split <;> exact .clears [(peer, socket)] rfl rfl rfl rfl nofun

/-- A close clears the streams of its connection. -/
theorem onConnectClose_streams :
    let r := p.onConnectClose peer socket
    StreamStep localPid cause (events r.2) (sends r.2) p r.1 :=
  .clears [(peer, socket)] rfl rfl rfl rfl nofun

/-- An accepted connection touches no stream. -/
theorem onConnectAccept_streams :
    let r := p.onConnectAccept from_ peer socket
    StreamStep localPid cause (events r.2) (sends r.2) p r.1 := by
  unfold P2P.onConnectAccept
  refine .quiet (fun _ => rfl) (fun _ => rfl) ?_ rfl ?_
  · rw [events_establishedOuts]
  · rw [sends_establishedOuts]; exact nofun

/-- `AcceptConnection` touches no stream. -/
theorem acceptConnection_streams (endpointFor : ProductUserId → Endpoint)
    (options : Option P2P.ConnectionOptions) :
    let r := p.acceptConnection localPid endpointFor options
    StreamStep localPid cause (events r.2.1) (sends r.2.1) p r.1 := by
  have hquiet : StreamStep localPid cause (events []) (sends []) p p :=
    .quiet (fun _ => rfl) (fun _ => rfl) rfl rfl nofun
  unfold P2P.acceptConnection
  cases options with
  | none => exact hquiet
  | some o =>
      dsimp only
      split
      · exact hquiet
      · refine .quiet (fun _ => rfl) (fun _ => rfl) ?_ rfl ?_
        · rw [events_append, events_establishedOuts, events_ite_send]
          rfl
        · rw [sends_append, sends_establishedOuts, List.append_nil]
          intro d hd
          obtain rfl := mem_sends_ite hd
          exact .ofControl (by simp)

/-- `CloseConnection` clears the streams of its connection. -/
theorem closeConnection_streams (options : Option P2P.ConnectionOptions) :
    let r := p.closeConnection localPid options
    StreamStep localPid cause (events r.2.1) (sends r.2.1) p r.1 := by
  have hquiet : StreamStep localPid cause (events []) (sends []) p p :=
    .quiet (fun _ => rfl) (fun _ => rfl) rfl rfl nofun
  unfold P2P.closeConnection
  cases options with
  | none => exact hquiet
  | some o =>
      dsimp only
      split
      · exact hquiet
      · refine .clears [(o.remoteUserId, socketName o.socketId)] rfl rfl ?_ rfl ?_
        · rw [events_cons_log, events_ite_send]
          rfl
        · intro d hd
          obtain rfl := mem_sends_ite hd
          exact .ofControl (by simp)

/-- `CloseConnections` clears the streams of the connections it closes. -/
theorem closeConnections_streams (options : Option (Option Bytes)) :
    let r := p.closeConnections localPid options
    StreamStep localPid cause (events r.2.1) (sends r.2.1) p r.1 := by
  have hquiet : StreamStep localPid cause (events []) (sends []) p p :=
    .quiet (fun _ => rfl) (fun _ => rfl) rfl rfl nofun
  unfold P2P.closeConnections
  cases options with
  | none => exact hquiet
  | some socketId =>
      cases socketId with
      | none => exact hquiet
      | some socketId =>
          dsimp only
          generalize hc : (p.connections.entries.filter fun e =>
            e.2.socketName = socketName (some socketId)).map Prod.snd = toClose
          refine .clears (toClose.map fun c => (c.peer, socketName (some socketId))) ?_ ?_ ?_ ?_ ?_
          · rw [List.foldl_map]
          · rw [List.foldl_map]
          · rw [events_append, events_logs, events_sends, List.append_nil, List.map_map]
            rfl
          · exact foldl_clearStreams_incs (fun c => (c.peer, socketName (some socketId))) toClose p
          · rw [sends_append, sends_logs, sends_sends, List.nil_append]
            intro d hd
            obtain ⟨c, _, rfl⟩ := List.mem_map.1 hd
            exact .ofControl (by simp)

/-- Queueing a message sends it or appends it to its stream. -/
theorem sendPacketQueue_streams (c : SendCall) (now : TimePoint) :
    let r := sendPacketQueue localPid c now p
    StreamStep localPid (.queue c now) (events r.2) (sends r.2) p r.1 := by
  unfold sendPacketQueue
  split
  · next hrel =>
      have hopen : p.sendStreams.get? c.options.key = some (p.openSendStream c.options.key) ∨
          p.sendStreams.get? c.options.key = none ∧ (p.openSendStream c.options.key).nextSeq = 1 ∧
            (p.openSendStream c.options.key).pending = .empty := by
        unfold P2P.openSendStream
        cases p.sendStreams.get? c.options.key with
        | none => exact .inr ⟨rfl, rfl, rfl⟩
        | some s => exact .inl rfl
      refine ⟨fun key => ?_, fun key => ?_, fun key hkey => absurd hkey (not_clears (by simp)), ?_,
        fun key t hnone hsome => ?_, fun d hd => ?_⟩
      · by_cases hk : key = c.options.key
        · subst hk
          rw [Dict.get?_set, if_pos rfl]
          exact .queue _ rfl hrel rfl hopen (by simp [sendLog, Event.sendKey])
        · rw [Dict.get?_set, if_neg hk]
          exact .keep (by simp [sendLog, Event.sendKey, Ne.symm hk]) (resent_rel _)
      · exact .keep (by simp [recvLog, Event.recvKey])
      · dsimp only
        split <;> omega
      · dsimp only at hsome ⊢
        rw [Dict.get?_set] at hsome
        split at hsome
        · next hk =>
            subst hk
            cases hsome
            have hcontains : p.sendStreams.contains c.options.key = false := by
              simp [Dict.contains, hnone]
            rw [hcontains, P2P.openSendStream, hnone]
            exact ⟨rfl, Nat.lt_succ_self _⟩
        · rw [hnone] at hsome
          cases hsome
      · obtain rfl := List.mem_singleton.1 hd
        have hnew : (p.sendStreams.set c.options.key
            ((p.openSendStream c.options.key).queue localPid c now)).get? c.options.key =
              some ((p.openSendStream c.options.key).queue localPid c now) := by
          rw [Dict.get?_set, if_pos rfl]
        exact .packet (.inr hnew) (SendStream.queue_new ..)
  · next hrel =>
      refine .quiet (fun _ => rfl) (fun _ => rfl) rfl rfl fun d hd => ?_
      obtain rfl := List.mem_singleton.1 hd
      exact .unreliable rfl (by simpa using hrel)

/-- An ack drops what it covers from its stream, and nothing else. -/
theorem onAck_streams {m : Datagram UInt32} {inc : ℕ} {channel orderedByte : UInt8}
    {wire sack : UInt32} (hm : m.body = .ack channel orderedByte wire sack) (now : TimePoint) :
    let r := p.onAck m.sender m.socket channel orderedByte wire sack now
    StreamStep localPid (.message from_ m inc) (events r.2) (sends r.2) p r.1 := by
  have hsend : (p.proofOfLife m.sender m.socket).sendStreams = p.sendStreams := by
    unfold P2P.proofOfLife
    split <;> rfl
  have hrecv : (p.proofOfLife m.sender m.socket).recvStreams = p.recvStreams := by
    unfold P2P.proofOfLife
    split <;> rfl
  have hincs : (p.proofOfLife m.sender m.socket).incs = p.incs := by
    unfold P2P.proofOfLife
    split <;> rfl
  unfold P2P.onAck
  dsimp only
  generalize p.proofOfLife m.sender m.socket = q at hsend hrecv hincs ⊢
  cases hs : q.sendStreams.get? (streamKey m.sender m.socket channel (orderedByte ≠ 0)) with
  | none =>
      refine .quiet (fun _ => by rw [hsend]) (fun _ => by rw [hrecv]) ?_ hincs ?_
      · rw [events_establishedOuts]
      · rw [sends_establishedOuts]
        rintro _ ⟨⟩
  | some s =>
      dsimp only
      rw [hsend] at hs
      refine ⟨fun key => ?_, fun key => ?_, fun key hkey => absurd hkey (not_clears (by simp)),
        Nat.le_of_eq hincs.symm, fun key t hnone hsome => ?_, ?_⟩
      · rw [Dict.get?_set, events_append, events_logs, events_establishedOuts, List.append_nil]
        split
        · next hk =>
            subst hk
            rw [hs]
            exact .ack rfl hm rfl
              (List.filter_eq_self.2 fun e he => by
                obtain ⟨k, _, rfl⟩ := List.mem_map.1 he
                simp [Event.sendKey])
        · next hk =>
            rw [hsend]
            refine .keep (List.filter_eq_nil_iff.2 fun e he => ?_) (resent_rel _)
            obtain ⟨k, _, rfl⟩ := List.mem_map.1 he
            simp only [Event.sendKey, Option.some.injEq, decide_eq_true_eq]
            exact Ne.symm hk
      · rw [hrecv, events_append, events_logs, events_establishedOuts, List.append_nil]
        refine .keep (List.filter_eq_nil_iff.2 fun e he => ?_)
        obtain ⟨k, _, rfl⟩ := List.mem_map.1 he
        simp [Event.recvKey]
      · rw [Dict.get?_set] at hsome
        split at hsome
        · next hk =>
            rw [hk, hs] at hnone
            cases hnone
        · rw [hsend, hnone] at hsome
          cases hsome
      · rw [sends_append, sends_logs, sends_establishedOuts]
        rintro _ ⟨⟩

/-- A reliable message enters its receiving stream, and is acknowledged. -/
theorem receiveData_streams {m : Datagram UInt32} {channel mode : UInt8} {wire : UInt32}
    {bytes : Bytes} (hm : m.body = .data channel mode wire bytes)
    (hmode : modeReliable mode = true) (inc : ℕ) :
    let r := p.receiveData localPid from_ m.sender m.socket channel (modeOrdered mode) wire bytes
      inc
    StreamStep localPid (.message from_ m inc) (events r.2.1) (sends r.2.1) p r.1 := by
  unfold P2P.receiveData
  dsimp only
  generalize hs₀ : openRecvStream p m.sender m.socket channel (modeOrdered mode) inc = s₀
  have hdeliv :=
    (drainRecvStream_spec p.inbox (s₀.receive (extend32 s₀.nextExpected wire) bytes)).1
  generalize drainRecvStream p.inbox (s₀.receive (extend32 s₀.nextExpected wire) bytes) = d
    at hdeliv ⊢
  have hev : ∀ es : List Event, ∀ d, events (es.map Out.log ++ [.send from_ d]) = es := by simp
  have hsd : ∀ es : List Event, ∀ d, sends (es.map Out.log ++ [.send from_ d]) = [(from_, d)] := by
    simp
  refine ⟨fun key => ?_, fun key => ?_, fun key hkey => absurd hkey (not_clears ?_), Nat.le_refl _,
    fun key t hnone hsome => ?_, fun x hx => ?_⟩
  · refine .keep ?_ (resent_rel _)
    rw [hev, sendLog, List.filter_cons, ← sendLog, sendLog_drainLog, RecvStream.dataEvent_sendKey,
      if_neg (by simp)]
  · rw [hev, Dict.get?_set]
    by_cases hk : key = streamKey m.sender m.socket channel (modeOrdered mode)
    · rw [if_pos hk]
      subst hk
      refine .data s₀ rfl hm hmode rfl hs₀.symm hdeliv ?_
      rw [recvLog, List.filter_cons, ← recvLog, recvLog_drainLog, if_pos rfl,
        RecvStream.dataEvent_recvKey, if_pos (by simp)]
    · rw [if_neg hk]
      refine .keep ?_
      rw [recvLog, List.filter_cons, ← recvLog, recvLog_drainLog, if_neg (Ne.symm hk),
        RecvStream.dataEvent_recvKey, if_neg (by simpa using Ne.symm hk)]
  · intro peer socket hmem
    rw [hev, List.mem_cons] at hmem
    rcases hmem with hmem | hmem
    · have := RecvStream.dataEvent_recvKey s₀ (streamKey m.sender m.socket channel
        (modeOrdered mode)) inc (extend32 s₀.nextExpected wire) bytes
      rw [← hmem] at this
      cases this
    · obtain ⟨x, _, hx⟩ := List.mem_map.1 hmem
      cases hx
  · rw [hnone] at hsome
    cases hsome
  · rw [hsd] at hx
    obtain rfl := List.mem_singleton.1 hx
    have hinc : s₀.inc = d.stream.inc := by
      rw [hdeliv.frame]
      unfold RecvStream.receive
      split <;> rfl
    rw [hinc]
    exact .ack rfl hm hmode (by rw [Dict.get?_set, if_pos rfl])

/-- A data datagram touches the stream of its sender, socket and channel only. -/
theorem onData_streams {m : Datagram UInt32} {channel mode : UInt8} {wire : UInt32}
    {bytes : Bytes} (hm : m.body = .data channel mode wire bytes) (inc : ℕ) :
    let r := p.onData localPid from_ m.sender m.socket channel mode wire bytes inc
    StreamStep localPid (.message from_ m inc) (events r.2) (sends r.2) p r.1 := by
  unfold P2P.onData
  dsimp only
  split
  · refine .quiet (fun _ => rfl) (fun _ => rfl) ?_ rfl ?_
    · rw [events_append, events_establishedOuts, events_ite_post]
      rfl
    · rw [sends_append, sends_establishedOuts, sends_ite_post]
      exact nofun
  · next hmode =>
      have hdata : StreamStep localPid _ _ _ _ _ :=
        receiveData_streams (p.learnConn from_ m.sender m.socket) localPid from_ hm
          (by simpa using hmode) inc
      rw [events_append, events_append, events_establishedOuts, events_ite_post, List.append_nil,
        List.append_nil, sends_append, sends_append, sends_establishedOuts, sends_ite_post,
        List.append_nil, List.append_nil]
      exact StreamStep.ofStreams (p := p.learnConn from_ m.sender m.socket) rfl rfl rfl hdata

/-- `OnDatagram` on any datagram. -/
theorem onMessage_streams (m : Datagram UInt32) (inc : ℕ) (now : TimePoint) :
    let r := p.onMessage localPid from_ m inc now
    StreamStep localPid (.message from_ m inc) (events r.2) (sends r.2) p r.1 := by
  unfold P2P.onMessage
  dsimp only
  cases hm : m.body with
  | connectRequest => exact onConnectRequest_streams ..
  | connectIgnored => exact onConnectIgnored_streams ..
  | connectAccept => exact onConnectAccept_streams ..
  | connectClose => exact onConnectClose_streams ..
  | data channel mode seq bytes => exact onData_streams p localPid from_ hm inc
  | ack channel orderedByte ackSeq sack => exact onAck_streams p localPid from_ hm now

/-! ## `Pump` -/

/-- One turn of the drain loop, seen from its own stream. -/
theorem drainOne_spec (acc : Inbox × List Event) (key : Bytes) (s : RecvStream)
    (hacc : recvLog key acc.2 = []) :
    ∃ moved, Delivers s moved (P2P.drainOne acc key s).2 ∧
      recvLog key (P2P.drainOne acc key s).1.2 = P2P.drainLog key s.inc moved := by
  unfold P2P.drainOne
  split
  · exact ⟨[], .nil s, hacc⟩
  · refine ⟨_, (drainRecvStream_spec acc.1 s).1, ?_⟩
    rw [recvLog_append, hacc, List.nil_append, recvLog_drainLog, if_pos rfl]

/-- One turn of the drain loop, seen from any other stream. -/
theorem drainOne_other {acc : Inbox × List Event} {key key' : Bytes} {s : RecvStream}
    (h : key' ≠ key) : recvLog key (P2P.drainOne acc key' s).1.2 = recvLog key acc.2 := by
  unfold P2P.drainOne
  split
  · rfl
  · rw [recvLog_append, recvLog_drainLog, if_neg h, List.append_nil]

/-- The drain loop records nothing of send streams. -/
theorem drained_sendLog (key : Bytes) :
    sendLog key (p.recvStreams.mapAccum P2P.drainOne (p.inbox, [])).1.2 = [] := by
  refine Dict.mapAccum_inv (P := fun acc : Inbox × List Event => sendLog key acc.2 = [])
    (fun acc k s _ hacc => ?_) rfl
  unfold P2P.drainOne
  split
  · exact hacc
  · rw [sendLog_append, hacc, sendLog_drainLog]
    rfl

/-- The drain loop clears nothing. -/
theorem drained_noClear (peer : ProductUserId) (socket : Bytes) :
    .cleared peer socket ∉ (p.recvStreams.mapAccum P2P.drainOne (p.inbox, [])).1.2 := by
  refine Dict.mapAccum_inv (d := p.recvStreams) (f := P2P.drainOne) (s := (p.inbox, []))
    (P := fun acc : Inbox × List Event => .cleared peer socket ∉ acc.2)
    (fun acc k s _ hacc => ?_) (fun h => nomatch h)
  unfold P2P.drainOne
  split
  · exact hacc
  · rw [List.mem_append]
    rintro (h | h)
    · exact hacc h
    · obtain ⟨x, _, hx⟩ := List.mem_map.1 h
      cases hx

/-- The connections `Pump` gives up. -/
theorem sweep_spec (now : TimePoint) :
    let r := P2P.sweep p now
    r.1.sendStreams = (r.2.foldl (fun q c => q.clearStreams c.1 c.2) p).sendStreams ∧
      r.1.recvStreams = (r.2.foldl (fun q c => q.clearStreams c.1 c.2) p).recvStreams ∧
      r.1.incs = p.incs :=
  ⟨rfl, rfl, foldl_clearStreams_incs id _ p⟩

/-- `Pump` drains the receiving streams and resends what the sending streams still hold. -/
theorem pump_streams (now : TimePoint) :
    let r := p.pump now
    StreamStep localPid cause (events r.2) (sends r.2) p r.1 := by
  unfold P2P.pump
  dsimp only
  have hdrainSend := drained_sendLog p
  have hnoclear := drained_noClear p
  have hdrain := fun key => Dict.mapAccum_at (f := P2P.drainOne) (d := p.recvStreams) (k := key)
    (g := fun acc : Inbox × List Event => recvLog key acc.2)
    (fun acc j s hj => drainOne_other hj) (p.inbox, [])
  have hsent := fun key => p.sendStreams.get?_mapAccum (retransmit now)
    { connections := p.connections } key
  have htoSend := fun e => Dict.mapAccum_inv (d := p.sendStreams) (f := retransmit now)
    (P := fun st : PumpState => e ∈ st.toSend → ∃ key s k u, p.sendStreams.get? key = some s ∧
      s.pending.get? k = some u ∧ e = (u.toEndpoint, u.payload))
    (s := { connections := p.connections })
    (fun st key s hs ih hmem => (mem_retransmit hmem).elim ih
      fun ⟨k, u, hu, he⟩ => ⟨key, s, k, u, hs, hu, he⟩) nofun
  generalize p.recvStreams.mapAccum P2P.drainOne (p.inbox, []) =
    drained at hdrain hdrainSend hnoclear ⊢
  generalize p.sendStreams.mapAccum (retransmit now) { connections := p.connections } = sent
    at hsent htoSend ⊢
  obtain ⟨hsw₁, hsw₂, hsw₃⟩ := sweep_spec { p with
    inbox := drained.1.1, recvStreams := drained.2
    connections := sent.1.connections, sendStreams := sent.2 } now
  generalize P2P.sweep { p with
    inbox := drained.1.1, recvStreams := drained.2
    connections := sent.1.connections, sendStreams := sent.2 } now = swept at hsw₁ hsw₂ hsw₃ ⊢
  simp only [events_append, events_log, events_logs, events_sends, events_posts, List.append_nil,
    sends_append, sends_log, sends_logs, sends_sends, sends_posts, List.nil_append]
  have hclears : ∀ key, clearsAny swept.2 key = true →
      Clears (drained.1.2 ++ swept.2.map fun c => .cleared c.1 c.2) key := by
    intro key hany
    obtain ⟨c, hc, hpre⟩ := List.any_eq_true.1 hany
    exact ⟨c.1, c.2, List.mem_append_right _ (List.mem_map.2 ⟨c, hc, rfl⟩), hpre⟩
  refine ⟨fun key => ?_, fun key => ?_, fun key hkey => ?_, Nat.le_of_eq hsw₃.symm,
    fun key t hnone hsome => ?_, fun e he => ?_⟩
  · have hlog : sendLog key (drained.1.2 ++ swept.2.map fun c => .cleared c.1 c.2) = [] := by
      rw [sendLog_append, hdrainSend, (Quiet.cleared swept.2).sendLog]
      rfl
    rw [hsw₁, (get?_foldl_clearStreams swept.2 _ key).1]
    split
    · next h => exact .clear hlog (hclears key h)
    · refine .keep hlog ?_
      rcases hsent key with ⟨h₁, h₂⟩ | ⟨st, s, h₁, h₂⟩
      · rw [h₁, h₂]; exact .none
      · rw [h₁, h₂]; exact .some (retransmit_resent now st key s)
  · have hlog : recvLog key (drained.1.2 ++ swept.2.map fun c => .cleared c.1 c.2) =
        recvLog key drained.1.2 := by
      rw [recvLog_append, (Quiet.cleared swept.2).recvLog, List.append_nil]
    rw [hsw₂, (get?_foldl_clearStreams swept.2 _ key).2]
    rcases hdrain key with ⟨h₁, h₂, hπ⟩ | ⟨acc, s, h₁, h₂, hacc, hπ⟩
    · split
      · next h =>
          refine .clear (fun e he => ?_) (hclears key h)
          rw [hlog, hπ] at he
          cases he
      · rw [h₁]
        dsimp only
        rw [h₂]
        exact .keep (by rw [hlog, hπ]; rfl)
    · obtain ⟨moved, hdeliv, hmoved⟩ := drainOne_spec acc key s hacc
      split
      · next h =>
          refine .clear (fun e he => ?_) (hclears key h)
          rw [hlog, hπ, hmoved] at he
          obtain ⟨x, _, rfl⟩ := List.mem_map.1 he
          exact ⟨_, _, rfl⟩
      · rw [h₁]
        dsimp only
        rw [h₂]
        exact .drain hdeliv (by rw [hlog, hπ, hmoved])
  · have hany : clearsAny swept.2 key = true := by
      obtain ⟨peer, socket, hmem, hpre⟩ := hkey
      rcases List.mem_append.1 hmem with hmem | hmem
      · exact absurd hmem (hnoclear peer socket)
      · exact clearsAny_of_clears ⟨peer, socket, hmem, hpre⟩
    rw [hsw₁, hsw₂, (get?_foldl_clearStreams swept.2 _ key).1,
      (get?_foldl_clearStreams swept.2 _ key).2, if_pos hany, if_pos hany]
    exact ⟨rfl, rfl⟩
  · rw [hsw₁, (get?_foldl_clearStreams swept.2 _ key).1] at hsome
    split at hsome
    · cases hsome
    · rcases hsent key with ⟨h₁, h₂⟩ | ⟨st, s, h₁, h₂⟩
      · dsimp only at hsome
        rw [h₁] at hsome
        cases hsome
      · rw [h₁] at hnone
        cases hnone
  · obtain ⟨x, hx, rfl⟩ := List.mem_map.1 he
    obtain ⟨key, s, k, u, hs, hu, heq⟩ := htoSend x hx
    rw [heq]
    exact .packet (.inl hs) hu

end

/-! ## The steps of a node -/

namespace P2PNode

/-- The cause of a step of the node's own threads. -/
def causeOf (n : P2PNode) : Call → Cause
  | .sendPacketQueue i now =>
      match n.sending[i]? with
      | some c => .queue c now
      | none => .other
  | _ => .other

/-- Only a waiting call that goes on queues a packet. -/
theorem causeOf_queue {n : P2PNode} {c : Call} {call : SendCall} {now : TimePoint}
    (h : n.causeOf c = .queue call now) :
    ∃ i, c = .sendPacketQueue i now ∧ n.sending[i]? = some call := by
  cases c with
  | sendPacketQueue i now' =>
      simp only [causeOf] at h
      split at h
      · next hi => cases h; exact ⟨i, rfl, hi⟩
      · cases h
  | _ => cases h

/-- The node's own threads handle no datagrams. -/
theorem causeOf_ne_message {n : P2PNode} {c : Call} {from_ : Endpoint} {m : Datagram UInt32}
    {inc : ℕ} : n.causeOf c ≠ .message from_ m inc := by
  intro h
  cases c with
  | sendPacketQueue i now =>
      simp only [causeOf] at h
      split at h <;> cases h
  | _ => cases h

@[simp] theorem recordReturn_p2p (n : P2PNode) (o : Option SendPacketOptions) (r : EResult)
    (slot : Option Pos) : (n.recordReturn o r slot).p2p = n.p2p := by
  cases o <;> rfl

@[simp] theorem recordReturn_log (n : P2PNode) (o : Option SendPacketOptions) (r : EResult)
    (slot : Option Pos) : (n.recordReturn o r slot).log = n.log := by
  cases o <;> rfl

@[simp] theorem recordReturn_localPid (n : P2PNode) (o : Option SendPacketOptions) (r : EResult)
    (slot : Option Pos) : (n.recordReturn o r slot).localPid = n.localPid := by
  cases o <;> rfl

@[simp] theorem recordReturn_sending (n : P2PNode) (o : Option SendPacketOptions) (r : EResult)
    (slot : Option Pos) : (n.recordReturn o r slot).sending = n.sending := by
  cases o <;> rfl

@[simp] theorem recordReturn_peers (n : P2PNode) (o : Option SendPacketOptions) (r : EResult)
    (slot : Option Pos) : (n.recordReturn o r slot).peers = n.peers := by
  cases o <;> rfl

/-- What one step does to the streams and the log: the step lemma of every stream property. -/
structure Steps (n : P2PNode) (cause : Cause) (n' : P2PNode) (outs : List Out) : Prop where
  localPid : n'.localPid = n.localPid
  log : n'.log = n.log ++ events outs
  streams : StreamStep n.localPid cause (events outs) (sends outs) n.p2p n'.p2p

/-- A step of the node's own threads. -/
theorem step_steps {n n' : P2PNode} {c : Call} {outs : List Out} (h : n.step c = some (n', outs)) :
    n.Steps (n.causeOf c) n' outs := by
  have hquiet : ∀ {m : P2PNode}, m.localPid = n.localPid → m.log = n.log →
      (∀ key, m.p2p.sendStreams.get? key = n.p2p.sendStreams.get? key) →
      (∀ key, m.p2p.recvStreams.get? key = n.p2p.recvStreams.get? key) →
      m.p2p.incs = n.p2p.incs → n.Steps (n.causeOf c) m [] := fun hpid hlog hs hr hi =>
    ⟨hpid, by rw [hlog, events_nil, List.append_nil], .quiet hs hr rfl hi nofun⟩
  cases c with
  | sendPacket options =>
      have hst := sendPacketOpen_streams n.p2p n.localPid (n.causeOf (.sendPacket options))
        n.endpointFor options
      simp only [step] at h
      split at h <;> cases h
      · exact ⟨by simp [update], by simp [update], by simpa [update] using hst⟩
      · exact ⟨rfl, rfl, hst⟩
  | sendPacketQueue i now =>
      simp only [step] at h
      cases hc : n.sending[i]? with
      | none => rw [hc] at h; cases h
      | some c =>
          rw [hc] at h
          have hst := sendPacketQueue_streams n.p2p n.localPid c now
          have hcause : n.causeOf (.sendPacketQueue i now) = .queue c now := by
            simp only [causeOf, hc]
          cases h
          rw [hcause]
          exact ⟨by simp [update], by simp [update], by simpa [update] using hst⟩
  | receivePacket o =>
      cases h
      have hr : (n.p2p.receivePacket o).1.sendStreams = n.p2p.sendStreams ∧
          (n.p2p.receivePacket o).1.recvStreams = n.p2p.recvStreams ∧
          (n.p2p.receivePacket o).1.incs = n.p2p.incs := by
        unfold P2P.receivePacket
        dsimp only
        split
        · exact ⟨rfl, rfl, rfl⟩
        · split <;> exact ⟨rfl, rfl, rfl⟩
      exact hquiet rfl (List.append_nil _) (fun _ => by rw [update, hr.1])
        (fun _ => by rw [update, hr.2.1]) hr.2.2
  | setPacketQueueSize maxBytes =>
      cases h
      exact hquiet rfl (List.append_nil _) (fun _ => rfl) (fun _ => rfl) rfl
  | clearPacketQueue o =>
      cases h
      have hr : (n.p2p.clearPacketQueue o).sendStreams = n.p2p.sendStreams ∧
          (n.p2p.clearPacketQueue o).recvStreams = n.p2p.recvStreams ∧
          (n.p2p.clearPacketQueue o).incs = n.p2p.incs := by
        unfold P2P.clearPacketQueue
        split <;> exact ⟨rfl, rfl, rfl⟩
      exact hquiet rfl (List.append_nil _) (fun _ => by rw [update, hr.1])
        (fun _ => by rw [update, hr.2.1]) hr.2.2
  | acceptConnection o =>
      cases h
      exact ⟨rfl, rfl, acceptConnection_streams ..⟩
  | closeConnection o =>
      cases h
      exact ⟨rfl, rfl, closeConnection_streams ..⟩
  | closeConnections o =>
      cases h
      exact ⟨rfl, rfl, closeConnections_streams ..⟩
  | addNotifyPeerConnectionRequest socketId =>
      cases h
      exact hquiet rfl (List.append_nil _) (fun _ => rfl) (fun _ => rfl) rfl
  | removeNotifyPeerConnectionRequest id =>
      cases h
      exact hquiet rfl (List.append_nil _) (fun _ => rfl) (fun _ => rfl) rfl
  | pump now =>
      cases h
      exact ⟨rfl, rfl, pump_streams ..⟩
  | observe peer endpoint =>
      simp only [step] at h
      split at h <;> cases h
      exact hquiet rfl rfl (fun _ => rfl) (fun _ => rfl) rfl
  | rehash c s r =>
      cases h
      exact hquiet rfl (List.append_nil _) (fun key => Dict.get?_toFront _ _ _)
        (fun key => Dict.get?_toFront _ _ _) rfl

/-- The handling of a datagram. -/
theorem receive_steps (n : P2PNode) (from_ : Endpoint) (m : Datagram UInt32) (inc : ℕ)
    (now : TimePoint) :
    n.Steps (.message from_ m inc) (n.receive from_ m inc now).1
      (n.receive from_ m inc now).2 :=
  ⟨rfl, rfl, onMessage_streams ..⟩

/-- A waiting call was made by `SendPacket`, with a valid endpoint of the directory. -/
theorem sendPacketOpen_call {localPid : ProductUserId} {endpointFor : ProductUserId → Endpoint}
    {options : Option SendPacketOptions} {p q : P2P} {outs : List Out} {c : SendCall}
    (h : sendPacketOpen localPid endpointFor options p = (q, outs, .inr c)) :
    options = some c.options ∧ c.endpoint = endpointFor c.options.remoteUserId ∧
    c.endpoint.valid = true := by
  have hcont : ∀ {o : SendPacketOptions}, sendPacketContinue o (endpointFor o.remoteUserId) =
    .inr c →
      some o = some c.options ∧ c.endpoint = endpointFor c.options.remoteUserId ∧
      c.endpoint.valid = true := by
    intro o ho
    unfold sendPacketContinue at ho
    split at ho
    · cases ho
    · next hv =>
        cases ho
        exact ⟨rfl, rfl, by simpa using hv⟩
  unfold sendPacketOpen at h
  cases options with
  | none => cases h
  | some o =>
      dsimp only at h
      cases hcheck : o.check with
      | error e => rw [hcheck] at h; cases h
      | ok socket =>
          rw [hcheck] at h
          dsimp only at h
          cases hconn : p.connections.get? (connKey o.remoteUserId socket) with
          | none =>
              rw [hconn] at h
              dsimp only at h
              split at h
              · cases h
              · exact hcont (congrArg (fun r => r.2.2) h)
          | some conn =>
              rw [hconn] at h
              dsimp only at h
              split at h
              · cases h
              · exact hcont (congrArg (fun r => r.2.2) h)

/-- Only a new `SendPacket` adds to the waiting calls. -/
theorem step_sending {n n' : P2PNode} {c : Call} {outs : List Out}
    (h : n.step c = some (n', outs)) :
    ∀ call ∈ n'.sending, call ∈ n.sending ∨ c = .sendPacket (some call.options) ∧
      call.endpoint = n.endpointFor call.options.remoteUserId ∧ call.endpoint.valid = true := by
  intro call hcall
  cases c with
  | sendPacket options =>
      simp only [step] at h
      generalize hr : sendPacketOpen n.localPid n.endpointFor options n.p2p = r at h
      obtain ⟨p, outs', result⟩ := r
      cases result with
      | inl r =>
          cases h
          simp only [recordReturn_sending] at hcall
          exact .inl hcall
      | inr c' =>
          cases h
          rcases List.mem_append.1 hcall with hold | hnew
          · exact .inl hold
          · obtain rfl := List.mem_singleton.1 hnew
            obtain ⟨rfl, hendpoint⟩ := sendPacketOpen_call hr
            exact .inr ⟨rfl, hendpoint⟩
  | sendPacketQueue i now =>
      simp only [step] at h
      split at h
      · cases h
      · cases h
        simp only [recordReturn_sending] at hcall
        exact .inl (List.mem_of_mem_eraseIdx hcall)
  | observe peer endpoint =>
      simp only [step] at h
      split at h <;> cases h
      exact .inl hcall
  | _ =>
      cases h
      exact .inl hcall

end P2PNode

end EOSEmu
