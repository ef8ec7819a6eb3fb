import EOSEmu.P2P.Timeout

/-!
# One connection does not touch another

Connections and streams live in maps keyed by strings that `ConnKey` and `StreamKey` put together,
and `ClearStreams` erases by a prefix of them. On names without NUL bytes the keys are injective
and the prefix is exact, whatever the channel byte. What is done to one connection therefore leaves
the entry and the streams of every other one as they were (`SameConnection`).
-/

namespace EOSEmu

open Lib (Dict Run)

/-! ## Keys -/

/-- `ConnKey` is injective on user ids without NUL bytes. -/
theorem connKey_inj {p q : ProductUserId} {s t : Bytes} (hp : Plain p) (hq : Plain q)
    (h : connKey p s = connKey q t) : p = q ∧ s = t :=
  append_sep_inj hp hq h

/-- Two different connections, with plain names. -/
structure Apart (peer : ProductUserId) (socket : Bytes) (peer' : ProductUserId) (socket' : Bytes) :
    Prop where
  plainPeer : Plain peer
  plainSocket : Plain socket
  plainPeer' : Plain peer'
  plainSocket' : Plain socket'
  ne : ¬ (peer' = peer ∧ socket' = socket)

namespace Apart
variable {peer peer' : ProductUserId} {socket socket' : Bytes}

/-- They have different connection keys. -/
theorem connKey_ne (h : Apart peer socket peer' socket') :
    connKey peer' socket' ≠ connKey peer socket :=
  fun heq => h.ne (connKey_inj h.plainPeer' h.plainPeer heq)

/-- They share no stream key. -/
theorem streamKey_ne (h : Apart peer socket peer' socket') (c d : UInt8) (o o' : Bool) :
    streamKey peer' socket' c o ≠ streamKey peer socket d o' := by
  intro heq
  obtain ⟨hp, hs, _⟩ := streamKey_inj h.plainPeer' h.plainPeer heq
  exact h.ne ⟨hp, hs⟩

/-- The prefix of one begins no stream key of the other. -/
theorem not_prefixed (h : Apart peer socket peer' socket') (c : UInt8) (o : Bool) :
    (streamPrefix peer socket).isPrefixOf (streamKey peer' socket' c o) = false := by
  rw [Bool.eq_false_iff]
  intro hpre
  obtain ⟨hp, hs⟩ := streamPrefix_eq h.plainPeer h.plainSocket h.plainPeer' h.plainSocket' hpre
  exact h.ne ⟨hp.symm, hs.symm⟩

end Apart

/-- The prefix of a connection begins the keys of its own streams, and among plain names of no
others. -/
theorem streamPrefix_iff {p q : ProductUserId} {s t : Bytes} {c : UInt8} {o : Bool} (hp : Plain p)
    (hs : Plain s) (hq : Plain q) (ht : Plain t) :
    (streamPrefix p s).isPrefixOf (streamKey q t c o) = true ↔
    q = p ∧ t = s := by
  constructor
  · intro h
    obtain ⟨hpq, hst⟩ := streamPrefix_eq hp hs hq ht h
    exact ⟨hpq.symm, hst.symm⟩
  · rintro ⟨rfl, rfl⟩
    exact streamPrefix_isPrefixOf _ _ _ _

/-- `ClearStreams` on a node with plain names erases exactly the streams of the peer and the
socket. -/
theorem P2PNode.Named.clearStreams {n : P2PNode} (hn : n.Named) {peer : ProductUserId}
    {socket : Bytes} (hpeer : Plain peer) (hsocket : Plain socket) (key : Bytes) :
    ((n.p2p.clearStreams peer socket).sendStreams.get? key =
      (n.p2p.sendStreams.get? key).filter fun s => ¬ (s.peer = peer ∧ s.socket = socket)) ∧
    ((n.p2p.clearStreams peer socket).recvStreams.get? key =
      (n.p2p.recvStreams.get? key).filter fun s => ¬ (s.peer = peer ∧ s.socket = socket)) := by
  obtain ⟨hsend, hrecv⟩ := get?_clearStreams n.p2p peer socket key
  constructor
  · rw [hsend]
    cases hs : n.p2p.sendStreams.get? key with
    | none => simp
    | some s =>
        obtain ⟨⟨c, o, hkey⟩, hp, ht⟩ := hn.sends key s hs
        simp only [hkey, streamPrefix_iff hpeer hsocket hp ht]
        by_cases h : s.peer = peer ∧ s.socket = socket <;> simp [h, Option.filter]
  · rw [hrecv]
    cases hs : n.p2p.recvStreams.get? key with
    | none => simp
    | some s =>
        obtain ⟨⟨c, o, hkey⟩, hp, ht⟩ := hn.recvs key s hs
        simp only [hkey, streamPrefix_iff hpeer hsocket hp ht]
        by_cases h : s.peer = peer ∧ s.socket = socket <;> simp [h, Option.filter]

/-! ## Frames -/

/-- The connection entry, the send streams and the receive streams of a connection are the same in
both states. -/
structure SameConnection (peer : ProductUserId) (socket : Bytes) (p q : P2P) : Prop where
  connection : q.connections.get? (connKey peer socket) = p.connections.get? (connKey peer socket)
  sendStreams : ∀ c o, q.sendStreams.get? (streamKey peer socket c o) =
    p.sendStreams.get? (streamKey peer socket c o)
  recvStreams : ∀ c o, q.recvStreams.get? (streamKey peer socket c o) =
    p.recvStreams.get? (streamKey peer socket c o)

namespace SameConnection
variable {peer peer' : ProductUserId} {socket socket' : Bytes} {p q r : P2P}

/-- Nothing changed. -/
theorem refl (p : P2P) : SameConnection peer socket p p := ⟨rfl, fun _ _ => rfl, fun _ _ => rfl⟩

/-- One step after another. -/
theorem trans (h : SameConnection peer socket p q) (h' : SameConnection peer socket q r) :
    SameConnection peer socket p r where
  connection := h'.connection.trans h.connection
  sendStreams c o := (h'.sendStreams c o).trans (h.sendStreams c o)
  recvStreams c o := (h'.recvStreams c o).trans (h.recvStreams c o)

/-- Writing one connection leaves the other's part alone. -/
theorem setConn (h : Apart peer socket peer' socket') (p : P2P) (conn : Connection) :
    SameConnection peer' socket' p (p.setConn peer socket conn) where
  connection := by rw [P2P.setConn, Dict.get?_set, if_neg h.connKey_ne]
  sendStreams _ _ := rfl
  recvStreams _ _ := rfl

/-- Writing a sending stream leaves the other connection's part alone. -/
theorem setSend (h : Apart peer socket peer' socket') (p : P2P) (c : UInt8) (o : Bool)
    (s : SendStream) :
    SameConnection peer' socket' p
      { p with sendStreams := p.sendStreams.set (streamKey peer socket c o) s } where
  connection := rfl
  sendStreams d o' := by
    show (p.sendStreams.set (streamKey peer socket c o) s).get? _ = _
    rw [Dict.get?_set, if_neg (h.streamKey_ne d c o' o)]
  recvStreams _ _ := rfl

/-- Writing a receiving stream leaves the other connection's part alone. -/
theorem setRecv (h : Apart peer socket peer' socket') (p : P2P) (b : Inbox) (c : UInt8) (o : Bool)
    (s : RecvStream) : SameConnection peer' socket' p
      { p with inbox := b, recvStreams := p.recvStreams.set (streamKey peer socket c o) s } where
  connection := rfl
  sendStreams _ _ := rfl
  recvStreams d o' := by
    show (p.recvStreams.set (streamKey peer socket c o) s).get? _ = _
    rw [Dict.get?_set, if_neg (h.streamKey_ne d c o' o)]

/-- Closing one connection leaves the other's part alone. -/
theorem closeLocal (h : Apart peer socket peer' socket') (p : P2P) :
    SameConnection peer' socket' p (p.closeLocal peer socket) where
  connection := by
    rw [P2P.closeLocal, Dict.get?_erase, if_neg h.connKey_ne]
  sendStreams c o := by
    have hclear := (get?_clearStreams p peer socket (streamKey peer' socket' c o)).1
    rwa [h.not_prefixed, if_neg Bool.false_ne_true] at hclear
  recvStreams c o := by
    have hclear := (get?_clearStreams p peer socket (streamKey peer' socket' c o)).2
    rwa [h.not_prefixed, if_neg Bool.false_ne_true] at hclear

/-- A datagram of one connection. -/
theorem onMessage {m : Datagram UInt32} (h : Apart m.sender m.socket peer' socket') (p : P2P)
    (localPid : ProductUserId) (from_ : Endpoint) (inc : ℕ) (now : TimePoint) :
    SameConnection peer' socket' p (p.onMessage localPid from_ m inc now).1 := by
  unfold P2P.onMessage
  split
  · unfold P2P.onConnectRequest
    dsimp only
    split
    · exact setConn h p _
    · split
      · exact refl p
      · exact refl p
  · exact closeLocal h p
  · exact setConn h p _
  · exact closeLocal h p
  · next channel mode seq bytes _ =>
      have hlearn : SameConnection peer' socket' p (p.learnConn from_ m.sender m.socket) :=
        setConn h p _
      unfold P2P.onData
      dsimp only
      split
      · exact hlearn.trans ⟨rfl, fun _ _ => rfl, fun _ _ => rfl⟩
      · exact hlearn.trans (setRecv h _ _ channel _ _)
  · next channel orderedByte ackSeq sack _ =>
      have hlife : SameConnection peer' socket' p (p.proofOfLife m.sender m.socket) := by
        unfold P2P.proofOfLife
        split
        · exact setConn h p _
        · exact refl p
      unfold P2P.onAck
      dsimp only
      split
      · exact hlife
      · exact hlife.trans (setSend h _ channel _ _)

/-- A list of connections whose streams are cleared. -/
theorem clearStreams {l : List (ProductUserId × Bytes)} (h : ∀ c ∈ l, Apart c.1 c.2 peer' socket')
    (p : P2P) (c : UInt8) (o : Bool) :
    (l.foldl (fun q c => q.clearStreams c.1 c.2) p).sendStreams.get?
      (streamKey peer' socket' c o) = p.sendStreams.get? (streamKey peer' socket' c o) ∧
      (l.foldl (fun q c => q.clearStreams c.1 c.2) p).recvStreams.get?
        (streamKey peer' socket' c o) = p.recvStreams.get? (streamKey peer' socket' c o) := by
  have hnone : clearsAny l (streamKey peer' socket' c o) = false := by
    rw [Bool.eq_false_iff]
    intro hany
    obtain ⟨x, hx, hpre⟩ := List.any_eq_true.1 hany
    rw [(h x hx).not_prefixed] at hpre
    cases hpre
  have hclear := get?_foldl_clearStreams l p (streamKey peer' socket' c o)
  rwa [hnone, if_neg Bool.false_ne_true, if_neg Bool.false_ne_true] at hclear

/-- The sweep of `Pump` leaves a connection alone that has not timed out. -/
theorem sweep (hkeyed : p.ConnKeyed)
    (hplain : ∀ key conn, p.connections.get? key = some conn → Plain conn.peer ∧
    Plain conn.socketName)
    (hpeer : Plain peer) (hsocket : Plain socket) {now : TimePoint}
    (hlive : ∀ conn, p.connections.get? (connKey peer socket) = some conn →
    P2P.timedOut now conn = false) :
    SameConnection peer socket p (p.sweep now).1 := by
  have hdead : ∀ c ∈ (p.sweep now).2, Apart c.1 c.2 peer socket := by
    intro c hc
    obtain ⟨⟨key, conn⟩, he, rfl⟩ := List.mem_map.1 hc
    obtain ⟨hmem, htime⟩ := List.mem_filter.1 he
    have hget := Dict.mem_entries.1 hmem
    obtain ⟨hp, hs⟩ := hplain key conn hget
    refine ⟨hp, hs, hpeer, hsocket, ?_⟩
    rintro ⟨rfl, rfl⟩
    rw [hkeyed key conn hget] at hget
    exact absurd htime (by simp [hlive conn hget])
  refine ⟨?_, fun c o => (clearStreams hdead p c o).1, fun c o => (clearStreams hdead p c o).2⟩
  show (p.connections.eraseIf fun _ conn => P2P.timedOut now conn).get? _ = _
  rw [Dict.get?_eraseIf]
  cases hget : p.connections.get? (connKey peer socket) with
  | none => rfl
  | some conn => simp [hlive conn hget]

end SameConnection

/-! ## The steps of a node -/

/-- What `Pump` leaves before it looks for connections that have timed out. -/
def P2P.beforeSweep (p : P2P) (now : TimePoint) : P2P :=
  let drained := p.recvStreams.mapAccum P2P.drainOne (p.inbox, [])
  let sent := p.sendStreams.mapAccum (retransmit now) { connections := p.connections }
  { p with
    inbox := drained.1.1, recvStreams := drained.2
    connections := sent.1.connections, sendStreams := sent.2 }

/-- `Pump` ends with the sweep. -/
theorem P2P.pump_eq_sweep (p : P2P) (now : TimePoint) :
    (p.pump now).1 = ((p.beforeSweep now).sweep now).1 := rfl

/-- The connections keep their names up to the sweep. -/
theorem P2P.beforeSweep_conn (p : P2P) (now : TimePoint) (key : Bytes) :
    (p.connections.get? key).map (fun c => (c.peer, c.socketName)) =
      ((p.beforeSweep now).connections.get? key).map fun c => (c.peer, c.socketName) :=
  Dict.mapAccum_inv (P := Interrupts p) (fun _ key s _ ih => ih.retransmit now key s)
    (fun _ => rfl) key

/-- Names that the connections had before are theirs before the sweep. -/
theorem P2P.beforeSweep_names {p : P2P} {now : TimePoint} {key : Bytes} {conn : Connection}
    (h : (p.beforeSweep now).connections.get? key = some conn) :
    ∃ c, p.connections.get? key = some c ∧ c.peer = conn.peer ∧
    c.socketName = conn.socketName := by
  have hmap := p.beforeSweep_conn now key
  rw [h] at hmap
  obtain ⟨c, hc, heq⟩ := Option.map_eq_some_iff.1 hmap
  exact ⟨c, hc, congrArg Prod.fst heq, congrArg Prod.snd heq⟩

/-- What is done to one connection: `CloseConnection`, or a received datagram of any kind. -/
inductive ConnectionOp (n : P2PNode) (peer : ProductUserId) (socket : Bytes) : P2P → Prop
  | close {socketId : Option Bytes} : peer ≠ [] → socketName socketId = socket →
      ConnectionOp n peer socket (n.p2p.closeConnection n.localPid (some ⟨peer, socketId⟩)).1
  | message {m : Datagram UInt32} (from_ : Endpoint) (inc : ℕ) (now : TimePoint) : m.sender =
      peer →
      m.socket = socket → ConnectionOp n peer socket (n.p2p.onMessage n.localPid from_ m inc now).1

/-- It leaves every other connection as it was. -/
theorem ConnectionOp.same {n : P2PNode} {peer peer' : ProductUserId} {socket socket' : Bytes}
    {q : P2P} (h : ConnectionOp n peer socket q) (hapart : Apart peer socket peer' socket') :
    SameConnection peer' socket' n.p2p q := by
  cases h with
  | close hpeer hsocket =>
      subst hsocket
      rw [P2P.closeConnection, if_neg hpeer]
      exact .closeLocal hapart n.p2p
  | message from_ inc now hpeer hsocket =>
      subst hpeer hsocket
      exact .onMessage hapart n.p2p n.localPid from_ inc now

/-- **Stream isolation.** On names without NUL bytes `ConnKey` and `StreamKey` are injective; on
every node that met only such names `ClearStreams` erases exactly the streams of its peer and
socket; and closing one connection, handling any datagram of it, or the sweep over the connections
that have timed out leaves the entry and the streams of every other connection unchanged. -/
theorem stream_isolation :
    (∀ p q s t, Plain p → Plain q → connKey p s = connKey q t → p = q ∧ s = t) ∧
    (∀ p q s t c d o o', Plain p → Plain q → streamKey p s c o = streamKey q t d o' →
      p = q ∧ s = t ∧ c = d ∧ o = o') ∧
    (∀ p q s t c o, Plain p → Plain s → Plain q → Plain t →
      ((streamPrefix p s).isPrefixOf (streamKey q t c o) = true ↔ q = p ∧ t = s)) ∧
    ∀ localPid n, Run nodeStep PlainNames (P2PNode.start localPid) n →
      (∀ peer socket key, Plain peer → Plain socket →
        (n.p2p.clearStreams peer socket).sendStreams.get? key =
          (n.p2p.sendStreams.get? key).filter (fun s => ¬ (s.peer = peer ∧ s.socket = socket)) ∧
        (n.p2p.clearStreams peer socket).recvStreams.get? key =
          (n.p2p.recvStreams.get? key).filter fun s => ¬ (s.peer = peer ∧ s.socket = socket)) ∧
      (∀ peer socket q, ConnectionOp n peer socket q → Plain peer → Plain socket →
        ∀ peer' socket', Plain peer' → Plain socket' → ¬ (peer' = peer ∧ socket' = socket) →
          SameConnection peer' socket' n.p2p q) ∧
      ∀ now peer socket, Plain peer → Plain socket →
        (∀ conn, (n.p2p.beforeSweep now).connections.get? (connKey peer socket) = some conn →
          P2P.timedOut now conn = false) →
        SameConnection peer socket (n.p2p.beforeSweep now) (n.p2p.pump now).1 := by
  refine ⟨fun p q s t hp hq => connKey_inj hp hq, fun p q s t c d o o' hp hq => streamKey_inj hp
    hq, fun p q s t c o hp hs hq ht => streamPrefix_iff hp hs hq ht, ?_⟩
  intro localPid n hrun
  have hnamed := named_of_run hrun
  refine ⟨fun peer socket key hp hs => hnamed.clearStreams hp hs key, ?_, ?_⟩
  · intro peer socket q hop hp hs peer' socket' hp' hs' hne
    exact hop.same ⟨hp, hs, hp', hs', hne⟩
  · intro now peer socket hp hs hlive
    rw [P2P.pump_eq_sweep]
    refine .sweep ?_ ?_ hp hs hlive
    · intro key conn hconn
      obtain ⟨c, hc, hpeer, hsocket⟩ := P2P.beforeSweep_names hconn
      rw [keyed_of_run hrun key c hc, hpeer, hsocket]
    · intro key conn hconn
      obtain ⟨c, hc, hpeer, hsocket⟩ := P2P.beforeSweep_names hconn
      rw [← hpeer, ← hsocket]
      exact hnamed.conns key c hc

end EOSEmu
