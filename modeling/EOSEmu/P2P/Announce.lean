import EOSEmu.P2P.Connections

/-!
# Announcing a connection

A new outbound connection announces itself with a `P2PConnectRequest`, so that the peer's observer
can fire, but only in the `SendPacket` that creates it and only if the peer's endpoint is known by
then. `announced` shows that data is preceded by the announcement where every `SendPacket` that
creates a connection knows the endpoint; `not_announced` discovers the peer between two sends.
-/

namespace EOSEmu

open Lib (Dict Run Always Trace Transition Since exec execIf)

/-- The peer and socket of a `SendPacket` call that passes the argument checks. -/
def NodeAction.target : NodeAction → Option (ProductUserId × Bytes)
  | .call (.sendPacket (some o)) =>
      match o.check with
      | .ok socket => some (o.remoteUserId, socket)
      | .error _ => none
  | _ => none

/-- A `P2PConnectRequest` to a valid endpoint. -/
def Out.isRequest (socket : Bytes) : Out → Bool
  | .send e d => e.valid && d.socket = socket && d.body = .connectRequest
  | _ => false

/-- `SendPacket` created the connection. -/
def CreatedBySend (key : Bytes) (tr : Transition P2PNode NodeAction) : Prop :=
  (∃ t ∈ tr.action.target, connKey t.1 t.2 = key) ∧ Created key tr

/-- `SendPacket` sent a `P2PConnectRequest` for the connection, to a valid endpoint. -/
def Requested (key : Bytes) (tr : Transition P2PNode NodeAction) : Prop :=
  ∃ t ∈ tr.action.target, connKey t.1 t.2 = key ∧
    ∃ out ∈ tr.pre.outs tr.action, out.isRequest t.2 = true

instance {key : Bytes} : DecidablePred (CreatedBySend key) := fun _ =>
  inferInstanceAs (Decidable (_ ∧ _))

instance {key : Bytes} : DecidablePred (Requested key) := fun tr =>
  inferInstanceAs (Decidable (∃ t ∈ tr.action.target, connKey t.1 t.2 = key ∧
    ∃ out ∈ tr.pre.outs tr.action, out.isRequest t.2 = true))

/-- A `SendPacket` that creates a connection knows its peer's endpoint. -/
def PeerKnown (n : P2PNode) : NodeAction → Prop
  | .call (.sendPacket (some o)) => ∀ socket, o.check = .ok socket → o.autoAccept = true →
      n.p2p.connections.get? (connKey o.remoteUserId socket) = none →
      (n.endpointFor o.remoteUserId).valid = true
  | _ => True

/-- An action with a target is a `SendPacket` call. -/
theorem NodeAction.target_eq {a : NodeAction} {t : ProductUserId × Bytes} (h : t ∈ a.target) :
    ∃ o, a = .call (.sendPacket (some o)) ∧ o.check = .ok t.2 ∧ o.remoteUserId = t.1 := by
  unfold NodeAction.target at h
  split at h
  · next o =>
      split at h
      · next socket hcheck =>
          cases h
          exact ⟨o, rfl, hcheck, rfl⟩
      · cases h
  · cases h

/-- A `SendPacket` that creates a connection to a known peer announces it. -/
theorem requested_of_created {n n' : P2PNode} {a : NodeAction} {key : Bytes} (hok : PeerKnown n a)
    (h : nodeStep n a = some n') (hnew : CreatedBySend key ⟨n, a, n'⟩) :
    Requested key ⟨n, a, n'⟩ := by
  obtain ⟨⟨⟨peer, socket⟩, htarget, hkey⟩, hcreated⟩ := hnew
  obtain ⟨o, ha, hcheck, hpeer⟩ := NodeAction.target_eq htarget
  dsimp only at ha hcheck hpeer hkey
  subst ha hpeer
  have hnone : n.p2p.connections.get? (connKey o.remoteUserId socket) = none := hkey ▸ hcreated.1
  -- with auto-accept off nothing is created
  have hauto : o.autoAccept = true := by
    by_contra hauto
    have hopen : sendPacketOpen n.localPid n.endpointFor (some o) n.p2p =
        (n.p2p, [], .inl .noConnection) := by
      refine sendPacketOpen_noConnection hcheck (by simpa using hauto) ?_
      intro conn hc
      rw [hnone] at hc
      cases hc
    have hpost := hcreated.2
    simp only [nodeStep, P2PNode.step, hopen, Option.map_some, Option.some.injEq] at h
    rw [← h, P2PNode.recordReturn_p2p] at hpost
    have hpre : n.p2p.connections.get? key = none := hcreated.1
    simp only [P2PNode.update, hpre] at hpost
    cases hpost
  have hvalid := hok socket hcheck hauto hnone
  refine ⟨(o.remoteUserId, socket), htarget, hkey,
    .send (n.endpointFor o.remoteUserId) ⟨n.localPid, socket, .connectRequest⟩, ?_, ?_⟩
  · unfold P2PNode.outs P2PNode.step sendPacketOpen
    simp only [hcheck, hnone, hauto, hvalid, sendPacketContinue, Bool.not_true, Bool.false_eq_true,
      if_false, if_true, Option.map_some, Option.getD_some]
    exact List.mem_singleton_self _
  · simp [Out.isRequest, hvalid]

/-- What `SendPacket` transmits goes out announced: when it sends data to a valid endpoint on a
connection that our own `SendPacket` created, a `P2PConnectRequest` for that connection was sent to
a valid endpoint in its lifetime. -/
def P2PNode.Announced (n : P2PNode) (l : List (Transition P2PNode NodeAction)) : Prop :=
  ∀ i now c e pos, n.sending[i]? = some c → e.valid = true →
    .send e (c.options.datagram n.localPid pos) ∈ n.outs (.call (.sendPacketQueue i now)) →
    let key := connKey c.options.remoteUserId (socketName c.options.socketId)
    Since (CreatedBySend key) (fun tr => Created key tr ∨ Removed key tr) l →
    Since (Requested key) (Created key) l

/-- **A connection is announced before data**, in every run in which each `SendPacket` that creates
a connection knows its peer's endpoint. -/
theorem announced (localPid : ProductUserId) {l : List (Transition P2PNode NodeAction)}
    {n : P2PNode} (h : Trace nodeStep PeerKnown (P2PNode.start localPid) l n) : n.Announced l := by
  intro i now c e pos _ _ _ key hown
  refine h.invariant (P := fun l _ => Since (CreatedBySend key)
    (fun tr => Created key tr ∨ Removed key tr) l → Since (Requested key) (Created key) l)
    (fun hnil => absurd hnil Lib.not_since_nil) ?_ hown
  intro l u v a _ ih hok hst hown
  rcases Lib.since_snoc.1 hown with hnew | ⟨hown, hsame⟩
  · exact .now (requested_of_created hok hst hnew)
  · exact (ih hown).later fun hnew => hsame (.inl hnew)

/-- The executable form of `PeerKnown`. -/
def peerTest (n : P2PNode) : NodeAction → Bool
  | .call (.sendPacket (some o)) =>
      n.p2p.connections.contains (connKey o.remoteUserId (socketName o.socketId)) ||
        (n.endpointFor o.remoteUserId).valid
  | _ => true

/-- A step that passes the test meets `PeerKnown`. -/
theorem peerTest_known (n : P2PNode) (a : NodeAction) (h : peerTest n a = true) :
    PeerKnown n a := by
  unfold PeerKnown
  split
  · intro socket hcheck _ hnone
    rw [SendPacketOptions.check_socket hcheck] at hnone
    simpa only [peerTest, Dict.contains, hnone, Option.isSome_none, Bool.false_or] using h
  · trivial

/-- `a` learns of `b` and sends: between the two sections of `SendPacket` the connection is
announced. -/
theorem announced_sample :
    ∃ l n, Trace nodeStep PeerKnown (P2PNode.start (str "a")) l n ∧
      n.sending = [⟨samplePacket, sampleEndpoint⟩] ∧ n.Announced l := by
  have hrun : (execIf nodeStep peerTest (P2PNode.start (str "a"))
      [.call (.observe (str "b") sampleEndpoint), .call (.sendPacket (some samplePacket))]).map
        (fun n => n.sending) = some [⟨samplePacket, sampleEndpoint⟩] := by decide +kernel
  obtain ⟨n, hn, hsending⟩ := Option.map_eq_some_iff.1 hrun
  have hl := Trace.of_execIf peerTest_known hn
  exact ⟨_, n, hl, hsending, announced (str "a") hl⟩

/-- The first send creates the connection while `b` is unknown, then `b` is discovered, and the
second send goes on to transmit. -/
def discoveredLater : List NodeAction :=
  [.call (.sendPacket (some samplePacket)), .call (.observe (str "b") sampleEndpoint),
    .call (.sendPacket (some samplePacket))]

/-- Without the condition this fails: data goes out on a connection that was never announced. -/
theorem not_announced :
    ¬ ∀ l n, Trace nodeStep Always (P2PNode.start (str "a")) l n → n.Announced l := by
  intro h
  let key := connKey (str "b") (str "CHAT")
  let l := Lib.transitions nodeStep (P2PNode.start (str "a")) discoveredLater
  have hrun : (exec nodeStep (P2PNode.start (str "a")) discoveredLater).map
    (fun n => (n.sending[0]?, (n.outs (.call (.sendPacketQueue 0 0))).contains
        (.send sampleEndpoint (samplePacket.datagram n.localPid ⟨0, 1⟩)))) =
      some (some ⟨samplePacket, sampleEndpoint⟩, true) := by decide +kernel
  obtain ⟨n, hn, heq⟩ := Option.map_eq_some_iff.1 hrun
  obtain ⟨hsending, hsent⟩ := Prod.ext_iff.1 heq
  have hown : Since (CreatedBySend key) (fun tr => Created key tr ∨ Removed key tr) l := by
    decide +kernel
  have hsilent : ¬ Since (Requested key) (Created key) l := by decide +kernel
  exact hsilent (h l n (Trace.of_exec hn) 0 0 _ sampleEndpoint ⟨0, 1⟩ hsending rfl
    (List.contains_iff_mem.1 hsent) hown)

end EOSEmu
