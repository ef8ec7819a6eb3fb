import EOSEmu.P2P.Connections

/-!
# Consent

`bAcceptedLocally` is what lets `SendPacket` without auto-accept through. It is set by
`AcceptConnection` and by a `SendPacket` with auto-accept, and also by a received
`P2PConnectAccept`, whoever asked for it. `consented` shows that this datagram is the only way
around the application: where every `P2PConnectAccept` finds the connection already accepted, a
connection is accepted only if the application consented since it was created or closed.
`not_consented` is an unsolicited one.
-/

namespace EOSEmu

open Lib (Dict Run Always Trace Transition Since exec execIf)

/-- The application asks for the connection: it accepts it, or sends on it with auto-accept. -/
def Consents (key : Bytes) (a : NodeAction) : Prop :=
  (∃ o socket, a = .call (.sendPacket (some o)) ∧ o.check = .ok socket ∧
    connKey o.remoteUserId socket = key ∧ o.autoAccept = true) ∨
  ∃ o, a = .call (.acceptConnection (some o)) ∧ o.remoteUserId ≠ [] ∧ o.socketId.isSome = true ∧
    connKey o.remoteUserId (socketName o.socketId) = key

/-- The application has consented since the connection was last created or last closed locally. -/
def Consented (key : Bytes) (l : List (Transition P2PNode NodeAction)) : Prop :=
  Since (fun tr => Consents key tr.action) (fun tr => Created key tr ∨ ClosedLocally key tr) l

/-- A `P2PConnectAccept` finds its connection accepted. -/
def AcceptExpected (n : P2PNode) (a : NodeAction) : Prop :=
  ∀ m, a.received = some m → m.body = .connectAccept → ∃ conn,
    n.p2p.connections.get? (connKey m.sender m.socket) = some conn ∧ conn.bAcceptedLocally = true

/-- Consent lasts while the connection does. -/
theorem Consented.later {key : Bytes} {l : List (Transition P2PNode NodeAction)}
    {tr : Transition P2PNode NodeAction} (h : Consented key l)
    (hpre : (tr.pre.p2p.connections.get? key).isSome = true)
    (hpost : (tr.post.p2p.connections.get? key).isSome = true) : Consented key (l ++ [tr]) := by
  obtain ⟨hcreated, hremoved⟩ := not_created_or_removed hpre hpost
  refine Since.later h ?_
  rintro (hc | hc)
  · exact hcreated hc
  · exact hremoved hc.1

/-- One step. -/
theorem consented_step {n n' : P2PNode} {a : NodeAction} {key : Bytes}
    {l : List (Transition P2PNode NodeAction)} (hp : n.p2p.ConnKeyed) (hok : AcceptExpected n a)
    (h : nodeStep n a = some n')
    (ih : ∀ conn, n.p2p.connections.get? key = some conn → conn.bAcceptedLocally = true →
      Consented key l) {conn : Connection} (hconn : n'.p2p.connections.get? key = some conn)
    (hacc : conn.bAcceptedLocally = true) : Consented key (l ++ [⟨n, a, n'⟩]) := by
  have hpost : (n'.p2p.connections.get? key).isSome = true := by rw [hconn]; rfl
  -- a connection that was accepted before the step
  have hkept : ∀ c, n.p2p.connections.get? key = some c → c.bAcceptedLocally = true →
      Consented key (l ++ [⟨n, a, n'⟩]) := by
    intro c hc hcacc
    refine (ih c hc hcacc).later ?_ hpost
    show (n.p2p.connections.get? key).isSome = true
    rw [hc]
    rfl
  have hchange := nodeStep_conn hp h key
  generalize ho : n.p2p.connections.get? key = o at hchange hkept
  rw [hconn] at hchange
  generalize postsOf key (n.outs a) = notes at hchange
  generalize ho' : some conn = o' at hchange
  cases hchange with
  | keep => exact hkept conn ho'.symm hacc
  | send ha hcheck hkey hconsent =>
      rcases hconsent with hauto | ⟨c, hc, hcacc⟩
      · exact .now (.inl ⟨_, _, ha, hcheck, hkey, hauto⟩)
      · exact hkept c hc hcacc
  | accept ha hpeer hsocket hkey => exact .now (.inr ⟨_, ha, hpeer, hsocket, hkey⟩)
  | request hm hbody hkey hfresh =>
      cases ho'
      cases o with
      | none => cases hacc
      | some c =>
          have htrue : c.bAcceptedLocally = true := hacc
          have hfalse : c.bAcceptedLocally = false := hfresh
          rw [htrue] at hfalse
          cases hfalse
  | accepted hm hbody hkey =>
      obtain ⟨c, hc, hcacc⟩ := hok _ hm hbody
      rw [hkey, ho] at hc
      exact hkept c hc hcacc
  | data hm hbody hkey =>
      cases ho'
      cases o with
      | none => cases hacc
      | some c => exact hkept c rfl hacc
  | ack hm hbody hkey =>
      cases ho'
      exact hkept _ rfl hacc
  | interrupt ha hfresh hkey hun =>
      cases ho'
      exact hkept _ rfl hacc
  | closeLocal | ignored | closedByPeer | timeout => cases ho'

/-- **Local consent**, as long as every `P2PConnectAccept` is expected: in every run of API calls
and arbitrary datagrams, a connection is accepted only if the application consented since it was
created or closed locally; until then `SendPacket` without auto-accept answers
`EOS_NoConnection`. -/
theorem consented (localPid : ProductUserId) {l : List (Transition P2PNode NodeAction)}
    {n : P2PNode} (h : Trace nodeStep AcceptExpected (P2PNode.start localPid) l n) (key : Bytes) :
    (∀ conn, n.p2p.connections.get? key = some conn → conn.bAcceptedLocally = true →
      Consented key l) ∧
    (¬ Consented key l → ∀ o socket, o.check = .ok socket → connKey o.remoteUserId socket = key →
      o.autoAccept = false →
      (sendPacketOpen n.localPid n.endpointFor (some o) n.p2p).2.2 = .inl .noConnection) := by
  have hinv : ∀ conn, n.p2p.connections.get? key = some conn → conn.bAcceptedLocally = true →
      Consented key l := by
    refine h.invariant (P := fun l n => ∀ conn, n.p2p.connections.get? key = some conn →
      conn.bAcceptedLocally = true → Consented key l) ?_ ?_
    · intro conn hc
      cases hc
    · intro l u v a hl ih hok hst conn hc hacc
      exact consented_step (keyed_of_run hl.run) hok hst ih hc hacc
  refine ⟨hinv, ?_⟩
  rintro hno o socket hcheck rfl hauto
  rw [sendPacketOpen_noConnection hcheck hauto]
  intro conn hc
  rw [← Bool.not_eq_true]
  exact fun hacc => hno (hinv conn hc hacc)

/-- The application accepts a connection, the peer accepts it too, the application closes it, and
data of the peer creates it again. -/
def consentedCalls : List NodeAction :=
  [.call (.acceptConnection (some ⟨str "b", some (str "CHAT")⟩)),
    .datagram sampleEndpoint .p2pConnectAccept (encode ⟨str "b", str "CHAT", .connectAccept⟩) 0 0,
    .call (.closeConnection (some ⟨str "b", some (str "CHAT")⟩)),
    .datagram sampleEndpoint .p2pData
      (encode ⟨str "b", str "CHAT", .data 0 EPacketReliability.reliableOrdered.toByte 1
        (str "hi")⟩) 0 0]

/-- The executable form of `AcceptExpected`. -/
def acceptTest (n : P2PNode) (a : NodeAction) : Bool :=
  match a.received with
  | none => true
  | some m => match m.body with
    | .connectAccept =>
        match n.p2p.connections.get? (connKey m.sender m.socket) with
        | some conn => conn.bAcceptedLocally
        | none => false
    | _ => true

/-- A step that passes the test meets `AcceptExpected`. -/
theorem acceptTest_expected (n : P2PNode) (a : NodeAction) (h : acceptTest n a = true) :
    AcceptExpected n a := by
  intro m hm hbody
  unfold acceptTest at h
  simp only [hm, hbody] at h
  split at h
  · next conn hc => exact ⟨conn, hc, h⟩
  · cases h

/-- A run that meets the condition: the connection that data created after the close is not
accepted. -/
theorem consented_sample :
    ∃ l n, Trace nodeStep AcceptExpected (P2PNode.start (str "a")) l n ∧
      (n.p2p.connections.get? (connKey (str "b") (str "CHAT"))).map (·.bAcceptedLocally) =
        some false ∧
      ∀ key conn, n.p2p.connections.get? key = some conn → conn.bAcceptedLocally = true →
        Consented key l := by
  have hrun : (execIf nodeStep acceptTest (P2PNode.start (str "a")) consentedCalls).map (fun n =>
      (n.p2p.connections.get? (connKey (str "b") (str "CHAT"))).map (·.bAcceptedLocally)) =
        some (some false) := by decide +kernel
  obtain ⟨n, hn, hacc⟩ := Option.map_eq_some_iff.1 hrun
  have hl := Trace.of_execIf acceptTest_expected hn
  exact ⟨_, n, hl, hacc, fun key => (consented (str "a") hl key).1⟩

/-- Without the condition this fails: one unsolicited `P2PConnectAccept` accepts a connection that
the application never heard of. -/
theorem not_consented :
    ¬ ∀ l n, Trace nodeStep Always (P2PNode.start (str "a")) l n → ∀ key conn,
      n.p2p.connections.get? key = some conn → conn.bAcceptedLocally = true → Consented key l := by
  intro h
  let as : List NodeAction := [.datagram sampleEndpoint .p2pConnectAccept
    (encode ⟨str "b", str "CHAT", .connectAccept⟩) 0 0]
  have hrun : (exec nodeStep (P2PNode.start (str "a")) as).map (fun n =>
      (n.p2p.connections.get? (connKey (str "b") (str "CHAT"))).map (·.bAcceptedLocally)) =
        some (some true) := by decide +kernel
  obtain ⟨n, hn, hconn⟩ := Option.map_eq_some_iff.1 hrun
  obtain ⟨conn, hc, hacc⟩ := Option.map_eq_some_iff.1 hconn
  obtain ⟨before, tr, after, heq, hconsents, _⟩ := h _ n (Trace.of_exec hn) _ conn hc hacc
  -- the only action is a datagram
  have hmem : tr ∈ Lib.transitions nodeStep (P2PNode.start (str "a")) as := by
    rw [heq]
    simp
  rw [List.mem_singleton.1 hmem] at hconsents
  rcases hconsents with ⟨o, socket, ha, _⟩ | ⟨o, ha, _⟩
  · cases ha
  · cases ha

end EOSEmu
