import EOSEmu.Lib.Trace
import EOSEmu.P2P.Orphans

/-!
# What a step can do to a connection

`ConnChange` lists what can become of the `Connections_` entry of one key in a step, and which
notifications about that peer and socket the step posts. `nodeStep_conn` says that the steps of a
node do nothing else; the results about consent, announcement, notifications and timeouts use it
and never unfold a handler.
-/

namespace EOSEmu

open Lib (Dict SeqMap Run Trace Transition)

/-! ## Inputs and outputs of a step -/

/-- The outputs of an action. -/
def P2PNode.outs (n : P2PNode) : NodeAction → List Out
  | .call c => ((n.step c).map Prod.snd).getD []
  | .datagram from_ type payload inc now => (n.onDatagram from_ type payload inc now).2

/-- The datagram an action handles, if it is well-formed. -/
def NodeAction.received : NodeAction → Option (Datagram UInt32)
  | .call _ => none
  | .datagram _ type payload _ _ => decode type payload

/-- The connection a notification is about. -/
def Notification.connKey : Notification → Option Bytes
  | .connectionRequest remote socket => some (EOSEmu.connKey remote socket)
  | .connectionEstablished remote socket _ => some (EOSEmu.connKey remote socket)
  | .connectionInterrupted remote socket => some (EOSEmu.connKey remote socket)
  | .connectionClosed remote socket _ => some (EOSEmu.connKey remote socket)
  | .incomingPacketQueueFull _ => none

/-- The notifications among the outputs. -/
def posts : List Out → List Notification
  | [] => []
  | .post n :: os => n :: posts os
  | _ :: os => posts os

/-- The notifications about one connection. -/
def postsOf (key : Bytes) (os : List Out) : List Notification :=
  (posts os).filter fun n => n.connKey = some key

@[simp] theorem posts_append (os ps : List Out) : posts (os ++ ps) = posts os ++ posts ps := by
  induction os with
  | nil => rfl
  | cons o os ih => cases o <;> simp [posts, ih]

@[simp] theorem postsOf_append (key : Bytes) (os ps : List Out) :
    postsOf key (os ++ ps) = postsOf key os ++ postsOf key ps := by
  rw [postsOf, posts_append, List.filter_append]
  rfl

@[simp] theorem postsOf_nil (key : Bytes) : postsOf key [] = [] := rfl

@[simp] theorem posts_logs {α : Type} (l : List α) (f : α → Event) :
    posts (l.map fun x => .log (f x)) = [] := by
  induction l with
  | nil => rfl
  | cons x l ih => simpa [posts] using ih

@[simp] theorem posts_sends {α : Type} (l : List α) (f : α → Endpoint) (g : α → Datagram Pos) :
    posts (l.map fun x => .send (f x) (g x)) = [] := by
  induction l with
  | nil => rfl
  | cons x l ih => simpa [posts] using ih

@[simp] theorem posts_posts {α : Type} (l : List α) (f : α → Notification) :
    posts (l.map fun x => .post (f x)) = l.map f := by
  induction l with
  | nil => rfl
  | cons x l ih => simpa [posts] using ih

/-- The established notification a handler owes, if any. -/
def establishedNotes (peer : ProductUserId) (socket : Bytes) (established reconnected : Bool) :
    List Notification :=
  if established then [.connectionEstablished peer socket .newConnection]
  else if reconnected then [.connectionEstablished peer socket .reconnection]
  else []

/-- What a handler posts when it establishes a connection. -/
theorem posts_establishedOuts (peer : ProductUserId) (socket : Bytes) (e r : Bool) :
    posts (P2P.establishedOuts peer socket e r) = establishedNotes peer socket e r := by
  cases e <;> cases r <;> rfl

/-- They are about their own connection. -/
theorem postsOf_establishedOuts (key : Bytes) (peer : ProductUserId) (socket : Bytes) (e r : Bool) :
    postsOf key (P2P.establishedOuts peer socket e r) =
      if connKey peer socket = key then establishedNotes peer socket e r else [] := by
  rw [postsOf, posts_establishedOuts]
  unfold establishedNotes
  cases e <;> cases r <;> simp [Notification.connKey, List.filter]
  all_goals split <;> simp_all

/-- The queue-full notification is about no connection. -/
@[simp] theorem postsOf_queueFull (key : Bytes) (c : Bool) (maxBytes : ℕ) :
    postsOf key (if c = true then [.post (.incomingPacketQueueFull maxBytes)] else []) = [] := by
  cases c <;> rfl

/-! ## The changes -/

/-- A datagram that shows the peer is alive: well-formed `P2PData`, `P2PAck` or `P2PConnectAccept`
from this peer on this socket. -/
def NodeAction.IsLife (a : NodeAction) (key : Bytes) : Prop :=
  ∃ m, a.received = some m ∧ connKey m.sender m.socket = key ∧
    match m.body with
    | .data .. | .ack .. | .connectAccept => True
    | _ => False

/-- What keeps a stream's connection from being interrupted is gone: a pending packet of this peer
and socket has been transmitted `kMaxTransmits` times, and its back-off has elapsed. -/
def P2P.Unanswered (p : P2P) (now : TimePoint) (peer : ProductUserId) (socket : Bytes) : Prop :=
  ∃ key s k u, p.sendStreams.get? key = some s ∧ s.peer = peer ∧ s.socket = socket ∧
    s.pending.get? k = some u ∧ maxTransmits ≤ u.tries ∧
    backoff (rtoFor s) u.tries ≤ now - u.lastSent

/-- What can become of the entry of a key in a step, and what is posted about it. -/
inductive ConnChange (n : P2PNode) (a : NodeAction) (key : Bytes) :
    Option Connection → Option Connection → List Notification → Prop
  /-- Nothing. An interrupted connection is not left so by a datagram of its peer, nor by a `Pump`
  after the grace period. -/
  | keep {o : Option Connection} :
      (∀ c, o = some c → a.IsLife key → c.bInterrupted = false) →
      (∀ c now, o = some c → a = .call (.pump now) → P2P.timedOut now c = false) →
      ConnChange n a key o o []
  /-- `SendPacket` accepts the connection, or creates it accepted. -/
  | send {o : Option Connection} {options : SendPacketOptions} {socket : Bytes} {e : Endpoint} :
      a = .call (.sendPacket (some options)) → options.check = .ok socket →
      connKey options.remoteUserId socket = key →
      (options.autoAccept = true ∨ ∃ c, o = some c ∧ c.bAcceptedLocally = true) →
      ConnChange n a key o
        (some { o.getD { peer := options.remoteUserId, socketName := socket } with
        bAcceptedLocally := true, endpoint := e }) []
  /-- `AcceptConnection`. -/
  | accept {o : Option Connection} {options : P2P.ConnectionOptions} {e : Endpoint} :
      a = .call (.acceptConnection (some options)) → options.remoteUserId ≠ [] →
      options.socketId.isSome = true →
      connKey options.remoteUserId (socketName options.socketId) = key →
      ConnChange n a key o (some { o.getD {} with
          peer := options.remoteUserId, socketName := socketName options.socketId, endpoint := e
          bAcceptedLocally := true, bEstablished := true })
        (establishedNotes options.remoteUserId (socketName options.socketId)
          (!(o.getD {}).bEstablished) false)
  /-- `P2PConnectRequest` with a listener, on a connection that is not accepted. -/
  | request {o : Option Connection} {m : Datagram UInt32} {e : Endpoint} :
      a.received = some m → m.body = .connectRequest → connKey m.sender m.socket = key →
      (o.map (·.bAcceptedLocally)).getD false = false →
      ConnChange n a key o
        (some { o.getD {} with peer := m.sender, socketName := m.socket, endpoint := e })
        [.connectionRequest m.sender m.socket]
  /-- `P2PConnectAccept`. -/
  | accepted {o : Option Connection} {m : Datagram UInt32} {e : Endpoint} :
      a.received = some m → m.body = .connectAccept → connKey m.sender m.socket = key →
      ConnChange n a key o (some { o.getD {} with
          peer := m.sender, socketName := m.socket, endpoint := e, bAcceptedLocally := true
          bEstablished := true, bInterrupted := false })
        (establishedNotes m.sender m.socket (!(o.getD {}).bEstablished) (o.getD {}).bInterrupted)
  /-- `P2PData`. -/
  | data {o : Option Connection} {m : Datagram UInt32} {e : Endpoint} :
      a.received = some m → (∃ channel mode seq bytes, m.body = .data channel mode seq bytes) →
      connKey m.sender m.socket = key →
      ConnChange n a key o (some { o.getD {} with
          peer := m.sender, socketName := m.socket, endpoint := e, bEstablished := true
          bInterrupted := false })
        (establishedNotes m.sender m.socket (!(o.getD {}).bEstablished) (o.getD {}).bInterrupted)
  /-- `P2PAck`. -/
  | ack {c : Connection} {m : Datagram UInt32} :
      a.received = some m → (∃ channel ob seq sack, m.body = .ack channel ob seq sack) →
      connKey m.sender m.socket = key →
      ConnChange n a key (some c) (some { c with bInterrupted := false })
        (establishedNotes m.sender m.socket false c.bInterrupted)
  /-- `CloseConnection` and `CloseConnections`. -/
  | closeLocal {o : Option Connection} :
      (∃ options, a = .call (.closeConnection options)) ∨
        (∃ options, a = .call (.closeConnections options)) → ConnChange n a key o none []
  /-- `P2PConnectIgnored`. -/
  | ignored {o : Option Connection} {m : Datagram UInt32} :
      a.received = some m → m.body = .connectIgnored → connKey m.sender m.socket = key →
      ConnChange n a key o none
        (if o.isSome then [.connectionClosed m.sender m.socket .connectionIgnored] else [])
  /-- `P2PConnectClose`. -/
  | closedByPeer {o : Option Connection} {m : Datagram UInt32} :
      a.received = some m → m.body = .connectClose → connKey m.sender m.socket = key →
      ConnChange n a key o none [.connectionClosed m.sender m.socket .closedByPeer]
  /-- `Pump` interrupts. -/
  | interrupt {c : Connection} {now : TimePoint} {peer : ProductUserId} {socket : Bytes} :
      a = .call (.pump now) → c.bInterrupted = false → connKey peer socket = key →
      n.p2p.Unanswered now peer socket →
      ConnChange n a key (some c) (some { c with bInterrupted := true, interruptedAt := now })
        [.connectionInterrupted peer socket]
  /-- `Pump` gives up. -/
  | timeout {c : Connection} {now : TimePoint} :
      a = .call (.pump now) → P2P.timedOut now c = true →
      ConnChange n a key (some c) none [.connectionClosed c.peer c.socketName .timedOut]

section
variable {n : P2PNode} {a : NodeAction} {key : Bytes} {o : Option Connection}

/-- An action that is neither a datagram of the peer nor a `Pump` leaves other keys alone. -/
theorem ConnChange.other (hlife : ¬ a.IsLife key) (hpump : ∀ now, a ≠ .call (.pump now)) :
    ConnChange n a key o o [] :=
  .keep (fun _ _ h => absurd h hlife) fun _ now _ h => absurd h (hpump now)

end

/-! ## Handlers -/

section
variable {n : P2PNode} {key : Bytes}

/-- A call shows no life. -/
theorem not_isLife_call {c : Call} : ¬ (NodeAction.call c).IsLife key := fun ⟨_, h, _⟩ => nomatch h

/-- A datagram shows life of its own connection only. -/
theorem NodeAction.not_isLife_other {a : NodeAction} {m : Datagram UInt32}
    (hm : a.received = some m) (hkey : connKey m.sender m.socket ≠ key) : ¬ a.IsLife key := by
  rintro ⟨m', hm', hkey', _⟩
  rw [hm] at hm'
  cases hm'
  exact hkey hkey'

/-- `SendPacket` accepts a connection, or opens one. -/
theorem sendPacket_conn (options : Option SendPacketOptions) :
    let r := sendPacketOpen n.localPid n.endpointFor options n.p2p
    ConnChange n (.call (.sendPacket options)) key (n.p2p.connections.get? key)
      (r.1.connections.get? key) (postsOf key r.2.1) := by
  have hkeep : ConnChange n (.call (.sendPacket options)) key (n.p2p.connections.get? key)
      (n.p2p.connections.get? key) [] := .other not_isLife_call nofun
  unfold sendPacketOpen
  cases options with
  | none => exact hkeep
  | some o =>
      dsimp only
      cases hcheck : o.check with
      | error e => exact hkeep
      | ok socket =>
          dsimp only
          cases hc : n.p2p.connections.get? (connKey o.remoteUserId socket) with
          | none =>
              dsimp only
              split
              · exact hkeep
              · next hauto =>
                  have hposts : postsOf key (if (n.endpointFor o.remoteUserId).valid = true then
                      [Out.send (n.endpointFor o.remoteUserId)
                        ⟨n.localPid, socket, .connectRequest⟩] else []) = [] := by
                    split <;> rfl
                  rw [hposts, Dict.get?_set]
                  split
                  · next hk =>
                      subst hk
                      rw [hc]
                      exact .send rfl hcheck rfl (.inl (by simpa using hauto))
                  · exact hkeep
          | some conn =>
              dsimp only
              split
              · exact hkeep
              · next hauto =>
                  rw [postsOf_nil, Dict.get?_set]
                  split
                  · next hk =>
                      subst hk
                      rw [hc]
                      refine .send (e := if !conn.endpoint.valid &&
                        (n.endpointFor o.remoteUserId).valid
                        then n.endpointFor o.remoteUserId else conn.endpoint) rfl hcheck rfl ?_
                      by_cases hacc : conn.bAcceptedLocally = true
                      · exact .inr ⟨conn, rfl, hacc⟩
                      · exact .inl (by simpa [hacc] using hauto)
                  · exact hkeep

/-- The checks name the socket they are given. -/
theorem SendPacketOptions.check_socket {o : SendPacketOptions} {socket : Bytes}
    (h : o.check = .ok socket) : socket = socketName o.socketId := by
  unfold SendPacketOptions.check at h
  split at h
  · cases h
  · split at h
    · cases h
    · split at h
      · cases h
      · split at h <;> cases h
        rfl

/-- `SendPacket` without auto-accept fails where the connection is not accepted. -/
theorem sendPacketOpen_noConnection {p : P2P} {localPid : ProductUserId}
    {endpointFor : ProductUserId → Endpoint} {o : SendPacketOptions} {socket : Bytes}
    (hcheck : o.check = .ok socket) (hauto : o.autoAccept = false)
    (hacc : ∀ conn, p.connections.get? (connKey o.remoteUserId socket) = some conn →
      conn.bAcceptedLocally = false) :
    sendPacketOpen localPid endpointFor (some o) p = (p, [], .inl .noConnection) := by
  unfold sendPacketOpen
  dsimp only
  rw [hcheck]
  dsimp only
  cases hc : p.connections.get? (connKey o.remoteUserId socket) with
  | none => simp only [hauto, Bool.not_false, if_true]
  | some conn => simp only [hacc conn hc, hauto, Bool.not_false, Bool.and_self, if_true]

/-- `AcceptConnection` accepts and establishes a connection. -/
theorem acceptConnection_conn (options : Option P2P.ConnectionOptions) :
    let r := n.p2p.acceptConnection n.localPid n.endpointFor options
    ConnChange n (.call (.acceptConnection options)) key (n.p2p.connections.get? key)
      (r.1.connections.get? key) (postsOf key r.2.1) := by
  have hkeep : ConnChange n (.call (.acceptConnection options)) key (n.p2p.connections.get? key)
      (n.p2p.connections.get? key) [] := .other not_isLife_call nofun
  unfold P2P.acceptConnection
  cases options with
  | none => exact hkeep
  | some o =>
      dsimp only
      split
      · exact hkeep
      · next hvalid =>
          have hsend : ∀ (c : Bool) (e : Endpoint) (d : Datagram Pos),
              postsOf key (if c = true then [.send e d] else []) = [] := by
            intro c e d
            cases c <;> rfl
          rw [postsOf_append, hsend, List.nil_append, postsOf_establishedOuts]
          simp only [P2P.setConn]
          rw [Dict.get?_set]
          simp only [Bool.or_eq_true, decide_eq_true_eq, Option.isNone_iff_eq_none,
            not_or] at hvalid
          by_cases hk : key = connKey o.remoteUserId (socketName o.socketId)
          · rw [if_pos hk, if_pos hk.symm]
            subst hk
            exact .accept rfl hvalid.1 (Option.isSome_iff_ne_none.2 hvalid.2) rfl
          · rw [if_neg hk, if_neg (Ne.symm hk)]
            exact hkeep

/-- `CloseConnection` closes its connection, and tells nobody. -/
theorem closeConnection_conn (options : Option P2P.ConnectionOptions) :
    let r := n.p2p.closeConnection n.localPid options
    ConnChange n (.call (.closeConnection options)) key (n.p2p.connections.get? key)
      (r.1.connections.get? key) (postsOf key r.2.1) := by
  have hkeep : ConnChange n (.call (.closeConnection options)) key (n.p2p.connections.get? key)
      (n.p2p.connections.get? key) [] := .other not_isLife_call nofun
  unfold P2P.closeConnection
  cases options with
  | none => exact hkeep
  | some o =>
      dsimp only
      split
      · exact hkeep
      · have hposts : ∀ (c : Bool) (e : Endpoint) (d : Datagram Pos) (ev : Event),
            postsOf key (.log ev :: if c = true then [.send e d] else []) = [] := by
          intro c e d ev
          cases c <;> rfl
        rw [hposts, P2P.closeLocal, Dict.get?_erase]
        split
        · exact .closeLocal (.inl ⟨_, rfl⟩)
        · exact hkeep

/-- `CloseConnections` closes the connections of its socket, and tells nobody. -/
theorem closeConnections_conn (options : Option (Option Bytes)) :
    let r := n.p2p.closeConnections n.localPid options
    ConnChange n (.call (.closeConnections options)) key (n.p2p.connections.get? key)
      (r.1.connections.get? key) (postsOf key r.2.1) := by
  have hkeep : ConnChange n (.call (.closeConnections options)) key (n.p2p.connections.get? key)
      (n.p2p.connections.get? key) [] := .other not_isLife_call nofun
  unfold P2P.closeConnections
  cases options with
  | none => exact hkeep
  | some socketId =>
      cases socketId with
      | none => exact hkeep
      | some socketId =>
          dsimp only
          rw [postsOf_append, postsOf, postsOf, posts_logs, posts_sends, Dict.get?_eraseIf]
          cases n.p2p.connections.get? key with
          | none => exact .closeLocal (.inr ⟨_, rfl⟩)
          | some conn =>
              by_cases hs : conn.socketName = socketName (some socketId)
              · simp only [Option.filter_some, hs, decide_true, Bool.not_true]
                exact .closeLocal (.inr ⟨_, rfl⟩)
              · simp only [Option.filter_some, hs, decide_false, Bool.not_false, if_true]
                exact .other not_isLife_call nofun

/-- What a stored connection looks like from any key. -/
theorem get?_setConn (p : P2P) (peer : ProductUserId) (socket : Bytes) (conn : Connection) :
    (p.setConn peer socket conn).connections.get? key =
      if key = connKey peer socket then some conn else p.connections.get? key := Dict.get?_set ..

/-- A datagram of another connection changes nothing. -/
theorem ConnChange.elsewhere {a : NodeAction} {m : Datagram UInt32} {o : Option Connection}
    (hm : a.received = some m) (hpump : ∀ now, a ≠ .call (.pump now))
    (hkey : key ≠ connKey m.sender m.socket) : ConnChange n a key o o [] :=
  .other (NodeAction.not_isLife_other hm (Ne.symm hkey)) hpump

/-- A request on a connection that is not accepted is told, if somebody listens. -/
theorem onConnectRequest_conn {a : NodeAction} {m : Datagram UInt32} (hm : a.received = some m)
    (hpump : ∀ now, a ≠ .call (.pump now)) (hb : m.body = .connectRequest) (from_ : Endpoint) :
    let r := n.p2p.onConnectRequest n.localPid from_ m.sender m.socket
    ConnChange n a key (n.p2p.connections.get? key) (r.1.connections.get? key)
      (postsOf key r.2) := by
  have hkeep : ConnChange n a key (n.p2p.connections.get? key) (n.p2p.connections.get? key)
    [] := by
    refine .other ?_ hpump
    rintro ⟨m', hm', _, hbody⟩
    rw [hm] at hm'
    cases hm'
    rw [hb] at hbody
    exact hbody
  unfold P2P.onConnectRequest
  dsimp only
  split
  · next hcond =>
      rw [get?_setConn]
      by_cases hk : key = connKey m.sender m.socket
      · subst hk
        rw [if_pos rfl]
        have hposts : postsOf (connKey m.sender m.socket)
            [Out.post (.connectionRequest m.sender m.socket)] =
              [.connectionRequest m.sender m.socket] := by
          simp [postsOf, posts, Notification.connKey]
        rw [hposts]
        refine .request hm hb rfl ?_
        simp only [Bool.and_eq_true, Bool.not_eq_true'] at hcond
        exact hcond.1
      · rw [if_neg hk]
        have hposts : postsOf key [Out.post (.connectionRequest m.sender m.socket)] = [] := by
          simp [postsOf, posts, Notification.connKey, Ne.symm hk]
        rw [hposts]
        exact .elsewhere hm hpump hk
  · split
    · exact hkeep
    · exact hkeep

/-- An ignored request ends the connection. -/
theorem onConnectIgnored_conn {a : NodeAction} {m : Datagram UInt32} (hm : a.received = some m)
    (hpump : ∀ now, a ≠ .call (.pump now)) (hb : m.body = .connectIgnored) :
    let r := n.p2p.onConnectIgnored m.sender m.socket
    ConnChange n a key (n.p2p.connections.get? key) (r.1.connections.get? key)
      (postsOf key r.2) := by
  unfold P2P.onConnectIgnored P2P.closeLocal
  dsimp only
  rw [Dict.get?_erase]
  by_cases hk : key = connKey m.sender m.socket
  · subst hk
    rw [if_pos rfl]
    have hposts : postsOf (connKey m.sender m.socket) (.log (.cleared m.sender m.socket) ::
        if n.p2p.connections.contains (connKey m.sender m.socket) = true then
          [.post (.connectionClosed m.sender m.socket .connectionIgnored)] else []) =
        if (n.p2p.connections.get? (connKey m.sender m.socket)).isSome = true then
          [.connectionClosed m.sender m.socket .connectionIgnored] else [] := by
      rw [Dict.contains]
      split <;> simp [postsOf, posts, Notification.connKey]
    rw [hposts]
    exact .ignored hm hb rfl
  · rw [if_neg hk]
    have hposts : ∀ c : Bool, postsOf key (.log (.cleared m.sender m.socket) ::
        if c = true then [.post (.connectionClosed m.sender m.socket .connectionIgnored)]
        else []) = [] := by
      intro c
      cases c <;> simp [postsOf, posts, Notification.connKey, Ne.symm hk]
    rw [hposts]
    exact .elsewhere hm hpump hk

/-- An accepted request establishes the connection. -/
theorem onConnectAccept_conn {a : NodeAction} {m : Datagram UInt32} (hm : a.received = some m)
    (hpump : ∀ now, a ≠ .call (.pump now)) (hb : m.body = .connectAccept) (from_ : Endpoint) :
    let r := n.p2p.onConnectAccept from_ m.sender m.socket
    ConnChange n a key (n.p2p.connections.get? key) (r.1.connections.get? key)
      (postsOf key r.2) := by
  unfold P2P.onConnectAccept
  dsimp only
  rw [get?_setConn, postsOf_establishedOuts]
  by_cases hk : key = connKey m.sender m.socket
  · subst hk
    rw [if_pos rfl, if_pos rfl]
    exact .accepted hm hb rfl
  · rw [if_neg hk, if_neg (Ne.symm hk)]
    exact .elsewhere hm hpump hk

/-- A close ends the connection, and is told. -/
theorem onConnectClose_conn {a : NodeAction} {m : Datagram UInt32} (hm : a.received = some m)
    (hpump : ∀ now, a ≠ .call (.pump now)) (hb : m.body = .connectClose) :
    let r := n.p2p.onConnectClose m.sender m.socket
    ConnChange n a key (n.p2p.connections.get? key) (r.1.connections.get? key)
      (postsOf key r.2) := by
  unfold P2P.onConnectClose P2P.closeLocal
  dsimp only
  rw [Dict.get?_erase]
  by_cases hk : key = connKey m.sender m.socket
  · subst hk
    rw [if_pos rfl]
    have hposts : postsOf (connKey m.sender m.socket)
        [.log (.cleared m.sender m.socket),
          .post (.connectionClosed m.sender m.socket .closedByPeer)] =
        [.connectionClosed m.sender m.socket .closedByPeer] := by
      simp [postsOf, posts, Notification.connKey]
    rw [hposts]
    exact .closedByPeer hm hb rfl
  · rw [if_neg hk]
    have hposts : postsOf key [.log (.cleared m.sender m.socket),
        .post (.connectionClosed m.sender m.socket .closedByPeer)] = [] := by
      simp [postsOf, posts, Notification.connKey, Ne.symm hk]
    rw [hposts]
    exact .elsewhere hm hpump hk

/-- The connection part of `P2PData`: it stores the connection and posts what it owes. -/
theorem learnConn_conn (n : P2PNode) (key : Bytes) {a : NodeAction} {m : Datagram UInt32}
    (hm : a.received = some m) (hpump : ∀ now, a ≠ .call (.pump now))
    (hb : ∃ channel mode seq bytes, m.body = .data channel mode seq bytes) (from_ : Endpoint) :
    ConnChange n a key (n.p2p.connections.get? key)
      ((n.p2p.learnConn from_ m.sender m.socket).connections.get? key)
      (postsOf key (P2P.establishedOuts m.sender m.socket
        (!(n.p2p.openConn m.sender m.socket).bEstablished)
        (n.p2p.openConn m.sender m.socket).bInterrupted)) := by
  rw [P2P.learnConn, get?_setConn, postsOf_establishedOuts]
  by_cases hk : key = connKey m.sender m.socket
  · subst hk
    rw [if_pos rfl, if_pos rfl]
    exact .data hm hb rfl
  · rw [if_neg hk, if_neg (Ne.symm hk)]
    exact .elsewhere hm hpump hk

/-- Data that are taken establish the connection. -/
theorem onData_conn {a : NodeAction} {m : Datagram UInt32} (hm : a.received = some m)
    (hpump : ∀ now, a ≠ .call (.pump now)) {channel mode : UInt8} {seq : UInt32} {bytes : Bytes}
    (hb : m.body = .data channel mode seq bytes) (from_ : Endpoint) (inc : ℕ) :
    let r := n.p2p.onData n.localPid from_ m.sender m.socket channel mode seq bytes inc
    ConnChange n a key (n.p2p.connections.get? key) (r.1.connections.get? key)
      (postsOf key r.2) := by
  have hdone := learnConn_conn n key hm hpump ⟨channel, mode, seq, bytes, hb⟩ from_
  unfold P2P.onData
  dsimp only
  split
  · rw [postsOf_append, postsOf_queueFull, List.append_nil]
    exact hdone
  · have hlogs : ∀ (es : List Event) (d : Datagram Pos),
        postsOf key (es.map Out.log ++ [.send from_ d]) = [] := by
      intro es d
      have hes : posts (es.map Out.log) = [] := posts_logs es id
      rw [postsOf, posts_append, hes]
      rfl
    rw [postsOf_append, postsOf_append, postsOf_queueFull, List.append_nil]
    unfold P2P.receiveData
    dsimp only
    rw [hlogs, List.nil_append]
    exact hdone

/-- The connection part of `P2PAck`: a known connection is no longer interrupted. -/
theorem proofOfLife_conn (n : P2PNode) (key : Bytes) {a : NodeAction} {m : Datagram UInt32}
    (hm : a.received = some m) (hpump : ∀ now, a ≠ .call (.pump now))
    (hb : ∃ channel orderedByte ackSeq sack, m.body = .ack channel orderedByte ackSeq sack) :
    ConnChange n a key (n.p2p.connections.get? key)
      ((n.p2p.proofOfLife m.sender m.socket).connections.get? key)
      (postsOf key (P2P.establishedOuts m.sender m.socket false
        (((n.p2p.connections.get? (connKey m.sender m.socket)).map
          (·.bInterrupted)).getD false))) := by
  rw [postsOf_establishedOuts]
  unfold P2P.proofOfLife
  by_cases hk : key = connKey m.sender m.socket
  · subst hk
    rw [if_pos rfl]
    cases hc : n.p2p.connections.get? (connKey m.sender m.socket) with
    | none =>
        dsimp only
        rw [hc]
        exact .keep nofun nofun
    | some conn =>
        dsimp only
        rw [get?_setConn, if_pos rfl]
        exact .ack hm hb rfl
  · rw [if_neg (Ne.symm hk)]
    split
    · rw [get?_setConn, if_neg hk]
      exact .elsewhere hm hpump hk
    · exact .elsewhere hm hpump hk

/-- An ack ends an interruption. -/
theorem onAck_conn {a : NodeAction} {m : Datagram UInt32} (hm : a.received = some m)
    (hpump : ∀ now, a ≠ .call (.pump now)) {channel orderedByte : UInt8} {ackSeq sack : UInt32}
    (hb : m.body = .ack channel orderedByte ackSeq sack) (now : TimePoint) :
    let r := n.p2p.onAck m.sender m.socket channel orderedByte ackSeq sack now
    ConnChange n a key (n.p2p.connections.get? key) (r.1.connections.get? key)
      (postsOf key r.2) := by
  have hdone := proofOfLife_conn n key hm hpump
    ⟨channel, orderedByte, ackSeq, sack, hb⟩
  unfold P2P.onAck
  dsimp only
  split
  · exact hdone
  · have hlogs : ∀ (s : SendStream) (x : ℕ) (l : List ℕ),
        postsOf key (l.map fun k => Out.log (.acked (streamKey m.sender m.socket channel
          (orderedByte ≠ 0)) ⟨s.inc, k⟩ x sack)) = [] := by
      intro s x l
      rw [postsOf, posts_logs]
      rfl
    rw [postsOf_append, hlogs, List.nil_append]
    exact hdone

/-- `OnDatagram` on a well-formed datagram. -/
theorem onMessage_conn {a : NodeAction} {m : Datagram UInt32} (hm : a.received = some m)
    (hpump : ∀ now, a ≠ .call (.pump now)) (from_ : Endpoint) (inc : ℕ) (now : TimePoint) :
    let r := n.p2p.onMessage n.localPid from_ m inc now
    ConnChange n a key (n.p2p.connections.get? key) (r.1.connections.get? key)
      (postsOf key r.2) := by
  unfold P2P.onMessage
  dsimp only
  cases hb : m.body with
  | connectRequest => exact onConnectRequest_conn hm hpump hb from_
  | connectIgnored => exact onConnectIgnored_conn hm hpump hb
  | connectAccept => exact onConnectAccept_conn hm hpump hb from_
  | connectClose => exact onConnectClose_conn hm hpump hb
  | data channel mode seq bytes => exact onData_conn hm hpump hb from_ inc
  | ack channel orderedByte ackSeq sack => exact onAck_conn hm hpump hb now

/-! ## `Pump` -/

/-- What the loop over the send streams has done to one connection so far: nothing, or it
interrupted it over an unanswered packet. -/
def Interruption (p : P2P) (now : TimePoint) (key : Bytes) (st : PumpState) : Prop :=
  let noted := st.interrupted.filter fun i => connKey i.1 i.2 = key
  (st.connections.get? key = p.connections.get? key ∧ noted = []) ∨
    ∃ c peer socket, p.connections.get? key = some c ∧ c.bInterrupted = false ∧
      connKey peer socket = key ∧ p.Unanswered now peer socket ∧ noted = [(peer, socket)] ∧
      st.connections.get? key = some { c with bInterrupted := true, interruptedAt := now }

/-- One interruption. -/
theorem Interruption.interrupt {p : P2P} {now : TimePoint} {st : PumpState}
    (h : Interruption p now key st) {peer : ProductUserId} {socket : Bytes}
    (hun : p.Unanswered now peer socket) :
    Interruption p now key (st.interrupt now peer socket) := by
  unfold PumpState.interrupt
  cases hc : st.connections.get? (connKey peer socket) with
  | none => exact h
  | some conn =>
      dsimp only
      cases hint : conn.bInterrupted with
      | true => exact h
      | false =>
          simp only [Bool.false_eq_true, if_false]
          unfold Interruption at h ⊢
          dsimp only at h ⊢
          rw [Dict.get?_set, List.filter_append]
          by_cases hk : key = connKey peer socket
          · subst hk
            rcases h with ⟨hget, hnone⟩ | ⟨c, _, _, _, _, _, _, _, hget⟩
            · refine .inr ⟨conn, peer, socket, hget ▸ hc, hint, rfl, hun, ?_, if_pos rfl⟩
              rw [hnone]
              simp
            · rw [hc] at hget
              cases hget
              cases hint
          · rw [if_neg hk]
            have hnew : [(peer, socket)].filter (fun i => decide (connKey i.1 i.2 = key)) =
              [] := by
              simp [Ne.symm hk]
            rw [hnew, List.append_nil]
            exact h

/-- The loop over the send streams. -/
theorem Interruption.sendStreams (p : P2P) (now : TimePoint) (key : Bytes) :
    Interruption p now key
      (p.sendStreams.mapAccum (retransmit now) { connections := p.connections }).1 := by
  refine Dict.mapAccum_inv (P := Interruption p now key) ?_ (.inl ⟨rfl, rfl⟩)
  intro st skey s hs ih
  unfold retransmit
  split
  · exact ih
  · refine SeqMap.mapAccum_inv (P := Interruption p now key) ?_ ih
    intro st k u hu ih
    unfold retransmitOne
    split
    · exact ih
    · next hwait =>
        dsimp only
        split
        · next htries =>
            exact ih.interrupt ⟨skey, s, k, u, hs, rfl, rfl, hu, htries, Int.not_lt.1 hwait⟩
        · exact ih

/-- The connections that a sweep finds dead, seen from one key. -/
theorem sweep_dead {p : P2P} (hp : p.ConnKeyed) (now : TimePoint) (key : Bytes) :
    (p.sweep now).2.filter (fun c => connKey c.1 c.2 = key) =
      ((p.connections.get? key).filter (P2P.timedOut now)).toList.map
        fun c => (c.peer, c.socketName) := by
  have hkeys : p.connections.entries.filter (fun e => connKey e.2.peer e.2.socketName = key) =
      p.connections.entries.filter fun e => e.1 = key := by
    refine List.filter_congr fun e he => ?_
    rw [hp e.1 e.2 (Dict.mem_entries.1 he)]
  unfold P2P.sweep
  dsimp only
  rw [List.filter_map, List.filter_filter]
  have hcomm : p.connections.entries.filter (fun e =>
      ((fun c => decide (connKey c.1 c.2 = key)) ∘
        fun e : Bytes × Connection => (e.2.peer, e.2.socketName)) e && P2P.timedOut now e.2) =
      (p.connections.entries.filter fun e => decide (e.1 = key)).filter
        fun e => P2P.timedOut now e.2 := by
    rw [← hkeys, List.filter_filter]
    refine List.filter_congr fun e _ => ?_
    exact Bool.and_comm _ _
  rw [hcomm, Dict.filter_key]
  cases p.connections.get? key with
  | none => rfl
  | some c => cases htime : P2P.timedOut now c <;> simp [htime, Option.filter]

/-- Notifications of a list of connections. -/
theorem postsOf_map (l : List (ProductUserId × Bytes)) (f : ProductUserId × Bytes → Notification)
    (hf : ∀ i, (f i).connKey = some (connKey i.1 i.2)) :
    postsOf key (l.map fun i => .post (f i)) =
      (l.filter fun i => connKey i.1 i.2 = key).map f := by
  rw [postsOf, posts_posts, List.filter_map]
  refine congrArg (List.map f) (List.filter_congr fun i _ => ?_)
  simp [hf]

/-- `Pump` gives up the connections whose time is over, and interrupts others. -/
theorem pump_conn (hp : n.p2p.ConnKeyed) (now : TimePoint) :
    let r := n.p2p.pump now
    ConnChange n (.call (.pump now)) key (n.p2p.connections.get? key) (r.1.connections.get? key)
      (postsOf key r.2) := by
  have hkeyed : (Interrupts n.p2p
      (n.p2p.sendStreams.mapAccum (retransmit now) { connections := n.p2p.connections }).1) :=
    Dict.mapAccum_inv (P := Interrupts n.p2p) (fun st key s _ ih => ih.retransmit now key s)
      fun key => rfl
  have hint := Interruption.sendStreams n.p2p now key
  unfold P2P.pump
  dsimp only
  generalize n.p2p.sendStreams.mapAccum (retransmit now) { connections := n.p2p.connections } =
    sent at hkeyed hint ⊢
  generalize n.p2p.recvStreams.mapAccum P2P.drainOne (n.p2p.inbox, []) = drained
  -- `q` is the state between the two loops over connections
  generalize hq : ({ n.p2p with
    inbox := drained.1.1, recvStreams := drained.2
    connections := sent.1.connections, sendStreams := sent.2 } : P2P) = q
  have hqconn : q.connections = sent.1.connections := by rw [← hq]
  have hqkeyed : q.ConnKeyed := by
    intro k conn hc
    rw [hqconn] at hc
    have hk := hkeyed k
    rw [hc] at hk
    obtain ⟨c, hc', heq⟩ := Option.map_eq_some_iff.1 hk
    exact hp.stored hc' (congrArg Prod.fst heq).symm (congrArg Prod.snd heq).symm
  have hlogs : ∀ es : List Event, postsOf key (es.map Out.log) = [] := by
    intro es
    have hes : posts (es.map Out.log) = [] := posts_logs es id
    rw [postsOf, hes]
    rfl
  have hcleared : ∀ l : List (ProductUserId × Bytes),
      postsOf key (l.map fun c => .log (.cleared c.1 c.2)) = [] := by
    intro l
    rw [postsOf, posts_logs]
    rfl
  have hsends : postsOf key (sent.1.toSend.map fun t => .send t.1 t.2) = [] := by
    rw [postsOf, posts_sends]
    rfl
  rw [postsOf_append, postsOf_append, postsOf_append, postsOf_append, hlogs, hcleared, hsends,
    postsOf_map _ (fun i => .connectionInterrupted i.1 i.2) fun _ => rfl,
    postsOf_map _ (fun c => .connectionClosed c.1 c.2 .timedOut) fun _ => rfl,
    sweep_dead hqkeyed now key, P2P.sweep, Dict.get?_eraseIf, hqconn]
  simp only [List.nil_append]
  unfold Interruption at hint
  dsimp only at hint
  rcases hint with ⟨hget, hnone⟩ | ⟨c, peer, socket, hc, hfresh, hkey, hun, hone, hget⟩
  · rw [hget, hnone]
    cases hc : n.p2p.connections.get? key with
    | none =>
        refine .keep ?_ ?_
        · intro c h
          cases h
        · intro c now h
          cases h
    | some c =>
        cases htime : P2P.timedOut now c with
        | true =>
            simp only [Option.filter, htime, if_true, Bool.not_true, Bool.false_eq_true, if_false]
            exact .timeout rfl htime
        | false =>
            simp only [Option.filter, htime, if_true, Bool.not_false, Bool.false_eq_true, if_false]
            refine .keep (fun _ _ hlife => absurd hlife not_isLife_call) ?_
            intro c' now' h hact
            cases h
            cases hact
            exact htime
  · have hyoung : P2P.timedOut now { c with bInterrupted := true, interruptedAt := now } =
      false := by
      have hgrace : ¬ interruptedGrace ≤ now - now := by
        rw [Int.sub_self]
        decide
      simp only [P2P.timedOut, hgrace, decide_false, Bool.and_false]
    rw [hget, hone, hc]
    simp only [Option.filter, hyoung, Bool.not_false, Bool.false_eq_true, if_true, if_false]
    exact .interrupt rfl hfresh hkey hun

end

/-! ## Steps of a node -/

/-- **What a step does to one connection**, and what it posts about it. -/
theorem nodeStep_conn {n n' : P2PNode} {a : NodeAction} (hp : n.p2p.ConnKeyed)
    (h : nodeStep n a = some n') (key : Bytes) :
    ConnChange n a key (n.p2p.connections.get? key) (n'.p2p.connections.get? key)
      (postsOf key (n.outs a)) := by
  cases a with
  | datagram from_ type payload inc now =>
      cases h
      have hpump : ∀ now', NodeAction.datagram from_ type payload inc now ≠
        .call (.pump now') := by
        intro now' h
        cases h
      cases hm : decode type payload with
      | none =>
          have hout : n.onDatagram from_ type payload inc now = (n, []) := by
            rw [P2PNode.onDatagram, hm]
          rw [P2PNode.outs, hout]
          refine .other ?_ hpump
          rintro ⟨m, hm', _⟩
          rw [NodeAction.received, hm] at hm'
          cases hm'
      | some m =>
          have hout : n.onDatagram from_ type payload inc now = n.receive from_ m inc now := by
            rw [P2PNode.onDatagram, hm]
          rw [P2PNode.outs, hout]
          exact onMessage_conn (a := .datagram from_ type payload inc now) hm hpump from_ inc now
  | call c =>
      obtain ⟨⟨m, outs⟩, hstep, rfl⟩ := Option.map_eq_some_iff.1 h
      have houts : n.outs (.call c) = outs := by
        rw [P2PNode.outs, hstep]
        rfl
      rw [houts]
      have hsame : (∀ now, c ≠ .pump now) → m.p2p.connections.get? key =
        n.p2p.connections.get? key →
          postsOf key outs = [] → ConnChange n (.call c) key (n.p2p.connections.get? key)
            (m.p2p.connections.get? key) (postsOf key outs) := by
        intro hpump hget hposts
        rw [hget, hposts]
        refine .other not_isLife_call fun now hact => hpump now ?_
        cases hact
        rfl
      cases c with
      | sendPacket options =>
          have hsend := @sendPacket_conn n key options
          simp only [P2PNode.step] at hstep
          split at hstep <;> cases hstep
          · rw [P2PNode.recordReturn_p2p]
            exact hsend
          · exact hsend
      | sendPacketQueue i now =>
          simp only [P2PNode.step] at hstep
          split at hstep <;> cases hstep
          refine hsame (by simp) ?_ ?_
          · rw [P2PNode.recordReturn_p2p]
            unfold P2PNode.update sendPacketQueue
            split <;> rfl
          · unfold sendPacketQueue
            split <;> rfl
      | receivePacket o =>
          cases hstep
          refine hsame (by simp) ?_ rfl
          unfold P2PNode.update P2P.receivePacket
          dsimp only
          split
          · rfl
          · split <;> rfl
      | setPacketQueueSize maxBytes => cases hstep; exact hsame (by simp) rfl rfl
      | clearPacketQueue o =>
          cases hstep
          refine hsame (by simp) ?_ rfl
          unfold P2PNode.update P2P.clearPacketQueue
          dsimp only
          split <;> rfl
      | acceptConnection o => cases hstep; exact acceptConnection_conn o
      | closeConnection o => cases hstep; exact closeConnection_conn o
      | closeConnections o => cases hstep; exact closeConnections_conn o
      | addNotifyPeerConnectionRequest socketId => cases hstep; exact hsame (by simp) rfl rfl
      | removeNotifyPeerConnectionRequest id => cases hstep; exact hsame (by simp) rfl rfl
      | pump now => cases hstep; exact pump_conn hp now
      | observe peer endpoint =>
          simp only [P2PNode.step] at hstep
          split at hstep <;> cases hstep
          exact hsame (by simp) rfl rfl
      | rehash c s r =>
          cases hstep
          exact hsame (by simp) (Dict.get?_toFront _ _ _) rfl

/-- A step keeps every connection under its key. -/
theorem nodeStep_keyed {n n' : P2PNode} {a : NodeAction} (hp : n.p2p.ConnKeyed)
    (h : nodeStep n a = some n') : n'.p2p.ConnKeyed := by
  cases a with
  | call c =>
      obtain ⟨⟨m, outs⟩, hstep, rfl⟩ := Option.map_eq_some_iff.1 h
      exact (P2PNode.step_conns hp hstep).keyed
  | datagram from_ type payload inc now =>
      cases h
      unfold P2PNode.onDatagram
      cases decode type payload with
      | none => exact hp
      | some m => exact (onMessage_conns hp n.localPid from_ m inc now).keyed

/-- So do runs. -/
theorem keyed_of_run {ok : P2PNode → NodeAction → Prop} {localPid : ProductUserId} {n : P2PNode}
    (h : Run nodeStep ok (P2PNode.start localPid) n) : n.p2p.ConnKeyed :=
  h.invariant (P := fun n => n.p2p.ConnKeyed) (fun _ _ hc => nomatch hc)
    fun _ _ _ hu _ hst => nodeStep_keyed hu hst

/-! ## The lifetime of a connection -/

/-- The entry of the key came into being. -/
def Created (key : Bytes) (tr : Transition P2PNode NodeAction) : Prop :=
  tr.pre.p2p.connections.get? key = none ∧ (tr.post.p2p.connections.get? key).isSome = true

/-- The entry of the key was erased. -/
def Removed (key : Bytes) (tr : Transition P2PNode NodeAction) : Prop :=
  (tr.pre.p2p.connections.get? key).isSome = true ∧ tr.post.p2p.connections.get? key = none

instance {key : Bytes} : DecidablePred (Created key) := fun _ => inferInstanceAs
    (Decidable (_ ∧ _))

instance {key : Bytes} : DecidablePred (Removed key) := fun _ => inferInstanceAs
    (Decidable (_ ∧ _))

/-- It was erased by the application. -/
def ClosedLocally (key : Bytes) (tr : Transition P2PNode NodeAction) : Prop :=
  Removed key tr ∧ ((∃ options, tr.action = .call (.closeConnection options)) ∨
    ∃ options, tr.action = .call (.closeConnections options))

/-- A step after which the entry exists, and before which it did, is in the middle of its
lifetime. -/
theorem not_created_or_removed {key : Bytes} {tr : Transition P2PNode NodeAction}
    (hpre : (tr.pre.p2p.connections.get? key).isSome = true)
    (hpost : (tr.post.p2p.connections.get? key).isSome = true) :
    ¬ Created key tr ∧ ¬ Removed key tr := by
  constructor
  · rintro ⟨h, _⟩
    rw [h] at hpre
    cases hpre
  · rintro ⟨_, h⟩
    rw [h] at hpost
    cases hpost

end EOSEmu
