import EOSEmu.Lib.Trace
import EOSEmu.Core.Platform
import EOSEmu.Core.Transport
import EOSEmu.Presence.Replication

/-!
# A ticking node and a peer, with a clock

One node whose game ticks at least every half second, a peer, and the datagrams between them, each
delivered in order and within half a second. Time passes only as far as these bounds allow.
`Timely` is what keeps the peer from flagging the node offline, `Converges` follows one
`SetPresence` call to the peer.
-/

namespace EOSEmu

open Lib

/-- Half a second. -/
def half : Int := milliseconds 500

/-- A datagram on the way: when it was sent, and the message it frames. -/
structure InFlight where
  sentAt : TimePoint
  message : Outgoing
  datagram : Bytes

/-- The node, the time of its last tick or of its creation, what is on the way to the peer, and the
peer. -/
structure HelloWorld where
  now : TimePoint
  node : Platform
  lastTick : TimePoint
  link : List InFlight := []
  peer : Platform

/-- What happens next. `tick` broadcasts to one or more interfaces, `send` is any call that sends
another message. The peer hears of other users, and its game may start anew. -/
inductive HelloEvent where
  | pass (d : ℕ)
  | setPresence (m : Option PresenceModificationObj)
  | send (o : Outgoing) (dest : Destination)
  | tick (extra : ℕ)
  | receive (ip : UInt32) (datagram : Bytes)
  | deliver (ip : UInt32)
  | peerTick
  | peerObserves (source : Endpoint) (o : Observation)
  | peerLoses (productId : ProductUserId)
  | peerStart (config : Config) (options : PlatformOptions) (port : Option UInt16)

/-- A Hello or a Goodbye. -/
def Outgoing.isPresence : Outgoing → Bool
  | hello _ | goodbye _ => true
  | _ => false

namespace HelloWorld

/-- The node is created while the peer runs. -/
def start (node peer : Platform) (now : TimePoint) : HelloWorld :=
  { now, node, lastTick := now, peer }

variable (w : HelloWorld)

/-- The node's product user id. -/
def pid : ProductUserId := w.node.identity.productUserId

/-- The copies of a message that leave the node now. -/
def departures (o : Outgoing) (datagram : Option Bytes) (copies : ℕ) : List InFlight :=
  match datagram with
  | none => []
  | some datagram => List.replicate copies ⟨w.now, o, datagram⟩

/-- The world afterwards. -/
def step : HelloEvent → Option HelloWorld
  | .pass d =>
      if w.now + d ≤ w.lastTick + half ∧ ∀ c ∈ w.link, w.now + d ≤ c.sentAt + half then
        some { w with now := w.now + d }
      else none
  | .setPresence m => some { w with node := w.node.setPresence m }
  | .send o dest =>
      if o.isPresence then none
      else some { w with link := w.link ++ w.departures o (w.node.net.transmit o dest) 1 }
  | .tick extra =>
      let (hello, _, node) := w.node.tick w.now
      some { w with node, lastTick := w.now
                    link := w.link ++ w.departures (.hello w.node.helloSource) hello (extra + 1) }
  | .receive ip datagram => some { w with node := w.node.receive w.now ip datagram }
  | .deliver ip =>
      match w.link with
      | [] => none
      | c :: link => some { w with link, peer := w.peer.receive w.now ip c.datagram }
  | .peerTick => some { w with peer := (w.peer.tick w.now).2.2 }
  | .peerObserves source o =>
      if o.productId = w.pid then none
      else some { w with peer := { w.peer with peers := (w.peer.peers.observe o source w.now).2 } }
  | .peerLoses productId =>
      if productId = w.pid then none
      else some { w with peer := { w.peer with peers := (w.peer.peers.markOffline productId).2 } }
  | .peerStart config options port =>
      let fresh : Platform := { library := w.peer.library, identity := w.peer.identity }
      some { w with peer := fresh.configure config options port w.now }

end HelloWorld

/-- Every Hello that a tick broadcasts fits into a datagram, and every status set fits in a
byte. -/
def HelloFits (w : HelloWorld) : HelloEvent → Prop
  | .tick _ => w.node.announces w.now = true → fits (helloPayload w.node.helloSource) = true
  | .setPresence (some m) => m.bSetStatus = true → EnumFits m.status
  | _ => True

instance (w : HelloWorld) (e : HelloEvent) : Decidable (HelloFits w e) :=
  match e with
  | .tick _ => inferInstanceAs (Decidable (_ → _))
  | .setPresence (some _) => inferInstanceAs (Decidable (_ → _))
  | .setPresence none | .pass _ | .send _ _ | .receive _ _ | .deliver _ | .peerTick | .peerObserves
      _ _ | .peerLoses _
  | .peerStart .. => .isTrue trivial

namespace HelloWorld

/-- What is on the way is a Hello of the node, or leaves the peer's directory alone. -/
structure Carries (w : HelloWorld) (c : InFlight) : Prop where
  sent : ∃ dest, w.node.net.transmit c.message dest = some c.datagram
  whole : ∀ s, c.message = .hello s → fits (helloPayload s) = true ∧ s.productUserId = w.pid
  present : ∀ id, c.message ≠ .goodbye id

/-- The peer's last Hello of the node is recent, or a recent one is on the way. -/
def Fresh (w : HelloWorld) (info : PeerInfo) : Prop :=
  w.node.lastHello ≤ info.lastSeen ∨
    (∃ c ∈ w.link, (∃ s, c.message = .hello s) ∧ c.sentAt = w.node.lastHello) ∧
      w.node.lastHello ≤ info.lastSeen + Platform.helloInterval + half

/-- The node is not seen offline. -/
structure Timely (w : HelloWorld) : Prop where
  running : w.node.net.running = true
  tags : w.node.net.senderTag ≠ w.peer.net.senderTag
  peerTag : w.peer.net.senderTag = senderTag w.peer.identity.productUserId
  timeout : seconds 4 ≤ w.peer.peerTimeout
  status : EnumFits w.node.presence.localStatus
  ticked : w.lastTick ≤ w.now ∧ w.now ≤ w.lastTick + half
  due : w.node.lastHello ≤ w.now ∧ w.lastTick < w.node.lastHello + Platform.helloInterval
  link : ∀ c ∈ w.link, c.sentAt ≤ w.now ∧ w.now ≤ c.sentAt + half ∧ w.Carries c
  fresh : ∀ info, w.peer.peers.find w.pid = some info → info.online = true ∧ w.Fresh info

variable {w w' : HelloWorld}

/-- A recent Hello is not stale. -/
theorem Timely.not_stale (h : w.Timely) {info : PeerInfo} (hfresh : w.Fresh info) :
    PeerDirectory.stale w.now w.peer.peerTimeout info = false := by
  have hdue := h.due
  have hticked := h.ticked
  have htimeout := h.timeout
  simp only [PeerDirectory.stale, Bool.and_eq_false_iff, decide_eq_false_iff_not]
  right
  rcases hfresh with hseen | ⟨⟨c, hc, _, hsent⟩, hseen⟩
  · simp only [TimePoint, seconds, milliseconds, half, Platform.helloInterval] at *
    omega
  · have hlink := (h.link c hc).2.1
    simp only [TimePoint, seconds, milliseconds, half, Platform.helloInterval] at *
    omega

/-! ## What each party does to the invariant -/

/-- What is on the way depends on the node's transport and product user id only. -/
theorem Carries.congr {c : InFlight} (h : w.Carries c) (hnet : w'.node.net = w.node.net)
    (hpid : w'.pid = w.pid) : w'.Carries c where
  sent := hnet ▸ h.sent
  whole s hs := hpid ▸ h.whole s hs
  present := h.present

/-- A message that is not a Hello is not observed by the peer and leaves its directory alone. -/
theorem receive_other {p : Platform} {n : LanNode} {o : Outgoing} {dest : Destination}
    {datagram : Bytes} (hsent : n.transmit o dest = some datagram)
    (htag : n.senderTag ≠ p.net.senderTag) (ho : o.isPresence = false) (now : TimePoint)
    (ip : UInt32) : p.receive now ip datagram = p := by
  rw [Platform.receive, LanNode.receive_transmit hsent htag ip]
  have hhello : o.type.toNumber ≠ MessageType.hello.toNumber ∧
    o.type.toNumber ≠ MessageType.goodbye.toNumber := by
    cases o with
    | hello | goodbye => cases ho
    | p2p datagram =>
        obtain ⟨_, _, body⟩ := datagram
        cases body <;> simp [Outgoing.type, Datagram.type, MessageType.toNumber]
    | lobby message => cases message <;>
      simp [Outgoing.type, LobbyMessage.type, MessageType.toNumber]
    | session message => cases message <;>
      simp [Outgoing.type, SessionMessage.type, MessageType.toNumber]
    | lobbyInvite | sessionInvite | customInvite => simp [Outgoing.type, MessageType.toNumber]
  dsimp only
  rw [Platform.onDatagram, LanNode.header, if_neg hhello.1, if_neg hhello.2]

/-- What a delivery does: a Hello of the node is observed, and anything else leaves the peer
alone. -/
theorem Timely.receive (h : w.Timely) {c : InFlight} (hc : c ∈ w.link) (ip : UInt32) :
    (∃ s, c.message = .hello s ∧ (w.peer.receive w.now ip c.datagram).peers.find w.pid =
      some (PeerDirectory.observed s.observation ⟨ip, w.node.net.unicastPort⟩ w.now)) ∨
    (∀ s, c.message ≠ .hello s) ∧ w.peer.receive w.now ip c.datagram = w.peer := by
  obtain ⟨_, _, hcarries⟩ := h.link c hc
  obtain ⟨dest, hsent⟩ := hcarries.sent
  cases hm : c.message with
  | hello s =>
      left
      obtain ⟨hfits, hpid⟩ := hcarries.whole s hm
      rw [hm] at hsent
      have hlen : (helloPayload s).length ≤ maxDatagram - wireHeaderSize := of_decide_eq_true hfits
      have hshort : (helloPayload s).length < 2 ^ 16 := by
        simp only [maxDatagram, wireHeaderSize] at hlen
        omega
      have hreceive : w.peer.receive w.now ip c.datagram =
          { w.peer with peers := (w.peer.peers.observe s.observation
            ⟨ip, w.node.net.unicastPort⟩ w.now).2 } := by
        rw [Platform.receive, LanNode.receive_transmit hsent h.tags ip]
        simp only [Platform.onDatagram, LanNode.header, Outgoing.type, Outgoing.payload, if_true,
          Nat.mod_eq_of_lt hshort, List.take_length, (hello_observed s hfits).1]
      have hne : s.observation.productId ≠ [] := by
        rw [show s.observation.productId = w.pid from hpid]
        exact w.node.identity.productUserId_ne
      refine ⟨s, rfl, ?_⟩
      rw [hreceive]
      dsimp only
      rw [PeerDirectory.find_observe hne,
        if_pos (show w.pid = s.observation.productId from hpid.symm)]
  | goodbye id => exact absurd hm (hcarries.present id)
  | p2p | lobby | lobbyInvite | session | sessionInvite | customInvite =>
      right
      exact ⟨by simp, receive_other hsent h.tags (by rw [hm]; rfl) w.now ip⟩

/-- Time passes within the bounds. -/
theorem Timely.pass (h : w.Timely) {d : ℕ}
    (hd : w.now + d ≤ w.lastTick + half ∧ ∀ c ∈ w.link, w.now + d ≤ c.sentAt + half) :
    Timely { w with now := w.now + d } where
  running := h.running
  tags := h.tags
  peerTag := h.peerTag
  timeout := h.timeout
  status := h.status
  ticked := by
    have hticked := h.ticked.1
    refine ⟨?_, hd.1⟩
    simp only [TimePoint] at *
    omega
  due := by
    have hdue := h.due
    refine ⟨?_, hdue.2⟩
    simp only [TimePoint] at *
    omega
  link c hc := by
    obtain ⟨hsent, _, hcarries⟩ := h.link c hc
    refine ⟨?_, hd.2 c hc, hcarries.congr rfl rfl⟩
    simp only [TimePoint] at *
    omega
  fresh := h.fresh

/-- The node does something that sends nothing. -/
theorem Timely.node (h : w.Timely) {node : Platform} (hnet : node.net = w.node.net)
    (hidentity : node.identity = w.node.identity) (hlast : node.lastHello = w.node.lastHello)
    (hstatus : EnumFits node.presence.localStatus) : Timely { w with node } where
  running := hnet ▸ h.running
  tags := hnet ▸ h.tags
  peerTag := h.peerTag
  timeout := h.timeout
  status := hstatus
  ticked := h.ticked
  due := hlast ▸ h.due
  link c hc := by
    obtain ⟨hsent, hbound, hcarries⟩ := h.link c hc
    exact ⟨hsent, hbound, hcarries.congr hnet (congrArg Identity.productUserId hidentity)⟩
  fresh info hinfo := by
    obtain ⟨hon, hfresh⟩ := h.fresh info (by simpa only [pid, hidentity] using hinfo)
    refine ⟨hon, ?_⟩
    simpa only [Fresh, hlast] using hfresh

/-- The peer does something that keeps what its directory says about the node. -/
theorem Timely.peer (h : w.Timely) {peer : Platform} (hsame : w.peer.SameProcess peer)
    (hfind : peer.peers.find w.pid = w.peer.peers.find w.pid) : Timely { w with peer } where
  running := h.running
  tags := hsame.net ▸ h.tags
  peerTag := by
    rw [hsame.net, hsame.identity]
    exact h.peerTag
  timeout := hsame.peerTimeout ▸ h.timeout
  status := h.status
  ticked := h.ticked
  due := h.due
  link c hc := by
    obtain ⟨hsent, hbound, hcarries⟩ := h.link c hc
    exact ⟨hsent, hbound, hcarries.congr rfl rfl⟩
  fresh info hinfo := h.fresh info (hfind.symm.trans hinfo)

/-- A message leaves that the peer's directory may see. -/
theorem Timely.append (h : w.Timely) {o : Outgoing} {datagram : Option Bytes} (copies : ℕ)
    (hcarries : ∀ d, datagram = some d → w.Carries ⟨w.now, o, d⟩) :
    Timely { w with link := w.link ++ w.departures o datagram copies } := by
  have hnew : ∀ c ∈ w.departures o datagram copies, ∃ d, datagram = some d ∧
    c = ⟨w.now, o, d⟩ := by
    intro c hc
    cases datagram with
    | none => cases hc
    | some d => exact ⟨d, rfl, List.eq_of_mem_replicate hc⟩
  constructor
  case link =>
    intro c hc
    rcases List.mem_append.1 hc with hc | hc
    · obtain ⟨hsent, hbound, hcarried⟩ := h.link c hc
      exact ⟨hsent, hbound, hcarried.congr rfl rfl⟩
    · obtain ⟨d, hd, rfl⟩ := hnew c hc
      refine ⟨?_, ?_, (hcarries d hd).congr rfl rfl⟩
      · exact Int.le_refl _
      · simp only [TimePoint, half, milliseconds]
        omega
  case fresh =>
    intro info hinfo
    obtain ⟨hon, hfresh⟩ := h.fresh info hinfo
    refine ⟨hon, hfresh.imp_right fun ⟨⟨c, hc, hhello⟩, hseen⟩ => ⟨⟨c, ?_, hhello⟩, hseen⟩⟩
    exact List.mem_append_left _ hc
  all_goals
    first
    | exact h.running
    | exact h.tags
    | exact h.peerTag
    | exact h.timeout
    | exact h.status
    | exact h.ticked
    | exact h.due

/-- The oldest datagram on the way is delivered. -/
theorem Timely.deliver (h : w.Timely) {c : InFlight} {link : List InFlight}
    (hlink : w.link = c :: link) (ip : UInt32) :
    Timely { w with link, peer := w.peer.receive w.now ip c.datagram } := by
  have hc : c ∈ w.link := hlink ▸ List.mem_cons_self
  have hsame := (Platform.step_directoryStep (p := w.peer) (a := .receive w.now ip c.datagram)
    rfl).1
  constructor
  case tags => exact hsame.net ▸ h.tags
  case peerTag =>
    show (w.peer.receive w.now ip c.datagram).net.senderTag = _
    rw [hsame.net, hsame.identity]
    exact h.peerTag
  case timeout => exact hsame.peerTimeout ▸ h.timeout
  case link =>
    intro x hx
    obtain ⟨hsent, hbound, hcarries⟩ := h.link x (hlink ▸ List.mem_cons_of_mem _ hx)
    exact ⟨hsent, hbound, hcarries.congr rfl rfl⟩
  case fresh =>
    intro info hinfo
    rcases h.receive hc ip with ⟨s, _, hfind⟩ | ⟨hother, heq⟩
    · have hnew := hfind.symm.trans hinfo
      cases hnew
      exact ⟨rfl, Or.inl h.due.1⟩
    · rw [heq] at hinfo
      obtain ⟨hon, hfresh⟩ := h.fresh info hinfo
      refine ⟨hon, hfresh.imp_right fun ⟨⟨x, hx, ⟨s, hs⟩, hat⟩, hseen⟩ =>
        ⟨⟨x, ?_, ⟨s, hs⟩, hat⟩, hseen⟩⟩
      rw [hlink] at hx
      rcases List.mem_cons.1 hx with rfl | hx
      · exact absurd hs (hother s)
      · exact hx
  all_goals first | exact h.running | exact h.status | exact h.ticked | exact h.due

/-- The game ticks, and a Hello that is due has just left. -/
theorem Timely.tick (h : w.Timely)
    (hleft : w.node.helloDue w.now = true → ∃ c ∈ w.link, (∃ s, c.message = .hello s) ∧
    c.sentAt = w.now) :
    Timely { w with node := (w.node.tick w.now).2.2, lastTick := w.now } := by
  have hticked := h.ticked
  have hdue := h.due
  refine ⟨h.running, h.tags, h.peerTag, h.timeout, h.status, ?_,
    ?_, fun c hc => ?_, fun info hinfo => ?_⟩
  · simp only [TimePoint, half, milliseconds] at *
    omega
  · simp only [Platform.tick, Platform.helloDue, decide_eq_true_eq]
    split <;> simp only [TimePoint, Platform.helloInterval, seconds, milliseconds] at * <;> omega
  · obtain ⟨hsent, hbound, hcarries⟩ := h.link c hc
    exact ⟨hsent, hbound, hcarries.congr rfl rfl⟩
  · obtain ⟨hon, hfresh⟩ := h.fresh info hinfo
    refine ⟨hon, ?_⟩
    simp only [Fresh, Platform.tick] at hfresh ⊢
    split
    · next hnow =>
        right
        refine ⟨hleft hnow, ?_⟩
        simp only [Platform.helloDue, decide_eq_true_eq] at hnow
        rcases hfresh with hseen | ⟨⟨c, hc, _, hat⟩, _⟩
        · simp only [TimePoint, half, Platform.helloInterval, seconds, milliseconds] at *
          omega
        · have hbound := (h.link c hc).2.1
          simp only [TimePoint, half, Platform.helloInterval, seconds, milliseconds] at *
          omega
    · exact hfresh

/-- The peer's game starts anew, and has heard of nobody. -/
theorem Timely.peerStart (h : w.Timely) (config : Config) (options : PlatformOptions)
    (port : Option UInt16) :
    Timely
      { w with peer := (Platform.configure
      { library := w.peer.library, identity := w.peer.identity } config
      options port w.now) } where
  running := h.running
  tags := by
    have htags := h.tags
    rwa [h.peerTag] at htags
  peerTag := rfl
  timeout := by
    simp only [Platform.configure]
    split
    · split <;> simp only [seconds, milliseconds] <;> omega
    · decide
  status := h.status
  ticked := h.ticked
  due := h.due
  link c hc := by
    obtain ⟨hsent, hbound, hcarries⟩ := h.link c hc
    exact ⟨hsent, hbound, hcarries.congr rfl rfl⟩
  fresh info hinfo := nomatch hinfo

/-- The Hello of a tick leaves whole. -/
theorem carries_hello
    (hfits : w.node.announces w.now = true → fits (helloPayload w.node.helloSource) = true)
    (d : Bytes) (hd : (w.node.tick w.now).1 = some d) :
    w.Carries ⟨w.now, .hello w.node.helloSource, d⟩ := by
  simp only [Platform.tick] at hd
  split at hd
  · next hannounces =>
      refine ⟨⟨.broadcast, hd⟩, fun s hs => ?_, fun id hid => nomatch hid⟩
      cases hs
      exact ⟨hfits hannounces, rfl⟩
  · cases hd

/-- A Hello that fits into a datagram leaves. -/
theorem Timely.hello_leaves (h : w.Timely) (hfits : fits (helloPayload w.node.helloSource) = true)
    (hannounces : w.node.announces w.now = true) : ∃ d, (w.node.tick w.now).1 = some d := by
  obtain ⟨d, hd⟩ := Platform.exists_broadcastHello h.running hfits
  exact ⟨d, by simp only [Platform.tick, hannounces, if_true, hd]⟩

/-- A tick of the peer leaves its entry of the node alone. -/
theorem Timely.find_peerTick (h : w.Timely) :
    (w.peer.tick w.now).2.2.peers.find w.pid = w.peer.peers.find w.pid := by
  rw [show (w.peer.tick w.now).2.2.peers =
    (w.peer.peers.markStale w.now w.peer.peerTimeout).2 from rfl, PeerDirectory.find_markStale]
  cases hfind : w.peer.peers.find w.pid with
  | none => rfl
  | some info => simp [h.not_stale (h.fresh info hfind).2]

/-- So does the Hello of another user. -/
theorem find_peerObserves {o : Observation} (ho : o.productId ≠ w.pid) (source : Endpoint) :
    (w.peer.peers.observe o source w.now).2.find w.pid = w.peer.peers.find w.pid := by
  by_cases hne : o.productId = []
  · rw [PeerDirectory.observe_of_empty hne]
  · rw [PeerDirectory.find_observe hne, if_neg ho.symm]

/-- So does the Goodbye of another user. -/
theorem find_peerLoses {productId : ProductUserId} (hid : productId ≠ w.pid) :
    (w.peer.peers.markOffline productId).2.find w.pid = w.peer.peers.find w.pid := by
  rw [PeerDirectory.find_markOffline]
  simp [hid.symm]

/-- Every step keeps the node from being seen offline, if its Hellos fit. -/
theorem timely_step (h : w.Timely) {e : HelloEvent} (hok : HelloFits w e)
    (hstep : w.step e = some w') : w'.Timely := by
  cases e with
  | pass d =>
      obtain ⟨hd, heq⟩ := Option.ite_none_right_eq_some.1 hstep
      cases heq
      exact h.pass hd
  | setPresence m =>
      cases hstep
      obtain ⟨hsame, _⟩ := Platform.step_directoryStep (p := w.node) (a := .setPresence m) rfl
      refine h.node hsame.net hsame.identity (by cases m <;> rfl) ?_
      cases m with
      | none => exact h.status
      | some m =>
          show EnumFits (if m.bSetStatus then m.status else w.node.presence.localStatus)
          split
          · next hset => exact hok hset
          · exact h.status
  | send o dest =>
      obtain ⟨ho, heq⟩ := Option.ite_none_left_eq_some.1 hstep
      cases heq
      refine h.append 1 fun d hd => ⟨⟨dest, hd⟩, fun s hs => ?_, fun id hid => ?_⟩
      · exact absurd (show o.isPresence = true by rw [show o = .hello s from hs]; rfl) ho
      · exact absurd (show o.isPresence = true by rw [show o = .goodbye id from hid]; rfl) ho
  | tick extra =>
      cases hstep
      refine (h.append (extra + 1) (carries_hello hok)).tick fun hdue => ?_
      have hannounces : w.node.announces w.now = true := by simp [Platform.announces, hdue]
      obtain ⟨d, hd⟩ := h.hello_leaves (hok hannounces) hannounces
      refine ⟨⟨w.now, .hello w.node.helloSource, d⟩, ?_, ⟨_, rfl⟩, rfl⟩
      rw [hd]
      exact List.mem_append_right _ (by simp [departures])
  | receive ip datagram =>
      cases hstep
      obtain ⟨peers, heq, _⟩ := Platform.receive_directoryStep (p := w.node) w.now ip datagram
      rw [heq]
      exact h.node rfl rfl rfl h.status
  | deliver ip =>
      simp only [step] at hstep
      cases hlink : w.link with
      | nil => rw [hlink] at hstep; cases hstep
      | cons c link =>
          rw [hlink] at hstep
          cases hstep
          exact h.deliver hlink ip
  | peerTick =>
      cases hstep
      exact h.peer (Platform.step_directoryStep (p := w.peer) (a := .tick w.now) rfl).1
        h.find_peerTick
  | peerObserves source o =>
      obtain ⟨ho, heq⟩ := Option.ite_none_left_eq_some.1 hstep
      cases heq
      exact h.peer ⟨rfl, rfl, rfl, rfl, rfl⟩ (find_peerObserves ho source)
  | peerLoses productId =>
      obtain ⟨ho, heq⟩ := Option.ite_none_left_eq_some.1 hstep
      cases heq
      exact h.peer ⟨rfl, rfl, rfl, rfl, rfl⟩ (find_peerLoses ho)
  | peerStart config options port =>
      cases hstep
      exact h.peerStart config options port

/-! ## A presence on its way to the peer -/

/-- A datagram on the way does not bring another presence than the node's. -/
def Neutral (w : HelloWorld) (c : InFlight) : Prop :=
  ∀ s, c.message = .hello s → s = w.node.helloSource

/-- Where a presence set at a time is: it waits for the next tick, a Hello with it is on the way
and no other presence behind it, or the peer has it and no other is on the way. -/
inductive Stage (w : HelloWorld) (since : TimePoint) : Prop
  | waits : w.node.helloDirty = true → w.lastTick ≤ since → Stage w since
  | leaves (before : List InFlight) (c : InFlight) (after : List InFlight) : w.link = before ++
      c :: after →
      c.message = .hello w.node.helloSource → c.sentAt ≤ since + half →
      (∀ x ∈ after, w.Neutral x) → Stage w since
  | arrived (info : PeerInfo) : (∀ x ∈ w.link, w.Neutral x) → w.peer.peers.find w.pid = some info →
      info.presence = w.node.helloSource.peerPresence → Stage w since

/-- The presence that was set last, and where it is. -/
structure Converges (w : HelloWorld) (since : TimePoint) (presence : LocalPresence) : Prop where
  presence_eq : w.node.presence = presence
  synced : w.node.announced = presence.announced
  stage : w.Stage since

end HelloWorld

/-- Another presence is set, or the peer forgets. -/
def HelloEvent.supersedes : HelloEvent → Bool
  | .setPresence (some _) | .peerStart .. => true
  | _ => false

/-- The presence cached of a peer is the one its user set. -/
def PeerPresence.Shows (cached : PeerPresence) (presence : LocalPresence) : Prop :=
  enumOfByte cached.status = presence.localStatus ∧ cached.richText = presence.localRichText ∧
  cached.joinInfo = presence.localJoinInfo ∧ cached.data = presence.records

namespace HelloWorld
variable {w w' : HelloWorld} {since : TimePoint} {presence : LocalPresence}

/-- `SetPresence` starts it. -/
theorem converges_setPresence (h : w.Timely) (m : PresenceModificationObj) :
    Converges { w with node := w.node.setPresence (some m) } w.now
      (w.node.presence.setPresence m) :=
  ⟨rfl, rfl, .waits rfl h.ticked.1⟩

/-- The node and the peer do something that keeps the node's Hello and the peer's entry. -/
theorem Stage.congr (h : w.Stage since) (hsource : w'.node.helloSource = w.node.helloSource)
    (hdirty : w'.node.helloDirty = w.node.helloDirty) (htick : w'.lastTick = w.lastTick)
    (hlink : w'.link = w.link) (hpid : w'.pid = w.pid)
    (hfind : w'.peer.peers.find w.pid = w.peer.peers.find w.pid) : w'.Stage since := by
  cases h with
  | waits hd ht => exact .waits (hdirty.trans hd) (htick ▸ ht)
  | leaves before c after hl hc hsent hneutral =>
      refine .leaves before c after (hlink.trans hl) (by rw [hsource, hc]) hsent fun x hx s hs =>
        ?_
      rw [hsource]
      exact hneutral x hx s hs
  | arrived info hneutral hf hpresence =>
      refine .arrived info (fun x hx s hs => ?_) (by rw [hpid, hfind, hf])
        (by rw [hsource, hpresence])
      rw [hsource]
      exact hneutral x (hlink ▸ hx) s hs

/-- Something leaves the node that brings no other presence. -/
theorem Stage.append (h : w.Stage since) {new : List InFlight} (hnew : ∀ x ∈ new, w.Neutral x) :
    Stage { w with link := w.link ++ new } since := by
  cases h with
  | waits hd ht => exact .waits hd ht
  | leaves before c after hl hc hsent hneutral =>
      refine .leaves before c (after ++ new) ?_ hc hsent fun x hx => ?_
      · simp [hl]
      · exact (List.mem_append.1 hx).elim (hneutral x) (hnew x)
  | arrived info hneutral hf hpresence =>
      exact .arrived info (fun x hx => (List.mem_append.1 hx).elim (hneutral x) (hnew x)) hf
        hpresence

/-- The game ticks: a Hello with the presence leaves if it still waits. -/
theorem Stage.tick (h : w.Stage since) (ht : w.Timely)
    (hfits : w.node.announces w.now = true → fits (helloPayload w.node.helloSource) = true)
    (extra : ℕ) :
    Stage { w with node := (w.node.tick w.now).2.2, lastTick := w.now
                   link := w.link ++ w.departures (.hello w.node.helloSource) (w.node.tick w.now).1
                     (extra + 1) }
      since := by
  have hneutral : ∀ x ∈ w.departures (.hello w.node.helloSource) (w.node.tick w.now).1 (extra + 1),
    w.Neutral x := by
    intro x hx s hs
    unfold departures at hx
    split at hx
    · cases hx
    · rw [List.eq_of_mem_replicate hx] at hs
      cases hs
      rfl
  cases h with
  | waits hdirty htick =>
      have hannounces : w.node.announces w.now = true := by simp [Platform.announces, hdirty]
      obtain ⟨d, hd⟩ := ht.hello_leaves (hfits hannounces) hannounces
      rw [hd] at hneutral ⊢
      refine .leaves w.link ⟨w.now, .hello w.node.helloSource, d⟩
        (List.replicate extra ⟨w.now, .hello w.node.helloSource, d⟩) rfl rfl ?_ fun x hx => ?_
      · have hticked := ht.ticked.2
        simp only [TimePoint] at *
        omega
      · exact hneutral x (by simp [departures, List.replicate_succ, List.eq_of_mem_replicate hx])
  | leaves before c after hl hc hsent hafter =>
      exact .leaves before c (after ++ _) (by simp [hl]) hc hsent fun x hx =>
        (List.mem_append.1 hx).elim (hafter x) (hneutral x)
  | arrived info hall hf hpresence =>
      exact .arrived info (fun x hx => (List.mem_append.1 hx).elim (hall x) (hneutral x)) hf
        hpresence

/-- A datagram is delivered. -/
theorem Stage.deliver (h : w.Stage since) (ht : w.Timely) {c : InFlight} {link : List InFlight}
    (hlink : w.link = c :: link) (ip : UInt32) :
    Stage { w with link, peer := w.peer.receive w.now ip c.datagram } since := by
  have hc : c ∈ w.link := hlink ▸ List.mem_cons_self
  cases h with
  | waits hd htick => exact .waits hd htick
  | leaves before c' after hl hc' hsent hafter =>
      rw [hlink] at hl
      cases before with
      | nil =>
          cases hl
          rcases ht.receive hc ip with ⟨s, hs, hfind⟩ | ⟨hother, _⟩
          · rw [hc'] at hs
            cases hs
            exact .arrived _ hafter hfind rfl
          · exact absurd hc' (hother _)
      | cons _ before =>
          obtain ⟨_, rfl⟩ := List.cons.inj hl
          exact .leaves before c' after rfl hc' hsent hafter
  | arrived info hall hf hpresence =>
      have hrest : ∀ x ∈ link, w.Neutral x := fun x hx =>
        hall x (hlink ▸ List.mem_cons_of_mem _ hx)
      rcases ht.receive hc ip with ⟨s, hs, hfind⟩ | ⟨_, heq⟩
      · cases hall c hc s hs
        exact .arrived _ hrest hfind rfl
      · rw [heq]
        exact .arrived info hrest hf hpresence

/-- Every step that does not supersede it keeps it on its way. -/
theorem converges_step (h : w.Converges since presence) (ht : w.Timely) {e : HelloEvent}
    (hok : HelloFits w e) (he : e.supersedes = false) (hstep : w.step e = some w') :
    w'.Converges since presence := by
  cases e with
  | pass d =>
      obtain ⟨_, heq⟩ := Option.ite_none_right_eq_some.1 hstep
      cases heq
      exact ⟨h.presence_eq, h.synced, h.stage.congr rfl rfl rfl rfl rfl rfl⟩
  | setPresence m =>
      cases m with
      | none =>
          cases hstep
          exact h
      | some m => cases he
  | send o dest =>
      obtain ⟨ho, heq⟩ := Option.ite_none_left_eq_some.1 hstep
      cases heq
      refine ⟨h.presence_eq, h.synced, h.stage.append fun x hx s hs => ?_⟩
      unfold departures at hx
      split at hx
      · cases hx
      · rw [List.eq_of_mem_replicate hx] at hs
        rw [show o = .hello s from hs] at ho
        exact absurd rfl ho
  | tick extra =>
      cases hstep
      exact ⟨h.presence_eq, h.synced, h.stage.tick ht hok extra⟩
  | receive ip datagram =>
      cases hstep
      obtain ⟨peers, heq, _⟩ := Platform.receive_directoryStep (p := w.node) w.now ip datagram
      rw [heq]
      exact ⟨h.presence_eq, h.synced, h.stage.congr rfl rfl rfl rfl rfl rfl⟩
  | deliver ip =>
      simp only [step] at hstep
      cases hlink : w.link with
      | nil => rw [hlink] at hstep; cases hstep
      | cons c link =>
          rw [hlink] at hstep
          cases hstep
          exact ⟨h.presence_eq, h.synced, h.stage.deliver ht hlink ip⟩
  | peerTick =>
      cases hstep
      exact ⟨h.presence_eq, h.synced, h.stage.congr rfl rfl rfl rfl rfl ht.find_peerTick⟩
  | peerObserves source o =>
      obtain ⟨ho, heq⟩ := Option.ite_none_left_eq_some.1 hstep
      cases heq
      exact ⟨h.presence_eq, h.synced, h.stage.congr rfl rfl rfl rfl rfl
        (find_peerObserves ho source)⟩
  | peerLoses productId =>
      obtain ⟨ho, heq⟩ := Option.ite_none_left_eq_some.1 hstep
      cases heq
      exact ⟨h.presence_eq, h.synced, h.stage.congr rfl rfl rfl rfl rfl (find_peerLoses ho)⟩
  | peerStart => cases he

/-- A second later it has arrived. -/
theorem Converges.shows (h : w.Converges since presence) (ht : w.Timely)
    (hlate : since + seconds 1 < w.now) :
    ∃ info, w.peer.peers.find w.pid = some info ∧ info.presence.Shows presence := by
  have hticked := ht.ticked
  cases h.stage with
  | waits _ htick =>
      exfalso
      simp only [TimePoint, half, seconds, milliseconds] at *
      omega
  | leaves before c after hlink _ hsent _ =>
      exfalso
      have hbound := (ht.link c (hlink ▸ List.mem_append_right _ List.mem_cons_self)).2.1
      simp only [TimePoint, half, seconds, milliseconds] at *
      omega
  | arrived info _ hfind hpresence =>
      refine ⟨info, hfind, ?_⟩
      have hstatus := ht.status
      rw [h.presence_eq] at hstatus
      rw [hpresence, HelloSource.peerPresence]
      simp only [Platform.helloSource, h.synced]
      exact ⟨enumOfByte_toByte hstatus, rfl, rfl, rfl⟩

/-- The node's product user id does not change. -/
theorem pid_step {e : HelloEvent} (hstep : w.step e = some w') : w'.pid = w.pid := by
  have hsame : ∀ a n, w.node.step a = some n → n.identity = w.node.identity :=
    fun a n hn => (Platform.step_directoryStep hn).1.identity
  cases e with
  | pass | send | peerObserves | peerLoses =>
      simp only [step] at hstep
      split at hstep
      all_goals first | cases hstep; rfl | cases hstep
  | setPresence m =>
      cases hstep
      exact congrArg Identity.productUserId (hsame (.setPresence m) _ rfl)
  | tick extra =>
      cases hstep
      exact congrArg Identity.productUserId (hsame (.tick w.now) _ rfl)
  | receive ip datagram =>
      cases hstep
      exact congrArg Identity.productUserId (hsame (.receive w.now ip datagram) _ rfl)
  | deliver ip =>
      simp only [step] at hstep
      split at hstep
      · cases hstep
      · cases hstep
        rfl
  | peerTick | peerStart =>
      cases hstep
      rfl

/-- A node that has just been created, and a peer. -/
theorem timely_start {library library' : Library} {identity identity' : Identity}
    {config config' : Config} {options options' : Option PlatformOptions} {port : UInt16}
    {port' : Option UInt16} {now now' : TimePoint} {a b : Platform}
    (ha : Platform.create library identity config options (some port) now = some a)
    (hb : Platform.create library' identity' config' options' port' now' = some b)
    (htags : senderTag identity.productUserId ≠ senderTag identity'.productUserId) :
      (start a b now).Timely := by
  obtain ⟨_, ha⟩ := Option.ite_none_left_eq_some.1 ha
  obtain ⟨_, _, rfl⟩ := Option.map_eq_some_iff.1 ha
  obtain ⟨_, hb⟩ := Option.ite_none_left_eq_some.1 hb
  obtain ⟨_, _, rfl⟩ := Option.map_eq_some_iff.1 hb
  constructor
  case running => rfl
  case tags => exact htags
  case peerTag => rfl
  case timeout =>
    simp only [start, Platform.configure]
    split
    · split <;> simp only [seconds, milliseconds] <;> omega
    · decide
  case status => exact show EnumFits statusOnline by decide
  case ticked => simp [start, half, milliseconds]
  case due => simp [start, Platform.configure, Platform.helloInterval, seconds, milliseconds]
  case link => rintro _ ⟨⟩
  case fresh => rintro _ ⟨⟩

end HelloWorld

/-- **A ticking node is never seen offline.** In every run in which the Hellos that leave fit into
a datagram, the peer flags the node online since its first Hello, and more than a second after a
`SetPresence` call with no later one the peer has the presence that the call set. -/
theorem ticking_node_seen_online {library library' : Library} {identity identity' : Identity}
    {config config' : Config} {options options' : Option PlatformOptions} {port : UInt16}
    {port' : Option UInt16} {now now' : TimePoint} {a b : Platform}
    (ha : Platform.create library identity config options (some port) now = some a)
    (hb : Platform.create library' identity' config' options' port' now' = some b)
    (htags : senderTag identity.productUserId ≠ senderTag identity'.productUserId)
    {l : List (Transition HelloWorld HelloEvent)} {w : HelloWorld}
    (h : Trace HelloWorld.step HelloFits (HelloWorld.start a b now) l w) :
    (∀ info, w.peer.peers.find a.identity.productUserId = some info → info.online = true) ∧
    ∀ pre m post, Since (· = ⟨pre, .setPresence (some m), post⟩)
      (fun x => x.action.supersedes = true) l → pre.now + seconds 1 < w.now →
      ∃ info, w.peer.peers.find a.identity.productUserId = some info ∧
        info.presence.Shows post.node.presence := by
  have hinv : w.Timely ∧ w.pid = a.identity.productUserId ∧ ∀ pre m post,
      Since (· = ⟨pre, .setPresence (some m), post⟩) (fun x => x.action.supersedes = true) l →
        w.Converges pre.now post.node.presence := by
    refine h.invariant (P := fun l w => w.Timely ∧ w.pid = a.identity.productUserId ∧ ∀ pre m post,
      Since (· = ⟨pre, .setPresence (some m), post⟩) (fun x => x.action.supersedes = true) l →
        w.Converges pre.now post.node.presence)
      ⟨HelloWorld.timely_start ha hb htags, rfl, fun _ _ _ hs => absurd hs
        not_since_nil⟩ fun l u v e _ hu hok hstep => ?_
    refine ⟨HelloWorld.timely_step hu.1 hok hstep,
      (HelloWorld.pid_step hstep).trans hu.2.1, fun pre m post hs => ?_⟩
    rcases since_snoc.1 hs with heq | ⟨hbefore, hsup⟩
    · cases heq
      cases hstep
      exact HelloWorld.converges_setPresence hu.1 m
    · exact HelloWorld.converges_step (hu.2.2 pre m post hbefore) hu.1 hok (by simpa using hsup)
        hstep
  obtain ⟨htimely, hpid, hconverges⟩ := hinv
  rw [← hpid]
  exact ⟨fun info hinfo => (htimely.fresh info hinfo).1, fun pre m post hs hlate =>
    (hconverges pre m post hs).shows htimely hlate⟩

namespace HelloWorld
variable {w : HelloWorld}

/-- A node whose Hello does not fit sends nothing when it ticks. -/
theorem tick_silent (hsilent : w.node.broadcastHello = none) (extra : ℕ) :
    w.step (.tick extra) = some { w with node := (w.node.tick w.now).2.2, lastTick := w.now } := by
  have hquiet : (w.node.tick w.now).1 = none := by
    simp only [Platform.tick, hsilent, ite_self]
  have hnothing : w.link ++ w.departures (.hello w.node.helloSource) (w.node.tick w.now).1
    (extra + 1) = w.link := by
    rw [hquiet, departures, List.append_nil]
  exact congrArg (fun link =>
    some { w with node := (w.node.tick w.now).2.2, lastTick := w.now, link }) hnothing

/-- Nor over any number of ticks, half a second apart. -/
theorem exec_ticks_silent (n : ℕ) (hlink : w.link = []) (htick : w.lastTick = w.now)
    (hsilent : w.node.broadcastHello = none) :
    ∃ w', exec step w (List.replicate n [.pass 500000000, .tick 0]).flatten = some w' ∧
    w'.peer = w.peer ∧ w'.now = w.now + n * 500000000 := by
  induction n generalizing w with
  | zero =>
      refine ⟨w, rfl, rfl, ?_⟩
      simp
  | succ n ih =>
      have hpass : w.step (.pass 500000000) = some { w with now := w.now + (500000000 : ℕ) } := by
        refine if_pos ⟨?_, ?_⟩
        · simp [htick, half, milliseconds]
        · simp [hlink]
      have hquiet := tick_silent (w := { w with now := w.now + (500000000 : ℕ) }) hsilent 0
      obtain ⟨w', hex, hpeer, hnow⟩ := ih
        (w := { w with now := w.now + (500000000 : ℕ), lastTick := w.now + (500000000 : ℕ)
                       node := (w.node.tick (w.now + (500000000 : ℕ))).2.2 }) hlink rfl hsilent
      refine ⟨w', ?_, hpeer, ?_⟩
      · rw [List.replicate_succ, List.flatten_cons, exec_append, exec, hpass, Option.bind_some,
          exec, hquiet, Option.bind_some, exec, Option.bind_some, hex]
      · rw [hnow]
        simp only [TimePoint]
        push_cast
        omega

end HelloWorld

/-- A node and a peer right after the node's creation. -/
def sampleTicking : HelloWorld := .start (samplePlatform {}) otherPlatform 0

/-- A presence. -/
def sampleMatch : PresenceModificationObj :=
  { bSetRichText := true, richText := str "match", bSetStatus := true, status := 3 }

/-- The game sets it and ticks for more than a second. -/
def sampleTicks : List HelloEvent :=
  [.tick 0, .pass 400000000, .deliver 1, .peerTick, .tick 0, .pass 500000000, .tick 0,
    .pass 500000000, .peerTick]

/-- The peer sees the node online, with the presence that the game set. -/
theorem ticking_node_seen_online_sample :
    ∃ l w info, Trace HelloWorld.step HelloFits sampleTicking l w ∧
    w.peer.peers.find (str "a") = some info ∧ info.online = true ∧
    info.presence.Shows (LocalPresence.setPresence {} sampleMatch) := by
  have hex : (execIf HelloWorld.step (fun w e => HelloFits w e) sampleTicking
      (.setPresence (some sampleMatch) :: sampleTicks)).map (·.now) = some 1400000000 := by
        decide +kernel
  obtain ⟨w, hex, hnow⟩ := Option.map_eq_some_iff.1 hex
  have htrace := Trace.of_execIf (fun w e => of_decide_eq_true) hex
  obtain ⟨honline, hshows⟩ := ticking_node_seen_online (create_samplePlatform {})
    create_otherPlatform (by decide) htrace
  obtain ⟨info, hinfo, hpresence⟩ := hshows sampleTicking sampleMatch
    { sampleTicking with node := sampleTicking.node.setPresence (some sampleMatch) }
    ⟨[], _, _, rfl, rfl, by decide +kernel⟩ (by rw [hnow]; decide)
  exact ⟨_, w, info, htrace, hinfo, honline info hinfo, hpresence⟩

/-- A rich text that does not fit into a datagram. -/
def sampleEssay : PresenceModificationObj :=
  { bSetRichText := true, richText := List.replicate 16400 97 }

/-- The peer has heard of the node when the game sets it. -/
def sampleHeard : List HelloEvent :=
  [.peerStart { peerTimeoutSeconds := 4 } {} (some 7002), .setPresence (some sampleMatch), .tick 0,
    .deliver 1]

/-- It goes on ticking, and is flagged offline, because its Hellos are dropped. -/
theorem not_ticking_node_seen_online : ∃ w info, Run HelloWorld.step Always sampleTicking w ∧
    w.peer.peers.find (str "a") = some info ∧ info.online = false := by
  have hex : (exec HelloWorld.step sampleTicking sampleHeard).any (fun w => w.link.length = 0 ∧
    w.now = 0 ∧
      w.lastTick = 0 ∧
      (helloPayload (w.node.setPresence (some sampleEssay)).helloSource.plain).length = 41 ∧
      w.peer.peerTimeout = seconds 4 ∧ (w.peer.peers.find (str "a")).any fun info =>
        info.online = true ∧ info.lastSeen = 0) = true := by decide +kernel
  obtain ⟨w, hex, heard⟩ := (Option.any_eq_true _ _).1 hex
  simp only [decide_eq_true_eq, List.length_eq_zero_iff] at heard
  obtain ⟨hlink, hnow, htick, hplain, htimeout, hfind⟩ := heard
  obtain ⟨info, hinfo, hseen⟩ := (Option.any_eq_true _ _).1 hfind
  have hsilent : (w.node.setPresence (some sampleEssay)).broadcastHello = none := by
    refine Platform.broadcastHello_eq_none ?_
    have hrich : (w.node.setPresence (some sampleEssay)).helloSource.presence.richText =
      sampleEssay.richText := rfl
    rw [helloPayload_length, hplain, hrich, sampleEssay, List.length_replicate]
    decide
  obtain ⟨w', hex', hpeer, hnow'⟩ := HelloWorld.exec_ticks_silent
    (w := { w with node := w.node.setPresence (some sampleEssay) })
    9 hlink (htick.trans hnow.symm) hsilent
  have hrun : exec HelloWorld.step sampleTicking
    (sampleHeard ++ (.setPresence (some sampleEssay) ::
      ((List.replicate 9 [.pass 500000000, .tick 0]).flatten ++ [.peerTick]))) =
      some { w' with peer := (w'.peer.tick w'.now).2.2 } := by
    rw [exec_append, hex, Option.bind_some, exec, show w.step (.setPresence (some sampleEssay)) =
      some _ from rfl, Option.bind_some, exec_append, hex']
    rfl
  refine ⟨_, { info with online := false }, Run.of_exec hrun, ?_, rfl⟩
  show ((w'.peer.peers.markStale w'.now w'.peer.peerTimeout).2).find (str "a") = _
  have hstale : PeerDirectory.stale w'.now w'.peer.peerTimeout info = true := by
    simp only [decide_eq_true_eq] at hseen
    rw [hpeer, hnow']
    simp [PeerDirectory.stale, hseen, hnow, htimeout, seconds, milliseconds]
  rw [PeerDirectory.find_markStale, hpeer]
  simp only [hinfo, Option.map_some]
  rw [← hpeer, if_pos hstale]

end EOSEmu
