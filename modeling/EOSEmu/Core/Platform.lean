import Mathlib.Data.Finmap
import Mathlib.Data.List.Lex
import Mathlib.Data.Finset.Sort
import Mathlib.Data.UInt
import EOSEmu.Core.Lifecycle
import EOSEmu.Core.Peers
import EOSEmu.Net.Lan
import EOSEmu.Presence.Modification

/-!
# The platform and presence

The part of `Platform` that announces the local user and knows the peers (`core/Platform.cpp`),
with `PresenceInterface` (`interfaces/Presence.cpp`). The local presence is held twice: in the
interface, which the local user reads, and in `announced`, which `BroadcastHello` sends.
-/

namespace EOSEmu

open Lib

/-- Seconds as clock ticks. -/
def seconds (s : Int) : Int := milliseconds (s * 1000)

/-- `Identity`, fixed at construction: the ids are 32 hex digits or the non-empty values of
`eosemu.ini`. -/
structure Identity where
  productUserId : Bytes
  epicAccountId : Bytes
  displayName : Bytes
  productUserId_ne : productUserId ≠ []
  epicAccountId_ne : epicAccountId ≠ []

/-- Two users. -/
def sampleIdentity : Identity := ⟨str "a", str "e", str "A", by decide, by decide⟩

@[inherit_doc sampleIdentity]
def otherIdentity : Identity := ⟨str "b", str "f", str "B", by decide, by decide⟩

/-- What `Configure` reads of `eosemu.ini`: `[Presence] RichText`, `[Presence] Status` and
`[Network] PeerTimeoutSeconds`. -/
structure Config where
  richText : Option Bytes := none
  status : Option Bytes := none
  peerTimeoutSeconds : Int := 0

/-- The starting presence; `RichText` wins over `Status`. -/
def Config.presence (c : Config) : Bytes := c.richText.getD (c.status.getD [])

/-- What `Configure` reads of `EOS_Platform_Options`. -/
structure PlatformOptions where
  productId : Option Bytes := none

/-- `Platform`, with the globals of its process. `identity` stands for `Identity_`. -/
structure Platform where
  library : Library
  identity : Identity
  net : LanNode := ⟨false, 0, 0⟩
  productId : Bytes := []
  presence : LocalPresence := {}
  announced : LocalPresenceState := {}
  helloDirty : Bool := false
  lastHello : TimePoint := 0
  peerTimeout : Int := seconds 10
  peers : PeerDirectory := {}

/-- The sender tag of a product user id. -/
def senderTag (productUserId : Bytes) : UInt32 :=
  productUserId.foldl (fun tag c => tag * 131 + c.toUInt32) 0

/-- A `std::map` as a vector, in the order of the keys. -/
def LocalPresence.records (p : LocalPresence) : List (Bytes × Bytes) :=
  (p.localData.keys.sort (· ≤ ·)).filterMap fun key => (p.localData.lookup key).map fun value =>
    (key, value)

/-- `EOS_Presence_Info`, with the string behind each pointer. -/
structure PresenceInfo where
  status : SdkInt
  userId : Bytes
  productId : Bytes
  productVersion : Bytes
  platform : Bytes := str "WIN"
  richText : Bytes
  records : List (Bytes × Bytes)
  productName : Bytes
  integratedPlatform : Bytes := []
  deriving Repr

/-- `EOS_PS_Offline`. -/
def statusOffline : SdkInt := 0

/-- `if (A.empty()) A = B`. -/
def orElse (a b : Bytes) : Bytes := if a.isEmpty then b else a

namespace Platform

/-! ## Configuration -/

/-- `Platform::Configure`; `port` is the unicast port if the transport comes up. -/
def configure (p : Platform) (config : Config) (options : PlatformOptions) (port : Option UInt16)
    (now : TimePoint) : Platform :=
  { p with
    productId := options.productId.getD p.productId
    announced := if config.presence.isEmpty then p.announced
      else { p.announced with richText := config.presence }
    peerTimeout :=
      if 0 < config.peerTimeoutSeconds then
        seconds (if config.peerTimeoutSeconds < 4 then 4 else config.peerTimeoutSeconds)
      else p.peerTimeout
    lastHello := now
    net :=
      { running := port.isSome, senderTag := senderTag p.identity.productUserId
        unicastPort := port.getD 0 } }

/-- `EOS_Platform_Create`; null options are `none`. -/
def create (library : Library) (identity : Identity) (config : Config)
    (options : Option PlatformOptions) (port : Option UInt16) (now : TimePoint) : Option Platform :=
  if !library.initialized then none
  else options.map fun o => configure { library, identity } config o port now

variable (p : Platform)

/-! ## The local presence -/

/-- `Platform::SetLocalPresence`. -/
def setLocalPresence (status : UInt8) (richText joinInfo : Bytes) (data : List (Bytes × Bytes)) :
    Platform :=
  { p with announced := { status, richText, joinInfo, data }, helloDirty := true }

/-- `PresenceInterface::SetPresence`; a null handle changes nothing. -/
def setPresence (m : Option PresenceModificationObj) : Platform :=
  match m with
  | none => p
  | some m =>
      let presence := p.presence.setPresence m
      { p with presence }.setLocalPresence (enumToByte presence.localStatus) presence.localRichText
        presence.localJoinInfo presence.records

/-- `PresenceInterface::CopyPresence`. -/
def copyPresence (target : Bytes) : EResult × Option PresenceInfo :=
  let info (status : SdkInt) (richText : Bytes) (records : List (Bytes × Bytes))
      (productId productVersion productName : Bytes) : PresenceInfo :=
    { status
      userId := target
      productId := orElse (orElse productId p.productId) (str "eosemu")
      productVersion := orElse (orElse productVersion p.library.productVersion) (str "1.0")
      richText
      records
      productName := orElse (orElse productName p.library.productName) (str "EOSEmu") }
  if target.isEmpty then (.invalidParameters, none)
  else if target = p.identity.epicAccountId then
    (.success, some (info p.presence.localStatus p.presence.localRichText p.presence.records [] []
      []))
  else match p.peers.findByEpic target with
    | none => (.notFound, none)
    | some peer =>
      (.success, some
      (info (if peer.online then enumOfByte peer.presence.status else statusOffline)
        peer.presence.richText peer.presence.data peer.presence.productId
          peer.presence.productVersion
        peer.presence.productName))

/-- The join info that `GetJoinInfo` looks up; an unknown user has none. -/
def joinInfoOf (target : Bytes) : Bytes :=
  if target = p.identity.epicAccountId then p.presence.localJoinInfo
  else match p.peers.findByEpic target with
    | none => []
    | some peer => peer.presence.joinInfo

/-- `PresenceInterface::GetJoinInfo`: the result, `InOutLen` after the call, and the string if it
was written. -/
def getJoinInfo (target : Bytes) (outBuffer : Bool) (inOutLen : Option Int) :
    EResult × Option Int × Option Bytes :=
  match inOutLen with
  | none => (.invalidParameters, none, none)
  | some len =>
      let join := p.joinInfoOf target
      let required : Int := join.length + 1
      if join.isEmpty then (.notFound, some len, none)
      else if !outBuffer || len < required then (.limitExceeded, some required, none)
      else (.success, some required, some join)

/-! ## Announcing -/

/-- The values that `BroadcastHello` writes. -/
def helloSource : HelloSource :=
  { productUserId := p.identity.productUserId
    epicAccountId := p.identity.epicAccountId
    displayName := p.identity.displayName
    presence := p.announced
    productId := p.productId
    productVersion := p.library.productVersion
    productName := p.library.productName }

/-- `Platform::BroadcastHello`: the datagram, if one leaves. -/
def broadcastHello : Option Bytes :=
  p.net.broadcast .hello (helloPayload p.helloSource)
    (ByteWriter.size (helloPayload p.helloSource))

/-- The interval of the periodic Hello. -/
def helloInterval : Int := seconds 2

/-- `HelloDue` of `Tick`. -/
def helloDue (now : TimePoint) : Bool := helloInterval ≤ now - p.lastHello

/-- Whether `Tick` broadcasts a Hello. -/
def announces (now : TimePoint) : Bool := p.helloDirty || p.helloDue now

/-- `Platform::Tick`: the Hello that leaves, the peers that went offline, and the platform. -/
def tick (now : TimePoint) : Option Bytes × List PeerInfo × Platform :=
  let (gone, peers) := p.peers.markStale now p.peerTimeout
  (if p.announces now then p.broadcastHello else none, gone,
    { p with helloDirty := false, lastHello := if p.helloDue now then now else p.lastHello, peers
      })

/-! ## Receiving -/

/-- The Goodbye branch of `OnDatagram`, up to the call of `MarkOffline`. -/
def onGoodbye : Reader (Option Bytes) := do
  let productId ← ByteReader.str
  if !(← ByteReader.isOk) || productId.isEmpty then return none else return some productId

/-- `Platform::OnDatagram`. The interfaces' messages leave the peer directory and the presence
alone. -/
def onDatagram (now : TimePoint) (source : Endpoint) (type : UInt16) (payload : Bytes) : Platform :=
  if type = MessageType.hello.toNumber then
    match (onHello ⟨payload, 0, true⟩).1 with
    | none => p
    | some o => { p with peers := (p.peers.observe o source now).2 }
  else if type = MessageType.goodbye.toNumber then
    match (onGoodbye ⟨payload, 0, true⟩).1 with
    | none => p
    | some productId => { p with peers := (p.peers.markOffline productId).2 }
  else p

/-- A datagram from a host: the checks of `ReceiveLoop`, then `OnDatagram`. -/
def receive (now : TimePoint) (ip : UInt32) (datagram : Bytes) : Platform :=
  match p.net.receive ip datagram with
  | none => p
  | some (source, header, payload) => p.onDatagram now source header.type payload

/-- The observation that a datagram from a host passes to `Observe`. -/
def observation (ip : UInt32) (datagram : Bytes) : Option (Endpoint × Observation) :=
  match p.net.receive ip datagram with
  | none => none
  | some (source, header, payload) =>
      if header.type = MessageType.hello.toNumber then
        (onHello ⟨payload, 0, true⟩).1.map fun o => (source, o)
      else none

end Platform

/-- What happens to a platform: a call of `SetPresence`, a tick, a datagram. -/
inductive PlatformAction where
  | setPresence (m : Option PresenceModificationObj)
  | tick (now : TimePoint)
  | receive (now : TimePoint) (ip : UInt32) (datagram : Bytes)

namespace Platform
variable {p p' : Platform}

/-- The platform afterwards. -/
def step (p : Platform) : PlatformAction → Option Platform
  | .setPresence m => some (p.setPresence m)
  | .tick now => some (p.tick now).2.2
  | .receive now ip datagram => some (p.receive now ip datagram)

/-! ## What the steps do to the directory, and what they leave alone -/

/-- The directory after a step. -/
inductive DirectoryStep (p : Platform) : PlatformAction → PeerDirectory → Prop
  | observed (now : TimePoint) {ip : UInt32} {datagram : Bytes} {source : Endpoint}
      {o : Observation} : p.observation ip datagram = some (source, o) →
      DirectoryStep p (.receive now ip datagram) (p.peers.observe o source now).2
  | offline (now : TimePoint) {ip : UInt32} {datagram : Bytes} (productId : ProductUserId) :
      p.observation ip datagram = none →
      DirectoryStep p (.receive now ip datagram) (p.peers.markOffline productId).2
  | ignored (now : TimePoint) {ip : UInt32} {datagram : Bytes} : p.observation ip datagram = none →
      DirectoryStep p (.receive now ip datagram) p.peers
  | stale (now : TimePoint) : DirectoryStep p (.tick now) (p.peers.markStale now p.peerTimeout).2
  | untouched (m : Option PresenceModificationObj) : DirectoryStep p (.setPresence m) p.peers

/-- What no step changes. -/
structure SameProcess (p p' : Platform) : Prop where
  library : p'.library = p.library
  identity : p'.identity = p.identity
  net : p'.net = p.net
  productId : p'.productId = p.productId
  peerTimeout : p'.peerTimeout = p.peerTimeout

/-- The directory after a datagram. -/
theorem receive_directoryStep (now : TimePoint) (ip : UInt32) (datagram : Bytes) :
    ∃ peers, p.receive now ip datagram = { p with peers } ∧
    p.DirectoryStep (.receive now ip datagram) peers := by
  cases hreceive : p.net.receive ip datagram with
  | none => exact ⟨_, by simp only [receive, hreceive],
    .ignored now (by simp only [observation, hreceive])⟩
  | some r =>
      obtain ⟨source, header, payload⟩ := r
      by_cases hhello : header.type = MessageType.hello.toNumber
      · cases ho : (onHello ⟨payload, 0, true⟩).1 with
        | none =>
            exact ⟨_, by simp only [receive, hreceive, onDatagram, if_pos hhello, ho],
              .ignored now (by simp only [observation, hreceive, if_pos hhello, ho,
                Option.map_none])⟩
        | some o =>
            have hobserved : p.observation ip datagram = some (source, o) := by
              simp only [observation, hreceive, if_pos hhello, ho, Option.map_some]
            refine ⟨_, ?_, .observed now hobserved⟩
            simp only [receive, hreceive, onDatagram, if_pos hhello, ho]
      · have hnone : p.observation ip datagram = none := by
          simp only [observation, hreceive, if_neg hhello]
        by_cases hgoodbye : header.type = MessageType.goodbye.toNumber
        · cases ho : (onGoodbye ⟨payload, 0, true⟩).1 with
          | none =>
              exact ⟨_, by simp only [receive, hreceive, onDatagram, if_neg hhello,
                if_pos hgoodbye, ho], .ignored now hnone⟩
          | some productId =>
              exact ⟨_, by simp only [receive, hreceive, onDatagram, if_neg hhello,
                if_pos hgoodbye, ho], .offline now productId hnone⟩
        · exact ⟨_, by simp only [receive, hreceive, onDatagram, if_neg hhello,
            if_neg hgoodbye], .ignored now hnone⟩

/-- The directory after any step, in the same process. -/
theorem step_directoryStep {a : PlatformAction} (h : p.step a = some p') :
    p.SameProcess p' ∧ p.DirectoryStep a p'.peers := by
  cases a with
  | setPresence m =>
      cases h
      cases m <;> exact ⟨⟨rfl, rfl, rfl, rfl, rfl⟩, .untouched _⟩
  | tick now =>
      cases h
      exact ⟨⟨rfl, rfl, rfl, rfl, rfl⟩, .stale now⟩
  | receive now ip datagram =>
      cases h
      obtain ⟨peers, heq, hstep⟩ := receive_directoryStep (p := p) now ip datagram
      rw [heq]
      exact ⟨⟨rfl, rfl, rfl, rfl, rfl⟩, hstep⟩

/-- What no run changes. -/
theorem SameProcess.trans {p'' : Platform} (h : p.SameProcess p') (h' : p'.SameProcess p'') :
    p.SameProcess p'' where
  library := h'.library.trans h.library
  identity := h'.identity.trans h.identity
  net := h'.net.trans h.net
  productId := h'.productId.trans h.productId
  peerTimeout := h'.peerTimeout.trans h.peerTimeout

/-! ## A Hello that arrives -/

/-- What another platform observes of a Hello that fits into a datagram. -/
theorem observation_broadcastHello {a : Platform} {datagram : Bytes}
    (hsent : a.broadcastHello = some datagram) (hfits : fits (helloPayload a.helloSource) = true)
    (htag : a.net.senderTag ≠ p.net.senderTag) (ip : UInt32) :
    p.observation ip datagram = some (⟨ip, a.net.unicastPort⟩, a.helloSource.observation) := by
  have hlen : (helloPayload a.helloSource).length ≤ maxDatagram - wireHeaderSize :=
    of_decide_eq_true hfits
  have hsize : (ByteWriter.size (helloPayload a.helloSource)).toNat =
    (helloPayload a.helloSource).length := by
    rw [LanNode.size_toNat]
    exact Nat.mod_eq_of_lt (by simp only [maxDatagram, wireHeaderSize] at hlen; omega)
  obtain ⟨_, _, rfl⟩ : _ ∧ _ ∧ a.net.frame .hello (helloPayload a.helloSource) _ = datagram := by
    simpa [broadcastHello, LanNode.broadcast] using hsent
  rw [observation, LanNode.receive_frame htag ip .hello (by omega), hsize, List.take_length]
  simp only [LanNode.header, if_true, (hello_observed a.helloSource hfits).1, Option.map_some]

end Platform

namespace Platform

/-- A Hello that fits into a datagram leaves a running node. -/
theorem exists_broadcastHello {p : Platform} (hrunning : p.net.running = true)
    (hfits : fits (helloPayload p.helloSource) = true) :
      ∃ datagram, p.broadcastHello = some datagram := by
  have hlen : (helloPayload p.helloSource).length ≤ maxDatagram - wireHeaderSize :=
    of_decide_eq_true hfits
  have hguard : ¬ maxDatagram - wireHeaderSize <
    (ByteWriter.size (helloPayload p.helloSource)).toNat := by
    rw [LanNode.size_toNat]
    exact Nat.not_lt.2 ((Nat.mod_le _ _).trans hlen)
  rw [broadcastHello, LanNode.broadcast, if_neg hguard, hrunning]
  exact ⟨_, rfl⟩

/-- A Hello that does not fit into a datagram does not leave. -/
theorem broadcastHello_eq_none {p : Platform}
    (h : maxDatagram - wireHeaderSize < (helloPayload p.helloSource).length % 2 ^ 16) :
      p.broadcastHello = none := by
  rw [broadcastHello, LanNode.broadcast, LanNode.size_toNat, if_pos h]

end Platform

/-! ## Two platforms -/

/-- The platform a game creates under a configuration. -/
def samplePlatform (config : Config) : Platform :=
  Platform.configure { library := (Library.eosInitialize {} (some {})).2, identity :=
    sampleIdentity } config { productId := some (str "p") } (some 7001) 0

/-- The sample platform is one that can be created. -/
theorem create_samplePlatform (config : Config) : Platform.create
    (Library.eosInitialize {} (some {})).2 sampleIdentity
    config (some { productId := some (str "p") }) (some 7001) 0 =
      some (samplePlatform config) := rfl

/-- A platform on another machine. -/
def otherPlatform : Platform :=
  Platform.configure { library := (Library.eosInitialize {} (some {})).2, identity := otherIdentity
    } {} {} (some 7002) 0

/-- So is the other one. -/
theorem create_otherPlatform :
    Platform.create (Library.eosInitialize {} (some {})).2 otherIdentity {} (some {})
    (some 7002) 0 = some otherPlatform := rfl

end EOSEmu
