import EOSEmu.Interfaces.Modification
import EOSEmu.Net.Wire

/-!
# Session records and `EOS_SessionModification`

The record model of `interfaces/Sessions.h`, the modification handle with its builder functions
(`Sessions_Exports.cpp`), and the part of `UpdateSession` (`Sessions.cpp`) that applies a handle.
-/

namespace EOSEmu

/-- `SessionAttr`: a value and its `EOS_ESessionAttributeAdvertisementType`. -/
structure SessionAttr where
  value : AttrValue := {}
  adv : SdkInt := 1
  deriving DecidableEq, Repr, Inhabited

/-- `EOS_OSPF_PublicAdvertised`. -/
def publicAdvertised : SdkInt := 0

/-- `EOS_OSS_NoSession`. -/
def sessionNone : SdkInt := 0

/-- `EOS_OSS_Pending`. -/
def sessionPending : SdkInt := 2

/-- `SessionRecord`. -/
structure SessionRecord where
  sessionName : Bytes := []
  sessionId : Bytes := []
  ownerProductId : Bytes := []
  bucketId : Bytes := []
  hostAddress : Bytes := []
  maxPlayers : UInt32 := 0
  permission : SdkInt := publicAdvertised
  bAllowJoinInProgress : SdkInt := eosTrue
  bInvitesAllowed : SdkInt := eosTrue
  bSanctionsEnabled : SdkInt := eosFalse
  bPresenceEnabled : SdkInt := eosFalse
  allowedPlatformIds : List UInt32 := []
  attributes : List (Bytes × SessionAttr) := []
  registeredPlayers : List Bytes := []
  state : SdkInt := sessionNone
  hostEndpoint : Endpoint := {}
  version : UInt64 := 0
  lastSeenTick : UInt64 := 0
  deriving DecidableEq, Repr, Inhabited

/-- `SessionModificationObj`. -/
structure SessionModificationObj where
  sessionName : Bytes := []
  localUser : Bytes := []
  bIsCreate : Bool := false
  sessionIdOverride : Bytes := []
  bPresence : SdkInt := eosFalse
  bSanctions : SdkInt := eosFalse
  bSetBucket : Bool := false
  bucket : Bytes := []
  bSetHost : Bool := false
  hostAddress : Bytes := []
  bSetPerm : Bool := false
  perm : SdkInt := publicAdvertised
  bSetJIP : Bool := false
  jip : SdkInt := eosTrue
  bSetMax : Bool := false
  max : UInt32 := 0
  bSetInvites : Bool := false
  invites : SdkInt := eosTrue
  bSetPlatforms : Bool := false
  platforms : List UInt32 := []
  addAttrs : List (Bytes × SessionAttr) := []
  removeAttrs : List Bytes := []
  deriving Repr

/-! ## Creating a handle -/

/-- A handle as `CreateSessionModification` and `UpdateSessionModification` leave it: no attribute
added or removed yet. -/
structure NewSessionModification extends SessionModificationObj where
  no_adds : addAttrs = []
  no_removes : removeAttrs = []

/-! ## The builder functions -/

/-- `EOS_SessionModification_AddAttributeOptions`. -/
structure AddSessionAttributeOptions where
  sessionAttribute : Option AttributeData
  advertisementType : SdkInt

/-- `AttrFromData` of `Sessions_Exports.cpp`, with the key the caller stores it under. -/
def AddSessionAttributeOptions.entry (o : AddSessionAttributeOptions) :
    Option (Bytes × SessionAttr) :=
  o.sessionAttribute.bind fun d => d.key.map fun key =>
    (key, { value := d.value, adv := o.advertisementType })

namespace SessionModification

/-- `EOS_SessionModification_SetBucketId`. -/
def setBucketId (m : SessionModificationObj) (bucketId : Option (Option Bytes)) :
    EResult × SessionModificationObj :=
  build m bucketId.join fun b => { m with bSetBucket := true, bucket := b }

/-- `EOS_SessionModification_SetHostAddress`. -/
def setHostAddress (m : SessionModificationObj) (hostAddress : Option (Option Bytes)) :
    EResult × SessionModificationObj :=
  build m hostAddress.join fun a => { m with bSetHost := true, hostAddress := a }

/-- `EOS_SessionModification_SetPermissionLevel`. -/
def setPermissionLevel (m : SessionModificationObj) (permissionLevel : Option SdkInt) :
    EResult × SessionModificationObj :=
  build m permissionLevel fun p => { m with bSetPerm := true, perm := p }

/-- `EOS_SessionModification_SetJoinInProgressAllowed`. -/
def setJoinInProgressAllowed (m : SessionModificationObj) (bAllowJoinInProgress : Option SdkInt) :
    EResult × SessionModificationObj :=
  build m bAllowJoinInProgress fun b => { m with bSetJIP := true, jip := b }

/-- `EOS_SessionModification_SetMaxPlayers`. -/
def setMaxPlayers (m : SessionModificationObj) (maxPlayers : Option UInt32) :
    EResult × SessionModificationObj :=
  build m maxPlayers fun n => { m with bSetMax := true, max := n }

/-- `EOS_SessionModification_SetInvitesAllowed`. -/
def setInvitesAllowed (m : SessionModificationObj) (bInvitesAllowed : Option SdkInt) :
    EResult × SessionModificationObj :=
  build m bInvitesAllowed fun b => { m with bSetInvites := true, invites := b }

/-- `EOS_SessionModification_SetAllowedPlatformIds`; the array pointer may be null. -/
def setAllowedPlatformIds (m : SessionModificationObj)
    (allowedPlatformIds : Option (Option (List UInt32))) : EResult × SessionModificationObj :=
  build m allowedPlatformIds fun ids => { m with bSetPlatforms := true, platforms := ids.getD [] }

/-- `EOS_SessionModification_AddAttribute`. -/
def addAttribute (m : SessionModificationObj) (o : Option AddSessionAttributeOptions) :
    EResult × SessionModificationObj :=
  build m (o.bind (·.entry)) fun e => { m with addAttrs := m.addAttrs ++ [e] }

/-- `EOS_SessionModification_RemoveAttribute`. -/
def removeAttribute (m : SessionModificationObj) (key : Option (Option Bytes)) :
    EResult × SessionModificationObj :=
  build m key.join fun k => { m with removeAttrs := m.removeAttrs ++ [k] }

end SessionModification

/-- What `UpdateSession` stores of a handle in the record. -/
def SessionRecord.applyModification (r : SessionRecord) (m : SessionModificationObj) :
    SessionRecord :=
  { r with
    bucketId := if m.bSetBucket then m.bucket else r.bucketId
    hostAddress := if m.bSetHost then m.hostAddress else r.hostAddress
    permission := if m.bSetPerm then m.perm else r.permission
    bAllowJoinInProgress := if m.bSetJIP then m.jip else r.bAllowJoinInProgress
    maxPlayers := if m.bSetMax then m.max else r.maxPlayers
    bInvitesAllowed := if m.bSetInvites then m.invites else r.bInvitesAllowed
    allowedPlatformIds := if m.bSetPlatforms then m.platforms else r.allowedPlatformIds
    attributes := applyAttrs m.addAttrs m.removeAttrs r.attributes }

end EOSEmu
