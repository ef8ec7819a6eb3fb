import EOSEmu.Net.Wire
import EOSEmu.Interfaces.Attributes

/-!
# Lobby records

The record model of `interfaces/Lobby.h` and the record helpers of `Lobby.cpp`.
-/

namespace EOSEmu

/-- `LobbyAttr`: a value and its `EOS_ELobbyAttributeVisibility`. -/
structure LobbyAttr where
  value : AttrValue := {}
  visibility : SdkInt := 0
  deriving DecidableEq, Repr, Inhabited

/-- `AttrList`: keyed attributes, in enumeration order. -/
abbrev AttrList := List (Bytes × LobbyAttr)

/-- `EOS_OPT_Epic`. -/
def optEpic : UInt32 := 100

/-- `LobbyMemberRec`. -/
structure LobbyMemberRec where
  productId : Bytes := []
  platform : UInt32 := optEpic
  attributes : AttrList := []
  deriving DecidableEq, Repr, Inhabited

/-- `LobbyRecord`. -/
structure LobbyRecord where
  lobbyId : Bytes := []
  ownerProductId : Bytes := []
  bucketId : Bytes := []
  maxMembers : UInt32 := 0
  permission : SdkInt := 0
  bAllowInvites : SdkInt := eosTrue
  bAllowHostMigration : SdkInt := eosTrue
  bRTCRoomEnabled : SdkInt := eosFalse
  bPresenceEnabled : SdkInt := eosFalse
  bAllowJoinById : SdkInt := eosFalse
  attributes : AttrList := []
  members : List LobbyMemberRec := []
  allowedPlatformIds : List UInt32 := []
  hostEndpoint : Endpoint := {}
  version : UInt64 := 0
  lastSeenTick : UInt64 := 0
  deriving DecidableEq, Repr, Inhabited

namespace LobbyRecord

/-- `LobbyRecord::FindMember`. -/
def findMember (r : LobbyRecord) (pid : Bytes) : Option LobbyMemberRec :=
  r.members.find? fun m => m.productId = pid

/-- `LobbyRecord::AvailableSlots`, with the member count cast to `uint32_t`. -/
def availableSlots (r : LobbyRecord) : UInt32 :=
  let used := UInt32.ofNat r.members.length
  if used < r.maxMembers then r.maxMembers - used else 0

/-- The record lists the user. -/
def Lists (r : LobbyRecord) (pid : Bytes) : Prop := pid ∈ r.members.map (·.productId)

instance (r : LobbyRecord) (pid : Bytes) : Decidable (r.Lists pid) :=
  inferInstanceAs (Decidable (_ ∈ _))

/-- A member is found exactly when the record lists it. -/
theorem findMember_isSome {r : LobbyRecord} {pid : Bytes} :
    (r.findMember pid).isSome ↔ r.Lists pid := by
  rw [findMember, List.find?_isSome, Lists, List.mem_map]
  simp

end LobbyRecord

end EOSEmu
