import EOSEmu.Interfaces.Modification
import EOSEmu.Lobby.Record

/-!
# `EOS_LobbyModification`

The handle `UpdateLobbyModification` creates, its builder functions (`Lobby_Exports.cpp`) and the
two functions that apply it, `ApplyModification` and `ApplyMemberAttrs` (`Lobby.cpp`).
-/

namespace EOSEmu

/-- `LobbyModificationObj`. -/
structure LobbyModificationObj where
  lobbyId : Bytes := []
  localUser : Bytes := []
  bSetBucket : Bool := false
  bucket : Bytes := []
  bSetPerm : Bool := false
  perm : SdkInt := 0
  bSetMax : Bool := false
  max : UInt32 := 0
  bSetInvites : Bool := false
  invites : SdkInt := eosTrue
  bSetPlatforms : Bool := false
  platforms : List UInt32 := []
  addAttrs : AttrList := []
  removeAttrs : List Bytes := []
  addMemberAttrs : AttrList := []
  removeMemberAttrs : List Bytes := []
  deriving Repr

/-- `EOS_LobbyModification_AddAttributeOptions` and
`EOS_LobbyModification_AddMemberAttributeOptions`. -/
structure AddLobbyAttributeOptions where
  attributeData : Option AttributeData
  visibility : SdkInt

/-- `AttrFromData` of `Lobby_Exports.cpp`, with the key the caller stores it under. -/
def AddLobbyAttributeOptions.entry (o : AddLobbyAttributeOptions) : Option (Bytes × LobbyAttr) :=
  o.attributeData.bind fun d => d.key.map fun key =>
    (key, { value := d.value, visibility := o.visibility })

namespace LobbyModification

/-- `EOS_LobbyModification_SetBucketId`. -/
def setBucketId (m : LobbyModificationObj) (bucketId : Option (Option Bytes)) :
    EResult × LobbyModificationObj :=
  build m bucketId.join fun b => { m with bSetBucket := true, bucket := b }

/-- `EOS_LobbyModification_SetPermissionLevel`. -/
def setPermissionLevel (m : LobbyModificationObj) (permissionLevel : Option SdkInt) :
    EResult × LobbyModificationObj :=
  build m permissionLevel fun p => { m with bSetPerm := true, perm := p }

/-- `EOS_LobbyModification_SetMaxMembers`. -/
def setMaxMembers (m : LobbyModificationObj) (maxMembers : Option UInt32) :
    EResult × LobbyModificationObj :=
  build m maxMembers fun n => { m with bSetMax := true, max := n }

/-- `EOS_LobbyModification_SetInvitesAllowed`. -/
def setInvitesAllowed (m : LobbyModificationObj) (bInvitesAllowed : Option SdkInt) :
    EResult × LobbyModificationObj :=
  build m bInvitesAllowed fun b => { m with bSetInvites := true, invites := b }

/-- `EOS_LobbyModification_SetAllowedPlatformIds`; the array pointer may be null. -/
def setAllowedPlatformIds (m : LobbyModificationObj)
    (allowedPlatformIds : Option (Option (List UInt32))) : EResult × LobbyModificationObj :=
  build m allowedPlatformIds fun ids => { m with bSetPlatforms := true, platforms := ids.getD [] }

/-- `EOS_LobbyModification_AddAttribute`. -/
def addAttribute (m : LobbyModificationObj) (o : Option AddLobbyAttributeOptions) :
    EResult × LobbyModificationObj :=
  build m (o.bind (·.entry)) fun e => { m with addAttrs := m.addAttrs ++ [e] }

/-- `EOS_LobbyModification_RemoveAttribute`. -/
def removeAttribute (m : LobbyModificationObj) (key : Option (Option Bytes)) :
    EResult × LobbyModificationObj :=
  build m key.join fun k => { m with removeAttrs := m.removeAttrs ++ [k] }

/-- `EOS_LobbyModification_AddMemberAttribute`. -/
def addMemberAttribute (m : LobbyModificationObj) (o : Option AddLobbyAttributeOptions) :
    EResult × LobbyModificationObj :=
  build m (o.bind (·.entry)) fun e => { m with addMemberAttrs := m.addMemberAttrs ++ [e] }

/-- `EOS_LobbyModification_RemoveMemberAttribute`. -/
def removeMemberAttribute (m : LobbyModificationObj) (key : Option (Option Bytes)) :
    EResult × LobbyModificationObj :=
  build m key.join fun k => { m with removeMemberAttrs := m.removeMemberAttrs ++ [k] }

end LobbyModification

/-! ## Applying a handle -/

/-- `ApplyMemberAttrs`. -/
def applyMemberAttrs (m : LobbyMemberRec) (adds : AttrList) (removes : List Bytes) :
    LobbyMemberRec :=
  { m with attributes := applyAttrs adds removes m.attributes }

/-- Rewrites the member that `FindMember` points to. -/
def modifyMember (pid : Bytes) (f : LobbyMemberRec → LobbyMemberRec) :
    List LobbyMemberRec → List LobbyMemberRec
  | [] => []
  | m :: ms => if m.productId = pid then f m :: ms else m :: modifyMember pid f ms

section
variable {pid : Bytes} {f g : LobbyMemberRec → LobbyMemberRec}

/-- Modifying a member of a list with one more in front. -/
theorem modifyMember_cons (m : LobbyMemberRec) (ms : List LobbyMemberRec) :
    modifyMember pid f (m :: ms) =
    if m.productId = pid then f m :: ms else m :: modifyMember pid f ms := rfl

/-- Two rewritings agree exactly when they agree on the member that is found. -/
theorem modifyMember_congr (ms : List LobbyMemberRec) :
    modifyMember pid f ms = modifyMember pid g ms ↔
    ∀ m, ms.find? (fun m => m.productId = pid) = some m → f m = g m := by
  induction ms with
  | nil => simp [modifyMember]
  | cons m ms ih =>
      rw [modifyMember_cons, modifyMember_cons, List.find?_cons]
      by_cases h : m.productId = pid <;> simp [h, ih]

/-- Rewriting nothing. -/
theorem modifyMember_id (ms : List LobbyMemberRec) : modifyMember pid (fun m => m) ms = ms := by
  induction ms with
  | nil => rfl
  | cons m ms ih => rw [modifyMember_cons, ih, ite_self]

/-- A second rewriting finds the same member. -/
theorem modifyMember_modifyMember (hf : ∀ m, (f m).productId = m.productId)
    (ms : List LobbyMemberRec) :
    modifyMember pid g (modifyMember pid f ms) = modifyMember pid (fun m => g (f m)) ms := by
  induction ms with
  | nil => rfl
  | cons m ms ih =>
      rw [modifyMember_cons, modifyMember_cons]
      by_cases h : m.productId = pid
      · rw [if_pos h, if_pos h, modifyMember_cons, if_pos ((hf m).trans h)]
      · rw [if_neg h, if_neg h, modifyMember_cons, if_neg h, ih]

end

/-- `ApplyModification`. -/
def applyModification (r : LobbyRecord) (m : LobbyModificationObj) : LobbyRecord :=
  { r with
    bucketId := if m.bSetBucket then m.bucket else r.bucketId
    permission := if m.bSetPerm then m.perm else r.permission
    maxMembers := if m.bSetMax then m.max else r.maxMembers
    bAllowInvites := if m.bSetInvites then m.invites else r.bAllowInvites
    allowedPlatformIds := if m.bSetPlatforms then m.platforms else r.allowedPlatformIds
    attributes := applyAttrs m.addAttrs m.removeAttrs r.attributes
    members :=
      if !m.addMemberAttrs.isEmpty || !m.removeMemberAttrs.isEmpty then
        modifyMember m.localUser (fun me => applyMemberAttrs me m.addMemberAttrs
          m.removeMemberAttrs) r.members
      else r.members }

/-- The test for member changes only saves work. -/
theorem applyModification_members (r : LobbyRecord) (m : LobbyModificationObj) :
    (applyModification r m).members = modifyMember m.localUser
      (fun me => applyMemberAttrs me m.addMemberAttrs m.removeMemberAttrs) r.members := by
  show (if _ then _ else _) = _
  split
  · rfl
  · next h =>
      obtain ⟨ha, hr⟩ : m.addMemberAttrs = [] ∧ m.removeMemberAttrs = [] := by simpa using h
      rw [ha, hr]
      exact (modifyMember_id r.members).symm

/-- The member that is found after a rewriting. -/
theorem find_modifyMember {pid : Bytes} {f : LobbyMemberRec → LobbyMemberRec}
    (hf : ∀ m, (f m).productId = m.productId) (ms : List LobbyMemberRec) :
    (modifyMember pid f ms).find? (fun m => m.productId = pid) =
      (ms.find? fun m => m.productId = pid).map f := by
  induction ms with
  | nil => rfl
  | cons m ms ih =>
      rw [modifyMember_cons, List.find?_cons]
      by_cases h : m.productId = pid
      · simp [h, hf]
      · simp [h, ih]

/-- The handle's user is found afterwards with its changes applied. -/
theorem findMember_applyModification (r : LobbyRecord) (m : LobbyModificationObj) :
    (applyModification r m).findMember m.localUser =
      (r.findMember m.localUser).map fun me => applyMemberAttrs me m.addMemberAttrs
        m.removeMemberAttrs := by
  rw [LobbyRecord.findMember, applyModification_members]
  refine find_modifyMember ?_ r.members
  intro me
  rfl

end EOSEmu
