import EOSEmu.Interfaces.Modification

/-!
# `EOS_PresenceModification`

The handle `CreatePresenceModification` creates, its builder functions, and the part of
`SetPresence` that commits it (`Presence.h`, `Presence.cpp`).
-/

namespace EOSEmu

/-- `EOS_PS_Online`. -/
def statusOnline : SdkInt := 1

/-- `PresenceModificationObj`. -/
structure PresenceModificationObj where
  bSetStatus : Bool := false
  status : SdkInt := statusOnline
  bSetRichText : Bool := false
  richText : Bytes := []
  bSetJoinInfo : Bool := false
  joinInfo : Bytes := []
  setData : List (Bytes × Bytes) := []
  deleteData : List Bytes := []
  deriving Repr

/-- `EOS_Presence_DataRecord`. -/
structure PresenceDataRecord where
  key : Option Bytes
  value : Option Bytes

/-- What `SetData` stores for a record: nothing without a key, the empty string without a value. -/
def PresenceDataRecord.entry (d : PresenceDataRecord) : Option (Bytes × Bytes) :=
  d.key.map fun key => (key, d.value.getD [])

namespace PresenceModification

/-- `EOS_PresenceModification_SetStatus`. -/
def setStatus (m : PresenceModificationObj) (status : Option SdkInt) :
    EResult × PresenceModificationObj :=
  build m status fun s => { m with bSetStatus := true, status := s }

/-- `EOS_PresenceModification_SetRawRichText`. -/
def setRawRichText (m : PresenceModificationObj) (richText : Option (Option Bytes)) :
    EResult × PresenceModificationObj :=
  build m richText.join fun t => { m with bSetRichText := true, richText := t }

/-- `EOS_PresenceModification_SetJoinInfo`; a null string clears it. -/
def setJoinInfo (m : PresenceModificationObj) (joinInfo : Option (Option Bytes)) :
    EResult × PresenceModificationObj :=
  build m joinInfo fun j => { m with bSetJoinInfo := true, joinInfo := j.getD [] }

/-- `EOS_PresenceModification_SetData`; the array pointer may be null. -/
def setData (m : PresenceModificationObj) (records : Option (Option (List PresenceDataRecord))) :
    EResult × PresenceModificationObj :=
  build m records fun rs => { m with setData := m.setData ++ (rs.getD []).filterMap (·.entry) }

/-- `EOS_PresenceModification_DeleteData`; the array pointer may be null. -/
def deleteData (m : PresenceModificationObj) (keys : Option (Option (List (Option Bytes)))) :
    EResult × PresenceModificationObj :=
  build m keys fun ks => { m with deleteData := m.deleteData ++ (ks.getD []).filterMap id }

end PresenceModification

/-- The members of `PresenceInterface` that hold the local user's presence. -/
structure LocalPresence where
  localStatus : SdkInt := statusOnline
  localRichText : Bytes := []
  localJoinInfo : Bytes := []
  localData : Finmap fun _ : Bytes => Bytes := ∅
  deriving DecidableEq

/-- What `SetPresence` stores of a handle. -/
def LocalPresence.setPresence (p : LocalPresence) (m : PresenceModificationObj) : LocalPresence :=
  { localStatus := if m.bSetStatus then m.status else p.localStatus
    localRichText := if m.bSetRichText then m.richText else p.localRichText
    localJoinInfo := if m.bSetJoinInfo then m.joinInfo else p.localJoinInfo
    localData :=
      m.deleteData.foldl (fun d key => d.erase key)
        (m.setData.foldl (fun d kv => d.insert kv.1 kv.2) p.localData) }

end EOSEmu
