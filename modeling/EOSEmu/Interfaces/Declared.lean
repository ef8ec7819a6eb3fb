import EOSEmu.Core.IniConfig

/-!
# What a configuration declares

The lists of `[Ecom]` and `[Mods]` hold entries whose parts are separated by colons. A part that is
empty or left out has a default (`partOr`). An entry written from its parts is read back as these
parts (`splitColon_intercalate`).
-/

namespace EOSEmu

open Lib

/-- `SplitColon`. -/
def splitColon (s : Bytes) : List Bytes := s.splitOn 58

/-- `(Parts.size() > i && !Parts[i].empty()) ? Parts[i] : Default`. -/
def partOr (parts : List Bytes) (i : ℕ) (default : Bytes) : Bytes :=
  match parts[i]? with
  | none => default
  | some part => if part.isEmpty then default else part

/-- `EcomInterface::Entitlement`. -/
structure Entitlement where
  name : Bytes
  catalogItemId : Bytes
  entitlementId : Bytes
  redeemed : Bool := false
  deriving DecidableEq, Repr

/-- The body of the loop over the entitlements in `EcomInterface::EnsureLoaded`. -/
def readEntitlement (raw : Bytes) : Option Entitlement :=
  let parts := splitColon raw
  let name := partOr parts 0 []
  if name.isEmpty then none
  else some { name, catalogItemId := partOr parts 1 name, entitlementId := partOr parts 2 name }

/-- `EOS_Mod_Identifier`, and the strings of a `ModsInterface::Mod`. -/
structure ModIdentifier where
  namespaceId : Bytes := []
  itemId : Bytes := []
  artifactId : Bytes := []
  title : Bytes := []
  version : Bytes := []
  deriving DecidableEq, Repr

/-- `ModsInterface::Mod`. -/
structure Mod where
  identifier : ModIdentifier
  installed : Bool := true
  deriving DecidableEq, Repr

/-- The body of the loop of `ModsInterface::EnsureLoaded`. -/
def readMod (namespaceId raw : Bytes) : Option Mod :=
  let parts := splitColon raw
  let itemId := partOr parts 0 []
  if itemId.isEmpty then none
  else some { identifier := {
    namespaceId
    itemId
    title := partOr parts 1 itemId
    version := partOr parts 2 (str "1.0.0")
    artifactId := partOr parts 3 itemId } }

/-- What `EcomInterface::EnsureLoaded` reads. -/
def declaredEntitlements (c : IniConfig) : List Entitlement :=
  (c.getList (str "Ecom") (str "Entitlement")).filterMap readEntitlement

def declaredItems (c : IniConfig) : List Bytes :=
  (c.getList (str "Ecom") (str "OwnedItem")).filter fun item => !item.isEmpty

/-- What `ModsInterface::EnsureLoaded` reads. -/
def declaredMods (c : IniConfig) : List Mod :=
  (c.getList (str "Mods") (str "Mod")).filterMap
    (readMod (c.getString (str "Mods") (str "Namespace") (str "eosemu")))

end EOSEmu
