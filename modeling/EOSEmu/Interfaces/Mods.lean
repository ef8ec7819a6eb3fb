import EOSEmu.Core.Dispatch
import EOSEmu.Interfaces.Declared
import EOSEmu.Lib.Conveyor
import EOSEmu.Lib.First

/-!
# Mods

`ModsInterface` of `Mods.cpp`: the mods that the configuration declares, read when they are needed
first, and what the game installs and uninstalls of them. A call decides its result under the mutex
of the interface and posts its completion under that of the dispatcher, and other threads run in
between. `EOS_Mods_CopyModInfo` asks under one lock whether the type was enumerated and takes the
list under another; as a type stays enumerated, this is one step.
-/

namespace EOSEmu

open Lib

/-- `EOS_EModEnumerationType`. -/
inductive EModEnumerationType where
  | installed
  | allAvailable
  deriving DecidableEq, Repr

/-- `EOS_MODS_INSTALLMOD_API_LATEST`, and the same of the other calls. -/
def installModApiLatest : Int := 1
def uninstallModApiLatest : Int := 1
def updateModApiLatest : Int := 1
def enumerateModsApiLatest : Int := 1
def copyModInfoApiLatest : Int := 1

/-- `ModsInterface`. -/
structure ModsInterface where
  loaded : Bool := false
  enumeratedInstalled : Bool := false
  enumeratedAll : Bool := false
  mods : List Mod := []

/-- The identifier of the game, whose strings can be null. -/
structure GameModIdentifier where
  namespaceId : Option Bytes := none
  itemId : Option Bytes := none
  artifactId : Option Bytes := none
  title : Option Bytes := none
  version : Option Bytes := none
  deriving DecidableEq, Repr

/-- `CopyIdentifier`. -/
def copyIdentifier (id : Option GameModIdentifier) : ModIdentifier :=
  match id with
  | none => {}
  | some id =>
      { namespaceId := id.namespaceId.getD []
        itemId := id.itemId.getD []
        artifactId := id.artifactId.getD []
        title := id.title.getD []
        version := id.version.getD [] }

/-- `BorrowIdentifier`, and what `AttachString` copies of an identifier: the C strings. -/
def ModIdentifier.shown (m : ModIdentifier) : ModIdentifier :=
  { namespaceId := m.namespaceId.takeWhile (· ≠ 0)
    itemId := m.itemId.takeWhile (· ≠ 0)
    artifactId := m.artifactId.takeWhile (· ≠ 0)
    title := m.title.takeWhile (· ≠ 0)
    version := m.version.takeWhile (· ≠ 0) }

namespace ModsInterface
variable (s : ModsInterface) (c : IniConfig)

/-- `EnsureLoaded`. -/
def ensureLoaded : ModsInterface :=
  if s.loaded then s else { s with loaded := true, mods := s.mods ++ declaredMods c }

/-- `Snapshot`, from the loaded list. -/
def snapshot (type : EModEnumerationType) : List Mod :=
  s.mods.filter fun m => !(type = .installed && !m.installed)

/-- `MarkEnumerated`. -/
def markEnumerated : EModEnumerationType → ModsInterface
  | .installed => { s with enumeratedInstalled := true }
  | .allAvailable => { s with enumeratedAll := true }

/-- `WasEnumerated`. -/
def wasEnumerated : EModEnumerationType → Bool
  | .installed => s.enumeratedInstalled
  | .allAvailable => s.enumeratedAll

/-- `Install`, on the loaded list. -/
def install (m : ModIdentifier) : ModsInterface :=
  { s with mods := (updateFirst (fun x => x.identifier.itemId = m.itemId)
    (fun x => { x with installed := true })
      s.mods).getD (s.mods ++ [{ identifier := m, installed := true }]) }

/-- `Uninstall`, on the loaded list. -/
def uninstall (itemId : Bytes) : Bool × ModsInterface :=
  match updateFirst (fun x => x.identifier.itemId = itemId && x.installed)
    (fun x => { x with installed := false }) s.mods with
  | none => (false, s)
  | some mods => (true, { s with mods })

/-- `Exists`, on the loaded list. -/
def existsItem (itemId : Bytes) : Bool := s.mods.any fun m => m.identifier.itemId = itemId

end ModsInterface

/-! ## The calls -/

/-- The calls about one mod. -/
inductive ModOperation where
  | install
  | uninstall
  | update
  deriving DecidableEq, Repr

/-- `EOS_Mods_InstallModOptions`, and the same of the other two calls. -/
structure ModOptions where
  apiVersion : Int
  localUserId : ℕ := 0
  mod : Option GameModIdentifier
  deriving DecidableEq, Repr

/-- `EOS_Mods_EnumerateModsOptions` and `EOS_Mods_CopyModInfoOptions`. -/
structure EnumerateModsOptions where
  apiVersion : Int
  localUserId : ℕ := 0
  type : EModEnumerationType
  deriving DecidableEq, Repr

/-- The completions. -/
inductive ModsCompletion where
  | mod (operation : ModOperation) (result : EResult) (localUserId clientData : ℕ)
      (mod : Option ModIdentifier)
  | enumerateMods (result : EResult) (localUserId clientData : ℕ) (type : EModEnumerationType)
  deriving DecidableEq, Repr

/-- The item id of a call about one mod, none if it is empty or there is no mod. -/
def ModOptions.itemId? (o : ModOptions) : Option Bytes :=
  match o.mod with
  | none => none
  | some m => if (copyIdentifier (some m)).itemId.isEmpty then none else some
    (copyIdentifier (some m)).itemId

namespace ModsInterface
variable (s : ModsInterface) (c : IniConfig)

/-- What the calls about one mod share: the checks, and `act` for a mod that passes them. -/
def callMod (operation : ModOperation) (latest : Int)
    (act : ModIdentifier → EResult × ModsInterface) (options : Option ModOptions) (clientData : ℕ) :
    ModsCompletion × ModsInterface :=
  let localUserId := (options.map (·.localUserId)).getD 0
  let m := copyIdentifier (options.bind (·.mod))
  match options with
  | none => (.mod operation .invalidParameters localUserId clientData none, s)
  | some o =>
      match o.itemId? with
      | none => (.mod operation .invalidParameters localUserId clientData none, s)
      | some _ =>
          if !versionInRange o.apiVersion latest then
            (.mod operation .incompatibleVersion localUserId clientData (some m.shown), s)
          else (.mod operation (act m).1 localUserId clientData (some m.shown), (act m).2)

/-- `EOS_Mods_InstallMod`, up to the post. -/
def installMod : Option ModOptions → ℕ → ModsCompletion × ModsInterface :=
  s.callMod .install installModApiLatest fun m => (.success, (s.ensureLoaded c).install m)

/-- `EOS_Mods_UninstallMod`, up to the post. -/
def uninstallMod : Option ModOptions → ℕ → ModsCompletion × ModsInterface :=
  s.callMod .uninstall uninstallModApiLatest fun m =>
    let (removed, t) := (s.ensureLoaded c).uninstall m.itemId
    (if removed then .success else .notFound, t)

/-- `EOS_Mods_UpdateMod`, up to the post. -/
def updateMod : Option ModOptions → ℕ → ModsCompletion × ModsInterface :=
  s.callMod .update updateModApiLatest fun m =>
    (if (s.ensureLoaded c).existsItem m.itemId then .success else .notFound, s.ensureLoaded c)

/-- The call of an operation. -/
def callOf : ModOperation → Option ModOptions → ℕ → ModsCompletion × ModsInterface
  | .install => s.installMod c
  | .uninstall => s.uninstallMod c
  | .update => s.updateMod c

/-- `EOS_Mods_EnumerateMods`, up to the post. -/
def enumerateMods (options : Option EnumerateModsOptions) (clientData : ℕ) :
    ModsCompletion × ModsInterface :=
  match options with
  | none => (.enumerateMods .invalidParameters 0 clientData .installed, s)
  | some o =>
      if !versionInRange o.apiVersion enumerateModsApiLatest then
        (.enumerateMods .incompatibleVersion o.localUserId clientData o.type, s)
      else (.enumerateMods .success o.localUserId clientData o.type, s.markEnumerated o.type)

/-- `EOS_Mods_CopyModInfo`. -/
def copyModInfo (options : Option EnumerateModsOptions) :
    EResult × List ModIdentifier × ModsInterface :=
  match options with
  | none => (.invalidParameters, [], s)
  | some o =>
      if !versionInRange o.apiVersion copyModInfoApiLatest then (.incompatibleVersion, [], s)
      else if !s.wasEnumerated o.type then (.notFound, [], s)
      else
        let t := s.ensureLoaded c
        (.success, (t.snapshot o.type).map fun m => m.identifier.shown, t)

end ModsInterface

/-! ## Runs -/

/-- The interface, the configuration of its platform, the completions of the calls that have
decided and not posted, and the dispatcher. -/
structure ModsNode where
  config : IniConfig := {}
  mods : ModsInterface := {}
  calls : List ModsCompletion := []
  dispatch : Dispatcher ModsCompletion := {}

/-- What happens. -/
inductive ModsAction where
  /-- The platform reads more configuration. -/
  | configure (c : IniConfig)
  | callMod (operation : ModOperation) (options : Option ModOptions) (clientData : ℕ)
  | enumerateMods (options : Option EnumerateModsOptions) (clientData : ℕ)
  | copyModInfo (options : Option EnumerateModsOptions)
  /-- The `i`-th call that has decided posts its completion. -/
  | post (i : ℕ)
  | tick (now : TimePoint)

namespace ModsNode
variable (s : ModsNode)

/-- A call that has decided. -/
def decided (r : ModsCompletion × ModsInterface) : ModsNode :=
  { s with mods := r.2, calls := s.calls ++ [r.1] }

/-- One step. -/
def step : ModsAction → Option ModsNode
  | .configure c => some { s with config := c }
  | .callMod operation options clientData =>
      some (s.decided (s.mods.callOf s.config operation options clientData))
  | .enumerateMods options clientData => some (s.decided (s.mods.enumerateMods options clientData))
  | .copyModInfo options => some { s with mods := (s.mods.copyModInfo s.config options).2.2 }
  | .post i => (s.calls[i]?).map fun completion =>
      { s with calls := s.calls.eraseIdx i, dispatch := s.dispatch.post completion }
  | .tick now => some { s with dispatch := (s.dispatch.drain now).2 }

/-- The completions that a step decides on, posts and calls. -/
def decides : ModsAction → List ModsCompletion
  | .callMod operation options clientData =>
    [(s.mods.callOf s.config operation options clientData).1]
  | .enumerateMods options clientData => [(s.mods.enumerateMods options clientData).1]
  | _ => []

def posts : ModsAction → List ModsCompletion
  | .post i => (s.calls[i]?).toList
  | _ => []

def tells : ModsAction → List ModsCompletion
  | .tick now => (s.dispatch.drain now).1
  | _ => []

/-- The mods that the next use finds. -/
def available : List Mod := (s.mods.ensureLoaded s.config).mods

end ModsNode

/-! ## Items -/

/-- Whether the mods of an item id are installed, one after the other. -/
def copies (itemId : Bytes) (mods : List Mod) : List Bool :=
  (mods.filter fun m => m.identifier.itemId = itemId).map (·.installed)

def ModOperation.apiLatest : ModOperation → Int
  | .install => installModApiLatest
  | .uninstall => uninstallModApiLatest
  | .update => updateModApiLatest

/-- What a call does to the list, and its result. -/
def ModOperation.apply (operation : ModOperation) (m : ModIdentifier) (s : ModsInterface) :
    ModsInterface :=
  match operation with
  | .install => s.install m
  | .uninstall => (s.uninstall m.itemId).2
  | .update => s

def ModOperation.answer (operation : ModOperation) (copies : List Bool) : EResult :=
  match operation with
  | .install => .success
  | .uninstall => if true ∈ copies then .success else .notFound
  | .update => if copies ≠ [] then .success else .notFound

/-- A call about one mod that passes the checks. -/
def ModsAction.accepted : ModsAction → Option (ModOperation × ModIdentifier)
  | .callMod operation (some o) _ =>
      if versionInRange o.apiVersion operation.apiLatest then
        o.itemId?.map fun _ => (operation, copyIdentifier o.mod)
      else none
  | _ => none

/-- A call that enumerates a type. -/
def ModsAction.Enumerates (type : EModEnumerationType) (a : ModsAction) : Prop :=
  ∃ o clientData, a = .enumerateMods (some o) clientData ∧
    versionInRange o.apiVersion enumerateModsApiLatest = true ∧ o.type = type

section
variable {itemId : Bytes} {mods : List Mod} {s : ModsInterface} {m : ModIdentifier}

/-- A change of one flag is seen in the copies. -/
theorem copies_updateFirst (itemId : Bytes) (p : Bool → Bool) (v : Bool) (mods : List Mod) :
    (updateFirst (fun x : Mod => x.identifier.itemId = itemId && p x.installed)
      (fun x => { x with installed := v })
      mods).map (copies itemId) = updateFirst p (fun _ => v) (copies itemId mods) := by
  have hfilter := filter_updateFirst (q := fun x : Mod => x.identifier.itemId = itemId)
    (p := fun x => p x.installed) (f := fun x => { x with installed := v }) (fun _ => rfl) mods
  rw [copies, ← updateFirst_map (g := fun x : Mod => x.installed)
    (f := fun x => { x with installed := v }) (fun _ => rfl), ← hfilter, Option.map_map]
  rfl

/-- The copies of other items are not. -/
theorem copies_updateFirst_of_ne {other : Bytes} {p : Mod → Bool} {v : Bool} {mods' : List Mod}
    (hne : other ≠ itemId) (hp : ∀ x, p x = true → x.identifier.itemId = other)
    (h : updateFirst p (fun x => { x with installed := v }) mods = some mods') :
    copies itemId mods' = copies itemId mods := by
  have hsame := filter_updateFirst_of_disjoint (f := fun x : Mod => { x with installed := v })
    (q := fun x : Mod => x.identifier.itemId = itemId) (fun _ => rfl)
      (fun x hx => by simp [hp x hx, hne]) h
  rw [copies, hsame, copies]

/-- `Install` installs the first mod of the item, or adds one. -/
theorem copies_install : copies itemId (s.install m).mods =
    if m.itemId = itemId then true :: (copies itemId s.mods).tail else copies itemId s.mods := by
  have hfirst := copies_updateFirst m.itemId (fun _ => true) true s.mods
  simp only [Bool.and_true] at hfirst
  unfold ModsInterface.install
  split
  · next heq =>
      subst heq
      cases h : updateFirst (fun x : Mod => x.identifier.itemId = m.itemId)
        (fun x => { x with installed := true }) s.mods with
      | none =>
          rw [h] at hfirst
          cases hcopies : copies m.itemId s.mods with
          | nil =>
              have hadded : copies m.itemId (s.mods ++ [{ identifier := m, installed := true }]) =
                  copies m.itemId s.mods ++ [true] := by simp [copies]
              simp only [Option.getD_none, hadded, hcopies]
              rfl
          | cons b rest =>
              rw [hcopies] at hfirst
              cases hfirst
      | some mods =>
          rw [h] at hfirst
          cases hcopies : copies m.itemId s.mods with
          | nil =>
              rw [hcopies] at hfirst
              cases hfirst
          | cons b rest =>
              rw [hcopies] at hfirst
              exact Option.some.inj hfirst
  · next hne =>
      cases h : updateFirst (fun x : Mod => x.identifier.itemId = m.itemId)
        (fun x => { x with installed := true }) s.mods with
      | none => simp [copies, hne]
      | some mods => exact copies_updateFirst_of_ne hne (fun x hx => of_decide_eq_true hx) h

/-- `Uninstall` finds an installed copy. -/
theorem uninstall_fst : (s.uninstall itemId).1 = true ↔ true ∈ copies itemId s.mods := by
  have hfirst := congrArg Option.isSome (copies_updateFirst itemId id false s.mods)
  rw [Option.isSome_map, updateFirst_isSome (f := fun _ => false)] at hfirst
  simp only [id_eq] at hfirst
  have hany : (copies itemId s.mods).any id = true ↔ true ∈ copies itemId s.mods := by simp
  rw [← hany, ← hfirst]
  unfold ModsInterface.uninstall
  split
  · next h => simp [h]
  · next h => simp [h]

/-- It uninstalls the first one. -/
theorem copies_uninstall : copies itemId (s.uninstall m.itemId).2.mods =
    if m.itemId = itemId then (updateFirst id (fun _ => false) (copies itemId s.mods)).getD
      (copies itemId s.mods)
    else copies itemId s.mods := by
  have hfirst := copies_updateFirst m.itemId id false s.mods
  simp only [id_eq] at hfirst
  unfold ModsInterface.uninstall
  split
  · next h =>
      split
      · next heq =>
          subst heq
          rw [← hfirst, h]
          rfl
      · rfl
  · next mods h =>
      split
      · next heq =>
          subst heq
          rw [← hfirst, h]
          rfl
      · next hne =>
          refine copies_updateFirst_of_ne hne (fun x hx => ?_) h
          exact of_decide_eq_true (Bool.and_eq_true_iff.1 hx).1

/-- `Exists` finds a copy. -/
theorem existsItem_iff : s.existsItem itemId = true ↔ copies itemId s.mods ≠ [] := by
  simp [ModsInterface.existsItem, copies, List.filter_eq_nil_iff]

/-- Installing adds an item that is not listed. -/
theorem identifiers_install : (s.install m).mods.map (·.identifier) =
    s.mods.map (·.identifier) ++ if copies m.itemId s.mods = [] then [m] else [] := by
  have hfirst := congrArg Option.isSome (copies_updateFirst m.itemId (fun _ => true) true s.mods)
  simp only [Bool.and_true, Option.isSome_map] at hfirst
  unfold ModsInterface.install
  cases h : updateFirst (fun x : Mod => x.identifier.itemId = m.itemId)
    (fun x => { x with installed := true }) s.mods with
  | none =>
      rw [h, updateFirst_isSome] at hfirst
      have hnil : copies m.itemId s.mods = [] := by
        cases hcopies : copies m.itemId s.mods with
        | nil => rfl
        | cons b rest =>
            rw [hcopies] at hfirst
            cases hfirst
      rw [if_pos hnil]
      simp
  | some mods =>
      rw [h, updateFirst_isSome] at hfirst
      have hne : copies m.itemId s.mods ≠ [] := by
        intro hnil
        rw [hnil] at hfirst
        cases hfirst
      rw [if_neg hne, List.append_nil]
      exact map_updateFirst (f := fun x : Mod => { x with installed := true }) (fun _ => rfl) h

/-- Uninstalling keeps the list. -/
theorem identifiers_uninstall : (s.uninstall itemId).2.mods.map (·.identifier) = s.mods.map
    (·.identifier) := by
  unfold ModsInterface.uninstall
  split
  · rfl
  · next h =>
      exact map_updateFirst (f := fun x : Mod => { x with installed := false }) (fun _ => rfl) h

/-- A declared mod is installed. -/
theorem copies_declaredMods (c : IniConfig) : ∀ b ∈ copies itemId (declaredMods c), b = true := by
  intro b hb
  obtain ⟨m, hm, rfl⟩ := List.mem_map.1 hb
  obtain ⟨raw, _, hraw⟩ := List.mem_filterMap.1 (List.mem_filter.1 hm).1
  unfold readMod at hraw
  extract_lets parts itemId at hraw
  split at hraw
  · cases hraw
  · cases hraw
    rfl

end

/-! ## One step -/

/-- What a step does to the interface: a call about a mod changes the loaded list, a type is
enumerated, a copy may load the list, and the rest leave it alone. -/
inductive ModsStep (s t : ModsNode) (a : ModsAction) : Prop
  | call {operation : ModOperation} {m : ModIdentifier}
      (haccepted : a.accepted = some (operation, m))
      (hmods : t.mods = operation.apply m (s.mods.ensureLoaded s.config))
      (hdecides : ∃ localUserId clientData, s.decides a =
        [.mod operation (operation.answer (copies m.itemId s.available)) localUserId clientData
          (some m.shown)])
  | enumerate (type : EModEnumerationType) (haccepted : a.accepted = none)
      (henumerates : ∀ type', a.Enumerates type' ↔ type' = type)
        (hmods : t.mods = s.mods.markEnumerated type)
  | load (haccepted : a.accepted = none) (hno : ∀ type, ¬ a.Enumerates type)
      (hmods : t.mods = s.mods.ensureLoaded s.config)
  | same (haccepted : a.accepted = none) (hno : ∀ type, ¬ a.Enumerates type)
      (hmods : t.mods = s.mods)

section
variable {s t : ModsNode} {a : ModsAction} {type : EModEnumerationType} {m : ModIdentifier}

/-- What the calls about one mod share. -/
theorem callMod_cases (i : ModsInterface) (operation : ModOperation)
    (act : ModIdentifier → EResult × ModsInterface) (options : Option ModOptions) (clientData : ℕ) :
    (∃ o, options = some o ∧
        (ModsAction.callMod operation options clientData).accepted =
          some (operation, copyIdentifier o.mod) ∧
        i.callMod operation operation.apiLatest act options clientData =
        (.mod operation (act (copyIdentifier o.mod)).1 o.localUserId clientData
          (some (copyIdentifier o.mod).shown), (act (copyIdentifier o.mod)).2)) ∨
      (ModsAction.callMod operation options clientData).accepted = none ∧
        (i.callMod operation operation.apiLatest act options clientData).2 = i := by
  cases options with
  | none => exact .inr ⟨rfl, rfl⟩
  | some o =>
      cases hitem : o.itemId? with
      | none => exact .inr (by simp [ModsAction.accepted, ModsInterface.callMod, hitem])
      | some itemId =>
          cases hversion : versionInRange o.apiVersion operation.apiLatest with
          | false => exact .inr (by simp [ModsAction.accepted, ModsInterface.callMod, hitem,
            hversion])
          | true => exact .inl ⟨o, rfl, by simp [ModsAction.accepted, ModsInterface.callMod, hitem,
            hversion]⟩

/-- The three calls are one, with their own answers and effects. -/
theorem callOf_eq (i : ModsInterface) (c : IniConfig) (operation : ModOperation) :
    i.callOf c operation = i.callMod operation operation.apiLatest fun m =>
      (operation.answer (copies m.itemId (i.ensureLoaded c).mods), operation.apply m
        (i.ensureLoaded c)) := by
  cases operation with
  | install => rfl
  | uninstall =>
      dsimp only [ModsInterface.callOf, ModsInterface.uninstallMod, ModOperation.apiLatest]
      congr 1
      funext m
      exact Prod.ext (if_congr uninstall_fst rfl rfl) rfl
  | update =>
      dsimp only [ModsInterface.callOf, ModsInterface.updateMod, ModOperation.apiLatest]
      congr 1
      funext m
      exact Prod.ext (if_congr existsItem_iff rfl rfl) rfl

/-- Only `EnumerateMods` enumerates. -/
theorem not_enumerates (ha : ∀ o clientData, a ≠ .enumerateMods (some o) clientData) :
    ∀ type, ¬ a.Enumerates type := by
  rintro type ⟨o, clientData, heq, _⟩
  exact ha o clientData heq

/-- Every step is one of `ModsStep`. -/
theorem step_mods (h : s.step a = some t) : ModsStep s t a := by
  cases a with
  | configure | tick =>
      cases h
      exact .same rfl (not_enumerates (by simp)) rfl
  | post i =>
      obtain ⟨completion, _, rfl⟩ := Option.map_eq_some_iff.1 h
      exact .same rfl (not_enumerates (by simp)) rfl
  | callMod operation options clientData =>
      cases h
      have hcases := callMod_cases s.mods operation
        (fun m => (operation.answer (copies m.itemId s.available),
        operation.apply m (s.mods.ensureLoaded s.config))) options clientData
      have hcall := congrFun (congrFun (callOf_eq s.mods s.config operation) options) clientData
      rcases hcases with ⟨o, _, haccepted, heq⟩ | ⟨haccepted, heq⟩
      · have hresult := hcall.trans heq
        exact .call haccepted (congrArg Prod.snd hresult)
          ⟨o.localUserId, clientData, congrArg (fun r => [Prod.fst r]) hresult⟩
      · exact .same haccepted (not_enumerates (by simp)) ((congrArg Prod.snd hcall).trans heq)
  | enumerateMods options clientData =>
      cases h
      cases options with
      | none => exact .same rfl (not_enumerates (by simp)) rfl
      | some o =>
          cases hversion : versionInRange o.apiVersion enumerateModsApiLatest with
          | false =>
              refine .same rfl ?_ ?_
              · rintro type ⟨_, _, heq, hok, _⟩
                cases heq
                rw [hversion] at hok
                cases hok
              · simp [ModsNode.decided, ModsInterface.enumerateMods, hversion]
          | true =>
              refine .enumerate o.type rfl (fun type => ⟨?_, ?_⟩) ?_
              · rintro ⟨_, _, heq, _, htype⟩
                cases heq
                exact htype.symm
              · rintro rfl
                exact ⟨o, clientData, rfl, hversion, rfl⟩
              · simp [ModsNode.decided, ModsInterface.enumerateMods, hversion]
  | copyModInfo options =>
      cases h
      have hno : ∀ type, ¬ (ModsAction.copyModInfo options).Enumerates type :=
        not_enumerates (by simp)
      cases options with
      | none => exact .same rfl hno rfl
      | some o =>
          have hmods : (s.mods.copyModInfo s.config (some o)).2.2 = s.mods ∨
              (s.mods.copyModInfo s.config (some o)).2.2 = s.mods.ensureLoaded s.config := by
            unfold ModsInterface.copyModInfo
            dsimp only
            split
            · exact .inl rfl
            · split
              · exact .inl rfl
              · exact .inr rfl
          rcases hmods with hmods | hmods
          · exact .same rfl hno hmods
          · exact .load rfl hno hmods

end

/-! ## A run -/

abbrev ModsTransition := Transition ModsNode ModsAction

/-- A step that installs the item. -/
def InstallsItem (itemId : Bytes) (x : ModsTransition) : Prop :=
  ∃ m, x.action.accepted = some (.install, m) ∧ m.itemId = itemId

/-- A step that uninstalls a mod of the item. -/
def UninstallsItem (itemId : Bytes) (x : ModsTransition) : Prop :=
  (∃ m, x.action.accepted = some (.uninstall, m) ∧ m.itemId = itemId) ∧
    true ∈ copies itemId x.pre.available

/-- The same, where the first mod of the item is uninstalled before. -/
def uninstallsOther (itemId : Bytes) (x : ModsTransition) : Bool :=
  (x.action.accepted.any fun call => call.1 = .uninstall && call.2.itemId = itemId) &&
    decide (true ∈ copies itemId x.pre.available) &&
      (copies itemId x.pre.available).head? == some false

/-- Of `length` flags that were set, the first `n` are clear. -/
def clearedFrom (n length : ℕ) : List Bool :=
  List.replicate n false ++ List.replicate (length - n) true

/-- The first mod of an item is uninstalled exactly since it was uninstalled last. Of the others,
each call that finds the first one uninstalled takes the next, and they stay uninstalled. -/
structure CopiesKept (itemId : Bytes) (l : List ModsTransition) (mods : List Mod) : Prop where
  first : (copies itemId mods).head? = some false ↔
    Since (UninstallsItem itemId) (InstallsItem itemId) l
  others : (copies itemId mods).tail = clearedFrom (l.countP (uninstallsOther itemId))
    (copies itemId mods).tail.length

section
variable {s t : ModsNode} {a : ModsAction} {itemId : Bytes} {l : List ModsTransition}
  {mods : List Mod} {operation : ModOperation} {m : ModIdentifier} {x : ModsTransition}

/-- An item is uninstalled once more if its first copy is not installed. -/
theorem uninstallsOther_iff : uninstallsOther itemId x = true ↔
    UninstallsItem itemId x ∧ (copies itemId x.pre.available).head? = some false := by
  simp only [uninstallsOther, UninstallsItem, Bool.and_eq_true, Option.any_eq_true,
    decide_eq_true_eq, beq_iff_eq]
  refine and_congr_left fun _ => and_congr_left fun _ => ⟨?_, ?_⟩
  · rintro ⟨⟨operation, m⟩, haccepted, rfl, hitem⟩
    exact ⟨m, haccepted, hitem⟩
  · rintro ⟨m, haccepted, hitem⟩
    exact ⟨(.uninstall, m), haccepted, rfl, hitem⟩

/-- A step that does not concern the item. -/
theorem CopiesKept.idle {mods' : List Mod} (h : CopiesKept itemId l mods)
    (hcopies : copies itemId mods' = copies itemId mods) (hinstalls : ¬ InstallsItem itemId x)
    (huninstalls : ¬ UninstallsItem itemId x) : CopiesKept itemId (l ++ [x]) mods' := by
  refine ⟨?_, ?_⟩
  · rw [hcopies, h.first, since_snoc]
    exact ⟨fun hs => .inr ⟨hs, hinstalls⟩, fun hs => (hs.resolve_left huninstalls).1⟩
  · have hother : uninstallsOther itemId x = false :=
      Bool.eq_false_iff.2 fun hother => huninstalls (uninstallsOther_iff.1 hother).1
    rw [hcopies, List.countP_append, List.countP_singleton, hother]
    exact h.others

/-- The first use finds the declared mods, which are installed. -/
theorem CopiesKept.load (h : CopiesKept itemId l s.mods.mods)
    (hunread : s.mods.loaded = false → s.mods.mods = []) : CopiesKept itemId l s.available := by
  unfold ModsNode.available ModsInterface.ensureLoaded
  cases hloaded : s.mods.loaded with
  | true => exact h
  | false =>
      have hnil := hunread hloaded
      rw [hnil] at h
      simp only [hnil, List.nil_append, Bool.false_eq_true, if_false]
      have hnone := h.first
      have hzero := h.others
      have hdeclared : ∀ b ∈ copies itemId (declaredMods s.config), b = true :=
        copies_declaredMods s.config
      refine ⟨⟨fun hfirst => ?_, fun hs => ?_⟩, ?_⟩
      · cases hdeclared false (List.mem_of_mem_head? hfirst)
      · cases hnone.2 hs
      · have hcount : l.countP (uninstallsOther itemId) = 0 := by
          simpa [copies, clearedFrom] using hzero
        rw [hcount]
        exact List.eq_replicate_of_mem fun b hb => hdeclared b (List.mem_of_mem_tail hb)

/-- The first flag that is set is cleared: the first of all, or one of the others where the first
is clear. -/
theorem clear_first {flags flags' : List Bool}
    (h : updateFirst id (fun _ => false) flags = some flags') : flags'.head? = some false ∧
      if flags.head? = some false then updateFirst id (fun _ => false) flags.tail =
        some flags'.tail
      else flags'.tail = flags.tail := by
  cases flags with
  | nil => cases h
  | cons b rest =>
      cases b with
      | true =>
          rw [updateFirst_cons_of_pos rfl] at h
          cases h
          exact ⟨rfl, rfl⟩
      | false =>
          rw [updateFirst_cons_of_neg rfl] at h
          obtain ⟨rest', hrest, rfl⟩ := Option.map_eq_some_iff.1 h
          exact ⟨rfl, hrest⟩

/-- Of flags that are cleared from the first on, the next one is. -/
theorem clear_next {n k : ℕ} {flags : List Bool}
    (h : updateFirst id (fun _ => false) (List.replicate n false ++ List.replicate k true) =
      some flags) :
    flags = List.replicate (n + 1) false ++ List.replicate (k - 1) true := by
  induction n generalizing flags with
  | zero =>
      cases k with
      | zero => cases h
      | succ k => exact (Option.some.inj h).symm
  | succ n ih =>
      rw [List.replicate_succ, List.cons_append, updateFirst_cons_of_neg rfl] at h
      obtain ⟨rest, hrest, rfl⟩ := Option.map_eq_some_iff.1 h
      rw [ih hrest]
      rfl

/-- A flag can be cleared if one is set. -/
theorem clear_isSome {flags : List Bool} :
    (updateFirst id (fun _ => false) flags).isSome = true ↔ true ∈ flags := by
  rw [updateFirst_isSome]
  simp

/-- A mod of the item is uninstalled. -/
theorem CopiesKept.uninstalled {mods' : List Mod} (h : CopiesKept itemId l mods)
    (hbefore : copies itemId x.pre.available = copies itemId mods)
    (hafter : updateFirst id (fun _ => false) (copies itemId mods) = some (copies itemId mods'))
    (huninstalls : UninstallsItem itemId x) : CopiesKept itemId (l ++ [x]) mods' := by
  obtain ⟨hfirst, htail⟩ := clear_first hafter
  have hcount : uninstallsOther itemId x = decide ((copies itemId mods).head? = some false) := by
    rw [Bool.eq_iff_iff, uninstallsOther_iff, hbefore, decide_eq_true_iff]
    exact ⟨And.right, And.intro huninstalls⟩
  refine ⟨⟨fun _ => since_snoc.2 (.inl huninstalls), fun _ => hfirst⟩, ?_⟩
  rw [List.countP_append, List.countP_singleton, hcount]
  simp only [decide_eq_true_eq]
  split_ifs at htail ⊢ with hclear
  · have hlength := length_updateFirst htail
    rw [h.others] at htail
    have hnext := clear_next htail
    rw [clearedFrom, hlength, ← Nat.sub_sub]
    exact hnext
  · rw [htail]
    exact h.others

/-- A call about a mod, from the loaded list. -/
theorem CopiesKept.call (h : CopiesKept itemId l s.available)
    (haccepted : a.accepted = some (operation, m))
    (hmods : t.mods = operation.apply m (s.mods.ensureLoaded s.config)) :
    CopiesKept itemId (l ++ [⟨s, a, t⟩]) t.mods.mods := by
  have hother : ∀ operation', (∃ m', a.accepted = some (operation', m') ∧ m'.itemId = itemId) ↔
      operation' = operation ∧ m.itemId = itemId := by
    intro operation'
    rw [haccepted]
    constructor
    · rintro ⟨m', heq, hitem⟩
      cases heq
      exact ⟨rfl, hitem⟩
    · rintro ⟨rfl, hitem⟩
      exact ⟨m, rfl, hitem⟩
  rw [hmods]
  cases operation with
  | update =>
      refine h.idle rfl (fun hinstalls => ?_) fun huninstalls => ?_
      · cases ((hother _).1 hinstalls).1
      · cases ((hother _).1 huninstalls.1).1
  | install =>
      have huninstalls : ¬ UninstallsItem itemId ⟨s, a, t⟩ := by
        intro huninstalls
        cases ((hother _).1 huninstalls.1).1
      rcases eq_or_ne m.itemId itemId with hitem | hne
      · have hcopies : copies itemId ((s.mods.ensureLoaded s.config).install m).mods =
            true :: (copies itemId s.available).tail := copies_install.trans (if_pos hitem)
        have hnow : InstallsItem itemId ⟨s, a, t⟩ := (hother _).2 ⟨rfl, hitem⟩
        refine ⟨?_, ?_⟩
        · rw [since_snoc]
          refine ⟨fun hfirst => ?_, fun hs => absurd hnow (hs.resolve_left huninstalls).2⟩
          rw [ModOperation.apply, hcopies] at hfirst
          cases hfirst
        · have hcount : uninstallsOther itemId ⟨s, a, t⟩ = false :=
            Bool.eq_false_iff.2 fun hother => huninstalls (uninstallsOther_iff.1 hother).1
          rw [ModOperation.apply, hcopies, List.countP_append, List.countP_singleton, hcount]
          exact h.others
      · refine h.idle ?_ (fun hinstalls => hne ((hother _).1 hinstalls).2) huninstalls
        exact copies_install.trans (if_neg hne)
  | uninstall =>
      have hinstalls : ¬ InstallsItem itemId ⟨s, a, t⟩ := by
        intro hinstalls
        cases ((hother _).1 hinstalls).1
      rcases eq_or_ne m.itemId itemId with hitem | hne
      · have hcopies : copies itemId ((s.mods.ensureLoaded s.config).uninstall m.itemId).2.mods =
            (updateFirst id (fun _ => false) (copies itemId s.available)).getD
              (copies itemId s.available) :=
          copies_uninstall.trans (if_pos hitem)
        cases hupdate : updateFirst id (fun _ => false) (copies itemId s.available) with
        | none =>
            refine h.idle (hcopies.trans (congrArg (Option.getD · _) hupdate))
              hinstalls fun huninstalls => ?_
            have hsome := clear_isSome.2 huninstalls.2
            rw [hupdate] at hsome
            cases hsome
        | some flags =>
            have hsome : true ∈ copies itemId s.available := clear_isSome.1 (by rw [hupdate]; rfl)
            refine h.uninstalled rfl ?_ ⟨(hother _).2 ⟨rfl, hitem⟩, hsome⟩
            rw [hupdate]
            exact congrArg some (hcopies.trans (congrArg (Option.getD · _) hupdate)).symm
      · refine h.idle ?_ hinstalls fun huninstalls => hne ((hother _).1 huninstalls.1).2
        exact copies_uninstall.trans (if_neg hne)

end

/-- The identifier that a step adds to the list. -/
def ModsNode.adds (s : ModsNode) (a : ModsAction) : List ModIdentifier :=
  match a.accepted with
  | some (.install, m) => if copies m.itemId s.available = [] then [m] else []
  | _ => []

/-- What holds of the mods after every run. -/
structure ModsKept (l : List ModsTransition) (s : ModsNode) : Prop where
  unread : s.mods.loaded = false → s.mods.mods = [] ∧ flow ModsNode.adds l = []
  /-- The list is what the configuration declared at the first use, and then the items that the
  game added, in order. -/
  listed : s.mods.loaded = true → ∃ x ∈ l, Raises (·.mods.loaded) x = true ∧
    s.mods.mods.map (·.identifier) = (declaredMods x.pre.config).map (·.identifier) ++
      flow ModsNode.adds l
  items : ∀ itemId, CopiesKept itemId l s.mods.mods
  enumerated : ∀ type, s.mods.wasEnumerated type = true ↔ ∃ x ∈ l, x.action.Enumerates type
  /-- A call about a mod decides by its copies, and completes once. -/
  answers : ∀ x ∈ l, ∀ operation m, x.action.accepted = some (operation, m) →
    ∃ localUserId clientData,
    x.pre.decides x.action =
      [.mod operation (operation.answer (copies m.itemId x.pre.available)) localUserId clientData
      (some m.shown)]
  completed : (flow ModsNode.decides l).Perm (flow ModsNode.posts l ++ s.calls)
  told : flow ModsNode.posts l = flow ModsNode.tells l ++ s.dispatch.pending

section
variable {s t : ModsNode} {a : ModsAction} {l : List ModsTransition} {type : EModEnumerationType}

/-- The list after a call that is accepted. -/
theorem identifiers_apply {operation : ModOperation} {m : ModIdentifier}
    (haccepted : a.accepted = some (operation, m)) :
    (operation.apply m (s.mods.ensureLoaded s.config)).mods.map (·.identifier) =
      s.available.map (·.identifier) ++ s.adds a := by
  unfold ModsNode.adds
  rw [haccepted]
  cases operation with
  | install => exact identifiers_install
  | uninstall => exact identifiers_uninstall.trans (List.append_nil _).symm
  | update => exact (List.append_nil _).symm

/-- Without a call nothing is added. -/
theorem adds_of_none (haccepted : a.accepted = none) : s.adds a = [] := by
  unfold ModsNode.adds
  rw [haccepted]

/-- A call reads no configuration. -/
theorem loaded_apply (operation : ModOperation) (m : ModIdentifier) (i : ModsInterface) :
    (operation.apply m i).loaded = i.loaded := by
  cases operation with
  | install | update => rfl
  | uninstall =>
      unfold ModOperation.apply ModsInterface.uninstall
      dsimp only
      split <;> rfl

/-- After the first use the list is read. -/
theorem loaded_ensureLoaded (i : ModsInterface) (c : IniConfig) :
    (i.ensureLoaded c).loaded = true := by
  unfold ModsInterface.ensureLoaded
  cases h : i.loaded with
  | true => exact h
  | false => rfl

/-- The list that a use finds, and when it was read. -/
theorem ModsKept.available (h : ModsKept l s) (ht : t.mods.loaded = true) : ∃ x ∈ l ++ [⟨s, a, t⟩],
    Raises (·.mods.loaded) x = true ∧
      s.available.map (·.identifier) = (declaredMods x.pre.config).map (·.identifier) ++
        flow ModsNode.adds l := by
  unfold ModsNode.available ModsInterface.ensureLoaded
  cases hloaded : s.mods.loaded with
  | true =>
      obtain ⟨x, hx, hraises, hlist⟩ := h.listed hloaded
      exact ⟨x, List.mem_append_left _ hx, hraises, hlist⟩
  | false =>
      obtain ⟨hnil, hadds⟩ := h.unread hloaded
      refine ⟨⟨s, a, t⟩, List.mem_append_right _ (List.mem_singleton_self _), ?_, ?_⟩
      · simp [Raises, hloaded, ht]
      · simp [hnil, hadds]

/-- A call about a mod enumerates nothing. -/
theorem enumerates_of_accepted {call : ModOperation × ModIdentifier}
    (haccepted : a.accepted = some call) : ∀ type, ¬ a.Enumerates type := by
  rintro type ⟨o, clientData, rfl, _⟩
  cases haccepted

/-- Reading the list enumerates nothing. -/
theorem wasEnumerated_ensureLoaded (i : ModsInterface) (c : IniConfig) :
    (i.ensureLoaded c).wasEnumerated = i.wasEnumerated := by
  funext type
  unfold ModsInterface.ensureLoaded
  split
  · rfl
  · cases type <;> rfl

/-- A call about a mod forgets no enumeration. -/
theorem wasEnumerated_apply (operation : ModOperation) (m : ModIdentifier) (i : ModsInterface) :
    (operation.apply m i).wasEnumerated = i.wasEnumerated := by
  funext type
  cases operation with
  | install | update => cases type <;> rfl
  | uninstall =>
      unfold ModOperation.apply ModsInterface.uninstall
      dsimp only
      split
      · rfl
      · cases type <;> rfl

/-- What was enumerated after one more step. -/
theorem wasEnumerated_step (h : ModsStep s t a) :
    t.mods.wasEnumerated type = true ↔ s.mods.wasEnumerated type = true ∨ a.Enumerates type := by
  cases h with
  | call haccepted hmods _ =>
      rw [hmods, wasEnumerated_apply, wasEnumerated_ensureLoaded,
        or_iff_left (enumerates_of_accepted haccepted type)]
  | load _ hno hmods => rw [hmods, wasEnumerated_ensureLoaded, or_iff_left (hno type)]
  | same _ hno hmods => rw [hmods, or_iff_left (hno type)]
  | enumerate type' _ henumerates hmods =>
      rw [hmods, henumerates]
      cases type <;> cases type' <;>
        simp [ModsInterface.wasEnumerated, ModsInterface.markEnumerated]

/-- A step that is no call about a mod. -/
theorem CopiesKept.quiet {itemId : Bytes} {mods : List Mod} (h : CopiesKept itemId l mods)
    (haccepted : a.accepted = none) : CopiesKept itemId (l ++ [⟨s, a, t⟩]) mods := by
  refine h.idle rfl ?_ ?_
  · rintro ⟨m, heq, _⟩
    cases haccepted.symm.trans heq
  · rintro ⟨⟨m, heq, _⟩, _⟩
    cases haccepted.symm.trans heq

/-- Enumerating keeps the list. -/
theorem list_markEnumerated (i : ModsInterface) (type : EModEnumerationType) :
    (i.markEnumerated type).mods = i.mods ∧ (i.markEnumerated type).loaded = i.loaded := by
  cases type <;> exact ⟨rfl, rfl⟩

/-- A completion that a step decides on is posted, or held by its call. -/
theorem completed_step (h : s.step a = some t) :
    (s.calls ++ s.decides a).Perm (s.posts a ++ t.calls) := by
  cases a with
  | configure | tick | copyModInfo | callMod | enumerateMods =>
      cases h
      simp [ModsNode.posts, ModsNode.decides, ModsNode.decided]
  | post i =>
      obtain ⟨completion, hi, rfl⟩ := Option.map_eq_some_iff.1 h
      simpa [ModsNode.posts, ModsNode.decides, hi] using perm_take hi

/-- A completion that is posted is called, or waits, in order. -/
theorem told_step (hdelayed : s.dispatch.delayed = []) (h : s.step a = some t) :
    s.dispatch.pending ++ s.posts a = s.tells a ++ t.dispatch.pending ∧
    t.dispatch.delayed = [] := by
  cases a with
  | configure | copyModInfo | callMod | enumerateMods =>
      cases h
      simp [ModsNode.posts, ModsNode.tells, ModsNode.decided, hdelayed]
  | post i =>
      obtain ⟨completion, hi, rfl⟩ := Option.map_eq_some_iff.1 h
      simp [ModsNode.posts, ModsNode.tells, hi, Dispatcher.post, hdelayed]
  | tick now =>
      cases h
      simp [ModsNode.posts, ModsNode.tells, Dispatcher.drain, hdelayed]

/-- A step uses the list and may add to it, or leaves it as it is. -/
theorem ModsStep.list (h : ModsStep s t a) :
    (t.mods.loaded = true ∧ t.mods.mods.map (·.identifier) = s.available.map (·.identifier) ++
      s.adds a) ∨ (t.mods.loaded = s.mods.loaded ∧ t.mods.mods = s.mods.mods ∧ s.adds a = []) := by
  cases h with
  | call haccepted hmods _ =>
      refine .inl ⟨?_, ?_⟩
      · rw [hmods, loaded_apply, loaded_ensureLoaded]
      · rw [hmods, identifiers_apply haccepted]
  | load haccepted _ hmods =>
      refine .inl ⟨?_, ?_⟩
      · rw [hmods, loaded_ensureLoaded]
      · rw [hmods, adds_of_none haccepted, List.append_nil]
        rfl
  | enumerate type haccepted _ hmods =>
      obtain ⟨hlist, hloaded⟩ := list_markEnumerated s.mods type
      exact .inr ⟨hmods ▸ hloaded, hmods ▸ hlist, adds_of_none haccepted⟩
  | same haccepted _ hmods => exact .inr ⟨by rw [hmods], by rw [hmods], adds_of_none haccepted⟩

/-- What a step does to the mods of an item. -/
theorem CopiesKept.step {itemId : Bytes} (h : CopiesKept itemId l s.mods.mods)
    (hunread : s.mods.loaded = false → s.mods.mods = []) (hcases : ModsStep s t a) :
    CopiesKept itemId (l ++ [⟨s, a, t⟩]) t.mods.mods := by
  cases hcases with
  | call haccepted hmods _ => exact (h.load hunread).call haccepted hmods
  | load haccepted _ hmods =>
      rw [hmods]
      exact (h.load hunread).quiet haccepted
  | enumerate type haccepted _ hmods =>
      rw [hmods, (list_markEnumerated _ type).1]
      exact h.quiet haccepted
  | same haccepted _ hmods =>
      rw [hmods]
      exact h.quiet haccepted

/-- A step keeps the accounts of the mods. -/
theorem ModsKept.step (h : ModsKept l s) (hdelayed : s.dispatch.delayed = [])
    (hst : s.step a = some t) : ModsKept (l ++ [⟨s, a, t⟩]) t := by
  have hcases := step_mods hst
  refine ⟨fun hunloaded => ?_, fun hloaded => ?_, fun itemId => ?_, fun type => ?_,
    fun x hx operation m haccepted => ?_, ?_, ?_⟩
  · rcases hcases.list with ⟨hloaded, _⟩ | ⟨hloaded, hmods, hadds⟩
    · cases hloaded.symm.trans hunloaded
    · rw [hmods, flow_snoc, hadds, List.append_nil]
      exact h.unread (hloaded.symm.trans hunloaded)
  · rw [flow_snoc]
    rcases hcases.list with ⟨_, hmods⟩ | ⟨hsame, hmods, hadds⟩
    · obtain ⟨x, hx, hraises, hlist⟩ := h.available (a := a) hloaded
      refine ⟨x, hx, hraises, ?_⟩
      rw [hmods, hlist, List.append_assoc]
    · obtain ⟨x, hx, hraises, hlist⟩ := h.listed (hsame.symm.trans hloaded)
      refine ⟨x, List.mem_append_left _ hx, hraises, ?_⟩
      rw [hmods, hadds, List.append_nil, hlist]
  · exact (h.items itemId).step (fun hunloaded => (h.unread hunloaded).1) hcases
  · rw [wasEnumerated_step hcases, h.enumerated]
    simp only [List.mem_append, List.mem_singleton, or_and_right, exists_or, exists_eq_left]
  · rcases List.mem_append.1 hx with hx | hx
    · exact h.answers x hx operation m haccepted
    · cases List.mem_singleton.1 hx
      cases hcases with
      | call haccepted' _ hdecides =>
          cases haccepted'.symm.trans haccepted
          exact hdecides
      | enumerate _ hnone | load hnone | same hnone => cases hnone.symm.trans haccepted
  · exact flow_perm_snoc h.completed (completed_step hst)
  · rw [flow_snoc, flow_snoc, h.told, List.append_assoc, (told_step hdelayed hst).1,
      List.append_assoc]

/-- What `EOS_Mods_CopyModInfo` shows: the list of a type that was enumerated, and nothing
before. -/
structure ModsShown (l : List ModsTransition) (s : ModsNode) (o : EnumerateModsOptions) : Prop where
  enumerated : (∃ x ∈ l, x.action.Enumerates o.type) → (s.mods.copyModInfo s.config (some o)).1 =
    .success ∧ (s.mods.copyModInfo s.config (some o)).2.1 =
      (s.available.filter fun m => o.type = .allAvailable || m.installed).map fun m =>
        m.identifier.shown
  never : (¬ ∃ x ∈ l, x.action.Enumerates o.type) →
    s.mods.copyModInfo s.config (some o) = (.notFound, [], s.mods)

/-- What the accounts say of a copy of the list. -/
theorem ModsKept.shows (h : ModsKept l s) {o : EnumerateModsOptions}
    (hversion : versionInRange o.apiVersion copyModInfoApiLatest = true) : ModsShown l s o := by
  refine ⟨fun hever => ?_, fun hnever => ?_⟩
  · have hwas := (h.enumerated o.type).2 hever
    have hsnapshot : ∀ i : ModsInterface, i.snapshot o.type =
        i.mods.filter fun m => o.type = .allAvailable || m.installed := by
      intro i
      refine List.filter_congr fun m _ => ?_
      cases o.type <;> simp
    simp [ModsInterface.copyModInfo, hversion, hwas, hsnapshot, ModsNode.available]
  · have hwas : s.mods.wasEnumerated o.type = false :=
      Bool.eq_false_iff.2 fun hwas => hnever ((h.enumerated o.type).1 hwas)
    simp [ModsInterface.copyModInfo, hversion, hwas]

end

end EOSEmu
