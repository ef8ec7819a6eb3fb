import EOSEmu.Lib.Replay
import EOSEmu.Interfaces.Attributes

/-!
# Modification handles

What the builder functions of the three modification handles share. A builder checks its pointers,
refuses a null one and leaves the handle as it was (`build_refused`), and otherwise edits it; an
attribute it adds or removes goes into one of two lists, which the owner of the record later runs
through one after the other.
-/

namespace EOSEmu

/-- `EOS_Lobby_AttributeData` and `EOS_Sessions_AttributeData`. -/
structure AttributeData where
  key : Option Bytes
  valueType : SdkInt
  asInt64 : Int64 := 0
  asDouble : UInt64 := 0
  asBool : SdkInt := eosFalse
  asUtf8 : Option Bytes := none

/-- The value both `AttrFromData` functions store. -/
def AttributeData.value (d : AttributeData) : AttrValue :=
  readAttr d.valueType d.asInt64 d.asDouble d.asBool d.asUtf8

/-- A builder function: `EOS_InvalidParameters` and an untouched handle when a pointer on the way
to its argument is null. -/
def build {α β : Type} (m : β) (arg : Option α) (f : α → β) : EResult × β :=
  match arg with
  | none => (.invalidParameters, m)
  | some a => (.success, f a)

/-- A refused call leaves the handle as it was. -/
theorem build_refused {α β : Type} {m : β} {arg : Option α} {f : α → β}
    (h : (build m arg f).1 = .invalidParameters) : (build m arg f).2 = m := by
  cases arg with
  | none => rfl
  | some a => cases h

section
variable {α : Type}

/-- The two loops over a list of attributes: every add rewrites the first entry of its key or
appends one, then every remove erases the first entry of its key. -/
def applyAttrs (adds : List (Bytes × α)) (removes : List Bytes) (attributes : List (Bytes × α)) :
    List (Bytes × α) :=
  removes.foldl (fun l key => Lib.eraseFirst key l)
    (adds.foldl (fun l add => Lib.upsert add.1 add.2 l) attributes)

/-- What all added entries and all entries of the list satisfy, the list satisfies afterwards. -/
theorem forall_applyAttrs {P : Bytes × α → Prop} {adds : List (Bytes × α)} (removes : List Bytes)
    {attributes : List (Bytes × α)} (hadds : ∀ a ∈ adds, P a) (h : ∀ a ∈ attributes, P a) :
    ∀ a ∈ applyAttrs adds removes attributes, P a := by
  have hput : ∀ l : List (Bytes × α), (∀ a ∈ l, P a) →
      ∀ a ∈ adds.foldl (fun l add => Lib.upsert add.1 add.2 l) l, P a := by
    induction adds with
    | nil => exact fun _ hl => hl
    | cons add adds ih =>
        intro l hl
        refine ih (fun a ha => hadds a (List.mem_cons_of_mem _ ha)) _ fun a ha => ?_
        rcases Lib.mem_upsert ha with rfl | ha
        · exact hadds _ List.mem_cons_self
        · exact hl a ha
  have hdel : ∀ l : List (Bytes × α), (∀ a ∈ l, P a) →
      ∀ a ∈ removes.foldl (fun l key => Lib.eraseFirst key l) l, P a := by
    induction removes with
    | nil => exact fun _ hl => hl
    | cons key removes ih => exact fun l hl => ih _ fun a ha => hl a (List.mem_of_mem_eraseP ha)
  exact hdel _ (hput attributes h)

/-- The loops are the store's way of taking recorded edits. -/
theorem applyAttrs_eq (adds : List (Bytes × α)) (removes : List Bytes)
    (attributes : List (Bytes × α)) :
    applyAttrs adds removes attributes = Lib.entries.apply adds removes attributes := rfl

end

end EOSEmu
