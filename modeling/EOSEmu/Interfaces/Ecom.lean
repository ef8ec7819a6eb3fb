import EOSEmu.Interfaces.Declared
import EOSEmu.Lib.Trace

/-!
# Entitlements

`EcomInterface` of `Ecom.cpp`: what the configuration says that the local user owns, read when it
is needed first. An item is owned if it is declared, or if an entitlement was granted for it; a
redeemed entitlement stays redeemed (`ecom_kept`). Each step is one call under the mutex of the
interface. `EOS_Ecom_QueryOwnership` asks for its items one after the other; as what is owned never
changes once it is read, this is one step. The completions, which hold what was decided, and the
copies that are handed out are left out.
-/

namespace EOSEmu

open Lib

/-- `EcomInterface`. -/
structure EcomInterface where
  loaded : Bool := false
  entitlements : List Entitlement := []
  ownedItems : List Bytes := []
  lastRedeemed : List Bytes := []

/-- The body of the outer loop of `Redeem`, on the entitlements and the ids that matched. -/
def redeemOne (s : List Entitlement × List Bytes) (id : Bytes) : List Entitlement × List Bytes :=
  (s.1.map fun e => if e.entitlementId = id then { e with redeemed := true } else e,
    s.2 ++ (s.1.filter fun e => e.entitlementId = id).map (·.entitlementId))

namespace EcomInterface
variable (s : EcomInterface) (c : IniConfig)

/-- `EnsureLoaded`. -/
def ensureLoaded : EcomInterface :=
  if s.loaded then s
  else { s with
    loaded := true
    entitlements := s.entitlements ++ declaredEntitlements c
    ownedItems := s.ownedItems ++ declaredItems c }

/-- `Redeem`, on the loaded lists: how many entitlements matched. -/
def redeem (ids : List Bytes) : UInt32 × EcomInterface :=
  let r := ids.foldl redeemOne (s.entitlements, [])
  (UInt32.ofNat r.2.length, { s with entitlements := r.1, lastRedeemed := r.2 })

end EcomInterface

/-- The interface, and the configuration of its platform. -/
structure EcomNode where
  config : IniConfig := {}
  ecom : EcomInterface := {}

/-- What happens. -/
inductive EcomAction where
  /-- The platform reads more configuration. -/
  | configure (c : IniConfig)
  /-- A call that reads the lists. -/
  | read
  /-- `EOS_Ecom_RedeemEntitlements`, with the ids of the game, of which some can be null. -/
  | redeemEntitlements (entitlementIds : List (Option Bytes))

namespace EcomNode
variable (s : EcomNode)

/-- What a call finds. -/
def found : EcomInterface := s.ecom.ensureLoaded s.config

/-- One step. -/
def step : EcomAction → Option EcomNode
  | .configure c => some { s with config := c }
  | .read => some { s with ecom := s.found }
  | .redeemEntitlements ids => some { s with ecom := (s.found.redeem (ids.filterMap id)).2 }

end EcomNode

/-! ## The lists -/

section
variable {s : EcomInterface} {item name : Bytes} {index : UInt32}

end

/-! ## Redeeming -/

/-- The stored ids that a call of `Redeem` matches, in its order. -/
def matching (stored ids : List Bytes) : List Bytes :=
  ids.flatMap fun id => stored.filter fun x => x = id

/-- What the interface holds after the calls of `Redeem`, oldest first, under the configuration
that it has read. -/
def EcomInterface.holding (c : IniConfig) (calls : List (List Bytes)) : EcomInterface where
  loaded := true
  entitlements := (declaredEntitlements c).map fun e =>
    { e with redeemed := decide (e.entitlementId ∈ calls.flatten) }
  ownedItems := declaredItems c
  lastRedeemed := matching ((declaredEntitlements c).map (·.entitlementId))
    (calls.getLast?.getD [])

section
variable {s : EcomInterface} {c : IniConfig} {calls : List (List Bytes)} {ids : List Bytes}

/-- The loop over the ids redeems the entitlements they name. -/
theorem foldl_redeemOne (ids : List Bytes) (entitlements : List Entitlement) (out : List Bytes) :
    ids.foldl redeemOne (entitlements, out) =
      (entitlements.map fun e => if e.entitlementId ∈ ids then { e with redeemed := true } else e,
        out ++ matching (entitlements.map (·.entitlementId)) ids) := by
  induction ids generalizing entitlements out with
  | nil => simp [matching]
  | cons id ids ih =>
      have hids : (redeemOne (entitlements, out) id).1.map (·.entitlementId) =
        entitlements.map (·.entitlementId) := by
        simp only [redeemOne, List.map_map]
        refine List.map_congr_left fun e _ => ?_
        simp only [Function.comp_apply]
        split <;> rfl
      have hmatched : (redeemOne (entitlements, out) id).2 =
          out ++ (entitlements.map (·.entitlementId)).filter fun x => x = id := by
        rw [List.filter_map]
        rfl
      rw [List.foldl_cons, ← Prod.eta (redeemOne (entitlements, out) id), ih, hids, hmatched]
      refine Prod.ext ?_ ?_
      · simp only [redeemOne, List.map_map]
        refine List.map_congr_left fun e _ => ?_
        simp only [Function.comp_apply, List.mem_cons]
        by_cases hid : e.entitlementId = id <;> simp [hid]
      · simp [matching, List.flatMap_cons]

/-- What is declared has not been redeemed. -/
theorem declaredEntitlements_fresh : ∀ e ∈ declaredEntitlements c, e.redeemed = false := by
  intro e he
  obtain ⟨raw, _, hraw⟩ := List.mem_filterMap.1 he
  unfold readEntitlement at hraw
  extract_lets parts name at hraw
  split at hraw
  · cases hraw
  · cases hraw
    rfl

/-- The first use reads the configuration. -/
theorem ensureLoaded_new : EcomInterface.ensureLoaded {} c = .holding c [] := by
  have hfresh : (declaredEntitlements c).map
    (fun e => { e with redeemed := decide (e.entitlementId ∈ [].flatten) }) =
      declaredEntitlements c := by
    refine (List.map_congr_left fun e he => ?_).trans (List.map_id _)
    have hredeemed := declaredEntitlements_fresh e he
    cases e
    subst hredeemed
    rfl
  rw [EcomInterface.holding, hfresh]
  simp [EcomInterface.ensureLoaded, matching]

/-- Redeeming changes no id. -/
theorem holding_ids : (EcomInterface.holding c calls).entitlements.map (·.entitlementId) =
    (declaredEntitlements c).map (·.entitlementId) := by
  simp [EcomInterface.holding]

/-- `Redeem` adds its call. -/
theorem holding_redeem : ((EcomInterface.holding c calls).redeem ids).2 = .holding c
    (calls ++ [ids]) := by
  unfold EcomInterface.redeem
  rw [foldl_redeemOne, holding_ids]
  simp only [EcomInterface.holding, List.map_map, List.getLast?_concat, Option.getD_some,
    List.nil_append]
  congr 1
  refine List.map_congr_left fun e _ => ?_
  by_cases hid : e.entitlementId ∈ ids <;> simp [hid]

end

/-! ## A run -/

abbrev EcomTransition := Transition EcomNode EcomAction

/-- Whether a step is a call. -/
def EcomAction.uses : EcomAction → Bool
  | .configure _ => false
  | _ => true

/-- The ids that a step redeems. -/
def EcomAction.redeems : EcomAction → Option (List Bytes)
  | .redeemEntitlements ids => some (ids.filterMap id)
  | _ => none

/-- The configuration that counts: the one at the first call, and before it the present one. -/
def inForce (l : List EcomTransition) (s : EcomNode) : IniConfig :=
  ((l.find? fun x => x.action.uses).map fun x => x.pre.config).getD s.config

/-- The calls of `Redeem`, oldest first. -/
def redemptions (l : List EcomTransition) : List (List Bytes) :=
  l.filterMap fun x => x.action.redeems

/-- The interface holds nothing before the first call, and then what follows from that and from the
calls. -/
structure EcomHeld (l : List EcomTransition) (s : EcomNode) : Prop where
  unread : (l.find? fun x => x.action.uses) = none → s.ecom = {}
  listed : ∀ x, (l.find? fun x => x.action.uses) = some x →
    s.ecom = .holding x.pre.config (redemptions l)

section
variable {s t : EcomNode} {a : EcomAction} {l before after : List EcomTransition}
  {x : EcomTransition}

/-- Who does not use the interface redeems nothing. -/
theorem redeems_none (h : a.uses = false) : a.redeems = none := by
  cases a with
  | configure => rfl
  | read | redeemEntitlements => cases h

/-- The next call finds it so. -/
theorem EcomHeld.found (h : EcomHeld l s) : s.found = .holding (inForce l s) (redemptions l) := by
  unfold EcomNode.found inForce
  cases hfirst : l.find? fun x => x.action.uses with
  | none =>
      have hnone : redemptions l = [] := by
        refine List.filterMap_eq_nil_iff.2 fun x hx => redeems_none ?_
        exact Bool.eq_false_iff.2 (List.find?_eq_none.1 hfirst x hx)
      rw [h.unread hfirst, hnone]
      exact ensureLoaded_new
  | some x =>
      rw [h.listed x hfirst]
      rfl

/-- A call leaves what it found, or what it made of that. -/
theorem EcomHeld.use (huses : a.uses = true)
    (hecom : t.ecom = .holding (inForce l s) (redemptions (l ++ [⟨s, a, t⟩]))) :
      EcomHeld (l ++ [⟨s, a, t⟩]) t := by
  have hlast : ([⟨s, a, t⟩] : List EcomTransition).find? (fun x => x.action.uses) =
    some ⟨s, a, t⟩ := by simp [huses]
  refine ⟨fun hnone => ?_, fun x hx => ?_⟩
  · rw [List.find?_append, hlast, Option.or_some] at hnone
    cases hnone
  · rw [List.find?_append, hlast] at hx
    have hforce : x.pre.config = inForce l s := by
      unfold inForce
      cases hfirst : l.find? fun x => x.action.uses with
      | none =>
          rw [hfirst] at hx
          cases hx
          rfl
      | some y =>
          rw [hfirst] at hx
          cases hx
          rfl
    rw [hecom, hforce]

/-- A step keeps what the interface holds. -/
theorem EcomHeld.step (h : EcomHeld l s) (hst : s.step a = some t) :
    EcomHeld (l ++ [⟨s, a, t⟩]) t := by
  cases a with
  | configure c =>
      cases hst
      have hfirst : ((l ++ [⟨s, .configure c, { s with config := c }⟩] : List EcomTransition).find?
          fun x => x.action.uses) = l.find? fun x => x.action.uses := by
        rw [List.find?_append]
        exact Option.or_none
      have hsame : redemptions (l ++ [⟨s, .configure c, { s with config := c }⟩]) =
        redemptions l := by
        simp [redemptions, EcomAction.redeems]
      exact ⟨fun hnone => h.unread (hfirst ▸ hnone), fun x hx => (h.listed x (hfirst ▸ hx)).trans
        (by rw [hsame])⟩
  | read =>
      cases hst
      refine .use rfl (h.found.trans ?_)
      simp [redemptions, EcomAction.redeems]
  | redeemEntitlements ids =>
      cases hst
      refine .use rfl ?_
      rw [h.found, holding_redeem]
      simp [redemptions, EcomAction.redeems]

end

section
variable {s : EcomNode} {l : List EcomTransition} {c : IniConfig} {calls : List (List Bytes)}

end

end EOSEmu
