import Mathlib.Data.Finset.Basic
import Mathlib.Data.Finset.Lattice.Lemmas
import Mathlib.Data.List.Chain
import Mathlib.Data.List.Induction

/-!
# The history of a switch

A switch is off at first, and each report says that it was turned on or off. `Alternates on l`: the
reports `l` begin with "on", no two in a row agree, and the last one tells that the switch is `on`.

A roster is a family of switches: each event says that somebody came or went. `Narrates events s`:
the events about each one alternate, and those who are there now are `s`. Then replaying the events
gives `s` (`Narrates.roster`).
-/

namespace Lib

/-- The reports of a switch that is now `on`. -/
structure Alternates (on : Bool) (l : List Bool) : Prop where
  starts : ∀ b ∈ l.head?, b = true
  chain : l.IsChain (· ≠ ·)
  last : l.getLast? = some true ↔ on = true

variable {on : Bool} {l : List Bool}

/-- Nothing was reported, and the switch is off. -/
theorem Alternates.nil : Alternates false [] where
  starts := nofun
  chain := .nil
  last := ⟨nofun, nofun⟩

/-- The last report is the state of the switch. -/
theorem Alternates.eq_last (h : Alternates on l) {b : Bool} (hb : b ∈ l.getLast?) : b = on := by
  have hlast := h.last
  rw [Option.mem_def.1 hb] at hlast
  cases b <;> cases on <;> simp_all

/-- The switch is turned. -/
theorem Alternates.turn (h : Alternates on l) : Alternates (!on) (l ++ [!on]) where
  starts := by
    cases l with
    | nil =>
        have hoff : on = false := Bool.eq_false_iff.2 fun hon => nomatch h.last.2 hon
        subst hoff
        rintro b ⟨⟩
        rfl
    | cons c l => exact h.starts
  chain := by
    refine List.isChain_append.2 ⟨h.chain, .singleton _, fun b hb c hc => ?_⟩
    cases hc
    rw [h.eq_last hb]
    cases on <;> exact nofun
  last := by
    rw [List.getLast?_concat]
    exact ⟨fun h => Option.some.inj h, fun h => congrArg some h⟩

section
variable {κ : Type*} [DecidableEq κ] {events : List (κ × Bool)} {s : Finset κ} {k : κ}

/-- The reports about one key. -/
def reports (k : κ) (events : List (κ × Bool)) : List Bool :=
  events.filterMap fun e => if e.1 = k then some e.2 else none

/-- Those who are there after some events, if nobody was there before. -/
def roster (events : List (κ × Bool)) : Finset κ :=
  events.foldl (fun s e => if e.2 then insert e.1 s else s.erase e.1) ∅

/-- The reports of one stretch after another. -/
theorem reports_append (k : κ) (l l' : List (κ × Bool)) :
    reports k (l ++ l') = reports k l ++ reports k l' :=
  List.filterMap_append

/-- The last report about a key tells whether it is there. -/
theorem mem_roster : k ∈ roster events ↔ (reports k events).getLast? = some true := by
  induction events using List.reverseRec with
  | nil => exact iff_of_false (Finset.notMem_empty k) nofun
  | append_singleton events e ih =>
      obtain ⟨j, b⟩ := e
      have hroster : roster (events ++ [(j, b)]) =
          if b then insert j (roster events) else (roster events).erase j := List.foldl_append
      rw [hroster, reports_append]
      rcases eq_or_ne j k with rfl | hne
      · have hone : reports j [(j, b)] = [b] := by simp [reports]
        rw [hone, List.getLast?_concat]
        cases b <;> simp
      · have hnone : reports k [(j, b)] = [] := by simp [reports, hne]
        rw [hnone, List.append_nil, ← ih]
        cases b <;> simp [hne.symm]

/-- The events about each key alternate, and the keys that are there now are `s`. -/
def Narrates (events : List (κ × Bool)) (s : Finset κ) : Prop :=
  ∀ k, Alternates (decide (k ∈ s)) (reports k events)

/-- Replaying the events gives the keys that are there. -/
theorem Narrates.roster (h : Narrates events s) : Lib.roster events = s := by
  ext k
  rw [mem_roster, (h k).last, decide_eq_true_iff]

/-- Nothing was told, and nobody is there. -/
theorem Narrates.nil : Narrates [] (∅ : Finset κ) := fun _ => .nil

/-- One event that changes something. -/
theorem Narrates.turn (h : Narrates events s) {j : κ} {b : Bool} (hb : decide (j ∈ s) = !b) :
    Narrates (events ++ [(j, b)]) (if b then insert j s else s.erase j) := by
  intro k
  rw [reports_append]
  rcases eq_or_ne j k with rfl | hne
  · have hone : reports j [(j, b)] = [b] := by simp [reports]
    have hturn := (h j).turn
    rw [hb, Bool.not_not] at hturn
    rw [hone]
    cases b with
    | true => simpa using hturn
    | false => simpa using hturn
  · have hnone : reports k [(j, b)] = [] := by simp [reports, hne]
    have hsame : decide (k ∈ if b then insert j s else s.erase j) = decide (k ∈ s) := by
      cases b <;> simp [hne.symm]
    rw [hnone, List.append_nil, hsame]
    exact h k

/-- Keys that were not there come. -/
theorem Narrates.enter (h : Narrates events s) {l : List κ} (hnd : l.Nodup)
    (hnew : ∀ j ∈ l, j ∉ s) : Narrates (events ++ l.map (·, true)) (s ∪ l.toFinset) := by
  induction l generalizing events s with
  | nil => simpa using h
  | cons j l ih =>
      obtain ⟨hj, hnd⟩ := List.nodup_cons.1 hnd
      have hfirst := h.turn (b := true) (decide_eq_false (hnew j List.mem_cons_self))
      have hrest := ih hfirst hnd fun i hi hmem => by
        rcases Finset.mem_insert.1 hmem with rfl | hmem
        · exact hj hi
        · exact hnew i (List.mem_cons_of_mem _ hi) hmem
      rw [List.append_assoc] at hrest
      have hunion : insert j s ∪ l.toFinset = s ∪ (j :: l).toFinset := by
        rw [List.toFinset_cons, Finset.insert_union, Finset.union_insert]
      rwa [if_pos rfl, hunion] at hrest

/-- Keys that are there go. -/
theorem Narrates.leave (h : Narrates events s) {l : List κ} (hnd : l.Nodup)
    (hold : ∀ j ∈ l, j ∈ s) : Narrates (events ++ l.map (·, false)) (s \ l.toFinset) := by
  induction l generalizing events s with
  | nil => simpa using h
  | cons j l ih =>
      obtain ⟨hj, hnd⟩ := List.nodup_cons.1 hnd
      have hfirst := h.turn (b := false) (decide_eq_true (hold j List.mem_cons_self))
      have hrest := ih hfirst hnd fun i hi => by
        have hne : i ≠ j := fun heq => hj (heq ▸ hi)
        exact Finset.mem_erase.2 ⟨hne, hold i (List.mem_cons_of_mem _ hi)⟩
      rw [List.append_assoc] at hrest
      have hdiff : s.erase j \ l.toFinset = s \ (j :: l).toFinset := by
        ext i
        simp only [Finset.mem_sdiff, Finset.mem_erase, List.mem_toFinset, List.mem_cons, not_or]
        tauto
      rwa [if_neg Bool.false_ne_true, hdiff] at hrest

end

end Lib
