import EOSEmu.Lib.Ledger
import EOSEmu.Interfaces.Stats

/-!
# Runs of seedings and ingests

The stats of all users are one ledger with an account for every user and name: `SeedStat` resets an
account and `EOS_Stats_IngestStat` adds to it, with 32-bit sums. A run is defined as long as no sum
leaves their range, and then the table holds the exact totals (`stats_exact_iff`).
-/

namespace EOSEmu

open Lib

/-- A call that changes the stats. -/
inductive StatEvent where
  | seed (productId : ProductUserId) (name : Bytes) (value : Int)
  | ingest (options : Option IngestStatOptions)

/-- A sum that `int32_t` holds. -/
def FitsInt32 (n : Int) : Prop := -(2 ^ 31) ≤ n ∧ n < 2 ^ 31

instance : DecidablePred FitsInt32 := fun _ => inferInstanceAs (Decidable (_ ∧ _))

/-- The user an ingest is for. -/
def IngestStatOptions.target (o : IngestStatOptions) : ProductUserId :=
  if o.targetUserId ≠ [] then o.targetUserId else o.localUserId

/-- A stat of a user, as an account. -/
abbrev StatAccount := ProductUserId × Bytes

/-- The amount of one array element, booked for a user; without a name there is none. -/
def bookedFor (productId : ProductUserId) (stat : Option Bytes × Int) :
    Option (LedgerEntry StatAccount Int) :=
  stat.1.map fun name => .add (productId, name) stat.2

/-- What a call books. Nothing is seeded for a null user or under an empty name, and nothing
ingested for a null user. -/
def StatEvent.entries : StatEvent → List (LedgerEntry StatAccount Int)
  | .seed productId name value => if productId.isEmpty ||
    name.isEmpty then [] else [.reset (productId, name) value]
  | .ingest none => []
  | .ingest (some o) => if o.target = [] then [] else (o.stats.getD []).filterMap
    (bookedFor o.target)

namespace StatTable
variable {g g' : StatTable}

/-- One call; none where a sum overflows. -/
def step (g : StatTable) : StatEvent → Option StatTable
  | .seed productId name value => some (g.seedStat productId name value)
  | .ingest options => (g.ingestStat options).map Prod.snd

/-- A run of the process, whose table is empty at first. -/
def run (events : List StatEvent) : Option StatTable := events.foldlM step .empty

/-! ## The table is a ledger -/

/-- The values of all stats. -/
def ledger (g : StatTable) : Ledger StatAccount Int := fun s => g.value? s.1 s.2

@[simp] theorem ledger_set (productId : ProductUserId) (table : Dict Bytes Int) (s : StatAccount) :
    ledger (g.set productId table) s = if s.1 = productId then table.get? s.2 else g.ledger s := by
  rw [ledger, value?, user_set]
  split <;> rfl

/-- A stat set in the table of a user. -/
theorem ledger_set_set (productId : ProductUserId) (table : Dict Bytes Int) (name : Bytes)
    (value : Int) : ledger (g.set productId (table.set name value)) =
      Function.update (ledger (g.set productId table)) (productId, name) (some value) := by
  funext ⟨id, n⟩
  by_cases hid : id = productId
  · subst hid
    by_cases hn : n = name
    · subst hn
      simp
    · simp [hn, Function.update_of_ne]
  · simp [hid, Function.update_of_ne]

/-- Storing what is there changes nothing. -/
theorem ledger_set_user (productId : ProductUserId) :
    ledger (g.set productId (g.user productId)) = g.ledger := by
  funext s
  rw [ledger_set]
  split
  · next h =>
      rw [← h]
      rfl
  · rfl

/-- An addition of 32 bits gives the sum, or is undefined. -/
theorem addInt32_eq (a b : Int) : addInt32 a b = if FitsInt32 (a + b) then some
    (a + b) else none := rfl

/-- A named amount is added to its stat, unless the sum overflows. -/
theorem ingestOne_some (table : Dict Bytes Int) (name : Bytes) (amount : Int) :
    ingestOne table (some name, amount) =
    if FitsInt32 ((table.get? name).getD 0 + amount) then some
      (table.set name ((table.get? name).getD 0 + amount))
    else none := by
  rw [ingestOne]
  dsimp only
  rw [addInt32_eq]
  split <;> rfl

/-- A call with a target ingests its amounts in order. -/
theorem ingestStat_some (o : IngestStatOptions) : g.ingestStat (some o) =
    if o.target = [] then some (.invalidParameters, g)
    else ((o.stats.getD []).foldlM ingestOne (g.user o.target)).map fun table =>
      (.success, g.set o.target table) := rfl

/-- The loop of `EOS_Stats_IngestStat` books the amounts. -/
theorem ledger_ingestOne (productId : ProductUserId) (stats : List (Option Bytes × Int))
    (table : Dict Bytes Int) :
    (stats.foldlM ingestOne table).map (fun table => ledger (g.set productId table)) =
      (stats.filterMap (bookedFor productId)).foldlM (Ledger.post FitsInt32)
        (ledger (g.set productId table)) := by
  induction stats generalizing table with
  | nil => rfl
  | cons stat stats ih =>
      obtain ⟨name, amount⟩ := stat
      cases name with
      | none => exact ih table
      | some name =>
          have hget : ledger (g.set productId table) (productId, name) = table.get? name := by simp
          have hbooked : bookedFor productId (some name, amount) =
            some (.add (productId, name) amount) := rfl
          rw [List.foldlM_cons, List.filterMap_cons_some hbooked, List.foldlM_cons,
            Option.bind_eq_bind, Option.bind_eq_bind, Ledger.post, hget, ingestOne_some]
          by_cases hfits : FitsInt32 ((table.get? name).getD 0 + amount)
          · rw [if_pos hfits, if_pos hfits, Option.bind_some, Option.bind_some, ih, ledger_set_set]
          · rw [if_neg hfits, if_neg hfits]
            rfl

/-- A call books its entries. -/
theorem ledger_step (event : StatEvent) :
    (g.step event).map ledger = event.entries.foldlM (Ledger.post FitsInt32) g.ledger := by
  cases event with
  | seed productId name value =>
      rw [step, seedStat, StatEvent.entries]
      split
      · rfl
      · rw [Option.map_some, ledger_set_set, ledger_set_user]
        rfl
  | ingest options =>
      cases options with
      | none => rfl
      | some o =>
          rw [StatEvent.entries, step, ingestStat_some]
          split
          · rfl
          · rw [Option.map_map, Option.map_map, ← ledger_set_user o.target, ← ledger_ingestOne]
            rfl

/-- So does a run. -/
theorem ledger_foldlM (events : List StatEvent) (g : StatTable) :
    (events.foldlM step g).map ledger = (events.flatMap (·.entries)).foldlM
      (Ledger.post FitsInt32) g.ledger := by
  induction events generalizing g with
  | nil => rfl
  | cons event events ih =>
      rw [List.foldlM_cons, List.flatMap_cons, List.foldlM_append, ← ledger_step,
        Option.bind_eq_bind, Option.bind_eq_bind]
      cases g.step event with
      | none => rfl
      | some g' => exact ih g'

/-! ## What the game is told -/

/-- `EOS_Stats_CopyStatByName` and `EOS_Stats_CopyStatByIndex` report these values, the second one
in ascending order of the names. -/
structure Reports (g : StatTable) (values : StatAccount → Option Int) : Prop where
  byName : ∀ productId name, productId ≠ [] → g.copyStatByName productId (some name) =
    match values (productId, name) with
    | none => .error .notFound
    | some value => .ok (makeStat name value)
  byIndex : ∀ productId, productId ≠ [] → ∃ names : List Bytes, names.Pairwise (· < ·) ∧
    (∀ name, name ∈ names ↔ (values (productId, name)).isSome = true) ∧
    ∀ i, g.copyStatByIndex productId i =
      match names[i]? with
      | none => .error .notFound
      | some name => .ok (makeStat name ((values (productId, name)).getD 0))

/-- Sorting the stats keeps them. -/
theorem inOrder_perm (table : Dict Bytes Int) : (inOrder table).Perm table.entries :=
  List.mergeSort_perm _ _

/-- The names come in ascending order. -/
theorem pairwise_inOrder (table : Dict Bytes Int) :
    ((inOrder table).map Prod.fst).Pairwise (· < ·) := by
  have hsorted : (inOrder table).Pairwise fun a b => decide (a.1 ≤ b.1) = true := by
    refine List.pairwise_mergeSort (fun a b c hab hbc => ?_) (fun a b => ?_) _
    · simp only [decide_eq_true_eq] at hab hbc ⊢
      exact List.le_trans hab hbc
    · simp only [Bool.or_eq_true, decide_eq_true_eq]
      exact List.le_total a.1 b.1
  have hnodup : ((inOrder table).map Prod.fst).Nodup :=
    ((inOrder_perm table).map Prod.fst).nodup_iff.2 table.nodup
  rw [List.pairwise_map]
  refine (hsorted.and (List.pairwise_map.1 hnodup)).imp ?_
  rintro a b ⟨hle, hne⟩
  exact (List.le_iff_lt_or_eq.1 (of_decide_eq_true hle)).resolve_right hne

/-- The table reports its own values. -/
theorem reports_ledger (g : StatTable) : g.Reports g.ledger where
  byName productId name hid := by
    rw [copyStatByName, if_neg hid]
    rfl
  byIndex productId hid := by
    refine ⟨_, pairwise_inOrder (g.user productId), fun name => ?_, fun i => ?_⟩
    · rw [((inOrder_perm _).map Prod.fst).mem_iff, Option.isSome_iff_exists, List.mem_map]
      constructor
      · rintro ⟨⟨_, value⟩, he, rfl⟩
        exact ⟨value, Dict.mem_entries.1 he⟩
      · rintro ⟨value, hvalue⟩
        exact ⟨(name, value), Dict.mem_entries.2 hvalue, rfl⟩
    · rw [copyStatByIndex, if_neg hid, List.getElem?_map]
      cases hi : (inOrder (g.user productId))[i]? with
      | none => rfl
      | some e =>
          have hmem : e ∈ (g.user productId).entries :=
            (inOrder_perm _).mem_iff.1 (List.mem_of_getElem? hi)
          have hvalue : g.ledger (productId, e.1) = some e.2 := Dict.mem_entries.1 hmem
          simp only [Option.map_some, hvalue, Option.getD_some]

/-- An ingest leaves all reports about other stats alone. -/
def IngestsApart (g : StatTable) : Prop :=
  ∀ options result g', g.ingestStat options = some (result, g') → ∀ productId name,
    (∀ e ∈ (StatEvent.ingest options).entries, e.account ≠ (productId, name)) →
    g'.copyStatByName productId (some name) = g.copyStatByName productId (some name)

/-- Every table ingests so. -/
theorem ingestsApart (g : StatTable) : g.IngestsApart := by
  intro options result g' hingest productId name hother
  have hbooked : (StatEvent.ingest options).entries.foldlM (Ledger.post FitsInt32) g.ledger =
    some g'.ledger := by
    rw [← ledger_step, step, hingest]
    rfl
  have hsame : g'.ledger (productId, name) = g.ledger (productId, name) :=
    Ledger.foldlM_post_of_ne hbooked hother
  change g'.value? productId name = g.value? productId name at hsame
  rw [copyStatByName, copyStatByName, hsame]

/-! ## Runs -/

/-- After the run every stat is reported with the exact sum of its last seed, zero without one, and
the amounts ingested since, and an ingest changes the stats only that it names. -/
def ExactAfter (events : List StatEvent) : Prop :=
  ∃ g, run events = some g ∧ (g.Reports fun s => Ledger.balance s (events.flatMap (·.entries))) ∧
    g.IngestsApart

/-- At no ingested amount the sum leaves the range of `int32_t`. -/
def NoOverflow (events : List StatEvent) : Prop :=
  Ledger.Admissible FitsInt32 (events.flatMap (·.entries))

/-- **Stat arithmetic**: the stats are the exact sums, each of its own, exactly in the runs in
which no sum overflows. -/
theorem stats_exact_iff (events : List StatEvent) : ExactAfter events ↔ NoOverflow events := by
  have hledger := ledger_foldlM events .empty
  have hempty : ledger (Dict.empty : StatTable) = fun _ => none := rfl
  rw [hempty] at hledger
  constructor
  · rintro ⟨g, hrun, _⟩
    rw [show events.foldlM step Dict.empty = some g from hrun] at hledger
    exact ((Ledger.foldlM_post _).1 hledger.symm).1
  · intro hok
    rw [(Ledger.foldlM_post _).2 ⟨hok, rfl⟩] at hledger
    obtain ⟨g, hrun, hg⟩ := Option.map_eq_some_iff.1 hledger
    refine ⟨g, hrun, ?_, ingestsApart g⟩
    rw [← hg]
    exact reports_ledger g

/-- Two amounts of one stat whose sum is beyond `int32_t`. -/
def overflowingRun : List StatEvent :=
  [.ingest (some { localUserId := str "a", stats := some [(some (str "kills"), 2 ^ 31 - 1)] }),
    .ingest (some { localUserId := str "a", stats := some [(some (str "kills"), 1)] })]

/-- Two amounts in range whose sum is not. -/
theorem not_stats_exact : FitsInt32 (2 ^ 31 - 1) ∧ FitsInt32 1 ∧ ¬ ExactAfter overflowingRun := by
  refine ⟨by decide, by decide, ?_⟩
  rintro ⟨g, hrun, _⟩
  have hnone : (run overflowingRun).isNone = true := by decide +kernel
  rw [hrun] at hnone
  cases hnone

end StatTable

end EOSEmu
