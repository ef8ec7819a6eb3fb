import Mathlib.Data.List.Lex
import Mathlib.Data.UInt
import EOSEmu.Core.Layering
import EOSEmu.Core.Platform

/-!
# The stats of the local user

`interfaces/Stats.cpp` keeps a table of the stats of every user, which outlives a platform.
`Platform::Configure` fills it from `[Stats]` of the configuration, whose keys are in lower case,
while the table tells the case of its names.
-/

namespace EOSEmu

open Lib

/-- `g_Stats`: the stats of every product user. -/
abbrev StatTable := Dict ProductUserId (Dict Bytes Int)

/-- `A += B` on `int32_t`; none where it overflows, which is undefined. -/
def addInt32 (a b : Int) : Option Int := if -(2 ^ 31) ≤ a + b ∧
    a + b < 2 ^ 31 then some (a + b) else none

/-- What `EOS_Stats_Stat` says: the name as a C string, and the value. -/
structure Stat where
  name : Bytes
  value : Int
  deriving DecidableEq, Repr

/-- `EOS_Stats_IngestStatOptions`, with the strings behind the pointers; null pointers are
`none`. -/
structure IngestStatOptions where
  localUserId : ProductUserId := []
  targetUserId : ProductUserId := []
  stats : Option (List (Option Bytes × Int)) := none

namespace StatTable
variable (g : StatTable)

/-- The stats of a user. -/
def user (productId : ProductUserId) : Dict Bytes Int := (g.get? productId).getD .empty

/-- The value of a stat of a user. -/
def value? (productId : ProductUserId) (name : Bytes) : Option Int := (g.user productId).get? name

/-- `SeedStat`. -/
def seedStat (productId : ProductUserId) (name : Bytes) (value : Int) : StatTable :=
  if productId.isEmpty || name.isEmpty then g else g.set productId
    ((g.user productId).set name value)

/-- One round of the loop of `EOS_Stats_IngestStat`. -/
def ingestOne (table : Dict Bytes Int) (stat : Option Bytes × Int) : Option (Dict Bytes Int) :=
  match stat.1 with
  | none => some table
  | some name => (addInt32 ((table.get? name).getD 0) stat.2).map fun sum => table.set name sum

/-- `EOS_Stats_IngestStat`: what it reports, and the table. -/
def ingestStat (options : Option IngestStatOptions) : Option (EResult × StatTable) :=
  match options with
  | none => some (.invalidParameters, g)
  | some o =>
      let target := if o.targetUserId ≠ [] then o.targetUserId else o.localUserId
      if target = [] then some (.invalidParameters, g)
      else ((o.stats.getD []).foldlM ingestOne (g.user target)).map fun table =>
        (.success, g.set target table)

/-- `EOS_Stats_QueryStats`: what it reports, with the local and the target user. It does not touch
the table. -/
def queryStats (options : Option (ProductUserId × ProductUserId)) :
    EResult × ProductUserId × ProductUserId :=
  match options with
  | none => (.success, [], [])
  | some (localUserId, targetUserId) =>
    (.success, localUserId, if targetUserId ≠ [] then targetUserId else localUserId)

/-- `EOS_Stats_GetStatsCount`. -/
def getStatsCount (targetUserId : ProductUserId) : UInt32 :=
  if targetUserId = [] then 0 else UInt32.ofNat (g.user targetUserId).entries.length

/-- `MakeStat`. -/
def makeStat (name : Bytes) (value : Int) : Stat := ⟨name.takeWhile (· ≠ 0), value⟩

/-- The stats of a user in the order of a `std::map`. -/
def inOrder (table : Dict Bytes Int) : List (Bytes × Int) :=
  table.entries.mergeSort fun a b => decide (a.1 ≤ b.1)

/-- `EOS_Stats_CopyStatByIndex`. -/
def copyStatByIndex (targetUserId : ProductUserId) (statIndex : ℕ) : Except EResult Stat :=
  if targetUserId = [] then .error .invalidParameters
  else match (inOrder (g.user targetUserId))[statIndex]? with
    | none => .error .notFound
    | some (name, value) => .ok (makeStat name value)

/-- `EOS_Stats_CopyStatByName`. -/
def copyStatByName (targetUserId : ProductUserId) (name : Option Bytes) : Except EResult Stat :=
  match name with
  | none => .error .invalidParameters
  | some name =>
      if targetUserId = [] then .error .invalidParameters
      else match g.value? targetUserId name with
        | none => .error .notFound
        | some value => .ok (makeStat name value)

/-- What `Platform::Configure` does with `[Stats]`. -/
def configureStats (identity : Identity) (config : IniConfig) : StatTable :=
  (config.getSectionKeys (str "Stats")).foldl
    (fun g name => g.seedStat identity.productUserId name (config.getInt (str "Stats") name 0)) g

/-! ## What they do to one stat -/

variable {g}

@[simp] theorem user_set (productId other : ProductUserId) (table : Dict Bytes Int) :
    user (g.set productId table) other = if other = productId then table else g.user other := by
  unfold user
  rw [Dict.get?_set]
  split <;> rfl

/-- Seeding changes one stat. -/
theorem value?_seedStat {productId : ProductUserId} {name : Bytes} (hid : productId ≠ [])
    (hname : name ≠ []) (value : Int) (other : Bytes) :
    (g.seedStat productId name value).value? productId other =
      if other = name then some value else g.value? productId other := by
  have hseed : ¬ (productId.isEmpty || name.isEmpty) = true := by simp [hid, hname]
  rw [seedStat, if_neg hseed, value?, user_set, if_pos rfl, Dict.get?_set]
  rfl

/-- Seeding a list of stats: those of the list get their values, the others keep theirs. -/
theorem value?_foldl_seedStat {productId : ProductUserId} (hid : productId ≠ [])
    (value : Bytes → Int) {names : List Bytes} (hnames : ∀ name ∈ names, name ≠ [])
    (g : StatTable) (other : Bytes) :
    (names.foldl (fun g name => seedStat g productId name (value name)) g).value? productId other =
      if other ∈ names then some (value other) else g.value? productId other := by
  induction names generalizing g with
  | nil => simp
  | cons name names ih =>
      rw [List.foldl_cons, ih (fun n hn => hnames n (List.mem_cons_of_mem _ hn)),
        value?_seedStat hid (hnames name List.mem_cons_self)]
      by_cases hmem : other ∈ names
      · simp [hmem]
      · by_cases heq : other = name
        · subst heq
          simp [hmem]
        · simp [hmem, heq]

/-- The stats of a user after a call that adds to one of them. -/
theorem ingestStat_one {o : IngestStatOptions} {productId : ProductUserId} {name : Bytes}
    {amount : Int} (hid : productId ≠ [])
    (htarget : (if o.targetUserId ≠ [] then o.targetUserId else o.localUserId) = productId)
    (hstats : o.stats = some [(some name, amount)]) :
    g.ingestStat (some o) = (addInt32 ((g.value? productId name).getD 0) amount).map fun sum =>
      (.success, g.set productId ((g.user productId).set name sum)) := by
  have hone : ([(some name, amount)] : List (Option Bytes × Int)).foldlM ingestOne
    (g.user productId) =
      (addInt32 ((g.value? productId name).getD 0) amount).map fun sum =>
        (g.user productId).set name sum := by
    rw [List.foldlM_cons]
    exact Option.bind_fun_some _
  simp only [ingestStat, htarget, if_neg hid, hstats, Option.getD_some, hone, Option.map_map]
  rfl

/-! ## Seeded stats -/

/-- A stat is found under a name with a value, and what is ingested under the name is added to
it. -/
structure FoundAs (g : StatTable) (productId : ProductUserId) (name : Bytes) (value : Int) :
    Prop where
  queried : (queryStats (some (productId, []))).1 = .success
  copied : ∃ stat, g.copyStatByName productId (some name) = .ok stat ∧ stat.value = value
  ingested : ∀ (o : IngestStatOptions) (amount : Int), o.stats = some [(some name, amount)] →
    (if o.targetUserId ≠ [] then o.targetUserId else o.localUserId) = productId →
    -(2 ^ 31) ≤ value + amount ∧ value + amount < 2 ^ 31 →
    ∃ g', g.ingestStat (some o) = some (.success, g') ∧
      g'.getStatsCount productId = g.getStatsCount productId ∧
      ∃ stat, g'.copyStatByName productId (some name) = .ok stat ∧ stat.value = value + amount

/-- A stat is found under a name exactly if the table holds it there. -/
theorem foundAs_iff {productId : ProductUserId} (hid : productId ≠ []) {name : Bytes}
    {value : Int} : g.FoundAs productId name value ↔ g.value? productId name = some value := by
  constructor
  · rintro ⟨_, ⟨stat, hcopy, hvalue⟩, _⟩
    simp only [copyStatByName, if_neg hid] at hcopy
    cases hget : g.value? productId name with
    | none => simp [hget] at hcopy
    | some v =>
        rw [hget] at hcopy
        cases hcopy
        exact congrArg some hvalue
  · intro hget
    refine ⟨rfl, ⟨makeStat name value, by simp only [copyStatByName, if_neg hid, hget], rfl⟩, ?_⟩
    intro o amount hstats htarget hfits
    have hsum : addInt32 ((g.value? productId name).getD 0) amount = some (value + amount) := by
      rw [hget, Option.getD_some, addInt32, if_pos hfits]
    have hmem : name ∈ (g.user productId).entries.map Prod.fst :=
      List.mem_map.2 ⟨_, Dict.mem_entries.2 hget, rfl⟩
    refine ⟨g.set productId ((g.user productId).set name (value + amount)), ?_, ?_,
      makeStat name (value + amount), ?_, rfl⟩
    · rw [ingestStat_one hid htarget hstats, hsum]
      rfl
    · rw [getStatsCount, getStatsCount, user_set, if_pos rfl, Dict.set, dif_pos hmem,
        List.length_map]
    · have hafter : value? (g.set productId ((g.user productId).set name (value + amount)))
        productId name = some (value + amount) := by
        rw [value?, user_set, if_pos rfl, Dict.get?_set, if_pos rfl]
      simp only [copyStatByName, if_neg hid, hafter]

/-- What the configuration does to one stat of the local user: a key of `[Stats]` gets its integer,
and every other stat keeps what the table held. -/
theorem value?_configureStats (g : StatTable) (identity : Identity) {config : IniConfig}
    (hkeys : ∀ key ∈ config.getSectionKeys (str "Stats"), key ≠ []) (name : Bytes) :
    (g.configureStats identity config).value? identity.productUserId name =
      if name ∈ config.getSectionKeys (str "Stats") then some (config.getInt (str "Stats") name 0)
      else g.value? identity.productUserId name :=
  value?_foldl_seedStat identity.productUserId_ne (fun name => config.getInt (str "Stats") name 0)
    hkeys g name

/-- A stat that the configuration gives an integer is found under a name that spells its key
exactly if the name is in lower case, or the table held the same value under the name before. -/
theorem seeded_stat_found_iff (g : StatTable) (identity : Identity) (canonicalPath : Bytes → Bytes)
    (files : Bytes → Option Bytes) (calls : List (Bytes × IniConfig.Source)) (name : Bytes)
      (value : Int)
    (hint : IniConfig.stoi ((IniConfig.loadAll canonicalPath files calls {}).getString
      (str "Stats") name []) = some value) :
    (g.configureStats identity (.loadAll canonicalPath files calls {})).FoundAs
      identity.productUserId name value ↔
      IniConfig.lower name = name ∨ g.value? identity.productUserId name = some value := by
  have hraw : (IniConfig.loadAll canonicalPath files calls {}).getString (str "Stats") name [] ≠
    [] := by
    intro hempty
    rw [hempty] at hint
    cases hint
  have hmem := IniConfig.mem_getSectionKeys hraw
  rw [foundAs_iff identity.productUserId_ne, value?_configureStats g identity fun key hkey =>
    (IniConfig.of_mem_getSectionKeys hkey).2]
  by_cases hlower : IniConfig.lower name = name
  · have hvalue : (IniConfig.loadAll canonicalPath files calls {}).getInt (str "Stats") name 0 =
      value := by
      rw [IniConfig.getInt, if_neg (by simpa using hraw), hint]
      rfl
    rw [hlower] at hmem
    simp [hlower, hmem, hvalue]
  · have hno : name ∉ (IniConfig.loadAll canonicalPath files calls {}).getSectionKeys
      (str "Stats") := fun hkey =>
      hlower (IniConfig.of_mem_getSectionKeys hkey).1
    simp [hlower, hno]

/-- A file that gives two stats an integer. -/
def sampleIni : Bytes := str "[Stats]\nkills = 7\nDeaths = 3\n"

/-- It is the file at every path. -/
def sampleFiles (_ : Bytes) : Option Bytes := some sampleIni

/-- A stat of the configuration is found under the name in the file. -/
theorem seeded_stat_found_sample :
    (configureStats .empty sampleIdentity
      (.loadAll id sampleFiles [(str "eosemu.ini", .env)] {})).FoundAs
      sampleIdentity.productUserId (str "kills") 7 :=
  (seeded_stat_found_iff .empty sampleIdentity id sampleFiles [(str "eosemu.ini", .env)]
    (str "kills") 7 (by decide +kernel)).2 (.inl (by decide))

/-- The other stat of the file, which is written with a capital, is not found. -/
theorem not_seeded_stat_found :
    IniConfig.stoi ((IniConfig.loadAll id sampleFiles [(str "eosemu.ini", .env)] {}).getString
      (str "Stats") (str "Deaths") []) = some 3 ∧
    ¬ (configureStats .empty sampleIdentity
      (.loadAll id sampleFiles [(str "eosemu.ini", .env)] {})).FoundAs
      sampleIdentity.productUserId (str "Deaths") 3 := by
  refine ⟨by decide +kernel, ?_⟩
  rw [foundAs_iff sampleIdentity.productUserId_ne]
  decide +kernel

end StatTable

end EOSEmu
