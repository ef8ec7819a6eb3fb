import Mathlib.Data.List.ReduceOption
import EOSEmu.Core.Platform

/-!
# The presence that peers see

`SetPresence` stores into the interface and pushes everything to the announced copy, while
`Configure` seeds the announced copy only. `presence_replicated` says for which starting presences
and calls the two agree.
-/

namespace EOSEmu

open Lib

/-- What `SetPresence` pushes to the platform. -/
def LocalPresence.announced (p : LocalPresence) : LocalPresenceState :=
  { status := enumToByte p.localStatus
    richText := p.localRichText
    joinInfo := p.localJoinInfo
    data := p.records }

/-- What `GetJoinInfo` returns for a join info in a buffer of its size. -/
def gotJoinInfo (join : Bytes) : EResult × Option Int × Option Bytes :=
  if join.isEmpty then (.notFound, some (join.length + 1), none)
    else (.success, some (join.length + 1), some join)

namespace Platform

/-- A peer decodes from the Hello what `CopyPresence` and `GetJoinInfo` return to the local
user. -/
def SeenAsLocal (p : Platform) : Prop :=
  ∃ o info, (onHello ⟨helloPayload p.helloSource, 0, true⟩).1 = some o ∧
    p.copyPresence p.identity.epicAccountId = (.success, some info) ∧
    enumOfByte o.presence.status = info.status ∧ o.presence.richText = info.richText ∧
    o.presence.data = info.records ∧
    p.getJoinInfo p.identity.epicAccountId true (some (o.presence.joinInfo.length + 1)) =
      gotJoinInfo o.presence.joinInfo

/-- `SetPresence` leaves the announced value of every field alone that the modification does not
touch. -/
structure KeepsUntouched (p : Platform) (m : PresenceModificationObj) : Prop where
  status : m.bSetStatus = false → (p.setPresence (some m)).announced.status = p.announced.status
  richText : m.bSetRichText = false → (p.setPresence (some m)).announced.richText =
    p.announced.richText
  joinInfo : m.bSetJoinInfo = false → (p.setPresence (some m)).announced.joinInfo =
    p.announced.joinInfo
  data : m.setData = [] → m.deleteData = [] → (p.setPresence (some m)).announced.data =
    p.announced.data

/-- A sequence of `SetPresence` calls. -/
def setPresences (p : Platform) (calls : List PresenceModificationObj) : Platform :=
  calls.foldl (fun p m => p.setPresence (some m)) p

/-- The announced copy is the interface's. -/
def Synced (p : Platform) : Prop := p.announced = p.presence.announced

variable {p : Platform}

@[simp] theorem setPresence_presence (m : PresenceModificationObj) :
    (p.setPresence (some m)).presence = p.presence.setPresence m := rfl

@[simp] theorem setPresence_announced (m : PresenceModificationObj) :
    (p.setPresence (some m)).announced = (p.presence.setPresence m).announced := rfl

/-- A null handle changes nothing. -/
theorem foldl_setPresence (calls : List (Option PresenceModificationObj)) :
    calls.foldl setPresence p = p.setPresences calls.reduceOption := by
  induction calls generalizing p with
  | nil => rfl
  | cons m calls ih =>
      cases m with
      | none => simpa [setPresence, List.reduceOption_cons_of_none] using ih
      | some m => simpa [setPresences, List.reduceOption_cons_of_some] using ih

/-- Calls after calls. -/
theorem setPresences_append (p : Platform) (before after : List PresenceModificationObj) :
    p.setPresences (before ++ after) = (p.setPresences before).setPresences after :=
      List.foldl_append

/-- Every call leaves the copies equal. -/
theorem synced_setPresence (p : Platform) (m : PresenceModificationObj) :
    (p.setPresence (some m)).Synced := rfl

/-- After one call or more they are equal. -/
theorem synced_setPresences {calls : List PresenceModificationObj} (hne : calls ≠ []) :
    (p.setPresences calls).Synced := by
  obtain ⟨before, m, rfl⟩ := List.eq_nil_or_concat calls |>.resolve_left hne
  rw [List.concat_eq_append, setPresences_append]
  exact synced_setPresence _ m

/-- Calls that started with equal copies keep what they do not touch. -/
theorem Synced.keepsUntouched (h : p.Synced) (m : PresenceModificationObj) :
    p.KeepsUntouched m where
  status hm := by rw [h]; simp [LocalPresence.announced, LocalPresence.setPresence, hm]
  richText hm := by rw [h]; simp [LocalPresence.announced, LocalPresence.setPresence, hm]
  joinInfo hm := by rw [h]; simp [LocalPresence.announced, LocalPresence.setPresence, hm]
  data hset hdelete := by
    rw [h]
    simp [LocalPresence.announced, LocalPresence.setPresence, LocalPresence.records, hset, hdelete]

/-- What the local user reads is the interface's copy. -/
theorem copyPresence_local (p : Platform) :
    ∃ info, p.copyPresence p.identity.epicAccountId = (.success, some info) ∧
    info.status = p.presence.localStatus ∧ info.richText = p.presence.localRichText ∧
    info.records = p.presence.records := by
  have hne : p.identity.epicAccountId.isEmpty = false := by simp [p.identity.epicAccountId_ne]
  exact ⟨_, by simp only [copyPresence, hne]; rfl, rfl, rfl, rfl⟩

/-- `GetJoinInfo` on a buffer of the size of a string returns that string exactly if it is the
local join info. -/
theorem getJoinInfo_local (p : Platform) (join : Bytes) :
    p.getJoinInfo p.identity.epicAccountId true (some (join.length + 1)) = gotJoinInfo join ↔
      join = p.presence.localJoinInfo := by
  simp only [getJoinInfo, gotJoinInfo, joinInfoOf, if_true]
  generalize p.presence.localJoinInfo = mine
  constructor
  · intro h
    cases mine with
    | nil => cases join with
      | nil => rfl
      | cons _ _ => simp at h
    | cons b mine =>
        split at h
        · next hnil => simp at hnil
        · split at h
          · split at h <;> simp at h
          · split at h
            · simp at h
            · have hjoin := congrArg (fun r => r.2.2) h
              simpa using hjoin.symm
  · rintro rfl
    cases join <;> simp

/-- The copies of a platform whose Hello is read whole. -/
theorem seenAsLocal_iff (hfits : fits (helloPayload p.helloSource) = true) : p.SeenAsLocal ↔
    enumOfByte p.announced.status = p.presence.localStatus ∧
    p.announced.richText = p.presence.localRichText ∧
    p.announced.data = p.presence.records ∧ p.announced.joinInfo = p.presence.localJoinInfo := by
  have hobserved := (hello_observed p.helloSource hfits).1
  obtain ⟨info, hcopy, hstatus, hrich, hrecords⟩ := p.copyPresence_local
  have hjoin := p.getJoinInfo_local p.announced.joinInfo
  constructor
  · rintro ⟨o, info', ho, hinfo, h1, h2, h3, h4⟩
    rw [hobserved] at ho
    rw [hcopy] at hinfo
    cases ho
    cases hinfo
    exact ⟨h1.trans hstatus, h2.trans hrich, h3.trans hrecords, hjoin.1 h4⟩
  · rintro ⟨h1, h2, h3, h4⟩
    exact ⟨_, info, hobserved, hcopy, h1.trans hstatus.symm, h2.trans hrich.symm,
      h3.trans hrecords.symm, hjoin.2 h4⟩

/-- Equal copies are seen alike exactly if the status fits in the byte that carries it. -/
theorem Synced.seenAsLocal_iff (h : p.Synced) (hfits : fits (helloPayload p.helloSource) = true) :
    p.SeenAsLocal ↔ EnumFits p.presence.localStatus := by
  rw [Platform.seenAsLocal_iff hfits, show p.announced = p.presence.announced from h]
  simp only [LocalPresence.announced, and_self, and_true]
  exact enumOfByte_toByte_iff

/-- A platform right after its configuration announces the starting presence and nothing else. -/
theorem create_eq_some {library : Library} {identity : Identity} {config : Config}
    {options : Option PlatformOptions} {port : Option UInt16} {now : TimePoint}
    (h : create library identity config options port now = some p) :
    p.presence = {} ∧ p.announced = { richText := config.presence } := by
  obtain ⟨_, h⟩ := Option.ite_none_left_eq_some.1 h
  obtain ⟨o, _, rfl⟩ := Option.map_eq_some_iff.1 h
  refine ⟨rfl, ?_⟩
  simp only [configure]
  split
  · next hempty => rw [List.isEmpty_iff.1 hempty]
  · rfl

/-- The status after a sequence of calls. -/
theorem setPresences_localStatus (p : Platform) (calls : List PresenceModificationObj) :
    (p.setPresences calls).presence.localStatus =
      calls.foldl (fun status m => if m.bSetStatus then m.status else status)
        p.presence.localStatus := by
  induction calls generalizing p with
  | nil => rfl
  | cons m calls ih => exact ih (p.setPresence (some m))

/-- The first call keeps what it does not touch exactly if it sets the rich text or finds no
starting presence. -/
theorem keepsUntouched_first (hpresence : p.presence = {}) {richText : Bytes}
    (hannounced : p.announced = { richText }) (m : PresenceModificationObj) :
    p.KeepsUntouched m ↔ richText = [] ∨ m.bSetRichText := by
  have hrecords : LocalPresence.records {} = [] := by simp [LocalPresence.records]
  constructor
  · intro h
    by_cases hset : m.bSetRichText = true
    · exact Or.inr hset
    · have hrich := h.richText (by simpa using hset)
      simp only [setPresence_announced, hpresence, hannounced, LocalPresence.announced,
        LocalPresence.setPresence] at hrich
      exact Or.inl (by simpa [hset] using hrich.symm)
  · rintro (rfl | hset)
    · have hsynced : p.Synced := by
        rw [Synced, hpresence, hannounced, LocalPresence.announced, hrecords]
        rfl
      exact hsynced.keepsUntouched m
    · refine ⟨fun hm => ?_, fun hm => ?_, fun hm => ?_, fun hs hd => ?_⟩
      · simp [hpresence, hannounced, LocalPresence.announced, LocalPresence.setPresence, hm,
        statusOnline, enumToByte]
      · rw [hset] at hm
        cases hm
      · simp [hpresence, hannounced, LocalPresence.announced, LocalPresence.setPresence, hm]
      · simp [hpresence, hannounced, LocalPresence.announced, LocalPresence.setPresence,
          LocalPresence.records, hs, hd]

end Platform

/-- The status that a sequence of modifications ends with. -/
def lastStatus (calls : List PresenceModificationObj) : SdkInt :=
  calls.foldl (fun status m => if m.bSetStatus then m.status else status) statusOnline

/-- **Presence replication.** For every starting presence and every sequence of `SetPresence` calls
whose Hello fits into a datagram, a peer decodes what the local user reads and no call changes the
announced value of a field it does not touch exactly if there is no starting presence or the first
call sets the rich text, and the last status set fits in a byte. -/
theorem presence_replicated {library : Library} {identity : Identity} {config : Config}
    {options : Option PlatformOptions} {port : Option UInt16} {now : TimePoint} {p : Platform}
    (hcreate : Platform.create library identity config options port now = some p)
    (calls : List (Option PresenceModificationObj))
    (hfits : fits (helloPayload (calls.foldl Platform.setPresence p).helloSource) = true) :
    ((calls.foldl Platform.setPresence p).SeenAsLocal ∧
      ∀ before m after, calls.reduceOption = before ++ m :: after →
      (p.setPresences before).KeepsUntouched m) ↔
    (config.presence = [] ∨ ∃ m, calls.reduceOption.head? = some m ∧ m.bSetRichText) ∧
      EnumFits (lastStatus calls.reduceOption) := by
  obtain ⟨hpresence, hannounced⟩ := Platform.create_eq_some hcreate
  rw [Platform.foldl_setPresence] at hfits ⊢
  generalize calls.reduceOption = mods at hfits ⊢
  have hstatus : (p.setPresences mods).presence.localStatus = lastStatus mods := by
    rw [Platform.setPresences_localStatus, hpresence]
    rfl
  cases mods with
  | nil =>
      have hseen : p.SeenAsLocal ↔ config.presence = [] := by
        rw [Platform.seenAsLocal_iff (p := p) hfits, hpresence, hannounced]
        simp [LocalPresence.records, enumOfByte, statusOnline]
      simp [Platform.setPresences, hseen, lastStatus, statusOnline, EnumFits]
  | cons m mods =>
      have hsynced := Platform.synced_setPresences (p := p) (List.cons_ne_nil m mods)
      rw [hsynced.seenAsLocal_iff hfits, hstatus, and_comm]
      refine and_congr_left fun _ => ?_
      have hfirst := Platform.keepsUntouched_first hpresence hannounced m
      simp only [List.head?_cons, Option.some.injEq, exists_eq_left']
      rw [← hfirst]
      refine ⟨fun h => h [] m mods rfl, fun h before m' after heq => ?_⟩
      cases before with
      | nil =>
          cases heq
          exact h
      | cons _ before => exact (Platform.synced_setPresences
        (List.cons_ne_nil _ before)).keepsUntouched m'

/-- A user whose game starts in the menu. -/
def menuConfig : Config := { richText := some (str "menu") }

/-- Two calls, of which the first sets the rich text and the other has a null handle. -/
def samplePresences : List (Option PresenceModificationObj) :=
  [some { bSetRichText := true, richText := str "match", bSetStatus := true, status := 3 }, none]

/-- A call that sets the rich text keeps it seen, and the null handle changes nothing. -/
theorem presence_replicated_sample :
    (samplePresences.foldl Platform.setPresence (samplePlatform menuConfig)).SeenAsLocal ∧
    ∀ before m after, samplePresences.reduceOption = before ++ m :: after →
      ((samplePlatform menuConfig).setPresences before).KeepsUntouched m :=
  (presence_replicated (create_samplePlatform menuConfig) samplePresences (by decide +kernel)).2
    ⟨Or.inr ⟨_, rfl, rfl⟩, by decide⟩

/-- Peers read a configured rich text that the local user does not have, until a call that sets
another field takes it away. -/
theorem not_presence_replicated :
    ∃ p m, Platform.create (Library.eosInitialize {} (some {})).2 sampleIdentity
    menuConfig (some { productId := some (str "p") }) (some 7001) 0 = some p ∧
    fits (helloPayload p.helloSource) = true ∧ ¬ p.SeenAsLocal ∧ ¬ p.KeepsUntouched m := by
  have hfits : fits (helloPayload (samplePlatform menuConfig).helloSource) = true := by
    decide +kernel
  obtain ⟨hpresence, hannounced⟩ := Platform.create_eq_some (create_samplePlatform menuConfig)
  refine ⟨samplePlatform menuConfig, { bSetStatus := true, status := 3 }, rfl,
    hfits, fun h => ?_, fun h => ?_⟩
  · have hrich := ((Platform.seenAsLocal_iff hfits).1 h).2.1
    rw [hpresence, hannounced] at hrich
    exact absurd hrich (by decide)
  · rcases (Platform.keepsUntouched_first hpresence hannounced _).1 h with hempty | hset
    · exact absurd hempty (by decide)
    · cases hset

end EOSEmu
