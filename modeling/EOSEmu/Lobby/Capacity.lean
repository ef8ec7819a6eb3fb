import EOSEmu.Lobby.Departures

/-!
# Room for the members

`LobbyJoinRequest` adds a member when the record has a free slot. The owner's own join adds one
without looking, and `SetMaxMembers` takes any number. As long as these two respect the members
there are (`HasRoom`), and records arrive as they were sent, every record that a node owns has room
for its members, also one that another node built and handed over (`capacity`).
-/

namespace EOSEmu

open Lib

/-- The record has no more members than it allows. -/
def LobbyRecord.Fits (r : LobbyRecord) : Prop := r.members.length ≤ r.maxMembers.toNat

/-- The record lists the user, or has a free slot. -/
def LobbyRecord.Admits (r : LobbyRecord) (pid : Bytes) : Prop :=
  r.Lists pid ∨ r.members.length < r.maxMembers.toNat

instance (r : LobbyRecord) : Decidable r.Fits := inferInstanceAs (Decidable (_ ≤ _))
instance (r : LobbyRecord) (pid : Bytes) : Decidable (r.Admits pid) :=
  inferInstanceAs (Decidable (_ ∨ _))

/-- A section that respects the members of the node's own lobbies: a lobby is created with room for
its owner, no limit is set below the members there are, and the owner's own join finds the user
listed or a free slot. -/
def HasRoom (n : LobbyNode) : LobbyAction → Prop
  | .createLobby _ o => 1 ≤ o.maxLobbyMembers
  | .updateLobby m => m.bSetMax = true → m.lobbyId ∈ n.lobby.owned →
      ∀ r ∈ n.lobby.known.get? m.lobbyId, r.members.length ≤ m.max.toNat
  | .joinLobby i me => ∀ d ∈ n.details[i]?, d.lobbyId ∈ n.lobby.owned →
      ∀ r ∈ n.lobby.known.get? d.lobbyId, r.Admits me
  | .joinLobbyById id me => id ∈ n.lobby.owned → ∀ r ∈ n.lobby.known.get? id, r.Admits me
  | _ => True

instance (n : LobbyNode) (a : LobbyAction) : Decidable (HasRoom n a) :=
  match a with
  | .createLobby _ o => inferInstanceAs (Decidable (1 ≤ o.maxLobbyMembers))
  | .updateLobby m => inferInstanceAs (Decidable (m.bSetMax = true → m.lobbyId ∈ n.lobby.owned →
      ∀ r ∈ n.lobby.known.get? m.lobbyId, r.members.length ≤ m.max.toNat))
  | .joinLobby i me => inferInstanceAs (Decidable (∀ d ∈ n.details[i]?, d.lobbyId ∈ n.lobby.owned →
      ∀ r ∈ n.lobby.known.get? d.lobbyId, r.Admits me))
  | .joinLobbyById id me =>
      inferInstanceAs (Decidable (id ∈ n.lobby.owned → ∀ r ∈ n.lobby.known.get? id, r.Admits me))
  | .destroyLobby _ | .copyDetails _ | .leaveLobby _ _ | .promoteMember _ _ | .kickMember _
      _ | .periodicAnnounce _
  | .datagram _ _ _ => .isTrue trivial

namespace LobbyRecord
variable {r : LobbyRecord}

/-- Removing a member keeps a record within its bound. -/
theorem Fits.eraseMember (h : r.Fits) (pid : Bytes) : (r.eraseMember pid).Fits :=
  Nat.le_trans (List.eraseP_sublist).length_le h

/-- Letting a member in that the record admits keeps it within its bound. -/
theorem Fits.withMember {pid : Bytes} (h : r.Fits) (hadm : r.Admits pid) :
    (r.withMember pid).Fits := by
  unfold LobbyRecord.withMember
  split
  · next hnone =>
      have hfree := hadm.resolve_left fun hl => by
        rw [← findMember_isSome, Option.isSome_iff_ne_none] at hl
        exact hl (Option.isNone_iff_eq_none.1 hnone)
      unfold Fits LobbyRecord.addMember
      rw [List.length_append, List.length_singleton]
      exact hfree
  · exact h

/-- A free slot is room for one more. -/
theorem Fits.addMember {pid : Bytes} (h : r.Fits) (hslot : 0 < r.availableSlots) :
    (r.addMember pid).Fits := by
  have hused : (UInt32.ofNat r.members.length).toNat = r.members.length :=
    toNat_ofNat_length (Nat.lt_of_le_of_lt h r.maxMembers.toNat_lt)
  unfold availableSlots at hslot
  dsimp only at hslot
  split at hslot
  · next hlt =>
      rw [UInt32.lt_iff_toNat_lt, hused] at hlt
      unfold Fits LobbyRecord.addMember
      rw [List.length_append, List.length_singleton]
      exact hlt
  · exact absurd hslot (by decide)

/-- Editing a member's attributes. -/
theorem length_withAttrs (r : LobbyRecord) (pid : Bytes) (adds : AttrList) (removes : List Bytes) :
    (r.withAttrs pid adds removes).members.length = r.members.length := by
  have hids := congrArg List.length
    (modifyMember_productIds (fun m => applyMemberAttrs_productId m adds removes) r.members :
      (r.withAttrs pid adds removes).members.map (·.productId) = _)
  rwa [List.length_map, List.length_map] at hids

/-- Applying a handle. -/
theorem length_applyModification (r : LobbyRecord) (m : LobbyModificationObj) :
    (EOSEmu.applyModification r m).members.length = r.members.length := by
  rw [applyModification_members]
  exact length_withAttrs r m.localUser m.addMemberAttrs m.removeMemberAttrs

/-- Travelling changes neither the members nor the bound. -/
theorem fits_carried : r.carried.Fits ↔ r.Fits := by
  unfold Fits carried
  rw [List.length_map]
  rfl

end LobbyRecord

/-- An announced record has room for its members. -/
def LobbyMessage.Fits : LobbyMessage → Prop
  | .announce r => r.Fits
  | _ => True

/-- An announce has room for its members when it arrives. -/
theorem LobbyMessage.Fits.carried {m : LobbyMessage} (hm : m.Fits) : m.carried.Fits := by
  cases m with
  | announce r => exact LobbyRecord.fits_carried.2 hm
  | update | joinRequest | leave => trivial

/-- The records that a node owns are there, and have room for their members. -/
structure LobbyNode.Fits (n : LobbyNode) : Prop where
  known : ∀ id ∈ n.lobby.owned, (n.lobby.known.get? id).isSome = true
  room : ∀ id r, id ∈ n.lobby.owned → n.lobby.known.get? id = some r → r.Fits

section
variable {n t : LobbyNode} {a : LobbyAction}

/-- A record that is owned is there, and it has room for its members if the node owned the lobby
before or owns it now. -/
theorem view_fits (hk : n.Keyed) (hf : n.Fits) (hok : HasRoom n a)
    (hm : ∀ tick source m, a = .datagram tick source m → m.Fits) (h : n.step a = some t)
    (id : Bytes) :
    ((t.lobby.view id).owner = true → (t.lobby.view id).record.isSome = true) ∧
      ((n.lobby.view id).owner = true ∨ (t.lobby.view id).owner = true →
        ∀ r, (t.lobby.view id).record = some r → r.Fits) := by
  have hv := LobbyNode.step_view h id
  have hsome : (n.lobby.view id).owner = true → (n.lobby.view id).record.isSome = true := fun ho =>
    hf.known id (LobbyInterface.view_owner.1 ho)
  have hroom : (n.lobby.view id).owner = true → ∀ r, (n.lobby.view id).record = some r →
    r.Fits := fun ho r hr =>
    hf.room id r (LobbyInterface.view_owner.1 ho) hr
  have hknown : (n.lobby.view id).record = n.lobby.known.get? id := rfl
  have howned : (n.lobby.view id).owner = true → id ∈ n.lobby.owned := LobbyInterface.view_owner.1
  generalize n.lobby.view id = v at *
  generalize t.lobby.view id = w at *
  -- most sections leave the owner as it was, and rewrite the record to one that fits
  have hrewrite : ∀ {r' : LobbyRecord}, (v.owner = true → r'.Fits) →
      (v.owner = true → (some r').isSome = true) ∧
        (v.owner = true ∨ v.owner = true → ∀ r, some r' = some r → r.Fits) := by
    intro r' hfits
    refine ⟨fun _ => rfl, fun ho r hr => ?_⟩
    cases hr
    exact hfits (ho.elim (fun h => h) fun h => h)
  cases hv with
  | keep => exact ⟨hsome, fun ho => hroom (ho.elim (fun h => h) fun h => h)⟩
  | @create tick o _ _ _ =>
      refine ⟨fun _ => rfl, fun _ r hr => ?_⟩
      cases hr
      exact UInt32.le_iff_toNat_le.1 hok
  | @ownerUpdate m r hid hrec ho =>
      subst hid
      refine hrewrite fun _ => ?_
      show (applyModification r m).members.length ≤
        (if m.bSetMax then m.max else r.maxMembers).toNat
      rw [LobbyRecord.length_applyModification]
      split
      · next hmax => exact hok hmax (howned ho) r (hknown.symm.trans hrec)
      · exact hroom ho r hrec
  | memberUpdate _ _ _ hnot =>
      refine hrewrite fun ho => ?_
      rw [hnot] at ho
      cases ho
  | destroy | leave | closed => exact ⟨nofun, fun _ _ hr => nomatch hr⟩
  | @join i me d hd hid hme =>
      subst hid
      refine hrewrite fun ho => ?_
      obtain ⟨r, hr⟩ := Option.isSome_iff_exists.1 (hsome ho)
      rw [hk.joined (hknown.symm.trans hr)]
      exact (hroom ho r hr).withMember (hok d hd (howned ho) r (hknown.symm.trans hr))
  | @joinById me r hrec hme =>
      exact hrewrite fun ho => (hroom ho r hrec).withMember
        (hok (howned ho) r (hknown.symm.trans hrec))
  | @migrate me r next rest hrec _ ho _ _ =>
      refine ⟨nofun, fun _ r' hr' => ?_⟩
      cases hr'
      exact (hroom ho r hrec).eraseMember me
  | @promote target r _ hrec ho _ =>
      have hfits := hroom ho r hrec
      refine ⟨nofun, fun _ r' hr' => ?_⟩
      cases hr'
      exact hfits
  | @kick target r _ hrec ho => exact hrewrite fun _ => (hroom ho r hrec).eraseMember target
  | announce _ _ hnot =>
      refine ⟨fun _ => rfl, fun _ r hr => ?_⟩
      cases hr
      exact hm _ _ _ rfl
  | @update _ _ pid adds removes r hrec ho _ =>
      refine hrewrite fun _ => ?_
      have hfits := hroom ho r hrec
      unfold LobbyRecord.Fits at hfits ⊢
      rw [← LobbyRecord.length_withAttrs r pid adds removes] at hfits
      exact hfits
  | @joinRequest _ _ pid r hrec ho _ hslot =>
      exact hrewrite fun _ => (hroom ho r hrec).addMember hslot
  | @left _ _ pid reason r hrec _ =>
      refine hrewrite fun ho => ?_
      split <;> exact (hroom ho r hrec).eraseMember pid

/-- A section that respects the members keeps the lobbies of the node, and what it sends, with room
for their members. -/
theorem fits_step (hk : n.Keyed) (hf : n.Fits) (hok : HasRoom n a)
    (hm : ∀ tick source m, a = .datagram tick source m → m.Fits) (h : n.step a = some t) :
    t.Fits ∧ ∀ x, LobbySend.From n.lobby t.lobby x → x.message.Fits := by
  have hview := view_fits hk hf hok hm h
  refine ⟨⟨fun id ho => ?_, fun id r ho hr => ?_⟩, fun x hx => ?_⟩
  · exact (hview id).1 (LobbyInterface.view_owner.2 ho)
  · exact (hview id).2 (.inr (LobbyInterface.view_owner.2 ho)) r hr
  · cases hx with
    | @announce id r hr ho =>
        exact (hview id).2 (ho.imp LobbyInterface.view_owner.2 LobbyInterface.view_owner.2) r hr
    | update | joinRequest | leave => trivial

end

/-- A new node has no record over its bound. -/
theorem LobbyNode.fits_start (pid : Bytes) : (LobbyNode.start pid).Fits where
  known id ho := absurd ho (Finset.notMem_empty id)
  room id _ ho := absurd ho (Finset.notMem_empty id)

/-- Calls are typed, and every section of a step respects the members. -/
structure EachHasRoom (endpoint : Bytes → Endpoint) (w : LobbyWorld) (a : LobbyEvent) : Prop where
  typed : LobbyWorld.TypedCalls w a
  room : ∀ i b, LobbyWorld.actionAt endpoint w i a = some b → HasRoom (w.nodes i) b

/-- **Lobby capacity.** In every run of typed calls whose sections respect the members, the record
of a lobby at a node that owns it lists each member once, and no more members than it allows. -/
theorem capacity {endpoint : Bytes → Endpoint} {w : LobbyWorld}
    (h : Run (lobbyProtocol endpoint).step (EachHasRoom endpoint) LobbyWorld.start w)
    {i id : Bytes} {r : LobbyRecord} (ho : id ∈ (w.nodes i).lobby.owned)
    (hr : (w.nodes i).lobby.known.get? id = some r) :
    r.Distinct ∧ r.members.length ≤ r.maxMembers.toNat := by
  have hroom : LobbyWorld.Carries (fun _ n => n.Keyed ∧ n.Fits) LobbyMessage.Fits w := by
    refine h.invariant (P := LobbyWorld.Carries (fun _ n => n.Keyed ∧ n.Fits) LobbyMessage.Fits)
      (LobbyWorld.carries_start fun i => ⟨LobbyNode.keyed_start i, LobbyNode.fits_start i⟩) ?_
    intro u v a hu hok hst
    refine LobbyWorld.carries_step (fun _ => LobbyMessage.Fits.carried) hu hok.typed hst ?_
    intro j b o n hb hout hn hstate hm
    obtain ⟨_, hk, hf⟩ := hu.nodes j
    obtain ⟨hfits, hsends⟩ := fits_step hk hf (hok.room j b hb) hm hn
    exact ⟨⟨hk.step hn, hfits⟩, fun x hx => hsends x (hstate ▸ LobbyNode.sends_from hout hx)⟩
  have hdistinct := LobbyWorld.sound_of_run h fun _ _ hok => hok.typed
  exact ⟨(hdistinct.nodes i).2.known id r hr, (hroom.nodes i).2.2.room id r ho hr⟩

/-- Lobbies are created with room for at least one member. -/
def CreatesRoom (endpoint : Bytes → Endpoint) (w : LobbyWorld) (a : LobbyEvent) : Prop :=
  ∀ i tick o, LobbyWorld.actionAt endpoint w i a = some (.createLobby tick o) →
    1 ≤ o.maxLobbyMembers

/-- The test for `CreatesRoom`. -/
def createsRoomTest (_ : LobbyNode) : LobbyAction → Bool
  | .createLobby _ o => decide (1 ≤ o.maxLobbyMembers)
  | _ => true

/-- The test decides that a new lobby has room for its creator. -/
theorem createsRoom_of_test (n : LobbyNode) (b : LobbyAction) (h : createsRoomTest n b = true) :
    ∀ tick o, b = .createLobby tick o → 1 ≤ o.maxLobbyMembers := by
  rintro tick o rfl
  exact of_decide_eq_true h

/-- The owner of a lobby that a second node has joined sets its limit. -/
def sampleLimit (max : UInt32) : List LobbyEvent :=
  sampleVisit (sampleLobby (str "a")) ++
    [.call (str "a") (.updateLobby { lobbyId := sampleLobbyId (str "a"), bSetMax := true, max })]

/-- The number of members and the limit of the lobby at its owner. -/
def sampleRoom (w : LobbyWorld) : Bool × Option (ℕ × UInt32) :=
  (sampleLobbyId (str "a") ∈ (w.nodes (str "a")).lobby.owned,
    ((w.nodes (str "a")).lobby.known.get? (sampleLobbyId (str "a"))).map fun r =>
      (r.members.length, r.maxMembers))

/-- A limit of two for two members. -/
theorem capacity_sample :
    ∃ w r, Run (lobbyProtocol sampleEndpoints).step (EachHasRoom sampleEndpoints) LobbyWorld.start
      w ∧ (w.nodes (str "a")).lobby.known.get? (sampleLobbyId (str "a")) = some r ∧
      r.Distinct ∧ r.members.length ≤ r.maxMembers.toNat := by
  have hrun : (execIf (lobbyProtocol sampleEndpoints).step
      (LobbyWorld.sectionTest (fun n b => decide (b.Typed ∧ HasRoom n b)) sampleEndpoints)
        LobbyWorld.start
      (sampleLimit 2)).map sampleRoom = some (true, some (2, 2)) := by decide +kernel
  obtain ⟨w, hw, hroom⟩ := Option.map_eq_some_iff.1 hrun
  obtain ⟨ho, hrec⟩ := Prod.ext_iff.1 hroom
  obtain ⟨r, hr, _⟩ := Option.map_eq_some_iff.1 hrec
  have htest : ∀ u a, LobbyWorld.sectionTest (fun n b => decide (b.Typed ∧ HasRoom n b))
    sampleEndpoints u a = true → EachHasRoom sampleEndpoints u a := by
    intro u a ha
    obtain ⟨htyped, hsection⟩ := LobbyWorld.typed_of_sectionTest ha
    exact ⟨htyped, hsection⟩
  have hl := Run.of_execIf htest hw
  exact ⟨w, r, hl, hr, capacity hl (of_decide_eq_true ho) hr⟩

/-- Without the condition this fails: a limit of one is set on a lobby of two members. -/
theorem not_capacity :
    ¬ ∀ w, Run (lobbyProtocol sampleEndpoints).step (CreatesRoom sampleEndpoints) LobbyWorld.start
      w → ∀ i id r, id ∈ (w.nodes i).lobby.owned → (w.nodes i).lobby.known.get? id = some r →
        r.Distinct ∧ r.members.length ≤ r.maxMembers.toNat := by
  intro h
  have hrun : (execIf (lobbyProtocol sampleEndpoints).step
    (LobbyWorld.sectionTest createsRoomTest sampleEndpoints)
      LobbyWorld.start (sampleLimit 1)).map sampleRoom = some (true, some (2, 1)) := by
        decide +kernel
  obtain ⟨w, hw, hroom⟩ := Option.map_eq_some_iff.1 hrun
  obtain ⟨ho, hrec⟩ := Prod.ext_iff.1 hroom
  obtain ⟨r, hr, hsize⟩ := Option.map_eq_some_iff.1 hrec
  have hl : Run (lobbyProtocol sampleEndpoints).step (CreatesRoom sampleEndpoints) LobbyWorld.start
    w :=
    Run.of_execIf (fun u a ha i tick o hat => LobbyWorld.of_sectionTest createsRoom_of_test u a ha
      i _ hat tick o rfl) hw
  have hgood := (h w hl _ _ r (of_decide_eq_true ho) hr).2
  simp only [Prod.mk.injEq] at hsize
  obtain ⟨hlength, hmax⟩ := hsize
  rw [hlength, hmax] at hgood
  exact absurd hgood (by decide)

end EOSEmu
