import EOSEmu.Lobby.Datagram

/-!
# Forwarded member updates

A member applies its own attribute changes at once, and writes them into a `LobbyUpdate` for the
owner, which decodes and applies them a second time. `forwarded_update` says that the two paths
leave equal attribute lists. An enumerator travels as one byte, so a visibility outside a byte does
not arrive (`not_forwarded_update`).
-/

namespace EOSEmu

open Lib (Dict)

/-- The boolean values are `EOS_TRUE` or `EOS_FALSE`. -/
def BoolsNormalised (l : AttrList) : Prop :=
  ∀ a ∈ l, a.2.value.type = 0 → a.2.value.bool = eosFalse ∨ a.2.value.bool = eosTrue

/-- Normalising then changes nothing. -/
theorem BoolsNormalised.eq {l : AttrList} (h : BoolsNormalised l) : normalisedAttrs l = l := by
  refine (List.map_congr_left fun a ha => ?_).trans (List.map_id l)
  have hvalue : a.2.value.normalised = a.2.value := by
    unfold AttrValue.normalised
    split
    · next htype =>
        rcases h a ha htype with hb | hb
        · rw [hb]
          exact congrArg (fun b => { a.2.value with bool := b }) hb.symm
        · rw [hb]
          exact congrArg (fun b => { a.2.value with bool := b }) hb.symm
    · rfl
  rw [hvalue]
  rfl

/-- The attributes that a node's record has of a member. -/
def LobbyInterface.memberAttrs (s : LobbyInterface) (lobbyId pid : Bytes) : Option AttrList :=
  ((s.known.get? lobbyId).bind (·.findMember pid)).map (·.attributes)

/-- The attributes of a member that was found and edited. -/
theorem attributes_findMember {r q : LobbyRecord} {pid : Bytes} {adds : AttrList}
    {removes : List Bytes}
    (h : q.members = modifyMember pid (fun m => applyMemberAttrs m adds removes) r.members) :
    (q.findMember pid).map (·.attributes) =
      ((r.findMember pid).map (·.attributes)).map (applyAttrs adds removes) := by
  rw [LobbyRecord.findMember, h, find_modifyMember
    (f := fun m => applyMemberAttrs m adds removes) fun _ => rfl, Option.map_map, Option.map_map]
  rfl

section
variable {s : LobbyInterface} {mod : LobbyModificationObj} {r : LobbyRecord}

/-- What the member's own call leaves of its attributes. -/
theorem memberAttrs_updateLobby (hr : s.known.get? mod.lobbyId = some r)
    (howner : mod.lobbyId ∉ s.owned) (hmember : mod.lobbyId ∈ s.memberOf)
    (hscope : mod.hasLobbyScope = false) :
    (s.updateLobby mod).state.memberAttrs mod.lobbyId mod.localUser =
      (s.memberAttrs mod.lobbyId mod.localUser).map
        (applyAttrs mod.addMemberAttrs mod.removeMemberAttrs) := by
  rw [LobbyInterface.updateLobby, hr]
  dsimp only
  rw [if_neg howner, hscope, if_neg Bool.false_ne_true, if_pos hmember]
  unfold LobbyInterface.memberAttrs
  rw [Dict.get?_set, if_pos rfl, hr]
  exact attributes_findMember rfl

/-- What the owner's handler leaves of them. -/
theorem memberAttrs_onUpdate {lobbyId pid : Bytes} (hr : s.known.get? lobbyId = some r)
    (howner : lobbyId ∈ s.owned) (adds : AttrList) (removes : List Bytes) :
    (s.onUpdate lobbyId pid adds removes).state.memberAttrs lobbyId pid =
      (s.memberAttrs lobbyId pid).map (applyAttrs adds removes) := by
  rw [LobbyInterface.onUpdate, hr]
  dsimp only
  unfold LobbyInterface.memberAttrs
  split
  · rw [Dict.get?_set, if_pos rfl, hr]
    exact attributes_findMember rfl
  · next hnot =>
      have hnone : r.findMember pid = none := by
        rw [← Option.not_isSome_iff_eq_none]
        exact fun hsome => hnot ⟨howner, hsome⟩
      rw [hr, Option.bind_some, hnone]
      rfl

end

/-- **Forwarded member updates mean the same on the owner.** Decoding the payload that
`UpdateLobby` builds gives the update back, so the owner and the member edit a list in the same
way; the message a member sends is that payload; and a member's attributes that were equal in both
records are equal after its call and the owner's handler. -/
theorem forwarded_update {mod : LobbyModificationObj}
    (hadds : ∀ a ∈ mod.addMemberAttrs, AttrCarriable a)
    (hbools : BoolsNormalised mod.addMemberAttrs)
    (hlen : (LobbyMessage.update mod.lobbyId mod.localUser mod.addMemberAttrs
      mod.removeMemberAttrs).payload.length < 2 ^ 32) :
    ∃ u : LobbyUpdate, ∃ payload,
      payload = (LobbyMessage.update mod.lobbyId mod.localUser mod.addMemberAttrs
        mod.removeMemberAttrs).payload ∧
      deserializeUpdate ⟨payload, 0, true⟩ = (u, ⟨payload, payload.length, true⟩) ∧
      (∀ m, applyMemberAttrs m u.adds u.removes =
        applyMemberAttrs m mod.addMemberAttrs mod.removeMemberAttrs) ∧
      ∀ (member owner : LobbyInterface) (r q : LobbyRecord), member.known.get? mod.lobbyId =
        some r →
        mod.lobbyId ∉ member.owned → mod.lobbyId ∈ member.memberOf → mod.hasLobbyScope = false →
        (member.updateLobby mod).sends = (if r.hostEndpoint.valid then
          [.sendTo r.hostEndpoint (.update u.lobbyId u.memberPid u.adds u.removes)] else []) ∧
        (owner.known.get? mod.lobbyId = some q → mod.lobbyId ∈ owner.owned →
          owner.memberAttrs mod.lobbyId mod.localUser =
            member.memberAttrs mod.lobbyId mod.localUser →
          (owner.onUpdate u.lobbyId u.memberPid u.adds u.removes).state.memberAttrs mod.lobbyId
            mod.localUser =
            (member.updateLobby mod).state.memberAttrs mod.lobbyId mod.localUser) := by
  refine ⟨_, _, rfl, (decodes_payload_update hadds hlen).whole, ?_, ?_⟩
  · intro m
    rw [hbools.eq]
  · intro member owner r q hr hnotowner hmember hscope
    refine ⟨?_, fun hq howner hsame => ?_⟩
    · rw [LobbyInterface.updateLobby, hr]
      dsimp only
      rw [if_neg hnotowner, hscope, if_neg Bool.false_ne_true, if_pos hmember, hbools.eq]
    · rw [memberAttrs_onUpdate hq howner, memberAttrs_updateLobby hr hnotowner hmember hscope,
        hsame]
      dsimp only
      rw [hbools.eq]

/-- A member update with a value of each type. -/
def sampleMemberUpdate : LobbyModificationObj :=
  { lobbyId := str "id", localUser := str "b"
    addMemberAttrs := [(str "b", { value := readAttr 0 0 0 1 none }),
      (str "i", { value := readAttr 1 (-1) 0 0 none }),
      (str "d", { value := readAttr 2 0 5 0 none, visibility := 1 }),
      (str "s", { value := readAttr 3 0 0 0 (some (str "x")) })]
    removeMemberAttrs := [str "i", str "z"] }

/-- An update with a value of each type is merged as it was made. -/
theorem forwarded_update_sample :
    ∃ u : LobbyUpdate, ∃ payload,
      payload = (LobbyMessage.update (str "id") (str "b") sampleMemberUpdate.addMemberAttrs
        [str "i", str "z"]).payload ∧
      deserializeUpdate ⟨payload, 0, true⟩ = (u, ⟨payload, payload.length, true⟩) ∧
      ∀ m, applyMemberAttrs m u.adds u.removes =
        applyMemberAttrs m sampleMemberUpdate.addMemberAttrs [str "i", str "z"] := by
  have hadds : ∀ a ∈ sampleMemberUpdate.addMemberAttrs, AttrCarriable a := by
    intro a ha
    simp only [sampleMemberUpdate, List.mem_cons, List.not_mem_nil, or_false] at ha
    rcases ha with rfl | rfl | rfl | rfl
    · exact ⟨built_readAttr .boolean 0 0 1 none, by decide⟩
    · exact ⟨built_readAttr .int64 (-1) 0 0 none, by decide⟩
    · exact ⟨built_readAttr .double 0 5 0 none, by decide⟩
    · exact ⟨built_readAttr .string 0 0 0 (some (str "x")), by decide⟩
  have hbools : BoolsNormalised sampleMemberUpdate.addMemberAttrs := by
    unfold BoolsNormalised
    decide
  obtain ⟨u, payload, hpayload, hdec, happly, _⟩ :=
    forwarded_update hadds hbools (by decide +kernel)
  exact ⟨u, payload, hpayload, hdec, happly⟩

/-- A visibility travels as one byte: 256 arrives as 0. -/
theorem not_forwarded_update :
    ¬ ∀ (lobbyId memberPid : Bytes) (adds : AttrList) (removes : List Bytes),
      (∀ a ∈ adds, a.2.value.Built) → BoolsNormalised adds → ∀ m,
      let u := (deserializeUpdate ⟨(LobbyMessage.update lobbyId memberPid adds removes).payload, 0,
        true⟩).1
      applyMemberAttrs m u.adds u.removes = applyMemberAttrs m adds removes := by
  intro h
  have hbad := h (str "id") (str "b")
    [(str "k", { value := readAttr 1 5 0 0 none, visibility := 256 })] [] (fun a ha => by
      obtain rfl := List.mem_singleton.1 ha
      exact built_readAttr .int64 5 0 0 none)
    (by unfold BoolsNormalised; decide) {}
  revert hbad
  decide +kernel

end EOSEmu
