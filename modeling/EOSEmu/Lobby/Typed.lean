import EOSEmu.Lobby.World

/-!
# Games that pass the SDK's enumerators

A call is typed where the attribute types, the visibilities and the permission level that it passes
are ones the SDK defines. What a typed call stores is what the codec carries, so where all calls
are typed the records and the messages stay so (`carries_step`), and every datagram is read as what
its message carries. The other calls store values that do not arrive as they were written, and that
may spoil the rest of a record.
-/

namespace EOSEmu

open Lib

/-- The enumerators that the call passes are ones the SDK defines. -/
def LobbyAction.Typed : LobbyAction → Prop
  | .createLobby _ o => EnumFits o.permissionLevel
  | .updateLobby m => (m.bSetPerm = true → EnumFits m.perm) ∧ (∀ a ∈ m.addAttrs, AttrCarriable a) ∧
      ∀ a ∈ m.addMemberAttrs, AttrCarriable a
  | _ => True

instance (b : LobbyAction) : Decidable b.Typed :=
  match b with
  | .createLobby _ o => inferInstanceAs (Decidable (EnumFits o.permissionLevel))
  | .updateLobby m => inferInstanceAs (Decidable ((m.bSetPerm = true → EnumFits m.perm) ∧
      (∀ a ∈ m.addAttrs, AttrCarriable a) ∧ ∀ a ∈ m.addMemberAttrs, AttrCarriable a))
  | .destroyLobby _ | .copyDetails _ | .joinLobby _ _ | .joinLobbyById _ _ | .leaveLobby _
      _ | .promoteMember _ _
  | .kickMember _ _ | .periodicAnnounce _ | .datagram _ _ _ => .isTrue trivial

/-! ## Records -/

/-- Normalised attributes can be carried where the attributes can. -/
theorem AttrCarriable.normalised {l : AttrList} (h : ∀ a ∈ l, AttrCarriable a) :
    ∀ a ∈ normalisedAttrs l, AttrCarriable a := by
  intro a ha
  obtain ⟨b, hb, rfl⟩ := List.mem_map.1 ha
  obtain ⟨hbuilt, hfits⟩ := h b hb
  exact ⟨hbuilt.normalised, hfits⟩

namespace LobbyRecord.Carriable
variable {r : LobbyRecord}

/-- What an announce carries may be announced again. -/
theorem carried (h : r.Carriable) : r.carried.Carriable where
  permission := h.permission
  attributes := AttrCarriable.normalised h.attributes
  memberAttributes m hm := by
    obtain ⟨q, hq, rfl⟩ := List.mem_map.1 hm
    exact AttrCarriable.normalised (h.memberAttributes q hq)

/-- Removing a member keeps a record that can be carried. -/
theorem eraseMember (h : r.Carriable) (pid : Bytes) : (r.eraseMember pid).Carriable where
  permission := h.permission
  attributes := h.attributes
  memberAttributes m hm := h.memberAttributes m (List.mem_of_mem_eraseP hm)

/-- Adding a member keeps a record that can be carried. -/
theorem addMember (h : r.Carriable) (pid : Bytes) : (r.addMember pid).Carriable where
  permission := h.permission
  attributes := h.attributes
  memberAttributes m hm := by
    rcases List.mem_append.1 hm with hm | hm
    · exact h.memberAttributes m hm
    · rw [List.mem_singleton.1 hm]
      exact fun a ha => absurd ha List.not_mem_nil

/-- Letting a member in keeps a record that can be carried. -/
theorem withMember (h : r.Carriable) (pid : Bytes) : (r.withMember pid).Carriable := by
  unfold LobbyRecord.withMember
  split
  · exact h.addMember pid
  · exact h

/-- Editing a member's attributes. -/
theorem memberAttributes_modifyMember {pid : Bytes} {adds : AttrList} (removes : List Bytes)
    (hadds : ∀ a ∈ adds, AttrCarriable a) {ms : List LobbyMemberRec}
    (h : ∀ m ∈ ms, ∀ a ∈ m.attributes, AttrCarriable a) :
    ∀ m ∈ modifyMember pid (fun m => applyMemberAttrs m adds removes) ms, ∀ a ∈ m.attributes,
      AttrCarriable a := by
  induction ms with
  | nil => exact h
  | cons q ms ih =>
      have hrest := ih fun m hm => h m (List.mem_cons_of_mem _ hm)
      rw [modifyMember_cons]
      intro m hm
      split at hm
      · rcases List.mem_cons.1 hm with rfl | hm
        · exact forall_applyAttrs removes hadds (h q List.mem_cons_self)
        · exact h m (List.mem_cons_of_mem _ hm)
      · rcases List.mem_cons.1 hm with rfl | hm
        · exact h _ List.mem_cons_self
        · exact hrest m hm

/-- Attributes that can be carried keep a record that can be carried. -/
theorem withAttrs (h : r.Carriable) (pid : Bytes) {adds : AttrList} (removes : List Bytes)
    (hadds : ∀ a ∈ adds, AttrCarriable a) : (r.withAttrs pid adds removes).Carriable where
  permission := h.permission
  attributes := h.attributes
  memberAttributes := memberAttributes_modifyMember removes hadds h.memberAttributes

/-- A modification with typed values keeps a record that can be carried. -/
theorem applyModification (h : r.Carriable) {m : LobbyModificationObj}
    (hm : (LobbyAction.updateLobby m).Typed) : (EOSEmu.applyModification r m).Carriable where
  permission := by
    show EnumFits (if m.bSetPerm then m.perm else r.permission)
    split
    · next hset => exact hm.1 hset
    · exact h.permission
  attributes := forall_applyAttrs m.removeAttrs hm.2.1 h.attributes
  memberAttributes := by
    rw [applyModification_members]
    exact memberAttributes_modifyMember m.removeMemberAttrs hm.2.2 h.memberAttributes

end LobbyRecord.Carriable

/-! ## One section -/

/-- The records of a node are ones the codec carries. -/
structure LobbyNode.Carriable (n : LobbyNode) : Prop where
  known : ∀ id r, n.lobby.known.get? id = some r → r.Carriable
  details : ∀ d ∈ n.details, d.Carriable

section
variable {n t : LobbyNode} {b : LobbyAction} {o : LobbyOutcome}

/-- A new node has no record that cannot be carried. -/
theorem LobbyNode.carriable_start (pid : Bytes) : (start pid).Carriable where
  known _ _ h := nomatch h
  details _ h := nomatch h

/-- A joined record can be carried. -/
theorem LobbyNode.Carriable.joined (h : n.Carriable) {d : LobbyRecord} (hd : d.Carriable) :
    (n.lobby.joined d).Carriable := by
  unfold LobbyInterface.joined
  dsimp only
  split
  · exact hd
  · next hne =>
      cases hr : n.lobby.known.get? d.lobbyId with
      | none =>
          rw [hr] at hne
          exact absurd rfl hne
      | some r => exact h.known _ r hr

/-- A typed section keeps the records carriable when the message it takes in is. -/
theorem LobbyNode.Carriable.step (hc : n.Carriable) (hb : b.Typed)
    (hm : ∀ tick source m, b = .datagram tick source m → m.Carriable) (h : n.step b = some t) :
      t.Carriable := by
  refine ⟨fun id r hr => ?_, fun d hd => ?_⟩
  · have hv := LobbyNode.step_view h id
    replace hr : (t.lobby.view id).record = some r := hr
    have hold : ∀ r, (n.lobby.view id).record = some r → r.Carriable := hc.known id
    generalize n.lobby.view id = v at hv hold
    generalize t.lobby.view id = w at hv hr
    cases hv with
    | keep => exact hold r hr
    | create =>
        cases hr
        refine ⟨hb, fun a ha => absurd ha List.not_mem_nil, fun m hm a ha => ?_⟩
        rw [List.mem_singleton.1 hm] at ha
        exact absurd ha List.not_mem_nil
    | ownerUpdate _ hrec _ =>
        have hstored := (hold _ hrec).applyModification hb
        cases hr
        exact ⟨hstored.permission, hstored.attributes, hstored.memberAttributes⟩
    | memberUpdate _ hrec _ _ =>
        cases hr
        exact (hold _ hrec).withAttrs _ _ hb.2.2
    | destroy | leave | closed => cases hr
    | join hget _ _ =>
        cases hr
        exact (hc.joined (hc.details _ (List.mem_of_getElem? hget))).withMember _
    | joinById hrec _ =>
        cases hr
        exact (hold _ hrec).withMember _
    | @migrate me r₀ _ _ hrec _ _ _ _ =>
        have hstored := (hold _ hrec).eraseMember me
        cases hr
        exact ⟨hstored.permission, hstored.attributes, hstored.memberAttributes⟩
    | promote _ hrec _ _ =>
        have hstored := hold _ hrec
        cases hr
        exact ⟨hstored.permission, hstored.attributes, hstored.memberAttributes⟩
    | @kick target r₀ _ hrec _ =>
        have hstored := (hold _ hrec).eraseMember target
        cases hr
        exact ⟨hstored.permission, hstored.attributes, hstored.memberAttributes⟩
    | @announce _ _ r₀ _ _ _ =>
        have hsent : r₀.Carriable := hm _ _ _ rfl
        cases hr
        exact ⟨hsent.permission, hsent.attributes, hsent.memberAttributes⟩
    | @update _ _ pid adds removes r₀ hrec _ _ =>
        have hadds : ∀ a ∈ adds, AttrCarriable a := hm _ _ _ rfl
        have hstored := (hold _ hrec).withAttrs pid removes hadds
        cases hr
        exact ⟨hstored.permission, hstored.attributes, hstored.memberAttributes⟩
    | @joinRequest _ _ pid r₀ hrec _ _ _ =>
        have hstored := (hold _ hrec).addMember pid
        cases hr
        exact ⟨hstored.permission, hstored.attributes, hstored.memberAttributes⟩
    | @left _ _ pid _ r₀ hrec _ =>
        have hstored := (hold _ hrec).eraseMember pid
        cases hr
        split
        · exact ⟨hstored.permission, hstored.attributes, hstored.memberAttributes⟩
        · exact hstored
  · obtain ⟨o, _, rfl⟩ := Option.map_eq_some_iff.1 h
    cases b with
    | copyDetails j =>
        rcases List.mem_append.1 hd with hd | hd
        · exact hc.details d hd
        · exact hc.known j d (Option.mem_toList.1 hd)
    | _ => exact hc.details d hd

/-- An update is the request of the member's own call. -/
theorem LobbyNode.update_sent (ho : n.outcome b = some o) {dest : Endpoint} {id pid : Bytes}
    {adds : AttrList} {removes : List Bytes}
    (hx : .sendTo dest (.update id pid adds removes) ∈ o.sends) :
    ∃ m, b = .updateLobby m ∧ adds = m.addMemberAttrs := by
  have hrequest : ∀ host j, LobbySend.sendTo dest (.update id pid adds removes) ∉
    n.lobby.requestJoin host j := by
    intro host j hx
    unfold LobbyInterface.requestJoin at hx
    split at hx
    · cases List.mem_singleton.1 hx
    · cases hx
  cases LobbyNode.outcome_does ho with
  | fails | ignores | copies | hears | closes => cases hx
  | creates | ownerUpdates | promotes | merges | admits | destroys | leaves =>
    cases List.mem_singleton.1 hx
  | @memberUpdates m =>
      dsimp only at hx
      split at hx
      · cases List.mem_singleton.1 hx
        exact ⟨m, rfl, rfl⟩
      · cases hx
  | joins | joinsById => exact absurd hx (hrequest _ _)
  | migrates | kicks =>
      rcases List.mem_cons.1 hx with hx | hx
      · cases hx
      · cases List.mem_singleton.1 hx
  | announces =>
      obtain ⟨r, _, hr⟩ := List.mem_map.1 hx
      cases hr
  | departs =>
      dsimp only at hx
      split at hx
      · cases List.mem_singleton.1 hx
      · cases hx

/-- What a node with carriable records sends from a typed section is carriable. -/
theorem LobbyNode.Carriable.sends (ht : t.Carriable) (hb : b.Typed) (ho : n.outcome b = some o)
    (hstate : t.lobby = o.state) {x : LobbySend} (hx : x ∈ o.sends) : x.message.Carriable := by
  have hfrom := LobbyNode.sends_from ho hx
  rw [← hstate] at hfrom
  cases hfrom with
  | @announce id r hr _ => exact ht.known id r hr
  | update =>
      obtain ⟨m, rfl, rfl⟩ := LobbyNode.update_sent ho hx
      exact hb.2.2
  | joinRequest | leave => trivial

end

/-! ## The network -/

/-- What arrives of a message that the codec carries may be sent again. -/
theorem LobbyMessage.Carriable.carried {m : LobbyMessage} (hm : m.Carriable) :
    m.carried.Carriable := by
  cases m with
  | announce r => exact LobbyRecord.Carriable.carried hm
  | update => exact AttrCarriable.normalised hm
  | joinRequest | leave => trivial

/-- What is read of such a message is what it carries. -/
theorem LobbyMessage.Carriable.eq_of_read {m m' : LobbyMessage} (hm : m.Carriable)
    (hfits : fits m.payload = true) (hread : m.datagram.read = some m') : m' = m.carried :=
  Option.some.inj (hread.symm.trans (LobbyMessage.read_datagram hm hfits))

namespace LobbyWorld
variable {endpoint : Bytes → Endpoint} {w w' : LobbyWorld} {a : LobbyEvent}

/-- The calls of the games are typed. -/
def TypedCalls (_ : LobbyWorld) : LobbyEvent → Prop
  | .call _ b => b.Typed
  | _ => True

/-- So is the section of a step then. -/
theorem typed_of_actionAt {i : Bytes} {b : LobbyAction} (h : TypedCalls w a)
    (hb : actionAt endpoint w i a = some b) : b.Typed := by
  rcases actionAt_eq_some hb with ⟨rfl, _⟩ | ⟨_, _, _, _, _, _, _, _, _, rfl⟩
  · exact h
  · trivial

/-- The call of a step is typed if its section is. -/
theorem typedCalls_of_section (h : ∀ i b, actionAt endpoint w i a = some b → b.Typed) :
    TypedCalls w a := by
  cases a with
  | call i b =>
      cases b with
      | datagram => trivial
      | _ => exact h i _ (if_pos ⟨rfl, rfl⟩)
  | send | receive | lose => trivial

/-- A test of the sections that tests the calls too. -/
theorem typed_of_sectionTest {ok : LobbyNode → LobbyAction → Prop} [∀ n b, Decidable (ok n b)]
    (h : sectionTest (fun n b => decide (b.Typed ∧ ok n b)) endpoint w a = true) :
    TypedCalls w a ∧ ∀ i b, actionAt endpoint w i a = some b → ok (w.nodes i) b := by
  have hboth : ∀ i b, actionAt endpoint w i a = some b → b.Typed ∧ ok (w.nodes i) b :=
    of_sectionTest (fun _ _ => of_decide_eq_true) w a h
  exact ⟨typedCalls_of_section fun i b hb => (hboth i b hb).1, fun i b hb => (hboth i b hb).2⟩

/-- The records and the messages of a network are ones the codec carries, and satisfy `N` and
`M`. -/
abbrev Carries (N : Bytes → LobbyNode → Prop) (M : LobbyMessage → Prop) : LobbyWorld → Prop :=
  Protocol.Sound (fun i n => n.Carriable ∧ N i n) (fun x : LobbySend => x.message.Carriable ∧
    M x.message) (ReadsAs fun m => m.Carriable ∧ M m)

/-- A network before its first step. -/
theorem carries_start {N : Bytes → LobbyNode → Prop} {M : LobbyMessage → Prop}
    (hstart : ∀ i, N i (.start i)) : Carries N M start where
  nodes i := ⟨LobbyNode.carriable_start i, hstart i⟩
  out _ _ _ hx := absurd hx List.not_mem_nil
  links _ _ _ hc := absurd hc List.not_mem_nil

/-- Where the call of a step is typed, its section keeps `N`, and it sends what satisfies `M` once
it receives what does, the step keeps that, if what satisfies `M` still does so when it arrives. -/
theorem carries_step {N : Bytes → LobbyNode → Prop} {M : LobbyMessage → Prop}
    (hcarried : ∀ m, M m → M m.carried)
    (h : Carries N M w) (htyped : TypedCalls w a)
      (hst : (lobbyProtocol endpoint).step w a = some w')
    (hsection : ∀ i b o n, actionAt endpoint w i a = some b → (w.nodes i).outcome b = some o →
      (w.nodes i).step b = some n → n.lobby = o.state →
      (∀ tick source m, b = .datagram tick source m → M m) →
      N i n ∧ ∀ x ∈ o.sends, M x.message) : Carries N M w' := by
  refine sound_step (N := fun i n => n.Carriable ∧ N i n) (S := fun m => m.Carriable ∧ M m)
    (M := fun m => m.Carriable ∧ M m) ?_ h hst ?_
  · rintro m m' ⟨hm, hsat⟩ hfits hread
    rw [hm.eq_of_read hfits hread]
    exact ⟨hm.carried, hcarried m hsat⟩
  · intro i b o n hb ho hn hstate hreceived
    have hbt := typed_of_actionAt htyped hb
    have hn' := (h.nodes i).1.step hbt (fun tick source m hm => (hreceived tick source m hm).1) hn
    obtain ⟨hnode, hsends⟩ := hsection i b o n hb ho hn hstate fun tick source m hm =>
      (hreceived tick source m hm).2
    exact ⟨⟨hn', hnode⟩, fun x hx => ⟨hn'.sends hbt ho hstate hx, hsends x hx⟩⟩

end LobbyWorld

end EOSEmu
