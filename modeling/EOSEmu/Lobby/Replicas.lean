import EOSEmu.Lobby.World

/-!
# Replicas

A node that does not own a lobby takes whatever announce arrives: the received version is compared
for a notification only. Nothing but the announces that a node takes in or makes changes the
version it holds (`known_heard`), so replicas do not go back where these come in the order of their
versions (`replicas`). Then, once an announce is delivered, its version is not above the one a node
holds. `not_replicas` is a run of two nodes whose links keep the order of the sends.
-/

namespace EOSEmu

open Lib

/-- No record that `t` stores in place of a replica of `n` has a smaller version. -/
def NeverBack (n t : LobbyNode) : Prop :=
  ∀ id r r', id ∉ n.lobby.owned → n.lobby.known.get? id = some r →
    t.lobby.known.get? id = some r' → r.version ≤ r'.version

/-- A section that takes in no record older than the replica it replaces: a received announce, or
the record of a new lobby that gets the id of a cached one. -/
def NewEnough (n : LobbyNode) : LobbyAction → Prop
  | .datagram _ _ (.announce r) => ∀ old, r.lobbyId ∉ n.lobby.owned →
      n.lobby.known.get? r.lobbyId = some old → old.version ≤ r.version
  | .createLobby tick o => ∀ old, o.localUserId ≠ [] →
    versionInRange o.apiVersion createLobbyApiLatest = true →
      newLobbyId o.localUserId tick n.lobby.lobbyCounter ∉ n.lobby.owned →
      n.lobby.known.get? (newLobbyId o.localUserId tick n.lobby.lobbyCounter) = some old →
        old.version ≤ 1
  | _ => True

@[simp] theorem LobbyRecord.withMember_version (r : LobbyRecord) (pid : Bytes) :
    (r.withMember pid).version = r.version := by
  unfold withMember
  split <;> rfl

section
variable {n t : LobbyNode} {a : LobbyAction}

/-- Only an announce and a new lobby change the version of a replica. -/
theorem neverBack_of_newEnough (hk : n.Keyed) (hok : NewEnough n a) (h : n.step a = some t) :
    NeverBack n t := by
  intro id r r' hnot hr hr'
  have hv := LobbyNode.step_view h id
  have howner : (n.lobby.view id).owner ≠ true := fun ho => hnot (LobbyInterface.view_owner.1 ho)
  replace hr : (n.lobby.view id).record = some r := hr
  replace hr' : (t.lobby.view id).record = some r' := hr'
  have hknown : (n.lobby.view id).record = n.lobby.known.get? id := rfl
  generalize n.lobby.view id = v at *
  generalize t.lobby.view id = w at *
  cases hv with
  | keep =>
      cases hr.symm.trans hr'
      exact UInt64.le_refl _
  | create hpid hversion hid =>
      cases hr'
      subst hid
      exact hok r hpid hversion hnot (hknown.symm.trans hr)
  | ownerUpdate _ _ ho | migrate _ _ ho _ _ | promote _ _ ho _ | kick _ _ ho | update _ ho _
  | joinRequest _ ho _ _ => exact absurd ho howner
  | memberUpdate _ hrec _ _ =>
      cases hr.symm.trans hrec
      cases hr'
      exact UInt64.le_refl _
  | destroy | leave | closed => cases hr'
  | join hd hid _ =>
      subst hid
      cases hr'
      rw [LobbyRecord.withMember_version, hk.joined (hknown.symm.trans hr)]
      exact UInt64.le_refl _
  | joinById hrec _ =>
      cases hr.symm.trans hrec
      cases hr'
      rw [LobbyRecord.withMember_version]
      exact UInt64.le_refl _
  | announce hid _ _ =>
      subst hid
      cases hr'
      exact hok r hnot (hknown.symm.trans hr)
  | left hrec _ =>
      cases hr.symm.trans hrec
      cases hr'
      rw [if_neg howner]
      exact UInt64.le_refl _

end

/-! ## The announces a node hears of -/

/-- The lobby and the version of an announce. -/
def LobbySend.announced (x : LobbySend) : Option (Bytes × UInt64) :=
  match x.message with
  | .announce r => some (r.lobbyId, r.version)
  | .update .. | .joinRequest .. | .leave .. => none

/-- The lobbies and the versions of the announces that a section takes in, as a node that does not
own the lobby, or makes. -/
def LobbyNode.heard (n : LobbyNode) (a : LobbyAction) : List (Bytes × UInt64) :=
  (match a with
    | .datagram _ _ (.announce r) => if r.lobbyId ∈
      n.lobby.owned then [] else [(r.lobbyId, r.version)]
    | _ => []) ++ (n.outcome a).elim [] fun o => o.sends.filterMap LobbySend.announced

section
variable {n t : LobbyNode} {a : LobbyAction}

/-- The version that a node holds after a section is one it held, in the cache or in a handle, or
one the section hears of. -/
theorem known_heard (hk : n.Keyed) (h : n.step a = some t) {id : Bytes} {r : LobbyRecord}
    (hr : t.lobby.known.get? id = some r) :
    (id, r.version) ∈ n.heard a ∨ (∃ q, n.lobby.known.get? id = some q ∧ q.version = r.version) ∨
      ∃ d ∈ n.details, d.lobbyId = id ∧ d.version = r.version := by
  obtain ⟨o, ho, rfl⟩ := Option.map_eq_some_iff.1 h
  replace hr : o.state.known.get? id = some r := hr
  -- a record is stored as it was, is announced, or is taken in
  have hsent : ∀ q : LobbyRecord, LobbyInterface.broadcastAnnounce q ∈ o.sends →
    (q.lobbyId, q.version) ∈ n.heard a := by
    intro q hq
    refine List.mem_append_right _ ?_
    rw [ho]
    exact List.mem_filterMap.2 ⟨_, hq, rfl⟩
  have hannounced : ∀ {known : Dict Bytes LobbyRecord} {j : Bytes} {q : LobbyRecord}, known =
    n.lobby.known →
      (known.set j q).get? id = some r → q.lobbyId = j →
      LobbyInterface.broadcastAnnounce q ∈ o.sends →
      (id, r.version) ∈ n.heard a ∨ (∃ q, n.lobby.known.get? id = some q ∧ q.version = r.version) ∨
        ∃ d ∈ n.details, d.lobbyId = id ∧ d.version = r.version := by
    intro known j q hknown hget hid hq
    rw [Dict.get?_set] at hget
    split at hget
    · next hij =>
        cases hget
        have hheard := hsent r hq
        rw [hid, ← hij] at hheard
        exact .inl hheard
    · exact .inr (.inl ⟨r, hknown ▸ hget, rfl⟩)
  have hstored : ∀ {j : Bytes} {q : LobbyRecord}, (n.lobby.known.set j q).get? id = some r →
      (∃ q₀, n.lobby.known.get? j = some q₀ ∧ q₀.version = q.version) →
      (id, r.version) ∈ n.heard a ∨ (∃ q, n.lobby.known.get? id = some q ∧ q.version = r.version) ∨
        ∃ d ∈ n.details, d.lobbyId = id ∧ d.version = r.version := by
    intro j q hget hold
    rw [Dict.get?_set] at hget
    split at hget
    · next hij =>
        cases hget
        exact .inr (.inl (hij ▸ hold))
    · exact .inr (.inl ⟨r, hget, rfl⟩)
  have herased : ∀ {j : Bytes}, (n.lobby.known.erase j).get? id = some r →
      (id, r.version) ∈ n.heard a ∨ (∃ q, n.lobby.known.get? id = some q ∧ q.version = r.version) ∨
        ∃ d ∈ n.details, d.lobbyId = id ∧ d.version = r.version := by
    intro j hget
    rw [Dict.get?_erase] at hget
    split at hget
    · cases hget
    · exact .inr (.inl ⟨r, hget, rfl⟩)
  cases LobbyNode.outcome_does ho with
  | fails | ignores | copies | announces => exact .inr (.inl ⟨r, hr, rfl⟩)
  | creates => exact hannounced rfl hr rfl (List.mem_singleton_self _)
  | ownerUpdates hq => exact hannounced rfl hr (hk.known _ _ hq).1 (List.mem_singleton_self _)
  | memberUpdates hq => exact hstored hr ⟨_, hq, rfl⟩
  | destroys | leaves | closes => exact herased hr
  | @joins i me d hd _ =>
      cases hcached : n.lobby.known.get? d.lobbyId with
      | some q =>
          rw [hk.joined hcached] at hr
          exact hstored hr ⟨q, hcached, (LobbyRecord.withMember_version q me).symm⟩
      | none =>
          rw [LobbyNode.joined_of_none hcached, Dict.get?_set] at hr
          split at hr
          · next hid =>
              cases hr
              exact .inr (.inr ⟨d, List.mem_of_getElem? hd, hid.symm,
                (LobbyRecord.withMember_version d me).symm⟩)
          · exact .inr (.inl ⟨r, hr, rfl⟩)
  | @joinsById j me q hq _ => exact hstored hr ⟨q, hq, (LobbyRecord.withMember_version q me).symm⟩
  | migrates _ hq => exact hannounced rfl hr (hk.known _ _ hq).1 (List.mem_cons_of_mem _
      (List.mem_singleton_self _))
  | promotes _ hq => exact hannounced rfl hr (hk.known _ _ hq).1 (List.mem_singleton_self _)
  | kicks _ hq => exact hannounced rfl hr (hk.known _ _ hq).1 (List.mem_cons_of_mem _
      (List.mem_singleton_self _))
  | @hears tick source q _ _ hnot =>
      rw [Dict.get?_set] at hr
      split at hr
      · next hid =>
          cases hr
          refine .inl (List.mem_append_left _ ?_)
          dsimp only
          rw [if_neg hnot, hid]
          exact List.mem_singleton_self _
      · exact .inr (.inl ⟨r, hr, rfl⟩)
  | merges hq | admits hq => exact hannounced rfl hr (hk.known _ _ hq).1 (List.mem_singleton_self _)
  | @departs tick source j pid reason q₀ q _ hq _ hnew =>
      subst hnew
      by_cases howner : j ∈ n.lobby.owned
      · rw [if_pos howner] at hr
        refine hannounced rfl hr (hk.known _ _ hq).1 ?_
        simp [howner]
      · rw [if_neg howner] at hr
        exact hstored hr ⟨q₀, hq, rfl⟩

/-- What takes a replica back is older than a version the node held. -/
theorem newEnough_of_heard
    (h : ∀ id old v, n.lobby.known.get? id = some old → (id, v) ∈ n.heard a → old.version ≤ v) :
    NewEnough n a := by
  cases a with
  | createLobby tick o =>
      intro old hpid hversion _ hold
      refine h _ old 1 hold (List.mem_append_right _ ?_)
      show _ ∈ (n.lobby.createLobby tick o).sends.filterMap LobbySend.announced
      rw [LobbyInterface.createLobby, if_neg hpid, hversion]
      exact List.mem_singleton_self _
  | datagram tick source m =>
      cases m with
      | announce r =>
          intro old hnot hold
          refine h _ old r.version hold (List.mem_append_left _ ?_)
          dsimp only
          rw [if_neg hnot]
          exact List.mem_singleton_self _
      | update | joinRequest | leave => trivial
  | _ => trivial

end

/-! ## The network -/

section
variable {endpoint : Bytes → Endpoint}

/-- A node takes in or makes an announce. -/
structure Hearing where
  node : Bytes
  lobbyId : Bytes
  version : UInt64

/-- What the node that acts in a transition hears of. -/
def hearings (endpoint : Bytes → Endpoint) (tr : LobbyTransition) : List Hearing :=
  (Protocol.actor tr.action).elim [] fun i =>
    (LobbyWorld.actionAt endpoint tr.pre i tr.action).elim [] fun b =>
    ((tr.pre.nodes i).heard b).map fun x => ⟨i, x.1, x.2⟩

/-- Of each lobby, each node takes in and makes the announces in the order of their versions. -/
def InVersionOrder (endpoint : Bytes → Endpoint) (l : List LobbyTransition) : Prop :=
  (l.flatMap (hearings endpoint)).Pairwise fun x y => x.node = y.node → x.lobbyId = y.lobbyId →
    x.version ≤ y.version

instance (endpoint : Bytes → Endpoint) (l : List LobbyTransition) :
    Decidable (InVersionOrder endpoint l) :=
  inferInstanceAs (Decidable (List.Pairwise _ _))

/-- What a section hears belongs to its node's hearings. -/
theorem mem_hearings {tr : LobbyTransition} {i : Bytes} {b : LobbyAction}
    (hb : LobbyWorld.actionAt endpoint tr.pre i tr.action = some b) {id : Bytes} {v : UInt64}
    (h : (id, v) ∈ (tr.pre.nodes i).heard b) : ⟨i, id, v⟩ ∈ hearings endpoint tr := by
  rw [hearings, LobbyWorld.actor_of_actionAt hb, Option.elim_some, hb]
  exact List.mem_map.2 ⟨_, h, rfl⟩

/-- The versions a node holds are ones it has heard of. -/
structure Heard (endpoint : Bytes → Endpoint) (l : List LobbyTransition) (i : Bytes)
    (n : LobbyNode) : Prop where
  known : ∀ id r, n.lobby.known.get? id = some r →
    ⟨i, id, r.version⟩ ∈ l.flatMap (hearings endpoint)
  details : ∀ d ∈ n.details, ⟨i, d.lobbyId, d.version⟩ ∈ l.flatMap (hearings endpoint)

/-- At the start there are no versions to have heard of. -/
theorem heard_start (i : Bytes) : Heard endpoint [] i (.start i) where
  known _ _ h := nomatch h
  details _ h := nomatch h

/-- That holds in every run. -/
theorem heard_of_trace {ok : LobbyWorld → LobbyEvent → Prop} {l : List LobbyTransition}
    {w : LobbyWorld} (h : Trace (lobbyProtocol endpoint).step ok LobbyWorld.start l w) (i : Bytes) :
      Heard endpoint l i (w.nodes i) := by
  refine h.invariant (P := fun l w => Heard endpoint l i (w.nodes i)) (heard_start i) ?_
  intro l u v a hl ih _ hst
  have hmore : ∀ {x : Hearing}, x ∈ l.flatMap (hearings endpoint) →
      x ∈ (l ++ [(⟨u, a, v⟩ : LobbyTransition)]).flatMap (hearings endpoint) := by
    intro x hx
    rw [List.flatMap_append]
    exact List.mem_append_left _ hx
  rcases LobbyWorld.node_step hst i with ⟨_, heq⟩ | ⟨b, hb, hn⟩
  · rw [heq]
    exact ⟨fun id r hr => hmore (ih.known id r hr), fun d hd => hmore (ih.details d hd)⟩
  have hk := LobbyWorld.keyed_of_run hl.run i
  refine ⟨fun id r hr => ?_, fun d hd => hmore ?_⟩
  · rcases known_heard hk hn hr with hheard | ⟨q, hq, hsame⟩ | ⟨d, hd, hid, hsame⟩
    · rw [List.flatMap_append, List.flatMap_singleton]
      exact List.mem_append_right _ (mem_hearings hb hheard)
    · rw [← hsame]
      exact hmore (ih.known id q hq)
    · rw [← hsame, ← hid]
      exact hmore (ih.details d hd)
  · obtain ⟨o, _, heq⟩ := Option.map_eq_some_iff.1 hn
    rw [← heq] at hd
    cases b with
    | copyDetails j =>
        rcases List.mem_append.1 hd with hd | hd
        · exact ih.details d hd
        · have hget : (u.nodes i).lobby.known.get? j = some d := Option.mem_toList.1 hd
          rw [(hk.known j d hget).1]
          exact ih.known j d hget
    | _ => exact ih.details d hd

/-- In version order, a section is new enough. -/
theorem newEnough_of_order {ok : LobbyWorld → LobbyEvent → Prop} {l : List LobbyTransition}
    {u v : LobbyWorld} {a : LobbyEvent}
    (hl : Trace (lobbyProtocol endpoint).step ok LobbyWorld.start l u)
    (hordered : InVersionOrder endpoint (l ++ [⟨u, a, v⟩])) {i : Bytes} {b : LobbyAction}
    (hb : LobbyWorld.actionAt endpoint u i a = some b) : NewEnough (u.nodes i) b := by
  refine newEnough_of_heard fun id old version hold hheard => ?_
  rw [InVersionOrder, List.flatMap_append, List.flatMap_singleton,
    List.pairwise_append] at hordered
  have hbefore := (heard_of_trace hl i).known id old hold
  have hnow : ⟨i, id, version⟩ ∈ hearings endpoint ⟨u, a, v⟩ := mem_hearings hb hheard
  exact hordered.2.2 _ hbefore _ hnow rfl rfl

/-- A part of a history in version order is in version order. -/
theorem InVersionOrder.of_append {l l' : List LobbyTransition}
    (h : InVersionOrder endpoint (l ++ l')) : InVersionOrder endpoint l := by
  rw [InVersionOrder, List.flatMap_append, List.pairwise_append] at h
  exact h.1

/-- A thread of the node sends the announce, which fits into a datagram and is read. -/
def Announces (s : Bytes) (r : LobbyRecord) (tr : LobbyTransition) : Prop :=
  ∃ th rest, tr.action = .send s th ∧ tr.pre.out s th = .broadcast (.announce r) :: rest ∧
    (LobbyMessage.announce r).Arrives

/-- A datagram is lost, or the node owns the lobby or forgets it. -/
def Disturbed (i id : Bytes) (tr : LobbyTransition) : Prop :=
  (∃ s r k, tr.action = .lose s r k) ∨ id ∈ (tr.pre.nodes i).lobby.owned ∨
    (((tr.pre.nodes i).lobby.known.get? id).isSome = true ∧
    (tr.post.nodes i).lobby.known.get? id = none)

/-- The announce is on its way from the sender to the node. -/
def OnTheWay (w : LobbyWorld) (s i : Bytes) (r : LobbyRecord) : Prop :=
  ∃ c ∈ w.links s i, c.message = (LobbyMessage.announce r).datagram

/-- The node has a record of the lobby that is at least as new. -/
def UpToDate (w : LobbyWorld) (i : Bytes) (r : LobbyRecord) : Prop :=
  ∃ r', (w.nodes i).lobby.known.get? r.lobbyId = some r' ∧ r.version ≤ r'.version

/-- An announce leads to a record as new, or is still on its way. -/
theorem announced_step {w w' : LobbyWorld} {a : LobbyEvent} {l : List LobbyTransition}
    {s i : Bytes} {r : LobbyRecord} (hk : (w.nodes i).Keyed)
    (hnew : ∀ b, LobbyWorld.actionAt endpoint w i a = some b → NewEnough (w.nodes i) b)
    (hst : (lobbyProtocol endpoint).step w a = some w') (hne : s ≠ i) (hid : r.lobbyId ≠ [])
    (ih : Since (Announces s r) (Disturbed i r.lobbyId) l →
      (LobbyMessage.announce r).Arrives ∧ (OnTheWay w s i r ∨ UpToDate w i r))
    (hsince : Since (Announces s r) (Disturbed i r.lobbyId) (l ++ [⟨w, a, w'⟩])) :
    (LobbyMessage.announce r).Arrives ∧ (OnTheWay w' s i r ∨ UpToDate w' i r) := by
  rcases since_snoc.1 hsince with ⟨th, rest, ha, hout, harrives⟩ | ⟨hsince, hquiet⟩
  · cases ha
    obtain ⟨x, xs, hx, rfl⟩ := Protocol.step_send hst
    cases hx.symm.trans hout
    have hwire : (lobbyProtocol endpoint).wire (.broadcast (.announce r)) i =
      some (LobbyMessage.announce r).datagram :=
      if_pos harrives.1
    have hcopy := Protocol.mem_copies.2 ⟨_, List.mem_singleton_self _, _, hwire, rfl⟩
    exact ⟨harrives, .inl ⟨_, Protocol.mem_post.2 (.inr ⟨rfl, Ne.symm hne, hcopy⟩), rfl⟩⟩
  · have hnotlost : ∀ s' r' k, a ≠ .lose s' r' k := fun s' r' k ha => hquiet (.inl ⟨s', r', k, ha⟩)
    have hnotowned : r.lobbyId ∉ (w.nodes i).lobby.owned := fun ho => hquiet (.inr (.inl ho))
    obtain ⟨harrives, hway | ⟨old, hold, hle⟩⟩ := ih hsince
    · obtain ⟨c, hc, hmsg⟩ := hway
      rcases Protocol.message_stays hst hc with ⟨y, hy, hsame⟩ | ⟨k, hlost⟩ | ⟨k, tick, rfl, hget⟩
      · exact ⟨harrives, .inl ⟨y, hy, hsame.trans hmsg⟩⟩
      · exact absurd hlost (hnotlost _ _ _)
      · -- the node takes the announce in
        obtain ⟨q, hread, hfront⟩ := harrives.announce
        have hb : LobbyWorld.actionAt endpoint w i (.receive s i k tick false) =
            some (.datagram tick (endpoint s) (.announce q)) := by
          rw [LobbyWorld.actionAt_receive hget, hmsg, hread, Option.map_some]
        obtain ⟨o, ho, hlobby, -⟩ := LobbyWorld.section_step hst hb
        cases ho
        refine ⟨harrives, .inr ⟨q.received tick (endpoint s), ?_, ?_⟩⟩
        · rw [hlobby, ← hfront.lobbyId]
          rw [← hfront.lobbyId] at hid hnotowned
          show Dict.get? (LobbyInterface.onAnnounce _ _ _ _).state.known _ = _
          simp only [LobbyInterface.onAnnounce, if_neg hid, if_neg hnotowned, Dict.get?_set,
            if_true]
        · exact Nat.le_of_eq (congrArg UInt64.toNat hfront.version.symm)
    · -- the record at the node gets newer
      refine ⟨harrives, .inr ?_⟩
      rcases LobbyWorld.node_step hst i with ⟨_, heq⟩ | ⟨b, hb, hn⟩
      · exact ⟨old, heq ▸ hold, hle⟩
      · cases hknown : (w'.nodes i).lobby.known.get? r.lobbyId with
        | none => exact absurd (.inr (.inr ⟨by rw [hold]; rfl, hknown⟩)) hquiet
        | some r' =>
            have hback := neverBack_of_newEnough hk (hnew b hb) hn
            exact ⟨r', hknown, UInt64.le_trans hle (hback _ old r' hnotowned hold hknown)⟩

/-- **Replicas never go backwards.** Where each node takes in and makes the announces of each lobby
in the order of their versions, no replica goes back, and once an announce is delivered, a node
that has not owned or forgotten the lobby since holds a record as new as it. -/
theorem replicas {l : List LobbyTransition} {w : LobbyWorld}
    (h : Trace (lobbyProtocol endpoint).step Always LobbyWorld.start l w)
    (hordered : InVersionOrder endpoint l) :
    (∀ tr ∈ l, ∀ i, NeverBack (tr.pre.nodes i) (tr.post.nodes i)) ∧
    ∀ s i r, s ≠ i → r.lobbyId ≠ [] → Since (Announces s r) (Disturbed i r.lobbyId) l →
      ¬ OnTheWay w s i r → UpToDate w i r := by
  constructor
  · intro tr htr i
    obtain ⟨before, after, heq⟩ := List.append_of_mem htr
    obtain ⟨hbefore, _, hst⟩ := h.forall_mem heq
    have hsplit : l = (before ++ [tr]) ++ after := by
      rw [heq, List.append_assoc, List.singleton_append]
    rw [hsplit] at hordered
    have horder := hordered.of_append
    rcases LobbyWorld.node_step hst i with ⟨_, hsame⟩ | ⟨b, hb, hn⟩
    · rw [hsame]
      intro id r r' _ hr hr'
      cases hr.symm.trans hr'
      exact UInt64.le_refl _
    · have hnew := newEnough_of_order hbefore (v := tr.post) horder hb
      exact neverBack_of_newEnough (LobbyWorld.keyed_of_run hbefore.run i) hnew hn
  · intro s i r hne hid hsince hgone
    have hgoal : InVersionOrder endpoint l → Since (Announces s r) (Disturbed i r.lobbyId) l →
        (LobbyMessage.announce r).Arrives ∧ (OnTheWay w s i r ∨ UpToDate w i r) := by
      refine h.invariant (P := fun l w => InVersionOrder endpoint l →
        Since (Announces s r) (Disturbed i r.lobbyId) l →
        (LobbyMessage.announce r).Arrives ∧ (OnTheWay w s i r ∨ UpToDate w i r)) ?_ ?_
      · exact fun _ hnil => absurd hnil Lib.not_since_nil
      · intro l u v a hl ih _ hst horder
        exact announced_step (LobbyWorld.keyed_of_run hl.run i)
          (fun b hb => newEnough_of_order hl horder hb) hst hne hid (ih horder.of_append)
    exact (hgoal hordered hsince).2.resolve_left hgone

end

/-- The second node joins, and its request meets a change of the bucket: the owner's threads send
the two announces in the other order than they took the records. -/
def sampleRace : List LobbyEvent :=
  sampleMeeting ++
  [.call (str "b") (.joinLobbyById (sampleLobbyId (str "a")) (str "b")), .send (str "b") .game,
    .call (str "a")
        (.updateLobby { lobbyId := sampleLobbyId (str "a"), bSetBucket := true, bucket := str "x"
        }),
    .receive (str "b") (str "a") 0 8 false, .send (str "a") .receive, .send (str "a") .game,
    .receive (str "a") (str "b") 0 8 false]

/-- The announce that was taken first arrives last. -/
def sampleLate : LobbyEvent := .receive (str "a") (str "b") 0 8 false

/-- The version of the second node's record. -/
def sampleVersion (w : LobbyWorld) : Option UInt64 :=
  ((w.nodes (str "b")).lobby.known.get? (sampleLobbyId (str "a"))).map (·.version)

/-- A run that meets the condition: the second node joins and gets the owner's next announce. -/
theorem replicas_sample :
    ∃ l w, Trace (lobbyProtocol sampleEndpoints).step Always LobbyWorld.start l w ∧
    InVersionOrder sampleEndpoints l ∧
      sampleVersion w = some 3 ∧ ∀ tr ∈ l, ∀ i, NeverBack (tr.pre.nodes i) (tr.post.nodes i) := by
  have hrun : (exec (lobbyProtocol sampleEndpoints).step LobbyWorld.start sampleRace).map
    sampleVersion = some (some 3) := by decide +kernel
  have hordered : InVersionOrder sampleEndpoints
      (transitions (lobbyProtocol sampleEndpoints).step LobbyWorld.start sampleRace) := by
        decide +kernel
  obtain ⟨w, hw, hversion⟩ := Option.map_eq_some_iff.1 hrun
  have hl := Trace.of_exec hw
  exact ⟨_, w, hl, hordered, hversion, (replicas hl hordered).1⟩

/-- Without the condition this fails, even on links that keep the order and lose or repeat nothing:
the second announce of the race takes the replica from version 3 back to version 2. -/
theorem not_replicas :
    ¬ ∀ l w, Trace (lobbyProtocol sampleEndpoints).step Protocol.Fifo LobbyWorld.start l w →
      ∀ tr ∈ l, ∀ i, NeverBack (tr.pre.nodes i) (tr.post.nodes i) := by
  intro h
  have hrun : (execIf (lobbyProtocol sampleEndpoints).step Protocol.fifoTest LobbyWorld.start
    sampleRace).bind (fun u => ((lobbyProtocol sampleEndpoints).step u sampleLate).map fun v =>
        (sampleVersion u, decide (sampleLobbyId (str "a") ∈ (u.nodes (str "b")).lobby.owned),
          sampleVersion v)) =
      some (some 3, false, some 2) := by
    decide +kernel
  obtain ⟨u, hu, hv⟩ := Option.bind_eq_some_iff.1 hrun
  obtain ⟨v, hst, hversions⟩ := Option.map_eq_some_iff.1 hv
  simp only [Prod.mk.injEq, decide_eq_false_iff_not] at hversions
  obtain ⟨hold, hnot, hnew⟩ := hversions
  obtain ⟨r, hr, hr3⟩ := Option.map_eq_some_iff.1 hold
  obtain ⟨r', hr', hr2⟩ := Option.map_eq_some_iff.1 hnew
  have hl := (Trace.of_execIf Protocol.fifo_of_test hu).tail sampleLate ⟨rfl, rfl⟩ hst
  have hle := h _ _ hl ⟨u, sampleLate, v⟩ (List.mem_append_right _ (List.mem_singleton_self _))
    (str "b") _ r r' hnot hr hr'
  rw [hr3, hr2] at hle
  exact absurd hle (by decide)

end EOSEmu
