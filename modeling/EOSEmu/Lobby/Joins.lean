import EOSEmu.Lobby.Node

/-!
# The two ways to join

`JoinLobby` takes the owner's endpoint from the record in the details handle, `JoinLobbyById` from
the cached one. On a lobby that is cached they leave the same state; they send to the same endpoint
iff the two records name the same one, and the cached one is replaced by every announce
(`joins_agree`).
-/

namespace EOSEmu

open Lib (Run Always exec Dict)

/-- A section of `n` that brings in no other host for the lobby: no announce of it from elsewhere,
no handle that names another host, and no new lobby of its id. -/
def KeepsHost (id : Bytes) (host : Endpoint) (n : LobbyNode) : LobbyAction → Prop
  | .datagram _ source (.announce r) => r.lobbyId = id → source = host
  | .joinLobby i _ => ∀ d, n.details[i]? = some d → d.lobbyId = id → d.hostEndpoint = host
  | .createLobby tick o => newLobbyId o.localUserId tick n.lobby.lobbyCounter ≠ id
  | _ => True

/-- The cached record of the lobby, if there is one, names the host. -/
def LobbyView.HostIs (host : Endpoint) (v : LobbyView) : Prop :=
  ∀ r, v.record = some r → r.hostEndpoint = host

@[simp] theorem LobbyRecord.withMember_hostEndpoint (r : LobbyRecord) (pid : Bytes) :
    (r.withMember pid).hostEndpoint = r.hostEndpoint := by
  unfold withMember
  split <;> rfl

section
variable {n t : LobbyNode} {a : LobbyAction} {id : Bytes} {host : Endpoint}

/-- Then the record goes on naming the host. -/
theorem hostIs_step (hk : n.Keyed) (hok : KeepsHost id host n a) (h : n.step a = some t)
    (hhost : (n.lobby.view id).HostIs host) : (t.lobby.view id).HostIs host := by
  have hv := LobbyNode.step_view h id
  have hknown : (n.lobby.view id).record = n.lobby.known.get? id := rfl
  generalize n.lobby.view id = v at *
  generalize t.lobby.view id = w at *
  intro r' hr'
  cases hv with
  | keep => exact hhost r' hr'
  | create _ _ hid => exact absurd hid.symm hok
  | ownerUpdate _ hrec _ | memberUpdate _ hrec _ _ | promote _ hrec _ _ | kick _ hrec _
  | migrate hrec _ _ _ _
  | update hrec _ _ | joinRequest hrec _ _ _ =>
      have hold := hhost _ hrec
      cases hr'
      exact hold
  | destroy | leave | closed => cases hr'
  | join hd hid _ =>
      cases hr'
      rw [LobbyRecord.withMember_hostEndpoint]
      subst hid
      cases hget : n.lobby.known.get? _ with
      | some r => rw [hk.joined hget]; exact hhost r (hknown.trans hget)
      | none => rw [LobbyNode.joined_of_none hget]; exact hok _ hd rfl
  | joinById hrec _ =>
      have hold := hhost _ hrec
      cases hr'
      rw [LobbyRecord.withMember_hostEndpoint]
      exact hold
  | announce hid _ _ =>
      cases hr'
      exact hok hid
  | left hrec _ =>
      have hold := hhost _ hrec
      cases hr'
      split <;> exact hold

/-- The two calls on a cached lobby, by any user id. -/
theorem joins_state {s : LobbyInterface} {d r : LobbyRecord}
    (hr : s.known.get? d.lobbyId = some r) (hid : r.lobbyId ≠ []) (me : ProductUserId) :
    (s.joinLobby d me).state = (s.joinLobbyById d.lobbyId me).state := by
  by_cases hme : me = []
  · rw [LobbyInterface.joinLobby, LobbyInterface.joinLobbyById, if_pos hme, if_pos hme]
  · have hjoined : s.joined d = r := by
      simp only [LobbyInterface.joined, hr, Option.getD_some, if_neg hid]
    rw [LobbyInterface.joinLobby_state hme, LobbyInterface.joinLobbyById_state hme hr, hjoined]

/-- What they send. -/
theorem joins_sends {s : LobbyInterface} {d r : LobbyRecord}
    (hr : s.known.get? d.lobbyId = some r) (me : ProductUserId) :
    (s.joinLobby d me).sends = (s.joinLobbyById d.lobbyId me).sends ↔
      me = [] ∨ d.hostEndpoint = r.hostEndpoint ∨ d.hostEndpoint.valid = false ∧
      r.hostEndpoint.valid = false := by
  by_cases hme : me = []
  · rw [LobbyInterface.joinLobby, LobbyInterface.joinLobbyById, if_pos hme, if_pos hme]
    exact iff_of_true rfl (.inl hme)
  · rw [LobbyInterface.joinLobby, LobbyInterface.joinLobbyById, if_neg hme, if_neg hme, hr]
    show s.requestJoin d.hostEndpoint d.lobbyId = s.requestJoin r.hostEndpoint d.lobbyId ↔ _
    unfold LobbyInterface.requestJoin
    cases hd : d.hostEndpoint.valid <;> cases hv : r.hostEndpoint.valid
    · simp
    · have hne : d.hostEndpoint ≠ r.hostEndpoint := fun h => by rw [h, hv] at hd; cases hd
      simp [hme, hne]
    · have hne : d.hostEndpoint ≠ r.hostEndpoint := fun h => by rw [h, hv] at hd; cases hd
      simp [hme, hne]
    · simp [hme]

end

/-- **The two join paths.** In every state a node can reach, joining a cached lobby with a handle
or by its id leaves the same state; the join request goes to the same endpoint iff the handle's
record names the same host as the cached one, or neither names one. It does if since the copy
nothing has brought in another host. -/
theorem joins_agree {localPid : Bytes} {n : LobbyNode}
    (hrun : Run LobbyNode.step Always (.start localPid) n) :
    (∀ d r me, d ∈ n.details → n.lobby.known.get? d.lobbyId = some r →
      (n.lobby.joinLobby d me).state = (n.lobby.joinLobbyById d.lobbyId me).state ∧
      ((n.lobby.joinLobby d me).sends = (n.lobby.joinLobbyById d.lobbyId me).sends ↔
        me = [] ∨ d.hostEndpoint = r.hostEndpoint ∨
          d.hostEndpoint.valid = false ∧ r.hostEndpoint.valid = false)) ∧
    ∀ id d t r me, n.lobby.copyDetails id = some d →
      Run LobbyNode.step (KeepsHost id d.hostEndpoint) n t → t.lobby.known.get? id = some r →
      (t.lobby.joinLobby d me).state = (t.lobby.joinLobbyById id me).state ∧
      (t.lobby.joinLobby d me).sends = (t.lobby.joinLobbyById id me).sends := by
  have hkeyed : n.Keyed := hrun.invariant (LobbyNode.keyed_start localPid) fun _ _ _ hk _ hst =>
    hk.step hst
  refine ⟨fun d r me _ hr => ⟨joins_state hr ?_ me, joins_sends hr me⟩, ?_⟩
  · obtain ⟨hid, hne⟩ := hkeyed.known _ r hr
    exact hid ▸ hne
  · intro id d t r me hd hcalls hr
    obtain ⟨hdid, hne⟩ := hkeyed.known id d hd
    have hinv : t.Keyed ∧ (t.lobby.view id).HostIs d.hostEndpoint := by
      refine hcalls.invariant (P := fun t => t.Keyed ∧ (t.lobby.view id).HostIs d.hostEndpoint)
        ⟨hkeyed, ?_⟩ ?_
      · intro r hr
        cases hd.symm.trans hr
        rfl
      · intro u v a ih hok hst
        exact ⟨ih.1.step hst, hostIs_step ih.1 hok hst ih.2⟩
    obtain ⟨hrid, _⟩ := hinv.1.known id r hr
    subst hdid
    exact ⟨joins_state hr (by rw [hrid]; exact hne) me,
      (joins_sends hr me).2 (.inr (.inl (hinv.2 r hr).symm))⟩

/-- A lobby is announced by its owner, its details are copied, and then it is announced by the next
owner. -/
def sampleHandover : List LobbyAction :=
  [.datagram 7 (sampleEndpoints (str "a"))
    (.announce { lobbyId := str "id", ownerProductId := str "a", version := 1 }),
    .copyDetails (str "id"),
    .datagram 8 (sampleEndpoints (str "c"))
      (.announce { lobbyId := str "id", ownerProductId := str "c", version := 2 })]

/-- After a host migration a handle copied before it addresses the old owner, the id the new
one. -/
theorem not_joins_agree :
    ¬ ∀ localPid n, Run LobbyNode.step Always (.start localPid) n → ∀ d r me, d ∈ n.details →
      n.lobby.known.get? d.lobbyId = some r →
      (n.lobby.joinLobby d me).sends = (n.lobby.joinLobbyById d.lobbyId me).sends := by
  intro h
  have hret : (exec LobbyNode.step (.start (str "b")) sampleHandover).map (fun n =>
      (n.details.map fun d => (n.lobby.joinLobby d (str "b")).sends,
        (n.lobby.joinLobbyById (str "id") (str "b")).sends,
        n.details.map (·.lobbyId), (n.lobby.known.get? (str "id")).isSome)) =
      some ([[.sendTo (sampleEndpoints (str "a")) (.joinRequest (str "id") (str "b"))]],
        [.sendTo (sampleEndpoints (str "c")) (.joinRequest (str "id") (str "b"))], [str "id"],
          true) := by
    decide +kernel
  obtain ⟨n, hn, heq⟩ := Option.map_eq_some_iff.1 hret
  simp only [Prod.mk.injEq] at heq
  obtain ⟨hsends, hbyId, hids, hknown⟩ := heq
  obtain ⟨d, hd⟩ := List.length_eq_one_iff.1 (by simpa using congrArg List.length hids)
  obtain ⟨r, hr⟩ := Option.isSome_iff_exists.1 hknown
  rw [hd] at hsends hids
  have hid : d.lobbyId = str "id" := List.head_eq_of_cons_eq hids
  have hsame := h (str "b") n (Run.of_exec hn) d r (str "b")
    (by rw [hd]; exact List.mem_singleton_self _) (hid ▸ hr)
  have hold : (n.lobby.joinLobby d (str "b")).sends =
      [.sendTo (sampleEndpoints (str "a")) (.joinRequest (str "id") (str "b"))] :=
        List.head_eq_of_cons_eq hsends
  rw [hid, hbyId, hold] at hsame
  revert hsame
  decide

/-- Without the second announce both go to the owner. -/
theorem joins_agree_sample :
    ∃ n r, Run LobbyNode.step Always (.start (str "b")) n ∧
    n.lobby.copyDetails (str "id") = some r ∧
      (n.lobby.joinLobby r (str "b")).sends =
        (n.lobby.joinLobbyById (str "id") (str "b")).sends := by
  have hret : (exec LobbyNode.step (.start (str "b")) (sampleHandover.take 1)).map (fun n =>
      (n.lobby.copyDetails (str "id")).isSome) = some true := by decide +kernel
  obtain ⟨n, hn, hsome⟩ := Option.map_eq_some_iff.1 hret
  obtain ⟨r, hr⟩ := Option.isSome_iff_exists.1 hsome
  have hrun := Run.of_exec hn
  exact ⟨n, r, hrun, hr, ((joins_agree hrun).2 (str "id") r n r (str "b") hr .refl hr).2⟩

end EOSEmu
