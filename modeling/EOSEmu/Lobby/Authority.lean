import EOSEmu.Lib.Token
import EOSEmu.Lobby.World

/-!
# A lobby has one owner at most

The authority over a lobby is with the node that owns it, or in the announce with which an owner
handed it over: in the outbox, and then on the link to the node that is named. Each section and
each delivery moves it or drops it (`authority_step`), as long as a lobby is created by the local
user under an id nobody uses, and no announce hands a lobby over a second time (`HandsOverOnce`).
An announce that is delivered again after the lobby was handed on makes a second owner:
`not_single_authority`.
-/

namespace EOSEmu

open Lib

/-! ## The authority over a lobby -/

/-- The send announces a lobby under another owner than the sender. -/
def LobbySend.handsOver (sender id : Bytes) (x : LobbySend) : Bool :=
  match x.message with
  | .announce r => decide (r.lobbyId = id) && decide (r.ownerProductId ≠ sender)
  | _ => false

/-- The message announces the lobby under the owner. -/
def LobbyMessage.names (owner id : Bytes) : LobbyMessage → Bool
  | .announce r => decide (r.lobbyId = id) && decide (r.ownerProductId = owner)
  | _ => false

/-- The datagram names its receiver the owner of the lobby, and no delivery of it has made the
receiver the owner. -/
def handedTo (receiver id : Bytes) (c : Copy LobbyDatagram) : Bool :=
  !c.taken && c.message.read.any (LobbyMessage.names receiver id)

/-- Where the authority over a lobby may be. -/
inductive Authority where
  | owner (i : Bytes)
  | outbox (i : Bytes) (th : ThreadKind)
  | link (s r : Bytes)

/-- How often a place holds the authority over a lobby. -/
def LobbyWorld.authority (w : LobbyWorld) (id : Bytes) : Authority → ℕ
  | .owner i => if id ∈ (w.nodes i).lobby.owned then 1 else 0
  | .outbox i th => (w.out i th).countP (LobbySend.handsOver i id)
  | .link s r => (w.links s r).countP (handedTo r id)

/-- Nobody owns the lobby, and nobody is handed it. -/
def LobbyWorld.Vacant (w : LobbyWorld) (id : Bytes) : Prop := ∀ p, w.authority id p = 0

/-- A lobby is created by the local user under a vacant id, and an announce that makes its receiver
the owner of a lobby has not done so before, or the lobby is vacant. -/
def HandsOverOnce (w : LobbyWorld) : LobbyEvent → Prop
  | .call i (.createLobby tick o) => o.localUserId = i ∧
      w.Vacant (newLobbyId o.localUserId tick (w.nodes i).lobby.lobbyCounter)
  | .receive s r k _ _ => ∀ c ∈ (w.links s r)[k]?, ∀ m ∈ c.message.read, (w.nodes r).takesOver m =
    true → c.taken = false ∨ w.Vacant m.lobbyId
  | _ => True

/-! ## One section -/

/-- An owner's record names it the owner. -/
def LobbyView.Named (pid : Bytes) (v : LobbyView) : Prop :=
  v.owner = true → ∃ r, v.record = some r ∧ r.ownerProductId = pid

section
variable {n t : LobbyNode} {b : LobbyAction} {o : LobbyOutcome} {id : Bytes}

/-- A section keeps an owner's record naming it, when a lobby is created by the local user. -/
theorem named_step (hk : n.Keyed)
    (hown : ∀ tick o, b = .createLobby tick o → o.localUserId = n.lobby.localPid)
    (hnamed : (n.lobby.view id).Named n.lobby.localPid) (h : n.step b = some t) :
    (t.lobby.view id).Named n.lobby.localPid := by
  have hv := LobbyNode.step_view h id
  have hknown : (n.lobby.view id).record = n.lobby.known.get? id := rfl
  generalize n.lobby.view id = v at *
  generalize t.lobby.view id = w at *
  intro ho
  have hrewrite : ∀ {r r' : LobbyRecord}, v.record = some r → v.owner = true →
    r'.ownerProductId = r.ownerProductId →
      ∃ x, some r' = some x ∧ x.ownerProductId = n.lobby.localPid := by
    intro r r' hr ho' heq
    obtain ⟨x, hx, hname⟩ := hnamed ho'
    cases hr.symm.trans hx
    exact ⟨r', rfl, heq.trans hname⟩
  cases hv with
  | keep => exact hnamed ho
  | @create tick o _ _ _ => exact ⟨_, rfl, hown tick o rfl⟩
  | ownerUpdate _ hrec ho' | kick _ hrec ho' | update hrec ho' _ | joinRequest hrec ho' _ _ =>
      exact hrewrite hrec ho' rfl
  | memberUpdate _ _ _ hnot =>
      rw [hnot] at ho
      cases ho
  | destroy | leave | closed | migrate | promote => cases ho
  | join hd hid _ =>
      subst hid
      obtain ⟨r, hr, _⟩ := hnamed ho
      rw [hk.joined (hknown.symm.trans hr)]
      exact hrewrite hr ho (LobbyRecord.withMember_ownerProductId r _)
  | joinById hrec _ => exact hrewrite hrec ho (LobbyRecord.withMember_ownerProductId _ _)
  | announce _ _ _ =>
      rw [Bool.and_eq_true, decide_eq_true_iff] at ho
      exact ⟨_, rfl, ho.2⟩
  | left hrec _ =>
      refine hrewrite hrec ho ?_
      split <;> rfl

/-- An owner hands a lobby over only in the section in which it stops owning it. -/
theorem owned_of_handsOver (hk : t.Keyed) (ho : n.outcome b = some o) (hstate : t.lobby = o.state)
    (hnamed : (t.lobby.view id).Named n.lobby.localPid) {x : LobbySend} (hx : x ∈ o.sends)
    (hover : x.handsOver n.lobby.localPid id = true) : id ∈ n.lobby.owned ∧ id ∉ t.lobby.owned := by
  have hfrom := LobbyNode.sends_from ho hx
  rw [← hstate] at hfrom
  cases hfrom with
  | @announce j r hr howned =>
      obtain ⟨hid, hother⟩ := (Bool.and_eq_true _ _).mp hover
      have hid : r.lobbyId = id := of_decide_eq_true hid
      have hother : r.ownerProductId ≠ n.lobby.localPid := of_decide_eq_true hother
      obtain rfl : j = id := (hk.known j r hr).1.symm.trans hid
      have hnot : j ∉ t.lobby.owned := by
        intro hmem
        obtain ⟨r', hr', hname⟩ := hnamed (LobbyInterface.view_owner.2 hmem)
        cases hr.symm.trans hr'
        exact hother hname
      exact ⟨howned.resolve_right hnot, hnot⟩
  | update | joinRequest | leave => cases hover

/-- It announces that once. -/
theorem countP_handsOver_le (ho : n.outcome b = some o) (howned : id ∈ n.lobby.owned)
    (hnot : id ∉ o.state.owned) : o.sends.countP (LobbySend.handsOver n.lobby.localPid id) ≤ 1 := by
  have hgoodbye : ∀ {j pid : Bytes} {reason : UInt8} {rest : List LobbySend},
      (LobbySend.broadcast (.leave j pid reason) :: rest).countP
        (LobbySend.handsOver n.lobby.localPid id) =
        rest.countP (LobbySend.handsOver n.lobby.localPid id) :=
          List.countP_cons_of_neg Bool.false_ne_true
  cases LobbyNode.outcome_does ho with
  | fails | ignores | copies | ownerUpdates | memberUpdates | joins | joinsById | kicks | announces
  | merges | admits
  | departs => exact absurd howned hnot
  | creates => exact absurd (Finset.mem_insert_of_mem howned) hnot
  | hears =>
      refine absurd ?_ hnot
      dsimp only
      split
      · exact Finset.mem_insert_of_mem howned
      · exact howned
  | destroys | leaves =>
      rw [hgoodbye]
      exact Nat.zero_le _
  | migrates =>
      rw [hgoodbye]
      exact List.countP_le_length
  | promotes => exact List.countP_le_length
  | closes => exact Nat.zero_le _

/-- A section gets the authority by creating the lobby or by an announce that names the node. -/
theorem gains (h : n.step b = some t) (hnot : id ∉ n.lobby.owned) (howned : id ∈ t.lobby.owned) :
    (∃ tick o, b = .createLobby tick o ∧ id = newLobbyId o.localUserId tick n.lobby.lobbyCounter) ∨
      ∃ tick source r, b = .datagram tick source (.announce r) ∧ r.lobbyId = id ∧
        n.takesOver (.announce r) = true ∧ r.ownerProductId = n.lobby.localPid := by
  have hv := LobbyNode.step_view h id
  have hbefore : (n.lobby.view id).owner = false :=
    Bool.eq_false_iff.2 fun h => hnot (LobbyInterface.view_owner.1 h)
  have hafter : (t.lobby.view id).owner = true := LobbyInterface.view_owner.2 howned
  have hmember : (n.lobby.view id).member = true → id ∈ n.lobby.memberOf :=
    LobbyInterface.view_member.1
  generalize n.lobby.view id = v at hv hbefore hmember
  generalize t.lobby.view id = w at hv hafter
  cases hv with
  | keep | ownerUpdate | memberUpdate | join | joinById | kick | update | joinRequest | left =>
      exact absurd (hbefore.symm.trans hafter) nofun
  | @create tick o _ _ hid => exact .inl ⟨tick, o, rfl, hid⟩
  | destroy | leave | migrate | promote | closed => cases hafter
  | @announce tick source r hid _ _ =>
      rw [Bool.and_eq_true, decide_eq_true_iff] at hafter
      obtain ⟨hm, hname⟩ := hafter
      subst hid
      exact .inr ⟨tick, source, r, rfl, rfl, decide_eq_true ⟨hmember hm, hnot, hname⟩, hname⟩

end

/-! ## The network -/

section
variable {endpoint : Bytes → Endpoint} {w w' : LobbyWorld} {a : LobbyEvent} {id : Bytes}

/-- A step that makes a new authority over the lobby: it is created, or an announce makes its
receiver the owner that did so before. -/
def MintsAuthority (w : LobbyWorld) (id : Bytes) : LobbyEvent → Prop
  | .call i (.createLobby tick o) => id = newLobbyId o.localUserId tick
    (w.nodes i).lobby.lobbyCounter
  | .receive s r k _ _ => ∃ c m, (w.links s r)[k]? = some c ∧ c.taken = true ∧
    c.message.read = some m ∧ m.lobbyId = id ∧ (w.nodes r).takesOver m = true
  | _ => False

/-- Then there was none before. -/
theorem HandsOverOnce.vacant (h : HandsOverOnce w a) (hmint : MintsAuthority w id a) :
    w.Vacant id := by
  cases a with
  | call i b =>
      cases b with
      | createLobby tick o => exact (show id = _ from hmint) ▸ h.2
      | _ => cases hmint
  | receive s r k tick keep =>
      obtain ⟨c, m, hc, htaken, hread, hid, htakes⟩ := hmint
      have hvacant := (h c hc m hread htakes).resolve_left fun hno =>
        absurd (htaken.symm.trans hno) nofun
      exact hid ▸ hvacant
  | send | lose => cases hmint

/-- A section moves the authority from the node into the outbox, or to the node, or drops it. -/
theorem authority_section {i : Bytes} {th : ThreadKind} {b : LobbyAction} {o : LobbyOutcome}
    {mint : Prop}
    (hk : (w'.nodes i).Keyed) (hpid : (w.nodes i).lobby.localPid = i)
      (ho : (w.nodes i).outcome b = some o)
    (hstate : (w'.nodes i).lobby = o.state)
      (hnamed : ((w'.nodes i).lobby.view id).Named (w.nodes i).lobby.localPid)
    (hout : w.out i th = []) (hout' : w'.out i th = o.sends)
    (hrest : ∀ p, p ≠ .owner i → p ≠ .outbox i th → w'.authority id p ≤ w.authority id p)
    (hgain : id ∉ (w.nodes i).lobby.owned → id ∈ o.state.owned →
      mint ∨ ∃ p, p ≠ .owner i ∧ w'.authority id p < w.authority id p) :
    Passes mint (w.authority id) (w'.authority id) := by
  have hbefore : w.authority id (.owner i) = if id ∈ (w.nodes i).lobby.owned then 1 else 0 := rfl
  have hafter : w'.authority id (.owner i) = if id ∈ o.state.owned then 1 else 0 := by
    rw [← hstate]; rfl
  have hempty : w.authority id (.outbox i th) = 0 := by rw [LobbyWorld.authority, hout]; rfl
  have hsent : w'.authority id (.outbox i th) = o.sends.countP (LobbySend.handsOver i id) := by
    rw [LobbyWorld.authority, hout']
  -- what is handed over is no longer owned
  have hquiet : ¬ (id ∈ (w.nodes i).lobby.owned ∧ id ∉ o.state.owned) →
    w'.authority id (.outbox i th) = 0 := by
    intro hnot
    rw [hsent, List.countP_eq_zero]
    intro x hx hover
    rw [← hpid] at hover
    exact hnot (hstate ▸ owned_of_handsOver hk ho hstate hnamed hx hover)
  by_cases hb : id ∈ (w.nodes i).lobby.owned
  · by_cases ha : id ∈ o.state.owned
    · rw [if_pos hb] at hbefore
      rw [if_pos ha] at hafter
      refine .drop fun p => ?_
      rcases Classical.em (p = .owner i) with rfl | hp
      · omega
      · rcases Classical.em (p = .outbox i th) with rfl | hp'
        · rw [hquiet fun hno => hno.2 ha]
          exact Nat.zero_le _
        · exact hrest p hp hp'
    · rw [if_pos hb] at hbefore
      rw [if_neg ha] at hafter
      have hone := countP_handsOver_le ho hb ha
      rw [hpid] at hone
      refine .move (p := .owner i) (q := .outbox i th) nofun (by omega) (by omega) fun p hp => ?_
      rcases Classical.em (p = .owner i) with rfl | hp'
      · omega
      · exact hrest p hp' hp
  · have hno := hquiet fun hno => hb hno.1
    have hothers : ∀ p, p ≠ .owner i → w'.authority id p ≤ w.authority id p := by
      intro p hp
      rcases Classical.em (p = .outbox i th) with rfl | hp'
      · omega
      · exact hrest p hp hp'
    rw [if_neg hb] at hbefore
    by_cases ha : id ∈ o.state.owned
    · rw [if_pos ha] at hafter
      rcases hgain hb ha with hmint | ⟨p, hp, hless⟩
      · exact .mint hmint (by omega) hothers
      · exact .move hp hless (by omega) hothers
    · rw [if_neg ha] at hafter
      refine .drop fun p => ?_
      rcases Classical.em (p = .owner i) with rfl | hp
      · omega
      · exact hothers p hp

/-- An announce that names another node than its sender the owner is a hand-over. -/
theorem handsOver_of_names {x : LobbySend} {i r : Bytes} (hne : r ≠ i)
    (h : x.message.names r id = true) : x.handsOver i id = true := by
  unfold LobbySend.handsOver
  cases hm : x.message with
  | announce rec =>
      rw [hm] at h
      obtain ⟨hid, howner⟩ := (Bool.and_eq_true _ _).mp h
      have hother : rec.ownerProductId ≠ i := fun heq =>
        hne ((of_decide_eq_true howner).symm.trans heq)
      exact (Bool.and_eq_true _ _).mpr ⟨hid, decide_eq_true hother⟩
  | update | joinRequest | leave =>
      rw [hm] at h
      cases h

/-- It names one node. -/
theorem names_inj {m : LobbyMessage} {r r' : Bytes} (h : m.names r id = true)
    (h' : m.names r' id = true) : r = r' := by
  cases m with
  | announce rec =>
      have hr := of_decide_eq_true ((Bool.and_eq_true _ _).mp h).2
      have hr' := of_decide_eq_true ((Bool.and_eq_true _ _).mp h').2
      exact hr.symm.trans hr'
  | update | joinRequest | leave => cases h

/-- The receiver reads the owner that was written. -/
theorem names_of_read {m m' : LobbyMessage} {owner : Bytes} (hfits : fits m.payload = true)
    (hread : m.datagram.read = some m') : m'.names owner id = m.names owner id := by
  cases LobbyMessage.readAs_of_read hfits hread with
  | announce hfront =>
      simp only [LobbyMessage.names]
      rw [hfront.lobbyId, hfront.ownerProductId]
  | update | joinRequest | leave => rfl

/-- What a send adds to a link. -/
theorem countP_copies_le (x : LobbySend) (r : Bytes) :
    (Protocol.copies (lobbyProtocol endpoint) [x] r).countP (handedTo r id) ≤
      if x.message.names r id = true then 1 else 0 := by
  cases hwire : (lobbyProtocol endpoint).wire x r with
  | none =>
      have hnone : Protocol.copies (lobbyProtocol endpoint) [x] r = [] := by
        simp [Protocol.copies, hwire]
      rw [hnone]
      exact Nat.zero_le _
  | some d =>
      have hone : Protocol.copies (lobbyProtocol endpoint) [x] r = [{ message := d }] := by
        simp [Protocol.copies, hwire]
      obtain ⟨rfl, hfits⟩ := LobbyWorld.message_of_wire hwire
      rw [hone, List.countP_singleton]
      split
      · next hhanded =>
          obtain ⟨m, hread, hnames⟩ := (Option.any_eq_true _ _).1
            ((Bool.and_eq_true _ _).mp hhanded).2
          rw [names_of_read hfits hread] at hnames
          rw [if_pos hnames]
      · exact Nat.zero_le _

/-- A broadcast moves a hand-over from the outbox onto the link to the node that is named. -/
theorem authority_send {mint : Prop} {i : Bytes} {th : ThreadKind}
    (hst : (lobbyProtocol endpoint).step w (.send i th) = some w') :
    Passes mint (w.authority id) (w'.authority id) := by
  obtain ⟨x, hsend⟩ := Protocol.transmits_of_step hst
  have hbefore : w.authority id (.outbox i th) = w'.authority id (.outbox i th) +
      if x.handsOver i id = true then 1 else 0 := by
    rw [LobbyWorld.authority, hsend.sent, List.countP_cons]
    rfl
  have howner : ∀ j, w'.authority id (.owner j) = w.authority id (.owner j) := by
    intro j
    rw [LobbyWorld.authority, LobbyWorld.authority, hsend.nodes]
  have houts : ∀ j th', ¬ (j = i ∧ th' = th) →
      w'.authority id (.outbox j th') = w.authority id (.outbox j th') := by
    intro j th' hne
    rw [LobbyWorld.authority, LobbyWorld.authority, hsend.out j th' fun hj hth => hne ⟨hj, hth⟩]
  have hlinks : ∀ s r, w'.authority id (.link s r) ≤ w.authority id (.link s r) +
      if s = i ∧ r ≠ i ∧ x.message.names r id = true then 1 else 0 := by
    intro s r
    rw [LobbyWorld.authority, LobbyWorld.authority]
    by_cases hs : s = i
    · subst hs
      rw [hsend.link r]
      split
      · next hr =>
          rw [List.countP_append]
          refine Nat.add_le_add_left ((countP_copies_le x r).trans (Nat.le_of_eq ?_)) _
          simp only [hr, true_and, ne_eq, not_false_eq_true]
      · exact Nat.le_add_right _ _
    · rw [hsend.links s r hs]
      exact Nat.le_add_right _ _
  have hrest : ∀ p, (∀ s r, p = .link s r → ¬ (s = i ∧ r ≠ i ∧ x.message.names r id = true)) →
      w'.authority id p ≤ w.authority id p := by
    intro p hp
    cases p with
    | owner j => exact Nat.le_of_eq (howner j)
    | outbox j th' =>
        by_cases hj : j = i ∧ th' = th
        · obtain ⟨rfl, rfl⟩ := hj
          omega
        · exact Nat.le_of_eq (houts j th' hj)
    | link s r =>
        have hle := hlinks s r
        rwa [if_neg (hp s r rfl)] at hle
  by_cases hnames : ∃ r, r ≠ i ∧ x.message.names r id = true
  · obtain ⟨r, hne, hr⟩ := hnames
    rw [if_pos (handsOver_of_names hne hr)] at hbefore
    have hlink := hlinks i r
    rw [if_pos ⟨rfl, hne, hr⟩] at hlink
    refine .move (p := .outbox i th) (q := .link i r) nofun (by omega) hlink fun p hp => hrest p ?_
    rintro s r' rfl ⟨rfl, _, hr'⟩
    exact hp (by rw [names_inj hr' hr])
  · exact .drop fun p => hrest p fun s r _ hsr => hnames ⟨r, hsr.2⟩

/-- A section changes the authority of its node and of its thread's outbox only. -/
theorem authority_section_frame {i : Bytes} {n : LobbyNode} {th : ThreadKind}
    {xs : List LobbySend} {p : Authority} (hp : p ≠ .owner i) (hp' : p ≠ .outbox i th) :
    LobbyWorld.authority ((w.setNode i n).setOut i th xs) id p = w.authority id p := by
  cases p with
  | owner j =>
      have hj : j ≠ i := fun heq => hp (heq ▸ rfl)
      show (if id ∈ (Function.update w.nodes i n j).lobby.owned then 1 else 0) = _
      rw [Function.update_of_ne hj]
      rfl
  | outbox j th' =>
      have hj : ¬ (j = i ∧ th' = th) := fun heq => hp' (by rw [heq.1, heq.2])
      show List.countP _ (if j = i ∧ th' = th then xs else w.out j th') = _
      rw [if_neg hj]
      rfl
  | link s r => rfl

/-- A link that loses datagrams gains no authority. -/
theorem authority_setLink_le {s r : Bytes} {l : List (Copy LobbyDatagram)}
    (hle : l.countP (handedTo r id) ≤ (w.links s r).countP (handedTo r id)) (p : Authority) :
    LobbyWorld.authority (w.setLink s r l) id p ≤ w.authority id p := by
  cases p with
  | owner j => exact Nat.le_refl _
  | outbox j th => exact Nat.le_refl _
  | link s' r' =>
      show List.countP _ (if s' = s ∧ r' = r then l else w.links s' r') ≤ _
      split
      · next heq =>
          obtain ⟨rfl, rfl⟩ := heq
          exact hle
      · exact Nat.le_refl _

/-- **One step moves the authority, drops it, or makes a new one.** -/
theorem authority_step (hk : ∀ i, (w'.nodes i).Keyed) (hpid : ∀ i, (w.nodes i).lobby.localPid = i)
    (hnamed : ∀ i, ((w'.nodes i).lobby.view id).Named (w.nodes i).lobby.localPid)
    (hst : (lobbyProtocol endpoint).step w a = some w') :
    Passes (MintsAuthority w id a) (w.authority id) (w'.authority id) := by
  cases a with
  | call i b =>
      obtain ⟨hout, o, ho, hw⟩ := Protocol.step_call hst
      simp only [lobbyProtocol] at ho
      split at ho
      · cases ho
      next hcall =>
      obtain ⟨q, hq, rfl⟩ := Option.map_eq_some_iff.1 ho
      rw [Protocol.post_nil] at hw
      have hnode : w'.nodes i = { lobby := q.state, details := (w.nodes i).held b } := by
        rw [hw]
        exact Function.update_self i _ _
      refine authority_section (hk i) (hpid i) hq (by rw [hnode]) (hnamed i) hout ?_
        (fun p hp hp' => ?_) fun hnot howned => ?_
      · rw [hw]
        exact if_pos ⟨rfl, rfl⟩
      · rw [hw, authority_section_frame hp hp']
      · have hstep : (w.nodes i).step b = some (w'.nodes i) := by
          rw [hnode, LobbyNode.step, hq]
          rfl
        rcases gains hstep hnot (by rw [hnode]; exact howned) with ⟨tick, o, rfl, rfl⟩ | ⟨tick,
          source, r, rfl, _⟩
        · exact .inl rfl
        · exact absurd rfl hcall
  | send i th => exact authority_send hst
  | receive s r k tick keep =>
      obtain ⟨hout, c, hc, hw⟩ := Protocol.step_receive hst
      rw [LobbyWorld.handle_locked, Protocol.post_nil] at hw
      have hlink : w'.authority id (.link s r) =
        (Protocol.delivered (lobbyProtocol endpoint) (w.nodes r)
          (w.links s r) k c keep).countP (handedTo r id) := by
        rw [hw]
        show List.countP _ (if s = s ∧ r = r then _ else w.links s r) = _
        rw [if_pos ⟨rfl, rfl⟩]
      have hmarked : ∀ mark, handedTo r id { c with taken := c.taken || mark } = true →
        handedTo r id c = true := by
        intro mark h
        simp only [handedTo, Bool.and_eq_true, Bool.not_eq_true', Bool.or_eq_false_iff] at h ⊢
        exact ⟨h.1.1, h.2⟩
      have hfewer : ∀ p, LobbyWorld.authority
        (w.setLink s r (Protocol.delivered (lobbyProtocol endpoint) (w.nodes r)
          (w.links s r) k c keep)) id p ≤ w.authority id p :=
        authority_setLink_le (Protocol.countP_delivered_le keep hc (hmarked _))
      have hnode : w'.nodes r =
        ((lobbyProtocol endpoint).handle (w.nodes r) tick s c.message).node := by
        rw [hw]
        exact Function.update_self r _ _
      have hlater : w'.out r .receive =
        ((lobbyProtocol endpoint).handle (w.nodes r) tick s c.message).later := by
        rw [hw]
        exact if_pos ⟨rfl, rfl⟩
      have hrest : ∀ p, p ≠ .owner r → p ≠ .outbox r .receive →
        w'.authority id p ≤ w.authority id p := by
        intro p hp hp'
        rw [hw, authority_section_frame hp hp']
        exact hfewer p
      cases hread : c.message.read with
      | none =>
          -- the node and its outbox stay as they were
          rw [LobbyWorld.handle_unread hread] at hnode hlater
          refine .drop fun p => ?_
          rcases Classical.em (p = .owner r) with rfl | hp
          · rw [LobbyWorld.authority, hnode]
            exact Nat.le_refl _
          · rcases Classical.em (p = .outbox r .receive) with rfl | hp'
            · rw [LobbyWorld.authority, hlater]
              exact Nat.zero_le _
            · exact hrest p hp hp'
      | some m =>
          rw [LobbyWorld.handle_read hread] at hnode hlater
          refine authority_section (hk r) (hpid r) (b := .datagram tick (endpoint s) m) rfl
            (by rw [hnode]; rfl) (hnamed r) hout hlater hrest fun hnot howned => ?_
          have hstep : (w.nodes r).step (.datagram tick (endpoint s) m) = some (w'.nodes r) := by
            rw [hnode]
            rfl
          rcases gains hstep hnot (by rw [hnode]; exact howned) with
            ⟨_, _, hcreate, _⟩ | ⟨_, _, q, hq, hid, htakes, hname⟩
          · cases hcreate
          · cases hq
            cases huntaken : c.taken with
            | false =>
              refine .inr ⟨.link s r, by simp, ?_⟩
              rw [hlink]
              refine Protocol.countP_delivered_lt keep hc ?_ ?_
              · simp only [handedTo, huntaken, hread, Option.any_some, LobbyMessage.names,
                  Bool.not_false, Bool.true_and, Bool.and_eq_true, decide_eq_true_eq]
                exact ⟨hid, hname.trans (hpid r)⟩
              · have htaken : (lobbyProtocol endpoint).takes (w.nodes r) c.message = true := by
                  show c.message.read.any _ = true
                  rw [hread]
                  exact htakes
                rw [handedTo, htaken, Bool.or_true]
                rfl
            | true => exact .inl ⟨c, _, hc, huntaken, hread, hid, htakes⟩
  | lose s r k =>
      obtain ⟨_, rfl⟩ := Protocol.step_lose hst
      exact .drop (authority_setLink_le (List.eraseIdx_sublist _ _).countP_le)

/-- Every owner's record names it, and the authority over each lobby is at one place at most. -/
structure Governed (w : LobbyWorld) : Prop where
  named : ∀ i id, ((w.nodes i).lobby.view id).Named (w.nodes i).lobby.localPid
  sole : ∀ id, Sole (w.authority id)

/-- At the start no lobby has an authority. -/
theorem governed_start : Governed LobbyWorld.start where
  named _ _ := nofun
  sole id := by
    refine ⟨.owner [], ?_, fun p _ => ?_⟩
    · exact Nat.zero_le _
    · cases p <;> rfl

/-- A step of a run keeps it. -/
theorem governed_step (hrun : Run (lobbyProtocol endpoint).step HandsOverOnce LobbyWorld.start w)
    (h : Governed w) (hok : HandsOverOnce w a) (hst : (lobbyProtocol endpoint).step w a = some w') :
      Governed w' := by
  have hpid := LobbyWorld.localPid_of_run hrun
  have hnamed : ∀ i id, ((w'.nodes i).lobby.view id).Named (w.nodes i).lobby.localPid := by
    intro i id
    rcases LobbyWorld.node_step hst i with ⟨_, heq⟩ | ⟨b, hb, hn⟩
    · rw [heq]
      exact h.named i id
    · refine named_step (LobbyWorld.keyed_of_run hrun i) (fun tick o hcreate => ?_)
        (h.named i id) hn
      subst hcreate
      rcases LobbyWorld.actionAt_eq_some hb with ⟨rfl, _⟩ | ⟨_, _, _, _, _, _, _, _, _, hdata⟩
      · exact hok.1.trans (hpid i).symm
      · cases hdata
  have hpid' := LobbyWorld.localPid_of_run (.tail a hrun hok hst)
  refine ⟨fun i id => ?_, fun id => ?_⟩
  · have heq : (w'.nodes i).lobby.localPid = (w.nodes i).lobby.localPid :=
      (hpid' i).trans (hpid i).symm
    rw [heq]
    exact hnamed i id
  · have hpasses := authority_step (LobbyWorld.keyed_of_run (.tail a hrun hok hst)) hpid
      (fun i => hnamed i id) hst
    exact (h.sole id).passes hpasses hok.vacant

/-- It holds in every run. -/
theorem governed_of_run (h : Run (lobbyProtocol endpoint).step HandsOverOnce LobbyWorld.start w) :
    Governed w :=
  h.invariant' governed_start fun _ _ _ hrun hu hok hst => governed_step hrun hu hok hst

/-- What a step of a run does with the authority over a lobby. -/
theorem authority_of_run (h : Run (lobbyProtocol endpoint).step HandsOverOnce LobbyWorld.start w)
    (hok : HandsOverOnce w a) (hst : (lobbyProtocol endpoint).step w a = some w') (id : Bytes) :
    Passes (MintsAuthority w id a) (w.authority id) (w'.authority id) := by
  have h' := Run.tail a h hok hst
  have hpid := LobbyWorld.localPid_of_run h
  refine authority_step (LobbyWorld.keyed_of_run h') hpid (fun i => ?_) hst
  have hnamed := (governed_of_run h').named i id
  rw [LobbyWorld.localPid_of_run h' i] at hnamed
  rw [hpid i]
  exact hnamed

/-- A node that owns the lobby has the authority over it. -/
theorem authority_owner_ne_zero {i : Bytes} :
    w.authority id (.owner i) ≠ 0 ↔ id ∈ (w.nodes i).lobby.owned := by
  rw [LobbyWorld.authority]
  split
  · next h => exact iff_of_true one_ne_zero h
  · next h => exact iff_of_false (fun hne => hne rfl) h

end

/-- **Single authority.** In every run in which lobbies are created by the local user under vacant
ids, and no announce hands a lobby over a second time while it is owned or handed over, a lobby has
one owner at most. Datagrams may be delivered in any order, again and again, or be lost. -/
theorem single_authority {endpoint : Bytes → Endpoint} {w : LobbyWorld}
    (h : Run (lobbyProtocol endpoint).step HandsOverOnce LobbyWorld.start w) {i j id : Bytes}
    (hi : id ∈ (w.nodes i).lobby.owned) (hj : id ∈ (w.nodes j).lobby.owned) : i = j := by
  have hsole := (governed_of_run h).sole id
  have hsame := hsole.unique (authority_owner_ne_zero.2 hi) (authority_owner_ne_zero.2 hj)
  exact Authority.owner.inj hsame

/-- The executable form of `HandsOverOnce`, without new lobbies. -/
def handsOverOnceTest (w : LobbyWorld) : LobbyEvent → Bool
  | .call _ (.createLobby _ _) => false
  | .receive s r k _ _ => (w.links s r)[k]?.all fun c =>
    !c.message.read.any (w.nodes r).takesOver || !c.taken
  | _ => true

/-- A step that passes the test meets `HandsOverOnce`. -/
theorem handsOverOnce_of_test (w : LobbyWorld) (a : LobbyEvent) (h : handsOverOnceTest w a = true) :
    HandsOverOnce w a := by
  cases a with
  | call i b =>
      cases b with
      | createLobby => cases h
      | _ => trivial
  | receive s r k tick keep =>
      intro c hc m hm htakes
      have hall := (Option.all_eq_true _ _).1 h c hc
      have hany : c.message.read.any (w.nodes r).takesOver = true :=
        (Option.any_eq_true _ _).2 ⟨m, hm, htakes⟩
      rw [hany] at hall
      exact .inl (by simpa using hall)
  | send | lose => trivial

/-- The lobby is vacant before the first step. -/
theorem vacant_start (id : Bytes) : LobbyWorld.start.Vacant id := fun p => by cases p <;> rfl

/-- The first node creates a lobby. -/
def sampleCreate : LobbyEvent := .call (str "a") (.createLobby 7 (sampleLobby (str "a")))

/-- The second one joins it and is promoted; the announce may be delivered to it again. -/
def samplePromotion : List LobbyEvent :=
  (sampleVisit (sampleLobby (str "a"))).tail ++
    [.call (str "a") (.promoteMember (sampleLobbyId (str "a")) (str "b")), .send (str "a") .game,
      .receive (str "a") (str "b") 0 9 true]

/-- The second node promotes the first one, takes delivery of the announce, and is delivered the
earlier one again. -/
def sampleReturn : List LobbyEvent :=
  [.call (str "b") (.promoteMember (sampleLobbyId (str "a")) (str "a")), .send (str "b") .game,
    .receive (str "b") (str "a") 0 10 false, .receive (str "a") (str "b") 0 11 false]

/-- The node owns the lobby. -/
def sampleOwns (w : LobbyWorld) (i : Bytes) : Bool :=
  sampleLobbyId (str "a") ∈ (w.nodes i).lobby.owned

/-- After the promotion the second node is the only owner. -/
theorem single_authority_sample :
    ∃ w, Run (lobbyProtocol sampleEndpoints).step HandsOverOnce LobbyWorld.start w ∧
      sampleLobbyId (str "a") ∈ (w.nodes (str "b")).lobby.owned ∧
      ∀ i, sampleLobbyId (str "a") ∈ (w.nodes i).lobby.owned → i = str "b" := by
  have hrun : (((lobbyProtocol sampleEndpoints).step LobbyWorld.start sampleCreate).bind fun u =>
      (execIf (lobbyProtocol sampleEndpoints).step handsOverOnceTest u
        samplePromotion).map fun w =>
        sampleOwns w (str "b")) = some true := by decide +kernel
  obtain ⟨u, hu, hrun⟩ := Option.bind_eq_some_iff.1 hrun
  obtain ⟨w, hw, howns⟩ := Option.map_eq_some_iff.1 hrun
  have hcreate : HandsOverOnce LobbyWorld.start sampleCreate := ⟨rfl, vacant_start _⟩
  have hl := Run.trans (.tail _ .refl hcreate hu) (Run.of_execIf handsOverOnce_of_test hw)
  exact ⟨w, hl, of_decide_eq_true howns, fun i hi => single_authority hl hi
    (of_decide_eq_true howns)⟩

/-- Without the condition this fails: the announce of the promotion arrives twice at the second
node, the second time after it handed the lobby back. -/
theorem not_single_authority :
    ¬ ∀ (endpoint : Bytes → Endpoint) (w : LobbyWorld),
      Run (lobbyProtocol endpoint).step Always LobbyWorld.start w →
      ∀ i j id, id ∈ (w.nodes i).lobby.owned → id ∈ (w.nodes j).lobby.owned → i = j := by
  intro h
  have hrun : (exec (lobbyProtocol sampleEndpoints).step LobbyWorld.start
      (sampleCreate :: samplePromotion ++ sampleReturn)).map
        (fun w => (sampleOwns w (str "a"), sampleOwns w (str "b"))) =
      some (true, true) := by decide +kernel
  obtain ⟨w, hw, howns⟩ := Option.map_eq_some_iff.1 hrun
  obtain ⟨ha, hb⟩ := Prod.ext_iff.1 howns
  have hsame := h _ w (Run.of_exec hw) _ _ _ (of_decide_eq_true ha) (of_decide_eq_true hb)
  exact absurd hsame (by decide)

end EOSEmu
