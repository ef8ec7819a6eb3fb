import EOSEmu.Core.Platform
import EOSEmu.Social.Exchange

/-!
# Where invites come from

Nobody is shown an invite that was not sent: whatever datagrams the network loses, repeats and
reorders, an invite in a list and a custom invite the game is told of go back to a call of the user
they name (`invites_authentic`).
-/

namespace EOSEmu

open Lib Protocol

/-! ## Names -/

/-- No call changes a node's product id. -/
theorem SessionNode.outcome_localPid {n : SessionNode} {a : SessionAction} {o : SessionOutcome}
    (h : n.outcome a = some o) : o.state.localPid = n.sessions.localPid := by
  have hrewrite : ∀ name f, (n.sessions.rewriteSession name f).state.localPid =
    n.sessions.localPid := by
    intro name f
    unfold SessionsInterface.rewriteSession
    split <;> rfl
  cases a with
  | updateSession tick m =>
      cases h
      unfold SessionsInterface.updateSession
      split
      · rfl
      · split <;> rfl
  | destroySession name =>
      cases h
      unfold SessionsInterface.destroySession
      split <;> rfl
  | joinSession name i me =>
      obtain ⟨d, _, rfl⟩ := Option.map_eq_some_iff.1 h
      rfl
  | startSession | endSession | registerPlayers | unregisterPlayers =>
      cases h
      exact hrewrite _ _
  | periodicAnnounce names =>
      simp only [outcome] at h
      split at h <;> cases h
      rfl
  | copyKnown | copyOwned =>
      cases h
      rfl

/-- No message changes a node's product id. -/
theorem SessionsInterface.onDatagram_localPid (s : SessionsInterface) (tick : UInt64)
    (source : Endpoint) (m : SessionMessage) :
    (s.onDatagram tick source m).localPid = s.localPid := by
  cases m with
  | announce r =>
      simp only [onDatagram]
      split <;> rfl
  | withdraw => rfl

/-- A node keeps its name. -/
theorem SocialNode.step_localPid {n t : SocialNode} {a : SocialAction} (h : n.step a = some t)
    (k : SocialKind) : t.localPid k = n.localPid k := by
  unfold step at h
  obtain ⟨⟨u, notes⟩, hout, rfl⟩ := Option.map_eq_some_iff.1 h
  have hsame : ∀ {v : SocialNode}, v.lobby.lobby.localPid = n.lobby.lobby.localPid →
      v.sessions.sessions.localPid = n.sessions.sessions.localPid →
      v.localPid k = n.localPid k := by
    intro v hlobby hsession
    cases k
    · exact hlobby
    · exact hsession
  cases a with
  | lobby b =>
      obtain ⟨lobby, hlobby, hu⟩ := Option.map_eq_some_iff.1 hout
      cases hu
      exact hsame (LobbyNode.step_localPid hlobby) rfl
  | session b =>
      obtain ⟨o, ho, hu⟩ := Option.map_eq_some_iff.1 hout
      cases hu
      exact hsame rfl (SessionNode.outcome_localPid ho)
  | sessionDatagram tick source m =>
      cases hout
      exact hsame rfl (SessionsInterface.onDatagram_localPid _ tick source m)
  | rejectInvite | acceptInviteFromOverlay | acknowledgeEventId | otherPlatform =>
      cases hout
      exact hsame rfl rfl
  | inviteDatagram | rejectInviteFromOverlay | beginJoinFromOverlay =>
      simp only [outcome] at hout
      split at hout <;> cases hout <;> exact hsame rfl rfl

/-! ## Sends -/

/-- A call sends an invite. -/
inductive SendsLetter (x : InviteTransition) : Letter → Prop
  | lobby {j lobbyId target : Bytes} {dest : Endpoint} :
      x.action = .call j (.sendLobbyInvite (some lobbyId) (some target) dest) →
      SendsLetter x (.native .lobby lobbyId j target)
  | session {j name target : Bytes} {dest : Endpoint} {r : SessionRecord} :
      x.action = .call j (.sendSessionInvite (some name) (some target) dest) →
      (x.pre.nodes j).social.sessions.sessions.localSessions.get? name = some r →
      SendsLetter x (.native .session r.sessionId j target)
  | custom {j user target : Bytes} {targets : List (Option (Bytes × Endpoint))} {dest : Endpoint} :
      x.action = .call j (.sendCustomInvite user targets) → some (target, dest) ∈ targets →
      SendsLetter x (.custom user target (x.pre.nodes j).custom.outgoingPayload)

/-- The invite was sent. -/
def LetterSent (l : List InviteTransition) (y : Letter) : Prop := ∃ x ∈ l, SendsLetter x y

/-- The invites of a call have strings whose lengths fit their length fields. -/
def ShortCalls (w : InviteWorld) : InviteEvent → Prop
  | .call j c => ∀ y ∈ (w.nodes j).letters c, y.1.Short
  | _ => True

/-- The letters of a call are sent by it. -/
theorem sendsLetter_of_mem {x : InviteTransition} {j : Bytes} {c : PartyCall}
    (hx : x.action = .call j c) (hpid : ∀ k, (x.pre.nodes j).social.localPid k = j)
    {y : Letter × Endpoint} (hy : y ∈ (x.pre.nodes j).letters c) : SendsLetter x y.1 := by
  cases c with
  | social | setCustomInvite | message => cases hy
  | sendLobbyInvite lobbyId target dest =>
      cases lobbyId with
      | none => cases hy
      | some lobbyId => cases target with
        | none => cases hy
        | some target =>
            simp only [Party.letters, Party.sendLobbyInvite] at hy
            split at hy
            · rw [List.mem_singleton.1 hy, hpid]
              exact .lobby hx
            · cases hy
  | sendSessionInvite name target dest =>
      cases name with
      | none => cases hy
      | some name => cases target with
        | none => cases hy
        | some target =>
            simp only [Party.letters, Party.sendSessionInvite] at hy
            split at hy
            · cases hy
            · next hid =>
                dsimp only at hy
                split at hy
                · cases hr : (x.pre.nodes j).social.sessions.sessions.localSessions.get? name with
                  | none => simp [hr] at hid
                  | some r =>
                      rw [List.mem_singleton.1 hy, hpid, hr]
                      exact .session hx hr
                · cases hy
  | sendCustomInvite user targets =>
      obtain ⟨target, htarget, hletter⟩ := List.mem_filterMap.1 hy
      cases target with
      | none => cases hletter
      | some entry =>
          simp only [Party.customLetter] at hletter
          split at hletter <;> cases hletter
          exact .custom hx htarget

/-! ## What a section keeps -/

section
variable {l : List InviteTransition} {i : Bytes} {p p' : Party}

/-- The invites of a node were sent to it. -/
structure InvitesSent (l : List InviteTransition) (i : Bytes) (p : Party) : Prop where
  name : ∀ k, p.social.localPid k = i
  native : ∀ k, ∀ inv ∈ (p.social.book k).invites,
    LetterSent l (.native k inv.subject inv.fromProduct i)
  custom : ∀ c ∈ p.customReceived, LetterSent l (.custom c.sender i c.payload)

/-- What is handed to the transport is no invite, or one that was sent. -/
def MailSent (l : List InviteTransition) (m : Mailing) : Prop :=
  ∀ y : Letter, m.message = y.outgoing → y.Short ∧ LetterSent l y

/-- A datagram comes from the transport. -/
def DatagramSent (l : List InviteTransition) (datagram : Bytes) : Prop :=
  ∃ m : Mailing, m.net.transmit m.message m.dest = some datagram ∧ MailSent l m

/-- A letter once sent stays sent. -/
theorem LetterSent.snoc {y : Letter} (h : LetterSent l y) (x : InviteTransition) :
    LetterSent (l ++ [x]) y := by
  obtain ⟨z, hz, hsends⟩ := h
  exact ⟨z, List.mem_append_left _ hz, hsends⟩

/-- So do the invites of a node. -/
theorem InvitesSent.snoc (h : InvitesSent l i p) (x : InviteTransition) :
    InvitesSent (l ++ [x]) i p where
  name := h.name
  native k inv hinv := (h.native k inv hinv).snoc x
  custom c hc := (h.custom c hc).snoc x

/-- So does the mail under way. -/
theorem MailSent.snoc {m : Mailing} (h : MailSent l m) (x : InviteTransition) :
    MailSent (l ++ [x]) m := by
  intro y hy
  exact ⟨(h y hy).1, (h y hy).2.snoc x⟩

/-- A section of the lobbies, the sessions and the overlay receives nothing. -/
theorem InvitesSent.social (h : InvitesSent l i p) {a : SocialAction} {social : SocialNode}
    (ha : Party.isArrival a = false) (hst : p.social.step a = some social) :
    InvitesSent l i { p with social } where
  name k := (SocialNode.step_localPid hst k).trans (h.name k)
  native k inv hinv := by
    have hinvites := (SocialNode.step_invites hst k).invites
    have hnone : p.social.arrives k a = none := by
      cases a with
      | inviteDatagram => cases ha
      | _ => rfl
    rw [hnone, Option.toList_none, List.append_nil] at hinvites
    change inv ∈ (social.book k).invites at hinv
    rw [hinvites] at hinv
    split at hinv
    · exact h.native k inv hinv
    · exact h.native k inv (List.mem_of_mem_eraseP hinv)
  custom := h.custom

/-- A handler adds the invite it read, if it is for the user. -/
theorem InvitesSent.onLetter (h : InvitesSent l i p) {y : Letter} (hy : LetterSent l y) :
    InvitesSent l i (p.onLetter y) := by
  cases y with
  | native k subject sender target =>
      cases hst : p.social.step (.inviteDatagram k subject sender target) with
      | none =>
          simp only [Party.onLetter, hst, Option.getD_none]
          exact ⟨h.name, h.native, h.custom⟩
      | some social =>
          simp only [Party.onLetter, hst, Option.getD_some]
          refine ⟨fun j => (SocialNode.step_localPid hst j).trans (h.name j), fun j inv hinv => ?_,
            h.custom⟩
          change inv ∈ (social.book j).invites at hinv
          rw [(SocialNode.step_invites hst j).invites] at hinv
          rcases List.mem_append.1 hinv with hinv | hinv
          · exact h.native j inv hinv
          · rw [Option.mem_toList] at hinv
            obtain ⟨⟨rfl, hto⟩, heq⟩ := Option.ite_none_right_eq_some.1 hinv
            cases heq
            rw [h.name] at hto
            rw [hto] at hy
            exact hy
  | custom sender target payload =>
      simp only [Party.onLetter]
      split
      · exact h
      · next hto =>
          rw [h.name, ne_eq, not_not] at hto
          refine ⟨h.name, h.native, fun c hc => ?_⟩
          rcases List.mem_append.1 hc with hc | hc
          · exact h.custom c hc
          · rw [List.mem_singleton.1 hc]
            rw [hto] at hy
            exact hy

/-- A received datagram. -/
theorem InvitesSent.receive (h : InvitesSent l i p) {datagram : Bytes}
    (hd : DatagramSent l datagram) (ip : UInt32) : InvitesSent l i (p.receive ip datagram) := by
  unfold Party.receive
  split
  · exact h
  · next y hletter =>
      obtain ⟨m, hsent, hmail⟩ := hd
      exact h.onLetter (hmail y (letter_of_transmit hsent (fun y hy => (hmail y hy).1) hletter)).2

/-- What a call leaves, and hands to the transport. -/
theorem InvitesSent.call {x : InviteTransition} {c : PartyCall} {o : Section Party Mailing}
    (h : InvitesSent l i (x.pre.nodes i)) (hx : x.action = .call i c)
    (hshort : ShortCalls x.pre x.action) (ho : (x.pre.nodes i).call c = some o) :
    InvitesSent (l ++ [x]) i o.node ∧ o.locked = [] ∧ ∀ m ∈ o.later, MailSent (l ++ [x]) m := by
  have hletters : ∀ m ∈ ((x.pre.nodes i).letters c).map (x.pre.nodes i).mail,
    MailSent (l ++ [x]) m := by
    intro m hm y hy
    obtain ⟨z, hz, rfl⟩ := List.mem_map.1 hm
    rw [hx] at hshort
    rw [← Letter.outgoing_inj hy]
    exact ⟨hshort z hz, x, List.mem_append_right _ List.mem_cons_self,
      sendsLetter_of_mem hx h.name hz⟩
  cases c with
  | social a =>
      simp only [Party.call] at ho
      split at ho
      · cases ho
      · next ha =>
          obtain ⟨social, hst, rfl⟩ := Option.map_eq_some_iff.1 ho
          exact ⟨(h.social (by simpa using ha) hst).snoc x, rfl, by simp⟩
  | setCustomInvite payload =>
      cases ho
      exact ⟨⟨h.name, (h.snoc x).native, (h.snoc x).custom⟩, rfl, by simp⟩
  | message out dest =>
      simp only [Party.call] at ho
      split at ho
      · cases ho
      · next hout =>
          cases ho
          refine ⟨h.snoc x, rfl, fun m hm y hy => ?_⟩
          rw [List.mem_singleton.1 hm] at hy
          exact absurd (Option.isSome_of_eq_some (Outgoing.letter_eq_some.2 hy)) hout
  | sendLobbyInvite | sendSessionInvite | sendCustomInvite =>
      cases ho
      exact ⟨h.snoc x, rfl, hletters⟩

end

/-- **No forged invites.** Whatever datagrams the network loses, repeats, reorders and brings to
the wrong host, an invite in the list of a node was sent by the user it names as its sender, to
this user, for this lobby, or for the session the sender then had under the name; and a custom
invite the game is told of was sent to this user with this payload, which its sender had set, under
the name it gives. -/
theorem invites_authentic {reaches : Routing} {net : Bytes → LanNode} {l : List InviteTransition}
    {w : InviteWorld}
    (h : Trace (inviteProtocol reaches).step ShortCalls (InviteWorld.start net) l w) (i : Bytes) :
      InvitesSent l i (w.nodes i) := by
  refine (h.invariant (P := fun l w => Sound (InvitesSent l) (MailSent l) (DatagramSent l) w) ?_
    ?_).nodes i
  · constructor
    · intro i
      refine ⟨fun k => ?_, fun k inv hinv => ?_, fun c hc => ?_⟩
      · cases k <;> rfl
      · cases k <;> cases hinv
      · cases hc
    · intro i th x hx
      cases hx
    · intro s r c hc
      cases hc
  · intro l u v a hl ih hok hst
    have hold : Sound (InvitesSent (l ++ [⟨u, a, v⟩])) (MailSent (l ++ [⟨u, a, v⟩]))
        (DatagramSent (l ++ [⟨u, a, v⟩])) u := by
      refine ⟨fun i => (ih.nodes i).snoc _, fun i th m hm => (ih.out i th m hm).snoc
        _, fun s r c hc => ?_⟩
      obtain ⟨m, hsent, hmail⟩ := ih.links s r c hc
      exact ⟨m, hsent, hmail.snoc _⟩
    refine hold.step_of (fun m r d hm hwire => ⟨m, (inviteProtocol_wire.1 hwire).2, hm⟩)
      hst fun i o hsec => ?_
    cases hsec with
    | call ho =>
        obtain ⟨hnode, hlocked, hlater⟩ := (ih.nodes i).call (x := ⟨u, _, v⟩) rfl hok ho
        refine ⟨hnode, fun m hm => hlater m (hm.resolve_left ?_)⟩
        rw [hlocked]
        exact List.not_mem_nil
    | @handle s k ip keep c hc =>
        refine ⟨(hold.nodes i).receive (hold.links s i c (List.mem_of_getElem? hc)) ip, fun m hm =>
          ?_⟩
        rcases hm with hm | hm <;> cases hm

/-- The executable form of `ShortCalls`. -/
def shortCallsTest (w : InviteWorld) : InviteEvent → Bool
  | .call j c => decide (∀ y ∈ (w.nodes j).letters c, y.1.Short)
  | _ => true

/-- A step that passes the test meets `ShortCalls`. -/
theorem shortCalls_of_test (w : InviteWorld) (a : InviteEvent) (h : shortCallsTest w a = true) :
    ShortCalls w a := by
  cases a with
  | call j c =>
      show ∀ y ∈ (w.nodes j).letters c, y.1.Short
      exact of_decide_eq_true h
  | send | receive | lose => trivial

/-- Network nodes with tags of their own. -/
def sampleNet (i : Bytes) : LanNode :=
  { running := true, senderTag := senderTag i, unicastPort := 7001 }

/-- An invite to a lobby, which is delivered twice, and a custom invite. -/
def sampleMail : List InviteEvent :=
  [.call (str "a") (.sendLobbyInvite (some (str "l")) (some (str "b")) ⟨0x0A000002, 7001⟩),
    .send (str "a") .game, .receive (str "a") (str "b") 0 0x0A000001 true,
    .receive (str "a") (str "b") 0 0x0A000001 false,
      .call (str "a") (.setCustomInvite (some (str "x"))),
    .call (str "a") (.sendCustomInvite (str "a") [none, some (str "b", ⟨0x0A000002, 7001⟩)]),
    .send (str "a") .game, .receive (str "a") (str "b") 0 0x0A000001 false]

/-- The invites that arrived are the ones sent. -/
theorem invites_authentic_sample :
    ∃ w, execIf (inviteProtocol fun _ _ => true).step shortCallsTest (InviteWorld.start sampleNet)
      sampleMail = some w ∧
      InvitesSent (transitions (inviteProtocol fun _ _ => true).step (InviteWorld.start sampleNet)
        sampleMail) (str "b") (w.nodes (str "b")) ∧
      ((w.nodes (str "b")).social.book .lobby).invites = [⟨str "invite_1", str "l", str "a"⟩,
        ⟨str "invite_2", str "l", str "a"⟩] ∧
      (w.nodes (str "b")).customReceived = [⟨str "custominvite_1", str "a", str "x"⟩] :=
  ⟨_, rfl, invites_authentic (Trace.of_execIf shortCalls_of_test rfl)
    (str "b"), by decide, by decide⟩

end EOSEmu
