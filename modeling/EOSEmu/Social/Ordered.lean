import EOSEmu.Lib.Channel
import EOSEmu.Social.Authentic

/-!
# Invites in order

On a network without loss, repetition and reordering, where a datagram reaches the node whose
endpoint it was sent to, the invites that a user's calls sent to another user for their lobbies, or
for their sessions, are the ones that came into the other user's list, in the order of the calls,
followed by the ones still on their way (`invites_in_order`). The datagrams are the ones of the
library, byte for byte.
-/

namespace EOSEmu

open Lib Protocol

/-- An invite of one of the interfaces from one user to another. -/
def Letter.isBetween (k : SocialKind) (s t : Bytes) : Letter → Bool
  | .native j _ sender target => j = k ∧ sender = s ∧ target = t
  | .custom .. => false

/-- The sender that an invite of a lobby or session names is the user. -/
def Letter.IsFrom (i : Bytes) : Letter → Prop
  | .native _ _ sender _ => sender = i
  | .custom .. => True

/-- The invites a step sends from a node. -/
def postedAt (i : Bytes) (x : InviteTransition) : List Letter :=
  match x.action with
  | .call j c => if j = i then ((x.pre.nodes i).letters c).map Prod.fst else []
  | _ => []

/-- The invites a step puts into a list of a node. -/
def gainedAt (k : SocialKind) (i : Bytes) (x : InviteTransition) : List Letter :=
  (((x.post.nodes i).social.book k).invites.drop
    ((x.pre.nodes i).social.book k).invites.length).map fun inv =>
    .native k inv.subject inv.fromProduct i

/-- The invites on their way from one node to another, on a network with these endpoints. -/
def onTheWay (address : Bytes → Endpoint) (w : InviteWorld) (s t : Bytes) : List Letter :=
  ((inviteProtocol (routing address)).stream w s t).filterMap ((w.nodes t).net.letter 0)

/-- An invite for a lobby or session is sent to the endpoint of its user. -/
def Letter.directed (address : Bytes → Endpoint) : Letter × Endpoint → Bool
  | (.native _ _ _ target, dest) => dest = address target
  | (.custom .., _) => true

/-- The links are in order and lose nothing, and the invites of a call fit into a datagram of a
running node and are sent to the endpoints of their users: `EndpointFor` is up to date. -/
structure Carrying (address : Bytes → Endpoint) (w : InviteWorld) (a : InviteEvent) : Prop where
  fifo : Fifo w a
  leaves : ∀ j c, a = .call j c → ∀ y ∈ (w.nodes j).letters c, (w.nodes j).net.running = true ∧
    y.1.outgoing.payload.length ≤ maxDatagram - wireHeaderSize ∧ Letter.directed address y = true

/-! ## Letters that fit -/

/-- A letter that fits is short. -/
theorem Letter.short_of_fits {y : Letter}
    (h : y.outgoing.payload.length ≤ maxDatagram - wireHeaderSize) : y.Short := by
  have hstr : ∀ s : Bytes, (ByteWriter.str s).length = 4 + s.length := by
    intro s
    simp [ByteWriter.str, ByteWriter.u32]
  rw [y.payload_eq, List.length_append, List.length_append, hstr, hstr, hstr] at h
  unfold maxDatagram wireHeaderSize at h
  exact ⟨by omega, by omega, by omega⟩

/-- The letter a datagram carries does not depend on the host it comes from. -/
theorem LanNode.letter_ip (n : LanNode) (ip ip' : UInt32) (datagram : Bytes) :
    n.letter ip datagram = n.letter ip' datagram := by
  unfold letter receive
  split
  · rfl
  · dsimp only
    split
    · rfl
    · split
      · rfl
      · split <;> rfl

/-- What carries letters takes short calls. -/
theorem Carrying.shortCalls {address : Bytes → Endpoint} {w : InviteWorld} {a : InviteEvent}
    (h : Carrying address w a) : ShortCalls w a := by
  cases a with
  | call j c => exact fun y hy => Letter.short_of_fits (h.leaves j c rfl y hy).2.1
  | send | receive | lose => trivial

/-- The invites of a call go to valid endpoints, under the node's own name. -/
theorem Party.letters_valid {p : Party} {c : PartyCall} {i : Bytes}
    (hname : ∀ k, p.social.localPid k = i) {y : Letter × Endpoint} (hy : y ∈ p.letters c) :
    y.2.valid = true ∧ y.1.IsFrom i := by
  cases c with
  | social | setCustomInvite | message => cases hy
  | sendLobbyInvite lobbyId target dest =>
      simp only [letters, sendLobbyInvite] at hy
      split at hy
      · dsimp only at hy
        split at hy
        · next hvalid =>
            rw [List.mem_singleton.1 hy]
            exact ⟨hvalid, hname .lobby⟩
        · cases hy
      · cases hy
  | sendSessionInvite name target dest =>
      simp only [letters, sendSessionInvite] at hy
      split at hy
      · split at hy
        · cases hy
        · dsimp only at hy
          split at hy
          · next hvalid =>
              rw [List.mem_singleton.1 hy]
              exact ⟨hvalid, hname .session⟩
          · cases hy
      · cases hy
  | sendCustomInvite user targets =>
      obtain ⟨target, _, hletter⟩ := List.mem_filterMap.1 hy
      cases target with
      | none => cases hletter
      | some entry =>
          simp only [customLetter] at hletter
          split at hletter
          · next hvalid =>
              cases hletter
              exact ⟨hvalid, trivial⟩
          · cases hletter

/-! ## What a call sends -/

/-- The datagrams of a call that reach a node carry its invites to the node's user, and no
other. -/
theorem Party.letters_of_call {address : Bytes → Endpoint} {p : Party} {c : PartyCall}
    {o : Section Party Mailing}
    {n : LanNode} {k : SocialKind} {s t i : Bytes} (hname : ∀ k, p.social.localPid k = i)
    (htag : p.net.senderTag ≠ n.senderTag)
    (hleaves : ∀ y ∈ p.letters c, p.net.running = true ∧
      y.1.outgoing.payload.length ≤ maxDatagram - wireHeaderSize ∧
      Letter.directed address y = true)
    (ho : p.call c = some o) :
    (((inviteProtocol (routing address)).sends o t).filterMap (n.letter 0)).filter
      (·.isBetween k s t) = ((p.letters c).map Prod.fst).filter (·.isBetween k s t) := by
  have hmail : ∀ ys : List (Letter × Endpoint), (∀ y ∈ ys, y ∈ p.letters c) →
      (((ys.map p.mail).filterMap fun m => (inviteProtocol (routing address)).wire m t).filterMap
        (n.letter 0)).filter (·.isBetween k s t) = (ys.map Prod.fst).filter
          (·.isBetween k s t) := by
    intro ys hys
    induction ys with
    | nil => rfl
    | cons y ys ih =>
        have hy := hys y List.mem_cons_self
        have hrest := ih fun z hz => hys z (List.mem_cons_of_mem _ hz)
        obtain ⟨hrunning, hfits, hdirected⟩ := hleaves y hy
        have hshort : y.1.outgoing.payload.length < 2 ^ 16 := by
          unfold maxDatagram wireHeaderSize at hfits
          omega
        have hvalid : (Destination.sendTo y.2).valid = true := (letters_valid hname hy).1
        obtain ⟨datagram, hsent⟩ : ∃ d, p.net.transmit y.1.outgoing (.sendTo y.2) = some d := by
          refine ⟨_, LanNode.transmit_eq_some.2 ⟨?_, hrunning, hvalid, rfl⟩⟩
          rw [Nat.mod_eq_of_lt hshort]
          exact hfits
        cases hreaches : routing address (.sendTo y.2) t with
        | true =>
            have hwire : (inviteProtocol (routing address)).wire (p.mail y) t = some datagram :=
              inviteProtocol_wire.2 ⟨hreaches, hsent⟩
            have hletter : n.letter 0 datagram = some y.1 :=
              letter_of_fits hsent htag (Letter.short_of_fits hfits) hshort
            simp only [List.map_cons, List.filterMap_cons, hwire, hletter, List.filter_cons]
            rw [hrest]
        | false =>
            -- what goes elsewhere is an invite to another user
            have hwire : (inviteProtocol (routing address)).wire (p.mail y) t = none :=
              if_neg (by rw [mail, hreaches]; simp)
            have hother : y.1.isBetween k s t = false := by
              obtain ⟨letter, dest⟩ := y
              cases letter with
              | custom => rfl
              | native _ _ _ target =>
                  have hdest : dest = address target := of_decide_eq_true hdirected
                  have helsewhere : dest ≠ address t := of_decide_eq_false hreaches
                  refine decide_eq_false fun hbetween => ?_
                  rw [hdest, hbetween.2.2] at helsewhere
                  exact helsewhere rfl
            simp only [List.map_cons, List.filterMap_cons, hwire, List.filter_cons, hother]
            exact hrest
  cases c with
  | social a =>
      simp only [call] at ho
      split at ho
      · cases ho
      · obtain ⟨social, _, rfl⟩ := Option.map_eq_some_iff.1 ho
        rfl
  | setCustomInvite =>
      cases ho
      rfl
  | message out dest =>
      simp only [call] at ho
      split at ho
      · cases ho
      · next hout =>
          cases ho
          refine congrArg (List.filter _) (List.filterMap_eq_nil_iff.2 fun datagram hd => ?_)
          obtain ⟨m, hm, hwire⟩ := List.mem_filterMap.1 hd
          have hsent := (inviteProtocol_wire.1 hwire).2
          rw [List.nil_append, List.mem_singleton] at hm
          subst hm
          have hnot : ∀ y : Letter, out ≠ y.outgoing := fun y hy =>
            hout (Option.isSome_of_eq_some (Outgoing.letter_eq_some.2 hy))
          cases hletter : n.letter 0 datagram with
          | none => rfl
          | some y => exact absurd (letter_of_transmit hsent (fun z hz => absurd hz (hnot z))
              hletter) (hnot y)
  | sendLobbyInvite | sendSessionInvite | sendCustomInvite =>
      cases ho
      exact hmail _ fun y hy => hy

/-! ## What a node gains -/

/-- The invites a handler puts into a list. -/
theorem Party.gained_receive {p : Party} {t : Bytes} (hname : ∀ k, p.social.localPid k = t)
    (ip : UInt32) (datagram : Bytes) (k : SocialKind) (s : Bytes) :
    ((((p.receive ip datagram).social.book k).invites.drop
      (p.social.book k).invites.length).map fun inv =>
      Letter.native k inv.subject inv.fromProduct t).filter (·.isBetween k s t) =
    (p.net.letter ip datagram).toList.filter (·.isBetween k s t) := by
  have hsame : ∀ {q : Party} {y : Letter}, (q.social.book k).invites = (p.social.book k).invites →
      y.isBetween k s t = false →
      (((q.social.book k).invites.drop (p.social.book k).invites.length).map fun inv =>
        Letter.native k inv.subject inv.fromProduct t).filter (·.isBetween k s t) =
          [y].filter (·.isBetween k s t) := by
    intro q y heq hy
    rw [heq, List.drop_length]
    simp [hy]
  unfold receive
  split
  · next hnone => simp [hnone]
  · next y hy =>
      rw [hy, Option.toList_some]
      cases y with
      | custom sender target payload =>
          refine hsame ?_ rfl
          simp only [onLetter]
          split <;> rfl
      | native j subject sender target =>
          unfold onLetter
          cases hst : p.social.step (.inviteDatagram j subject sender target) with
          | none =>
              simp only [SocialNode.step, SocialNode.outcome, hname] at hst
              split at hst <;> cases hst
          | some social =>
              have hinvites := (SocialNode.step_invites hst k).invites
              rw [show SocialAction.rejects k (.inviteDatagram j subject sender target) =
                none from rfl] at hinvites
              simp only [SocialNode.arrives, hname] at hinvites
              simp only [hst, Option.getD_some]
              by_cases hto : j = k ∧ target = t
              · obtain ⟨rfl, rfl⟩ := hto
                rw [hinvites, if_pos ⟨rfl, rfl⟩, Option.toList_some, List.drop_left]
                rfl
              · rw [if_neg hto, Option.toList_none, List.append_nil] at hinvites
                refine hsame (q := { p with social }) hinvites ?_
                simp only [Letter.isBetween, decide_eq_false_iff_not, not_and]
                exact fun hj _ ht => hto ⟨hj, ht⟩

/-- A call puts nothing into a list. -/
theorem Party.gained_call {p : Party} {c : PartyCall} {o : Section Party Mailing}
    (ho : p.call c = some o) (k : SocialKind) :
    (o.node.social.book k).invites.drop (p.social.book k).invites.length =
      [] := by
  cases c with
  | social a =>
      simp only [call] at ho
      split at ho
      · cases ho
      · next ha =>
          obtain ⟨social, hst, rfl⟩ := Option.map_eq_some_iff.1 ho
          have hinvites := (SocialNode.step_invites hst k).invites
          have hnone : p.social.arrives k a = none := by
            cases a with
            | inviteDatagram => exact absurd rfl ha
            | _ => rfl
          rw [hnone, Option.toList_none, List.append_nil] at hinvites
          rw [List.drop_eq_nil_iff, hinvites]
          split
          · exact Nat.le_refl _
          · exact List.length_eraseP_le
  | message out dest =>
      simp only [call] at ho
      split at ho <;> cases ho
      exact List.drop_length
  | setCustomInvite | sendLobbyInvite | sendSessionInvite | sendCustomInvite =>
      cases ho
      exact List.drop_length

/-! ## Where datagrams come from -/

/-- The invites in what a node hands to the transport are short, and under its own name. -/
def Mailing.IsFrom (i : Bytes) (m : Mailing) : Prop := ∀ y : Letter, m.message = y.outgoing →
    y.Short ∧ y.IsFrom i

/-- Nodes keep their names and transports, and what is on a link was sent by the node at its
beginning. -/
structure Posts (net : Bytes → LanNode) (w : InviteWorld) : Prop where
  net : ∀ i, (w.nodes i).net = net i
  name : ∀ i k, (w.nodes i).social.localPid k = i
  out : ∀ i th, ∀ m ∈ w.out i th, m.IsFrom i
  links : ∀ s r, ∀ c ∈ w.links s r, ∃ m : Mailing, m.net.transmit m.message m.dest =
    some c.message ∧ m.IsFrom s

section
variable {p : Party} {c : PartyCall} {o : Section Party Mailing} {i : Bytes}

/-- A call keeps the name and the transport of its node, and sends under its name. -/
theorem Party.posts_call (hname : ∀ k, p.social.localPid k = i)
    (hshort : ∀ y ∈ p.letters c, y.1.Short) (ho : p.call c = some o) :
    o.node.net = p.net ∧ (∀ k, o.node.social.localPid k = i) ∧
    o.locked = [] ∧ ∀ m ∈ o.later, m.IsFrom i := by
  cases c with
  | social a =>
      simp only [call] at ho
      split at ho
      · cases ho
      · obtain ⟨social, hst, rfl⟩ := Option.map_eq_some_iff.1 ho
        exact ⟨rfl, fun k => (SocialNode.step_localPid hst k).trans (hname k), rfl, by simp⟩
  | setCustomInvite =>
      cases ho
      exact ⟨rfl, hname, rfl, by simp⟩
  | message out dest =>
      simp only [call] at ho
      split at ho
      · cases ho
      · next hout =>
          cases ho
          refine ⟨rfl, hname, rfl, fun m hm y hy => ?_⟩
          rw [List.mem_singleton.1 hm] at hy
          exact absurd (Option.isSome_of_eq_some (Outgoing.letter_eq_some.2 hy)) hout
  | sendLobbyInvite | sendSessionInvite | sendCustomInvite =>
      cases ho
      refine ⟨rfl, hname, rfl, fun m hm y hy => ?_⟩
      obtain ⟨z, hz, rfl⟩ := List.mem_map.1 hm
      rw [← Letter.outgoing_inj hy]
      exact ⟨hshort z hz, (letters_valid hname hz).2⟩

/-- A received datagram keeps them. -/
theorem Party.posts_receive (hname : ∀ k, p.social.localPid k = i) (ip : UInt32)
    (datagram : Bytes) :
    (p.receive ip datagram).net = p.net ∧ ∀ k, (p.receive ip datagram).social.localPid k = i := by
  unfold receive
  split
  · exact ⟨rfl, hname⟩
  · next y _ =>
      cases y with
      | native k subject sender target =>
          refine ⟨rfl, fun j => ?_⟩
          cases hst : p.social.step (.inviteDatagram k subject sender target) with
          | none =>
              simp only [onLetter, hst, Option.getD_none]
              exact hname j
          | some social =>
              simp only [onLetter, hst, Option.getD_some]
              exact (SocialNode.step_localPid hst j).trans (hname j)
      | custom =>
          simp only [onLetter]
          split <;> exact ⟨rfl, hname⟩

end

/-- A step keeps the letters on the way in order. -/
theorem Posts.step {reaches : Routing} {net : Bytes → LanNode} {w w' : InviteWorld}
    {a : InviteEvent} (h : Posts net w) (hshort : ShortCalls w a)
    (hst : (inviteProtocol reaches).step w a = some w') : Posts net w' := by
  have hsection : ∀ {i o}, SectionAt (inviteProtocol reaches) w i a o →
    o.node.net = (w.nodes i).net ∧
      (∀ k, o.node.social.localPid k = i) ∧ o.locked = [] ∧ ∀ m ∈ o.later, m.IsFrom i := by
    intro i o ho
    cases ho with
    | call ho => exact Party.posts_call (h.name i) hshort ho
    | handle =>
        obtain ⟨hnet, hname⟩ := Party.posts_receive (h.name i) _ _
        exact ⟨hnet, hname, rfl, by simp [inviteProtocol]⟩
  have hnodes : ∀ i, (w'.nodes i).net = net i ∧ ∀ k, (w'.nodes i).social.localPid k = i := by
    intro i
    rcases step_node hst i with heq | ⟨o, ho, heq⟩
    · rw [heq]
      exact ⟨h.net i, h.name i⟩
    · rw [heq]
      exact ⟨(hsection ho).1.trans (h.net i), (hsection ho).2.1⟩
  refine ⟨fun i => (hnodes i).1, fun i => (hnodes i).2, fun i th m hm => ?_, fun s r c hc => ?_⟩
  · rcases mem_out_of_step hst hm with hm | ⟨o, ho, hm⟩
    · exact h.out i th m hm
    · exact (hsection ho).2.2.2 m hm
  · rcases mem_links_of_step hst hc with hc | ⟨y, hy, hsame, _⟩ | ⟨_, _, m, ⟨th, hm⟩ | ⟨o, ho, hm⟩,
      hwire⟩
    · exact h.links s r c hc
    · exact hsame ▸ h.links s r y hy
    · exact ⟨m, (inviteProtocol_wire.1 hwire).2, h.out s th m hm⟩
    · rw [(hsection ho).2.2.1] at hm
      cases hm

/-- At the start no letter is on the way. -/
theorem posts_start (net : Bytes → LanNode) : Posts net (InviteWorld.start net) := by
  refine ⟨fun _ => rfl, fun i k => ?_, fun i th m hm => ?_, fun s r c hc => ?_⟩
  · cases k <;> rfl
  · cases hm
  · cases hc

/-! ## A run -/

section
variable {address : Bytes → Endpoint} {net : Bytes → LanNode} {w w' : InviteWorld} {a : InviteEvent}
  {k : SocialKind} {s t : Bytes}

/-- What a step sends to a node is read there as the invites of the call to the node's user. -/
theorem filterMap_sentAt (h : Posts net w) (htags : (net s).senderTag ≠ (net t).senderTag)
    (hok : Carrying address w a) (hst : (inviteProtocol (routing address)).step w a = some w') :
    (((inviteProtocol (routing address)).sentAt s t ⟨w, a, w'⟩).filterMap
      ((net t).letter 0)).filter
      (·.isBetween k s t) = (postedAt s ⟨w, a, w'⟩).filter (·.isBetween k s t) := by
  cases a with
  | send | receive | lose => rfl
  | call i c =>
      obtain ⟨_, o, ho, _⟩ := step_call hst
      unfold sentAt postedAt
      dsimp only
      split
      · next his =>
          subst his
          rw [ho, Option.map_some, Option.getD_some]
          exact Party.letters_of_call (h.name i) (by rw [h.net]; exact htags) (hok.leaves i c rfl)
            ho
      · rfl

/-- What a step puts into a list was delivered by it. -/
theorem gainedAt_eq (h : Posts net w) (hok : Carrying address w a)
    (hst : (inviteProtocol (routing address)).step w a = some w') :
    (gainedAt k t ⟨w, a, w'⟩).filter (·.isBetween k s t) =
      ((deliveredAt s t ⟨w, a, w'⟩).toList.filterMap ((net t).letter 0)).filter
        (·.isBetween k s t) := by
  have hsame : w'.nodes t = w.nodes t → gainedAt k t ⟨w, a, w'⟩ = [] := by
    intro heq
    unfold gainedAt
    dsimp only
    rw [heq, List.drop_length, List.map_nil]
  cases a with
  | send i th =>
      obtain ⟨x, hx⟩ := transmits_of_step hst
      rw [hsame (by rw [hx.nodes])]
      rfl
  | lose => exact hok.fifo.elim
  | call i c =>
      obtain ⟨_, o, ho, rfl⟩ := step_call hst
      by_cases hti : t = i
      · subst hti
        have hnode : ((inviteProtocol (routing address)).post
          ((w.setNode t o.node).setOut t .game o.later) t o.locked).nodes t = o.node :=
          Function.update_self t _ _
        unfold gainedAt
        dsimp only
        rw [hnode, Party.gained_call ho]
        rfl
      · rw [hsame (Function.update_of_ne hti _ _)]
        rfl
  | receive i j n ip keep =>
      obtain ⟨rfl, rfl⟩ := hok.fifo
      obtain ⟨c, hc⟩ := delivers_of_step (fun _ _ _ _ => rfl) hst
      have hdelivered : deliveredAt s t (⟨w, .receive i j 0 ip false, w'⟩ : InviteTransition) =
          if i = s ∧ j = t then some c.message else none := by
        simp [deliveredAt, hc.link]
      rw [hdelivered]
      by_cases hjt : j = t
      · subst hjt
        have hgained := Party.gained_receive (h.name j) ip c.message k s
        rw [h.net, LanNode.letter_ip (net j) ip 0] at hgained
        unfold gainedAt
        dsimp only
        rw [hc.node]
        refine hgained.trans ?_
        by_cases his : i = s
        · rw [if_pos ⟨his, rfl⟩]
          simp [List.filterMap_cons]
          cases (net j).letter 0 c.message <;> rfl
        · rw [if_neg fun heq => his heq.1]
          obtain ⟨m, hsent, hfrom⟩ := h.links i j c (by rw [hc.link]; exact List.mem_cons_self)
          cases hletter : (net j).letter 0 c.message with
          | none => rfl
          | some y =>
              obtain ⟨_, hy⟩ :=
                hfrom y (letter_of_transmit hsent (fun z hz => (hfrom z hz).1) hletter)
              have hnot : y.isBetween k s j = false := by
                cases y with
                | custom => rfl
                | native _ _ sender _ =>
                    have hsender : sender = i := hy
                    simp [Letter.isBetween, hsender, his]
              simp [hnot]
      · rw [hsame (hc.nodes t (Ne.symm hjt)), if_neg fun heq => hjt heq.2]
        rfl

end

/-- **Invites in order.** On a network that neither loses nor repeats nor reorders datagrams, where
the invites of the calls fit into a datagram and go to the endpoints of their users, and the two
users' nodes have tags of their own, the invites for lobbies, or for sessions, that a user's calls
sent to another user are the ones that came into the other user's list, in the order of the calls,
followed by the ones on their way. -/
theorem invites_in_order {address : Bytes → Endpoint} {net : Bytes → LanNode}
    {l : List InviteTransition} {w : InviteWorld} {s t : Bytes}
    (h : Trace (inviteProtocol (routing address)).step (Carrying address)
      (InviteWorld.start net) l w) (hst : s ≠ t)
    (htags : (net s).senderTag ≠ (net t).senderTag) (k : SocialKind) :
    (l.flatMap (postedAt s)).filter (·.isBetween k s t) =
      (l.flatMap (gainedAt k t)).filter (·.isBetween k s t) ++ (onTheWay address w s t).filter
        (·.isBetween k s t) := by
  have hposts : ∀ {l w}, Trace (inviteProtocol (routing address)).step (Carrying address)
    (InviteWorld.start net) l w → Posts net w := by
    intro l w h
    exact h.run.invariant (posts_start net) fun u v a hu hok hst => hu.step hok.shortCalls hst
  have hat : ∀ x ∈ l, Posts net x.pre ∧ Carrying address x.pre x.action ∧
      (inviteProtocol (routing address)).step x.pre x.action = some x.post := by
    intro x hx
    obtain ⟨before, after, heq⟩ := List.append_of_mem hx
    obtain ⟨hpre, hok, hstep⟩ := h.forall_mem heq
    exact ⟨hposts hpre, hok, hstep⟩
  have hsent := sent_eq (fun _ _ _ _ => ⟨rfl, rfl⟩) (fun _ _ hok => hok.fifo) hst.symm
    (fun i => ⟨fun _ => rfl, fun _ => rfl⟩) h
  have hposted : (l.flatMap (postedAt s)).filter (·.isBetween k s t) =
      (((inviteProtocol (routing address)).sent s t l).filterMap ((net t).letter 0)).filter
        (·.isBetween k s t) := by
    unfold sent
    rw [List.filterMap_flatMap, List.filter_flatMap, List.filter_flatMap]
    refine List.flatMap_congr fun x hx => ?_
    obtain ⟨hpre, hok, hstep⟩ := hat x hx
    exact (filterMap_sentAt hpre htags hok hstep).symm
  have hgained : (l.flatMap (gainedAt k t)).filter (·.isBetween k s t) =
      ((received s t l).filterMap ((net t).letter 0)).filter (·.isBetween k s t) := by
    unfold received
    rw [List.filterMap_flatMap, List.filter_flatMap, List.filter_flatMap]
    refine List.flatMap_congr fun x hx => ?_
    obtain ⟨hpre, hok, hstep⟩ := hat x hx
    exact gainedAt_eq hpre hok hstep
  rw [hposted, hgained, hsent, List.filterMap_append, List.filter_append, onTheWay, (hposts h).net]

/-- The executable form of `Carrying`. -/
def carryingTest (address : Bytes → Endpoint) (w : InviteWorld) (a : InviteEvent) : Bool :=
  fifoTest w a && match a with
    | .call j c => decide (∀ y ∈ (w.nodes j).letters c, (w.nodes j).net.running = true ∧
        y.1.outgoing.payload.length ≤ maxDatagram - wireHeaderSize ∧
        Letter.directed address y = true)
    | _ => true

/-- A step that passes the test meets `Carrying`. -/
theorem carrying_of_test (address : Bytes → Endpoint) (w : InviteWorld) (a : InviteEvent)
    (h : carryingTest address w a = true) : Carrying address w a := by
  unfold carryingTest at h
  rw [Bool.and_eq_true] at h
  refine ⟨fifo_of_test w a h.1, ?_⟩
  rintro j c rfl
  exact of_decide_eq_true h.2

/-- The endpoints of the nodes: the last number of the host is the last byte of the name. -/
def sampleAddress (i : Bytes) : Endpoint := ⟨0x0A000000 + (i.getLastD 0).toUInt32, 7001⟩

/-- Two invites to lobbies, of which one has arrived. -/
def sampleInOrder : List InviteEvent :=
  [.call (str "a") (.sendLobbyInvite (some (str "l")) (some (str "b")) ⟨0x0A000062, 7001⟩), .send
    (str "a") .game,
    .call (str "a") (.sendLobbyInvite (some (str "m")) (some (str "b")) ⟨0x0A000062, 7001⟩),
      .send (str "a") .game,
    .receive (str "a") (str "b") 0 0x0A000061 false]

/-- The invite that has arrived is the first one sent. -/
theorem invites_in_order_sample :
    ∃ w, execIf (inviteProtocol (routing sampleAddress)).step (carryingTest sampleAddress)
      (InviteWorld.start sampleNet) sampleInOrder = some w ∧
      let l := transitions (inviteProtocol (routing sampleAddress)).step
        (InviteWorld.start sampleNet) sampleInOrder
      (l.flatMap (postedAt (str "a"))).filter (·.isBetween .lobby (str "a") (str "b")) =
        (l.flatMap (gainedAt .lobby (str "b"))).filter (·.isBetween .lobby (str "a") (str "b")) ++
          (onTheWay sampleAddress w (str "a") (str "b")).filter
            (·.isBetween .lobby (str "a") (str "b")) ∧
      onTheWay sampleAddress w (str "a") (str "b") =
        [.native .lobby (str "m") (str "a") (str "b")] :=
  ⟨_, rfl, invites_in_order (Trace.of_execIf (carrying_of_test sampleAddress) rfl) (by decide)
    (by decide) .lobby, by decide⟩

end EOSEmu
