import EOSEmu.Sessions.Datagram
import EOSEmu.Lib.Network

/-!
# Discovered sessions

A link holds the bytes that were sent, and the receiver reads them; a datagram that it cannot read
it drops. Six operations announce a session and only `DestroySession` withdraws one, so a node
keeps what it discovered until the owner destroys it. `discovered_advertised` shows that on links
that keep the order and lose nothing a discovered session is one its owner still advertises, as
long as no other operation takes an advertised session away (`KeepsAdvertised`).
`not_discovered_advertised` is an owner that makes its session private.
-/

namespace EOSEmu

open Lib

/-! ## The network -/

/-- What the receive thread does with a message, at the receiver's tick. -/
def SessionNode.handle (n : SessionNode) (tick : UInt64) (source : Endpoint) (m : SessionMessage) :
    SessionNode :=
  { n with sessions := n.sessions.onDatagram tick source m }

/-- Session nodes at the given endpoints. A delivery brings along the receiver's tick. -/
def sessionProtocol (endpoint : Bytes → Endpoint) :
    Protocol Bytes SessionAction UInt64 SessionNode SessionMessage SessionDatagram where
  call n a := (n.outcome a).map fun o =>
    { node := n.after a o, locked := o.locked, later := o.sends }
  handle n tick s d := { node := (d.read.map (n.handle tick (endpoint s))).getD n }
  wire m _ := if fits m.payload then some m.datagram else none

/-- The state of a network of session nodes. -/
abbrev SessionWorld := World Bytes SessionNode SessionMessage SessionDatagram

/-- What happens next on a network of session nodes. -/
abbrev SessionEvent := NetAction Bytes SessionAction UInt64

/-- Fresh platforms. -/
def SessionWorld.start (endpoint : Bytes → Endpoint) : SessionWorld :=
  { nodes := fun pid => .start pid (endpoint pid).port }

/-! ## What a node advertises -/

namespace SessionsInterface

/-- The node owns the name, and the session under it has the id and the permission
`PublicAdvertised`. -/
def AdvertisesAt (s : SessionsInterface) (name id : Bytes) : Prop :=
  name ∈ s.owned ∧ ∃ r, s.localSessions.get? name = some r ∧ r.sessionId = id ∧
    r.permission = publicAdvertised

/-- The node advertises a session with the id. -/
def Advertises (s : SessionsInterface) (id : Bytes) : Prop := ∃ name, s.AdvertisesAt name id

/-- A record stored under the name leaves advertised what the name advertised: it carries it on, or
another name does. -/
def Replaces (s : SessionsInterface) (name : Bytes) (r : SessionRecord) : Prop :=
  ∀ id, s.AdvertisesAt name id →
    (r.sessionId = id ∧ r.permission = publicAdvertised) ∨
      ∃ other, other ≠ name ∧ s.AdvertisesAt other id

end SessionsInterface

/-- A section that takes no advertised session away but by `DestroySession`, and announces none but
the node's own: `UpdateSession` leaves an advertised session public and does not create another one
under its name, `JoinSession` does not store another one under it, and `UpdateSession` of a joined
session leaves it unannounced. -/
def KeepsAdvertised (n : SessionNode) : SessionAction → Prop
  | .updateSession tick m =>
      (m.bIsCreate = true →
        n.sessions.Replaces m.sessionName
          (n.sessions.updated (n.sessions.freshSession tick m) m)) ∧
      (m.bIsCreate = false → ∀ r, n.sessions.localSessions.get? m.sessionName = some r →
        n.sessions.Replaces m.sessionName (n.sessions.updated r m) ∧
        (m.sessionName ∉ n.sessions.owned → (n.sessions.updated r m).permission =
          publicAdvertised → n.sessions.Advertises r.sessionId))
  | .joinSession name i me => ∀ d, n.details[i]? = some d →
      n.sessions.Replaces name (SessionsInterface.joinedSession name d me)
  | _ => True

/-- What a section of the game thread does to the sessions a node advertises. -/
structure Announced (s : SessionsInterface) (xs : List SessionMessage) (s' : SessionsInterface) :
    Prop where
  known : s'.known = s.known
  announced : ∀ r, SessionMessage.announce r ∈ xs → s'.Advertises r.sessionId
  withdrawn : ∀ id, id ≠ [] → s.Advertises id → ¬ s'.Advertises id → xs = [.withdraw id]

namespace SessionsInterface
variable {s : SessionsInterface} {name id : Bytes} {r : SessionRecord}

/-- A session is announced if it is public. -/
theorem mem_announceIfPublic {m : SessionMessage} :
    m ∈ announceIfPublic r ↔ r.permission = publicAdvertised ∧ m = sessionAnnounce r := by
  unfold announceIfPublic
  split
  · next h => simp [h]
  · next h => simp [h]

/-- What a node advertises under other names is not changed by a record stored under one. -/
theorem advertisesAt_of_ne {s' : SessionsInterface} {other : Bytes} (hne : other ≠ name)
    (hlocal : s'.localSessions = s.localSessions.set name r)
    (howned : other ∈ s.owned → other ∈ s'.owned) (h : s.AdvertisesAt other id) :
    s'.AdvertisesAt other id := by
  obtain ⟨ho, q, hq, hid⟩ := h
  refine ⟨howned ho, q, ?_, hid⟩
  rw [hlocal, Dict.get?_set, if_neg hne]
  exact hq

/-- A record stored under a name that replaces what the name advertised. -/
theorem Replaces.advertises (h : s.Replaces name r) {s' : SessionsInterface}
    (hlocal : s'.localSessions = s.localSessions.set name r) (howned : s.owned ⊆ s'.owned)
    (hid : s.Advertises id) : s'.Advertises id := by
  obtain ⟨at', hat⟩ := hid
  by_cases hname : at' = name
  · subst hname
    rcases h id hat with hnew | ⟨other, hne, hother⟩
    · refine ⟨at', howned hat.1, r, ?_, hnew⟩
      rw [hlocal, Dict.get?_set, if_pos rfl]
    · exact ⟨other, advertisesAt_of_ne hne hlocal (fun ho => howned ho) hother⟩
  · exact ⟨at', advertisesAt_of_ne hname hlocal (fun ho => howned ho) hat⟩

/-- A name the node owns advertises the public record stored under it. -/
theorem advertises_stored {s' : SessionsInterface}
    (hlocal : s'.localSessions = s.localSessions.set name r) (ho : name ∈ s'.owned)
    (hpublic : r.permission = publicAdvertised) : s'.Advertises r.sessionId := by
  refine ⟨name, ho, r, ?_, rfl, hpublic⟩
  rw [hlocal, Dict.get?_set, if_pos rfl]

/-- A section that stores one record and announces nothing else. -/
theorem announced_of_store {s' : SessionsInterface} {xs : List SessionMessage}
    (hknown : s'.known = s.known) (hlocal : s'.localSessions = s.localSessions.set name r)
    (howned : s.owned ⊆ s'.owned) (hrep : s.Replaces name r)
    (hxs : ∀ m ∈ xs, m = sessionAnnounce r ∧ s'.Advertises r.sessionId) : Announced s xs s' where
  known := hknown
  announced q hq := by
    obtain ⟨heq, had⟩ := hxs _ hq
    cases heq
    exact had
  withdrawn id _ had hnot := absurd (hrep.advertises hlocal howned had) hnot

/-- A section that changes nothing that is advertised. -/
theorem announced_nil (s : SessionsInterface) : Announced s [] s where
  known := rfl
  announced _ h := nomatch h
  withdrawn _ _ had hnot := absurd had hnot

/-- The calls that change a record under its id and permission. -/
theorem announced_rewriteSession {f : SessionRecord → SessionRecord}
    (hf : ∀ r, (f r).sessionId = r.sessionId ∧ (f r).permission = r.permission) :
    Announced s ((s.rewriteSession name f).locked ++ (s.rewriteSession name f).sends)
      (s.rewriteSession name f).state := by
  unfold rewriteSession
  split
  · exact announced_nil s
  · next r hr =>
      refine announced_of_store (r := { f r with version := r.version + 1 }) rfl rfl
        (Finset.Subset.refl _) ?_ ?_
      · rintro id ⟨_, q, hq, rfl, hpublic⟩
        cases hr.symm.trans hq
        exact .inl ⟨(hf r).1, (hf r).2.trans hpublic⟩
      · intro m hm
        simp only [List.nil_append] at hm
        split at hm
        · next ho =>
            obtain ⟨hpublic, rfl⟩ := mem_announceIfPublic.1 hm
            exact ⟨rfl, advertises_stored rfl ho hpublic⟩
        · cases hm

/-- Destroying a session takes back its announce. -/
theorem announced_destroySession :
    Announced s ((s.destroySession name).locked ++ (s.destroySession name).sends)
      (s.destroySession name).state := by
  unfold destroySession
  split
  · exact announced_nil s
  · next r hr =>
      refine ⟨rfl, ?_, ?_⟩
      · intro q hq
        simp only [List.append_nil] at hq
        split at hq
        · cases List.mem_singleton.1 hq
        · cases hq
      · rintro id hid ⟨at', ho, q, hq, hqid, hpublic⟩ hnot
        by_cases hname : at' = name
        · subst hname
          cases hr.symm.trans hq
          rw [hqid, if_pos ⟨ho, hid⟩]
          rfl
        · -- the session is advertised under another name, which is still there
          refine absurd ⟨at', Finset.mem_erase.2 ⟨hname, ho⟩, q, ?_, hqid, hpublic⟩ hnot
          rw [Dict.get?_erase, if_neg hname]
          exact hq

/-- An update that keeps what is advertised announces it. -/
theorem announced_updateSession {tick : UInt64} {m : SessionModificationObj} {n : SessionNode}
    (hok : KeepsAdvertised n (.updateSession tick m)) :
    Announced n.sessions
      ((n.sessions.updateSession tick m).locked ++ (n.sessions.updateSession tick m).sends)
      (n.sessions.updateSession tick m).state := by
  unfold updateSession
  split
  · next hcreate =>
      refine announced_of_store rfl rfl (Finset.subset_insert _ _) (hok.1 hcreate) ?_
      intro x hx
      obtain ⟨hpublic, rfl⟩ := mem_announceIfPublic.1 hx
      exact ⟨rfl, advertises_stored rfl (Finset.mem_insert_self _ _) hpublic⟩
  · next hcreate =>
      split
      · exact announced_nil n.sessions
      · next r hr =>
          obtain ⟨hrep, hjoined⟩ := hok.2 (Bool.eq_false_of_not_eq_true hcreate) r hr
          refine announced_of_store (r := n.sessions.updated r m) rfl rfl (Finset.Subset.refl _)
            hrep ?_
          intro x hx
          obtain ⟨hpublic, rfl⟩ := mem_announceIfPublic.1 hx
          refine ⟨rfl, ?_⟩
          by_cases ho : m.sessionName ∈ n.sessions.owned
          · exact advertises_stored rfl ho hpublic
          · exact hrep.advertises rfl (Finset.Subset.refl _) (hjoined ho hpublic)

/-- The periodic announces repeat what is advertised. -/
theorem announced_periodicAnnounce {names : List Bytes} (hnames : names.toFinset = s.owned) :
    Announced s ((s.periodicAnnounce names).locked ++ (s.periodicAnnounce names).sends)
      (s.periodicAnnounce names).state where
  known := rfl
  announced q hq := by
    obtain ⟨r, hr, hq⟩ := List.mem_flatMap.1 hq
    obtain ⟨name, hname, hget⟩ := List.mem_filterMap.1 hr
    obtain ⟨hpublic, heq⟩ := mem_announceIfPublic.1 hq
    cases heq
    exact ⟨name, hnames ▸ List.mem_toFinset.2 hname, _, hget, rfl, hpublic⟩
  withdrawn _ _ had hnot := absurd had hnot

end SessionsInterface

/-- What a permitted section of the game thread announces and withdraws. -/
theorem announced_of_keepsAdvertised {n : SessionNode} {a : SessionAction} {o : SessionOutcome}
    (hok : KeepsAdvertised n a) (ho : n.outcome a = some o) :
    Announced n.sessions (o.locked ++ o.sends) o.state := by
  cases a with
  | updateSession tick m =>
      cases ho
      exact SessionsInterface.announced_updateSession hok
  | destroySession name =>
      cases ho
      exact SessionsInterface.announced_destroySession
  | joinSession name i me =>
      obtain ⟨d, hd, rfl⟩ := Option.map_eq_some_iff.1 ho
      exact SessionsInterface.announced_of_store rfl rfl (Finset.Subset.refl _)
        (hok d hd) fun _ h => nomatch h
  | startSession name | endSession name | registerPlayers name players
  | unregisterPlayers name players =>
      cases ho
      exact SessionsInterface.announced_rewriteSession fun r => ⟨rfl, rfl⟩
  | periodicAnnounce names =>
      simp only [SessionNode.outcome] at ho
      split at ho
      · next hnames =>
          cases ho
          exact SessionsInterface.announced_periodicAnnounce hnames.2
      · cases ho
  | copyKnown | copyOwned =>
      cases ho
      exact SessionsInterface.announced_nil _

/-- What is sent after the lock is released are announces. -/
theorem sends_announce {n : SessionNode} {a : SessionAction} {o : SessionOutcome}
    (ho : n.outcome a = some o) : ∀ m ∈ o.sends, ∃ r, m = SessionMessage.announce r := by
  have hpublic : ∀ {r : SessionRecord}, ∀ m ∈ announceIfPublic r, ∃ q, m =
    SessionMessage.announce q :=
    fun _ hm => ⟨_, (SessionsInterface.mem_announceIfPublic.1 hm).2⟩
  have hrewrite : ∀ {name : Bytes} {f : SessionRecord → SessionRecord},
      ∀ m ∈ (n.sessions.rewriteSession name f).sends, ∃ q, m = SessionMessage.announce q := by
    intro name f m hm
    unfold SessionsInterface.rewriteSession at hm
    split at hm
    · cases hm
    · simp only at hm
      split at hm
      · exact hpublic m hm
      · cases hm
  intro m hm
  cases a with
  | updateSession tick mod =>
      cases ho
      simp only [SessionsInterface.updateSession] at hm
      split at hm
      · exact hpublic m hm
      · split at hm
        · cases hm
        · exact hpublic m hm
  | destroySession name =>
      cases ho
      simp only [SessionsInterface.destroySession] at hm
      split at hm <;> cases hm
  | joinSession name i me =>
      obtain ⟨d, _, rfl⟩ := Option.map_eq_some_iff.1 ho
      cases hm
  | startSession | endSession | registerPlayers | unregisterPlayers =>
      cases ho
      exact hrewrite m hm
  | periodicAnnounce names =>
      simp only [SessionNode.outcome] at ho
      split at ho
      · cases ho
        obtain ⟨r, _, hm⟩ := List.mem_flatMap.1 hm
        exact hpublic m hm
      · cases ho
  | copyKnown | copyOwned =>
      cases ho
      cases hm

/-! ## What a link will deliver -/

/-- What a message says about a session id: it is there, it is not, or nothing. -/
def SessionMessage.settles (id : Bytes) : SessionMessage → Option Bool
  | .announce r => if r.sessionId = id then some true else none
  | .withdraw sessionId => if sessionId = id then some false else none

/-- What a datagram says about it: nothing if it is not read. -/
def SessionDatagram.settles (id : Bytes) (d : SessionDatagram) : Option Bool :=
  d.read.bind (·.settles id)

/-- Whether a session id is there after some datagrams. -/
def found (id : Bytes) (b : Bool) (l : List SessionDatagram) : Bool :=
  l.foldl (fun b d => (d.settles id).getD b) b

section
variable {id : Bytes} {b : Bool} {l l' : List SessionDatagram} {d : SessionDatagram}

/-- What is there after one more datagram in front. -/
theorem found_cons : found id b (d :: l) = found id ((d.settles id).getD b) l := rfl

/-- What is there after two stretches of datagrams. -/
theorem found_append : found id b (l ++ l') = found id (found id b l) l' := List.foldl_append

/-- A datagram that says that the id is there announces it. -/
theorem announced_of_settles (h : d.settles id = some true) : ∃ r, d.read = some (.announce r) ∧
    r.sessionId = id := by
  obtain ⟨m, hread, hm⟩ := Option.bind_eq_some_iff.1 h
  cases m with
  | announce r =>
      obtain ⟨hid, _⟩ := Option.ite_none_right_eq_some.1 hm
      exact ⟨r, hread, hid⟩
  | withdraw x =>
      obtain ⟨_, hm⟩ := Option.ite_none_right_eq_some.1 hm
      cases hm

/-- An id that is there without having been there before is there in any case. -/
theorem found_of_false (h : found id false l = true) : found id b l = true := by
  induction l with
  | nil => cases h
  | cons d l ih =>
      rw [found_cons] at h ⊢
      cases hd : d.settles id with
      | some c =>
          rw [hd] at h
          exact h
      | none =>
          rw [hd] at h
          exact ih h

/-- An id that is there without having been there before was announced. -/
theorem announced_of_found (h : found id false l = true) :
    ∃ d ∈ l, ∃ r, d.read = some (.announce r) ∧ r.sessionId = id := by
  induction l with
  | nil => cases h
  | cons d l ih =>
      rw [found_cons] at h
      have hlater : found id false l = true →
          ∃ d' ∈ d :: l, ∃ r, d'.read = some (.announce r) ∧ r.sessionId = id := by
        intro h'
        obtain ⟨d', hd', hr⟩ := ih h'
        exact ⟨d', List.mem_cons_of_mem _ hd', hr⟩
      cases hd : d.settles id with
      | none =>
          rw [hd] at h
          exact hlater h
      | some c =>
          rw [hd] at h
          cases c with
          | true => exact ⟨d, List.mem_cons_self, announced_of_settles hd⟩
          | false => exact hlater h

/-- Announces leave there what is there. -/
theorem found_of_announces
    (hl : ∀ d ∈ l, ∀ m, d.read = some m → ∃ r, m = SessionMessage.announce r) :
    found id true l = true := by
  induction l with
  | nil => rfl
  | cons d l ih =>
      have hrest := ih fun x hx => hl x (List.mem_cons_of_mem _ hx)
      rw [found_cons, SessionDatagram.settles]
      cases hread : d.read with
      | none => exact hrest
      | some m =>
          obtain ⟨r, rfl⟩ := hl d List.mem_cons_self m hread
          rw [Option.bind_some, SessionMessage.settles]
          split <;> exact hrest

/-- Without a datagram about the id nothing changes. -/
theorem found_of_settles_none (hd : d.settles id = none) : found id b (d :: l) = found id b l := by
  rw [found_cons, hd]
  rfl

end

/-- The encoding of an announce holds the id that a withdraw consists of. -/
theorem fits_withdraw {r : SessionRecord} (h : fits (SessionMessage.announce r).payload = true) :
    fits (SessionMessage.withdraw r.sessionId).payload = true := by
  have hle : (SessionMessage.withdraw r.sessionId).payload.length ≤
    (SessionMessage.announce r).payload.length := by
    simp only [SessionMessage.payload, serializeSessionRecord, List.length_append]
    omega
  exact decide_eq_true (Nat.le_trans hle (of_decide_eq_true h))

section
variable {endpoint : Bytes → Endpoint}

/-- The datagrams of the messages that fit into one. -/
def fitting (xs : List SessionMessage) : List SessionDatagram :=
  (xs.filter fun m => fits m.payload).map SessionMessage.datagram

/-- The messages that fit, of two lists. -/
theorem fitting_append (xs ys : List SessionMessage) :
    fitting (xs ++ ys) = fitting xs ++ fitting ys := by
  rw [fitting, List.filter_append, List.map_append]
  rfl

/-- An announce among them is read as one of the same session. -/
theorem announced_of_fitting {xs : List SessionMessage} {d : SessionDatagram}
    (hd : d ∈ fitting xs) {q : SessionRecord} (hread : d.read = some (.announce q)) :
    ∃ r, SessionMessage.announce r ∈ xs ∧
    q.sessionId = r.sessionId := by
  obtain ⟨m, hm, rfl⟩ := List.mem_map.1 hd
  obtain ⟨hm, hfits⟩ := List.mem_filter.1 hm
  cases SessionMessage.readAs_of_read hfits hread with
  | @announce r _ hfront => exact ⟨r, hm, hfront.sessionId⟩

/-- What a link will deliver when the sender's game thread has made its sends. -/
def stream (w : SessionWorld) (i j : Bytes) : List SessionDatagram :=
  (w.links i j).map (·.message) ++ fitting (w.out i .game)

/-- A node gets the messages that fit. -/
theorem map_copies (xs : List SessionMessage) (j : Bytes) :
    ((sessionProtocol endpoint).copies xs j).map (·.message) = fitting xs := by
  induction xs with
  | nil => rfl
  | cons m xs ih =>
      rw [fitting, List.filter_cons]
      split
      · next h =>
          have hwire : (sessionProtocol endpoint).wire m j = some m.datagram := if_pos h
          simp only [Protocol.copies, List.filterMap_cons, hwire, Option.map_some, List.map_cons]
          exact congrArg _ ih
      · next h =>
          have hwire : (sessionProtocol endpoint).wire m j = none := if_neg h
          simp only [Protocol.copies, List.filterMap_cons, hwire, Option.map_none]
          exact ih

/-- The invariant of a network without loss and reordering. -/
structure Advertised (endpoint : Bytes → Endpoint) (w : SessionWorld) : Prop where
  /-- Only the game thread sends. -/
  quiet : ∀ i, w.out i .receive = []
  /-- A withdraw is made under the lock. -/
  pending : ∀ i, ∀ m ∈ w.out i .game, ∃ r, m = .announce r
  /-- A node does not hear itself. -/
  noLoop : ∀ i, w.links i i = []
  /-- A datagram that is read as an announce is about an id that fits. -/
  fits : ∀ i j, ∀ c ∈ w.links i j, ∀ q, c.message.read = some (.announce q) →
    fits (SessionMessage.withdraw q.sessionId).payload = true
  knownFits : ∀ j id r, (w.nodes j).sessions.known.get? id = some r →
    id ≠ [] ∧ EOSEmu.fits (SessionMessage.withdraw id).payload = true
  /-- An id that a link is about to announce is advertised. -/
  onTheWay : ∀ i j, i ≠ j → ∀ id, id ≠ [] → EOSEmu.fits (SessionMessage.withdraw id).payload =
    true → found id false (stream w i j) = true → (w.nodes i).sessions.Advertises id
  /-- A discovered id is advertised by the node it came from, unless that node's link is about to
  withdraw it. -/
  known : ∀ j id r, (w.nodes j).sessions.known.get? id = some r → ∃ i, i ≠ j ∧
    r.hostEndpoint = endpoint i ∧
    (found id true (stream w i j) = true → (w.nodes i).sessions.Advertises id)

/-- What is there after a section was there before, or is advertised. -/
theorem Announced.found {s s' : SessionsInterface} {xs : List SessionMessage}
    {l : List SessionDatagram} {id : Bytes} {b : Bool} (h : Announced s xs s') (hid : id ≠ [])
    (hfits : EOSEmu.fits (SessionMessage.withdraw id).payload = true)
    (ih : EOSEmu.found id b l = true → s.Advertises id)
    (hfound : EOSEmu.found id b (l ++ fitting xs) = true) : s'.Advertises id := by
  rw [found_append] at hfound
  cases hl : EOSEmu.found id b l with
  | true =>
      by_contra hnot
      rw [h.withdrawn id hid (ih hl) hnot, fitting, List.filter_cons, if_pos hfits, hl,
        List.map_cons, found_cons,
        SessionDatagram.settles, SessionMessage.read_withdraw hfits, Option.bind_some,
          SessionMessage.settles,
        if_pos rfl] at hfound
      cases hfound
  | false =>
      rw [hl] at hfound
      obtain ⟨d, hd, q, hread, rfl⟩ := announced_of_found hfound
      obtain ⟨r, hr, hid⟩ := announced_of_fitting hd hread
      rw [hid]
      exact h.announced r hr

variable {w w' : SessionWorld}

/-- An announce that leaves and is read is about an id that fits. -/
theorem fits_of_wire {m : SessionMessage} {r : Bytes} {d : SessionDatagram}
    (hwire : (sessionProtocol endpoint).wire m r = some d) (q : SessionRecord)
    (hread : d.read = some (.announce q)) :
    fits (SessionMessage.withdraw q.sessionId).payload = true := by
  obtain ⟨hfits, heq⟩ := Option.ite_none_right_eq_some.1 hwire
  cases heq
  cases SessionMessage.readAs_of_read hfits hread with
  | announce hfront =>
      rw [hfront.sessionId]
      exact fits_withdraw hfits

/-- A section of the game thread lengthens what the node's links will deliver. -/
theorem stream_call {i j : Bytes} {n : SessionNode} {o : SessionOutcome}
    (hout : w.out i .game = []) (hne : i ≠ j) :
    stream ((sessionProtocol endpoint).post ((w.setNode i n).setOut i .game o.sends) i o.locked) i
      j = stream w i j ++ fitting (o.locked ++ o.sends) := by
  have hlinks : ((sessionProtocol endpoint).post ((w.setNode i n).setOut i .game o.sends) i
    o.locked).links i j =
      w.links i j ++ (sessionProtocol endpoint).copies o.locked j := if_pos ⟨rfl, Ne.symm hne⟩
  have hsends : ((sessionProtocol endpoint).post ((w.setNode i n).setOut i .game o.sends) i
    o.locked).out i .game = o.sends := if_pos ⟨rfl, rfl⟩
  have hnil : fitting [] = [] := rfl
  rw [stream, hlinks, hsends, stream, hout, List.map_append, map_copies, fitting_append, hnil,
    List.append_nil, List.append_assoc]

/-- What the links of other nodes will deliver stays. -/
theorem stream_call_of_ne {i k j : Bytes} {n : SessionNode} {o : SessionOutcome} (hne : k ≠ i) :
    stream ((sessionProtocol endpoint).post ((w.setNode i n).setOut i .game o.sends) i o.locked) k
      j = stream w k j := by
  have hlinks : ((sessionProtocol endpoint).post ((w.setNode i n).setOut i .game o.sends) i
    o.locked).links k j = w.links k j := if_neg fun h => hne h.1
  have hsends : ((sessionProtocol endpoint).post ((w.setNode i n).setOut i .game o.sends) i
    o.locked).out k .game = w.out k .game := if_neg fun h => hne h.1
  rw [stream, hlinks, hsends, stream]

/-- A call keeps what is discovered to what is advertised. -/
theorem advertised_call {i : Bytes} {a : SessionAction} (h : Advertised endpoint w)
    (hok : KeepsAdvertised (w.nodes i) a)
    (hst : (sessionProtocol endpoint).step w (.call i a) = some w') : Advertised endpoint w' := by
  obtain ⟨hout, o', ho', rfl⟩ := Protocol.step_call hst
  obtain ⟨o, ho, rfl⟩ := Option.map_eq_some_iff.1 ho'
  have hann := announced_of_keepsAdvertised hok ho
  have hself := Function.update_self i ((w.nodes i).after a o) w.nodes
  have hother : ∀ k, k ≠ i → Function.update w.nodes i ((w.nodes i).after a o) k = w.nodes k :=
    fun k hk => Function.update_of_ne hk _ _
  have hknown : ∀ k, (Function.update w.nodes i ((w.nodes i).after a o) k).sessions.known =
      (w.nodes k).sessions.known := by
    intro k
    by_cases hk : k = i
    · subst hk
      rw [hself]
      exact hann.known
    · rw [hother k hk]
  -- what is there at the end of a link is advertised after the section too
  have hstream : ∀ k j id b, k ≠ j → id ≠ [] → fits (SessionMessage.withdraw id).payload = true →
      (found id b (stream w k j) = true → (w.nodes k).sessions.Advertises id) →
      found id b (stream ((sessionProtocol endpoint).post
        ((w.setNode i ((w.nodes i).after a o)).setOut i .game o.sends) i o.locked) k j) = true →
      (Function.update w.nodes i ((w.nodes i).after a o) k).sessions.Advertises id := by
    intro k j id b hkj hid hfits ih hfound
    by_cases hk : k = i
    · subst hk
      rw [stream_call hout hkj] at hfound
      rw [hself]
      exact hann.found hid hfits ih hfound
    · rw [stream_call_of_ne hk] at hfound
      rw [hother k hk]
      exact ih hfound
  refine ⟨?_, ?_, ?_, ?_, ?_, ?_, ?_⟩
  · intro k
    exact (if_neg fun hk => nomatch hk.2).trans (h.quiet k)
  · intro k m hm
    have hm' : m ∈ if k = i ∧ ThreadKind.game = ThreadKind.game then o.sends else w.out k .game :=
      hm
    split at hm'
    · exact sends_announce ho m hm'
    · exact h.pending k m hm'
  · intro k
    exact (if_neg fun hk => hk.2 hk.1).trans (h.noLoop k)
  · intro k j c hc
    rcases Protocol.mem_post.1 hc with hc | ⟨_, _, hc⟩
    · exact h.fits k j c hc
    · obtain ⟨x, _, d, hd, rfl⟩ := Protocol.mem_copies.1 hc
      exact fits_of_wire hd
  · intro j id r hr
    have hr' : (Function.update w.nodes i ((w.nodes i).after a o) j).sessions.known.get? id =
      some r := hr
    rw [hknown j] at hr'
    exact h.knownFits j id r hr'
  · intro k j hkj id hid hfits hfound
    exact hstream k j id false hkj hid hfits (h.onTheWay k j hkj id hid hfits) hfound
  · intro j id r hr
    have hr' : (Function.update w.nodes i ((w.nodes i).after a o) j).sessions.known.get? id =
      some r := hr
    rw [hknown j] at hr'
    obtain ⟨hid, hfits⟩ := h.knownFits j id r hr'
    obtain ⟨k, hkj, hhost, ih⟩ := h.known j id r hr'
    exact ⟨k, hkj, hhost, hstream k j id true hkj hid hfits ih⟩

/-- A send of the game thread moves a message from the outbox to the links, and changes no
stream. -/
theorem stream_transmits {i k j : Bytes} {x : SessionMessage} (hkj : k ≠ j)
    (h : Protocol.Transmits (sessionProtocol endpoint) i .game x w w') :
      stream w' k j = stream w k j := by
  by_cases hk : k = i
  · subst hk
    rw [stream, stream, (h.link j).trans (if_pos (Ne.symm hkj)), h.sent, List.map_append,
      map_copies, List.append_assoc, ← fitting_append, List.singleton_append]
  · rw [stream, stream, h.links k j hk, h.out k .game fun heq => absurd heq hk]

/-- So does a send. -/
theorem advertised_send {i : Bytes} {th : ThreadKind} (h : Advertised endpoint w)
    (hst : (sessionProtocol endpoint).step w (.send i th) = some w') : Advertised endpoint w' := by
  obtain ⟨x, hsend⟩ := Protocol.transmits_of_step hst
  cases th with
  | receive =>
      have hempty := hsend.sent
      rw [h.quiet i] at hempty
      cases hempty
  | game =>
      have hnodes := hsend.nodes
      refine ⟨?_, ?_, ?_, ?_, hnodes ▸ h.knownFits, ?_, ?_⟩
      · intro k
        rw [hsend.out k .receive (by simp)]
        exact h.quiet k
      · intro k m hm
        refine h.pending k m ?_
        by_cases hk : k = i
        · subst hk
          rw [hsend.sent]
          exact List.mem_cons_of_mem _ hm
        · rw [← hsend.out k .game fun heq => absurd heq hk]
          exact hm
      · intro k
        by_cases hk : k = i
        · rw [hk, (hsend.link i).trans (if_neg (not_not.2 rfl))]
          exact h.noLoop i
        · rw [hsend.links k k hk]
          exact h.noLoop k
      · intro k j c hc
        rcases Protocol.mem_links_of_step hst hc with hc | ⟨_, _, _, _, _, ha⟩ | ⟨_, _, y, _,
          hwire⟩
        · exact h.fits k j c hc
        · cases ha
        · exact fits_of_wire hwire
      · intro k j hkj id hid hfits hfound
        rw [stream_transmits hkj hsend] at hfound
        rw [hnodes]
        exact h.onTheWay k j hkj id hid hfits hfound
      · intro j id r hr
        rw [hnodes] at hr
        obtain ⟨k, hkj, hhost, ih⟩ := h.known j id r hr
        refine ⟨k, hkj, hhost, ?_⟩
        rw [stream_transmits hkj hsend, hnodes]
        exact ih

/-- A received datagram does not change what a node advertises. -/
theorem advertises_onDatagram {s : SessionsInterface} {tick : UInt64} {source : Endpoint}
    {m : SessionMessage} {id : Bytes} :
    (s.onDatagram tick source m).Advertises id ↔ s.Advertises id := by
  cases m with
  | announce r =>
      simp only [SessionsInterface.onDatagram]
      split <;> exact Iff.rfl
  | withdraw x => exact Iff.rfl

/-- Nor does a datagram, read or not. -/
theorem advertises_received {n : SessionNode} {tick : UInt64} {source : Endpoint}
    {d : SessionDatagram} {id : Bytes} :
    ((d.read.map (n.handle tick source)).getD n).sessions.Advertises id ↔
    n.sessions.Advertises id := by
  cases d.read with
  | none => exact Iff.rfl
  | some m => exact advertises_onDatagram

/-- A discovered session was discovered before, and the message is not about it, or the message
announces it. -/
theorem known_onDatagram {s : SessionsInterface} {tick : UInt64} {source : Endpoint}
    {m : SessionMessage} {id : Bytes} {r : SessionRecord}
    (hid : ∀ id r, s.known.get? id = some r → id ≠ [])
    (hr : (s.onDatagram tick source m).known.get? id = some r) :
    (s.known.get? id = some r ∧ m.settles id = none) ∨
      (id ≠ [] ∧ r.hostEndpoint = source ∧ ∃ q, m = .announce q ∧ q.sessionId = id) := by
  cases m with
  | announce q =>
      simp only [SessionsInterface.onDatagram] at hr
      split at hr
      · next hq =>
          refine .inl ⟨hr, if_neg fun heq => hid id r hr ?_⟩
          rw [← heq, hq]
      · next hq =>
          rw [Dict.get?_set] at hr
          split at hr
          · next heq =>
              cases hr
              exact .inr ⟨heq ▸ hq, rfl, q, rfl, heq.symm⟩
          · next hne => exact .inl ⟨hr, if_neg fun heq => hne heq.symm⟩
  | withdraw x =>
      simp only [SessionsInterface.onDatagram, Dict.get?_erase] at hr
      split at hr
      · cases hr
      · next hne => exact .inl ⟨hr, if_neg fun heq => hne heq.symm⟩

/-- The same of a datagram. -/
theorem known_received {n : SessionNode} {tick : UInt64} {source : Endpoint} {d : SessionDatagram}
    {id : Bytes} {r : SessionRecord} (hid : ∀ id r, n.sessions.known.get? id = some r → id ≠ [])
    (hr : ((d.read.map (n.handle tick source)).getD n).sessions.known.get? id = some r) :
    (n.sessions.known.get? id = some r ∧ d.settles id = none) ∨
      (id ≠ [] ∧ r.hostEndpoint = source ∧
        ∃ q, d.read = some (.announce q) ∧ q.sessionId = id) := by
  rw [SessionDatagram.settles]
  cases hread : d.read with
  | none =>
      rw [hread] at hr
      exact .inl ⟨hr, rfl⟩
  | some m =>
      rw [hread] at hr
      rcases known_onDatagram hid hr with hkept | ⟨hne, hhost, q, rfl, hq⟩
      · exact .inl hkept
      · exact .inr ⟨hne, hhost, q, rfl, hq⟩

section
variable {i j : Bytes} {tick : UInt64} {c : Copy SessionDatagram}
  (hd : Protocol.Delivers (sessionProtocol endpoint) i j tick c w w')
include hd

/-- A delivery takes the first message off the stream of its link. -/
theorem stream_delivers : stream w i j = c.message :: stream w' i j := by
  rw [stream, stream, hd.link, hd.out i .game (by simp)]
  rfl

/-- It leaves the other streams as they are. -/
theorem stream_delivers_of_ne {k l : Bytes} (hkl : ¬ (k = i ∧ l = j)) :
    stream w' k l = stream w k l := by
  rw [stream, stream, hd.links k l hkl, hd.out k .game (by simp)]

/-- It leaves what every node advertises. -/
theorem advertises_delivers (k id : Bytes) :
    (w'.nodes k).sessions.Advertises id ↔ (w.nodes k).sessions.Advertises id := by
  by_cases hk : k = j
  · rw [hk, hd.node]
    exact advertises_received
  · rw [hd.nodes k hk]

/-- An id that a stream announces after a delivery was announced on it before. -/
theorem found_delivers {k l id : Bytes} (hfound : found id false (stream w' k l) = true) :
    found id false (stream w k l) = true := by
  by_cases heq : k = i ∧ l = j
  · obtain ⟨rfl, rfl⟩ := heq
    rw [stream_delivers hd, found_cons]
    exact found_of_false hfound
  · rw [← stream_delivers_of_ne hd heq]
    exact hfound

/-- An id that the message is not about is at the end of a stream if it is there after the
delivery. -/
theorem found_delivers_of_settles {k l id : Bytes} {b : Bool}
    (hsettles : l = j → c.message.settles id = none) (hfound : found id b (stream w' k l) = true) :
    found id b (stream w k l) = true := by
  by_cases heq : k = i ∧ l = j
  · obtain ⟨rfl, rfl⟩ := heq
    rw [stream_delivers hd, found_of_settles_none (hsettles rfl)]
    exact hfound
  · rw [← stream_delivers_of_ne hd heq]
    exact hfound

/-- A discovered session was discovered before, and the message is not about it, or the message
announces it. -/
theorem known_delivers (hid : ∀ id r, (w.nodes j).sessions.known.get? id = some r → id ≠ [])
    {l id : Bytes} {r : SessionRecord} (hr : (w'.nodes l).sessions.known.get? id = some r) :
    ((w.nodes l).sessions.known.get? id = some r ∧ (l = j → c.message.settles id = none)) ∨
      (l = j ∧ id ≠ [] ∧ r.hostEndpoint = endpoint i ∧
        ∃ q, c.message.read = some (.announce q) ∧ q.sessionId = id) := by
  by_cases hl : l = j
  · subst hl
    rw [hd.node] at hr
    rcases known_received hid hr with ⟨hr, hsettles⟩ | ⟨hid, hhost, hq⟩
    · exact .inl ⟨hr, fun _ => hsettles⟩
    · exact .inr ⟨rfl, hid, hhost, hq⟩
  · rw [hd.nodes l hl] at hr
    exact .inl ⟨hr, fun heq => absurd heq hl⟩

/-- It puts nothing on a link. -/
theorem mem_links_delivers {k l : Bytes} {x : Copy SessionDatagram} (hx : x ∈ w'.links k l) :
    x ∈ w.links k l := by
  by_cases hkl : k = i ∧ l = j
  · obtain ⟨rfl, rfl⟩ := hkl
    rw [hd.link]
    exact List.mem_cons_of_mem _ hx
  · rw [← hd.links k l hkl]
    exact hx

end

/-- So does a delivery in order. -/
theorem advertised_receive {i j : Bytes} {tick : UInt64} (h : Advertised endpoint w)
    (hst : (sessionProtocol endpoint).step w (.receive i j 0 tick false) = some w') :
      Advertised endpoint w' := by
  obtain ⟨c, hd⟩ := Protocol.delivers_of_step (P := sessionProtocol endpoint) (fun _ _ _ _ => rfl)
    hst
  have hlink := hd.link
  have hij : i ≠ j := by
    rintro rfl
    rw [h.noLoop i] at hlink
    cases hlink
  have hannounced := h.fits i j c (hlink ▸ List.mem_cons_self)
  have hknown := @known_delivers _ _ _ _ _ _ _ hd fun id r hr => (h.knownFits j id r hr).1
  refine ⟨?_, ?_, ?_, fun k l x hx => h.fits k l x (mem_links_delivers hd hx), ?_, ?_, ?_⟩
  · intro k
    by_cases hk : k = j
    · rw [hk, hd.later]
      rfl
    · rw [hd.out k .receive fun heq => absurd heq hk]
      exact h.quiet k
  · intro k m hm
    rw [hd.out k .game (by simp)] at hm
    exact h.pending k m hm
  · intro k
    rw [hd.links k k fun hk => hij (hk.1.symm.trans hk.2)]
    exact h.noLoop k
  · intro l id r hr
    rcases hknown hr with ⟨hr, _⟩ | ⟨_, hid, _, q, hq, rfl⟩
    · exact h.knownFits l id r hr
    · exact ⟨hid, hannounced q hq⟩
  · intro k l hkl id hid hfits hfound
    exact (advertises_delivers hd k id).2
      (h.onTheWay k l hkl id hid hfits (found_delivers hd hfound))
  · intro l id r hr
    rcases hknown hr with ⟨hr, hsettles⟩ | ⟨rfl, hid, hhost, q, hq, rfl⟩
    · obtain ⟨k, hkl, hhost, ih⟩ := h.known l id r hr
      refine ⟨k, hkl, hhost, fun hfound => ?_⟩
      exact (advertises_delivers hd k id).2 (ih (found_delivers_of_settles hd hsettles hfound))
    · refine ⟨i, hij, hhost, fun hfound => ?_⟩
      refine (advertises_delivers hd i _).2
        (h.onTheWay i l hij q.sessionId hid (hannounced q hq) ?_)
      rw [stream_delivers hd, found_cons, SessionDatagram.settles, hq, Option.bind_some,
        SessionMessage.settles, if_pos rfl]
      exact hfound

/-- Links keep the order and lose nothing, and every section keeps what is advertised. -/
def Faithful (w : SessionWorld) (a : SessionEvent) : Prop :=
  Protocol.Fifo w a ∧ ∀ i b, a = .call i b → KeepsAdvertised (w.nodes i) b

/-- At the start nothing is discovered. -/
theorem advertised_start : Advertised endpoint (SessionWorld.start endpoint) where
  quiet _ := rfl
  pending _ _ h := nomatch h
  noLoop _ := rfl
  fits _ _ _ h := nomatch h
  knownFits _ _ _ h := nomatch h
  onTheWay _ _ _ _ _ _ h := nomatch h
  known _ _ _ h := nomatch h

/-- Every faithful step keeps what is discovered to what is advertised. -/
theorem advertised_step {a : SessionEvent} (h : Advertised endpoint w) (hok : Faithful w a)
    (hst : (sessionProtocol endpoint).step w a = some w') : Advertised endpoint w' := by
  cases a with
  | call i b => exact advertised_call h (hok.2 i b rfl) hst
  | send i th => exact advertised_send h hst
  | receive i j k tick keep =>
      obtain ⟨⟨rfl, rfl⟩, _⟩ := hok
      exact advertised_receive h hst
  | lose => exact absurd hok.1 id

/-- With no session datagram in flight to a node, every session it has discovered is advertised by
the node it came from: that one owns a name whose session has the id and the permission
`PublicAdvertised`. -/
theorem discovered_advertised
    (h : Run (sessionProtocol endpoint).step Faithful (SessionWorld.start endpoint) w) (j : Bytes)
    (hquiet : ∀ i, w.links i j = []) (id : Bytes) (r : SessionRecord)
    (hr : (w.nodes j).sessions.known.get? id = some r) :
    ∃ i, i ≠ j ∧ r.hostEndpoint = endpoint i ∧ (w.nodes i).sessions.Advertises id := by
  have hinv : Advertised endpoint w :=
    h.invariant advertised_start fun _ _ _ hinv hok hst => advertised_step hinv hok hst
  obtain ⟨i, hij, hhost, ih⟩ := hinv.known j id r hr
  refine ⟨i, hij, hhost, ih ?_⟩
  rw [stream, hquiet i]
  refine found_of_announces fun d hd m hread => ?_
  obtain ⟨x, hx, rfl⟩ := List.mem_map.1 hd
  obtain ⟨hx, hfits⟩ := List.mem_filter.1 hx
  obtain ⟨r, rfl⟩ := hinv.pending i x hx
  cases SessionMessage.readAs_of_read hfits hread with
  | announce _ => exact ⟨_, rfl⟩

end

/-- A node creates a public session, and a second one discovers it. -/
def sampleDiscovery : List SessionEvent :=
  [.call (str "a")
    (.updateSession 7 { bIsCreate := true, sessionName := str "game", localUser := str "a" }),
    .send (str "a") .game, .receive (str "a") (str "b") 0 7 false]

/-- The owner makes its session private. -/
def samplePrivate : SessionEvent :=
  .call (str "a") (.updateSession 8 { sessionName := str "game", bSetPerm := true, perm := 2 })

/-- The id of the session. -/
def sampleSessionId : Bytes := newSessionId (str "a") 7 1

/-- An executable condition that implies `Faithful`. -/
def faithfulTest (w : SessionWorld) (a : SessionEvent) : Bool :=
  Protocol.fifoTest w a && match a with
    | .call i (.updateSession _ m) => m.bIsCreate &&
      decide (m.sessionName ∉ (w.nodes i).sessions.owned)
    | .call _ _ => false
    | _ => true

/-- A step that passes the test meets `Faithful`. -/
theorem faithful_of_test (w : SessionWorld) (a : SessionEvent) (h : faithfulTest w a = true) :
    Faithful w a := by
  obtain ⟨hfifo, htest⟩ := Bool.and_eq_true_iff.1 h
  refine ⟨Protocol.fifo_of_test w a hfifo, ?_⟩
  rintro i b rfl
  cases b with
  | updateSession tick m =>
      obtain ⟨hcreate, hnew⟩ := Bool.and_eq_true_iff.1 htest
      refine ⟨fun _ id had => absurd had.1 (of_decide_eq_true hnew), fun hupdate => ?_⟩
      rw [hcreate] at hupdate
      cases hupdate
  | _ => cases htest

/-- Nobody but two nodes sends anything to the second one. -/
theorem sample_quiet {test : SessionWorld → SessionEvent → Bool} {as : List SessionEvent}
    {w : SessionWorld}
    (hw : execIf (sessionProtocol sampleEndpoints).step test
      (SessionWorld.start sampleEndpoints) as = some w)
    (has : ∀ x ∈ as.map Protocol.actor, x = some (str "a") ∨ x = some (str "b"))
    (ha : w.links (str "a") (str "b") = []) (hb : w.links (str "b") (str "b") = []) (i : Bytes) :
    w.links i (str "b") = [] := by
  by_cases hia : i = str "a"
  · rw [hia]
    exact ha
  · by_cases hib : i = str "b"
    · rw [hib]
      exact hb
    · refine (Protocol.silent_of_execIf hw (fun hmem => ?_) ⟨fun _ => rfl, fun _ => rfl⟩).2 _
      rcases has _ hmem with h | h
      · exact hia (Option.some.inj h)
      · exact hib (Option.some.inj h)

/-- What the second node sees: the lengths of the links to it, and the session. -/
def sampleSight (w : SessionWorld) : ℕ × ℕ × Option Endpoint :=
  ((w.links (str "a") (str "b")).length, (w.links (str "b") (str "b")).length,
    ((w.nodes (str "b")).sessions.known.get? sampleSessionId).map (·.hostEndpoint))

/-- A run that meets the condition: the second node's discovered session is advertised. -/
theorem discovered_advertised_sample :
    ∃ w, Run (sessionProtocol sampleEndpoints).step Faithful (SessionWorld.start sampleEndpoints)
      w ∧ ∃ i, i ≠ str "b" ∧ (w.nodes i).sessions.Advertises sampleSessionId := by
  have hrun : (execIf (sessionProtocol sampleEndpoints).step faithfulTest
    (SessionWorld.start sampleEndpoints)
      sampleDiscovery).map sampleSight = some (0, 0, some (sampleEndpoints (str "a"))) := by
    decide +kernel
  obtain ⟨w, hw, hsight⟩ := Option.map_eq_some_iff.1 hrun
  simp only [sampleSight, Prod.mk.injEq, List.length_eq_zero_iff] at hsight
  obtain ⟨ha, hb, hknown⟩ := hsight
  obtain ⟨r, hr, _⟩ := Option.map_eq_some_iff.1 hknown
  have hl := Run.of_execIf faithful_of_test hw
  obtain ⟨i, hne, _, had⟩ := discovered_advertised hl (str "b") (sample_quiet hw (by decide) ha hb)
    sampleSessionId r hr
  exact ⟨w, hl, i, hne, had⟩

/-- Without the condition this fails, even on links that keep the order and lose or repeat nothing:
an owner that makes its session private withdraws nothing. -/
theorem not_discovered_advertised :
    ¬ ∀ w, Run (sessionProtocol sampleEndpoints).step Protocol.Fifo
      (SessionWorld.start sampleEndpoints) w →
      ∀ j, (∀ i, w.links i j = []) → ∀ id r, (w.nodes j).sessions.known.get? id = some r →
        ∃ i, i ≠ j ∧ r.hostEndpoint = sampleEndpoints i ∧ (w.nodes i).sessions.Advertises id := by
  intro h
  have hrun : (execIf (sessionProtocol sampleEndpoints).step Protocol.fifoTest
    (SessionWorld.start sampleEndpoints)
      (sampleDiscovery ++ [samplePrivate])).map (fun w => (sampleSight w,
        decide (∀ name ∈ (w.nodes (str "a")).sessions.owned,
          ((w.nodes (str "a")).sessions.localSessions.get? name).all fun r => r.permission ≠
            publicAdvertised))) =
      some ((0, 0, some (sampleEndpoints (str "a"))), true) := by
    decide +kernel
  obtain ⟨w, hw, hstate⟩ := Option.map_eq_some_iff.1 hrun
  simp only [sampleSight, Prod.mk.injEq, List.length_eq_zero_iff, decide_eq_true_iff] at hstate
  obtain ⟨⟨ha, hb, hknown⟩, hprivate⟩ := hstate
  obtain ⟨r, hr, hhost⟩ := Option.map_eq_some_iff.1 hknown
  obtain ⟨i, hne, hi, name, ho, q, hq, _, hpublic⟩ :=
    h w (Run.of_execIf Protocol.fifo_of_test hw) (str "b")
    (sample_quiet hw (by decide) ha hb) sampleSessionId r hr
  have hia : i = str "a" := by
    rw [hhost] at hi
    by_contra hia
    rw [sampleEndpoints, sampleEndpoints, if_pos rfl, if_neg hia] at hi
    cases hi
  subst hia
  have hnot := hprivate name ho
  rw [hq, Option.all_some, decide_eq_true_iff] at hnot
  exact hnot hpublic

end EOSEmu
