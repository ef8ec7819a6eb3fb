import EOSEmu.Core.Platform
import EOSEmu.Lib.Trace

/-!
# What the peer directory reports

`Observe`, `MarkStale` and `MarkOffline` share the online flag and the last-seen time of an entry,
and the presence callbacks rely on what they return. A history of calls is a `Trace` of
`WatchedDirectory`. Every transition of a peer from online to offline is returned by the call that
made it, once (`countP_gone`), and what `MarkStale` returns has been silent for the timeout
(`Seen`).
-/

namespace EOSEmu

open Lib

/-- The calls, with what the clock read in them. -/
inductive PeerCall
  | observe (o : Observation) (endpoint : Endpoint) (now : TimePoint)
  | markStale (now : TimePoint) (timeout : Int)
  | markOffline (productId : ProductUserId)

namespace PeerCall
variable (d : PeerDirectory)

/-- What `Observe` returns. -/
def changed : PeerCall → Bool
  | observe o endpoint now => (d.observe o endpoint now).1
  | markStale _ _ | markOffline _ => false

/-- The peers a call returns as gone offline. -/
def gone : PeerCall → List PeerInfo
  | observe _ _ _ => []
  | markStale now timeout => (d.markStale now timeout).1
  | markOffline productId => (d.markOffline productId).1.toList

/-- The directory after a call. -/
def after : PeerCall → PeerDirectory
  | observe o endpoint now => (d.observe o endpoint now).2
  | markStale now timeout => (d.markStale now timeout).2
  | markOffline productId => (d.markOffline productId).2

/-- What the clock reads after a call. `MarkStale` reads it before it takes the lock, so its
reading may be older than that of an `Observe` on the receive thread that came before it. -/
def reading (clock : TimePoint) : PeerCall → TimePoint
  | observe _ _ now => now
  | markStale _ _ | markOffline _ => clock

end PeerCall

namespace PeerDirectory
variable {d : PeerDirectory}

/-- Whether a peer is known and online. -/
def online (product : ProductUserId) (d : PeerDirectory) : Bool := (d.find product).any (·.online)

/-- What the game sees of a peer: the online flag and the presence content. -/
def visible (product : ProductUserId) (d : PeerDirectory) : Option (Bool × PeerPresence) :=
  (d.find product).map fun info => (info.online, info.presence)

/-- Every entry is filed under its own id, which is not empty. -/
def Keyed (d : PeerDirectory) : Prop :=
  ∀ product info, d.find product = some info → info.productUserId = product ∧ product ≠ []

/-! ## One call -/

/-- What a call leaves of a peer: what was observed of it, or its entry, possibly with the online
flag cleared. -/
theorem find_after (c : PeerCall) (product : ProductUserId) :
    (∃ o endpoint now, c = .observe o endpoint now ∧ o.productId = product ∧ product ≠ [] ∧
      (c.after d).find product = some (observed o endpoint now)) ∨
    ∃ f : PeerInfo → Bool, (c.after d).find product = (d.find product).map fun info =>
      if f info then { info with online := false } else info := by
  cases c with
  | observe o endpoint now =>
      by_cases hid : o.productId = []
      · refine .inr ⟨fun _ => false, ?_⟩
        simp [PeerCall.after, observe_of_empty hid]
      · have hfind := find_observe (d := d) hid endpoint now product
        by_cases hp : product = o.productId
        · subst hp
          rw [if_pos rfl] at hfind
          exact .inl ⟨o, endpoint, now, rfl, rfl, hid, hfind⟩
        · rw [if_neg hp] at hfind
          refine .inr ⟨fun _ => false, ?_⟩
          simp [PeerCall.after, hfind]
  | markStale now timeout => exact .inr ⟨_, find_markStale now timeout product⟩
  | markOffline productId =>
      refine .inr ⟨fun _ => decide (product = productId ∧ productId ≠ []), ?_⟩
      rw [show (PeerCall.markOffline productId).after d = (d.markOffline productId).2 from rfl,
        find_markOffline]
      simp only [decide_eq_true_eq]

/-- No call removes a peer. -/
theorem find_after_isSome (c : PeerCall) {product : ProductUserId} (h : (d.find product).isSome) :
    ((c.after d).find product).isSome := by
  rcases find_after (d := d) c product with ⟨_, _, _, _, _, _, hfind⟩ | ⟨f, hfind⟩
  · rw [hfind]
    rfl
  · rwa [hfind, Option.isSome_map]

/-- A call keeps the entries under their own product ids. -/
theorem Keyed.after (h : d.Keyed) (c : PeerCall) : (c.after d).Keyed := by
  intro product info hinfo
  rcases find_after (d := d) c product with ⟨o, endpoint, now, _, hid, hne, hfind⟩ | ⟨f, hfind⟩
  · rw [hfind] at hinfo
    cases hinfo
    exact ⟨hid, hne⟩
  · rw [hfind] at hinfo
    obtain ⟨i, hi, rfl⟩ := Option.map_eq_some_iff.1 hinfo
    have hkey := h product i hi
    split <;> exact hkey

/-- `Observe` reports exactly the changes of what is visible of the peer. -/
theorem observe_changed (o : Observation) (endpoint : Endpoint) (now : TimePoint) :
    (d.observe o endpoint now).1 = true ↔
      visible o.productId d ≠ visible o.productId (d.observe o endpoint now).2 := by
  by_cases hid : o.productId = []
  · rw [observe_of_empty hid]
    simp [observe, hid]
  · have hafter := find_observe (d := d) hid endpoint now o.productId
    rw [if_pos rfl] at hafter
    have hcall : (d.observe o endpoint now).1 =
        (d.find o.productId).elim true fun info => info.presence ≠ o.presence || !info.online := by
      rw [observe, if_neg (by simpa using hid), find]
      cases d.peers.get? o.productId <;> rfl
    rw [hcall, visible, visible, hafter]
    cases hbefore : d.find o.productId with
    | none => simp
    | some info => cases hon : info.online <;> simp [observed, hon]

/-- The peers `MarkStale` returns: the stale entries, flagged offline. -/
theorem markStale_gone (now : TimePoint) (timeout : Int) : (d.markStale now timeout).1 =
    (d.peers.entries.filter fun e => stale now timeout e.2).map fun e =>
      { e.2 with online := false } := by
  have hcollect := mapAccum_collect (p := stale now timeout)
    (g := fun info => { info with online := false }) [] d.peers.entries
  rwa [List.nil_append] at hcollect

/-- An entry `MarkStale` returns was stale. -/
theorem of_mem_markStale (h : d.Keyed) {now : TimePoint} {timeout : Int} {info : PeerInfo}
    (hinfo : info ∈ (d.markStale now timeout).1) :
    ∃ before, d.find info.productUserId = some before ∧ stale now timeout before = true ∧
      info = { before with online := false } := by
  rw [markStale_gone] at hinfo
  obtain ⟨⟨product, before⟩, he, rfl⟩ := List.mem_map.1 hinfo
  obtain ⟨hmem, hstale⟩ := List.mem_filter.1 he
  have hfind : d.find product = some before := Dict.mem_entries.1 hmem
  refine ⟨before, ?_, hstale, rfl⟩
  rwa [← (h product before hfind).1] at hfind

/-- `MarkStale` returns a peer as often as its entry is stale. -/
theorem countP_markStale (h : d.Keyed) (now : TimePoint) (timeout : Int) (product : ProductUserId) :
    (d.markStale now timeout).1.countP (fun info => info.productUserId = product) =
      ((d.find product).any (stale now timeout)).toNat := by
  have hkey : ∀ e ∈ d.peers.entries.filter (fun e => stale now timeout e.2),
      e.2.productUserId = product ↔ e.1 = product := by
    intro e he
    rw [(h e.1 e.2 (Dict.mem_entries.1 (List.mem_of_mem_filter he))).1]
  have hcomm : (d.peers.entries.filter fun e => stale now timeout e.2).filter
    (fun e => e.1 = product) =
      (d.peers.entries.filter fun e => e.1 = product).filter fun e => stale now timeout e.2 := by
    rw [List.filter_filter, List.filter_filter]
    exact List.filter_congr fun e _ => Bool.and_comm ..
  rw [markStale_gone, List.countP_map]
  calc (d.peers.entries.filter fun e => stale now timeout e.2).countP
        ((fun info => decide (info.productUserId = product)) ∘ fun e =>
          { e.2 with online := false })
      = (d.peers.entries.filter fun e => stale now timeout e.2).countP (fun e => e.1 = product) :=
        List.countP_congr fun e he => by simpa using hkey e he
    _ = ((d.peers.entries.filter fun e => e.1 = product).filter fun e => stale now timeout
      e.2).length := by
        rw [List.countP_eq_length_filter, hcomm]
    _ = ((d.find product).any (stale now timeout)).toNat := by
        rw [Dict.filter_key, find]
        cases d.peers.get? product with
        | none => rfl
        | some info => cases hs : stale now timeout info <;> simp [hs]

/-- `MarkOffline` returns a peer as often as it is the online one that left. -/
theorem countP_markOffline (h : d.Keyed) (productId product : ProductUserId) :
    (d.markOffline productId).1.toList.countP (fun info => info.productUserId = product) =
      (decide (product = productId ∧ productId ≠ []) && d.online product).toNat := by
  by_cases hid : productId = []
  · simp [markOffline, hid]
  · cases hfind : d.find productId with
    | none =>
        have hget : d.peers.get? productId = none := hfind
        have hoff : ¬ (product = productId ∧ d.online product = true) := by
          rintro ⟨rfl, hon⟩
          simp [online, hfind] at hon
        by_cases hp : product = productId <;> simp_all [markOffline]
    | some info =>
        have hget : d.peers.get? productId = some info := hfind
        have hkey := (h productId info hfind).1
        by_cases hp : product = productId
        · subst hp
          cases hon : info.online <;> simp [markOffline, hget, hid, hon, online, hfind, hkey]
        · have hne : ¬ info.productUserId = product := fun he => hp (he.symm.trans hkey)
          cases hon : info.online <;> simp [markOffline, hget, hid, hon, hp, hne]

/-- Every call returns the peers it takes offline, each once, and no other. -/
theorem countP_gone (h : d.Keyed) (c : PeerCall) (product : ProductUserId) :
    (c.gone d).countP (fun info => info.productUserId = product) =
      (d.online product && !(c.after d).online product).toNat := by
  cases c with
  | observe o endpoint now =>
      have hstays : d.online product = true → (d.observe o endpoint now).2.online product =
        true := by
        intro hon
        by_cases hid : o.productId = []
        · rwa [observe_of_empty hid]
        · rw [online, find_observe hid]
          by_cases hp : product = o.productId
          · simp [hp, observed]
          · rwa [if_neg hp]
      cases hon : d.online product
      · simp [PeerCall.gone]
      · simp [PeerCall.gone, PeerCall.after, hstays hon]
  | markStale now timeout =>
      have hcount := countP_markStale h now timeout product
      simp only [PeerCall.gone, PeerCall.after, hcount, online, find_markStale]
      cases d.find product with
      | none => rfl
      | some info =>
          cases hs : stale now timeout info
          · cases hon : info.online <;> simp [hs, hon]
          · have hon := (Bool.and_eq_true_iff.1 hs).1
            simp [hs, hon]
  | markOffline productId =>
      have hcount := countP_markOffline h productId product
      simp only [PeerCall.gone, PeerCall.after, hcount, online, find_markOffline]
      cases d.find product with
      | none => simp
      | some info =>
          by_cases hp : product = productId ∧ productId ≠ []
          · simp [hp]
          · cases hon : info.online <;> simp [hp, hon]

/-- What a call returns is the entry it leaves, offline. -/
theorem of_mem_gone (h : d.Keyed) {c : PeerCall} {info : PeerInfo} (hinfo : info ∈ c.gone d) :
    (c.after d).find info.productUserId = some info ∧ info.online = false := by
  cases c with
  | observe o endpoint now => cases hinfo
  | markStale now timeout =>
      obtain ⟨before, hfind, hstale, rfl⟩ := of_mem_markStale h hinfo
      have hfind : d.find before.productUserId = some before := hfind
      refine ⟨?_, rfl⟩
      simp only [PeerCall.after, find_markStale, hfind, Option.map_some, hstale, if_true]
  | markOffline productId =>
      have hsome : (d.markOffline productId).1 = some info := Option.mem_toList.1 hinfo
      have hafter := find_markOffline (d := d) productId productId
      unfold markOffline at hsome
      split at hsome
      · cases hsome
      · next hne =>
          have hid : productId ≠ [] := fun he => hne (List.isEmpty_iff.2 he)
          split at hsome
          · cases hsome
          · next before hget =>
              split at hsome
              · cases hsome
              · have hkey := (h productId before hget).1
                cases hsome
                rw [show d.find productId = some before from hget, Option.map_some,
                  if_pos ⟨rfl, hid⟩] at hafter
                refine ⟨Eq.trans ?_ hafter, rfl⟩
                rw [PeerCall.after, ← hkey]

end PeerDirectory

/-! ## Histories of calls -/

/-- The directory, and what the clock read in the last `Observe`. -/
structure WatchedDirectory where
  directory : PeerDirectory := {}
  clock : TimePoint

namespace WatchedDirectory
open PeerDirectory

/-- One call. -/
def step (w : WatchedDirectory) (c : PeerCall) : Option WatchedDirectory :=
  some ⟨c.after w.directory, c.reading w.clock⟩

/-- The clock does not go back. -/
def InOrder (w : WatchedDirectory) (c : PeerCall) : Prop := w.clock ≤ c.reading w.clock

instance (w : WatchedDirectory) (c : PeerCall) : Decidable (InOrder w c) :=
  inferInstanceAs (Decidable (w.clock ≤ c.reading w.clock))

/-- An `Observe` of a peer, and what the clock read in it. -/
def Observes (product : ProductUserId) (now : TimePoint)
    (x : Transition WatchedDirectory PeerCall) : Prop :=
  ∃ o endpoint, x.action = .observe o endpoint now ∧ o.productId = product

/-- No `Observe` of a peer is later than its entry, nor than the clock. -/
def Seen (l : List (Transition WatchedDirectory PeerCall)) (w : WatchedDirectory) : Prop :=
  ∀ x ∈ l, ∀ product now, Observes product now x → product ≠ [] → now ≤ w.clock ∧
    ∃ info, w.directory.find product = some info ∧ now ≤ info.lastSeen

variable {l : List (Transition WatchedDirectory PeerCall)} {w w' t : WatchedDirectory}
  {c : PeerCall} {start : TimePoint}

/-- A call in the clock's order keeps what was seen. -/
theorem Seen.step (h : Seen l w) (hin : InOrder w c) (hstep : w.step c = some w') :
    Seen (l ++ [⟨w, c, w'⟩]) w' := by
  cases hstep
  -- an entry's time only moves forward, because an `Observe` reads a clock that is not behind
  have hkeeps : ∀ product now, now ≤ w.clock →
    (∃ info, w.directory.find product = some info ∧ now ≤ info.lastSeen) →
      ∃ info, (c.after w.directory).find product = some info ∧ now ≤ info.lastSeen := by
    rintro product now hle ⟨info, hfind, hseen⟩
    rcases find_after (d := w.directory) c product with ⟨o, endpoint, later, rfl, _, _,
      hafter⟩ | ⟨f, hafter⟩
    · exact ⟨_, hafter, le_trans hle hin⟩
    · rw [hfind, Option.map_some] at hafter
      refine ⟨_, hafter, ?_⟩
      split <;> exact hseen
  intro x hx product now hobs hne
  rcases List.mem_append.1 hx with hx | hx
  · obtain ⟨hle, hinfo⟩ := h x hx product now hobs hne
    exact ⟨le_trans hle hin, hkeeps product now hle hinfo⟩
  · rw [List.mem_singleton.1 hx] at hobs
    obtain ⟨o, endpoint, hc, hid⟩ := hobs
    have hc : c = .observe o endpoint now := hc
    subst hc
    have hafter := find_observe (d := w.directory) (hid.trans_ne hne) endpoint now product
    rw [if_pos hid.symm] at hafter
    exact ⟨le_refl _, _, hafter, le_refl _⟩

/-- The directory of every history. -/
theorem keyed_and_seen (h : Trace step InOrder ⟨{}, start⟩ l t) :
    t.directory.Keyed ∧ Seen l t := by
  refine h.invariant (P := fun l w => w.directory.Keyed ∧ Seen l w) ⟨nofun, nofun⟩ ?_
  rintro l u v c _ ⟨hkeyed, hseen⟩ hin hstep
  refine ⟨?_, hseen.step hin hstep⟩
  cases hstep
  exact hkeyed.after c

/-- A peer that is known stays known. -/
theorem known_of_trace (h : Trace step InOrder w l t) {product : ProductUserId}
    (hknown : (w.directory.find product).isSome) : (t.directory.find product).isSome := by
  refine h.run.invariant (P := fun w => (w.directory.find product).isSome) hknown ?_
  intro u v c hu _ hstep
  cases hstep
  exact find_after_isSome c hu

/-- The peers a call of a history returned as gone offline. -/
def reports (x : Transition WatchedDirectory PeerCall) : List PeerInfo :=
  x.action.gone x.pre.directory

/-- Over a history, the reports of a peer are its transitions from online to offline. -/
theorem countP_reports (h : Trace step InOrder ⟨{}, start⟩ l t) (product : ProductUserId) :
    (l.flatMap reports).countP (fun info => info.productUserId = product) =
      l.countP (Lowers fun w => w.directory.online product) := by
  induction h with
  | refl => rfl
  | @tail l u v c hl _ hstep ih =>
      have hone := countP_gone (keyed_and_seen hl).1 c product
      cases hstep
      rw [List.flatMap_append, List.countP_append, List.countP_append, ih, List.flatMap_singleton,
        reports, hone]
      cases hlow : u.directory.online product && !(c.after u.directory).online product <;>
        simp [Lowers, hlow]

/-- The transitions of a history, one by one and counted: `Observe` returns true exactly when what
is visible of the peer changed, so it does for a peer that comes back; every transition of a peer
from online to offline is returned by the call that makes it, once, and by no other, so over the
history the reports are the transitions, and a peer has come online once more than it was reported
gone exactly if it is online; a call returns the entry it left; `MarkStale` returns a peer only if
every `Observe` of it is longer ago than the timeout; a known peer stays known. -/
theorem directory_reports (h : Trace step InOrder ⟨{}, start⟩ l t) :
    (∀ x ∈ l, ∀ o endpoint now, x.action = .observe o endpoint now →
      (x.action.changed x.pre.directory = true ↔
        visible o.productId x.pre.directory ≠ visible o.productId x.post.directory) ∧
      ∀ info, x.pre.directory.find o.productId = some info → info.online = false →
        o.productId ≠ [] →
        x.action.changed x.pre.directory = true ∧ x.post.directory.online o.productId = true) ∧
    (∀ x ∈ l, ∀ product, (reports x).countP (fun info => info.productUserId = product) =
      (Lowers (fun w => w.directory.online product) x).toNat) ∧
    (∀ product, (l.flatMap reports).countP (fun info => info.productUserId = product) =
        l.countP (Lowers fun w => w.directory.online product) ∧
      l.countP (Raises fun w => w.directory.online product) =
        (l.flatMap reports).countP (fun info => info.productUserId = product) +
          (t.directory.online product).toNat) ∧
    (∀ x ∈ l, ∀ info ∈ reports x,
      x.post.directory.find info.productUserId = some info ∧ info.online = false) ∧
    (∀ before x after now timeout, l = before ++ x :: after → x.action = .markStale now timeout →
      ∀ info ∈ reports x, ∀ y ∈ before, ∀ seen, Observes info.productUserId seen y →
      timeout < now - seen) ∧
    (∀ x ∈ l, ∀ product, (x.pre.directory.find product).isSome →
      (x.post.directory.find product).isSome ∧ (t.directory.find product).isSome) := by
  have hone : ∀ x ∈ l, x.pre.directory.Keyed ∧
    x.post = ⟨x.action.after x.pre.directory, x.action.reading x.pre.clock⟩ ∧
      ∃ after, Trace step InOrder x.post after t := by
    intro x hx
    obtain ⟨before, after, heq⟩ := List.append_of_mem hx
    obtain ⟨hbefore, _, hstep⟩ := h.forall_mem heq
    exact ⟨(keyed_and_seen hbefore).1, (Option.some.inj hstep).symm, after, h.after heq⟩
  refine ⟨fun x hx o endpoint now hact => ?_, fun x hx product => ?_, fun product =>
    ?_, fun x hx info hinfo => ?_,
    fun before x after now timeout heq hact info hinfo y hy seen hobs =>
      ?_, fun x hx product hknown => ?_⟩
  · obtain ⟨_, hpost, _⟩ := hone x hx
    rw [hpost, hact]
    refine ⟨observe_changed o endpoint now, fun info hfind hoff hne => ?_⟩
    have hafter := find_observe (d := x.pre.directory) hne endpoint now o.productId
    rw [if_pos rfl] at hafter
    have hon : ((x.pre.directory.observe o endpoint now).2).online o.productId = true := by
      rw [online, hafter]
      rfl
    refine ⟨(observe_changed o endpoint now).2 fun hsame => ?_, hon⟩
    rw [visible, visible, hfind, hafter] at hsame
    cases hoff.symm.trans (congrArg Prod.fst (Option.some.inj hsame))
  · obtain ⟨hkeyed, hpost, _⟩ := hone x hx
    have hcount := countP_gone hkeyed x.action product
    simp only [reports, hcount, Lowers, hpost]
  · have hcount := countP_reports h product
    refine ⟨hcount, ?_⟩
    rw [hcount]
    exact h.raises_eq (f := fun w => w.directory.online product) rfl
  · obtain ⟨hkeyed, hpost, _⟩ := hone x hx
    rw [hpost]
    exact of_mem_gone hkeyed hinfo
  · obtain ⟨hbefore, _, _⟩ := h.forall_mem heq
    obtain ⟨hkeyed, hseen⟩ := keyed_and_seen hbefore
    rw [reports, hact] at hinfo
    obtain ⟨entry, hfind, hstale, _⟩ := of_mem_markStale hkeyed hinfo
    have hlate : timeout < now - entry.lastSeen :=
      of_decide_eq_true (Bool.and_eq_true_iff.1 hstale).2
    have hne := (hkeyed _ _ hfind).2
    obtain ⟨_, i, hi, hle⟩ := hseen y hy _ seen hobs hne
    rw [hfind] at hi
    cases hi
    exact lt_of_lt_of_le hlate (Int.sub_le_sub_left hle now)
  · obtain ⟨_, hpost, after, hafter⟩ := hone x hx
    have hkept : (x.post.directory.find product).isSome := by
      rw [hpost]
      exact find_after_isSome _ hknown
    exact ⟨hkept, known_of_trace hafter hkept⟩

/-! A peer says hello, falls silent and is flagged stale, says hello again and leaves. -/

/-- A Hello of the peer "a". -/
def helloOfA : Observation :=
  { productId := str "a", epicId := [], displayName := [], presence := {} }

/-- The calls of the sample history. -/
def sampleCalls : List PeerCall :=
  [.observe helloOfA {} 1, .markStale 4 3, .markStale 9 3, .observe helloOfA {} 9, .markOffline
    (str "a"), .markStale 20 3]

/-- Both departures of the sample history are reported, one by each of the two calls. -/
theorem directory_reports_sample : ∃ l t, Trace step InOrder ⟨{}, 0⟩ l t ∧
    l.map Transition.action = sampleCalls ∧
    (l.flatMap reports).countP (fun info => info.productUserId = str "a") =
      l.countP (Lowers fun w => w.directory.online (str "a")) ∧
    l.map (fun x => (reports x).length) = [0, 0, 1, 0, 1, 0] := by
  have hex : (execIf step (fun w c => decide (InOrder w c)) ⟨{}, 0⟩ sampleCalls).isSome =
    true := by decide
  obtain ⟨t, ht⟩ := Option.isSome_iff_exists.1 hex
  have htrace : Trace step InOrder ⟨{}, 0⟩ _ t := Trace.of_execIf (fun _ _ => of_decide_eq_true) ht
  obtain ⟨_, _, hcount, _⟩ := directory_reports htrace
  exact ⟨_, t, htrace, rfl, (hcount (str "a")).1, by decide⟩

end WatchedDirectory

end EOSEmu
