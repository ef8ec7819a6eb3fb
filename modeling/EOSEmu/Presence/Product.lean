import EOSEmu.Lib.Trace
import EOSEmu.Core.Platform

/-!
# The product identity that peers report

The product id reaches a peer through `Configure`, the Hello, the directory and `CopyPresence`. The
product name and version would start at `EOS_Initialize`, which does not stash them, so
`CopyPresence` always ends at its fallback (`product_identity_reported`).
-/

namespace EOSEmu

open Lib

/-- An observation of the user of a platform with some announced presence. -/
def Platform.Announced (a : Platform) (o : Observation) : Prop :=
  ∃ announced, o = ({ a with announced }.helloSource).observation

/-- Only `a` announces its ids, in Hellos that arrive whole. -/
def OnlyAnnouncedBy (a p : Platform) : PlatformAction → Prop
  | .receive _ ip datagram => ∀ source o, p.observation ip datagram = some (source, o) →
      o.productId = a.identity.productUserId ∨ o.epicId = a.identity.epicAccountId → a.Announced o
  | _ => True

/-- The platform processes a Hello of `a`. -/
def ProcessesHelloOf (a p : Platform) : PlatformAction → Prop
  | .receive _ ip datagram =>
      ∃ source o, p.observation ip datagram = some (source, o) ∧
        o.productId = a.identity.productUserId
  | _ => False

/-- The entries of a directory with an id of `a` are its own, with its product values. -/
structure PeerDirectory.Knows (d : PeerDirectory) (a : Platform) : Prop where
  ids : ∀ product info, d.find product = some info →
    product = a.identity.productUserId ∨ info.epicAccountId = a.identity.epicAccountId →
      product = a.identity.productUserId ∧ info.epicAccountId = a.identity.epicAccountId
  product : ∀ info, d.find a.identity.productUserId = some info →
    info.presence.productId = a.productId ∧
    info.presence.productVersion = a.library.productVersion ∧
    info.presence.productName = a.library.productName

/-- What `CopyPresence` reports for the user of `a` is what its game passed, where that is not
empty. -/
def Platform.ReportsProduct (p a : Platform) (init : InitializeOptions)
    (options : PlatformOptions) : Prop :=
  ∃ info, p.copyPresence a.identity.epicAccountId = (.success, some info) ∧
    (∀ id, options.productId = some id → id ≠ [] → info.productId = id) ∧
    (∀ version, init.productVersion = some version → version ≠ [] →
      info.productVersion = version) ∧
    ∀ name, init.productName = some name → name ≠ [] → info.productName = name

namespace PeerDirectory
variable {d : PeerDirectory} {a : Platform}

/-- An empty directory knows nothing wrong. -/
theorem knows_empty (a : Platform) : ({} : PeerDirectory).Knows a := ⟨nofun, nofun⟩

/-- Clearing online flags keeps what a directory knows. -/
theorem Knows.of_map (h : d.Knows a) {d' : PeerDirectory} {f : ProductUserId → PeerInfo → Bool}
    (hfind : ∀ product, d'.find product = (d.find product).map fun info =>
      if f product info then { info with online := false } else info) : d'.Knows a := by
  constructor
  · intro product info hinfo
    rw [hfind] at hinfo
    obtain ⟨old, hold, rfl⟩ := Option.map_eq_some_iff.1 hinfo
    have hids := h.ids product old hold
    split <;> exact hids
  · intro info hinfo
    rw [hfind] at hinfo
    obtain ⟨old, hold, rfl⟩ := Option.map_eq_some_iff.1 hinfo
    have hproduct := h.product old hold
    split <;> exact hproduct

/-- So does a Hello, of the user itself or with other ids. -/
theorem Knows.observe (h : d.Knows a) {o : Observation}
    (honly : o.productId = a.identity.productUserId ∨ o.epicId = a.identity.epicAccountId →
    a.Announced o)
    (source : Endpoint) (now : TimePoint) : (d.observe o source now).2.Knows a := by
  by_cases hid : o.productId = []
  · rw [observe_of_empty hid]
    exact h
  · constructor
    · intro product info hinfo hnamed
      rw [find_observe hid] at hinfo
      split at hinfo
      · next heq =>
          cases hinfo
          subst heq
          obtain ⟨_, rfl⟩ := honly hnamed
          exact ⟨rfl, rfl⟩
      · exact h.ids product info hinfo hnamed
    · intro info hinfo
      rw [find_observe hid] at hinfo
      split at hinfo
      · next heq =>
          cases hinfo
          obtain ⟨_, rfl⟩ := honly (Or.inl heq.symm)
          exact ⟨rfl, rfl, rfl⟩
      · exact h.product info hinfo

end PeerDirectory

namespace Platform
variable {p p' a b : Platform} {action : PlatformAction}

/-- A step keeps what the directory knows. -/
theorem knows_step (h : p.peers.Knows a) (honly : OnlyAnnouncedBy a p action)
    (hstep : p.step action = some p') : p'.peers.Knows a := by
  have hdirectory := (step_directoryStep hstep).2
  generalize p'.peers = peers at hdirectory
  cases hdirectory with
  | observed now hobserved => exact h.observe (honly _ _ hobserved) _ now
  | offline now productId _ =>
      refine h.of_map (f := fun product _ => product = productId ∧ productId ≠ []) fun product =>
        ?_
      simpa using PeerDirectory.find_markOffline productId product
  | stale now => exact h.of_map fun product => PeerDirectory.find_markStale now _ product
  | ignored | untouched => exact h

/-- An entry stays. -/
theorem find_isSome_step (hstep : p.step action = some p') {product : ProductUserId}
    (h : (p.peers.find product).isSome) : (p'.peers.find product).isSome := by
  have hdirectory := (step_directoryStep hstep).2
  generalize p'.peers = peers at hdirectory
  cases hdirectory with
  | @observed now ip datagram source o hobserved =>
      by_cases hid : o.productId = []
      · rwa [PeerDirectory.observe_of_empty hid]
      · rw [PeerDirectory.find_observe hid]
        split
        · rfl
        · exact h
  | offline now productId _ => rwa [PeerDirectory.find_markOffline, Option.isSome_map]
  | stale now => rwa [PeerDirectory.find_markStale, Option.isSome_map]
  | ignored | untouched => exact h

/-- A processed Hello leaves an entry. -/
theorem find_isSome_of_hello (hstep : p.step action = some p')
    (hhello : ProcessesHelloOf a p action) : (p'.peers.find a.identity.productUserId).isSome := by
  have hdirectory := (step_directoryStep hstep).2
  generalize p'.peers = peers at hdirectory
  cases hdirectory with
  | observed now hobserved =>
      obtain ⟨_, o, hobserved', hid⟩ := hhello
      rw [hobserved] at hobserved'
      cases hobserved'
      have hne := a.identity.productUserId_ne
      rw [← hid] at hne
      rw [PeerDirectory.find_observe hne, if_pos hid.symm]
      rfl
  | offline _ _ hnone | ignored _ hnone =>
      obtain ⟨_, _, hobserved, _⟩ := hhello
      rw [hnone] at hobserved
      cases hobserved
  | stale | untouched => exact hhello.elim

/-- A fresh platform knows nobody, and its library holds no product strings. -/
theorem create_library {init : Option InitializeOptions} {identity : Identity} {config : Config}
    {options : Option PlatformOptions} {port : Option UInt16} {now : TimePoint}
    (h : create (Library.eosInitialize {} init).2 identity config options port now = some p) :
    p.library.productName = [] ∧ p.library.productVersion = [] ∧ p.identity = identity ∧
    p.peers = {} ∧
    ∃ o, options = some o ∧ p.productId = o.productId.getD [] := by
  obtain ⟨_, h⟩ := Option.ite_none_left_eq_some.1 h
  obtain ⟨o, rfl, rfl⟩ := Option.map_eq_some_iff.1 h
  have hproduct := Library.eosInitialize_product {} init
  exact ⟨hproduct.1, hproduct.2, rfl, rfl, o, rfl, rfl⟩

/-- What `CopyPresence` reports for a user that the directory knows. -/
theorem copyPresence_of_knows (h : p.peers.Knows a)
    (hfind : (p.peers.find a.identity.productUserId).isSome)
    (hids : p.identity.epicAccountId ≠ a.identity.epicAccountId) :
    ∃ info, p.copyPresence a.identity.epicAccountId = (.success, some info) ∧
      info.productId = orElse (orElse a.productId p.productId) (str "eosemu") ∧
      info.productVersion = orElse (orElse a.library.productVersion p.library.productVersion)
        (str "1.0") ∧
      info.productName = orElse (orElse a.library.productName p.library.productName)
        (str "EOSEmu") := by
  obtain ⟨peer, hpeer⟩ := Option.isSome_iff_exists.1 hfind
  have hepic := (h.ids _ peer hpeer (Or.inl rfl)).2
  have hfound : p.peers.findByEpic a.identity.epicAccountId = some peer := by
    rw [← hepic]
    exact PeerDirectory.findByEpic_eq_some hpeer fun other i hother hi =>
      (h.ids other i hother (Or.inr (hi.trans hepic))).1
  obtain ⟨hproduct, hversion, hname⟩ := h.product peer hpeer
  have hne : a.identity.epicAccountId.isEmpty = false := by simp [a.identity.epicAccountId_ne]
  rw [copyPresence, hne, if_neg (by simp), if_neg hids.symm, hfound, ← hproduct, ← hversion,
    ← hname]
  exact ⟨_, rfl, rfl, rfl, rfl⟩

/-- Receiving a Hello that fits into a datagram is permitted, and processes a Hello. -/
theorem onlyAnnouncedBy_hello {datagram : Bytes} (hsent : a.broadcastHello = some datagram)
    (hfits : fits (helloPayload a.helloSource) = true) (htag : a.net.senderTag ≠ p.net.senderTag)
    (now : TimePoint) (ip : UInt32) : OnlyAnnouncedBy a p (.receive now ip datagram) ∧
    ProcessesHelloOf a p (.receive now ip datagram) := by
  have hobserved := observation_broadcastHello hsent hfits htag ip
  refine ⟨fun source o ho _ => ?_, _, _, hobserved, rfl⟩
  rw [hobserved] at ho
  cases ho
  exact ⟨a.announced, rfl⟩

end Platform

/-- **Product identity.** In every run of a platform that processes a Hello of another user,
announced by that user only and arriving whole, the game reads the product values that the other
game passed exactly if that game passed no product version or `1.0`, and no product name or
`EOSEmu`. -/
theorem product_identity_reported {identity identity' : Identity} {config config' : Config}
    {init : InitializeOptions}
    {init' : Option InitializeOptions} {options : PlatformOptions}
      {options' : Option PlatformOptions}
    {port port' : Option UInt16} {now now' : TimePoint} {a b₀ b : Platform}
      {l : List (Transition Platform PlatformAction)}
    (ha : Platform.create (Library.eosInitialize {} (some init)).2 identity config
      (some options) port now = some a)
    (hb : Platform.create (Library.eosInitialize {} init').2 identity' config' options' port'
      now' = some b₀)
    (hids : identity'.epicAccountId ≠ identity.epicAccountId)
    (h : Trace Platform.step (OnlyAnnouncedBy a) b₀ l b)
      (hhello : ∃ t ∈ l, ProcessesHelloOf a t.pre t.action) :
    b.ReportsProduct a init options ↔
      (∀ version, init.productVersion = some version → version ≠ [] → version = str "1.0") ∧
      ∀ name, init.productName = some name → name ≠ [] → name = str "EOSEmu" := by
  obtain ⟨hname, hversion, hida, _, o, ho, hproduct⟩ := Platform.create_library ha
  obtain ⟨hname', hversion', hidb, hpeers, _⟩ := Platform.create_library hb
  cases ho
  have hinv : b₀.SameProcess b ∧ b.peers.Knows a ∧
      ((∃ t ∈ l, ProcessesHelloOf a t.pre t.action) →
      (b.peers.find a.identity.productUserId).isSome) := by
    refine h.invariant (P := fun l p => b₀.SameProcess p ∧ p.peers.Knows a ∧
      ((∃ t ∈ l, ProcessesHelloOf a t.pre t.action) →
      (p.peers.find a.identity.productUserId).isSome))
      ⟨⟨rfl, rfl, rfl, rfl, rfl⟩, ?_, ?_⟩ fun l p p' action _ hp hok hstep => ?_
    · rw [hpeers]
      exact PeerDirectory.knows_empty a
    · simp
    · refine ⟨hp.1.trans (Platform.step_directoryStep hstep).1,
        Platform.knows_step hp.2.1 hok hstep, ?_⟩
      rintro ⟨t, ht, hprocessed⟩
      rcases List.mem_append.1 ht with hbefore | hlast
      · exact Platform.find_isSome_step hstep (hp.2.2 ⟨t, hbefore, hprocessed⟩)
      · rw [List.mem_singleton.1 hlast] at hprocessed
        exact Platform.find_isSome_of_hello hstep hprocessed
  obtain ⟨hsame, hknows, hfind⟩ := hinv
  have hepic : b.identity.epicAccountId ≠ a.identity.epicAccountId := by
    rw [hsame.identity, hidb, hida]
    exact hids
  obtain ⟨info, hcopy, hid, hv, hn⟩ := Platform.copyPresence_of_knows hknows (hfind hhello) hepic
  have hv' : info.productVersion = str "1.0" := by
    rw [hv, hversion, hsame.library, hversion']
    rfl
  have hn' : info.productName = str "EOSEmu" := by
    rw [hn, hname, hsame.library, hname']
    rfl
  constructor
  · rintro ⟨info', hcopy', _, hversions, hnames⟩
    rw [hcopy] at hcopy'
    cases hcopy'
    exact ⟨fun version hi hne => (hversions version hi hne).symm.trans hv',
      fun name hi hne => (hnames name hi hne).symm.trans hn'⟩
  · rintro ⟨hversions, hnames⟩
    refine ⟨info, hcopy, fun id hi hne => ?_, fun version hi hne => ?_, fun name hi hne => ?_⟩
    · have hempty : id.isEmpty = false := by simp [hne]
      rw [hid, hproduct, hi]
      simp [orElse, hempty]
    · exact hv'.trans (hversions version hi hne).symm
    · exact hn'.trans (hnames name hi hne).symm

/-- The options of a game with a product version. -/
def sampleInitialize (version : Bytes) : InitializeOptions := { productVersion := some version }

/-- Its platform. -/
def versionedPlatform (version : Bytes) : Platform :=
  Platform.configure
    { library := (Library.eosInitialize {} (some (sampleInitialize version))).2,
      identity := sampleIdentity }
    {} { productId := some (str "p") } (some 7001) 0

/-- The platform whose game states the version is one that can be created. -/
theorem create_versionedPlatform (version : Bytes) :
    Platform.create (Library.eosInitialize {} (some (sampleInitialize version))).2 sampleIdentity
      {}
      (some { productId := some (str "p") }) (some 7001) 0 = some (versionedPlatform version) :=
        rfl

/-- The version `1.0` reaches the peer. -/
theorem product_identity_reported_sample : ∃ l b,
    Trace Platform.step (OnlyAnnouncedBy (versionedPlatform (str "1.0"))) otherPlatform l b ∧
    b.ReportsProduct (versionedPlatform (str "1.0")) (sampleInitialize (str "1.0"))
      { productId := some (str "p") } := by
  obtain ⟨datagram, hsent⟩ := Option.isSome_iff_exists.1
    (show (versionedPlatform (str "1.0")).broadcastHello.isSome by decide +kernel)
  obtain ⟨hok, hhello⟩ := Platform.onlyAnnouncedBy_hello (p := otherPlatform) hsent
    (by decide +kernel) (by decide) 1 2
  have hstep : otherPlatform.step (.receive 1 2 datagram) =
    some (otherPlatform.receive 1 2 datagram) := rfl
  have htrace := Trace.tail _ .refl hok hstep
  refine ⟨_, _, htrace, (product_identity_reported (create_versionedPlatform (str "1.0"))
    create_otherPlatform
    (by decide) htrace ⟨_, List.mem_append_right _ List.mem_cons_self, hhello⟩).2 ⟨?_, ?_⟩⟩
  · rintro _ ⟨⟩ _
    rfl
  · rintro _ ⟨⟩

/-- The version `2.5` does not reach the peer. -/
theorem not_product_identity_reported : ∃ l b,
    Trace Platform.step (OnlyAnnouncedBy (versionedPlatform (str "2.5"))) otherPlatform l b ∧
    (∃ t ∈ l, ProcessesHelloOf (versionedPlatform (str "2.5")) t.pre t.action) ∧
    ¬ b.ReportsProduct (versionedPlatform (str "2.5")) (sampleInitialize (str "2.5"))
      { productId := some (str "p") } := by
  obtain ⟨datagram, hsent⟩ := Option.isSome_iff_exists.1
    (show (versionedPlatform (str "2.5")).broadcastHello.isSome by decide +kernel)
  obtain ⟨hok, hhello⟩ := Platform.onlyAnnouncedBy_hello (p := otherPlatform) hsent
    (by decide +kernel) (by decide) 1 2
  have hstep : otherPlatform.step (.receive 1 2 datagram) =
    some (otherPlatform.receive 1 2 datagram) := rfl
  refine ⟨_, _, .tail _ .refl hok hstep, ⟨_, List.mem_append_right _ List.mem_cons_self, hhello⟩,
    ?_⟩
  rintro ⟨info, hcopy, _, hversion, _⟩
  obtain ⟨hsame, _⟩ := Platform.step_directoryStep hstep
  have hknows := Platform.knows_step (p := otherPlatform) (PeerDirectory.knows_empty _) hok hstep
  have hfind := Platform.find_isSome_of_hello hstep hhello
  have hids : (otherPlatform.receive 1 2 datagram).identity.epicAccountId ≠ str "e" := by
    rw [hsame.identity]
    decide
  obtain ⟨info', hcopy', _, hversion', _⟩ := Platform.copyPresence_of_knows hknows hfind hids
  rw [hcopy] at hcopy'
  cases hcopy'
  have hreported := hversion (str "2.5") rfl (by decide)
  rw [hversion', hsame.library] at hreported
  exact absurd hreported (by decide)

end EOSEmu
