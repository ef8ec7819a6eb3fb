import EOSEmu.Core.Hello

/-!
# The peer directory

`core/Peers.cpp`: the last Hello of every peer. Hellos refresh an entry, `MarkStale` and
`MarkOffline` flag it offline, and nothing removes it. Ids are interned strings, null for the empty
one. The order of an `unordered_map` is the order of the entries.
-/

namespace EOSEmu

open Lib

/-- `PeerInfo`. -/
structure PeerInfo where
  productUserId : ProductUserId := []
  epicAccountId : Bytes := []
  displayName : Bytes := []
  endpoint : Endpoint := {}
  presence : PeerPresence := {}
  lastSeen : TimePoint := 0
  online : Bool := true
  deriving DecidableEq, Repr

/-- `PeerDirectory`. -/
structure PeerDirectory where
  peers : Dict ProductUserId PeerInfo := .empty

namespace PeerDirectory
variable (d : PeerDirectory)

/-- What `Observe` records of a Hello. -/
def observed (o : Observation) (endpoint : Endpoint) (now : TimePoint) : PeerInfo :=
  { productUserId := o.productId
    epicAccountId := o.epicId
    displayName := o.displayName
    presence := o.presence
    endpoint
    lastSeen := now
    online := true }

/-- `PeerDirectory::Observe`. -/
def observe (o : Observation) (endpoint : Endpoint) (now : TimePoint) : Bool × PeerDirectory :=
  if o.productId.isEmpty then (false, d)
  else
    let presenceChanged := match d.peers.get? o.productId with
      | none => true
      | some info => info.presence ≠ o.presence || !info.online
    (presenceChanged, ⟨d.peers.set o.productId (observed o endpoint now)⟩)

/-- Whether `MarkStale` flags an entry. -/
def stale (now : TimePoint) (timeout : Int) (info : PeerInfo) : Bool :=
  info.online && decide (timeout < now - info.lastSeen)

/-- `PeerDirectory::MarkStale`: the peers that went offline. -/
def markStale (now : TimePoint) (timeout : Int) : List PeerInfo × PeerDirectory :=
  let r := d.peers.mapAccum (fun (transitioned : List PeerInfo) _ info =>
    if stale now timeout info then (transitioned ++ [{ info with online := false }],
      { info with online := false })
    else (transitioned, info)) []
  (r.1, ⟨r.2⟩)

/-- `PeerDirectory::MarkOffline`: the peer, if it was online. -/
def markOffline (productId : ProductUserId) : Option PeerInfo × PeerDirectory :=
  if productId.isEmpty then (none, d)
  else match d.peers.get? productId with
    | none => (none, d)
    | some info =>
        if !info.online then (none, d)
        else (some { info with online := false },
          ⟨d.peers.set productId { info with online := false }⟩)

/-- `PeerDirectory::EndpointFor`. -/
def endpointFor (product : ProductUserId) : Endpoint :=
  match d.peers.get? product with
  | some info => info.endpoint
  | none => {}

/-- `PeerDirectory::Find`. -/
def find (product : ProductUserId) : Option PeerInfo := d.peers.get? product

/-- `PeerDirectory::FindByEpic`: the first entry in the map's order. -/
def findByEpic (epic : Bytes) : Option PeerInfo :=
  (d.peers.entries.find? fun e => e.2.epicAccountId = epic).map Prod.snd

variable {d}

/-- `Observe` changes the announced peer's entry only. -/
theorem find_observe {o : Observation} (hid : o.productId ≠ []) (endpoint : Endpoint)
    (now : TimePoint) (product : ProductUserId) : (d.observe o endpoint now).2.find product =
      if product = o.productId then some (observed o endpoint now) else d.find product := by
  simp [observe, find, hid]

/-- A Hello without a product user id is ignored. -/
theorem observe_of_empty {o : Observation} (hid : o.productId = []) (endpoint : Endpoint)
    (now : TimePoint) : (d.observe o endpoint now).2 = d := by
  simp [observe, hid]

/-- `MarkStale` clears the online flag of the stale entries. -/
theorem find_markStale (now : TimePoint) (timeout : Int) (product : ProductUserId) :
    (d.markStale now timeout).2.find product = (d.find product).map fun info =>
      if stale now timeout info then { info with online := false } else info := by
  simp only [markStale, find]
  rcases d.peers.get?_mapAccum _ ([] : List PeerInfo) product with ⟨hafter, hbefore⟩ | ⟨s, info,
    hbefore, hafter⟩
  · rw [hafter, hbefore]
    rfl
  · rw [hafter, hbefore]
    simp only [Option.map_some]
    split <;> rfl

/-- `MarkOffline` clears the online flag of one entry. -/
theorem find_markOffline (productId product : ProductUserId) :
    (d.markOffline productId).2.find product = (d.find product).map fun info =>
      if product = productId ∧ productId ≠ [] then { info with online := false } else info := by
  unfold markOffline
  split
  · next hempty => simp [List.isEmpty_iff.1 hempty]
  · next hne =>
      have hid : productId ≠ [] := fun h => hne (List.isEmpty_iff.2 h)
      cases hget : d.peers.get? productId with
      | none =>
          by_cases hp : product = productId
          · simp [find, hp, hget]
          · simp [hp]
      | some info =>
          by_cases hp : product = productId
          · obtain ⟨_, _, _, _, _, _, online⟩ := info
            cases online <;> simp [find, hp, hget, hid]
          · cases hon : info.online <;> simp [find, hp, hon]

/-- An entry found by an epic account id is an entry with that id. -/
theorem of_findByEpic {epic : Bytes} {info : PeerInfo} (h : d.findByEpic epic = some info) :
    ∃ product, d.find product = some info ∧ info.epicAccountId = epic := by
  obtain ⟨⟨product, _⟩, hfind, rfl⟩ := Option.map_eq_some_iff.1 h
  exact ⟨product, Dict.mem_entries.1
    (List.mem_of_find?_eq_some hfind), by simpa using List.find?_some hfind⟩

/-- The only entry with an epic account id is found by it. -/
theorem findByEpic_eq_some {product : ProductUserId} {info : PeerInfo}
    (h : d.find product = some info)
    (honly : ∀ other i, d.find other = some i → i.epicAccountId = info.epicAccountId →
    other = product) :
    d.findByEpic info.epicAccountId = some info := by
  cases hfound : d.findByEpic info.epicAccountId with
  | none =>
      have hnone := Option.map_eq_none_iff.1 hfound
      have := List.find?_eq_none.1 hnone _ (Dict.mem_entries.2 h)
      simp at this
  | some i =>
      obtain ⟨other, hother, hepic⟩ := of_findByEpic hfound
      rw [honly other i hother hepic, h] at hother
      exact hother.symm

end PeerDirectory

end EOSEmu
