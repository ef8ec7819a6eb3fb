import EOSEmu.Net.Wire
import EOSEmu.Net.Robust

/-!
# The Hello datagram

`Platform::BroadcastHello` builds it and the Hello branch of `Platform::OnDatagram` reads it
(`core/Platform.cpp`). Four base strings are followed by an optional extension, which the receiver
commits only if it parses whole. `hello_observed` classifies every cut of a Hello.
-/

namespace EOSEmu

/-- `Platform::LocalPresenceState`. -/
structure LocalPresenceState where
  status : UInt8 := 1
  richText : Bytes := []
  joinInfo : Bytes := []
  data : List (Bytes × Bytes) := []
  deriving DecidableEq, Repr

/-- `PeerPresence`. -/
structure PeerPresence where
  status : UInt8 := 1
  richText : Bytes := []
  joinInfo : Bytes := []
  productId : Bytes := []
  productVersion : Bytes := []
  productName : Bytes := []
  data : List (Bytes × Bytes) := []
  deriving DecidableEq, Repr

/-- What `BroadcastHello` reads: the local identity, the product values and the announced
presence. -/
structure HelloSource where
  productUserId : Bytes
  epicAccountId : Bytes
  displayName : Bytes
  presence : LocalPresenceState
  productId : Bytes
  productVersion : Bytes
  productName : Bytes
  deriving DecidableEq, Repr

/-- What `OnDatagram` passes to `PeerDirectory::Observe`, besides the sender's endpoint. -/
structure Observation where
  productId : Bytes
  epicId : Bytes
  displayName : Bytes
  presence : PeerPresence
  deriving DecidableEq, Repr

/-! ## Building it -/

/-- One data record of a Hello. -/
def writeDataRecord (kv : Bytes × Bytes) : Bytes := ByteWriter.str kv.1 ++ ByteWriter.str kv.2

/-- The base strings, all that a build without the extension sends. -/
def helloBase (s : HelloSource) : Bytes :=
  ByteWriter.str s.productUserId ++
    (ByteWriter.str s.epicAccountId ++ (ByteWriter.str s.displayName ++
  ByteWriter.str s.presence.richText))

/-- The presence extension. -/
def helloExtension (s : HelloSource) : Bytes :=
  ByteWriter.u8 s.presence.status ++
    (ByteWriter.str s.presence.joinInfo ++ (ByteWriter.str s.productId ++
  (ByteWriter.str s.productVersion ++ (ByteWriter.str s.productName ++
  (ByteWriter.u32 (UInt32.ofNat s.presence.data.length) ++
    s.presence.data.flatMap writeDataRecord)))))

/-- The payload `BroadcastHello` hands to `Node::Broadcast`. -/
def helloPayload (s : HelloSource) : Bytes := helloBase s ++ helloExtension s

/-- A Hello without its rich text. -/
def HelloSource.plain (s : HelloSource) : HelloSource :=
  { s with presence := { s.presence with richText := [] } }

/-- The rich text adds its own length. -/
theorem helloPayload_length (s : HelloSource) :
    (helloPayload s).length = s.presence.richText.length + (helloPayload s.plain).length := by
  simp only [helloPayload, helloBase, helloExtension, HelloSource.plain, List.length_append,
    ByteWriter.str_length, List.length_nil]
  omega

/-! ## Reading it -/

/-- The base strings, with the presence a build without the extension has. -/
def readHelloBase : Reader Observation := do
  let productId ← ByteReader.str
  let epicId ← ByteReader.str
  let displayName ← ByteReader.str
  return { productId, epicId, displayName, presence := { richText := ← ByteReader.str } }

/-- One data record. -/
def readDataRecord : Reader (Bytes × Bytes) := do
  let key ← ByteReader.str
  return (key, ← ByteReader.str)

/-- The extension, read into `Ext`, a copy of the base presence. -/
def readHelloExtension (pres : PeerPresence) : Reader PeerPresence := do
  let status ← ByteReader.u8
  let joinInfo ← ByteReader.str
  let productId ← ByteReader.str
  let productVersion ← ByteReader.str
  let productName ← ByteReader.str
  let count ← ByteReader.u32
  let data ← ByteReader.repeatOk readDataRecord count.toNat
  return { pres with status, joinInfo, productId, productVersion, productName, data := pres.data ++
    data }

/-- `R.Remaining() > 0`. -/
def hasMore : Reader Bool := fun r => (0 < r.remaining, r)

/-- Looking for more reads nothing. -/
theorem hasMore_apply (r : ByteReader) : hasMore r = (decide (0 < r.remaining), r) := rfl

/-- The Hello branch of `Platform::OnDatagram`, up to the call of `Observe`; `none` is the early
`break`. -/
def onHello : Reader (Option Observation) := do
  let base ← readHelloBase
  if !(← ByteReader.isOk) then return none
  if ← hasMore then
    let ext ← readHelloExtension base.presence
    if ← ByteReader.isOk then return some { base with presence := ext }
    else return some base
  else return some base

/-! ## What travels -/

/-- What a receiver without the extension observes. -/
def HelloSource.baseObservation (s : HelloSource) : Observation :=
  { productId := s.productUserId
    epicId := s.epicAccountId
    displayName := s.displayName
    presence := { richText := s.presence.richText } }

/-- The presence a Hello carries. -/
def HelloSource.peerPresence (s : HelloSource) : PeerPresence :=
  { status := s.presence.status
    richText := s.presence.richText
    joinInfo := s.presence.joinInfo
    productId := s.productId
    productVersion := s.productVersion
    productName := s.productName
    data := s.presence.data }

/-- What a receiver of the whole Hello observes. -/
def HelloSource.observation (s : HelloSource) : Observation :=
  { s.baseObservation with presence := s.peerPresence }

/-! ## The readers -/

instance readDataRecord_contained : Contained readDataRecord :=
  inferInstanceAs (Contained (do let key ← ByteReader.str; return (key, ← ByteReader.str)))

/-- The three ways through the branch. -/
theorem onHello_eq (r : ByteReader) :
    (onHello r).1 =
      if (readHelloBase r).2.ok = false then none
      else if (readHelloBase r).2.remaining = 0 ∨
        (readHelloExtension (readHelloBase r).1.presence (readHelloBase r).2).2.ok =
          false then some (readHelloBase r).1
      else some { (readHelloBase r).1 with
        presence := (readHelloExtension (readHelloBase r).1.presence (readHelloBase r).2).1 } := by
  simp only [onHello, Reader.bind_apply, Reader.pure_apply, Reader.ite_apply]
  generalize readHelloBase r = b
  obtain ⟨base, r1⟩ := b
  by_cases hok : r1.ok = true
  · by_cases hrem : 0 < r1.remaining
    · by_cases hext : (readHelloExtension base.presence r1).2.ok = true
      · simp [ByteReader.isOk_apply, hasMore_apply, hok, hrem, Nat.ne_of_gt hrem, hext]
      · simp [ByteReader.isOk_apply, hasMore_apply, hok, hrem, Nat.ne_of_gt hrem, hext]
    · have hzero : r1.remaining = 0 := by omega
      simp [ByteReader.isOk_apply, hasMore_apply, hok, hzero]
  · simp [ByteReader.isOk_apply, hok]

/-! ## A whole Hello -/

section Source
variable {s : HelloSource}

/-- A record takes room. -/
theorem writeDataRecord_length (kv : Bytes × Bytes) : 0 < (writeDataRecord kv).length := by
  simp only [writeDataRecord, List.length_append, ByteWriter.str_length]
  omega

/-- A short record is framed. -/
theorem frames_dataRecord {kv : Bytes × Bytes} (h : (writeDataRecord kv).length < 2 ^ 32) :
    Frames readDataRecord (writeDataRecord kv) kv := by
  simp only [writeDataRecord, List.length_append, ByteWriter.str_length] at h
  refine Frames.bind (Frames.str (by omega)) ?_
  exact Frames.map (g := fun v => (kv.1, v)) (Frames.str (by omega))

/-- The lengths of the strings of a Hello that fits into a datagram, all below the range of the
length prefixes. -/
structure HelloSource.Short (s : HelloSource) : Prop where
  productUserId : s.productUserId.length < 2 ^ 32
  epicAccountId : s.epicAccountId.length < 2 ^ 32
  displayName : s.displayName.length < 2 ^ 32
  richText : s.presence.richText.length < 2 ^ 32
  joinInfo : s.presence.joinInfo.length < 2 ^ 32
  productId : s.productId.length < 2 ^ 32
  productVersion : s.productVersion.length < 2 ^ 32
  productName : s.productName.length < 2 ^ 32
  count : s.presence.data.length < 2 ^ 32
  records : ∀ kv ∈ s.presence.data, (writeDataRecord kv).length < 2 ^ 32

/-- In a short Hello every field is short. -/
theorem HelloSource.short (h : (helloPayload s).length < 2 ^ 32) : s.Short := by
  have hcount : s.presence.data.length ≤ (s.presence.data.flatMap writeDataRecord).length :=
    length_le_flatMap_length writeDataRecord_length
  have hrecord : ∀ kv ∈ s.presence.data,
      (writeDataRecord kv).length ≤ (s.presence.data.flatMap writeDataRecord).length :=
    fun kv hkv => length_le_flatMap hkv
  simp only [helloPayload, helloBase, helloExtension, List.length_append, ByteWriter.str_length,
    ByteWriter.u8_length, ByteWriter.u32_length] at h
  constructor
  case records =>
    intro kv hkv
    have := hrecord kv hkv
    omega
  all_goals omega

/-- The base fields are framed. -/
theorem frames_helloBase (h : s.Short) : Frames readHelloBase (helloBase s) s.baseObservation := by
  refine Frames.bind (Frames.str h.productUserId) ?_
  refine Frames.bind (Frames.str h.epicAccountId) ?_
  refine Frames.bind (Frames.str h.displayName) ?_
  exact Frames.map
    (g := fun t => ({ s.baseObservation with presence := { richText := t } } : Observation))
    (Frames.str h.richText)

/-- So are the fields that were added to them. -/
theorem frames_helloExtension (h : s.Short) :
    Frames (readHelloExtension s.baseObservation.presence) (helloExtension s) s.peerPresence := by
  refine Frames.bind (Frames.u8 _) ?_
  refine Frames.bind (Frames.str h.joinInfo) ?_
  refine Frames.bind (Frames.str h.productId) ?_
  refine Frames.bind (Frames.str h.productVersion) ?_
  refine Frames.bind (Frames.str h.productName) ?_
  refine Frames.bind (Frames.u32 _) ?_
  have hdata := Frames.counted h.count fun kv hkv => frames_dataRecord (h.records kv hkv)
  rw [List.map_id'] at hdata
  exact Frames.map (g := fun data => ({ s.peerPresence with data } : PeerPresence)) hdata

/-- A receiver of the base and some bytes of the extension reads the base and stands in front of
those bytes. -/
theorem readHelloBase_append (h : s.Short) (t : Bytes) :
    readHelloBase ⟨helloBase s ++ t, 0, true⟩ =
      (s.baseObservation, ⟨helloBase s ++ t, (helloBase s).length, true⟩) :=
  (frames_helloBase h).decodes [] t

/-- A cut behind the base: the extension is absent or does not parse, and the base is observed. -/
theorem onHello_cut_extension (h : s.Short) {t : Bytes} (ht : t <+: helloExtension s)
    (hne : t ≠ helloExtension s) :
    (onHello ⟨helloBase s ++ t, 0, true⟩).1 = some s.baseObservation := by
  have hfail := (frames_helloExtension h).rejectsCuts (helloBase s) t ht hne
  rw [onHello_eq, readHelloBase_append h]
  dsimp only
  rw [if_neg (by simp), if_pos (Or.inr hfail)]

/-- A cut inside the base: the datagram is ignored. -/
theorem onHello_cut_base (h : s.Short) {t : Bytes} (ht : t <+: helloBase s)
    (hne : t ≠ helloBase s) : (onHello ⟨t, 0, true⟩).1 = none := by
  rw [onHello_eq, if_pos ((frames_helloBase h).rejectsCuts.whole ht hne)]

/-- The whole Hello. -/
theorem onHello_whole (h : s.Short) :
    (onHello ⟨helloPayload s, 0, true⟩).1 = some s.observation := by
  have hread := (frames_helloExtension h).decodes (helloBase s) []
  have hrem : ByteReader.remaining ⟨helloBase s ++ helloExtension s, (helloBase s).length, true⟩ ≠
    0 := by
    simp [ByteReader.remaining, helloExtension]
  simp only [List.append_nil] at hread
  rw [onHello_eq, helloPayload, readHelloBase_append h]
  dsimp only
  rw [hread, if_neg (by simp), if_neg (by simp [hrem])]
  rfl

end Source

/-- **Hello codec.** A receiver of a Hello that fits into a datagram observes exactly what the
sender announced. Of a strict prefix it observes nothing if the cut is inside the base strings, and
otherwise the base with every field of the extension at its default. -/
theorem hello_observed (s : HelloSource) (hfits : fits (helloPayload s) = true) :
    (onHello ⟨helloPayload s, 0, true⟩).1 = some s.observation ∧
    ∀ cut, cut <+: helloPayload s → cut ≠ helloPayload s →
      (onHello ⟨cut, 0, true⟩).1 = if cut.length <
        (helloBase s).length then none else some s.baseObservation := by
  have hlen : (helloPayload s).length ≤ maxDatagram - wireHeaderSize := of_decide_eq_true hfits
  have hs : s.Short := HelloSource.short
    (by simp only [maxDatagram, wireHeaderSize] at hlen; omega)
  refine ⟨onHello_whole hs, fun cut hcut hne => ?_⟩
  rcases prefix_append_cases hcut with hbase | ⟨t, rfl, ht⟩
  · by_cases hall : cut = helloBase s
    · have hext : ([] : Bytes) ≠ helloExtension s := by simp [helloExtension, ByteWriter.u8]
      have hobserved := onHello_cut_extension hs List.nil_prefix hext
      rw [List.append_nil] at hobserved
      rw [hall, hobserved, if_neg (Nat.lt_irrefl _)]
    · have hlt : cut.length < (helloBase s).length :=
        Nat.lt_of_le_of_ne hbase.length_le fun h => hall (hbase.eq_of_length h)
      rw [onHello_cut_base hs hbase hall, if_pos hlt]
  · have hge : ¬ (helloBase s ++ t).length < (helloBase s).length := by simp
    rw [onHello_cut_extension hs ht fun h => hne (by rw [h, helloPayload]), if_neg hge]

/-- A user in a match, with one data record. -/
def sampleHello : HelloSource :=
  { productUserId := str "a"
    epicAccountId := str "e"
    displayName := str "A"
    presence :=
      { status := 3, richText := str "in game", joinInfo := str "j"
        data := [(str "map", str "dust")] }
    productId := str "p"
    productVersion := str "2"
    productName := str "n" }

/-- A Hello is observed whole, and each cut as far as it goes. -/
theorem hello_observed_sample :
    (onHello ⟨helloPayload sampleHello, 0, true⟩).1 = some sampleHello.observation ∧
    ∀ cut, cut <+: helloPayload sampleHello → cut ≠ helloPayload sampleHello →
      (onHello ⟨cut, 0, true⟩).1 =
        if cut.length < (helloBase sampleHello).length then none
        else some sampleHello.baseObservation :=
  hello_observed sampleHello (by decide +kernel)

end EOSEmu
