import EOSEmu.Lobby.Record

/-!
# The lobby record codec

`LobbyInterface::SerializeRecord` and `DeserializeRecord`, two functions that list the same fields
by hand. `deserializeRecord_serializeRecord` proves that they agree: the decoder started in front
of an encoding consumes exactly that encoding and returns the record's carried part (`carried`),
through the three nested lists and the four value tags. An enumerator that does not fit in its
byte, or an attribute type that `WriteAttrWire` does not know, spoils what comes behind it; the
fields in front of the lists are read as they were written in any case (`reads_serializeRecord`).
-/

namespace EOSEmu

/-! ## The two functions -/

/-- One attribute of `SerializeRecord`. -/
def serializeAttr (a : Bytes × LobbyAttr) : Bytes :=
  writeAttrWire a.1 a.2.value ++ ByteWriter.u8 (enumToByte a.2.visibility)

/-- One member of `SerializeRecord`. -/
def serializeMember (m : LobbyMemberRec) : Bytes :=
  ByteWriter.str m.productId ++ (ByteWriter.u32 m.platform ++
    (ByteWriter.u32 (UInt32.ofNat m.attributes.length) ++ m.attributes.flatMap serializeAttr))

/-- `LobbyInterface::SerializeRecord`. -/
def serializeRecord (r : LobbyRecord) : Bytes :=
  ByteWriter.str r.lobbyId ++ (ByteWriter.str r.ownerProductId ++ (ByteWriter.str r.bucketId ++
  (ByteWriter.u32 r.maxMembers ++ (ByteWriter.u8 (enumToByte r.permission) ++
  (ByteWriter.bool (r.bAllowInvites ≠ eosFalse) ++
  (ByteWriter.bool (r.bAllowHostMigration ≠ eosFalse) ++
  (ByteWriter.bool (r.bRTCRoomEnabled ≠ eosFalse) ++
  (ByteWriter.bool (r.bPresenceEnabled ≠ eosFalse) ++
  (ByteWriter.bool (r.bAllowJoinById ≠ eosFalse) ++
  (ByteWriter.u64 r.version ++
  (ByteWriter.u32 (UInt32.ofNat r.allowedPlatformIds.length) ++
  (r.allowedPlatformIds.flatMap ByteWriter.u32 ++
  (ByteWriter.u32 (UInt32.ofNat r.attributes.length) ++
  (r.attributes.flatMap serializeAttr ++
  (ByteWriter.u32 (UInt32.ofNat r.members.length) ++
  r.members.flatMap serializeMember)))))))))))))))

/-- One attribute of `DeserializeRecord`. -/
def deserializeAttr : Reader (Bytes × LobbyAttr) := do
  let (key, value) ← readAttrWire
  return (key, { value, visibility := enumOfByte (← ByteReader.u8) })

/-- One member of `DeserializeRecord`. -/
def deserializeMember : Reader LobbyMemberRec := do
  let productId ← ByteReader.str
  let platform ← ByteReader.u32
  let ma ← ByteReader.u32
  return { productId, platform, attributes := ← ByteReader.repeatOk deserializeAttr ma.toNat }

/-- `LobbyInterface::DeserializeRecord` into `out`, with the `R.Ok()` it returns. -/
def deserializeRecord (out : LobbyRecord) : Reader (Bool × LobbyRecord) := do
  let lobbyId ← ByteReader.str
  let ownerProductId ← ByteReader.str
  let bucketId ← ByteReader.str
  let maxMembers ← ByteReader.u32
  let permission := enumOfByte (← ByteReader.u8)
  let bAllowInvites := eosBool (← ByteReader.bool)
  let bAllowHostMigration := eosBool (← ByteReader.bool)
  let bRTCRoomEnabled := eosBool (← ByteReader.bool)
  let bPresenceEnabled := eosBool (← ByteReader.bool)
  let bAllowJoinById := eosBool (← ByteReader.bool)
  let version ← ByteReader.u64
  let platformCount ← ByteReader.u32
  let platforms ← ByteReader.repeatOk ByteReader.u32 platformCount.toNat
  let attrCount ← ByteReader.u32
  let attrs ← ByteReader.repeatOk deserializeAttr attrCount.toNat
  let memberCount ← ByteReader.u32
  let members ← ByteReader.repeatOk deserializeMember memberCount.toNat
  let ok ← ByteReader.isOk
  return (ok, { out with
    lobbyId, ownerProductId, bucketId, maxMembers, permission, bAllowInvites,
    bAllowHostMigration, bRTCRoomEnabled, bPresenceEnabled, bAllowJoinById, version
    allowedPlatformIds := out.allowedPlatformIds ++ platforms
    attributes := out.attributes ++ attrs
    members := out.members ++ members })

/-- What a `LobbyUpdate` carries. -/
structure LobbyUpdate where
  lobbyId : Bytes
  memberPid : Bytes
  adds : AttrList
  removes : List Bytes
  deriving DecidableEq, Repr

/-- The `LobbyUpdate` branch of `LobbyInterface::OnDatagram`, up to `if (!R.Ok()) return`. -/
def deserializeUpdate : Reader LobbyUpdate := do
  let lobbyId ← ByteReader.str
  let memberPid ← ByteReader.str
  let addCount ← ByteReader.u32
  let adds ← ByteReader.repeatOk deserializeAttr addCount.toNat
  let removeCount ← ByteReader.u32
  return { lobbyId, memberPid, adds
           removes := ← ByteReader.repeatOk ByteReader.str removeCount.toNat }

/-! ## What travels -/

/-- An attribute list with its boolean values normalised. -/
def normalisedAttrs (l : AttrList) : AttrList :=
  l.map fun a => (a.1, { a.2 with value := a.2.value.normalised })

/-- A member with its boolean values normalised. -/
def LobbyMemberRec.normalised (m : LobbyMemberRec) : LobbyMemberRec :=
  { m with attributes := normalisedAttrs m.attributes }

/-- The record with its flags normalised to `EOS_TRUE` and `EOS_FALSE`, and the two local fields,
the endpoint the record came from and the tick it was seen at, at their defaults. -/
def LobbyRecord.flagsNormalised (r : LobbyRecord) : LobbyRecord :=
  { r with
    bAllowInvites := eosBool (r.bAllowInvites ≠ eosFalse)
    bAllowHostMigration := eosBool (r.bAllowHostMigration ≠ eosFalse)
    bRTCRoomEnabled := eosBool (r.bRTCRoomEnabled ≠ eosFalse)
    bPresenceEnabled := eosBool (r.bPresenceEnabled ≠ eosFalse)
    bAllowJoinById := eosBool (r.bAllowJoinById ≠ eosFalse)
    hostEndpoint := {}
    lastSeenTick := 0 }

/-- The record an announce carries: the boolean attribute values are normalised too. -/
def LobbyRecord.carried (r : LobbyRecord) : LobbyRecord :=
  { r.flagsNormalised with
    attributes := normalisedAttrs r.attributes
    members := r.members.map LobbyMemberRec.normalised }

/-- An attribute that the codec carries: a value `ReadAttr` builds and a visibility that fits in
a byte. -/
def AttrCarriable (a : Bytes × LobbyAttr) : Prop := a.2.value.Built ∧ EnumFits a.2.visibility

instance (a : Bytes × LobbyAttr) : Decidable (AttrCarriable a) :=
  inferInstanceAs (Decidable (_ ∧ _))

/-- A record that the codec carries: its enumerators fit in a byte and its attribute values are
ones `ReadAttr` builds. -/
structure LobbyRecord.Carriable (r : LobbyRecord) : Prop where
  permission : EnumFits r.permission
  attributes : ∀ a ∈ r.attributes, AttrCarriable a
  memberAttributes : ∀ m ∈ r.members, ∀ a ∈ m.attributes, AttrCarriable a

/-! ## The round trip -/

/-- An attribute decodes to itself, its boolean normalised. -/
theorem decodes_serializeAttr {a : Bytes × LobbyAttr} (ha : AttrCarriable a)
    (hlen : (serializeAttr a).length < 2 ^ 32) :
    Decodes deserializeAttr (serializeAttr a)
      (a.1, { a.2 with value := a.2.value.normalised }) := by
  have hv : (writeAttrWire a.1 a.2.value).length < 2 ^ 32 := by
    simp only [serializeAttr, List.length_append] at hlen
    omega
  refine Decodes.bind (ha.1.decodes hv) ?_
  have h := Decodes.map (g := fun b => (a.1,
    ({ value := a.2.value.normalised, visibility := enumOfByte b } : LobbyAttr)))
    (Decodes.u8 (enumToByte a.2.visibility))
  rw [enumOfByte_toByte ha.2] at h
  exact h

/-- A list of attributes decodes behind its count. -/
theorem decodes_serializeAttrs {l : AttrList} (hl : ∀ a ∈ l, AttrCarriable a)
    (hlen : (l.flatMap serializeAttr).length < 2 ^ 32) :
    Decodes (ByteReader.repeatOk deserializeAttr (UInt32.ofNat l.length).toNat)
      (l.flatMap serializeAttr) (normalisedAttrs l) := by
  have hpos : ∀ a, 0 < (serializeAttr a).length := by
    intro a
    simp [serializeAttr, ByteWriter.u8]
  refine Decodes.counted (Nat.lt_of_le_of_lt (length_le_flatMap_length hpos) hlen) ?_
  intro a ha
  exact decodes_serializeAttr (hl a ha) (Nat.lt_of_le_of_lt (length_le_flatMap ha) hlen)

/-- A member decodes to itself, its boolean values normalised. -/
theorem decodes_serializeMember {m : LobbyMemberRec} (hm : ∀ a ∈ m.attributes, AttrCarriable a)
    (hlen : (serializeMember m).length < 2 ^ 32) :
    Decodes deserializeMember (serializeMember m) m.normalised := by
  simp only [serializeMember, List.length_append, ByteWriter.str_length] at hlen
  refine Decodes.bind (Decodes.str (by omega)) ?_
  refine Decodes.bind (Decodes.u32 _) ?_
  refine Decodes.bind (Decodes.u32 _) ?_
  exact Decodes.map (g := fun l => ({ m with attributes := l } : LobbyMemberRec))
    (decodes_serializeAttrs hm (by omega))

/-- The member list decodes behind its count. -/
theorem decodes_serializeMembers {l : List LobbyMemberRec}
    (hl : ∀ m ∈ l, ∀ a ∈ m.attributes, AttrCarriable a)
    (hlen : (l.flatMap serializeMember).length < 2 ^ 32) :
    Decodes (ByteReader.repeatOk deserializeMember (UInt32.ofNat l.length).toNat)
      (l.flatMap serializeMember) (l.map LobbyMemberRec.normalised) := by
  have hpos : ∀ m, 0 < (serializeMember m).length := by
    intro m
    simp only [serializeMember, List.length_append, ByteWriter.str_length]
    omega
  refine Decodes.counted (Nat.lt_of_le_of_lt (length_le_flatMap_length hpos) hlen) ?_
  intro m hm
  exact decodes_serializeMember (hl m hm) (Nat.lt_of_le_of_lt (length_le_flatMap hm) hlen)

/-- What the length fields of a record's encoding count is shorter than `2 ^ 32`. -/
structure LobbyRecord.Short (r : LobbyRecord) : Prop where
  lobbyId : r.lobbyId.length < 2 ^ 32
  ownerProductId : r.ownerProductId.length < 2 ^ 32
  bucketId : r.bucketId.length < 2 ^ 32
  allowedPlatformIds : r.allowedPlatformIds.length < 2 ^ 32
  attributes : (r.attributes.flatMap serializeAttr).length < 2 ^ 32
  members : (r.members.flatMap serializeMember).length < 2 ^ 32

/-- A record of less than `2 ^ 32` bytes has short strings. -/
theorem LobbyRecord.short_of_length {r : LobbyRecord} (hlen : (serializeRecord r).length < 2 ^ 32) :
    r.Short := by
  have hplatforms : r.allowedPlatformIds.length ≤
    (r.allowedPlatformIds.flatMap ByteWriter.u32).length :=
    length_le_flatMap_length fun v => by simp
  simp only [serializeRecord, List.length_append, ByteWriter.u8_length, ByteWriter.bool_length,
    ByteWriter.u32_length, ByteWriter.u64_length, ByteWriter.str_length, ← Nat.add_assoc] at hlen
  constructor <;> omega

/-- In front of a record's encoding the decoder consumes exactly the encoding and returns the
carried record. -/
theorem decodes_serializeRecord {r : LobbyRecord} (hr : r.Carriable)
    (hlen : (serializeRecord r).length < 2 ^ 32) :
    Decodes (deserializeRecord {}) (serializeRecord r) (true, r.carried) := by
  have hshort := LobbyRecord.short_of_length hlen
  have hlist := decodes_serializeMembers hr.memberAttributes hshort.members
  -- one rule for each line of the decoder, in the order of its body
  refine Decodes.bind (Decodes.str hshort.lobbyId) ?_
  refine Decodes.bind (Decodes.str hshort.ownerProductId) ?_
  refine Decodes.bind (Decodes.str hshort.bucketId) ?_
  refine Decodes.bind (Decodes.u32 _) ?_
  refine Decodes.bind (Decodes.u8 _) ?_
  refine Decodes.bind (Decodes.bool _) ?_
  refine Decodes.bind (Decodes.bool _) ?_
  refine Decodes.bind (Decodes.bool _) ?_
  refine Decodes.bind (Decodes.bool _) ?_
  refine Decodes.bind (Decodes.bool _) ?_
  refine Decodes.bind (Decodes.u64 _) ?_
  refine Decodes.bind (Decodes.u32 _) ?_
  refine Decodes.bind (Decodes.counted (g := id) hshort.allowedPlatformIds fun v _ => Decodes.u32
    v) ?_
  refine Decodes.bind (Decodes.u32 _) ?_
  refine Decodes.bind (decodes_serializeAttrs hr.attributes hshort.attributes) ?_
  refine Decodes.bind (Decodes.u32 _) ?_
  refine (List.append_nil (r.members.flatMap serializeMember)) ▸ Decodes.bind hlist ?_
  refine Decodes.testOk ?_
  simp only [enumOfByte_toByte hr.permission, List.map_id, List.nil_append]
  exact Decodes.pure _

/-- A record that names the same lobby, owner, bucket and limit, in the same version. -/
structure LobbyRecord.SameFront (r q : LobbyRecord) : Prop where
  lobbyId : q.lobbyId = r.lobbyId
  ownerProductId : q.ownerProductId = r.ownerProductId
  bucketId : q.bucketId = r.bucketId
  maxMembers : q.maxMembers = r.maxMembers
  version : q.version = r.version

/-- In front of any record's encoding the decoder returns the fields in front of the lists as they
were written. -/
theorem reads_serializeRecord {r : LobbyRecord} (hlen : (serializeRecord r).length < 2 ^ 32) :
    Reads (deserializeRecord {}) (serializeRecord r) fun d => r.SameFront d.2 := by
  have hshort := LobbyRecord.short_of_length hlen
  refine Reads.bind (Decodes.str hshort.lobbyId) ?_
  refine Reads.bind (Decodes.str hshort.ownerProductId) ?_
  refine Reads.bind (Decodes.str hshort.bucketId) ?_
  refine Reads.bind (Decodes.u32 _) ?_
  refine Reads.bind (Decodes.u8 _) ?_
  refine Reads.bind (Decodes.bool _) ?_
  refine Reads.bind (Decodes.bool _) ?_
  refine Reads.bind (Decodes.bool _) ?_
  refine Reads.bind (Decodes.bool _) ?_
  refine Reads.bind (Decodes.bool _) ?_
  refine Reads.bind (Decodes.u64 _) ?_
  -- what the lists are read as does not matter
  refine Returns.reads ?_
  refine Returns.bind fun platformCount => Returns.bind fun platforms => ?_
  refine Returns.bind fun attrCount => Returns.bind fun attrs => ?_
  refine Returns.bind fun memberCount => Returns.bind fun members => ?_
  exact Returns.bind fun ok => Returns.pure ⟨rfl, rfl, rfl, rfl, rfl⟩

/-- **The codec round trip.** For a record the codec can carry whose encoding is shorter than
`2 ^ 32` bytes, `DeserializeRecord` into a fresh record, run on a buffer that holds the encoding
between any other bytes, succeeds, stops exactly behind the encoding, and yields the carried
record. -/
theorem deserializeRecord_serializeRecord (r : LobbyRecord) (hr : r.Carriable)
    (hlen : (serializeRecord r).length < 2 ^ 32) (pre rest : Bytes) :
    deserializeRecord {} ⟨pre ++ serializeRecord r ++ rest, pre.length, true⟩ =
      ((true, r.carried),
        ⟨pre ++ serializeRecord r ++ rest, (pre ++ serializeRecord r).length, true⟩) :=
  decodes_serializeRecord hr hlen pre rest

/-- A record with an attribute of each type, whose boolean is the integer two. -/
def sampleRecord : LobbyRecord :=
  { lobbyId := str "id", maxMembers := 4, bAllowInvites := 7
    attributes := [(str "b", { value := readAttr 0 0 0 2 none }),
      (str "i", { value := readAttr 1 (-1) 0 0 none, visibility := 1 })]
    members :=
      [{ productId := str "p", attributes := [(str "d", { value := readAttr 2 0 5 0 none }),
      (str "s", { value := readAttr 3 0 0 0 (some (str "x")) })] }] }

/-- The sample record can be carried. -/
theorem sampleRecord_carriable : sampleRecord.Carriable where
  permission := by decide
  attributes := by
    intro a ha
    simp only [sampleRecord, List.mem_cons, List.not_mem_nil, or_false] at ha
    rcases ha with rfl | rfl
    · exact ⟨built_readAttr .boolean 0 0 2 none, by decide⟩
    · exact ⟨built_readAttr .int64 (-1) 0 0 none, by decide⟩
  memberAttributes := by
    intro m hm a ha
    simp only [sampleRecord, List.mem_cons, List.not_mem_nil, or_false] at hm
    subst hm
    simp only [List.mem_cons, List.not_mem_nil, or_false] at ha
    rcases ha with rfl | rfl
    · exact ⟨built_readAttr .double 0 5 0 none, by decide⟩
    · exact ⟨built_readAttr .string 0 0 0 (some (str "x")), by decide⟩

/-- The round trip on the sample, behind one byte and before another. -/
theorem deserializeRecord_sampleRecord :
    deserializeRecord {} ⟨[9] ++ serializeRecord sampleRecord ++ [8], 1, true⟩ =
      ((true, sampleRecord.carried),
        ⟨[9] ++ serializeRecord sampleRecord ++ [8], ([9] ++ serializeRecord sampleRecord).length,
          true⟩) :=
  deserializeRecord_serializeRecord sampleRecord sampleRecord_carriable (by decide +kernel) [9] [8]

/-- Normalising the record's flags alone does not describe what travels: a boolean attribute
whose value is neither `EOS_TRUE` nor `EOS_FALSE` comes back as `EOS_TRUE`. -/
theorem deserializeRecord_ne_flagsNormalised :
    ¬ ∀ r : LobbyRecord, r.Carriable → (serializeRecord r).length < 2 ^ 32 →
      (deserializeRecord {} ⟨serializeRecord r, 0, true⟩).1.2 = r.flagsNormalised := by
  intro h
  have hbad := congrArg LobbyRecord.attributes (h sampleRecord sampleRecord_carriable
    (by decide +kernel))
  revert hbad
  decide +kernel

end EOSEmu
