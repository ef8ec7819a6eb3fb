import EOSEmu.Sessions.Record
import EOSEmu.Interfaces.Attributes

/-!
# The session record codec

`SessionsInterface::SerializeRecord` and `DeserializeRecord` list the fields of a session by hand,
in an order of their own. `deserializeSessionRecord_serializeSessionRecord` proves that the two
lists agree: started in front of an encoding the decoder consumes exactly that encoding and returns
the record's carried part (`SessionRecord.carried`). The fields in front of the lists are read as
they were written in any case (`reads_serializeSessionRecord`).
-/

namespace EOSEmu

/-! ## The two functions -/

/-- One attribute of `SerializeRecord`. -/
def serializeSessionAttr (a : Bytes × SessionAttr) : Bytes :=
  writeAttrWire a.1 a.2.value ++ ByteWriter.u8 (enumToByte a.2.adv)

/-- `SessionsInterface::SerializeRecord`. -/
def serializeSessionRecord (r : SessionRecord) : Bytes :=
  ByteWriter.str r.sessionId ++ (ByteWriter.str r.ownerProductId ++ (ByteWriter.str r.bucketId ++
  (ByteWriter.str r.hostAddress ++
    (ByteWriter.u32 r.maxPlayers ++ (ByteWriter.u8 (enumToByte r.permission) ++
  (ByteWriter.bool (r.bAllowJoinInProgress ≠ eosFalse) ++
  (ByteWriter.bool (r.bInvitesAllowed ≠ eosFalse) ++
  (ByteWriter.bool (r.bSanctionsEnabled ≠ eosFalse) ++
  (ByteWriter.u8 (enumToByte r.state) ++
  (ByteWriter.u64 r.version ++
  (ByteWriter.u32 (UInt32.ofNat r.allowedPlatformIds.length) ++
  (r.allowedPlatformIds.flatMap ByteWriter.u32 ++
  (ByteWriter.u32 (UInt32.ofNat r.attributes.length) ++
  (r.attributes.flatMap serializeSessionAttr ++
  (ByteWriter.u32 (UInt32.ofNat r.registeredPlayers.length) ++
  r.registeredPlayers.flatMap ByteWriter.str)))))))))))))))

/-- One attribute of `SessionsInterface::DeserializeRecord`. -/
def deserializeSessionAttr : Reader (Bytes × SessionAttr) := do
  let (key, value) ← readAttrWire
  return (key, { value, adv := enumOfByte (← ByteReader.u8) })

/-- `SessionsInterface::DeserializeRecord` into `out`, with the `R.Ok()` it returns. -/
def deserializeSessionRecord (out : SessionRecord) : Reader (Bool × SessionRecord) := do
  let sessionId ← ByteReader.str
  let ownerProductId ← ByteReader.str
  let bucketId ← ByteReader.str
  let hostAddress ← ByteReader.str
  let maxPlayers ← ByteReader.u32
  let permission := enumOfByte (← ByteReader.u8)
  let bAllowJoinInProgress := eosBool (← ByteReader.bool)
  let bInvitesAllowed := eosBool (← ByteReader.bool)
  let bSanctionsEnabled := eosBool (← ByteReader.bool)
  let state := enumOfByte (← ByteReader.u8)
  let version ← ByteReader.u64
  let pc ← ByteReader.u32
  let platforms ← ByteReader.repeatOk ByteReader.u32 pc.toNat
  let ac ← ByteReader.u32
  let attrs ← ByteReader.repeatOk deserializeSessionAttr ac.toNat
  let rp ← ByteReader.u32
  let players ← ByteReader.repeatOk ByteReader.str rp.toNat
  let ok ← ByteReader.isOk
  return (ok, { out with
    sessionId, ownerProductId, bucketId, hostAddress, maxPlayers, permission, bAllowJoinInProgress,
      bInvitesAllowed
    bSanctionsEnabled, state, version
    allowedPlatformIds := out.allowedPlatformIds ++ platforms
    attributes := out.attributes ++ attrs
    registeredPlayers := out.registeredPlayers ++ players })

/-! ## What travels -/

/-- The record an announce carries: flags and boolean values normalised, and the session name, the
presence flag and the two local fields at their defaults. -/
def SessionRecord.carried (r : SessionRecord) : SessionRecord :=
  { r with
    sessionName := []
    bAllowJoinInProgress := eosBool (r.bAllowJoinInProgress ≠ eosFalse)
    bInvitesAllowed := eosBool (r.bInvitesAllowed ≠ eosFalse)
    bSanctionsEnabled := eosBool (r.bSanctionsEnabled ≠ eosFalse)
    bPresenceEnabled := eosFalse
    attributes := r.attributes.map fun a => (a.1, { a.2 with value := a.2.value.normalised })
    hostEndpoint := {}
    lastSeenTick := 0 }

/-- A session attribute that the codec carries: a value `ReadAttr` builds and an advertisement type
that fits in a byte. -/
def SessionAttrCarriable (a : Bytes × SessionAttr) : Prop := a.2.value.Built ∧ EnumFits a.2.adv

/-- A session record that the codec carries: its enumerators fit in a byte and its attribute values
are ones `ReadAttr` builds. -/
structure SessionRecord.Carriable (r : SessionRecord) : Prop where
  permission : EnumFits r.permission
  state : EnumFits r.state
  attributes : ∀ a ∈ r.attributes, SessionAttrCarriable a

/-- The record with its flags normalised to `EOS_TRUE` and `EOS_FALSE`, and the session name, the
presence flag, the endpoint the record came from and the tick it was seen at, at their defaults. -/
def SessionRecord.flagsNormalised (r : SessionRecord) : SessionRecord :=
  { r with
    sessionName := []
    bAllowJoinInProgress := eosBool (r.bAllowJoinInProgress ≠ eosFalse)
    bInvitesAllowed := eosBool (r.bInvitesAllowed ≠ eosFalse)
    bSanctionsEnabled := eosBool (r.bSanctionsEnabled ≠ eosFalse)
    bPresenceEnabled := eosFalse
    hostEndpoint := {}
    lastSeenTick := 0 }

/-- An announce carries that, with the boolean attribute values normalised too. -/
theorem SessionRecord.carried_eq (r : SessionRecord) : r.carried =
    { r.flagsNormalised with
      attributes := r.attributes.map fun a => (a.1, { a.2 with value := a.2.value.normalised })
        } := rfl

/-! ## The round trip -/

/-- An attribute decodes to itself, its boolean normalised. -/
theorem decodes_serializeSessionAttr {a : Bytes × SessionAttr} (ha : SessionAttrCarriable a)
    (hlen : (serializeSessionAttr a).length < 2 ^ 32) :
    Decodes deserializeSessionAttr (serializeSessionAttr a)
      (a.1, { a.2 with value := a.2.value.normalised }) := by
  have hv : (writeAttrWire a.1 a.2.value).length < 2 ^ 32 := by
    simp only [serializeSessionAttr, List.length_append] at hlen
    omega
  refine Decodes.bind (ha.1.decodes hv) ?_
  have h :=
    Decodes.map
    (g := fun b => (a.1, ({ value := a.2.value.normalised, adv := enumOfByte b } : SessionAttr)))
    (Decodes.u8 (enumToByte a.2.adv))
  rw [enumOfByte_toByte ha.2] at h
  exact h

/-- The attribute list decodes behind its count. -/
theorem decodes_serializeSessionAttrs {l : List (Bytes × SessionAttr)}
    (hl : ∀ a ∈ l, SessionAttrCarriable a)
    (hlen : (l.flatMap serializeSessionAttr).length < 2 ^ 32) :
    Decodes (ByteReader.repeatOk deserializeSessionAttr (UInt32.ofNat l.length).toNat)
      (l.flatMap serializeSessionAttr)
      (l.map fun a => (a.1, { a.2 with value := a.2.value.normalised })) := by
  have hpos : ∀ a, 0 < (serializeSessionAttr a).length := fun a => by simp [serializeSessionAttr,
    ByteWriter.u8]
  refine Decodes.counted (Nat.lt_of_le_of_lt (length_le_flatMap_length hpos) hlen) ?_
  intro a ha
  exact decodes_serializeSessionAttr (hl a ha) (Nat.lt_of_le_of_lt (length_le_flatMap ha) hlen)

/-- What the length fields of a session record's encoding count is shorter than `2 ^ 32`. -/
structure SessionRecord.Short (r : SessionRecord) : Prop where
  sessionId : r.sessionId.length < 2 ^ 32
  ownerProductId : r.ownerProductId.length < 2 ^ 32
  bucketId : r.bucketId.length < 2 ^ 32
  hostAddress : r.hostAddress.length < 2 ^ 32
  allowedPlatformIds : r.allowedPlatformIds.length < 2 ^ 32
  attributes : (r.attributes.flatMap serializeSessionAttr).length < 2 ^ 32
  registeredPlayers : (r.registeredPlayers.flatMap ByteWriter.str).length < 2 ^ 32

/-- A record of less than `2 ^ 32` bytes has short strings. -/
theorem SessionRecord.short_of_length {r : SessionRecord}
    (hlen : (serializeSessionRecord r).length < 2 ^ 32) : r.Short := by
  have hplatforms : r.allowedPlatformIds.length ≤
    (r.allowedPlatformIds.flatMap ByteWriter.u32).length :=
    length_le_flatMap_length fun v => by simp
  simp only [serializeSessionRecord, List.length_append, ByteWriter.u8_length,
    ByteWriter.bool_length,
    ByteWriter.u32_length, ByteWriter.u64_length, ByteWriter.str_length, ← Nat.add_assoc] at hlen
  constructor <;> omega

/-- In front of a record's encoding the decoder consumes exactly the encoding and returns the
carried record. -/
theorem decodes_serializeSessionRecord {r : SessionRecord} (hr : r.Carriable)
    (hlen : (serializeSessionRecord r).length < 2 ^ 32) :
    Decodes (deserializeSessionRecord {}) (serializeSessionRecord r) (true, r.carried) := by
  have hshort := SessionRecord.short_of_length hlen
  have hlist := decodes_strs hshort.registeredPlayers
  -- one rule for each line of the decoder, in the order of its body
  refine Decodes.bind (Decodes.str hshort.sessionId) ?_
  refine Decodes.bind (Decodes.str hshort.ownerProductId) ?_
  refine Decodes.bind (Decodes.str hshort.bucketId) ?_
  refine Decodes.bind (Decodes.str hshort.hostAddress) ?_
  refine Decodes.bind (Decodes.u32 _) ?_
  refine Decodes.bind (Decodes.u8 _) ?_
  refine Decodes.bind (Decodes.bool _) ?_
  refine Decodes.bind (Decodes.bool _) ?_
  refine Decodes.bind (Decodes.bool _) ?_
  refine Decodes.bind (Decodes.u8 _) ?_
  refine Decodes.bind (Decodes.u64 _) ?_
  refine Decodes.bind (Decodes.u32 _) ?_
  refine Decodes.bind (Decodes.counted (g := id) hshort.allowedPlatformIds fun v _ => Decodes.u32
    v) ?_
  refine Decodes.bind (Decodes.u32 _) ?_
  refine Decodes.bind (decodes_serializeSessionAttrs hr.attributes hshort.attributes) ?_
  refine Decodes.bind (Decodes.u32 _) ?_
  refine (List.append_nil (r.registeredPlayers.flatMap ByteWriter.str)) ▸ Decodes.bind hlist ?_
  refine Decodes.testOk ?_
  simp only [enumOfByte_toByte hr.permission, enumOfByte_toByte hr.state, List.map_id,
    List.nil_append]
  exact Decodes.pure _

/-- A session record that names the same session, owner, bucket, host address and limit, in the
same version. -/
structure SessionRecord.SameFront (r q : SessionRecord) : Prop where
  sessionId : q.sessionId = r.sessionId
  ownerProductId : q.ownerProductId = r.ownerProductId
  bucketId : q.bucketId = r.bucketId
  hostAddress : q.hostAddress = r.hostAddress
  maxPlayers : q.maxPlayers = r.maxPlayers
  version : q.version = r.version

/-- In front of any record's encoding the decoder returns the fields in front of the lists as they
were written. -/
theorem reads_serializeSessionRecord {r : SessionRecord}
    (hlen : (serializeSessionRecord r).length < 2 ^ 32) :
    Reads (deserializeSessionRecord {}) (serializeSessionRecord r) fun d => r.SameFront d.2 := by
  have hshort := SessionRecord.short_of_length hlen
  refine Reads.bind (Decodes.str hshort.sessionId) ?_
  refine Reads.bind (Decodes.str hshort.ownerProductId) ?_
  refine Reads.bind (Decodes.str hshort.bucketId) ?_
  refine Reads.bind (Decodes.str hshort.hostAddress) ?_
  refine Reads.bind (Decodes.u32 _) ?_
  refine Reads.bind (Decodes.u8 _) ?_
  refine Reads.bind (Decodes.bool _) ?_
  refine Reads.bind (Decodes.bool _) ?_
  refine Reads.bind (Decodes.bool _) ?_
  refine Reads.bind (Decodes.u8 _) ?_
  refine Reads.bind (Decodes.u64 _) ?_
  -- what the lists are read as does not matter
  refine Returns.reads ?_
  refine Returns.bind fun platformCount => Returns.bind fun platforms => ?_
  refine Returns.bind fun attrCount => Returns.bind fun attrs => ?_
  refine Returns.bind fun playerCount => Returns.bind fun players => ?_
  exact Returns.bind fun ok => Returns.pure ⟨rfl, rfl, rfl, rfl, rfl, rfl⟩

/-- **The codec round trip.** For a session the codec can carry whose encoding is shorter than
`2 ^ 32` bytes, `DeserializeRecord` into a fresh record, run on a buffer that holds the encoding
between any other bytes, succeeds, stops exactly behind the encoding, and yields the record with
its flags and boolean attribute values normalised; only the session name, the presence flag, the
endpoint and the tick are not carried. -/
theorem deserializeSessionRecord_serializeSessionRecord (r : SessionRecord) (hr : r.Carriable)
    (hlen : (serializeSessionRecord r).length < 2 ^ 32) (pre rest : Bytes) :
    deserializeSessionRecord {} ⟨pre ++ serializeSessionRecord r ++ rest, pre.length, true⟩ =
      ((true, { r.flagsNormalised with
          attributes := r.attributes.map fun a => (a.1, { a.2 with value := a.2.value.normalised })
            }),
        ⟨pre ++ serializeSessionRecord r ++ rest, (pre ++ serializeSessionRecord r).length,
          true⟩) := by
  rw [← SessionRecord.carried_eq]
  exact decodes_serializeSessionRecord hr hlen pre rest

/-- A session with an attribute of each type, whose boolean is the integer two. -/
def sampleMatchRecord : SessionRecord :=
  { sessionName := str "game", sessionId := str "id", maxPlayers := 4, bInvitesAllowed := 7
    allowedPlatformIds := [100]
    attributes := [(str "b", { value := readAttr 0 0 0 2 none }),
      (str "i", { value := readAttr 1 (-1) 0 0 none, adv := 0 }),
      (str "d", { value := readAttr 2 0 5 0 none }),
        (str "s", { value := readAttr 3 0 0 0 (some (str "x")) })]
    registeredPlayers := [str "p", str "q"] }

/-- The sample record can be carried. -/
theorem sampleMatchRecord_carriable : sampleMatchRecord.Carriable where
  permission := by decide
  state := by decide
  attributes := by
    intro a ha
    simp only [sampleMatchRecord, List.mem_cons, List.not_mem_nil, or_false] at ha
    rcases ha with rfl | rfl | rfl | rfl
    · exact ⟨built_readAttr .boolean 0 0 2 none, by decide⟩
    · exact ⟨built_readAttr .int64 (-1) 0 0 none, by decide⟩
    · exact ⟨built_readAttr .double 0 5 0 none, by decide⟩
    · exact ⟨built_readAttr .string 0 0 0 (some (str "x")), by decide⟩

/-- The round trip on the sample, behind one byte and before another. -/
theorem deserializeSessionRecord_sampleMatch :
    deserializeSessionRecord {} ⟨[9] ++ serializeSessionRecord sampleMatchRecord ++ [8], 1, true⟩ =
      ((true, { sampleMatchRecord.flagsNormalised with
          attributes := sampleMatchRecord.attributes.map fun a =>
            (a.1, { a.2 with value := a.2.value.normalised }) }),
        ⟨[9] ++ serializeSessionRecord sampleMatchRecord ++ [8],
          ([9] ++ serializeSessionRecord sampleMatchRecord).length, true⟩) :=
  deserializeSessionRecord_serializeSessionRecord sampleMatchRecord sampleMatchRecord_carriable
    (by decide +kernel) [9] [8]

/-- A boolean attribute whose value is neither `EOS_TRUE` nor `EOS_FALSE` comes back as
`EOS_TRUE`. -/
theorem deserializeSessionRecord_ne_flagsNormalised :
    ¬ ∀ r : SessionRecord, r.Carriable → (serializeSessionRecord r).length < 2 ^ 32 →
      (deserializeSessionRecord {} ⟨serializeSessionRecord r, 0, true⟩).1.2 =
        r.flagsNormalised := by
  intro h
  have hbad := congrArg SessionRecord.attributes
    (h sampleMatchRecord sampleMatchRecord_carriable (by decide +kernel))
  revert hbad
  decide +kernel

end EOSEmu
