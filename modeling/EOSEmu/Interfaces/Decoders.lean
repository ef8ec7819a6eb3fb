import EOSEmu.Net.RawReader
import EOSEmu.Core.Hello
import EOSEmu.Lobby.Codec
import EOSEmu.Sessions.Codec

/-!
# The decoders on arbitrary bytes

`DeserializeRecord` of lobbies and of sessions, the `LobbyUpdate` branch of
`LobbyInterface::OnDatagram` and the Hello branch of `Platform::OnDatagram` read counts a sender
may choose. However large those are, all loops of a decoder together run at most once for every
byte of the buffer and once more. A record's encoding cut short is refused, if the sender's length
prefixes and attribute types say what they stand for.
-/

namespace EOSEmu

/-! ## Containment -/

/-- `ReadAttrWire` behind the key and the type. -/
def readAttrValue (key : Bytes) (type : SdkInt) : Reader (Bytes × AttrValue) :=
  match type with
  | 0 => do return (key, { type, bool := eosBool ((← ByteReader.u8) ≠ 0) })
  | 1 => do return (key, { type, int := ← ByteReader.i64 })
  | 2 => do return (key, { type, dbl := ← ByteReader.u64 })
  | 3 => do return (key, { type, str := ← ByteReader.str })
  | _ => return (key, { type })

/-- `ReadAttrWire` is a key, a type, and what the type selects. -/
theorem readAttrWire_eq : readAttrWire = (do
    let key ← ByteReader.str
    let b ← ByteReader.u8
    readAttrValue key (enumOfByte b)) := rfl

instance readAttrValue_contained (key : Bytes) (type : SdkInt) :
    Contained (readAttrValue key type) := by
  unfold readAttrValue
  split <;> infer_instance

instance readAttrWire_contained : Contained readAttrWire := by
  rw [readAttrWire_eq]
  infer_instance

instance deserializeAttr_contained : Contained deserializeAttr :=
  @Contained.bind _ _ _ _ _ fun _ => by infer_instance

instance deserializeMember_contained : Contained deserializeMember := by
  unfold deserializeMember
  infer_instance

instance deserializeRecord_contained (out : LobbyRecord) : Contained (deserializeRecord out) := by
  unfold deserializeRecord
  infer_instance

instance deserializeSessionAttr_contained : Contained deserializeSessionAttr :=
  @Contained.bind _ _ _ _ _ fun _ => by infer_instance

instance deserializeSessionRecord_contained (out : SessionRecord) :
    Contained (deserializeSessionRecord out) := by
  unfold deserializeSessionRecord
  infer_instance

instance deserializeUpdate_contained : Contained deserializeUpdate := by
  unfold deserializeUpdate
  infer_instance

/-! ## Passes -/

/-- An attribute's value pays for one element. -/
theorem readAttrWire_pays : Pays readAttrWire fun _ => 0 := by
  rw [readAttrWire_eq]
  exact Pays.str.bind fun _ => Spends.of_contained

/-- A lobby attribute pays for one element. -/
theorem deserializeAttr_pays : Pays deserializeAttr fun _ => 0 :=
  readAttrWire_pays.bind fun _ => Spends.of_contained

/-- A session attribute pays for one element. -/
theorem deserializeSessionAttr_pays : Pays deserializeSessionAttr fun _ => 0 :=
  readAttrWire_pays.bind fun _ => Spends.of_contained

/-- A presence record pays for one element. -/
theorem readDataRecord_pays : Pays readDataRecord fun _ => 0 :=
  Pays.str.bind fun _ => Spends.of_contained

/-- A loop whose passes cost nothing besides themselves. -/
theorem Spends.loop {α : Type} {m : Reader α} (hm : Pays m fun _ => 0) (c n : ℕ) :
    Spends (ByteReader.repeatOk m n) c fun l => c + l.length := by
  have h := Spends.repeatOk hm c n
  have hsum : ∀ l : List α, (l.map fun _ => 1 + 0).sum = l.length := by
    intro l
    induction l with
    | nil => rfl
    | cons a l ih =>
        rw [List.map_cons, List.sum_cons, ih, List.length_cons]
        omega
  simpa only [hsum] using h

/-- A member's pass covers the passes of its attribute loop. -/
theorem deserializeMember_pays : Pays deserializeMember fun m => m.attributes.length := by
  refine Pays.str.bind fun productId => ?_
  refine Spends.step fun platform => Spends.step fun ma => ?_
  exact (Spends.loop deserializeAttr_pays 0 ma.toNat).map fun l => by simp

/-- The passes of the loops of `DeserializeRecord`: over the platforms, the attributes, the
members, and the attributes of all members. -/
def LobbyRecord.passes (r : LobbyRecord) : ℕ :=
  r.allowedPlatformIds.length + r.attributes.length +
    (r.members.map fun m => 1 + m.attributes.length).sum

/-- The passes of the loops of the session's `DeserializeRecord`. -/
def SessionRecord.passes (r : SessionRecord) : ℕ :=
  r.allowedPlatformIds.length + r.attributes.length + r.registeredPlayers.length

/-- The passes of the loops of the `LobbyUpdate` branch. -/
def LobbyUpdate.passes (u : LobbyUpdate) : ℕ := u.adds.length + u.removes.length

/-- The loops of a lobby record are paid for by the bytes. -/
theorem deserializeRecord_spends (out : LobbyRecord) :
    Spends (deserializeRecord out) out.passes fun res => res.2.passes := by
  refine Spends.step fun _ => Spends.step fun _ => Spends.step fun _ => Spends.step fun _ =>
    Spends.step fun _ =>
    Spends.step fun _ => Spends.step fun _ => Spends.step fun _ => Spends.step fun _ =>
      Spends.step fun _ =>
    Spends.step fun _ => Spends.step fun n => ?_
  have hu32 : Pays ByteReader.u32 fun _ => 0 := Pays.u32
  refine (Spends.loop hu32 _ n.toNat).bind fun platforms => Spends.step fun k => ?_
  refine (Spends.loop deserializeAttr_pays _ k.toNat).bind fun attrs => Spends.step fun j => ?_
  refine (Spends.repeatOk deserializeMember_pays _ j.toNat).bind fun members =>
    Spends.step fun ok => ?_
  refine Spends.pure ?_
  simp only [LobbyRecord.passes, List.length_append, List.map_append, List.sum_append]
  omega

/-- The loops of a session record are paid for by the bytes. -/
theorem deserializeSessionRecord_spends (out : SessionRecord) :
    Spends (deserializeSessionRecord out) out.passes fun res => res.2.passes := by
  refine Spends.step fun _ => Spends.step fun _ => Spends.step fun _ => Spends.step fun _ =>
    Spends.step fun _ =>
    Spends.step fun _ => Spends.step fun _ => Spends.step fun _ => Spends.step fun _ =>
      Spends.step fun _ =>
    Spends.step fun _ => Spends.step fun n => ?_
  refine (Spends.loop Pays.u32 _ n.toNat).bind fun platforms => Spends.step fun k => ?_
  refine (Spends.loop deserializeSessionAttr_pays _ k.toNat).bind fun attrs => Spends.step fun j =>
    ?_
  refine (Spends.loop Pays.str _ j.toNat).bind fun players => Spends.step fun ok => ?_
  refine Spends.pure ?_
  simp only [SessionRecord.passes, List.length_append]
  omega

/-- The two loops of the `LobbyUpdate` branch are paid for by the bytes. -/
theorem deserializeUpdate_spends : Spends deserializeUpdate 0 LobbyUpdate.passes := by
  refine Spends.step fun _ => Spends.step fun _ => Spends.step fun n => ?_
  refine (Spends.loop deserializeAttr_pays _ n.toNat).bind fun adds => Spends.step fun k => ?_
  exact (Spends.loop Pays.str _ k.toNat).map fun removes => by simp [LobbyUpdate.passes]

/-- The loop over the data records is paid for by the bytes. -/
theorem readHelloExtension_spends (pres : PeerPresence) :
    Spends (readHelloExtension pres) pres.data.length fun p => p.data.length := by
  refine Spends.step fun _ => Spends.step fun _ => Spends.step fun _ => Spends.step fun _ =>
    Spends.step fun _ =>
    Spends.step fun n => ?_
  exact (Spends.loop readDataRecord_pays _ n.toNat).map fun data => by simp

/-! ## Cut records -/

/-- Reading the byte of an enumerator back keeps its low byte. -/
theorem enumOfByte_enumToByte (e : SdkInt) : enumOfByte (enumToByte e) = e % 256 := by
  have h : ((Int.toNat (e % 256) % 2 ^ 8 : ℕ) : Int) = (e : Int) % 256 := by omega
  rw [enumOfByte, enumToByte, UInt8.toNat_ofNat']
  exact h

/-- The byte a type travels as names one of the SDK's four types only if the type is that one. -/
def TypeTravels (type : SdkInt) : Prop := type % 256 < 4 → type = type % 256

instance (type : SdkInt) : Decidable (TypeTravels type) := inferInstanceAs (Decidable (_ → _))

/-- A type that is none of the four has no value behind it. -/
theorem readAttrValue_default (key : Bytes) {type : SdkInt} (h : (4 : Int) ≤ type) :
    readAttrValue key type = pure (key, { type }) := by
  unfold readAttrValue
  split
  case h_5 => rfl
  all_goals exact absurd h (by decide)

/-- The four types of the SDK. -/
theorem type_cases {t : Int} (hlow : t % 256 < 4) (ht : t = t % 256) :
    t = 0 ∨ t = 1 ∨ t = 2 ∨ t = 3 := by omega

/-- The value part of an attribute is framed by its type. -/
theorem framed_attrValue (key : Bytes) {v : AttrValue} (ht : TypeTravels v.type)
    (hs : (writeAttrWire key v).length < 2 ^ 32) :
    Framed (readAttrValue key (enumOfByte (enumToByte v.type))) (match v.type with
      | 0 => ByteWriter.u8 (if v.bool ≠ 0 then 1 else 0)
      | 1 => ByteWriter.i64 v.int
      | 2 => ByteWriter.u64 v.dbl
      | 3 => ByteWriter.str v.str
      | _ => []) := by
  rw [enumOfByte_enumToByte]
  rcases lt_or_ge (v.type % 256) 4 with hlow | hhigh
  · rw [← ht hlow]
    rcases type_cases hlow (ht hlow) with h | h | h | h
    · rw [h]; exact ⟨_, (Frames.u8 _).map⟩
    · rw [h]; exact ⟨_, (Frames.i64 _).map⟩
    · rw [h]; exact ⟨_, (Frames.u64 _).map⟩
    · have hlen : v.str.length ≤ (writeAttrWire key v).length := by
        rw [writeAttrWire, h]
        simp only [List.length_append, ByteWriter.str_length]
        omega
      rw [h]; exact ⟨_, (Frames.str (Nat.lt_of_le_of_lt hlen hs)).map⟩
  · rw [readAttrValue_default key hhigh]
    split
    case h_5 => exact ⟨_, Frames.pure _⟩
    all_goals
      rename_i h
      rw [h] at hhigh
      exact absurd hhigh (by decide)

/-- A value whose type travels is framed. -/
theorem framed_writeAttrWire {key : Bytes} {v : AttrValue} (ht : TypeTravels v.type)
    (hs : (writeAttrWire key v).length < 2 ^ 32) : Framed readAttrWire (writeAttrWire key v) := by
  have hkey : key.length < 2 ^ 32 := by
    simp only [writeAttrWire, List.length_append, ByteWriter.str_length] at hs
    omega
  rw [readAttrWire_eq]
  exact Framed.bind (Frames.str hkey) (Framed.bind (Frames.u8 _) (framed_attrValue key ht hs))

/-- A lobby attribute whose type travels is framed. -/
theorem framed_serializeAttr {a : Bytes × LobbyAttr} (ht : TypeTravels a.2.value.type)
    (hs : (serializeAttr a).length < 2 ^ 32) : Framed deserializeAttr (serializeAttr a) := by
  simp only [serializeAttr, List.length_append] at hs
  obtain ⟨_, hvalue⟩ := @framed_writeAttrWire a.1 a.2.value ht (by omega)
  exact ⟨_, hvalue.bind (Frames.u8 _).map⟩

/-- So is a list of them. -/
theorem framed_serializeAttrs {l : AttrList} (ht : ∀ a ∈ l, TypeTravels a.2.value.type)
    (hs : (l.flatMap serializeAttr).length < 2 ^ 32) :
    Framed (ByteReader.repeatOk deserializeAttr (UInt32.ofNat l.length).toNat)
      (l.flatMap serializeAttr) := by
  have hpos : ∀ a, 0 < (serializeAttr a).length := fun a => by simp [serializeAttr, ByteWriter.u8]
  refine Framed.counted (Nat.lt_of_le_of_lt (length_le_flatMap_length hpos) hs) fun a ha => ?_
  exact framed_serializeAttr (ht a ha) (Nat.lt_of_le_of_lt (length_le_flatMap ha) hs)

/-- So is a member with such attributes. -/
theorem framed_serializeMember {m : LobbyMemberRec}
    (ht : ∀ a ∈ m.attributes, TypeTravels a.2.value.type)
    (hs : (serializeMember m).length < 2 ^ 32) : Framed deserializeMember (serializeMember m) := by
  simp only [serializeMember, List.length_append, ByteWriter.str_length] at hs
  obtain ⟨_, hattrs⟩ := framed_serializeAttrs ht (by omega)
  refine Framed.bind (Frames.str (by omega)) ?_
  exact Framed.bind (Frames.u32 _) (Framed.bind (Frames.u32 _) ⟨_, hattrs.map⟩)

/-- The attribute types of a record travel. -/
structure LobbyRecord.TypesTravel (r : LobbyRecord) : Prop where
  attributes : ∀ a ∈ r.attributes, TypeTravels a.2.value.type
  memberAttributes : ∀ m ∈ r.members, ∀ a ∈ m.attributes, TypeTravels a.2.value.type

/-- The attribute types of a session record travel. -/
def SessionRecord.TypesTravel (r : SessionRecord) : Prop :=
  ∀ a ∈ r.attributes, TypeTravels a.2.value.type

/-- So is a lobby record. -/
theorem framed_serializeRecord {r : LobbyRecord} (out : LobbyRecord) (ht : r.TypesTravel)
    (hs : (serializeRecord r).length < 2 ^ 32) :
      Framed (deserializeRecord out) (serializeRecord r) := by
  have hmembers : r.members.length ≤ (r.members.flatMap serializeMember).length :=
    length_le_flatMap_length fun m => by simp only [serializeMember,
      List.length_append, ByteWriter.str_length]; omega
  have hshort := LobbyRecord.short_of_length hs
  have hlist := hshort.members
  obtain ⟨_, hattrs⟩ := framed_serializeAttrs ht.attributes hshort.attributes
  obtain ⟨_, hlast⟩ := @Framed.counted _ deserializeMember _ serializeMember r.members _
    (Nat.lt_of_le_of_lt hmembers hlist) fun m hm =>
      framed_serializeMember (ht.memberAttributes m hm)
        (Nat.lt_of_le_of_lt (length_le_flatMap hm) hlist)
  refine Framed.bind (Frames.str hshort.lobbyId) ?_
  refine Framed.bind (Frames.str hshort.ownerProductId) ?_
  refine Framed.bind (Frames.str hshort.bucketId) ?_
  refine Framed.bind (Frames.u32 _) ?_
  refine Framed.bind (Frames.u8 _) ?_
  refine Framed.bind (Frames.bool _) ?_
  refine Framed.bind (Frames.bool _) ?_
  refine Framed.bind (Frames.bool _) ?_
  refine Framed.bind (Frames.bool _) ?_
  refine Framed.bind (Frames.bool _) ?_
  refine Framed.bind (Frames.u64 _) ?_
  refine Framed.bind (Frames.u32 _) ?_
  refine Framed.bind (Frames.counted hshort.allowedPlatformIds fun v _ => Frames.u32 v) ?_
  refine Framed.bind (Frames.u32 _) ?_
  refine Framed.bind hattrs ?_
  refine Framed.bind (Frames.u32 _) ?_
  refine (List.append_nil (r.members.flatMap serializeMember)) ▸ Framed.bind hlast ?_
  exact ⟨_, Frames.testOk (Frames.pure _)⟩

/-- A session attribute whose type travels is framed. -/
theorem framed_serializeSessionAttr {a : Bytes × SessionAttr} (ht : TypeTravels a.2.value.type)
    (hs : (serializeSessionAttr a).length < 2 ^ 32) :
      Framed deserializeSessionAttr (serializeSessionAttr a) := by
  simp only [serializeSessionAttr, List.length_append] at hs
  obtain ⟨_, hvalue⟩ := @framed_writeAttrWire a.1 a.2.value ht (by omega)
  exact ⟨_, hvalue.bind (Frames.u8 _).map⟩

/-- So is a session record. -/
theorem framed_serializeSessionRecord {r : SessionRecord} (out : SessionRecord)
    (ht : r.TypesTravel) (hs : (serializeSessionRecord r).length < 2 ^ 32) :
    Framed (deserializeSessionRecord out) (serializeSessionRecord r) := by
  have hattrCount : r.attributes.length ≤ (r.attributes.flatMap serializeSessionAttr).length :=
    length_le_flatMap_length fun a => by simp [serializeSessionAttr, ByteWriter.u8]
  have hplayerCount : r.registeredPlayers.length ≤
    (r.registeredPlayers.flatMap ByteWriter.str).length :=
    length_le_flatMap_length fun p => by rw [ByteWriter.str_length]; omega
  have hshort := SessionRecord.short_of_length hs
  have hattrs := hshort.attributes
  have hplayers := hshort.registeredPlayers
  obtain ⟨_, hattrList⟩ := @Framed.counted _ deserializeSessionAttr _ serializeSessionAttr
    r.attributes _ (Nat.lt_of_le_of_lt hattrCount hattrs) fun a ha =>
      framed_serializeSessionAttr (ht a ha) (Nat.lt_of_le_of_lt (length_le_flatMap ha) hattrs)
  have hplayer : ∀ p ∈ r.registeredPlayers, p.length < 2 ^ 32 := by
    intro p hp
    have := length_le_flatMap (f := ByteWriter.str) hp
    rw [ByteWriter.str_length] at this
    omega
  have hplayerList := @Frames.counted _ ByteReader.str _ ByteWriter.str id r.registeredPlayers _
    (Nat.lt_of_le_of_lt hplayerCount hplayers) fun p hp => Frames.str (hplayer p hp)
  refine Framed.bind (Frames.str hshort.sessionId) ?_
  refine Framed.bind (Frames.str hshort.ownerProductId) ?_
  refine Framed.bind (Frames.str hshort.bucketId) ?_
  refine Framed.bind (Frames.str hshort.hostAddress) ?_
  refine Framed.bind (Frames.u32 _) ?_
  refine Framed.bind (Frames.u8 _) ?_
  refine Framed.bind (Frames.bool _) ?_
  refine Framed.bind (Frames.bool _) ?_
  refine Framed.bind (Frames.bool _) ?_
  refine Framed.bind (Frames.u8 _) ?_
  refine Framed.bind (Frames.u64 _) ?_
  refine Framed.bind (Frames.u32 _) ?_
  refine Framed.bind (Frames.counted hshort.allowedPlatformIds fun v _ => Frames.u32 v) ?_
  refine Framed.bind (Frames.u32 _) ?_
  refine Framed.bind hattrList ?_
  refine Framed.bind (Frames.u32 _) ?_
  refine (List.append_nil (r.registeredPlayers.flatMap ByteWriter.str)) ▸
    Framed.bind hplayerList ?_
  exact ⟨_, Frames.testOk (Frames.pure _)⟩

/-! ## What the decoders do with any bytes -/

/-- The program returns the flag it ends with. -/
def ReturnsFlag {α : Type} (m : Reader (Bool × α)) : Prop := ∀ r, (m r).1.1 = (m r).2.ok

/-- Whatever is read first, the flag at the end is returned. -/
theorem ReturnsFlag.step {α β : Type} {m : Reader α} {f : α → Reader (Bool × β)}
    (h : ∀ a, ReturnsFlag (f a)) : ReturnsFlag (m >>= f) := fun r => h (m r).1 (m r).2

/-- `return R.Ok()`. -/
theorem ReturnsFlag.last {β : Type} (b : β) :
    ReturnsFlag (do return (← ByteReader.isOk, b)) := fun _ => rfl

/-- The decoder of lobby records returns its flag. -/
theorem deserializeRecord_flag (out : LobbyRecord) : ReturnsFlag (deserializeRecord out) := by
  refine .step fun _ => .step fun _ => .step fun _ => .step fun _ => .step fun _ => .step fun _ =>
    .step fun _ =>
    .step fun _ => .step fun _ => .step fun _ => .step fun _ => .step fun _ => .step fun _ =>
      .step fun _ =>
    .step fun _ => .step fun _ => .step fun _ => ?_
  exact .last _

/-- The decoder of session records returns its flag. -/
theorem deserializeSessionRecord_flag (out : SessionRecord) :
    ReturnsFlag (deserializeSessionRecord out) := by
  refine .step fun _ => .step fun _ => .step fun _ => .step fun _ => .step fun _ => .step fun _ =>
    .step fun _ =>
    .step fun _ => .step fun _ => .step fun _ => .step fun _ => .step fun _ => .step fun _ =>
      .step fun _ =>
    .step fun _ => .step fun _ => .step fun _ => ?_
  exact .last _

/-- What a program spends from the start of a buffer is at most one more than the buffer's
length. -/
theorem Spends.le_length {α : Type} {m : Reader α} {c : ℕ} {μ : α → ℕ} (hm : Spends m c μ)
    (r : ByteReader) : μ (m r).1 ≤ c + (r.data.length + 1) := by
  have h1 := hm r
  have h2 := r.budget_le
  omega

/-- **Decoder robustness.** A reader inside its buffer stays inside it and reads only bytes of it,
whatever operations follow; a read past the end clears the flag and nothing sets it again. From any
bytes and any position, all loops of a decoder together make at most one pass more than the buffer
has bytes. A strict prefix of a record's encoding is refused, if the encoding is shorter than
`2 ^ 32` bytes and the attribute types travel. -/
theorem decoders_robust (raw : RawReader) (hraw : raw.InBounds) (ops : List ReadOp)
    (r : ByteReader) (lobbyOut : LobbyRecord) (sessionOut : SessionRecord) (pres : PeerPresence)
    (lobby : LobbyRecord) (hlobby : lobby.TypesTravel)
    (hlobbyLen : (serializeRecord lobby).length < 2 ^ 32) (session : SessionRecord)
    (hsession : session.TypesTravel)
    (hsessionLen : (serializeSessionRecord session).length < 2 ^ 32) :
    ((raw.run ops).InBounds ∧ (raw.run ops).len = raw.len ∧
    (raw.ok = false → (raw.run ops).ok = false) ∧
      ∀ n : UInt64, raw.len.toNat < raw.pos.toNat + n.toNat →
      ((ReadOp.fixed n).raw raw).2.ok = false) ∧
    ((deserializeRecord lobbyOut r).1.2.passes ≤ lobbyOut.passes + (r.data.length + 1) ∧
      (deserializeSessionRecord sessionOut r).1.2.passes ≤ sessionOut.passes +
        (r.data.length + 1) ∧
      (deserializeUpdate r).1.passes ≤ r.data.length + 1 ∧
      (readHelloExtension pres r).1.data.length ≤ pres.data.length + (r.data.length + 1)) ∧
    (∀ cut, cut <+: serializeRecord lobby → cut ≠ serializeRecord lobby →
      (deserializeRecord lobbyOut ⟨cut, 0, true⟩).1.1 = false) ∧
    ∀ cut, cut <+: serializeSessionRecord session → cut ≠ serializeSessionRecord session →
      (deserializeSessionRecord sessionOut ⟨cut, 0, true⟩).1.1 = false := by
  refine ⟨⟨raw.run_inBounds hraw ops, raw.run_len ops, fun hok => ?_, fun n hn => ?_⟩,
    ⟨?_, ?_, ?_, ?_⟩, ?_, ?_⟩
  · have h := ByteReader.run_failed (r := raw.view) hok ops
    rwa [RawReader.run_view hraw] at h
  · exact RawReader.read_past hraw hn
  · have h := (deserializeRecord_spends lobbyOut).le_length r
    exact h
  · have h := (deserializeSessionRecord_spends sessionOut).le_length r
    exact h
  · have h := deserializeUpdate_spends.le_length r
    rwa [Nat.zero_add] at h
  · have h := (readHelloExtension_spends pres).le_length r
    exact h
  · intro cut hcut hne
    obtain ⟨_, h⟩ := framed_serializeRecord lobbyOut hlobby hlobbyLen
    exact (deserializeRecord_flag lobbyOut _).trans (h.rejectsCuts.whole hcut hne)
  · intro cut hcut hne
    obtain ⟨_, h⟩ := framed_serializeSessionRecord sessionOut hsession hsessionLen
    exact (deserializeSessionRecord_flag sessionOut _).trans (h.rejectsCuts.whole hcut hne)

/-- A session with an attribute and a player. -/
def sampleSession : SessionRecord :=
  { sessionId := str "s"
    attributes := [(str "map", { value := readAttr 3 0 0 0 (some (str "x")) })]
    registeredPlayers := [str "p"] }

/-- Its types travel. -/
theorem sampleSession_typesTravel : sampleSession.TypesTravel := by
  show ∀ a ∈ sampleSession.attributes, _
  decide

/-- The types of the sample lobby travel. -/
theorem sampleRecord_typesTravel : sampleRecord.TypesTravel where
  attributes := by decide
  memberAttributes := by decide

/-- A reader over four bytes of memory that holds more. -/
def sampleRaw : RawReader := { mem := fun k => UInt8.ofNat k, len := 4 }

/-- It has read nothing yet. -/
theorem sampleRaw_inBounds : sampleRaw.InBounds where
  pos := by decide
  touched _ h := nomatch h

/-- The decoders on a short reader, on no bytes and on every cut of two records. -/
theorem decoders_robust_sample :
    ((sampleRaw.run [.u16, .u32]).InBounds ∧ (sampleRaw.run [.u16, .u32]).len = sampleRaw.len ∧
      (sampleRaw.ok = false → (sampleRaw.run [.u16, .u32]).ok = false) ∧
      ∀ n : UInt64, sampleRaw.len.toNat < sampleRaw.pos.toNat + n.toNat →
        ((ReadOp.fixed n).raw sampleRaw).2.ok = false) ∧
    ((deserializeRecord {} { data := [] }).1.2.passes ≤ 0 + (0 + 1) ∧
      (deserializeSessionRecord {} { data := [] }).1.2.passes ≤ 0 + (0 + 1) ∧
      (deserializeUpdate { data := [] }).1.passes ≤ 0 + 1 ∧
      (readHelloExtension {} { data := [] }).1.data.length ≤ 0 + (0 + 1)) ∧
    (∀ cut, cut <+: serializeRecord sampleRecord → cut ≠ serializeRecord sampleRecord →
      (deserializeRecord {} ⟨cut, 0, true⟩).1.1 = false) ∧
    ∀ cut, cut <+: serializeSessionRecord sampleSession →
      cut ≠ serializeSessionRecord sampleSession →
      (deserializeSessionRecord {} ⟨cut, 0, true⟩).1.1 = false :=
  decoders_robust sampleRaw sampleRaw_inBounds [.u16, .u32] { data := [] } {} {} {} sampleRecord
    sampleRecord_typesTravel (by decide +kernel) sampleSession sampleSession_typesTravel
      (by decide +kernel)

/-- A lobby whose first attribute has the type 256, which travels as the byte of `EOS_AT_BOOLEAN`
but has no value behind it, so that the receiver reads everything after it one byte late. -/
def shiftedRecord : LobbyRecord :=
  { attributes := [([], { value := { type := 256 } }),
    ([0, 9, 0, 0, 0, 0, 0], { value := { type := 9 } })] }

/-- A lobby whose bucket id is so many zero bytes. -/
def zeroesRecord (n : ℕ) : LobbyRecord := { bucketId := List.replicate n 0 }

/-- It has no types that could not travel. -/
theorem zeroesRecord_typesTravel (n : ℕ) : (zeroesRecord n).TypesTravel := ⟨nofun, nofun⟩

/-- A cut that reads as an empty record. -/
def zeroesCut : Bytes := List.replicate 42 0

/-- The length `2 ^ 32` travels as zero, so the first bytes of the record are zero. -/
theorem serializeRecord_zeroes {n : ℕ} (hn : n = 2 ^ 32) :
    ∃ rest, serializeRecord (zeroesRecord n) = zeroesCut ++ rest ∧ rest ≠ [] := by
  have hzero : ByteWriter.u32 (UInt32.ofNat n) = List.replicate 4 0 := by rw [hn]; decide
  have hbucket : ByteWriter.str (List.replicate n 0) = List.replicate 34 0 ++
    List.replicate (n - 30) 0 := by
    rw [ByteWriter.str, List.length_replicate, hzero, List.replicate_append_replicate,
      List.replicate_append_replicate]
    exact congrArg (fun k => List.replicate k 0) (by omega)
  have hids : ByteWriter.str [] ++ (ByteWriter.str [] ++ List.replicate 34 0) = zeroesCut := by
    decide
  obtain ⟨tail, htail⟩ : ∃ tail, serializeRecord (zeroesRecord n) =
      ByteWriter.str [] ++ (ByteWriter.str [] ++ (ByteWriter.str (List.replicate n 0) ++ tail)) :=
        ⟨_, rfl⟩
  refine ⟨List.replicate (n - 30) 0 ++ tail, ?_, ?_⟩
  · rw [htail, hbucket, ← hids]
    simp only [List.append_assoc]
  · have hpos : n - 30 ≠ 0 := by omega
    simp [hpos]

/-- A cut of the record with `2 ^ 32` zero bytes is not refused. -/
theorem zeroesCut_prefix {n : ℕ} (hn : n = 2 ^ 32) :
    zeroesCut <+: serializeRecord (zeroesRecord n) ∧
    zeroesCut ≠ serializeRecord (zeroesRecord n) := by
  obtain ⟨rest, hrecord, hrest⟩ := serializeRecord_zeroes hn
  refine ⟨⟨rest, hrecord.symm⟩, ?_⟩
  rw [hrecord]
  simpa using hrest

/-- The shifted record up to the key of its second attribute. -/
def shiftedCut : Bytes := (serializeRecord shiftedRecord).take 55

/-- Two cuts that are not refused: of a record with an attribute type that is none of the SDK's,
and of a record with a string of `2 ^ 32` bytes. -/
theorem not_rejects_cuts :
    (shiftedCut <+: serializeRecord shiftedRecord ∧ shiftedCut ≠ serializeRecord shiftedRecord ∧
      (deserializeRecord {} ⟨shiftedCut, 0, true⟩).1.1 = true) ∧
    (zeroesRecord (2 ^ 32)).TypesTravel ∧ zeroesCut <+: serializeRecord (zeroesRecord (2 ^ 32)) ∧
      zeroesCut ≠ serializeRecord (zeroesRecord (2 ^ 32)) ∧
      (deserializeRecord {} ⟨zeroesCut, 0, true⟩).1.1 = true := by
  obtain ⟨hfront, hne⟩ := zeroesCut_prefix rfl
  exact ⟨⟨List.take_prefix _ _, by decide +kernel, by decide +kernel⟩, zeroesRecord_typesTravel _,
    hfront, hne, by decide +kernel⟩

end EOSEmu
