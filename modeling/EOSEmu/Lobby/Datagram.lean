import EOSEmu.Lobby.Interface

/-!
# Lobby datagrams

A message of the lobby interface travels as the bytes its builder writes.
`LobbyInterface::OnDatagram` reads them back before it takes the lock, and returns where the
payload ends too early (`LobbyDatagram.read`). A message that the codec carries is read as what it
carries (`read_datagram`). Of any other one that is read, the fields in front of the attribute
lists are read as they were written (`readAs_of_read`).
-/

namespace EOSEmu

/-- The datagram type a message is sent under. -/
def LobbyMessage.type : LobbyMessage → MessageType
  | .announce _ => .lobbyAnnounce
  | .update .. => .lobbyUpdate
  | .joinRequest .. => .lobbyJoinRequest
  | .leave .. => .lobbyLeave

/-- The bytes its builder writes. -/
def LobbyMessage.payload : LobbyMessage → Bytes
  | .announce r => serializeRecord r
  | .update lobbyId memberPid adds removes =>
      ByteWriter.str lobbyId ++ ByteWriter.str memberPid ++
        ByteWriter.u32 (UInt32.ofNat adds.length) ++ adds.flatMap serializeAttr ++
        ByteWriter.u32 (UInt32.ofNat removes.length) ++ removes.flatMap ByteWriter.str
  | .joinRequest lobbyId joinerPid => ByteWriter.str lobbyId ++ ByteWriter.str joinerPid
  | .leave lobbyId subjectPid reason =>
      ByteWriter.str lobbyId ++ ByteWriter.str subjectPid ++ ByteWriter.u8 reason

/-- What `LobbyInterface::OnDatagram` is handed: the type in the header, and the payload. -/
structure LobbyDatagram where
  type : MessageType
  payload : Bytes
  deriving DecidableEq, Repr

/-- The datagram of a message. -/
def LobbyMessage.datagram (m : LobbyMessage) : LobbyDatagram := ⟨m.type, m.payload⟩

/-- The reads of `OnDatagram` in front of the lock: `none` where it returns. -/
def readLobbyMessage : MessageType → Reader (Option LobbyMessage)
  | .lobbyAnnounce => do
      let d ← deserializeRecord {}
      return if d.1 then some (.announce d.2) else none
  | .lobbyUpdate => do
      let u ← deserializeUpdate
      let ok ← ByteReader.isOk
      return if ok then some (.update u.lobbyId u.memberPid u.adds u.removes) else none
  | .lobbyJoinRequest => do
      let lobbyId ← ByteReader.str
      let joinerPid ← ByteReader.str
      let ok ← ByteReader.isOk
      return if ok then some (.joinRequest lobbyId joinerPid) else none
  | .lobbyLeave => do
      let lobbyId ← ByteReader.str
      let subjectPid ← ByteReader.str
      let reason ← ByteReader.u8
      let ok ← ByteReader.isOk
      return if ok then some (.leave lobbyId subjectPid reason) else none
  | _ => return none

/-- The message a datagram is read as. -/
def LobbyDatagram.read (d : LobbyDatagram) : Option LobbyMessage :=
  (readLobbyMessage d.type ⟨d.payload, 0, true⟩).1

namespace LobbyMessage
variable {m m' : LobbyMessage}

/-! ## Messages that the codec carries -/

/-- The attributes and the enumerators of the message are ones the codec carries. -/
def Carriable : LobbyMessage → Prop
  | .announce r => r.Carriable
  | .update _ _ adds _ => ∀ a ∈ adds, AttrCarriable a
  | .joinRequest _ _ | .leave _ _ _ => True

/-- What arrives of such a message. -/
def carried : LobbyMessage → LobbyMessage
  | .announce r => .announce r.carried
  | .update lobbyId memberPid adds removes => .update lobbyId memberPid (normalisedAttrs adds)
    removes
  | .joinRequest lobbyId joinerPid => .joinRequest lobbyId joinerPid
  | .leave lobbyId subjectPid reason => .leave lobbyId subjectPid reason

@[simp] theorem carried_lobbyId (m : LobbyMessage) : m.carried.lobbyId = m.lobbyId := by
  cases m <;> rfl

end LobbyMessage

/-- In front of an update's payload the decoder consumes exactly the payload and returns what was
written, boolean values normalised. -/
theorem decodes_payload_update {lobbyId memberPid : Bytes} {adds : AttrList}
    {removes : List Bytes} (hadds : ∀ a ∈ adds, AttrCarriable a)
    (hlen : (LobbyMessage.update lobbyId memberPid adds removes).payload.length < 2 ^ 32) :
    Decodes deserializeUpdate (LobbyMessage.update lobbyId memberPid adds removes).payload
      ⟨lobbyId, memberPid, normalisedAttrs adds, removes⟩ := by
  simp only [LobbyMessage.payload, List.append_assoc] at hlen ⊢
  simp only [List.length_append, ByteWriter.u32_length, ByteWriter.str_length,
    ← Nat.add_assoc] at hlen
  have hid : lobbyId.length < 2 ^ 32 := by omega
  have hpid : memberPid.length < 2 ^ 32 := by omega
  have hattrs : (adds.flatMap serializeAttr).length < 2 ^ 32 := by omega
  have hremoves : (removes.flatMap ByteWriter.str).length < 2 ^ 32 := by omega
  refine Decodes.bind (Decodes.str hid) ?_
  refine Decodes.bind (Decodes.str hpid) ?_
  refine Decodes.bind (Decodes.u32 _) ?_
  refine Decodes.bind (decodes_serializeAttrs hadds hattrs) ?_
  refine Decodes.bind (Decodes.u32 _) ?_
  exact Decodes.map (g := fun l =>
    ({ lobbyId, memberPid, adds := normalisedAttrs adds, removes := l } : LobbyUpdate))
    (decodes_strs hremoves)

namespace LobbyMessage
variable {m m' : LobbyMessage}

/-- In front of the payload of a message that the codec carries, `OnDatagram` reads what it
carries. -/
theorem decodes_payload (hm : m.Carriable) (hlen : m.payload.length < 2 ^ 32) :
    Decodes (readLobbyMessage m.type) m.payload (some m.carried) := by
  cases m with
  | announce r =>
      exact Decodes.map (g := fun d : Bool × LobbyRecord => if d.1 then some
        (LobbyMessage.announce d.2) else none) (decodes_serializeRecord hm hlen)
  | update lobbyId memberPid adds removes =>
      have h := decodes_payload_update hm hlen
      rw [← List.append_nil (LobbyMessage.payload _)]
      exact Decodes.bind h (Decodes.testOk (Decodes.pure _))
  | joinRequest lobbyId joinerPid =>
      simp only [payload, List.length_append, ByteWriter.str_length] at hlen
      refine Decodes.bind (Decodes.str (by omega)) ?_
      rw [← List.append_nil (ByteWriter.str joinerPid)]
      exact Decodes.bind (Decodes.str (by omega)) (Decodes.testOk (Decodes.pure _))
  | leave lobbyId subjectPid reason =>
      simp only [payload, List.length_append, ByteWriter.str_length] at hlen
      simp only [payload, List.append_assoc]
      refine Decodes.bind (Decodes.str (by omega)) ?_
      refine Decodes.bind (Decodes.str (by omega)) ?_
      rw [← List.append_nil (ByteWriter.u8 reason)]
      exact Decodes.bind (Decodes.u8 reason) (Decodes.testOk (Decodes.pure _))

/-- **A message that the codec carries is read as what it carries.** -/
theorem read_datagram (hm : m.Carriable) (hfits : fits m.payload = true) :
    m.datagram.read = some m.carried :=
  congrArg Prod.fst (decodes_payload hm (length_of_fits hfits)).whole

/-! ## What is read of any message -/

/-- A message that agrees in everything in front of the attribute lists. -/
inductive ReadAs : LobbyMessage → LobbyMessage → Prop
  | announce {r q : LobbyRecord} : r.SameFront q → ReadAs (.announce r) (.announce q)
  | update {lobbyId memberPid : Bytes} {adds adds' : AttrList} {removes removes' : List Bytes} :
      ReadAs (.update lobbyId memberPid adds removes) (.update lobbyId memberPid adds' removes')
  | joinRequest {lobbyId joinerPid : Bytes} : ReadAs (.joinRequest lobbyId joinerPid)
      (.joinRequest lobbyId joinerPid)
  | leave {lobbyId subjectPid : Bytes} {reason : UInt8} :
      ReadAs (.leave lobbyId subjectPid reason) (.leave lobbyId subjectPid reason)

/-- What is read is about the lobby that was sent. -/
theorem ReadAs.lobbyId (h : ReadAs m m') : m'.lobbyId = m.lobbyId := by
  cases h with
  | announce hfront => exact hfront.lobbyId
  | update | joinRequest | leave => rfl

/-- In front of a payload `OnDatagram` reads such a message, or none. -/
theorem reads_payload (hlen : m.payload.length < 2 ^ 32) :
    Reads (readLobbyMessage m.type) m.payload fun o => ∀ m', o = some m' → ReadAs m m' := by
  cases m with
  | announce r =>
      refine Reads.step (reads_serializeRecord hlen) fun d hd => Returns.pure ?_
      intro m' hm'
      obtain ⟨_, hm'⟩ := Option.ite_none_right_eq_some.1 hm'
      cases hm'
      exact .announce hd
  | update lobbyId memberPid adds removes =>
      simp only [payload, List.append_assoc, List.length_append, ByteWriter.str_length] at hlen ⊢
      have hfront : Reads deserializeUpdate (ByteWriter.str lobbyId ++ (ByteWriter.str memberPid ++
          (ByteWriter.u32 (UInt32.ofNat adds.length) ++ (adds.flatMap serializeAttr ++
            (ByteWriter.u32 (UInt32.ofNat removes.length) ++ removes.flatMap ByteWriter.str)))))
          fun u => u.lobbyId = lobbyId ∧ u.memberPid = memberPid := by
        refine Reads.bind (Decodes.str (by omega)) ?_
        refine Reads.bind (Decodes.str (by omega)) ?_
        refine Returns.reads (Returns.bind fun addCount => Returns.bind fun adds => ?_)
        exact Returns.bind fun removeCount => Returns.bind fun removes => Returns.pure ⟨rfl, rfl⟩
      refine Reads.step hfront fun u hu => Returns.bind fun ok => Returns.pure ?_
      intro m' hm'
      obtain ⟨_, hm'⟩ := Option.ite_none_right_eq_some.1 hm'
      cases hm'
      rw [hu.1, hu.2]
      exact .update
  | joinRequest lobbyId joinerPid =>
      refine (decodes_payload (m := .joinRequest lobbyId joinerPid) trivial hlen).reads ?_
      rintro m' ⟨⟩
      exact .joinRequest
  | leave lobbyId subjectPid reason =>
      refine (decodes_payload (m := .leave lobbyId subjectPid reason) trivial hlen).reads ?_
      rintro m' ⟨⟩
      exact .leave

/-- **A message that is read agrees with the one that was sent in front of the lists.** -/
theorem readAs_of_read (hfits : fits m.payload = true) (hread : m.datagram.read = some m') :
    ReadAs m m' :=
  (reads_payload (length_of_fits hfits)).whole m' hread

/-- The message fits into a datagram, and its receivers read it. -/
def Arrives (m : LobbyMessage) : Prop := fits m.payload = true ∧ m.datagram.read.isSome = true

instance (m : LobbyMessage) : Decidable m.Arrives := inferInstanceAs (Decidable (_ ∧ _))

/-- They read an announce as one of the same lobby, owner and version. -/
theorem Arrives.announce {r : LobbyRecord} (h : (LobbyMessage.announce r).Arrives) :
    ∃ q, (LobbyMessage.announce r).datagram.read = some (.announce q) ∧ r.SameFront q := by
  obtain ⟨m, hread⟩ := Option.isSome_iff_exists.1 h.2
  cases readAs_of_read h.1 hread with
  | announce hfront => exact ⟨_, hread, hfront⟩

end LobbyMessage

end EOSEmu
