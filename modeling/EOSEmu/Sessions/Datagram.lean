import EOSEmu.Sessions.Codec
import EOSEmu.Sessions.Interface

/-!
# Session datagrams

A message of the session interface travels as the bytes its builder writes.
`SessionsInterface::OnDatagram` reads them back before it takes the lock, and returns where the
payload ends too early (`SessionDatagram.read`). Whatever is read of a message names the same
session (`readAs_of_read`).
-/

namespace EOSEmu

/-- The datagram type a message is sent under. -/
def SessionMessage.type : SessionMessage → MessageType
  | .announce _ => .sessionAnnounce
  | .withdraw _ => .sessionWithdraw

/-- The bytes its builder writes. -/
def SessionMessage.payload : SessionMessage → Bytes
  | .announce r => serializeSessionRecord r
  | .withdraw sessionId => ByteWriter.str sessionId

/-- What `SessionsInterface::OnDatagram` is handed: the type in the header, and the payload. -/
structure SessionDatagram where
  type : MessageType
  payload : Bytes
  deriving DecidableEq, Repr

/-- The datagram of a message. -/
def SessionMessage.datagram (m : SessionMessage) : SessionDatagram := ⟨m.type, m.payload⟩

/-- The reads of `OnDatagram` in front of the lock: `none` where it returns. -/
def readSessionMessage : MessageType → Reader (Option SessionMessage)
  | .sessionAnnounce => do
      let d ← deserializeSessionRecord {}
      return if d.1 then some (.announce d.2) else none
  | .sessionWithdraw => do
      let sessionId ← ByteReader.str
      let ok ← ByteReader.isOk
      return if ok then some (.withdraw sessionId) else none
  | _ => return none

/-- The message a datagram is read as. -/
def SessionDatagram.read (d : SessionDatagram) : Option SessionMessage :=
  (readSessionMessage d.type ⟨d.payload, 0, true⟩).1

namespace SessionMessage
variable {m m' : SessionMessage}

/-- A message about the same session: an announce may be read with other attributes and players. -/
inductive ReadAs : SessionMessage → SessionMessage → Prop
  | announce {r q : SessionRecord} : r.SameFront q → ReadAs (.announce r) (.announce q)
  | withdraw {sessionId : Bytes} : ReadAs (.withdraw sessionId) (.withdraw sessionId)

/-- In front of a withdraw `OnDatagram` reads the withdraw. -/
theorem decodes_withdraw {sessionId : Bytes} (hlen : (withdraw sessionId).payload.length < 2 ^ 32) :
    Decodes (readSessionMessage .sessionWithdraw) (withdraw sessionId).payload
      (some (.withdraw sessionId)) := by
  simp only [payload, ByteWriter.str_length] at hlen
  rw [payload, ← List.append_nil (ByteWriter.str sessionId)]
  exact Decodes.bind (Decodes.str (by omega)) (Decodes.testOk (Decodes.pure _))

/-- In front of a payload `OnDatagram` reads such a message, or none. -/
theorem reads_payload (hlen : m.payload.length < 2 ^ 32) :
    Reads (readSessionMessage m.type) m.payload fun o => ∀ m', o = some m' → ReadAs m m' := by
  cases m with
  | announce r =>
      refine Reads.step (reads_serializeSessionRecord hlen) fun d hd => Returns.pure ?_
      intro m' hm'
      obtain ⟨_, hm'⟩ := Option.ite_none_right_eq_some.1 hm'
      cases hm'
      exact .announce hd
  | withdraw sessionId =>
      refine (decodes_withdraw hlen).reads ?_
      rintro m' ⟨⟩
      exact .withdraw

/-- **A message that is read is about the session that was sent.** -/
theorem readAs_of_read (hfits : fits m.payload = true) (hread : m.datagram.read = some m') :
    ReadAs m m' :=
  (reads_payload (length_of_fits hfits)).whole m' hread

/-- A withdraw that leaves is read. -/
theorem read_withdraw {sessionId : Bytes} (hfits : fits (withdraw sessionId).payload = true) :
    (withdraw sessionId).datagram.read = some (.withdraw sessionId) :=
  congrArg Prod.fst (decodes_withdraw (length_of_fits hfits)).whole

end SessionMessage

end EOSEmu
