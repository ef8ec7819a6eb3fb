import EOSEmu.Lobby.Modification
import EOSEmu.Sessions.Record
import EOSEmu.Presence.Modification

/-!
# Handles and the order of their calls

A handle forgets the order of its calls: setters keep the last value, which is what taking the
calls one at a time does too, but the adds and the removes of a key end up in two lists, and every
applier runs the adds first. So an add that follows a remove of its key is lost (`handles_replay`).
-/

namespace EOSEmu

open Lib

/-- A builder call on a lobby modification; `none` stands for a null pointer. -/
inductive LobbyModificationCall where
  | setBucketId (bucketId : Option (Option Bytes))
  | setPermissionLevel (permissionLevel : Option SdkInt)
  | setMaxMembers (maxMembers : Option UInt32)
  | setInvitesAllowed (bInvitesAllowed : Option SdkInt)
  | setAllowedPlatformIds (allowedPlatformIds : Option (Option (List UInt32)))
  | addAttribute (o : Option AddLobbyAttributeOptions)
  | removeAttribute (key : Option (Option Bytes))
  | addMemberAttribute (o : Option AddLobbyAttributeOptions)
  | removeMemberAttribute (key : Option (Option Bytes))

namespace LobbyModificationCall

/-- The handle after the call. -/
def build (m : LobbyModificationObj) : LobbyModificationCall → LobbyModificationObj
  | .setBucketId o => (LobbyModification.setBucketId m o).2
  | .setPermissionLevel o => (LobbyModification.setPermissionLevel m o).2
  | .setMaxMembers o => (LobbyModification.setMaxMembers m o).2
  | .setInvitesAllowed o => (LobbyModification.setInvitesAllowed m o).2
  | .setAllowedPlatformIds o => (LobbyModification.setAllowedPlatformIds m o).2
  | .addAttribute o => (LobbyModification.addAttribute m o).2
  | .removeAttribute o => (LobbyModification.removeAttribute m o).2
  | .addMemberAttribute o => (LobbyModification.addMemberAttribute m o).2
  | .removeMemberAttribute o => (LobbyModification.removeMemberAttribute m o).2

/-- What the call asks of the lobby's attributes. -/
def edits : LobbyModificationCall → List (Edit Bytes LobbyAttr)
  | .addAttribute o => (o.bind (·.entry)).toList.map fun e => .put e.1 e.2
  | .removeAttribute o => o.join.toList.map .del
  | _ => []

/-- What the call asks of the caller's own member attributes. -/
def memberEdits : LobbyModificationCall → List (Edit Bytes LobbyAttr)
  | .addMemberAttribute o => (o.bind (·.entry)).toList.map fun e => .put e.1 e.2
  | .removeMemberAttribute o => o.join.toList.map .del
  | _ => []

end LobbyModificationCall

/-- The handle `UpdateLobbyModification` creates for the user, after the calls. -/
def lobbyHandle (lobbyId user : Bytes) (calls : List LobbyModificationCall) :
    LobbyModificationObj :=
  calls.foldl LobbyModificationCall.build { lobbyId := lobbyId, localUser := user }

/-- The calls one at a time, each on a handle of its own. -/
def applyLobbyCalls (lobbyId user : Bytes) (calls : List LobbyModificationCall) (r : LobbyRecord) :
    LobbyRecord :=
  calls.foldl (fun r c => applyModification r (lobbyHandle lobbyId user [c])) r

section
variable {lobbyId user : Bytes} {calls : List LobbyModificationCall} {r : LobbyRecord}

/-- A handle after one more call. -/
theorem lobbyHandle_snoc (c : LobbyModificationCall) :
    lobbyHandle lobbyId user (calls ++ [c]) = c.build (lobbyHandle lobbyId user calls) := by
  simp [lobbyHandle]

/-- A call appends what it asks for to the four lists, and leaves the user alone. -/
theorem LobbyModificationCall.build_lists (c : LobbyModificationCall) (m : LobbyModificationObj) :
    (c.build m).addAttrs = m.addAttrs ++ Edit.puts c.edits ∧
    (c.build m).removeAttrs = m.removeAttrs ++ Edit.dels c.edits ∧
    (c.build m).addMemberAttrs = m.addMemberAttrs ++ Edit.puts c.memberEdits ∧
    (c.build m).removeMemberAttrs = m.removeMemberAttrs ++ Edit.dels c.memberEdits ∧
    (c.build m).localUser = m.localUser := by
  cases c with
  | setBucketId o =>
      rcases o with _ | _ | b <;> simp [build, edits, memberEdits, LobbyModification.setBucketId,
        EOSEmu.build]
  | setPermissionLevel o | setMaxMembers o | setInvitesAllowed o | setAllowedPlatformIds o =>
      cases o <;> simp [build, edits, memberEdits, LobbyModification.setPermissionLevel,
        LobbyModification.setMaxMembers, LobbyModification.setInvitesAllowed,
        LobbyModification.setAllowedPlatformIds, EOSEmu.build]
  | addAttribute o | addMemberAttribute o =>
      simp only [build, edits, memberEdits, LobbyModification.addAttribute,
        LobbyModification.addMemberAttribute]
      generalize o.bind (·.entry) = e
      cases e <;> simp [EOSEmu.build]
  | removeAttribute o | removeMemberAttribute o =>
      rcases o with _ | _ | b <;>
        simp [build, edits, memberEdits, LobbyModification.removeAttribute,
        LobbyModification.removeMemberAttribute, EOSEmu.build]

/-- The four lists of a handle are what its calls ask for. -/
theorem lobbyHandle_lists (lobbyId user : Bytes) (calls : List LobbyModificationCall) :
    (lobbyHandle lobbyId user calls).addAttrs = Edit.puts (calls.flatMap (·.edits)) ∧
    (lobbyHandle lobbyId user calls).removeAttrs = Edit.dels (calls.flatMap (·.edits)) ∧
    (lobbyHandle lobbyId user calls).addMemberAttrs = Edit.puts (calls.flatMap (·.memberEdits)) ∧
    (lobbyHandle lobbyId user calls).removeMemberAttrs = Edit.dels
      (calls.flatMap (·.memberEdits)) ∧
    (lobbyHandle lobbyId user calls).localUser = user := by
  induction calls using List.reverseRec with
  | nil => exact ⟨rfl, rfl, rfl, rfl, rfl⟩
  | append_singleton calls c ih =>
      obtain ⟨ha, hr, hma, hmr, hu⟩ := ih
      obtain ⟨ha', hr', hma', hmr', hu'⟩ := c.build_lists (lobbyHandle lobbyId user calls)
      rw [lobbyHandle_snoc, ha', hr', hma', hmr', hu', ha, hr, hma, hmr, hu]
      simp

/-- A record after one more call. -/
theorem applyLobbyCalls_snoc (c : LobbyModificationCall) :
    applyLobbyCalls lobbyId user (calls ++ [c]) r =
    applyModification (applyLobbyCalls lobbyId user calls r) (lobbyHandle lobbyId user [c]) := by
  simp [applyLobbyCalls]

/-- The record without its attributes and members. -/
def LobbyRecord.settings (r : LobbyRecord) : LobbyRecord :=
  { r with attributes := [], members := [] }

/-- A record is its settings, its attributes and its members. -/
theorem LobbyRecord.eq_iff_settings {r r' : LobbyRecord} :
    r = r' ↔ r.settings = r'.settings ∧ r.attributes = r'.attributes ∧ r.members = r'.members := by
  obtain ⟨⟩ := r
  obtain ⟨⟩ := r'
  simp only [LobbyRecord.settings, LobbyRecord.mk.injEq]
  tauto

/-- The settings a handle stores depend on no attribute or member. -/
theorem applyModification_settings (r : LobbyRecord) (m : LobbyModificationObj) :
    (applyModification r m).settings = (applyModification r.settings m).settings := rfl

/-- A setter stores the same on top of the handle's earlier calls as on a handle of its own. -/
theorem LobbyModificationCall.build_settings (c : LobbyModificationCall)
    (m m₀ : LobbyModificationObj) (h₀ : m₀ = { lobbyId := m₀.lobbyId, localUser := m₀.localUser })
    (r : LobbyRecord) :
    (applyModification r (c.build m)).settings =
      (applyModification (applyModification r m) (c.build m₀)).settings := by
  rw [h₀]
  cases c with
  | setBucketId o | removeAttribute o | removeMemberAttribute o => rcases o with _ | _ | b <;> rfl
  | setPermissionLevel o | setMaxMembers o | setInvitesAllowed o | setAllowedPlatformIds o =>
      cases o <;> rfl
  | addAttribute o | addMemberAttribute o =>
      simp only [build, LobbyModification.addAttribute, LobbyModification.addMemberAttribute]
      generalize o.bind (·.entry) = e
      cases e <;> rfl

/-- The settings of the record do not depend on the order of the calls. -/
theorem applyLobbyCalls_settings (lobbyId user : Bytes) (calls : List LobbyModificationCall)
    (r : LobbyRecord) : (applyLobbyCalls lobbyId user calls r).settings =
      (applyModification r (lobbyHandle lobbyId user calls)).settings := by
  induction calls using List.reverseRec with
  | nil => rfl
  | append_singleton calls c ih =>
      rw [applyLobbyCalls_snoc, lobbyHandle_snoc, applyModification_settings, ih,
        ← applyModification_settings]
      exact (c.build_settings _ _ rfl r).symm

/-- What one call asks for is all adds or all removes. -/
theorem LobbyModificationCall.apply_edits (c : LobbyModificationCall) (l : AttrList) :
    applyAttrs (Edit.puts c.edits) (Edit.dels c.edits) l = entries.replay c.edits l ∧
    applyAttrs (Edit.puts c.memberEdits) (Edit.dels c.memberEdits) l =
      entries.replay c.memberEdits l := by
  rw [applyAttrs_eq, applyAttrs_eq]
  cases c with
  | addAttribute o =>
      refine ⟨?_, rfl⟩
      rw [edits, Edit.puts_map_put, Edit.dels_map_put]
      exact Keyed.apply_puts _
  | removeAttribute o =>
      refine ⟨?_, rfl⟩
      rw [edits, Edit.puts_map_del, Edit.dels_map_del]
      exact Keyed.apply_dels _
  | addMemberAttribute o =>
      refine ⟨rfl, ?_⟩
      rw [memberEdits, Edit.puts_map_put, Edit.dels_map_put]
      exact Keyed.apply_puts _
  | removeMemberAttribute o =>
      refine ⟨rfl, ?_⟩
      rw [memberEdits, Edit.puts_map_del, Edit.dels_map_del]
      exact Keyed.apply_dels _
  | setBucketId | setPermissionLevel | setMaxMembers | setInvitesAllowed | setAllowedPlatformIds =>
      exact ⟨rfl, rfl⟩

/-- The attributes are edited in the order of the calls. -/
theorem applyLobbyCalls_attributes (lobbyId user : Bytes) (calls : List LobbyModificationCall)
    (r : LobbyRecord) : (applyLobbyCalls lobbyId user calls r).attributes =
      entries.replay (calls.flatMap (·.edits)) r.attributes := by
  induction calls using List.reverseRec with
  | nil => rfl
  | append_singleton calls c ih =>
      obtain ⟨ha, hr, _⟩ := lobbyHandle_lists lobbyId user [c]
      rw [applyLobbyCalls_snoc, List.flatMap_append, Keyed.replay_append, ← ih]
      show applyAttrs _ _ _ = _
      rw [ha, hr, List.flatMap_singleton]
      exact (c.apply_edits _).1

/-- The member with its attributes edited in order. -/
def LobbyMemberRec.replay (es : List (Edit Bytes LobbyAttr)) (m : LobbyMemberRec) :
    LobbyMemberRec :=
  { m with attributes := entries.replay es m.attributes }

/-- The member changes of one handle. -/
theorem applyMemberAttrs_single (lobbyId user : Bytes) (c : LobbyModificationCall)
    (m : LobbyMemberRec) : applyMemberAttrs m (lobbyHandle lobbyId user [c]).addMemberAttrs
      (lobbyHandle lobbyId user [c]).removeMemberAttrs = m.replay c.memberEdits := by
  obtain ⟨_, _, ha, hr, _⟩ := lobbyHandle_lists lobbyId user [c]
  rw [ha, hr, List.flatMap_singleton, applyMemberAttrs, (c.apply_edits _).2, LobbyMemberRec.replay]

/-- The caller's own attributes are edited in the order of the calls. -/
theorem applyLobbyCalls_members (lobbyId user : Bytes) (calls : List LobbyModificationCall)
    (r : LobbyRecord) : (applyLobbyCalls lobbyId user calls r).members =
      modifyMember user (fun me => me.replay (calls.flatMap (·.memberEdits))) r.members := by
  induction calls using List.reverseRec with
  | nil => exact (modifyMember_id r.members).symm
  | append_singleton calls c ih =>
      have hu : (lobbyHandle lobbyId user [c]).localUser = user :=
        (lobbyHandle_lists lobbyId user [c]).2.2.2.2
      have hkeep : ∀ m : LobbyMemberRec,
          (m.replay (calls.flatMap (·.memberEdits))).productId = m.productId := fun _ => rfl
      rw [applyLobbyCalls_snoc, applyModification_members, ih, hu, modifyMember_modifyMember hkeep]
      refine (modifyMember_congr r.members).2 fun m _ => ?_
      rw [applyMemberAttrs_single, LobbyMemberRec.replay, LobbyMemberRec.replay,
        LobbyMemberRec.replay, List.flatMap_append, Keyed.replay_append, List.flatMap_singleton]

/-- The handle stores what its calls store one at a time exactly when every key of both lists of
attributes is settled. -/
theorem lobbyHandle_replays (lobbyId user : Bytes) (calls : List LobbyModificationCall)
    (r : LobbyRecord) :
    applyModification r (lobbyHandle lobbyId user calls) = applyLobbyCalls lobbyId user calls r ↔
      (∀ key, Keyed.Settled entries (calls.flatMap (·.edits)) r.attributes key) ∧
      ∀ m, r.findMember user = some m →
        ∀ key, Keyed.Settled entries (calls.flatMap (·.memberEdits)) m.attributes key := by
  obtain ⟨ha, hr, hma, hmr, hu⟩ := lobbyHandle_lists lobbyId user calls
  have hattrs : (applyModification r (lobbyHandle lobbyId user calls)).attributes =
      entries.apply (Edit.puts (calls.flatMap (·.edits))) (Edit.dels (calls.flatMap (·.edits)))
        r.attributes := by
    rw [← ha, ← hr]
    rfl
  rw [LobbyRecord.eq_iff_settings, applyLobbyCalls_settings, applyLobbyCalls_attributes,
    applyLobbyCalls_members,
    applyModification_members, hma, hmr, hu, hattrs, Keyed.apply_eq_replay, modifyMember_congr]
  refine (and_iff_right rfl).trans
    (and_congr_right fun _ => forall_congr' fun m => imp_congr_right fun _ => ?_)
  rw [applyMemberAttrs, LobbyMemberRec.replay, applyAttrs_eq, LobbyMemberRec.mk.injEq,
    ← Keyed.apply_eq_replay]
  simp

end

/-! ## Member attributes on their own -/

/-- The member changes of the calls one at a time, each on a handle of its own. -/
def applyMemberCalls (lobbyId user : Bytes) (calls : List LobbyModificationCall)
    (m : LobbyMemberRec) : LobbyMemberRec :=
  calls.foldl (fun m c => applyMemberAttrs m (lobbyHandle lobbyId user [c]).addMemberAttrs
    (lobbyHandle lobbyId user [c]).removeMemberAttrs) m

/-- The member's attributes are edited in the order of the calls. -/
theorem applyMemberCalls_eq (lobbyId user : Bytes) (calls : List LobbyModificationCall)
    (m : LobbyMemberRec) :
    applyMemberCalls lobbyId user calls m = m.replay (calls.flatMap (·.memberEdits)) := by
  have hfold : applyMemberCalls lobbyId user calls m =
      calls.foldl (fun m c => m.replay c.memberEdits) m := by
    simp only [applyMemberCalls, applyMemberAttrs_single]
  rw [hfold]
  induction calls using List.reverseRec with
  | nil => rfl
  | append_singleton calls c ih =>
      rw [List.foldl_append, ih (by simp only [applyMemberCalls, applyMemberAttrs_single]),
        List.flatMap_append]
      simp [LobbyMemberRec.replay]

/-- `ApplyMemberAttrs` on the handle's lists, as `UpdateLobby` calls it for a member. -/
theorem memberHandle_replays (lobbyId user : Bytes) (calls : List LobbyModificationCall)
    (m : LobbyMemberRec) : applyMemberAttrs m (lobbyHandle lobbyId user calls).addMemberAttrs
        (lobbyHandle lobbyId user calls).removeMemberAttrs =
          applyMemberCalls lobbyId user calls m ↔
      ∀ key, Keyed.Settled entries (calls.flatMap (·.memberEdits)) m.attributes key := by
  obtain ⟨_, _, hma, hmr, _⟩ := lobbyHandle_lists lobbyId user calls
  rw [hma, hmr, applyMemberCalls_eq, applyMemberAttrs, LobbyMemberRec.replay, applyAttrs_eq,
    LobbyMemberRec.mk.injEq, ← Keyed.apply_eq_replay]
  simp

/-! ## Sessions -/

/-- A builder call on a session modification; `none` stands for a null pointer. -/
inductive SessionModificationCall where
  | setBucketId (bucketId : Option (Option Bytes))
  | setHostAddress (hostAddress : Option (Option Bytes))
  | setPermissionLevel (permissionLevel : Option SdkInt)
  | setJoinInProgressAllowed (bAllowJoinInProgress : Option SdkInt)
  | setMaxPlayers (maxPlayers : Option UInt32)
  | setInvitesAllowed (bInvitesAllowed : Option SdkInt)
  | setAllowedPlatformIds (allowedPlatformIds : Option (Option (List UInt32)))
  | addAttribute (o : Option AddSessionAttributeOptions)
  | removeAttribute (key : Option (Option Bytes))

namespace SessionModificationCall

/-- The handle after the call. -/
def build (m : SessionModificationObj) : SessionModificationCall → SessionModificationObj
  | .setBucketId o => (SessionModification.setBucketId m o).2
  | .setHostAddress o => (SessionModification.setHostAddress m o).2
  | .setPermissionLevel o => (SessionModification.setPermissionLevel m o).2
  | .setJoinInProgressAllowed o => (SessionModification.setJoinInProgressAllowed m o).2
  | .setMaxPlayers o => (SessionModification.setMaxPlayers m o).2
  | .setInvitesAllowed o => (SessionModification.setInvitesAllowed m o).2
  | .setAllowedPlatformIds o => (SessionModification.setAllowedPlatformIds m o).2
  | .addAttribute o => (SessionModification.addAttribute m o).2
  | .removeAttribute o => (SessionModification.removeAttribute m o).2

/-- What the call asks of the session's attributes. -/
def edits : SessionModificationCall → List (Edit Bytes SessionAttr)
  | .addAttribute o => (o.bind (·.entry)).toList.map fun e => .put e.1 e.2
  | .removeAttribute o => o.join.toList.map .del
  | _ => []

/-- A call appends what it asks for to the two lists. -/
theorem build_lists (c : SessionModificationCall) (m : SessionModificationObj) :
    (c.build m).addAttrs = m.addAttrs ++ Edit.puts c.edits ∧
    (c.build m).removeAttrs = m.removeAttrs ++ Edit.dels c.edits := by
  cases c with
  | setBucketId o | setHostAddress o =>
      rcases o with _ | _ | b <;> simp [build, edits, SessionModification.setBucketId,
        SessionModification.setHostAddress, EOSEmu.build]
  | setPermissionLevel o | setJoinInProgressAllowed o | setMaxPlayers o | setInvitesAllowed o
  | setAllowedPlatformIds o =>
      cases o <;> simp [build, edits, SessionModification.setPermissionLevel,
        SessionModification.setJoinInProgressAllowed, SessionModification.setMaxPlayers,
        SessionModification.setInvitesAllowed, SessionModification.setAllowedPlatformIds,
          EOSEmu.build]
  | addAttribute o =>
      simp only [build, edits, SessionModification.addAttribute]
      generalize o.bind (·.entry) = e
      cases e <;> simp [EOSEmu.build]
  | removeAttribute o =>
      rcases o with _ | _ | b <;> simp [build, edits, SessionModification.removeAttribute,
        EOSEmu.build]

/-- What one call asks for is all adds or all removes. -/
theorem apply_edits (c : SessionModificationCall) (l : List (Bytes × SessionAttr)) :
    applyAttrs (Edit.puts c.edits) (Edit.dels c.edits) l = entries.replay c.edits l := by
  rw [applyAttrs_eq]
  cases c with
  | addAttribute o =>
      rw [edits, Edit.puts_map_put, Edit.dels_map_put]
      exact Keyed.apply_puts _
  | removeAttribute o =>
      rw [edits, Edit.puts_map_del, Edit.dels_map_del]
      exact Keyed.apply_dels _
  | setBucketId | setHostAddress | setPermissionLevel | setJoinInProgressAllowed | setMaxPlayers
  | setInvitesAllowed | setAllowedPlatformIds => rfl

end SessionModificationCall

/-- A session handle after the calls. -/
def sessionHandle (m : NewSessionModification) (calls : List SessionModificationCall) :
    SessionModificationObj :=
  calls.foldl SessionModificationCall.build m.toSessionModificationObj

/-- What the creation stored, then the calls one at a time, each on a handle of its own. -/
def applySessionCalls (m : NewSessionModification) (calls : List SessionModificationCall)
    (r : SessionRecord) : SessionRecord :=
  calls.foldl (fun r c => r.applyModification (c.build { sessionName := m.sessionName }))
    (r.applyModification m.toSessionModificationObj)

section
variable {m : NewSessionModification} {calls : List SessionModificationCall} {r : SessionRecord}

/-- A session's handle after one more call. -/
theorem sessionHandle_snoc (c : SessionModificationCall) :
    sessionHandle m (calls ++ [c]) = c.build (sessionHandle m calls) := by
  simp [sessionHandle]

/-- A session after one more call. -/
theorem applySessionCalls_snoc (c : SessionModificationCall) :
    applySessionCalls m (calls ++ [c]) r =
    (applySessionCalls m calls r).applyModification
      (c.build { sessionName := m.sessionName }) := by
  simp [applySessionCalls]

/-- The two lists of a handle are what its calls ask for. -/
theorem sessionHandle_lists (m : NewSessionModification) (calls : List SessionModificationCall) :
    (sessionHandle m calls).addAttrs = Edit.puts (calls.flatMap (·.edits)) ∧
    (sessionHandle m calls).removeAttrs = Edit.dels (calls.flatMap (·.edits)) := by
  induction calls using List.reverseRec with
  | nil => exact ⟨m.no_adds, m.no_removes⟩
  | append_singleton calls c ih =>
      obtain ⟨ha, hr⟩ := c.build_lists (sessionHandle m calls)
      rw [sessionHandle_snoc, ha, hr, ih.1, ih.2]
      simp

/-- The record without its attributes. -/
def SessionRecord.settings (r : SessionRecord) : SessionRecord := { r with attributes := [] }

/-- A session is its settings and its attributes. -/
theorem SessionRecord.eq_iff_settings {r r' : SessionRecord} :
    r = r' ↔ r.settings = r'.settings ∧ r.attributes = r'.attributes := by
  obtain ⟨⟩ := r
  obtain ⟨⟩ := r'
  simp only [SessionRecord.settings, SessionRecord.mk.injEq]
  tauto

/-- The settings a handle stores depend on no attribute. -/
theorem SessionRecord.applyModification_settings (r : SessionRecord) (m : SessionModificationObj) :
    (r.applyModification m).settings = (r.settings.applyModification m).settings := rfl

/-- A setter stores the same on top of the handle's earlier calls as on a handle of its own. -/
theorem SessionModificationCall.build_settings (c : SessionModificationCall)
    (m : SessionModificationObj) (name : Bytes) (r : SessionRecord) :
    (r.applyModification (c.build m)).settings =
      ((r.applyModification m).applyModification (c.build { sessionName := name })).settings := by
  cases c with
  | setBucketId o | setHostAddress o | removeAttribute o => rcases o with _ | _ | b <;> rfl
  | setPermissionLevel o | setJoinInProgressAllowed o | setMaxPlayers o | setInvitesAllowed o
  | setAllowedPlatformIds o => cases o <;> rfl
  | addAttribute o =>
      simp only [build, SessionModification.addAttribute]
      generalize o.bind (·.entry) = e
      cases e <;> rfl

/-- The settings of the record do not depend on the order of the calls. -/
theorem applySessionCalls_settings (m : NewSessionModification)
    (calls : List SessionModificationCall) (r : SessionRecord) :
    (applySessionCalls m calls r).settings =
      (r.applyModification (sessionHandle m calls)).settings := by
  induction calls using List.reverseRec with
  | nil => rfl
  | append_singleton calls c ih =>
      rw [applySessionCalls_snoc, sessionHandle_snoc, SessionRecord.applyModification_settings, ih,
        ← SessionRecord.applyModification_settings]
      exact (c.build_settings _ _ r).symm

/-- The attributes are edited in the order of the calls. -/
theorem applySessionCalls_attributes (m : NewSessionModification)
    (calls : List SessionModificationCall) (r : SessionRecord) :
    (applySessionCalls m calls r).attributes = entries.replay
      (calls.flatMap (·.edits)) r.attributes := by
  induction calls using List.reverseRec with
  | nil =>
      show applyAttrs m.addAttrs m.removeAttrs r.attributes = r.attributes
      rw [m.no_adds, m.no_removes]
      rfl
  | append_singleton calls c ih =>
      obtain ⟨ha, hr⟩ := c.build_lists { sessionName := m.sessionName }
      rw [applySessionCalls_snoc, List.flatMap_append, Keyed.replay_append, ← ih,
        List.flatMap_singleton]
      show applyAttrs _ _ _ = _
      rw [ha, hr]
      exact c.apply_edits _

/-- The handle stores what its calls store one at a time exactly when every key is settled. -/
theorem sessionHandle_replays (m : NewSessionModification) (calls : List SessionModificationCall)
    (r : SessionRecord) :
    r.applyModification (sessionHandle m calls) = applySessionCalls m calls r ↔
      ∀ key, Keyed.Settled entries (calls.flatMap (·.edits)) r.attributes key := by
  obtain ⟨ha, hr⟩ := sessionHandle_lists m calls
  have hattrs : (r.applyModification (sessionHandle m calls)).attributes =
      entries.apply (Edit.puts (calls.flatMap (·.edits))) (Edit.dels (calls.flatMap (·.edits)))
        r.attributes := by
    rw [← ha, ← hr]
    rfl
  rw [SessionRecord.eq_iff_settings, applySessionCalls_settings, applySessionCalls_attributes,
    hattrs, Keyed.apply_eq_replay]
  exact and_iff_right rfl

end

/-! ## Presence -/

/-- A builder call on a presence modification; `none` stands for a null pointer. -/
inductive PresenceModificationCall where
  | setStatus (status : Option SdkInt)
  | setRawRichText (richText : Option (Option Bytes))
  | setJoinInfo (joinInfo : Option (Option Bytes))
  | setData (records : Option (Option (List PresenceDataRecord)))
  | deleteData (keys : Option (Option (List (Option Bytes))))

namespace PresenceModificationCall

/-- The handle after the call. -/
def build (m : PresenceModificationObj) : PresenceModificationCall → PresenceModificationObj
  | .setStatus o => (PresenceModification.setStatus m o).2
  | .setRawRichText o => (PresenceModification.setRawRichText m o).2
  | .setJoinInfo o => (PresenceModification.setJoinInfo m o).2
  | .setData o => (PresenceModification.setData m o).2
  | .deleteData o => (PresenceModification.deleteData m o).2

/-- What the call asks of the data records. -/
def edits : PresenceModificationCall → List (Edit Bytes Bytes)
  | .setData o => ((o.join.getD []).filterMap (·.entry)).map fun e => .put e.1 e.2
  | .deleteData o => ((o.join.getD []).filterMap id).map .del
  | _ => []

/-- A call appends what it asks for to the two lists. -/
theorem build_lists (c : PresenceModificationCall) (m : PresenceModificationObj) :
    (c.build m).setData = m.setData ++ Edit.puts c.edits ∧
    (c.build m).deleteData = m.deleteData ++ Edit.dels c.edits := by
  cases c with
  | setStatus o | setJoinInfo o =>
      cases o <;> simp [build, edits, PresenceModification.setStatus,
        PresenceModification.setJoinInfo, EOSEmu.build]
  | setRawRichText o =>
      rcases o with _ | _ | t <;> simp [build, edits, PresenceModification.setRawRichText,
        EOSEmu.build]
  | setData o =>
      rw [edits, Edit.puts_map_put, Edit.dels_map_put]
      cases o <;> simp [build, PresenceModification.setData, EOSEmu.build]
  | deleteData o =>
      rw [edits, Edit.puts_map_del, Edit.dels_map_del]
      cases o <;> simp [build, PresenceModification.deleteData, EOSEmu.build]

/-- What one call asks for is all puts or all dels. -/
theorem apply_edits (c : PresenceModificationCall) (d : Finmap fun _ : Bytes => Bytes) :
    finmap.apply (Edit.puts c.edits) (Edit.dels c.edits) d = finmap.replay c.edits d := by
  cases c with
  | setData o =>
      rw [edits, Edit.puts_map_put, Edit.dels_map_put]
      exact Keyed.apply_puts _
  | deleteData o =>
      rw [edits, Edit.puts_map_del, Edit.dels_map_del]
      exact Keyed.apply_dels _
  | setStatus | setRawRichText | setJoinInfo => rfl

end PresenceModificationCall

/-- The handle `CreatePresenceModification` creates, after the calls. -/
def presenceHandle (calls : List PresenceModificationCall) : PresenceModificationObj :=
  calls.foldl PresenceModificationCall.build {}

/-- The calls one at a time, each on a handle of its own. -/
def applyPresenceCalls (calls : List PresenceModificationCall) (p : LocalPresence) :
    LocalPresence :=
  calls.foldl (fun p c => p.setPresence (presenceHandle [c])) p

section
variable {calls : List PresenceModificationCall} {p : LocalPresence}

/-- A presence's handle after one more call. -/
theorem presenceHandle_snoc (c : PresenceModificationCall) :
    presenceHandle (calls ++ [c]) = c.build (presenceHandle calls) := by
  simp [presenceHandle]

/-- A presence after one more call. -/
theorem applyPresenceCalls_snoc (c : PresenceModificationCall) :
    applyPresenceCalls (calls ++ [c]) p =
    (applyPresenceCalls calls p).setPresence (presenceHandle [c]) := by
  simp [applyPresenceCalls]

/-- The two lists of a handle are what its calls ask for. -/
theorem presenceHandle_lists (calls : List PresenceModificationCall) :
    (presenceHandle calls).setData = Edit.puts (calls.flatMap (·.edits)) ∧
    (presenceHandle calls).deleteData = Edit.dels (calls.flatMap (·.edits)) := by
  induction calls using List.reverseRec with
  | nil => exact ⟨rfl, rfl⟩
  | append_singleton calls c ih =>
      obtain ⟨ha, hr⟩ := c.build_lists (presenceHandle calls)
      rw [presenceHandle_snoc, ha, hr, ih.1, ih.2]
      simp

/-- The presence without its data records. -/
def LocalPresence.settings (p : LocalPresence) : LocalPresence := { p with localData := ∅ }

/-- A presence is its settings and its records. -/
theorem LocalPresence.eq_iff_settings {p p' : LocalPresence} :
    p = p' ↔ p.settings = p'.settings ∧ p.localData = p'.localData := by
  obtain ⟨⟩ := p
  obtain ⟨⟩ := p'
  simp only [LocalPresence.settings, LocalPresence.mk.injEq]
  tauto

/-- The settings a handle stores depend on no data record. -/
theorem LocalPresence.setPresence_settings (p : LocalPresence) (m : PresenceModificationObj) :
    (p.setPresence m).settings = (p.settings.setPresence m).settings := rfl

/-- A setter stores the same on top of the handle's earlier calls as on a handle of its own. -/
theorem PresenceModificationCall.build_settings (c : PresenceModificationCall)
    (m : PresenceModificationObj) (p : LocalPresence) :
    (p.setPresence (c.build m)).settings =
      ((p.setPresence m).setPresence (c.build {})).settings := by
  cases c with
  | setRawRichText o => rcases o with _ | _ | t <;> rfl
  | setStatus o | setJoinInfo o | setData o | deleteData o => cases o <;> rfl

/-- The settings of the presence do not depend on the order of the calls. -/
theorem applyPresenceCalls_settings (calls : List PresenceModificationCall) (p : LocalPresence) :
    (applyPresenceCalls calls p).settings = (p.setPresence (presenceHandle calls)).settings := by
  induction calls using List.reverseRec with
  | nil => rfl
  | append_singleton calls c ih =>
      rw [applyPresenceCalls_snoc, presenceHandle_snoc, LocalPresence.setPresence_settings, ih,
        ← LocalPresence.setPresence_settings]
      exact (c.build_settings _ p).symm

/-- The data records a handle stores. -/
theorem LocalPresence.setPresence_localData (p : LocalPresence)
    (calls : List PresenceModificationCall) : (p.setPresence (presenceHandle calls)).localData =
      finmap.apply (Edit.puts (calls.flatMap (·.edits))) (Edit.dels (calls.flatMap (·.edits)))
        p.localData := by
  rw [← (presenceHandle_lists calls).1, ← (presenceHandle_lists calls).2]
  rfl

/-- The data records are edited in the order of the calls. -/
theorem applyPresenceCalls_localData (calls : List PresenceModificationCall) (p : LocalPresence) :
    (applyPresenceCalls calls p).localData = finmap.replay
      (calls.flatMap (·.edits)) p.localData := by
  induction calls using List.reverseRec with
  | nil => rfl
  | append_singleton calls c ih =>
      rw [applyPresenceCalls_snoc, LocalPresence.setPresence_localData, ih, List.flatMap_append,
        Keyed.replay_append, List.flatMap_singleton]
      exact c.apply_edits _

/-- The handle stores what its calls store one at a time exactly when every key is settled. -/
theorem presenceHandle_replays (calls : List PresenceModificationCall) (p : LocalPresence) :
    p.setPresence (presenceHandle calls) = applyPresenceCalls calls p ↔
      ∀ key, Keyed.Settled finmap (calls.flatMap (·.edits)) p.localData key := by
  rw [LocalPresence.eq_iff_settings, applyPresenceCalls_settings, applyPresenceCalls_localData,
    LocalPresence.setPresence_localData, Keyed.apply_eq_replay]
  exact and_iff_right rfl

end

/-! ## The four appliers together -/

/-- For each key of a list with distinct keys, the last edit decides whether it is present
afterwards and with which value. -/
def DecidedByLast {α : Type} (es : List (Edit Bytes α)) (before after : List (Bytes × α)) : Prop :=
  (before.map Prod.fst).Nodup → ∀ key o, Edit.last key es = some o → valuesOf key after = o.toList

/-- When every key is settled, the last edit of a key decides it. -/
theorem decidedByLast_of_settled {α : Type} {es : List (Edit Bytes α)} {l : List (Bytes × α)}
    (h : ∀ key, Keyed.Settled entries es l key) :
    DecidedByLast es l (entries.apply (Edit.puts es) (Edit.dels es) l) := by
  intro hnd key
  exact (Keyed.settled_iff_last (valuesOf_length_le hnd key)).1 (h key)

/-- A lobby modification replays its calls in order. -/
structure LobbyReplays (lobbyId user : Bytes) (calls : List LobbyModificationCall)
    (r : LobbyRecord) : Prop where
  same : applyModification r (lobbyHandle lobbyId user calls) =
    applyLobbyCalls lobbyId user calls r
  decided : DecidedByLast (calls.flatMap (·.edits)) r.attributes
    (applyModification r (lobbyHandle lobbyId user calls)).attributes
  memberDecided : ∀ m, r.findMember user = some m →
    ∃ m', (applyModification r (lobbyHandle lobbyId user calls)).findMember user = some m' ∧
      DecidedByLast (calls.flatMap (·.memberEdits)) m.attributes m'.attributes

/-- A lobby modification's member changes replay the calls in order, applied to one member. -/
structure MemberReplays (lobbyId user : Bytes) (calls : List LobbyModificationCall)
    (m : LobbyMemberRec) : Prop where
  same : applyMemberAttrs m (lobbyHandle lobbyId user calls).addMemberAttrs
    (lobbyHandle lobbyId user calls).removeMemberAttrs = applyMemberCalls lobbyId user calls m
  decided : DecidedByLast (calls.flatMap (·.memberEdits)) m.attributes
    (applyMemberAttrs m (lobbyHandle lobbyId user calls).addMemberAttrs
      (lobbyHandle lobbyId user calls).removeMemberAttrs).attributes

/-- A session modification replays its calls in order. -/
structure SessionReplays (m : NewSessionModification) (calls : List SessionModificationCall)
    (r : SessionRecord) : Prop where
  same : r.applyModification (sessionHandle m calls) = applySessionCalls m calls r
  decided : DecidedByLast (calls.flatMap (·.edits)) r.attributes
    (r.applyModification (sessionHandle m calls)).attributes

/-- A presence modification replays its calls in order. -/
structure PresenceReplays (calls : List PresenceModificationCall) (p : LocalPresence) : Prop where
  same : p.setPresence (presenceHandle calls) = applyPresenceCalls calls p
  decided : ∀ key o, Edit.last key (calls.flatMap (·.edits)) = some o →
    (p.setPresence (presenceHandle calls)).localData.lookup key = o

/-- **Handles replay their calls**, in all four appliers, exactly when each key of the starting
record is settled: it has no remove, or no add after its last remove, or as many equal entries as
make the lost add unseen. -/
theorem handles_replay (lobbyId : Bytes) (user : ProductUserId)
    (lobbyCalls : List LobbyModificationCall) (r : LobbyRecord) (member : LobbyMemberRec)
    (m : NewSessionModification) (sessionCalls : List SessionModificationCall) (s : SessionRecord)
    (presenceCalls : List PresenceModificationCall) (p : LocalPresence) :
    (LobbyReplays lobbyId user lobbyCalls r ↔
      (∀ key, Keyed.Settled entries (lobbyCalls.flatMap (·.edits)) r.attributes key) ∧
      ∀ m, r.findMember user = some m →
        ∀ key, Keyed.Settled entries (lobbyCalls.flatMap (·.memberEdits)) m.attributes key) ∧
    (MemberReplays lobbyId user lobbyCalls member ↔
      ∀ key, Keyed.Settled entries (lobbyCalls.flatMap (·.memberEdits)) member.attributes key) ∧
    (SessionReplays m sessionCalls s ↔
      ∀ key, Keyed.Settled entries (sessionCalls.flatMap (·.edits)) s.attributes key) ∧
    (PresenceReplays presenceCalls p ↔
      ∀ key, Keyed.Settled finmap (presenceCalls.flatMap (·.edits)) p.localData key) := by
  refine ⟨?_, ?_, ?_, ?_⟩
  · rw [← lobbyHandle_replays]
    refine ⟨fun h => h.same, fun h => ⟨h, ?_, fun m hm => ?_⟩⟩
    · obtain ⟨hset, _⟩ := (lobbyHandle_replays lobbyId user lobbyCalls r).1 h
      obtain ⟨ha, hr, _⟩ := lobbyHandle_lists lobbyId user lobbyCalls
      show DecidedByLast _ _ (applyAttrs _ _ _)
      rw [ha, hr]
      exact decidedByLast_of_settled hset
    · obtain ⟨_, hset⟩ := (lobbyHandle_replays lobbyId user lobbyCalls r).1 h
      obtain ⟨_, _, ha, hr, hu⟩ := lobbyHandle_lists lobbyId user lobbyCalls
      have hfind := findMember_applyModification r (lobbyHandle lobbyId user lobbyCalls)
      rw [hu, hm, ha, hr] at hfind
      exact ⟨_, hfind, decidedByLast_of_settled (hset m hm)⟩
  · rw [← memberHandle_replays lobbyId user]
    refine ⟨fun h => h.same, fun h => ⟨h, ?_⟩⟩
    have hset := (memberHandle_replays lobbyId user lobbyCalls member).1 h
    obtain ⟨_, _, ha, hr, _⟩ := lobbyHandle_lists lobbyId user lobbyCalls
    rw [ha, hr]
    exact decidedByLast_of_settled hset
  · rw [← sessionHandle_replays]
    refine ⟨fun h => h.same, fun h => ⟨h, ?_⟩⟩
    have hset := (sessionHandle_replays m sessionCalls s).1 h
    obtain ⟨ha, hr⟩ := sessionHandle_lists m sessionCalls
    show DecidedByLast _ _ (applyAttrs _ _ _)
    rw [ha, hr]
    exact decidedByLast_of_settled hset
  · rw [← presenceHandle_replays]
    refine ⟨fun h => h.same, fun h => ⟨h, fun key o ho => ?_⟩⟩
    have hset := (presenceHandle_replays presenceCalls p).1 h key
    have hone : (finmap.values key p.localData).length ≤ 1 := Option.length_toList_le
    have hkey : ((finmap.apply _ _ p.localData).lookup key).toList = o.toList :=
      (Keyed.settled_iff_last hone).1 hset o ho
    rw [LocalPresence.setPresence_localData]
    have hhead := congrArg List.head? hkey
    rwa [Option.head?_toList, Option.head?_toList] at hhead

/-- Removing a key and adding it again leaves it out, in each of the four appliers. -/
theorem not_handles_replay :
    (¬ LobbyReplays (str "L") (str "ann")
      [.removeAttribute (some (some (str "map"))),
       .addAttribute (some ⟨some { key := some (str "map"), valueType := 1, asInt64 := 2 }, 0⟩)]
      { lobbyId := str "L", ownerProductId := str "ann",
        attributes := [(str "map", { value := { type := 1, int := 1 } })],
        members := [{ productId := str "ann" }] }) ∧
    (¬ MemberReplays (str "L") (str "ann")
      [.removeMemberAttribute (some (some (str "team"))),
       .addMemberAttribute (some ⟨some { key := some (str "team"), valueType := 1, asInt64 := 2 },
         0⟩)]
      { productId := str "ann", attributes := [(str "team", { value := { type := 1, int := 1 } })]
        }) ∧
    (¬ SessionReplays { sessionName := str "S", no_adds := rfl, no_removes := rfl }
      [.removeAttribute (some (some (str "map"))),
       .addAttribute (some ⟨some { key := some (str "map"), valueType := 1, asInt64 := 2 }, 1⟩)]
      { sessionName := str "S", attributes := [(str "map", { value := { type := 1, int := 1 } })]
        }) ∧
    ¬ PresenceReplays
      [.deleteData (some (some [some (str "map")])),
       .setData (some (some [⟨some (str "map"), some (str "2")⟩]))] {} := by
  refine ⟨fun h => ?_, fun h => ?_, fun h => ?_, fun h => ?_⟩
  · have hnot : valuesOf (str "map") _ = _ := h.decided (by decide) (str "map") _ rfl
    revert hnot
    decide
  · have hnot : valuesOf (str "team") _ = _ := h.decided (by decide) (str "team") _ rfl
    revert hnot
    decide
  · have hnot : valuesOf (str "map") _ = _ := h.decided (by decide) (str "map") _ rfl
    revert hnot
    decide
  · have hnot := h.decided (str "map") _ rfl
    revert hnot
    decide

end EOSEmu
