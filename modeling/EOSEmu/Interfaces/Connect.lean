import EOSEmu.Core.Platform
import EOSEmu.Core.SteamId
import Mathlib.Data.Fintype.Pigeonhole

/-!
# External accounts

`interfaces/Connect.cpp`: the provider the game logged in with, the account that is reported for a
product user, and the mappings between account ids and product users. The account id of a Steam
account is a SteamID64 in decimal, of any other provider the product id itself, while the mappings
know product ids only (`account_round_trip_iff`), and made-up Steam ids can be shared
(`exists_shared_account`). `hash` stands for `std::hash<std::string>`, and `steamApi` for what the
Steam module of the game reports at a call.
-/

namespace EOSEmu

/-- The C string at the start of a buffer. -/
def cString (s : Bytes) : CString :=
  ⟨s.takeWhile (· ≠ 0), fun h => by simpa using List.mem_takeWhile_imp h⟩

/-- `EOS_EExternalCredentialType`, as `AccountTypeFromCredential` tells them apart. -/
inductive EExternalCredentialType where
  | steamAppTicket
  | steamSessionTicket
  | psnIdToken
  | xblXstsToken
  | discordAccessToken
  | gogSessionTicket
  | nintendoIdToken
  | nintendoNsaIdToken
  | uplayAccessToken
  | openidAccessToken
  | appleIdToken
  | googleIdToken
  | oculusUseridNonce
  | itchioJwt
  | itchioKey
  | amazonAccessToken
  | viveportUserToken
  | other (code : SdkInt)
  deriving DecidableEq, Repr

/-- `EOS_EExternalAccountType`. -/
inductive EExternalAccountType where
  | epic
  | steam
  | psn
  | xbl
  | discord
  | gog
  | nintendo
  | uplay
  | openid
  | apple
  | google
  | oculus
  | itchio
  | amazon
  | viveport
  deriving DecidableEq, Repr

/-- `AccountTypeFromCredential`. -/
def accountTypeFromCredential : EExternalCredentialType → EExternalAccountType
  | .steamAppTicket | .steamSessionTicket => .steam
  | .psnIdToken => .psn
  | .xblXstsToken => .xbl
  | .discordAccessToken => .discord
  | .gogSessionTicket => .gog
  | .nintendoIdToken | .nintendoNsaIdToken => .nintendo
  | .uplayAccessToken => .uplay
  | .openidAccessToken => .openid
  | .appleIdToken => .apple
  | .googleIdToken => .google
  | .oculusUseridNonce => .oculus
  | .itchioJwt | .itchioKey => .itchio
  | .amazonAccessToken => .amazon
  | .viveportUserToken => .viveport
  | .other _ => .epic

/-- `EOS_Connect_Credentials`. -/
structure ConnectCredentials where
  type : EExternalCredentialType
  token : Option CString

/-- `EOS_Connect_LoginOptions`, the fields that are read; the display name is the one of
`UserLoginInfo`. -/
structure ConnectLoginOptions where
  apiVersion : Int
  credentials : Option ConnectCredentials
  displayName : Option CString

/-- `ConnectInterface`, with what it reads of its platform: the identity and `SteamId_`. -/
structure ConnectInterface where
  identity : Identity
  steamId : UInt64 := 0
  externalType : EExternalAccountType := .epic
  externalDisplayName : Bytes := []
  bLoggedIn : Bool := false

/-- `EOS_Connect_ExternalAccountInfo`, with the strings behind the pointers. -/
structure ExternalAccountInfo where
  productUserId : ProductUserId
  displayName : CString
  accountId : CString
  accountIdType : EExternalAccountType

namespace ConnectInterface
variable (s : ConnectInterface)

/-! ## Logging in -/

/-- `Platform::LocalSteamId`: the known id, or the one the Steam module reports, which is then
kept. -/
def localSteamId (steamApi : UInt64) : UInt64 × ConnectInterface :=
  if s.steamId = 0 then
    if steamApi ≠ 0 then (steamApi, { s with steamId := steamApi }) else (0, s)
  else (s.steamId, s)

/-- `Platform::NoteSteamSessionTicket`. -/
def noteSteamSessionTicket (steamApi : UInt64) (token : CString) : Option ConnectInterface :=
  let (known, s) := s.localSteamId steamApi
  if known ≠ 0 then some s
  else (fromSessionTicketHex (some token)).map fun id => if id ≠ 0 then { s with steamId := id }
      else s

/-- `ConnectInterface::Login`, without its completion. -/
def login (steamApi : UInt64) (options : Option ConnectLoginOptions) : Option ConnectInterface :=
  match options with
  | none => some { s with bLoggedIn := true }
  | some o => do
      let s ← match o.credentials with
        | none => some s
        | some c =>
            let s := { s with externalType := accountTypeFromCredential c.type }
            match c.token with
            | none => some s
            | some token => if c.type =
                .steamSessionTicket then s.noteSteamSessionTicket steamApi token else some s
      let s := match o.displayName with
        | some name => if hasField o.apiVersion 2 then { s with externalDisplayName := name.chars }
          else s
        | none => s
      return { s with bLoggedIn := true }

/-! ## The reported account -/

/-- The base of the SteamID64s of individual accounts. -/
def steamIndividualBase : UInt64 := 76561197960265728

/-- The Steam id made up for a product id. -/
def synthesisedSteamId (hash : Bytes → UInt64) (product : Bytes) : UInt64 :=
  steamIndividualBase + hash product % 2000000000

/-- `ExternalAccountId`. -/
def externalAccountId (hash : Bytes → UInt64) (steamApi : UInt64) (target : ProductUserId)
    (type : EExternalAccountType) : Bytes × ConnectInterface :=
  if type = .steam then
    if target = s.identity.productUserId then
      let (real, s) := s.localSteamId steamApi
      if real ≠ 0 then (decimal real, s) else (decimal (synthesisedSteamId hash target), s)
    else (decimal (synthesisedSteamId hash target), s)
  else (target, s)

/-- `ReportedDisplayName`. -/
def reportedDisplayName : Bytes :=
  if s.externalDisplayName.isEmpty then s.identity.displayName else s.externalDisplayName

/-- `MakeExternalAccountInfo` with the reported type and name. -/
def makeExternalAccountInfo (hash : Bytes → UInt64) (steamApi : UInt64) (target : ProductUserId) :
    ExternalAccountInfo × ConnectInterface :=
  let (accountId, s') := s.externalAccountId hash steamApi target s.externalType
  ({ productUserId := target
     displayName := cString s.reportedDisplayName
     accountId := cString accountId
     accountIdType := s.externalType }, s')

/-- The part the `Copy` functions share: the account, if the query names a user and passes the
function's own check. -/
def copyAccount (hash : Bytes → UInt64) (steamApi : UInt64) (target : ProductUserId)
    (found : Bool) : Except EResult (ExternalAccountInfo × ConnectInterface) :=
  if target = [] ∨ found = false then .error .notFound else .ok
    (s.makeExternalAccountInfo hash steamApi target)

/-- `EOS_Connect_CopyProductUserExternalAccountByIndex`. -/
def copyProductUserExternalAccountByIndex (hash : Bytes → UInt64) (steamApi : UInt64)
    (target : ProductUserId) (index : UInt32) :
    Except EResult (ExternalAccountInfo × ConnectInterface) :=
  s.copyAccount hash steamApi target (index == 0)

/-- `EOS_Connect_CopyProductUserExternalAccountByAccountType`. -/
def copyProductUserExternalAccountByAccountType (hash : Bytes → UInt64) (steamApi : UInt64)
    (target : ProductUserId) (type : EExternalAccountType) :
    Except EResult (ExternalAccountInfo × ConnectInterface) :=
  s.copyAccount hash steamApi target (type == s.externalType)

/-- `EOS_Connect_CopyProductUserExternalAccountByAccountId`, which does not look at the id. -/
def copyProductUserExternalAccountByAccountId (hash : Bytes → UInt64) (steamApi : UInt64)
    (target : ProductUserId) : Except EResult (ExternalAccountInfo × ConnectInterface) :=
  s.copyAccount hash steamApi target true

/-- `EOS_Connect_CopyProductUserInfo`. -/
def copyProductUserInfo (hash : Bytes → UInt64) (steamApi : UInt64) (target : ProductUserId) :
    Except EResult (ExternalAccountInfo × ConnectInterface) :=
  s.copyAccount hash steamApi target true

end ConnectInterface

/-! ## The mappings -/

/-- `EOS_Connect_GetExternalAccountMapping`: the user whose product id is the external id. -/
def getExternalAccountMapping : Option CString → ProductUserId
  | none => []
  | some external => external.chars

/-- What `EOS_Connect_GetProductUserIdMapping` did: its result, the bytes it wrote to the buffer,
and the length it wrote back. -/
structure MappingOutcome where
  result : EResult
  written : Option Bytes := none
  length : Option Int := none
  deriving DecidableEq, Repr

/-- The size of a buffer for a string, `static_cast<int32_t>(Value.size()) + 1`. -/
def requiredLength (value : Bytes) : Int := (value.length : Int).bmod (2 ^ 32) + 1

/-- `EOS_Connect_GetProductUserIdMapping`; `buffer` says whether there is one, and `length` what
the length pointer leads to. -/
def getProductUserIdMapping (target : Option ProductUserId) (buffer : Bool) (length : Option Int) :
    MappingOutcome :=
  match target, length with
  | some value, some length =>
      if value = [] then { result := .notFound }
      else
        let required := requiredLength value
        if buffer = false ∨
          length < required then { result := .limitExceeded, length := some required }
        else { result := .success, written := some (value ++ [0]), length := some required }
  | _, _ => { result := .invalidParameters }

/-! ## Round trips -/

/-- A query for the account of a product user. -/
inductive AccountQuery where
  | byIndex (index : UInt32)
  | byAccountType (type : EExternalAccountType)
  | byAccountId
  | userInfo
  deriving DecidableEq, Repr

namespace ConnectInterface
variable {s s' : ConnectInterface} {hash : Bytes → UInt64} {steamApi : UInt64}
  {target : ProductUserId}

/-- What the interface answers to a query. -/
def answer (s : ConnectInterface) (hash : Bytes → UInt64) (steamApi : UInt64)
    (target : ProductUserId) :
    AccountQuery → Except EResult (ExternalAccountInfo × ConnectInterface)
  | .byIndex index => s.copyProductUserExternalAccountByIndex hash steamApi target index
  | .byAccountType type => s.copyProductUserExternalAccountByAccountType hash steamApi target type
  | .byAccountId => s.copyProductUserExternalAccountByAccountId hash steamApi target
  | .userInfo => s.copyProductUserInfo hash steamApi target

/-- Every account id reported for the user leads back to the user, and the user to it. -/
def RoundTrip (s : ConnectInterface) (hash : Bytes → UInt64) (steamApi : UInt64)
    (target : ProductUserId) : Prop :=
  ∀ query info s', s.answer hash steamApi target query = .ok (info, s') →
    getExternalAccountMapping (some info.accountId) = target ∧
    ∀ length, requiredLength target ≤ length →
      getProductUserIdMapping (some target) true (some length) =
        { result := .success, written := some (info.accountId.chars ++ [0]), length := some
            (requiredLength target) }

/-- No two of the users are reported under one account id. -/
def DistinctAccounts (s : ConnectInterface) (hash : Bytes → UInt64) (steamApi : UInt64)
    (users : Set ProductUserId) : Prop :=
  ∀ p ∈ users, ∀ q ∈ users, ∀ query query' info info' s₁ s₂,
    s.answer hash steamApi p query = .ok (info, s₁) →
    s.answer hash steamApi q query' = .ok (info', s₂) →
    info.accountId = info'.accountId → p = q

/-- The Steam id of a user: the known one for the local user, a made-up one for everyone else. -/
def steamIdOf (s : ConnectInterface) (hash : Bytes → UInt64) (steamApi : UInt64)
    (target : ProductUserId) : UInt64 :=
  if target = s.identity.productUserId ∧ (s.localSteamId steamApi).1 ≠
    0 then (s.localSteamId steamApi).1
  else synthesisedSteamId hash target

/-- The user's product id is its account id: it holds no zero byte and, under a Steam login, it is
the user's Steam id in decimal. There is no account of the null user. -/
def NamedByAccount (s : ConnectInterface) (hash : Bytes → UInt64) (steamApi : UInt64)
    (target : ProductUserId) : Prop :=
  target = [] ∨ 0 ∉ target ∧ (s.externalType = .steam →
    target = decimal (s.steamIdOf hash steamApi target))

/-! ### The reported id -/

/-- The account id that is reported: of Steam the digits, else the product id. -/
theorem externalAccountId_fst (type : EExternalAccountType) :
    (s.externalAccountId hash steamApi target type).1 =
      if type = .steam then decimal (s.steamIdOf hash steamApi target) else target := by
  unfold externalAccountId steamIdOf
  split
  · split
    · next h => simp only [h, true_and]; split <;> rfl
    · next h => simp only [h, false_and, if_false]
  · rfl

/-- All answers about a user report the same account. -/
theorem answer_ok {query : AccountQuery} {info : ExternalAccountInfo}
    (h : s.answer hash steamApi target query = .ok (info, s')) :
    target ≠ [] ∧ info.accountId =
      cString (s.externalAccountId hash steamApi target s.externalType).1 := by
  have hcopy : ∀ found, s.copyAccount hash steamApi target found = .ok (info, s') →
      target ≠ [] ∧ info.accountId =
        cString (s.externalAccountId hash steamApi target s.externalType).1 := by
    intro found hfound
    unfold copyAccount at hfound
    split at hfound
    · cases hfound
    · next hnot =>
        cases hfound
        exact ⟨fun hnil => hnot (.inl hnil), rfl⟩
  cases query with
  | byIndex index => exact hcopy _ h
  | byAccountType type => exact hcopy _ h
  | byAccountId => exact hcopy _ h
  | userInfo => exact hcopy _ h

/-- There is an answer about every user. -/
theorem answer_userInfo (s : ConnectInterface) (hash : Bytes → UInt64) (steamApi : UInt64)
    (h : target ≠ []) : ∃ info s', s.answer hash steamApi target .userInfo = .ok (info, s') := by
  have hnot : ¬ (target = [] ∨ true = false) := fun hor => hor.elim h nofun
  exact ⟨_, _, if_neg hnot⟩

/-- A string without a zero byte survives as a C string, and no other. -/
theorem cString_chars_eq {x : Bytes} : (cString x).chars = x ↔ 0 ∉ x := by
  rw [cString, List.takeWhile_eq_self_iff]
  constructor
  · intro h hzero
    simpa using h 0 hzero
  · intro h b hb
    exact decide_eq_true fun hzero => h (hzero ▸ hb)

/-- The mapping of a user with a buffer that is large enough. -/
theorem getProductUserIdMapping_eq (h : target ≠ []) {length : Int}
    (hlength : requiredLength target ≤ length) :
    getProductUserIdMapping (some target) true (some length) =
      { result := .success, written := some (target ++ [0]), length := some
          (requiredLength target) } := by
  have hfits : ¬ (true = false ∨ length < requiredLength target) := fun hor =>
      hor.elim nofun (not_lt.2 hlength)
  simp only [getProductUserIdMapping, if_neg h, if_neg hfits]

/-- The user's product id is its account id exactly if the code reports it as such. -/
theorem namedByAccount_iff (h : target ≠ []) : s.NamedByAccount hash steamApi target ↔
    (cString (s.externalAccountId hash steamApi target s.externalType).1).chars = target := by
  rw [NamedByAccount, externalAccountId_fst, or_iff_right h]
  split
  · next hsteam =>
      have hdigits : 0 ∉ decimal (s.steamIdOf hash steamApi target) :=
        notMem_decimal (.inl (by decide)) _
      rw [cString_chars_eq.2 hdigits]
      exact ⟨fun hnamed => (hnamed.2 hsteam).symm, fun heq => ⟨heq ▸ hdigits, fun _ => heq.symm⟩⟩
  · next hother =>
      rw [cString_chars_eq]
      exact ⟨fun hnamed => hnamed.1, fun hzero => ⟨hzero, fun hsteam => absurd hsteam hother⟩⟩

/-- One user. -/
theorem roundTrip_iff : s.RoundTrip hash steamApi target ↔
    s.NamedByAccount hash steamApi target := by
  by_cases hnull : target = []
  · refine ⟨fun _ => .inl hnull, fun _ query info s' hanswer => ?_⟩
    exact absurd hnull (answer_ok hanswer).1
  rw [namedByAccount_iff hnull]
  constructor
  · intro hround
    obtain ⟨info, s', hanswer⟩ := answer_userInfo s hash steamApi hnull
    rw [← (answer_ok hanswer).2]
    exact (hround _ info s' hanswer).1
  · intro hnamed query info s' hanswer
    rw [← (answer_ok hanswer).2] at hnamed
    refine ⟨hnamed, fun length hlength => ?_⟩
    rw [getProductUserIdMapping_eq hnull hlength, hnamed]

/-- **External account mapping**: the accounts of a set of users lead back to the users, and are
their own, exactly if each of them has its account id for a product id. -/
theorem account_round_trip_iff (s : ConnectInterface) (hash : Bytes → UInt64) (steamApi : UInt64)
    (users : Set ProductUserId) :
    (∀ p ∈ users, s.RoundTrip hash steamApi p) ∧ s.DistinctAccounts hash steamApi users ↔
      ∀ p ∈ users, s.NamedByAccount hash steamApi p := by
  constructor
  · rintro ⟨hround, _⟩ p hp
    exact roundTrip_iff.1 (hround p hp)
  · intro hnamed
    refine ⟨fun p hp => roundTrip_iff.2 (hnamed p hp), ?_⟩
    intro p hp q hq query query' info info' s₁ s₂ hanswer hanswer' hsame
    have hback := (roundTrip_iff.2 (hnamed p hp) query info s₁ hanswer).1
    have hback' := (roundTrip_iff.2 (hnamed q hq) query' info' s₂ hanswer').1
    rw [← hback, ← hback', hsame]

/-- A login with a session ticket of an individual id. -/
def steamLogin (token : CString) : ConnectLoginOptions :=
  { apiVersion := 2, credentials := some { type := .steamSessionTicket, token := some token },
    displayName := none }

/-- A ticket: the section's length, no token, the id 76561198000000001 and the generation time. -/
def sampleTicket : CString :=
  ⟨str "140000000000000000000000014c5e020100100100000000", by decide +kernel⟩

/-- The local user of the interface, logged in with the ticket, is reported under its Steam id,
which the mapping takes for another product user. -/
theorem not_account_round_trip : ∃ s, ({ identity := sampleIdentity } : ConnectInterface).login 0
      (some (steamLogin sampleTicket)) = some s ∧
    ¬ s.RoundTrip (fun _ => 0) 0 sampleIdentity.productUserId := by
  have hid : fromSessionTicketHex (some sampleTicket) = some 76561198000000001 := by decide +kernel
  refine ⟨{ identity := sampleIdentity, steamId := 76561198000000001, externalType :=
      .steam, bLoggedIn := true }, ?_, ?_⟩
  · simp only [login, steamLogin, noteSteamSessionTicket, hid]
    rfl
  · rw [roundTrip_iff]
    rintro (hnull | ⟨_, hdigits⟩)
    · exact sampleIdentity.productUserId_ne hnull
    · have hlength := congrArg List.length (hdigits rfl)
      revert hlength
      decide +kernel

/-- Made-up Steam ids repeat: under a Steam login there are two peers that are reported under one
account id, whatever the hash function is. -/
theorem exists_shared_account (hsteam : s.externalType = .steam) :
    ∃ p q : ProductUserId, p ≠ q ∧ p ≠ s.identity.productUserId ∧ q ≠ s.identity.productUserId ∧
      ¬ s.DistinctAccounts hash steamApi {p, q} := by
  -- infinitely many ids that are longer than the local user's
  let peer (n : ℕ) : ProductUserId := List.replicate (s.identity.productUserId.length + 1 + n) 1
  have hlength : ∀ n, (peer n).length = s.identity.productUserId.length + 1 + n := fun n =>
    List.length_replicate
  have hpeer : ∀ n, peer n ≠ s.identity.productUserId := by
    intro n heq
    have := hlength n
    rw [heq] at this
    omega
  have hnull : ∀ n, peer n ≠ [] := by
    intro n heq
    have := hlength n
    rw [heq, List.length_nil] at this
    omega
  have hid : ∀ n, (s.externalAccountId hash steamApi (peer n) s.externalType).1 =
      decimal (synthesisedSteamId hash (peer n)) := by
    intro n
    rw [externalAccountId_fst, if_pos hsteam, steamIdOf, if_neg fun h => hpeer n h.1]
  let residue (n : ℕ) : Fin 2000000000 :=
    ⟨(hash (peer n) % 2000000000).toNat, by
      rw [UInt64.toNat_mod]
      exact Nat.mod_lt _ (by decide)⟩
  obtain ⟨m, n, hne, hsame⟩ := Finite.exists_ne_map_eq_of_infinite residue
  have hhash : hash (peer m) % 2000000000 = hash (peer n) % 2000000000 :=
    UInt64.toNat_inj.1 (Fin.mk.inj hsame)
  have hdiffer : peer m ≠ peer n := by
    intro heq
    have := hlength m
    rw [heq, hlength n] at this
    omega
  refine ⟨peer m, peer n, hdiffer, hpeer m, hpeer n, fun hdistinct => hdiffer ?_⟩
  obtain ⟨info, s₁, hanswer⟩ := answer_userInfo s hash steamApi (hnull m)
  obtain ⟨info', s₂, hanswer'⟩ := answer_userInfo s hash steamApi (hnull n)
  refine hdistinct _ (.inl rfl) _ (.inr rfl) _ _ info info' s₁ s₂ hanswer hanswer' ?_
  rw [(answer_ok hanswer).2, (answer_ok hanswer').2, hid, hid, synthesisedSteamId,
    synthesisedSteamId, hhash]

end ConnectInterface

end EOSEmu
