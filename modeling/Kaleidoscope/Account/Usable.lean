import Kaleidoscope.Account.World

/-!
# Requests from an accepted session

The checks of a session that comes in and the checks of a request that goes out are separate
functions.  The requests that carry the access token in their header pass whatever was accepted;
the refresh carries its values in the body, where the privacy check looks for paths.

    usable_iff    every request of an accepted session is built exactly if neither the client id
                  nor the refresh token looks like an absolute path
-/

namespace Kaleidoscope.Account

/-- A character of the URL-safe base64 alphabet. -/
def isBase64Url (c : Char) : Bool := Text.isAsciiAlphanumeric c || c == '-' || c == '_'

/-- What the client relies on in the crates that make its requests, for one client id, refresh
token and device. -/
structure RequestLaws (crates : External) (clientId refreshToken : Text) (deviceId : Uuid) :
    Prop where
  base64 : ∀ random, random.size = 32 → (crates.encodeBase64 random).length = 43
    ∧ ∀ c ∈ crates.encodeBase64 random, isBase64Url c = true
  /-- JSON escapes an ASCII character to at most six bytes -/
  refresh : ∀ random, random.size = 32 → ∃ body,
    crates.toVec (.refresh clientId refreshToken (crates.encodeBase64 random)) = some body
      ∧ crates.decodeValue body = some (.object [("client_id".toList, .string clientId),
          ("refresh_token".toList, .string refreshToken),
          ("nonce".toList, .string (crates.encodeBase64 random))])
      ∧ body.isEmpty = false
      ∧ (Text.isAscii clientId → Text.isAscii refreshToken →
          body.size ≤ 6 * (clientId.length + refreshToken.length + 43) + 64)
  empty : ∃ body, crates.toVec .empty = some body
    ∧ crates.decodeValue body = some (.object []) ∧ body.size ≤ 2
  uuid : crates.parseUuid (crates.showUuid deviceId) = some deviceId

/-- The client builds each of its later requests from the session without an error; a refresh
takes a nonce from 32 random bytes. -/
structure Usable (crates : External) (config : AccountClientConfig) (session : ActiveSession) :
    Prop where
  refresh : ∀ random : Bytes, random.size = 32 →
    (WireRequest.refresh crates config.publicClientId session.credential.refreshToken
      ⟨crates.encodeBase64 random⟩).isOk = true
  getAccount : (WireRequest.getAccount crates session.accessToken).isOk = true
  listDevices : (WireRequest.listDevices crates session.accessToken).isOk = true
  listExternalIdentities :
    (WireRequest.listExternalIdentities crates session.accessToken).isOk = true
  revoke : (WireRequest.revoke crates session.accessToken).isOk = true
  revokeDevice :
    (WireRequest.revokeDevice crates session.accessToken session.credential.deviceId).isOk = true

/-! ## Lemmas -/

variable {crates : External} {config : AccountClientConfig}

theorem devices_append_ne (crates : External) (t t' : Text)
    (h : t' ∈ AccountEndpoint.fixed.map (·.path crates)) :
    "/v1/devices/".toList ++ t ≠ t' := by
  intro heq
  have hfixed : ∀ path ∈ AccountEndpoint.fixed.map (·.path crates),
      path.take 12 ≠ "/v1/devices/".toList := by
    show ∀ path ∈ AccountEndpoint.fixed.map (·.path sampleCrates),
      path.take 12 ≠ "/v1/devices/".toList
    decide +kernel
  refine hfixed t' h ?_
  rw [← heq]
  exact List.take_left' rfl

/-- The endpoint is found again from its method and its path. -/
def Reparsed (crates : External) (endpoint : AccountEndpoint) : Prop :=
  AccountEndpoint.parse crates endpoint.method (endpoint.path crates) = .ok endpoint

theorem reparsed_fixed {endpoint : AccountEndpoint} (h : endpoint ∈ AccountEndpoint.fixed) :
    Reparsed crates endpoint := by
  have hall : ∀ endpoint ∈ AccountEndpoint.fixed, Reparsed sampleCrates endpoint := by
    unfold Reparsed
    decide +kernel
  cases endpoint with
  | unlinkExternalIdentity id => exact absurd h (by simp [AccountEndpoint.fixed])
  | revokeDevice id => exact absurd h (by simp [AccountEndpoint.fixed])
  | _ => exact hall _ h

theorem reparsed_revokeDevice {id : Uuid} (huuid : crates.parseUuid (crates.showUuid id) = some id) :
    Reparsed crates (.revokeDevice id) := by
  have hnone : AccountEndpoint.fixed.find? (fun endpoint => endpoint.method = HttpMethod.post
      ∧ endpoint.path crates
        = "/v1/devices/".toList ++ crates.showUuid id ++ "/revoke".toList) = none := by
    refine List.find?_eq_none.mpr fun endpoint hmem => ?_
    intro hfound
    have hpath := (of_decide_eq_true hfound).2
    rw [List.append_assoc] at hpath
    exact devices_append_ne crates _ _ (List.mem_map.mpr ⟨endpoint, hmem, rfl⟩) hpath.symm
  show AccountEndpoint.parse crates .post
    ("/v1/devices/".toList ++ crates.showUuid id ++ "/revoke".toList) = _
  unfold AccountEndpoint.parse
  rw [hnone, List.append_assoc]
  simp only [reduceCtorEq, if_true, if_false, Text.stripPrefix_append, Option.bind_some,
    Text.stripSuffix_append, huuid]

theorem validate_eq_ok {request : WireRequest} (hreparsed : Reparsed crates request.endpoint) :
    request.validate crates = .ok () ↔
      (request.endpoint.authentication == .accountAccessToken) = request.accessToken.isSome
        ∧ (∀ token, request.accessToken = some token → token.isBoundedAscii = true)
        ∧ request.body.size ≤ maxAccountBodyBytes
        ∧ (request.body.isEmpty = false →
            validateAccountPayload crates request.body = .ok ()) := by
  unfold WireRequest.validate
  rw [hreparsed]
  constructor
  · intro h
    obtain ⟨reparsed, hreparsed, h⟩ := except_bind_eq_ok.mp h
    cases hreparsed
    obtain ⟨_, hchecks, hbody⟩ := except_bind_eq_ok.mp h
    have hnot := rejectIf_eq_ok.mp hchecks
    simp only [Bool.or_eq_true, decide_eq_true_eq, bne_iff_ne, not_or, not_not, Option.any_eq_true,
      not_exists, not_and, Bool.not_eq_true', not_lt] at hnot
    refine ⟨hnot.1.1.2, fun token htoken => ?_, hnot.2, fun hempty => ?_⟩
    · simpa using hnot.1.2 token htoken
    · simpa [hempty] using hbody
  · rintro ⟨hauth, htoken, hsize, hpayload⟩
    have hnot : rejectIf (decide (request.endpoint ≠ request.endpoint)
        || (request.endpoint.authentication == .accountAccessToken) != request.accessToken.isSome
        || request.accessToken.any (fun token => !token.isBoundedAscii)
        || decide (request.body.size > maxAccountBodyBytes)) AccountError.unsafeRequest
        = .ok () := by
      refine rejectIf_eq_ok.mpr ?_
      have hany : request.accessToken.any (fun token => !token.isBoundedAscii) = false := by
        cases ht : request.accessToken with
        | none => rfl
        | some token => simp [htoken token ht]
      simp [hauth, hany, hsize]
    refine except_bind_eq_ok.mpr ⟨_, rfl, except_bind_eq_ok.mpr ⟨_, hnot, ?_⟩⟩
    by_cases hempty : request.body.isEmpty = false
    · simpa [hempty] using hpayload hempty
    · simp [hempty]
      rfl

theorem accountEmpty_isOk {endpoint : AccountEndpoint} {token : SecretString}
    (hreparsed : Reparsed crates endpoint)
    (hauth : endpoint.authentication = .accountAccessToken) (htoken : token.isBoundedAscii = true) :
    (WireRequest.accountEmpty crates endpoint token).isOk = true := by
  have hvalid : WireRequest.validate crates ⟨endpoint, some token, none, ByteArray.empty⟩
      = .ok () := by
    refine (validate_eq_ok hreparsed).mpr ⟨?_, ?_, ?_, fun h => ?_⟩
    · rw [hauth]
      rfl
    · intro token' h
      cases h
      exact htoken
    · show 0 ≤ maxAccountBodyBytes
      omega
    · cases h
  unfold WireRequest.accountEmpty
  simp only [hvalid]
  rfl

theorem validateAccountPayload_eq_ok {bytes : Bytes} {value : Value}
    (hsize : bytes.size ≤ maxAccountBodyBytes) (hvalue : crates.decodeValue bytes = some value) :
    validateAccountPayload crates bytes = .ok () ↔ validateAccountValue value = true := by
  unfold validateAccountPayload
  rw [if_neg (not_lt.mpr hsize), hvalue]
  by_cases h : validateAccountValue value = true
  · simp [h]
  · simp [h]

theorem accountJson_isOk {endpoint : AccountEndpoint} {token : SecretString}
    (hempty : ∃ body, crates.toVec .empty = some body
      ∧ crates.decodeValue body = some (.object []) ∧ body.size ≤ 2)
    (hreparsed : Reparsed crates endpoint) (hauth : endpoint.authentication = .accountAccessToken)
    (htoken : token.isBoundedAscii = true) :
    (WireRequest.accountJson crates endpoint token .empty).isOk = true := by
  obtain ⟨body, hvec, hvalue, hsize⟩ := hempty
  have hmax : body.size ≤ maxAccountBodyBytes := by
    unfold maxAccountBodyBytes
    omega
  have hvalid : WireRequest.validate crates ⟨endpoint, some token, some .empty, body⟩ = .ok () := by
    refine (validate_eq_ok hreparsed).mpr ⟨?_, ?_, hmax, fun _ => ?_⟩
    · rw [hauth]
      rfl
    · intro token' h
      cases h
      exact htoken
    · exact (validateAccountPayload_eq_ok hmax hvalue).mpr rfl
  unfold WireRequest.accountJson WireRequest.json
  rw [hvec]
  simp only [hvalid]
  rfl

/-- A text over the URL-safe alphabet never looks like a path. -/
theorem base64_not_path {t : Text} (h : ∀ c ∈ t, isBase64Url c = true) :
    looksLikeAbsolutePath t = false := by
  have hslash : isBase64Url '/' = false := by decide
  have htilde : isBase64Url '~' = false := by decide
  have hback : isBase64Url '\\' = false := by decide
  have hcolon : isBase64Url ':' = false := by decide
  cases t with
  | nil => rfl
  | cons a t =>
    have ha := h a (by simp)
    have h1 : a ≠ '/' := by
      rintro rfl
      rw [hslash] at ha
      cases ha
    have h2 : a ≠ '~' := by
      rintro rfl
      rw [htilde] at ha
      cases ha
    have h3 : a ≠ '\\' := by
      rintro rfl
      rw [hback] at ha
      cases ha
    have h4 : ∀ b rest, t = b :: rest → b ≠ ':' := by
      rintro b rest rfl rfl
      have hb := h ':' (by simp)
      rw [hcolon] at hb
      cases hb
    have hfirst : "/".toList.isPrefixOf (a :: t) = false := by
      show ('/' == a && [].isPrefixOf t) = false
      simp [Ne.symm h1]
    have hhome : "~/".toList.isPrefixOf (a :: t) = false := by
      show ('~' == a && ['/'].isPrefixOf t) = false
      simp [Ne.symm h2]
    have hshare : "\\\\".toList.isPrefixOf (a :: t) = false := by
      show ('\\' == a && ['\\'].isPrefixOf t) = false
      simp [Ne.symm h3]
    unfold looksLikeAbsolutePath
    rw [hfirst, hhome, hshare]
    split
    next heq => exact absurd rfl (h4 _ _ (List.cons.inj heq).2)
    next heq => exact absurd rfl (h4 _ _ (List.cons.inj heq).2)
    next => rfl

/-- The refresh is refused exactly for a client id or a refresh token that looks like a path. -/
theorem refresh_isOk_iff {clientId : Text} {token : SecretString} {deviceId : Uuid}
    (hlaws : RequestLaws crates clientId token.expose deviceId)
    (hclient : AccountClientConfig.validIdentifier clientId = true)
    (htoken : token.isBoundedAscii = true) {random : Bytes} (hrandom : random.size = 32) :
    (WireRequest.refresh crates clientId token ⟨crates.encodeBase64 random⟩).isOk = true ↔
      looksLikeAbsolutePath clientId = false ∧ looksLikeAbsolutePath token.expose = false := by
  obtain ⟨body, hvec, hvalue, hnonempty, hsize⟩ := hlaws.refresh random hrandom
  obtain ⟨hlength, hnonce⟩ := hlaws.base64 random hrandom
  have hreparsed : Reparsed crates .refresh := reparsed_fixed (by decide)
  simp only [AccountClientConfig.validIdentifier, Bool.and_eq_true, decide_eq_true_eq] at hclient
  obtain ⟨⟨⟨_, hclientlen⟩, hclientascii⟩, _⟩ := hclient
  simp only [SecretString.isBoundedAscii, Bool.and_eq_true, decide_eq_true_eq] at htoken
  obtain ⟨⟨⟨_, htokenlen⟩, htokenascii⟩, _⟩ := htoken
  rw [Text.byteLen_of_isAscii hclientascii] at hclientlen
  rw [Text.byteLen_of_isAscii htokenascii] at htokenlen
  have hbody := hsize hclientascii htokenascii
  have hmax : body.size ≤ maxAccountBodyBytes := by
    unfold maxAccountBodyBytes
    omega
  have hclientField : forbiddenFields.contains (normalizeField "client_id".toList) = false := by
    decide +kernel
  have htokenField : forbiddenFields.contains (normalizeField "refresh_token".toList) = false := by
    decide +kernel
  have hnonceField : forbiddenFields.contains (normalizeField "nonce".toList) = false := by
    decide +kernel
  have hpayload : validateAccountPayload crates body = .ok () ↔
      looksLikeAbsolutePath clientId = false ∧ looksLikeAbsolutePath token.expose = false := by
    rw [validateAccountPayload_eq_ok hmax hvalue]
    simp only [validateAccountValue, validateAccountMembers, hclientField, htokenField,
      hnonceField, base64_not_path hnonce, Bool.not_false, Bool.true_and, Bool.and_true,
      Bool.and_eq_true, Bool.not_eq_true']
  have hvalid : WireRequest.validate crates
      ⟨.refresh, none, some (.refresh clientId token.expose (crates.encodeBase64 random)), body⟩ = .ok () ↔
      looksLikeAbsolutePath clientId = false ∧ looksLikeAbsolutePath token.expose = false := by
    rw [validate_eq_ok hreparsed]
    constructor
    · rintro ⟨_, _, _, h⟩
      exact hpayload.mp (h hnonempty)
    · intro h
      exact ⟨rfl, fun _ h => (nomatch h), hmax, fun _ => hpayload.mpr h⟩
  rw [← hvalid]
  unfold WireRequest.refresh WireRequest.publicJson WireRequest.json
  rw [hvec]
  simp only
  cases WireRequest.validate crates
      ⟨.refresh, none, some (.refresh clientId token.expose (crates.encodeBase64 random)), body⟩ with
  | error x =>
    constructor
    · intro h
      cases h
    · intro h
      cases h
  | ok _ =>
    constructor
    · intro h
      rfl
    · intro h
      rfl

/-- What the checks of an accepted session say of its tokens. -/
theorem sessionVerdict_bounded {provider : ValidatedProvider} {nonce : SecretString}
    {expected : Option StoredCredential} {response : WireResponse} {now : Nat}
    {session : ActiveSession}
    (h : sessionVerdict crates config provider nonce expected response now = .ok session) :
    session.accessToken.isBoundedAscii = true
      ∧ session.credential.refreshToken.isBoundedAscii = true := by
  obtain ⟨wire, hwire, h⟩ := except_bind_eq_ok.mp h
  obtain ⟨subject, _, h⟩ := except_bind_eq_ok.mp h
  obtain ⟨_, _, h⟩ := except_bind_eq_ok.mp h
  obtain ⟨credential, _, h⟩ := except_bind_eq_ok.mp h
  cases h
  have hvalid := credential.valid
  refine ⟨?_, ?_⟩
  · unfold checkSessionWire at hwire
    obtain ⟨w, _, hwire⟩ := except_bind_eq_ok.mp hwire
    obtain ⟨_, _, hwire⟩ := except_bind_eq_ok.mp hwire
    obtain ⟨_, htokens, hwire⟩ := except_bind_eq_ok.mp hwire
    cases hwire
    have hnot := rejectIf_eq_ok.mp htokens
    simp only [Bool.or_eq_true, not_or, Bool.not_eq_true', Bool.not_eq_false] at hnot
    exact hnot.1.1.1
  · simp only [CredentialFields.validate, Bool.and_eq_true] at hvalid
    exact hvalid.2

/-! ## Two sessions -/

/-- A session like the first one whose refresh token begins with a slash. -/
def slashedSession : SessionWire := { loginSession with
  refreshToken := '/' :: List.replicate 42 'r' }

def slashedContent : WireContent :=
  .refresh sampleConfig.publicClientId slashedSession.refreshToken (sampleSecret 'A')

/-- The crates on the inputs of the two sessions. -/
def sessionCrates : External := { sampleCrates with
  decodeSession :=
    sampleDecode (fun wire => some (sampleBody wire)) [loginSession, slashedSession]
  decodeValue := fun body =>
    (sampleDecode sampleToVec (slashedContent :: sampleContents) body).bind sampleContent
  parseUuid := fun _ => some ⟨2⟩ }

def sampleProvider : ValidatedProvider := { discovery := sampleDiscovery, jwks := sampleJwks }

def sampleVerdict (wire : SessionWire) : AccountResult ActiveSession :=
  sessionVerdict sessionCrates sampleConfig sampleProvider ⟨sampleSecret 'A'⟩ none
    ⟨200, sampleBody wire⟩ 1000

def sampleRefresh : WireContent :=
  .refresh sampleConfig.publicClientId (sampleSecret 'r') (sampleSecret 'A')

/-- Every nonce of the sample crates is the same one. -/
theorem sessionCrates_nonce (random : Bytes) :
    sessionCrates.encodeBase64 random = sampleSecret 'A' := rfl

theorem sessionCrates_decodes {content : WireContent} {body : Bytes} {value : Value}
    (hfind : sampleDecode sampleToVec (slashedContent :: sampleContents) body = some content)
    (hvalue : sampleContent content = some value) :
    sessionCrates.decodeValue body = some value := by
  show (sampleDecode sampleToVec (slashedContent :: sampleContents) body).bind sampleContent = _
  rw [hfind]
  exact hvalue

theorem sessionCrates_laws : RequestLaws sessionCrates sampleConfig.publicClientId
    (sampleSecret 'r') ⟨2⟩ where
  base64 := by
    intro random _
    rw [sessionCrates_nonce]
    exact ⟨by decide +kernel, by decide +kernel⟩
  refresh := by
    intro random _
    rw [sessionCrates_nonce]
    have hfind : sampleDecode sampleToVec (slashedContent :: sampleContents)
        ((sampleToVec sampleRefresh).getD ByteArray.empty) = some sampleRefresh := by
      decide +kernel
    exact ⟨_, rfl, sessionCrates_decodes hfind rfl, by decide +kernel, fun _ _ => by decide +kernel⟩
  empty := by
    have hfind : sampleDecode sampleToVec (slashedContent :: sampleContents)
        ((sampleToVec .empty).getD ByteArray.empty) = some .empty := by
      decide +kernel
    exact ⟨_, rfl, sessionCrates_decodes hfind rfl, by decide +kernel⟩
  uuid := rfl

theorem ok_of_toOption {α : Type} {r : AccountResult α} {a : α} (h : a ∈ r.toOption) :
    r = .ok a := by
  cases r with
  | error x => cases h
  | ok b =>
    cases h
    rfl

/-! ## Top theorem -/

theorem validIdentifier_of_validate (h : config.validate = .ok ()) :
    AccountClientConfig.validIdentifier config.publicClientId = true := by
  unfold AccountClientConfig.validate at h
  obtain ⟨_, _, h⟩ := except_bind_eq_ok.mp h
  obtain ⟨_, _, h⟩ := except_bind_eq_ok.mp h
  obtain ⟨_, _, h⟩ := except_bind_eq_ok.mp h
  obtain ⟨_, _, h⟩ := except_bind_eq_ok.mp h
  obtain ⟨_, hids, _⟩ := except_bind_eq_ok.mp h
  have hnot := rejectIf_eq_ok.mp hids
  simp only [Bool.not_eq_true', Bool.not_eq_false, Bool.and_eq_true] at hnot
  exact hnot.2

/-- What an accepted session needs so that all later requests can be built. -/
theorem usable_iff (client : AccountClient) {provider : ValidatedProvider} {nonce : SecretString} {expected : Option StoredCredential}
    {response : WireResponse} {now : Nat} {session : ActiveSession}
    (h : sessionVerdict crates client.config provider nonce expected response now
      = .ok session)
    (hlaws : RequestLaws crates client.config.publicClientId
      session.credential.refreshToken.expose session.credential.deviceId) :
    Usable crates client.config session ↔
      looksLikeAbsolutePath client.config.publicClientId = false
        ∧ looksLikeAbsolutePath session.credential.refreshToken.expose = false := by
  obtain ⟨haccess, htoken⟩ := sessionVerdict_bounded h
  have hclient := validIdentifier_of_validate client.valid
  constructor
  · intro husable
    have hzero : (⟨Array.replicate 32 0⟩ : Bytes).size = 32 := rfl
    exact (refresh_isOk_iff hlaws hclient htoken hzero).mp (husable.refresh _ hzero)
  · intro hpaths
    exact
      { refresh := fun random hsize => (refresh_isOk_iff hlaws hclient htoken hsize).mpr hpaths
        getAccount := accountEmpty_isOk (reparsed_fixed (by decide)) rfl haccess
        listDevices := accountEmpty_isOk (reparsed_fixed (by decide)) rfl haccess
        listExternalIdentities := accountEmpty_isOk (reparsed_fixed (by decide)) rfl haccess
        revoke := accountJson_isOk hlaws.empty (reparsed_fixed (by decide)) rfl haccess
        revokeDevice :=
          accountJson_isOk hlaws.empty (reparsed_revokeDevice hlaws.uuid) rfl haccess }

/-- The session of the sample login is usable. -/
theorem usable_iff_login : ∃ session, sampleVerdict loginSession = .ok session
    ∧ Usable sessionCrates sampleConfig session := by
  have hrun : (sampleVerdict loginSession).toOption.any (fun session =>
      decide (session.credential.refreshToken.expose = sampleSecret 'r')
        && decide (session.credential.deviceId = ⟨2⟩)) = true := by
    decide +kernel
  obtain ⟨session, hsession, hstate⟩ := (Option.any_eq_true _ _).mp hrun
  obtain ⟨htoken, hdevice⟩ := Bool.and_eq_true _ _ ▸ hstate
  have hverdict := ok_of_toOption hsession
  refine ⟨session, hverdict, (usable_iff sampleClient hverdict ?_).mpr ⟨by decide +kernel, ?_⟩⟩
  · rw [of_decide_eq_true htoken, of_decide_eq_true hdevice]
    exact sessionCrates_laws
  · rw [of_decide_eq_true htoken]
    decide +kernel

/-- A session is accepted, and the refresh of its credential cannot be built. -/
theorem slashed_token_wedges : ∃ session, sampleVerdict slashedSession = .ok session
    ∧ ¬Usable sessionCrates sampleConfig session := by
  have hrun : (sampleVerdict slashedSession).toOption.any (fun session =>
      !(WireRequest.refresh sessionCrates sampleConfig.publicClientId
        session.credential.refreshToken ⟨sampleSecret 'A'⟩).isOk) = true := by
    decide +kernel
  obtain ⟨session, hsession, hrefused⟩ := (Option.any_eq_true _ _).mp hrun
  refine ⟨session, ok_of_toOption hsession, fun husable => ?_⟩
  have hrefresh := husable.refresh ⟨Array.replicate 32 0⟩ rfl
  rw [sessionCrates_nonce] at hrefresh
  rw [hrefresh] at hrefused
  cases hrefused

end Kaleidoscope.Account
