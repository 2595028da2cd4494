import Kaleidoscope.Lib.Prog
import Kaleidoscope.Account.Oidc
import Kaleidoscope.Account.Store

/-!
# Account client

Every operation of the client as a program over the events it raises: the clock, the
credential store, the refresh lock, the transport and the user interaction.  The order of
the events is the order of the source.
-/

namespace Kaleidoscope.Account

open Prog

/-! ## Events -/

inductive OidcDocument where
  | discovery
  | jwks
  deriving DecidableEq

structure PkceCallback where
  redirectUri : Url
  code : SecretString
  state : SecretString

inductive Event where
  | nowUnix
  | cancelled
  | fillRandom (size : Nat)
  | sleep (duration : Duration)
  | acquire (timeout : Duration)
  | release
  | load
  | save (credential : StoredCredential)
  | delete
  | send (request : WireRequest) (deadlineUnix : Nat)
  | getOidcDocument (kind : OidcDocument) (url : Url) (deadlineUnix : Nat)
  | prepareRedirect (callbackPath : Text)
  | authorize (authorizationUrl : Url) (deadlineUnix : Nat)
  | display (prompt : DeviceAuthorizationPrompt)
  | openUri (verificationUri : Url)

abbrev Event.Answer : Event → Type
  | .nowUnix => Nat
  | .cancelled => Bool
  | .fillRandom _ => AccountResult Bytes
  | .sleep _ => Unit
  | .acquire _ => AccountResult Unit
  | .release => Unit
  | .load => AccountResult (Option StoredCredential)
  | .save _ => AccountResult Unit
  | .delete => AccountResult Bool
  | .send _ _ => AccountResult WireResponse
  | .getOidcDocument _ _ _ => AccountResult WireResponse
  | .prepareRedirect _ => AccountResult Url
  | .authorize _ _ => AccountResult PkceCallback
  | .display _ => AccountResult Unit
  | .openUri _ => AccountResult Unit

abbrev AccountProg := Prog Event Event.Answer AccountError

abbrev raise (e : Event) : AccountProg e.Answer := ask e

def nowUnix : AccountProg Nat := raise .nowUnix

def load : AccountProg (Option StoredCredential) := do ofExcept (← raise .load)

def save (credential : StoredCredential) : AccountProg Unit := do
  ofExcept (← raise (.save credential))

def delete : AccountProg Bool := do ofExcept (← raise .delete)

/-- A program without its result. -/
def discard {α : Type} (p : AccountProg α) : AccountProg Unit := do
  let _ ← p
  return ()

/-! ## Sessions -/

structure ActiveSession where
  accessToken : SecretString
  credential : StoredCredential

section

variable (crates : External) (config : AccountClientConfig)

/-- What `validate_session` checks before it looks at the clock. -/
def checkSessionWire (response : WireResponse) : AccountResult SessionWire := do
  let wire ← parseSuccess crates crates.decodeSession response 200
  rejectIf
    (wire.tokenType ≠ "Bearer".toList
        || !(1 ≤ wire.expiresIn && wire.expiresIn ≤ 3600)
        || wire.accountId.isNil
        || wire.deviceId.isNil
        || wire.tokenFamilyId.isNil)
    .invalidResponse
  let accessToken : SecretString := ⟨wire.accessToken⟩
  let refreshToken : SecretString := ⟨wire.refreshToken⟩
  let idToken : SecretString := ⟨wire.idToken⟩
  rejectIf
    (!accessToken.isBoundedAscii
        || !refreshToken.isBoundedAscii
        || !idToken.isBoundedAscii
        || accessToken.constantTimeEq refreshToken)
    .invalidResponse
  return wire

/-- Whether the session continues the stored one, or begins at generation 0. -/
def continuesSession (wire : SessionWire) : Option StoredCredential → Bool
  | some previous =>
    wire.accountId = previous.accountId
      && wire.deviceId = previous.deviceId
      && wire.tokenFamilyId = previous.tokenFamilyId
      && previous.issuer = config.issuer
      && previous.audience = config.audience
      && previous.refreshGeneration < u64Max
      && wire.refreshGeneration = previous.refreshGeneration + 1
      && !previous.refreshToken.constantTimeEq ⟨wire.refreshToken⟩
  | none => wire.refreshGeneration = 0

/-- What `validate_session` checks at the time `now`. -/
def acceptSession (provider : ValidatedProvider) (nonce : SecretString)
    (expected : Option StoredCredential) (wire : SessionWire) (now : Nat) :
    AccountResult ActiveSession := do
  let subject ← provider.verifyIdToken crates config ⟨wire.idToken⟩ (some nonce) now
  rejectIf (!continuesSession config wire expected) .invalidResponse
  let credential ← StoredCredential.new
    { accountId := wire.accountId, deviceId := wire.deviceId,
      tokenFamilyId := wire.tokenFamilyId, refreshGeneration := wire.refreshGeneration,
      issuer := config.issuer, audience := config.audience, subject,
      refreshToken := ⟨wire.refreshToken⟩ }
  return { accessToken := ⟨wire.accessToken⟩, credential }

/-- The verdict on a session response at a time. -/
def sessionVerdict (provider : ValidatedProvider) (nonce : SecretString)
    (expected : Option StoredCredential) (response : WireResponse) (now : Nat) :
    AccountResult ActiveSession := do
  let wire ← checkSessionWire crates response
  acceptSession crates config provider nonce expected wire now

def validateSession (response : WireResponse) (provider : ValidatedProvider)
    (nonce : SecretString) (expected : Option StoredCredential) : AccountProg ActiveSession := do
  let wire ← ofExcept (checkSessionWire crates response)
  let now ← nowUnix
  ofExcept (acceptSession crates config provider nonce expected wire now)

/-! ## Helpers of the operations -/

def ensureSignedOut : AccountProg Unit := do
  let stored ← load
  failIf stored.isSome .alreadySignedIn

def requestDeadline (overallDeadline : Nat) : AccountProg Nat := do
  let now ← nowUnix
  return min (saturatingAdd now config.requestTimeout.asSecs) overallDeadline

def ensureBefore (deadline : Nat) : AccountProg Unit := do
  let cancelled ← raise .cancelled
  if cancelled then fail .cancelled
  else do
    let now ← nowUnix
    failIf (now ≥ deadline) .deadlineExceeded

/-- Build a request, read its deadline off the clock and send it; a transport error is a value. -/
def trySend (request : AccountResult WireRequest) (overallDeadline : Nat) :
    AccountProg (AccountResult WireResponse) := do
  let request ← ofExcept request
  let deadline ← requestDeadline config overallDeadline
  raise (.send request deadline)

def send (request : AccountResult WireRequest) (overallDeadline : Nat) :
    AccountProg WireResponse := do
  ofExcept (← trySend config request overallDeadline)

def discover (deadlineUnix : Nat) : AccountProg ValidatedProvider := do
  let url ← ofExcept (discoveryUrl crates config.issuer)
  ofExcept (config.validateOidcUrl url false)
  let response ← ofExcept (← raise (.getOidcDocument .discovery url deadlineUnix))
  let discovery ← ofExcept (checkDiscovery crates config response)
  let response ← ofExcept (← raise (.getOidcDocument .jwks discovery.jwksUri deadlineUnix))
  let jwks ← ofExcept (checkJwks crates response)
  return { discovery, jwks }

def discoverProvider (overallDeadline : Nat) : AccountProg ValidatedProvider := do
  ensureBefore overallDeadline
  let deadline ← requestDeadline config overallDeadline
  discover crates config deadline

def freshSecret : AccountProg SecretString := do
  let bytes ← ofExcept (← raise (.fillRandom 32))
  return ⟨crates.encodeBase64 bytes⟩

def bestEffortRevoke (accessToken : SecretString) : AccountProg Unit :=
  match WireRequest.revoke crates accessToken with
  | .ok request => do
    let _ ← trySend config (.ok request) u64Max
    return ()
  | .error _ => return ()

def publishLogin (session : ActiveSession) : AccountProg LoginResult := do
  match ← raise (.save session.credential) with
  | .error error => do
    bestEffortRevoke crates config session.accessToken
    fail error
  | .ok _ =>
    return { version := 1, status := "signed_in", accountId := session.credential.accountId,
             deviceId := session.credential.deviceId }

/-- The error of a refresh; a reused or revoked token leaves the store, if the store lets it. -/
def failRefresh (error : AccountError) : AccountProg ActiveSession :=
  if error = .refreshReuseDetected || error = .sessionRevoked then do
    let _ ← raise .delete
    fail error
  else fail error

/-- Store the rotated session; one that cannot be stored is revoked and its predecessor deleted. -/
def storeRefreshed (session : ActiveSession) : AccountProg ActiveSession := do
  match ← raise (.save session.credential) with
  | .error error => do
    bestEffortRevoke crates config session.accessToken
    let _ ← raise .delete
    fail error
  | .ok _ => return session

/-- What `refresh_access` does with the answer to its exchange. -/
def refreshAnswered (stored : StoredCredential) (provider : ValidatedProvider)
    (nonce : SecretString) : AccountResult WireResponse → AccountProg ActiveSession
  | .error error => failRefresh error
  | .ok response =>
    if response.status ≠ 200 then failRefresh (mapErrorResponse crates response)
    else do
      -- an error of the validation leaves at once: the stored credential is not touched
      let session ← validateSession crates config response provider nonce (some stored)
      storeRefreshed crates config session

/-- The body of `refresh_access`, run while the refresh lock is held. -/
def refreshLocked : AccountProg ActiveSession := do
  match ← load with
  | none => fail .notSignedIn
  | some stored =>
    failIf (stored.issuer ≠ config.issuer || stored.audience ≠ config.audience)
      .credentialStoreFailure
    let provider ← discoverProvider crates config u64Max
    let nonce ← freshSecret crates
    let response ← trySend config
      (WireRequest.refresh crates config.publicClientId stored.refreshToken nonce) u64Max
    refreshAnswered crates config stored provider nonce response

def refreshAccess : AccountProg ActiveSession := do
  ofExcept (← raise (.acquire config.requestTimeout))
  ensuring (refreshLocked crates config) (raise .release)

/-- The refresh with its error as a value, for the callers that look at it. -/
def attemptRefresh : AccountProg (AccountResult ActiveSession) :=
  attempt (refreshAccess crates config)

def validDevices (devices : List DeviceSummary) : Bool :=
  (devices.map DeviceSummary.deviceId).Nodup
    && devices.all fun device =>
      !device.deviceId.isNil
        && !device.label.isEmpty
        && Text.byteLen device.label ≤ 100
        && !device.label.any Text.isControl
        && device.createdAt ≤ device.lastSeenAt

def listDevicesWithAccess (accessToken : SecretString) : AccountProg DeviceList := do
  let response ← send config (WireRequest.listDevices crates accessToken) u64Max
  let wire ← ofExcept (parseSuccess crates crates.decodeDevices response 200)
  failIf (!validDevices wire.devices) .invalidResponse
  return { version := 1, devices := wire.devices }

def validateLoopbackRedirect (redirect : Url) (expectedPath : Text) : AccountResult Unit :=
  if redirect.scheme ≠ "http".toList
      || !redirect.host.any Host.isLoopback
      || !redirect.username.isEmpty
      || redirect.password.isSome
      || redirect.port.all (· < 1024)
      || redirect.path ≠ expectedPath
      || redirect.query.isSome
      || redirect.fragment.isSome then
    .error .invalidPkceCallback
  else .ok ()

def validUserCode (code : Text) : Bool :=
  4 ≤ Text.byteLen code && Text.byteLen code ≤ 20
    && Text.isAscii code
    && code.all fun c => Text.isAsciiAlphanumeric c || c == '-'

def maxDevicePollIntervalSeconds : Nat := 30
def deviceSlowDownSeconds : Nat := 5

/-! ## Operations -/

def loginPkce (display : DeviceDisplay) : AccountProg LoginResult := do
  ensureSignedOut
  failIf (!display.validate) .unsafeRequest
  let started ← nowUnix
  let deadline := saturatingAdd started config.interactiveTimeout.asSecs
  let provider ← discoverProvider crates config deadline
  let redirectUri ← ofExcept (← raise (.prepareRedirect config.loopbackCallbackPath))
  ofExcept (validateLoopbackRedirect redirectUri config.loopbackCallbackPath)
  let verifier ← freshSecret crates
  let state ← freshSecret crates
  let nonce ← freshSecret crates
  let challenge := pkceChallenge crates verifier
  let authorizationUrl := buildAuthorizationUrl crates provider.discovery.authorizationEndpoint
    config.publicClientId redirectUri state nonce challenge
  ofExcept (config.validateOidcUrl authorizationUrl true)
  let callback ← ofExcept (← raise (.authorize authorizationUrl deadline))
  failIf
    (!state.constantTimeEq callback.state
        || callback.redirectUri ≠ redirectUri
        || !callback.code.isBoundedAscii)
    .invalidPkceCallback
  ensureBefore deadline
  let response ← send config
    (WireRequest.exchangePkce crates config.publicClientId callback.code verifier redirectUri nonce
      display) deadline
  let session ← validateSession crates config response provider nonce none
  publishLogin crates config session

/-- `ensure_before` with its error mapped, as the device login does. -/
def ensureNotExpired (deadline : Nat) : AccountProg Unit := do
  match ← (attempt (ensureBefore deadline) : AccountProg (AccountResult Unit)) with
  | .ok _ => return ()
  | .error _ => fail .deviceAuthorizationExpired

/-- The polling loop of `login_device`; `turns` bounds how often it is followed. -/
def pollDevice (provider : ValidatedProvider) (nonce deviceCode : SecretString)
    (deadline : Nat) : (turns interval : Nat) → AccountProg LoginResult
  | 0, _ => .spent
  | turns + 1, interval => do
    let cancelled ← raise .cancelled
    failIf cancelled .cancelled
    ensureNotExpired deadline
    let _ ← raise (.sleep (.fromSecs interval))
    let cancelled ← raise .cancelled
    failIf cancelled .cancelled
    ensureNotExpired deadline
    let response ← send config
      (WireRequest.pollDevice crates config.publicClientId deviceCode) deadline
    if response.status = 200 then do
      let session ← validateSession crates config response provider nonce none
      publishLogin crates config session
    else do
      match ← ofExcept (devicePollError crates response) with
      | .pending => pollDevice provider nonce deviceCode deadline turns interval
      | .slowDown =>
        pollDevice provider nonce deviceCode deadline turns
          (min (interval + deviceSlowDownSeconds) maxDevicePollIntervalSeconds)
      | .denied => fail .authorizationDenied
      | .expired => fail .deviceAuthorizationExpired
      | .cancelled => fail .cancelled

def loginDevice (display : DeviceDisplay) (turns : Nat) : AccountProg LoginResult := do
  ensureSignedOut
  failIf (!display.validate) .unsafeRequest
  let started ← nowUnix
  let overallDeadline := saturatingAdd started config.deviceTimeout.asSecs
  let provider ← discoverProvider crates config overallDeadline
  let nonce ← freshSecret crates
  let response ← send config
    (WireRequest.beginDevice crates config.publicClientId nonce display) overallDeadline
  let authorization ← ofExcept (parseSuccess crates crates.decodeDeviceAuthorization response 200)
  let deviceCode : SecretString := ⟨authorization.deviceCode⟩
  failIf
    (!deviceCode.isBoundedAscii
        || !validUserCode authorization.userCode
        || !(1 ≤ authorization.intervalSeconds
        && authorization.intervalSeconds ≤ maxDevicePollIntervalSeconds))
    .invalidResponse
  let now ← nowUnix
  failIf
    (authorization.expiresAt ≤ now
        || authorization.expiresAt > saturatingAdd started config.deviceTimeout.asSecs)
    .invalidResponse
  ofExcept (config.validateFirstPartyVerificationUrl authorization.verificationUri)
  let prompt : DeviceAuthorizationPrompt :=
    { userCode := authorization.userCode, verificationUri := authorization.verificationUri,
      expiresAt := authorization.expiresAt, intervalSeconds := authorization.intervalSeconds,
      display }
  ofExcept (← raise (.display prompt))
  pollDevice crates config provider nonce deviceCode (min overallDeadline prompt.expiresAt) turns
    prompt.intervalSeconds

def offlineStale (stored : StoredCredential) : AccountStatus :=
  { version := 1, state := .offlineStale, accountId := some stored.accountId,
    deviceId := some stored.deviceId, stale := true }

def status : AccountProg AccountStatus := do
  match ← load with
  | none => return .signedOut .signedOut
  | some stored =>
    match ← attemptRefresh crates config with
    | .ok active =>
      match ← trySend config (WireRequest.getAccount crates active.accessToken) u64Max with
      | .ok response =>
        let account ← ofExcept (parseSuccess crates crates.decodeAccount response 200)
        failIf (account.accountId ≠ active.credential.accountId) .invalidResponse
        return { version := 1, state := .online, accountId := some account.accountId,
                 deviceId := some active.credential.deviceId, stale := false }
      | .error .offline | .error .deadlineExceeded => return offlineStale stored
      | .error error => fail error
    | .error .offline | .error .deadlineExceeded => return offlineStale stored
    | .error .refreshReuseDetected | .error .sessionRevoked => return .signedOut .revoked
    | .error error => fail error

/-- Revoke the listed devices one after the other. -/
def revokeEach (accessToken : SecretString) : List DeviceSummary → AccountProg Unit
  | [] => return ()
  | device :: rest => do
    let response ← send config (WireRequest.revokeDevice crates accessToken device.deviceId) u64Max
    ofExcept (expectEmptySuccess crates response 204)
    revokeEach accessToken rest

/-- What `logout` does once the session is refreshed. -/
def revokeAndForget (scope : LogoutScope) (active : ActiveSession) : AccountProg LogoutResult := do
  runIf (scope = .allDevices) do
    let devices ← listDevicesWithAccess crates config active.accessToken
    revokeEach crates config active.accessToken devices.devices
  let response ← send config (WireRequest.revoke crates active.accessToken) u64Max
  ofExcept (expectEmptySuccess crates response 204)
  let removed ← delete
  return { version := 1,
           status := match scope with
             | .currentSession => "session_revoked"
             | .allDevices => "all_devices_revoked",
           remoteRevoked := true, localCredentialRemoved := removed, warning := none }

def logout (scope : LogoutScope) (localPolicy : LocalLogoutPolicy) : AccountProg LogoutResult := do
  match ← load with
  | none =>
    return { version := 1, status := "already_signed_out", remoteRevoked := false,
             localCredentialRemoved := false, warning := none }
  | some _ =>
    if localPolicy = .confirmedLocalOnly then do
      let removed ← delete
      return { version := 1, status := "local_only", remoteRevoked := false,
               localCredentialRemoved := removed,
               warning := some ("remote session remains valid until expiry or revocation "
                 ++ "from the account web UI") }
    else do
      match ← attemptRefresh crates config with
      | .ok active => revokeAndForget crates config scope active
      | .error error =>
        if (error = .refreshReuseDetected || error = .sessionRevoked)
            && scope = .currentSession then do
          let removed ← delete
          return { version := 1, status := "session_revoked", remoteRevoked := true,
                   localCredentialRemoved := removed, warning := none }
        else if error = .offline || error = .deadlineExceeded then
          fail .remoteRevocationUnconfirmed
        else fail error

def link (providerName : Text) : AccountProg LinkResult := do
  let active ← refreshAccess crates config
  let response ← send config (WireRequest.beginLink crates active.accessToken providerName) u64Max
  let link ← ofExcept (parseSuccess crates crates.decodeLink response 202)
  ofExcept (config.validateFirstPartyVerificationUrl link.verificationUri)
  let now ← nowUnix
  failIf (link.expiresAt ≤ now) .invalidResponse
  let now ← nowUnix
  failIf (link.expiresAt > saturatingAdd now config.interactiveTimeout.asSecs) .invalidResponse
  ofExcept (← raise (.openUri link.verificationUri))
  return { version := 1, status := "fresh_auth_required", verificationUri := link.verificationUri,
           expiresAt := link.expiresAt }

def unlink (externalIdentityId : Uuid) : AccountProg UnlinkResult := do
  let active ← refreshAccess crates config
  let response ← send config
    (WireRequest.unlink crates active.accessToken externalIdentityId) u64Max
  ofExcept (expectEmptySuccess crates response 204)
  return { version := 1, status := "unlinked", externalIdentityId }

/-- Whether one of the identities is refused; the clock is read for each in turn. -/
def anyInvalidIdentity : List ExternalIdentitySummary → AccountProg Bool
  | [] => return false
  | identity :: rest => do
    if identity.externalIdentityId.isNil then return true
    else do
      let now ← nowUnix
      if identity.linkedAt > now then return true
      else if (config.validateOidcUrl identity.issuer false).toOption.isNone then return true
      else anyInvalidIdentity rest

def externalIdentities : AccountProg ExternalIdentityList := do
  let active ← refreshAccess crates config
  let response ← send config (WireRequest.listExternalIdentities crates active.accessToken) u64Max
  let wire ← ofExcept (parseSuccess crates crates.decodeExternalIdentities response 200)
  failIf (wire.externalIdentities.length > 100) .invalidResponse
  let invalid ← anyInvalidIdentity config wire.externalIdentities
  failIf invalid .invalidResponse
  return { version := 1, externalIdentities := wire.externalIdentities }

def devices : AccountProg DeviceList := do
  let active ← refreshAccess crates config
  listDevicesWithAccess crates config active.accessToken

def revokeDevice (deviceId : Uuid) : AccountProg DeviceRevokeResult := do
  let active ← refreshAccess crates config
  let response ← send config (WireRequest.revokeDevice crates active.accessToken deviceId) u64Max
  ofExcept (expectEmptySuccess crates response 204)
  runIf (deviceId = active.credential.deviceId) (discard delete)
  return { version := 1, status := "revoked", deviceId }

end

/-! ## Clients -/

/-- A client has a configuration that passed its checks. -/
structure AccountClient where
  config : AccountClientConfig
  valid : config.validate = .ok ()

inductive Operation where
  | loginPkce (display : DeviceDisplay)
  | loginDevice (display : DeviceDisplay) (turns : Nat)
  | status
  | logout (scope : LogoutScope) (localPolicy : LocalLogoutPolicy)
  | link (providerName : Text)
  | unlink (externalIdentityId : Uuid)
  | externalIdentities
  | devices
  | revokeDevice (deviceId : Uuid)

def Operation.program (crates : External) (client : AccountClient) : Operation → AccountProg Unit
  | .loginPkce display => discard (Account.loginPkce crates client.config display)
  | .loginDevice display turns => discard (Account.loginDevice crates client.config display turns)
  | .status => discard (Account.status crates client.config)
  | .logout scope localPolicy => discard (Account.logout crates client.config scope localPolicy)
  | .link providerName => discard (Account.link crates client.config providerName)
  | .unlink id => discard (Account.unlink crates client.config id)
  | .externalIdentities => discard (Account.externalIdentities crates client.config)
  | .devices => discard (Account.devices crates client.config)
  | .revokeDevice id => discard (Account.revokeDevice crates client.config id)

/-! ## Lemmas -/

variable {crates : External} {config : AccountClientConfig}

theorem endpoint_of_json {endpoint : AccountEndpoint} {token : Option SecretString}
    {content : WireContent} {request : WireRequest}
    (h : WireRequest.json crates endpoint token content = .ok request) :
    request.endpoint = endpoint := by
  unfold WireRequest.json at h
  split at h
  next => cases h
  next body _ =>
    obtain ⟨_, _, hrequest⟩ := except_bind_eq_ok.mp h
    cases hrequest
    rfl

theorem checkSessionWire_ok {response : WireResponse} {wire : SessionWire}
    (h : checkSessionWire crates response = .ok wire) :
    crates.decodeSession response.body = some wire := by
  unfold checkSessionWire at h
  obtain ⟨w, hw, h⟩ := except_bind_eq_ok.mp h
  obtain ⟨_, _, h⟩ := except_bind_eq_ok.mp h
  obtain ⟨_, _, h⟩ := except_bind_eq_ok.mp h
  cases h
  unfold parseSuccess at hw
  split at hw
  next => cases hw
  next =>
    split at hw
    next d hd => cases hw; exact hd
    next => cases hw

/-- What an accepted session holds: the identity and the token of the response, the subject of
its id token, and the issuer and the audience of the configuration. -/
structure Accepted (crates : External) (config : AccountClientConfig)
    (expected : Option StoredCredential) (wire : SessionWire) (c : StoredCredential) : Prop where
  continues : continuesSession config wire expected = true
  accountId : c.accountId = wire.accountId
  deviceId : c.deviceId = wire.deviceId
  tokenFamilyId : c.tokenFamilyId = wire.tokenFamilyId
  refreshGeneration : c.refreshGeneration = wire.refreshGeneration
  issuer : c.issuer = config.issuer
  audience : c.audience = config.audience
  refreshToken : c.refreshToken = ⟨wire.refreshToken⟩

theorem sessionVerdict_ok {provider : ValidatedProvider} {nonce : SecretString}
    {expected : Option StoredCredential} {response : WireResponse} {now : Nat}
    {session : ActiveSession}
    (h : sessionVerdict crates config provider nonce expected response now = .ok session) :
    ∃ wire, crates.decodeSession response.body = some wire
      ∧ Accepted crates config expected wire session.credential := by
  obtain ⟨wire, hw, h⟩ := except_bind_eq_ok.mp h
  obtain ⟨subject, _, h⟩ := except_bind_eq_ok.mp h
  obtain ⟨_, hcont, h⟩ := except_bind_eq_ok.mp h
  obtain ⟨credential, hnew, h⟩ := except_bind_eq_ok.mp h
  cases h
  have hfields := StoredCredential.new_eq_ok hnew
  have hcont : continuesSession config wire expected = true := by simpa using hcont
  refine ⟨wire, checkSessionWire_ok hw, ⟨hcont, ?_, ?_, ?_, ?_, ?_, ?_, ?_⟩⟩ <;> simp [hfields]

/-- One credential is the next of another in a token family; the subject is not compared. -/
structure Rotates (d c : StoredCredential) : Prop where
  accountId : c.accountId = d.accountId
  deviceId : c.deviceId = d.deviceId
  tokenFamilyId : c.tokenFamilyId = d.tokenFamilyId
  issuer : c.issuer = d.issuer
  audience : c.audience = d.audience
  refreshGeneration : c.refreshGeneration = d.refreshGeneration + 1
  refreshToken : c.refreshToken ≠ d.refreshToken

theorem Accepted.rotates {d c : StoredCredential} {wire : SessionWire}
    (h : Accepted crates config (some d) wire c) : Rotates d c := by
  have hc := h.continues
  simp only [continuesSession, Bool.and_eq_true, decide_eq_true_eq, Bool.not_eq_true'] at hc
  obtain ⟨⟨⟨⟨⟨⟨⟨hacc, hdev⟩, hfam⟩, hiss⟩, haud⟩, _⟩, hgen⟩, htok⟩ := hc
  refine ⟨h.accountId.trans hacc, h.deviceId.trans hdev, h.tokenFamilyId.trans hfam,
    h.issuer.trans hiss.symm, h.audience.trans haud.symm, h.refreshGeneration.trans hgen, ?_⟩
  intro heq
  rw [h.refreshToken] at heq
  rw [heq] at htok
  simp [SecretString.constantTimeEq] at htok

theorem Accepted.first {c : StoredCredential} {wire : SessionWire}
    (h : Accepted crates config none wire c) : c.refreshGeneration = 0 := by
  have hc := h.continues
  simp only [continuesSession, decide_eq_true_eq] at hc
  exact h.refreshGeneration.trans hc

end Kaleidoscope.Account
