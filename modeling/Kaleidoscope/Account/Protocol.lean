import Kaleidoscope.Account.Model

/-!
# Account protocol

The closed list of endpoints, the configuration, the requests with their privacy check, and
the reading of responses.  `External` collects what the client takes from other crates: the
URL parser, the JSON codec of each wire type, base64, SHA-2 and RSA.
-/

namespace Kaleidoscope.Account

def maxAccountBodyBytes : Nat := 64 * 1024
def maxOidcDocumentBytes : Nat := 1024 * 1024

/-! ## Endpoints -/

inductive HttpMethod where
  | delete
  | get
  | post
  deriving DecidableEq

inductive Authentication where
  | publicNativeClient
  | accountAccessToken
  | externalIdentityLinkState
  deriving DecidableEq

inductive AccountEndpoint where
  | exchangePkce
  | beginDeviceAuthorization
  | pollDeviceAuthorization
  | refresh
  | revokeTokenFamily
  | getAccount
  | beginExternalIdentityLink
  | completeExternalIdentityLink
  | listExternalIdentities
  | unlinkExternalIdentity (id : Uuid)
  | listDevices
  | revokeDevice (id : Uuid)
  | listAuditEvents
  deriving DecidableEq

/-! ## Wire types -/

/-- The bodies of requests, before serialization. -/
inductive WireContent where
  | exchangePkce (clientId code codeVerifier redirectUri nonce : Text) (device : DeviceDisplay)
  | beginDevice (clientId nonce : Text) (device : DeviceDisplay)
  | pollDevice (clientId deviceCode : Text)
  | refresh (clientId refreshToken nonce : Text)
  | beginLink (provider : Text)
  | empty
  deriving DecidableEq

structure WireResponse where
  status : Nat
  body : Bytes
  deriving DecidableEq

structure SessionWire where
  tokenType : Text
  accessToken : Text
  refreshToken : Text
  idToken : Text
  expiresIn : Nat
  accountId : Uuid
  deviceId : Uuid
  tokenFamilyId : Uuid
  refreshGeneration : Nat
  deriving DecidableEq

structure DeviceAuthorizationWire where
  deviceCode : Text
  userCode : Text
  verificationUri : Url
  expiresAt : Nat
  intervalSeconds : Nat

structure AccountWire where
  accountId : Uuid

structure LinkWire where
  verificationUri : Url
  expiresAt : Nat

structure ExternalIdentitiesWire where
  externalIdentities : List ExternalIdentitySummary

structure DevicesWire where
  devices : List DeviceSummary

structure ErrorWire where
  error : Text

structure DiscoveryDocument where
  issuer : Url
  authorizationEndpoint : Url
  jwksUri : Url
  idTokenSigningAlgValuesSupported : List Text

structure RsaJwk where
  kty : Text
  kid : Text
  use : Option Text
  alg : Option Text
  n : Text
  e : Text

structure JwkSet where
  keys : List RsaJwk

structure TokenHeader where
  alg : Text
  kid : Text
  typ : Option Text
  crit : Option (List Text)

inductive AudienceClaim where
  | one (audience : Text)
  | many (audiences : List Text)

structure TokenClaims where
  iss : Text
  aud : AudienceClaim
  azp : Option Text
  sub : Text
  exp : Nat
  iat : Nat
  nonce : Option Text

/-- What the client takes from other crates. -/
structure External where
  parseUrl : Text → Option Url
  /-- `query_pairs_mut().append_pair(..)` for each pair in turn -/
  appendPairs : Url → List (Text × Text) → Url
  showUuid : Uuid → Text
  parseUuid : Text → Option Uuid
  /-- `serde_json::to_vec` of a request body -/
  toVec : WireContent → Option Bytes
  /-- `serde_json::from_slice`, one function for each type -/
  decodeValue : Bytes → Option Value
  decodeSession : Bytes → Option SessionWire
  decodeDeviceAuthorization : Bytes → Option DeviceAuthorizationWire
  decodeAccount : Bytes → Option AccountWire
  decodeLink : Bytes → Option LinkWire
  decodeExternalIdentities : Bytes → Option ExternalIdentitiesWire
  decodeDevices : Bytes → Option DevicesWire
  decodeError : Bytes → Option ErrorWire
  decodeDiscovery : Bytes → Option DiscoveryDocument
  decodeJwks : Bytes → Option JwkSet
  decodeHeader : Bytes → Option TokenHeader
  decodeClaims : Bytes → Option TokenClaims
  /-- the URL-safe alphabet without padding -/
  encodeBase64 : Bytes → Text
  decodeBase64 : Text → Option Bytes
  sha256 : Bytes → Bytes
  /-- whether the modulus and the exponent make an RSA key -/
  rsaKey : Bytes → Bytes → Bool
  /-- the signature check of an algorithm under a modulus and an exponent -/
  rsaVerify : Text → Bytes → Bytes → Bytes → Bytes → Bool

variable (crates : External)

namespace AccountEndpoint

def method : AccountEndpoint → HttpMethod
  | .getAccount | .listExternalIdentities | .listDevices | .listAuditEvents => .get
  | .unlinkExternalIdentity _ => .delete
  | .exchangePkce | .beginDeviceAuthorization | .pollDeviceAuthorization | .refresh
  | .revokeTokenFamily | .beginExternalIdentityLink | .completeExternalIdentityLink
  | .revokeDevice _ => .post

def authentication : AccountEndpoint → Authentication
  | .exchangePkce | .beginDeviceAuthorization | .pollDeviceAuthorization | .refresh =>
    .publicNativeClient
  | .completeExternalIdentityLink => .externalIdentityLinkState
  | .revokeTokenFamily | .getAccount | .beginExternalIdentityLink | .listExternalIdentities
  | .unlinkExternalIdentity _ | .listDevices | .revokeDevice _ | .listAuditEvents =>
    .accountAccessToken

def path : AccountEndpoint → Text
  | .exchangePkce => "/v1/login/pkce/exchange".toList
  | .beginDeviceAuthorization => "/v1/device-authorizations".toList
  | .pollDeviceAuthorization => "/v1/device-authorizations/token".toList
  | .refresh => "/v1/token/refresh".toList
  | .revokeTokenFamily => "/v1/token/revoke".toList
  | .getAccount => "/v1/account".toList
  | .beginExternalIdentityLink => "/v1/external-identities/link".toList
  | .completeExternalIdentityLink => "/v1/external-identities/link/complete".toList
  | .listExternalIdentities => "/v1/external-identities".toList
  | .unlinkExternalIdentity id => "/v1/external-identities/".toList ++ crates.showUuid id
  | .listDevices => "/v1/devices".toList
  | .revokeDevice id => "/v1/devices/".toList ++ crates.showUuid id ++ "/revoke".toList
  | .listAuditEvents => "/v1/audit-events".toList

/-- The endpoints whose path holds no identifier. -/
def fixed : List AccountEndpoint :=
  [.exchangePkce, .beginDeviceAuthorization, .pollDeviceAuthorization, .refresh,
    .revokeTokenFamily, .getAccount, .beginExternalIdentityLink, .completeExternalIdentityLink,
    .listExternalIdentities, .listDevices, .listAuditEvents]

def parse (method : HttpMethod) (path : Text) : AccountResult AccountEndpoint :=
  match fixed.find? fun endpoint => endpoint.method = method ∧ endpoint.path crates = path with
  | some endpoint => .ok endpoint
  | none =>
    let unlink :=
      if method = .delete then Text.stripPrefix "/v1/external-identities/".toList path else none
    let revoke :=
      if method = .post then
        (Text.stripPrefix "/v1/devices/".toList path).bind (Text.stripSuffix "/revoke".toList)
      else none
    match unlink, revoke with
    | some id, _ =>
      match crates.parseUuid id with
      | some id => .ok (.unlinkExternalIdentity id)
      | none => .error .unsafeRequest
    | none, some id =>
      match crates.parseUuid id with
      | some id => .ok (.revokeDevice id)
      | none => .error .unsafeRequest
    | none, none => .error .unsafeRequest

end AccountEndpoint

/-! ## Configuration -/

structure AccountClientConfig where
  controlPlaneOrigin : Url
  issuer : Url
  audience : Text
  publicClientId : Text
  loopbackCallbackPath : Text
  requestTimeout : Duration
  interactiveTimeout : Duration
  deviceTimeout : Duration
  allowedOidcOrigins : List Text

def validateHttpsUrl (url : Url) (allowQuery : Bool) : AccountResult Unit :=
  if url.scheme ≠ "https".toList
      || url.host.isNone
      || !url.username.isEmpty
      || url.password.isSome
      || (!allowQuery && url.query.isSome)
      || url.fragment.isSome then
    .error (.invalidConfiguration
      "account and OIDC endpoints require credential-free HTTPS URLs")
  else .ok ()

def originKey (url : Url) : AccountResult Text := do
  validateHttpsUrl url true
  return url.origin

namespace AccountClientConfig

/-- The two identifiers of the configuration are bounded ASCII without white space. -/
def validIdentifier (identifier : Text) : Bool :=
  !identifier.isEmpty && Text.byteLen identifier ≤ 200 && Text.isAscii identifier
    && !identifier.any Text.isAsciiWhitespace

def validCallbackPath (callback : Text) : Bool :=
  "/".toList.isPrefixOf callback && Text.byteLen callback ≤ 120
    && !callback.any (fun c => c == '?' || c == '#')
    && !Text.contains callback "..".toList

def validate (config : AccountClientConfig) : AccountResult Unit := do
  validateHttpsUrl config.controlPlaneOrigin false
  rejectIf
    (config.controlPlaneOrigin.path ≠ "/".toList || config.controlPlaneOrigin.query.isSome
        || config.controlPlaneOrigin.fragment.isSome)
    (.invalidConfiguration "control-plane origin must not contain a path, query, or fragment")
  validateHttpsUrl config.issuer false
  rejectIf
    (config.issuer.query.isSome || config.issuer.fragment.isSome)
    (.invalidConfiguration "issuer must not contain a query or fragment")
  rejectIf
    (!(validIdentifier config.audience && validIdentifier config.publicClientId))
    (.invalidConfiguration "audience and client id must be bounded ASCII identifiers")
  rejectIf
    (!validCallbackPath config.loopbackCallbackPath)
    (.invalidConfiguration "loopback callback path is invalid")
  rejectIf
    (!(config.requestTimeout.within 1 60 && config.interactiveTimeout.within 30 900
        && config.deviceTimeout.within 30 900))
    (.invalidConfiguration "account deadlines are outside the closed bounds")
  let issuerOrigin ← originKey config.issuer
  rejectIf
    (!config.allowedOidcOrigins.contains issuerOrigin)
    (.invalidConfiguration "issuer origin must be explicitly allowlisted")

def validateOidcUrl (config : AccountClientConfig) (url : Url) (allowQuery : Bool) :
    AccountResult Unit := do
  validateHttpsUrl url allowQuery
  let origin ← originKey url
  rejectIf
    (!config.allowedOidcOrigins.contains origin)
    (.invalidConfiguration "OIDC endpoint origin is not allowlisted")

def validateFirstPartyVerificationUrl (config : AccountClientConfig) (url : Url) :
    AccountResult Unit := do
  validateHttpsUrl url true
  let origin ← originKey url
  let home ← originKey config.controlPlaneOrigin
  rejectIf (origin ≠ home) .invalidResponse

end AccountClientConfig

/-! ## The privacy check of request bodies -/

def forbiddenFields : List Text :=
  ["compiledcontext", "context", "journal", "localpath", "memory", "memoryid",
    "modelprovidertoken", "ontology", "principal", "principalid", "profile", "profileid",
    "prompt", "query", "remember", "root", "search", "searchquery", "semanticdelta",
    "semanticentity", "semanticfact", "semanticfacts", "toolpayload", "vault", "vaultfile",
    "workspace", "workspaceid"].map String.toList

/-- A field name with its ASCII letters and digits only, in lower case. -/
def normalizeField (key : Text) : Text :=
  (key.filter Text.isAsciiAlphanumeric).map Char.toLower

mutual

def validateAccountValue : Value → Bool
  | .object members => validateAccountMembers members
  | .array items => validateAccountItems items
  | .string value => !looksLikeAbsolutePath value
  | .null | .bool _ | .number _ => true

def validateAccountItems : List Value → Bool
  | [] => true
  | child :: rest => validateAccountValue child && validateAccountItems rest

def validateAccountMembers : List (Text × Value) → Bool
  | [] => true
  | (key, child) :: rest =>
    !forbiddenFields.contains (normalizeField key)
      && validateAccountValue child
      && validateAccountMembers rest

end

def validateAccountPayload (bytes : Bytes) : AccountResult Unit :=
  if bytes.size > maxAccountBodyBytes then .error .unsafeRequest
  else match crates.decodeValue bytes with
    | none => .error .unsafeRequest
    | some value => if validateAccountValue value then .ok () else .error .unsafeRequest

/-! ## Requests -/

structure WireRequest where
  endpoint : AccountEndpoint
  accessToken : Option SecretString
  /-- what the body was made from; none for an empty body -/
  content : Option WireContent
  body : Bytes
  deriving DecidableEq

namespace WireRequest

def validate (request : WireRequest) : AccountResult Unit := do
  let reparsed ← AccountEndpoint.parse crates request.endpoint.method (request.endpoint.path crates)
  rejectIf
    (reparsed ≠ request.endpoint
        || (request.endpoint.authentication == .accountAccessToken) != request.accessToken.isSome
        || request.accessToken.any (fun token => !token.isBoundedAscii)
        || request.body.size > maxAccountBodyBytes)
    .unsafeRequest
  if !request.body.isEmpty then validateAccountPayload crates request.body

def json (endpoint : AccountEndpoint) (accessToken : Option SecretString)
    (content : WireContent) : AccountResult WireRequest :=
  match crates.toVec content with
  | none => .error .unsafeRequest
  | some body => do
    let request : WireRequest := { endpoint, accessToken, content := some content, body }
    request.validate crates
    return request

def publicJson (endpoint : AccountEndpoint) (content : WireContent) : AccountResult WireRequest :=
  json crates endpoint none content

def accountJson (endpoint : AccountEndpoint) (accessToken : SecretString)
    (content : WireContent) : AccountResult WireRequest :=
  json crates endpoint (some accessToken) content

def accountEmpty (endpoint : AccountEndpoint) (accessToken : SecretString) :
    AccountResult WireRequest := do
  let request : WireRequest :=
    { endpoint, accessToken := some accessToken, content := none, body := ByteArray.empty }
  request.validate crates
  return request

def exchangePkce (clientId : Text) (code verifier : SecretString) (redirectUri : Url)
    (nonce : SecretString) (display : DeviceDisplay) : AccountResult WireRequest :=
  publicJson crates .exchangePkce
    (.exchangePkce clientId code.expose verifier.expose redirectUri.serialization nonce.expose
      display)

def beginDevice (clientId : Text) (nonce : SecretString) (display : DeviceDisplay) :
    AccountResult WireRequest :=
  publicJson crates .beginDeviceAuthorization (.beginDevice clientId nonce.expose display)

def pollDevice (clientId : Text) (deviceCode : SecretString) : AccountResult WireRequest :=
  publicJson crates .pollDeviceAuthorization (.pollDevice clientId deviceCode.expose)

def refresh (clientId : Text) (refreshToken nonce : SecretString) : AccountResult WireRequest :=
  publicJson crates .refresh (.refresh clientId refreshToken.expose nonce.expose)

def revoke (accessToken : SecretString) : AccountResult WireRequest :=
  accountJson crates .revokeTokenFamily accessToken .empty

def getAccount (accessToken : SecretString) : AccountResult WireRequest :=
  accountEmpty crates .getAccount accessToken

def validateProvider (provider : Text) : AccountResult Unit :=
  if provider.isEmpty || Text.byteLen provider > 64 || !Text.isAscii provider
      || !provider.all (fun c => Text.isAsciiAlphanumeric c || c == '-' || c == '_' || c == '.')
  then .error .unsafeRequest
  else .ok ()

def beginLink (accessToken : SecretString) (provider : Text) : AccountResult WireRequest := do
  validateProvider provider
  accountJson crates .beginExternalIdentityLink accessToken (.beginLink provider)

def unlink (accessToken : SecretString) (externalIdentityId : Uuid) :
    AccountResult WireRequest :=
  accountEmpty crates (.unlinkExternalIdentity externalIdentityId) accessToken

def listExternalIdentities (accessToken : SecretString) : AccountResult WireRequest :=
  accountEmpty crates .listExternalIdentities accessToken

def listDevices (accessToken : SecretString) : AccountResult WireRequest :=
  accountEmpty crates .listDevices accessToken

def revokeDevice (accessToken : SecretString) (deviceId : Uuid) : AccountResult WireRequest :=
  accountJson crates (.revokeDevice deviceId) accessToken .empty

end WireRequest

/-! ## Responses -/

def mapErrorResponse (response : WireResponse) : AccountError :=
  if response.status = 429 then .rateLimited
  else
    let code := (crates.decodeError response.body).map ErrorWire.error
    if code = some "authorization_pending".toList || code = some "slow_down".toList then
      .invalidResponse
    else if code = some "access_denied".toList then .authorizationDenied
    else if code = some "expired_token".toList then .deviceAuthorizationExpired
    else if code = some "cancelled".toList then .cancelled
    else if code = some "token_reuse".toList then .refreshReuseDetected
    else if code = some "invalid_grant".toList || code = some "session_revoked".toList then
      .sessionRevoked
    else if response.status ≥ 500 then .offline
    else .invalidResponse

def parseSuccess {T : Type} (decode : Bytes → Option T) (response : WireResponse)
    (expectedStatus : Nat) : AccountResult T :=
  if response.status ≠ expectedStatus || response.body.size > maxAccountBodyBytes then
    .error (mapErrorResponse crates response)
  else match decode response.body with
    | some wire => .ok wire
    | none => .error .invalidResponse

def expectEmptySuccess (response : WireResponse) (expectedStatus : Nat) : AccountResult Unit :=
  if response.status = expectedStatus
      && (response.body.isEmpty || (crates.decodeValue response.body).any Value.isNull) then
    .ok ()
  else .error (mapErrorResponse crates response)

inductive DevicePollError where
  | pending
  | slowDown
  | denied
  | expired
  | cancelled
  deriving DecidableEq

def devicePollError (response : WireResponse) : AccountResult DevicePollError :=
  if response.status ≠ 400 then .error (mapErrorResponse crates response)
  else match crates.decodeError response.body with
    | none => .error .invalidResponse
    | some wire =>
      if wire.error = "authorization_pending".toList then .ok .pending
      else if wire.error = "slow_down".toList then .ok .slowDown
      else if wire.error = "access_denied".toList then .ok .denied
      else if wire.error = "expired_token".toList then .ok .expired
      else if wire.error = "cancelled".toList then .ok .cancelled
      else .error .invalidResponse

/-! ## The authorization request -/

def pkceChallenge (verifier : SecretString) : Text :=
  crates.encodeBase64 (crates.sha256 (Text.utf8 verifier.expose))

def buildAuthorizationUrl (endpoint : Url) (clientId : Text) (redirectUri : Url)
    (state nonce : SecretString) (challenge : Text) : Url :=
  crates.appendPairs endpoint
    [("client_id".toList, clientId),
      ("response_type".toList, "code".toList),
      ("redirect_uri".toList, redirectUri.serialization),
      ("scope".toList, "openid profile".toList),
      ("state".toList, state.expose),
      ("nonce".toList, nonce.expose),
      ("code_challenge".toList, challenge),
      ("code_challenge_method".toList, "S256".toList)]

end Kaleidoscope.Account
