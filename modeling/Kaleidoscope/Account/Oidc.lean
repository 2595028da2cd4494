import Kaleidoscope.Account.Protocol

/-!
# OIDC provider

The checks of the discovery document, of the key set and of an id token.  Fetching the two
documents is part of the client's program (`discover` in `Client`); here are the checks
between and after the fetches.
-/

namespace Kaleidoscope.Account

def maxCompactTokenBytes : Nat := 16 * 1024
def maxJwtPartBytes : Nat := 12 * 1024
def clockSkewSeconds : Nat := 60

structure ValidatedProvider where
  discovery : DiscoveryDocument
  jwks : JwkSet

variable (crates : External)

def isSupportedAlgorithm (value : Text) : Bool :=
  ["RS256", "RS384", "RS512", "PS256", "PS384", "PS512"].any fun name => name.toList == value

def discoveryUrl (issuer : Url) : AccountResult Url :=
  match crates.parseUrl (Text.trimEndMatches '/' issuer.serialization
      ++ "/.well-known/openid-configuration".toList) with
  | some url => .ok url
  | none => .error .oidcVerification

def parseDocument {T : Type} (decode : Bytes → Option T) (response : WireResponse) :
    AccountResult T :=
  if response.status ≠ 200 || response.body.size > maxOidcDocumentBytes then
    .error .oidcVerification
  else match decode response.body with
    | some document => .ok document
    | none => .error .oidcVerification

/-- What `discover` checks of the discovery document before it fetches the keys. -/
def checkDiscovery (config : AccountClientConfig) (response : WireResponse) :
    AccountResult DiscoveryDocument := do
  let discovery ← parseDocument crates.decodeDiscovery response
  rejectIf (discovery.issuer ≠ config.issuer) .oidcVerification
  config.validateOidcUrl discovery.authorizationEndpoint true
  config.validateOidcUrl discovery.jwksUri false
  rejectIf
    (discovery.idTokenSigningAlgValuesSupported.isEmpty
        || !discovery.idTokenSigningAlgValuesSupported.any isSupportedAlgorithm)
    .oidcVerification
  return discovery

/-- What `discover` checks of the key set. -/
def checkJwks (response : WireResponse) : AccountResult JwkSet := do
  let jwks ← parseDocument crates.decodeJwks response
  rejectIf (jwks.keys.isEmpty || jwks.keys.length > 100) .oidcVerification
  return jwks

def decodePart (value : Text) : AccountResult Bytes :=
  if Text.byteLen value > maxJwtPartBytes || value.any (· == '=') then .error .oidcVerification
  else match crates.decodeBase64 value with
    | some bytes => .ok bytes
    | none => .error .oidcVerification

def decodeJsonPart {T : Type} (decode : Bytes → Option T) (value : Text) : AccountResult T := do
  let bytes ← decodePart crates value
  match decode bytes with
  | some part => .ok part
  | none => .error .oidcVerification

def decodeJwkComponent (value : Text) : AccountResult Bytes := do
  let bytes ← decodePart crates value
  rejectIf (bytes.isEmpty || bytes.size > 1024 || bytes.data[0]? = some 0) .oidcVerification
  return bytes

/-- The nonce of the claims is the expected one; neither may be there alone. -/
def checkNonce : Option SecretString → Option SecretString → AccountResult Unit
  | some expected, some actual =>
    rejectIf (!actual.isBoundedAscii || !expected.constantTimeEq actual) .oidcVerification
  | some _, none | none, some _ => .error .oidcVerification
  | none, none => .ok ()

def validateClaims (config : AccountClientConfig) (claims : TokenClaims)
    (expectedNonce : Option SecretString) (nowUnix : Nat) : AccountResult Text := do
  rejectIf
    (claims.iss ≠ config.issuer.serialization
        || claims.sub.isEmpty
        || Text.byteLen claims.sub > 512
        || claims.sub.any Text.isControl
        || claims.exp ≤ nowUnix
        || claims.iat > saturatingAdd nowUnix clockSkewSeconds
        || claims.exp ≤ claims.iat)
    .oidcVerification
  let audiences := match claims.aud with
    | .one audience => [audience]
    | .many audiences => audiences
  rejectIf
    (audiences.isEmpty
        || audiences.length > 16
        || audiences.dedup.length ≠ audiences.length
        || !audiences.contains config.audience
        || audiences.any (fun value =>
          value.isEmpty || Text.byteLen value > 512 || !Text.isAscii value)
        || (audiences.length > 1 && claims.azp ≠ some config.publicClientId)
        || claims.azp.any (· ≠ config.publicClientId))
    .oidcVerification
  checkNonce expectedNonce (claims.nonce.map SecretString.mk)
  return claims.sub

/-- The checks of the token's header against the discovery document. -/
def validHeader (discovery : DiscoveryDocument) (header : TokenHeader) : Bool :=
  !header.kid.isEmpty
    && Text.byteLen header.kid ≤ 256
    && !header.kid.any Text.isControl
    && header.crit.isNone
    && !header.typ.any (· ≠ "JWT".toList)
    && discovery.idTokenSigningAlgValuesSupported.contains header.alg

def ValidatedProvider.verifyIdToken (provider : ValidatedProvider) (config : AccountClientConfig)
    (idToken : SecretString) (nonce : Option SecretString) (nowUnix : Nat) :
    AccountResult Text := do
  let compact := idToken.expose
  rejectIf (Text.byteLen compact > maxCompactTokenBytes || !Text.isAscii compact) .oidcVerification
  match Text.split '.' compact with
  | [encodedHeader, encodedClaims, encodedSignature] =>
    rejectIf
      (encodedHeader.isEmpty || encodedClaims.isEmpty || encodedSignature.isEmpty)
      .oidcVerification
    let header ← decodeJsonPart crates crates.decodeHeader encodedHeader
    let claims ← decodeJsonPart crates crates.decodeClaims encodedClaims
    let signature ← decodePart crates encodedSignature
    rejectIf (signature.size > 1024 || !validHeader provider.discovery header) .oidcVerification
    rejectIf (!isSupportedAlgorithm header.alg) .oidcVerification
    match provider.jwks.keys.filter fun key => key.kid = header.kid with
    | [key] =>
      rejectIf
        (key.kty ≠ "RSA".toList
            || key.use.any (· ≠ "sig".toList)
            || key.alg.any (· ≠ header.alg))
        .oidcVerification
      let modulus ← decodeJwkComponent crates key.n
      let exponent ← decodeJwkComponent crates key.e
      let signingInput := encodedHeader ++ '.' :: encodedClaims
      rejectIf (!crates.rsaKey modulus exponent) .oidcVerification
      rejectIf
        (!crates.rsaVerify header.alg modulus exponent (Text.utf8 signingInput) signature)
        .oidcVerification
      validateClaims config claims nonce nowUnix
    | _ => .error .oidcVerification
  | _ => .error .oidcVerification

end Kaleidoscope.Account
