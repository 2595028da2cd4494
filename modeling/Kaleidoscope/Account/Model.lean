import Kaleidoscope.Json
import Kaleidoscope.Lib.Prog

/-!
# Account types

Secrets, errors, URLs and the results of the account operations.  The types of the `url`
and `uuid` crates are kept as their components; what the crates compute is a field of
`External`, as are the JSON decoders, the base64 codec and the digest and signature functions.
-/

namespace Kaleidoscope.Account

/-- A duration in nanoseconds. -/
structure Duration where
  nanos : Nat
  deriving DecidableEq

namespace Duration

def fromSecs (s : Nat) : Duration := ⟨s * 1000000000⟩

def asSecs (d : Duration) : Nat := d.nanos / 1000000000

/-- Whether the duration lies between two numbers of seconds, both included. -/
def within (d : Duration) (lo hi : Nat) : Bool :=
  (fromSecs lo).nanos ≤ d.nanos && d.nanos ≤ (fromSecs hi).nanos

end Duration

/-- Addition of 64-bit counters that stops at the largest one. -/
def saturatingAdd (a b : Nat) : Nat := min (a + b) (2 ^ 64 - 1)

def u64Max : Nat := 2 ^ 64 - 1

/-! ## Identifiers and addresses -/

/-- A 128-bit identifier. -/
structure Uuid where
  bits : BitVec 128
  deriving DecidableEq

def Uuid.isNil (id : Uuid) : Bool := id.bits == 0

inductive Host where
  | domain (name : Text)
  | ipv4 (address : BitVec 32)
  | ipv6 (address : BitVec 128)
  deriving DecidableEq

/-- 127.0.0.0/8 or ::1. -/
def Host.isLoopback : Host → Bool
  | .domain _ => false
  | .ipv4 address => address.extractLsb' 24 8 == 127
  | .ipv6 address => address == 1

/-- A parsed URL: its serialization and the components the client looks at.  `port` is the
explicit port that is not the scheme's default. -/
structure Url where
  serialization : Text
  scheme : Text
  username : Text
  password : Option Text
  host : Option Host
  port : Option Nat
  path : Text
  query : Option Text
  fragment : Option Text
  /-- `origin().ascii_serialization()` -/
  origin : Text
  deriving DecidableEq

/-! ## Secrets -/

/-- A secret text. -/
structure SecretString where
  expose : Text
  deriving DecidableEq

namespace SecretString

def constantTimeEq (a b : SecretString) : Bool := a.expose == b.expose

/-- 32 to 4096 bytes of ASCII without white space. -/
def isBoundedAscii (s : SecretString) : Bool :=
  (32 ≤ Text.byteLen s.expose && Text.byteLen s.expose ≤ 4096)
    && Text.isAscii s.expose
    && !s.expose.any Text.isAsciiWhitespace

@[simp] theorem constantTimeEq_iff (a b : SecretString) : a.constantTimeEq b = true ↔ a = b := by
  cases a
  cases b
  simp [constantTimeEq]

end SecretString

/-! ## Errors -/

inductive AccountError where
  | providerNotConfigured
  | invalidConfiguration (reason : String)
  | unsafeRequest
  | offline
  | deadlineExceeded
  | cancelled
  | authorizationDenied
  | deviceAuthorizationExpired
  | rateLimited
  | invalidResponse
  | oidcVerification
  | invalidPkceCallback
  | refreshReuseDetected
  | sessionRevoked
  | credentialStoreUnavailable (guidance : String)
  | credentialStoreFailure
  | alreadySignedIn
  | notSignedIn
  | refreshLockUnavailable
  | remoteRevocationUnconfirmed
  | interactionUnavailable
  deriving DecidableEq

abbrev AccountResult := Except AccountError

/-! ## Requests and results of the operations -/

inductive LogoutScope where
  | currentSession
  | allDevices
  deriving DecidableEq

inductive LocalLogoutPolicy where
  | requireRemoteRevocation
  | confirmedLocalOnly
  deriving DecidableEq

inductive AccountState where
  | signedOut
  | online
  | offlineStale
  | revoked
  deriving DecidableEq

structure AccountStatus where
  version : Nat
  state : AccountState
  accountId : Option Uuid
  deviceId : Option Uuid
  stale : Bool

def AccountStatus.signedOut (state : AccountState) : AccountStatus :=
  { version := 1, state, accountId := none, deviceId := none, stale := false }

structure LoginResult where
  version : Nat
  status : String
  accountId : Uuid
  deviceId : Uuid

structure LogoutResult where
  version : Nat
  status : String
  remoteRevoked : Bool
  localCredentialRemoved : Bool
  warning : Option String

structure LinkResult where
  version : Nat
  status : String
  verificationUri : Url
  expiresAt : Nat

structure UnlinkResult where
  version : Nat
  status : String
  externalIdentityId : Uuid

structure ExternalIdentitySummary where
  externalIdentityId : Uuid
  issuer : Url
  linkedAt : Nat

structure ExternalIdentityList where
  version : Nat
  externalIdentities : List ExternalIdentitySummary

inductive DevicePlatform where
  | macos
  | windows
  | linux
  deriving DecidableEq

structure DeviceSummary where
  deviceId : Uuid
  label : Text
  platform : DevicePlatform
  createdAt : Nat
  lastSeenAt : Nat
  revoked : Bool

structure DeviceList where
  version : Nat
  devices : List DeviceSummary

structure DeviceRevokeResult where
  version : Nat
  status : String
  deviceId : Uuid

structure DeviceDisplay where
  productName : Text
  deviceLabel : Text
  platform : DevicePlatform
  applicationVersion : Text
  deriving DecidableEq

structure DeviceAuthorizationPrompt where
  userCode : Text
  verificationUri : Url
  expiresAt : Nat
  intervalSeconds : Nat
  display : DeviceDisplay

/-- A path of any platform, a home path, a UNC path or a drive path; the second and third
byte are looked at, and a character outside ASCII is more than one byte. -/
def looksLikeAbsolutePath (value : Text) : Bool :=
  "/".toList.isPrefixOf value
    || "~/".toList.isPrefixOf value
    || "\\\\".toList.isPrefixOf value
    || match value with
      | c :: ':' :: '/' :: _ => Text.isAsciiChar c
      | c :: ':' :: '\\' :: _ => Text.isAsciiChar c
      | _ => false

def DeviceDisplay.validate (display : DeviceDisplay) : Bool :=
  [display.productName, display.deviceLabel, display.applicationVersion].all fun value =>
    !value.isEmpty
      && Text.byteLen value ≤ 100
      && !value.any Text.isControl
      && !looksLikeAbsolutePath value

end Kaleidoscope.Account
