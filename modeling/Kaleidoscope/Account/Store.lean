import Kaleidoscope.Account.Protocol

/-!
# Stored credentials

The one credential the operating system's store holds for the client.  A `StoredCredential`
can only be built through the checks of `StoredCredential.new`.
-/

namespace Kaleidoscope.Account

structure CredentialFields where
  accountId : Uuid
  deviceId : Uuid
  tokenFamilyId : Uuid
  refreshGeneration : Nat
  issuer : Url
  audience : Text
  subject : Text
  refreshToken : SecretString
  deriving DecidableEq

/-- The checks of `StoredCredential::validate`. -/
def CredentialFields.validate (c : CredentialFields) : Bool :=
  c.issuer.scheme = "https".toList
    && c.issuer.host.isSome
    && c.issuer.username.isEmpty
    && c.issuer.password.isNone
    && c.issuer.query.isNone
    && c.issuer.fragment.isNone
    && !c.audience.isEmpty
    && Text.byteLen c.audience ≤ 200
    && Text.isAscii c.audience
    && !c.subject.isEmpty
    && Text.byteLen c.subject ≤ 512
    && !c.subject.any Text.isControl
    && c.refreshToken.isBoundedAscii

structure StoredCredential extends CredentialFields where
  valid : toCredentialFields.validate = true
  deriving DecidableEq

def StoredCredential.new (fields : CredentialFields) : AccountResult StoredCredential :=
  if valid : fields.validate then .ok { fields with valid } else .error .credentialStoreFailure

theorem StoredCredential.new_eq_ok {fields : CredentialFields} {c : StoredCredential}
    (h : StoredCredential.new fields = .ok c) : c.toCredentialFields = fields := by
  unfold StoredCredential.new at h
  split at h
  next => cases h; rfl
  next => cases h

end Kaleidoscope.Account
