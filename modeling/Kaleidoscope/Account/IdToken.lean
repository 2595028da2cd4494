import Kaleidoscope.Lib.Split
import Kaleidoscope.Account.World

/-!
# What an accepted id token is

    verifyIdToken_sound     the conditions under which a token is accepted
    issuer_agree_iff        when the issuer of the discovery document is also that of its tokens

The signature check of a key and the decoders of base64 and JSON are those of `External`.
-/

namespace Kaleidoscope.Account

/-! ## The token -/

/-- A compact token and what its three parts decode to. -/
structure Token where
  encodedHeader : Text
  encodedClaims : Text
  encodedSignature : Text
  header : TokenHeader
  claims : TokenClaims
  signature : Bytes

def AudienceClaim.audiences : AudienceClaim → List Text
  | .one audience => [audience]
  | .many audiences => audiences

section

variable (crates : External) (provider : ValidatedProvider) (config : AccountClientConfig)

/-- The token is a text of exactly three parts, none of which holds a dot. -/
structure Token.Reads (token : Token) (compact : Text) : Prop where
  text : compact = token.encodedHeader ++ '.' :: token.encodedClaims ++ '.' :: token.encodedSignature
  parts : Text.split '.' compact
    = [token.encodedHeader, token.encodedClaims, token.encodedSignature]
  header : decodeJsonPart crates crates.decodeHeader token.encodedHeader = .ok token.header
  claims : decodeJsonPart crates crates.decodeClaims token.encodedClaims = .ok token.claims
  signature : decodePart crates token.encodedSignature = .ok token.signature

/-- The signature over the text up to the second dot verifies under the key. -/
structure Token.SignedBy (token : Token) (key : RsaJwk) : Prop where
  kty : key.kty = "RSA".toList
  use : ∀ use, key.use = some use → use = "sig".toList
  verifies : ∃ modulus exponent, decodeJwkComponent crates key.n = .ok modulus
    ∧ decodeJwkComponent crates key.e = .ok exponent
    ∧ crates.rsaKey modulus exponent = true
    ∧ crates.rsaVerify token.header.alg modulus exponent
        (Text.utf8 (token.encodedHeader ++ '.' :: token.encodedClaims)) token.signature = true

/-- The claims are those of the configuration, of the expected nonce and of the time. -/
structure TokenClaims.Match (claims : TokenClaims) (nonce : Option SecretString) (now : Nat) :
    Prop where
  issuer : claims.iss = config.issuer.serialization
  audience : config.audience ∈ claims.aud.audiences
  /-- no audience is named twice -/
  distinct : claims.aud.audiences.Nodup
  /-- with several audiences the authorized party is named -/
  party : 1 < claims.aud.audiences.length → claims.azp = some config.publicClientId
  noOther : ∀ azp, claims.azp = some azp → azp = config.publicClientId
  nonce : claims.nonce = nonce.map SecretString.expose
  unexpired : now < claims.exp
  issued : claims.iat ≤ saturatingAdd now clockSkewSeconds
  ordered : claims.iat < claims.exp

/-- Everything that an accepted token satisfies. -/
structure Verified (token : Token) (key : RsaJwk) (compact : Text) (nonce : Option SecretString)
    (now : Nat) (sub : Text) : Prop where
  reads : token.Reads crates compact
  unique : provider.jwks.keys.filter (fun key => key.kid = token.header.kid) = [key]
  signed : token.SignedBy crates key
  supported : isSupportedAlgorithm token.header.alg = true
  advertised : token.header.alg ∈ provider.discovery.idTokenSigningAlgValuesSupported
  /-- a key may leave its algorithm open -/
  own : ∀ alg, key.alg = some alg → alg = token.header.alg
  crit : token.header.crit = none
  claims : token.claims.Match config nonce now
  sub : sub = token.claims.sub

end

variable {crates : External} {provider : ValidatedProvider} {config : AccountClientConfig}

theorem checkNonce_ok {expected actual : Option SecretString} {u : Unit}
    (h : checkNonce expected actual = .ok u) : actual = expected := by
  cases expected with
  | none =>
    cases actual with
    | none => rfl
    | some actual => cases h
  | some expected =>
    cases actual with
    | none => cases h
    | some actual =>
      have hsame := rejectIf_eq_ok.mp h
      simp only [Bool.or_eq_true, Bool.not_eq_true', not_or, Bool.not_eq_false] at hsame
      rw [(SecretString.constantTimeEq_iff expected actual).mp hsame.2]

theorem validateClaims_ok {claims : TokenClaims} {nonce : Option SecretString} {now : Nat}
    {sub : Text} (h : validateClaims config claims nonce now = .ok sub) :
    claims.Match config nonce now ∧ sub = claims.sub := by
  unfold validateClaims at h
  obtain ⟨_, htimes, h⟩ := except_bind_eq_ok.mp h
  obtain ⟨_, haudience, h⟩ := except_bind_eq_ok.mp h
  obtain ⟨_, hnonce, h⟩ := except_bind_eq_ok.mp h
  cases h
  rw [rejectIf_eq_ok] at htimes haudience
  simp only [Bool.or_eq_true, decide_eq_true_eq, not_or, not_le, not_lt, Bool.not_eq_true',
    Bool.and_eq_true, Bool.not_eq_false] at htimes haudience
  obtain ⟨⟨⟨⟨⟨⟨hissuer, -⟩, -⟩, -⟩, hexpired⟩, hissued⟩, hordered⟩ := htimes
  obtain ⟨⟨⟨⟨⟨⟨-, -⟩, hdistinct⟩, hmem⟩, -⟩, hparty⟩, hother⟩ := haudience
  have hnonce := checkNonce_ok hnonce
  refine ⟨⟨?_, ?_, ?_, ?_, ?_, ?_, hexpired, hissued, hordered⟩, rfl⟩
  · simpa using hissuer
  · exact List.contains_iff_mem.mp hmem
  · have hlength : claims.aud.audiences.dedup.length = claims.aud.audiences.length :=
      not_not.mp hdistinct
    rw [← List.dedup_eq_self]
    exact (List.dedup_sublist _).eq_of_length hlength
  · intro hmany
    by_contra hazp
    exact hparty ⟨hmany, hazp⟩
  · intro azp hazp
    rw [hazp] at hother
    simpa using hother
  · rw [← hnonce]
    cases claims.nonce <;> rfl

/-- A token that is accepted is of three parts, is signed under the only key with its `kid`, and
its claims are those of the configuration, the nonce and the time. -/
theorem verifyIdToken_sound (idToken : SecretString) (nonce : Option SecretString) (now : Nat)
    (sub : Text) (h : provider.verifyIdToken crates config idToken nonce now = .ok sub) :
    ∃ token key, Verified crates provider config token key idToken.expose nonce now sub := by
  unfold ValidatedProvider.verifyIdToken at h
  obtain ⟨_, -, h⟩ := except_bind_eq_ok.mp h
  split at h
  next encodedHeader encodedClaims encodedSignature hparts =>
    obtain ⟨_, -, h⟩ := except_bind_eq_ok.mp h
    obtain ⟨header, hheader, h⟩ := except_bind_eq_ok.mp h
    obtain ⟨claims, hclaims, h⟩ := except_bind_eq_ok.mp h
    obtain ⟨signature, hsignature, h⟩ := except_bind_eq_ok.mp h
    obtain ⟨_, hvalid, h⟩ := except_bind_eq_ok.mp h
    obtain ⟨_, hsupported, h⟩ := except_bind_eq_ok.mp h
    split at h
    next key hkey =>
      obtain ⟨_, hkind, h⟩ := except_bind_eq_ok.mp h
      obtain ⟨modulus, hmodulus, h⟩ := except_bind_eq_ok.mp h
      obtain ⟨exponent, hexponent, h⟩ := except_bind_eq_ok.mp h
      obtain ⟨_, hrsa, h⟩ := except_bind_eq_ok.mp h
      obtain ⟨_, hverify, h⟩ := except_bind_eq_ok.mp h
      obtain ⟨hmatch, hsub⟩ := validateClaims_ok h
      rw [rejectIf_eq_ok] at hvalid hsupported hkind hrsa hverify
      rw [Bool.not_eq_true', Bool.not_eq_false] at hsupported hrsa hverify
      simp only [Bool.or_eq_true, decide_eq_true_eq, not_or, Bool.not_eq_true', Bool.not_eq_false,
        ne_eq, not_not, Option.any_eq_true, not_exists, not_and] at hvalid hkind
      obtain ⟨⟨hkty, huse⟩, halg⟩ := hkind
      have hheaderValid := hvalid.2
      unfold validHeader at hheaderValid
      simp only [Bool.and_eq_true] at hheaderValid
      refine ⟨⟨encodedHeader, encodedClaims, encodedSignature, header, claims, signature⟩, key,
        ⟨(Text.split_three hparts).1, hparts, hheader, hclaims, hsignature⟩, hkey,
        ⟨hkty, huse, modulus, exponent, hmodulus, hexponent, hrsa, hverify⟩, hsupported,
        List.contains_iff_mem.mp hheaderValid.2, halg, ?_, hmatch, hsub⟩
      exact Option.isNone_iff_eq_none.mp hheaderValid.1.1.2
    next => cases h
  next => cases h

/-! ### A key that leaves its algorithm open -/

def openProvider : ValidatedProvider := ⟨sampleDiscovery, sampleJwks⟩

theorem verify_sample :
    openProvider.verifyIdToken sampleCrates sampleConfig ⟨sampleIdToken⟩
      (some ⟨sampleSecret 'A'⟩) 1000 = .ok "u1".toList := by
  have haccepted : (openProvider.verifyIdToken sampleCrates sampleConfig ⟨sampleIdToken⟩
      (some ⟨sampleSecret 'A'⟩) 1000).toOption = some "u1".toList := by
    decide +kernel
  revert haccepted
  generalize openProvider.verifyIdToken sampleCrates sampleConfig _ _ _ = result
  intro haccepted
  cases result with
  | error e => cases haccepted
  | ok sub =>
    cases haccepted
    rfl

theorem verifyIdToken_sound_sample :
    ∃ token key, Verified sampleCrates openProvider sampleConfig token key sampleIdToken
      (some ⟨sampleSecret 'A'⟩) 1000 "u1".toList :=
  verifyIdToken_sound ⟨sampleIdToken⟩ (some ⟨sampleSecret 'A'⟩) 1000 "u1".toList verify_sample

/-- The key of the sample names no algorithm, and its token is accepted. -/
theorem verify_open_algorithm :
    ¬∀ (crates : External) (provider : ValidatedProvider) (config : AccountClientConfig)
      (idToken : SecretString) (nonce : Option SecretString) (now : Nat) (sub : Text),
      provider.verifyIdToken crates config idToken nonce now = .ok sub →
        ∃ (token : Token) (key : RsaJwk), token.Reads crates idToken.expose
          ∧ provider.jwks.keys.filter (fun key => key.kid = token.header.kid) = [key]
          ∧ key.alg = some token.header.alg := by
  intro h
  obtain ⟨token, key, -, hunique, halg⟩ := h sampleCrates openProvider sampleConfig _ _ _ _
    verify_sample
  have hmem : key ∈ sampleJwks.keys := by
    have hfiltered : key ∈ sampleJwks.keys.filter fun key => key.kid = token.header.kid :=
      hunique ▸ List.mem_singleton_self key
    exact (List.mem_filter.mp hfiltered).1
  have hopen : ∀ key ∈ sampleJwks.keys, key.alg = none := by
    intro key hkey
    rw [sampleJwks, List.mem_singleton] at hkey
    rw [hkey]
  rw [hopen key hmem] at halg
  cases halg

/-! ## The issuer of the document and of the token -/

/-- The claims are not refused for their issuer: what holds of them with the configured spelling
of the issuer holds of them with this one. -/
def IssuerTaken (config : AccountClientConfig) (iss : Text) : Prop :=
  ∀ (claims : TokenClaims) (nonce : Option SecretString) (now : Nat),
    validateClaims config { claims with iss := iss } nonce now
      = validateClaims config { claims with iss := config.issuer.serialization } nonce now

/-- Claims that are accepted with the configured spelling of the issuer. -/
def plainClaims (config : AccountClientConfig) : TokenClaims :=
  { iss := config.issuer.serialization, aud := .one config.audience, azp := none,
    sub := ['u'], exp := 2, iat := 1, nonce := none }

theorem plainClaims_accepted (client : AccountClient) :
    validateClaims client.config (plainClaims client.config) none 1 = .ok ['u'] := by
  have hvalid := client.valid
  unfold AccountClientConfig.validate at hvalid
  obtain ⟨_, -, hvalid⟩ := except_bind_eq_ok.mp hvalid
  obtain ⟨_, -, hvalid⟩ := except_bind_eq_ok.mp hvalid
  obtain ⟨_, -, hvalid⟩ := except_bind_eq_ok.mp hvalid
  obtain ⟨_, -, hvalid⟩ := except_bind_eq_ok.mp hvalid
  obtain ⟨_, hidentifiers, -⟩ := except_bind_eq_ok.mp hvalid
  rw [rejectIf_eq_ok, Bool.not_eq_true', Bool.not_eq_false, Bool.and_eq_true] at hidentifiers
  have haudience := hidentifiers.1
  unfold AccountClientConfig.validIdentifier at haudience
  simp only [Bool.and_eq_true, Bool.not_eq_true', decide_eq_true_eq] at haudience
  obtain ⟨⟨⟨hne, hlen⟩, hascii⟩, -⟩ := haudience
  have hlong : ¬512 < Text.byteLen client.config.audience := by omega
  have hsub : Text.byteLen ['u'] = 1 := by decide
  have hcontrol : ['u'].any Text.isControl = false := by decide
  unfold validateClaims plainClaims
  simp [hne, hascii, hlong, hsub, hcontrol, rejectIf, checkNonce, saturatingAdd, clockSkewSeconds]
  rfl

theorem issuerTaken_iff (client : AccountClient) (iss : Text) :
    IssuerTaken client.config iss ↔ iss = client.config.issuer.serialization := by
  constructor
  · intro h
    have haccepted := h (plainClaims client.config) none 1
    rw [show ({ plainClaims client.config with iss := client.config.issuer.serialization }
      : TokenClaims) = plainClaims client.config from rfl, plainClaims_accepted client] at haccepted
    exact (validateClaims_ok haccepted).1.issuer
  · rintro rfl claims nonce now
    rfl

/-- A document that is accepted spells its issuer in some way that the URL parser reads as the
configured one; tokens that spell it so are not refused for it exactly where that is also how the
parser writes it. -/
theorem issuer_agree_iff (client : AccountClient) (response : WireResponse)
    (discovery : DiscoveryDocument) (spelling : Text)
    (haccepted : checkDiscovery crates client.config response = .ok discovery)
    (hread : crates.parseUrl spelling = some discovery.issuer) :
    IssuerTaken client.config spelling
      ↔ (crates.parseUrl spelling).map Url.serialization = some spelling := by
  have hissuer : discovery.issuer = client.config.issuer := by
    unfold checkDiscovery at haccepted
    obtain ⟨document, -, h⟩ := except_bind_eq_ok.mp haccepted
    obtain ⟨_, hsame, h⟩ := except_bind_eq_ok.mp h
    obtain ⟨_, -, h⟩ := except_bind_eq_ok.mp h
    obtain ⟨_, -, h⟩ := except_bind_eq_ok.mp h
    obtain ⟨_, -, h⟩ := except_bind_eq_ok.mp h
    cases h
    rw [rejectIf_eq_ok, ne_eq, not_not] at hsame
    exact hsame
  rw [issuerTaken_iff, hread, hissuer, Option.map_some, Option.some.injEq]
  exact eq_comm

/-- The parser gives an empty path its slash. -/
def issuerCrates : External where
  __ := sampleCrates
  parseUrl := fun text =>
    if text = "https://issuer.example".toList ∨ text = "https://issuer.example/".toList then
      some sampleIssuer
    else sampleCrates.parseUrl text

/-- The discovery document of the sample, with its issuer spelled without the slash. -/
def bareDiscoveryBody : Bytes := Text.asciiBytes <|
  ["\x7b\"issuer\":", "\"https://i", "ssuer.exam", "ple\",\"aut", "horization", "_endpoint\"",
    ":\"https://", "issuer.exa", "mple/auth\"", ",\"jwks_uri", "\":\"https:/", "/issuer.ex",
    "ample/jwks", "\",\"id_toke", "n_signing_", "alg_values", "_supported", "\":[\"RS256\"",
    "]\x7d"].flatMap String.toList

theorem checkDiscovery_sample {body : Bytes} (h : body.size ≤ maxOidcDocumentBytes) :
    checkDiscovery issuerCrates sampleConfig ⟨200, body⟩ = .ok sampleDiscovery := by
  have hauthorize : sampleConfig.validateOidcUrl sampleDiscovery.authorizationEndpoint true
      = .ok () := by
    decide +kernel
  have hjwks : sampleConfig.validateOidcUrl sampleDiscovery.jwksUri false = .ok () := by
    decide +kernel
  have hdocument : parseDocument issuerCrates.decodeDiscovery ⟨200, body⟩ = .ok sampleDiscovery := by
    unfold parseDocument
    rw [if_neg]
    · rfl
    · simpa using h
  refine except_bind_eq_ok.mpr ⟨sampleDiscovery, hdocument, ?_⟩
  refine except_bind_eq_ok.mpr ⟨(), rejectIf_eq_ok.mpr (by decide +kernel), ?_⟩
  refine except_bind_eq_ok.mpr ⟨(), hauthorize, ?_⟩
  refine except_bind_eq_ok.mpr ⟨(), hjwks, ?_⟩
  exact except_bind_eq_ok.mpr ⟨(), rejectIf_eq_ok.mpr (by decide +kernel), rfl⟩

theorem issuer_agree_sample :
    IssuerTaken sampleConfig "https://issuer.example/".toList
      ↔ (issuerCrates.parseUrl "https://issuer.example/".toList).map Url.serialization
        = some "https://issuer.example/".toList :=
  issuer_agree_iff sampleClient ⟨200, discoveryBody⟩ sampleDiscovery _
    (checkDiscovery_sample (by decide +kernel)) (by decide +kernel)

theorem issuer_bare_refused :
    ¬∀ (crates : External) (client : AccountClient) (response : WireResponse)
      (discovery : DiscoveryDocument) (spelling : Text),
      checkDiscovery crates client.config response = .ok discovery →
      crates.parseUrl spelling = some discovery.issuer →
      IssuerTaken client.config spelling := by
  intro h
  have htaken := h issuerCrates sampleClient ⟨200, bareDiscoveryBody⟩ sampleDiscovery
    "https://issuer.example".toList (checkDiscovery_sample (by decide +kernel)) (by decide +kernel)
  rw [issuerTaken_iff] at htaken
  revert htaken
  decide +kernel

end Kaleidoscope.Account
