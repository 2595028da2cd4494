import Kaleidoscope.Lib.Pool
import Kaleidoscope.Account.Discipline

/-!
# The environment of the account operations

The shared state is the one slot of the credential store and the refresh lock.  The clock,
the transport, randomness and the user answer anything, and the store may fail.

Beside the shared state the environment keeps what an observer sees: the view of each
operation and the history of all events, newest first.

    kept_start, kept_event, kept_finish     what every run keeps, one lemma for each move
    sampleScript_sound                      the scripted environment makes only moves of the world
-/

namespace Kaleidoscope.Account

open Prog

inductive Entry (Pid : Type) where
  | started (p : Pid) (operation : Operation)
  | did (p : Pid) (operation : Option Operation) (e : Event) (answer : e.Answer)
  | returned (p : Pid) (operation : Operation) (result : AccountResult Unit)

structure State (Pid : Type) where
  slot : Option StoredCredential
  lock : Option Pid
  operation : Pid → Option Operation
  views : Pid → View
  history : List (Entry Pid)

variable {Pid : Type}

/-- The answers that the shared state determines. -/
def Answers (s : State Pid) : (e : Event) → e.Answer → Prop
  | .load, .ok stored => stored = s.slot
  | .delete, .ok removed => removed = s.slot.isSome
  | .acquire _, .ok _ => s.lock = none
  | _, _ => True

/-- A store operation that fails leaves the slot as it was. -/
def slotAfter (slot : Option StoredCredential) : (e : Event) → e.Answer → Option StoredCredential
  | .save credential, .ok _ => some credential
  | .delete, .ok _ => none
  | _, _ => slot

variable [DecidableEq Pid]

def lockAfter (lock : Option Pid) (p : Pid) : (e : Event) → e.Answer → Option Pid
  | .acquire _, .ok _ => some p
  | .release, _ => if lock = some p then none else lock
  | _, _ => lock

section

variable (crates : External) (config : AccountClientConfig)

def State.start (s : State Pid) (p : Pid) (operation : Operation) : State Pid :=
  { s with
    operation := Function.update s.operation p (some operation)
    views := Function.update s.views p operation.view
    history := .started p operation :: s.history }

def State.after (s : State Pid) (p : Pid) (e : Event) (answer : e.Answer) : State Pid :=
  { slot := slotAfter s.slot e answer
    lock := lockAfter s.lock p e answer
    operation := s.operation
    views := Function.update s.views p ((s.views p).after crates config e answer)
    history := .did p (s.operation p) e answer :: s.history }

def State.finish (s : State Pid) (p : Pid) (operation : Operation)
    (result : AccountResult Unit) : State Pid :=
  { s with history := .returned p operation result :: s.history }

/-- Any operation may start where `mayStart` allows it; every answer that the shared state does
not determine is possible. -/
def accountWorld (mayStart : State Pid → Pid → Prop) :
    Pool.World Event Event.Answer AccountError Unit (State Pid) Pid Operation where
  start s p operation s' := mayStart s p ∧ s' = s.start p operation
  event s p e answer s' := Answers s e answer ∧ s' = s.after crates config p e answer
  finish s p operation result s' := s' = s.finish p operation result

/-- The state before any operation. -/
def State.initial (slot : Option StoredCredential) : State Pid :=
  { slot, lock := none, operation := fun _ => none, views := fun _ => {}, history := [] }

end

/-! ## What every run keeps -/

/-- The observer's records of the running operations are right. -/
def Kept (s : State Pid) (v : Pool.Locals Pid Operation View) : Prop :=
  ∀ p o l, v p = some (o, l) → s.operation p = some o ∧ s.views p = l ∧ l.login = o.isLogin

variable {crates : External} {config : AccountClientConfig}

theorem after_login (crates : External) (config : AccountClientConfig) (v : View) (e : Event)
    (answer : e.Answer) :
    (v.after crates config e answer).login = v.login := by
  unfold View.after
  split <;> try rfl
  split <;> rfl

theorem kept_start {s : State Pid} {v : Pool.Locals Pid Operation View} (h : Kept s v) (p : Pid)
    (o : Operation) : Kept (s.start p o) (Function.update v p (some (o, o.view))) := by
  intro q o' l hq
  by_cases hp : q = p
  · subst hp
    simp only [Function.update_self, Option.some.injEq, Prod.mk.injEq] at hq
    obtain ⟨rfl, rfl⟩ := hq
    simp [State.start, Operation.view]
  · rw [Function.update_of_ne hp] at hq
    simpa [State.start, Function.update_of_ne hp] using h q o' l hq

theorem kept_event {s : State Pid} {v : Pool.Locals Pid Operation View} (h : Kept s v) {p : Pid}
    {o : Operation} {l : View} (hp : v p = some (o, l)) (e : Event) (answer : e.Answer) :
    Kept (s.after crates config p e answer)
      (Function.update v p (some (o, l.after crates config e answer))) := by
  intro q o' l' hq
  by_cases hqp : q = p
  · subst hqp
    simp only [Function.update_self, Option.some.injEq, Prod.mk.injEq] at hq
    obtain ⟨rfl, rfl⟩ := hq
    obtain ⟨hop, hview, hlogin⟩ := h q o l hp
    refine ⟨hop, ?_, ?_⟩
    · simp [State.after, hview]
    · rw [after_login]
      exact hlogin
  · rw [Function.update_of_ne hqp] at hq
    simpa [State.after, Function.update_of_ne hqp] using h q o' l' hq

theorem kept_finish {s : State Pid} {v : Pool.Locals Pid Operation View} (h : Kept s v) {p : Pid}
    {o : Operation} {result : AccountResult Unit} :
    Kept (s.finish p o result) (Function.update v p none) := by
  intro q o' l hq
  by_cases hp : q = p
  · subst hp
    simp at hq
  · rw [Function.update_of_ne hp] at hq
    exact h q o' l hq

/-! ## A concrete environment

One provider with one RSA key, its signed id tokens for two subjects, and a transport that
answers a login with the first session and a refresh with a given response. -/

def sampleUrl (origin path : String) : Url :=
  { serialization := origin.toList ++ path.toList, scheme := "https".toList, username := [],
    password := none, host := some (.domain (origin.toList.drop 8)), port := none,
    path := path.toList, query := none, fragment := none, origin := origin.toList }

def sampleIssuer : Url := sampleUrl "https://issuer.example" "/"

def sampleConfig : AccountClientConfig :=
  { controlPlaneOrigin := sampleUrl "https://account.example" "/", issuer := sampleIssuer,
    audience := "kaleidoscope".toList, publicClientId := "public-client".toList,
    loopbackCallbackPath := "/callback".toList, requestTimeout := .fromSecs 15,
    interactiveTimeout := .fromSecs 300, deviceTimeout := .fromSecs 600,
    allowedOidcOrigins := ["https://issuer.example".toList] }

def sampleClient : AccountClient := ⟨sampleConfig, by decide +kernel⟩

def sampleHeader : Text :=
  ["eyJhbGciOi", "JSUzI1NiIs", "ImtpZCI6Im", "sifQ"].flatMap String.toList

/-- The claims of the subject `u1`. -/
def sampleClaims : Text :=
  ["eyJpc3MiOi", "JodHRwczov", "L2lzc3Vlci", "5leGFtcGxl", "LyIsImF1ZC", "I6ImthbGVp",
    "ZG9zY29wZS", "IsInN1YiI6", "InUxIiwiZX", "hwIjoyMDAw", "LCJpYXQiOj", "EwMDAsIm5v",
    "bmNlIjoiQU", "FBQUFBQUFB", "QUFBQUFBQU", "FBQUFBQUFB", "QUFBQUFBQU", "FBQUFBQUFB",
    "QUFBQSJ9"].flatMap String.toList

/-- The claims of the subject `user2`. -/
def otherClaims : Text :=
  ["eyJpc3MiOi", "JodHRwczov", "L2lzc3Vlci", "5leGFtcGxl", "LyIsImF1ZC", "I6ImthbGVp",
    "ZG9zY29wZS", "IsInN1YiI6", "InVzZXIyIi", "wiZXhwIjoy", "MDAwLCJpYX", "QiOjEwMDAs",
    "Im5vbmNlIj", "oiQUFBQUFB", "QUFBQUFBQU", "FBQUFBQUFB", "QUFBQUFBQU", "FBQUFBQUFB",
    "QUFBQUFBQS", "J9"].flatMap String.toList

def sampleSignature : Text :=
  ["N0LsNKoOQw", "hHVPfzb7Pw", "zO1Q-AI_KT", "yW1doDFFkd", "V-c9J9OSq2", "59XiffmpQ6",
    "oghe1PP_Nn", "HXxpQMY0L4", "MqGtjw"].flatMap String.toList

def otherSignature : Text :=
  ["RaS8WkBfae", "5vcsLSKiCs", "6i94yFmQs0", "Zgyu0_whpU", "Aj0HK2gHqJ", "9tg-k47vlN",
    "gxlWy8cXDG", "VPRiJ5hCBu", "0uGn-g"].flatMap String.toList

def sampleIdToken : Text := sampleHeader ++ '.' :: sampleClaims ++ '.' :: sampleSignature

def otherIdToken : Text := sampleHeader ++ '.' :: otherClaims ++ '.' :: otherSignature

def sampleSecret (c : Char) : Text := List.replicate 43 c

def sampleSession (idToken : Text) (token : Char) (generation : Nat) : SessionWire :=
  { tokenType := "Bearer".toList, accessToken := sampleSecret 'a',
    refreshToken := sampleSecret token, idToken, expiresIn := 600, accountId := ⟨1⟩,
    deviceId := ⟨2⟩, tokenFamilyId := ⟨3⟩,
    refreshGeneration := generation }

def sampleUuid (id : Uuid) : Text :=
  List.replicate 8 '0' ++ '-' :: List.replicate 4 '0' ++ '-' :: List.replicate 4 '0'
    ++ '-' :: List.replicate 4 '0' ++ '-' :: List.replicate 11 '0'
    ++ [Nat.digitChar id.bits.toNat]

def sampleBody (wire : SessionWire) : Bytes :=
  Text.asciiBytes
    ("\x7b\"token_type\":\"Bearer\",\"access_token\":\"".toList ++ wire.accessToken
      ++ "\",\"refresh_token\":\"".toList ++ wire.refreshToken
      ++ "\",\"id_token\":\"".toList ++ wire.idToken
      ++ "\",\"expires_in\":600,\"account_id\":\"".toList ++ sampleUuid wire.accountId
      ++ "\",\"device_id\":\"".toList ++ sampleUuid wire.deviceId
      ++ "\",\"token_family_id\":\"".toList ++ sampleUuid wire.tokenFamilyId
      ++ "\",\"refresh_generation\":".toList ++ [Nat.digitChar wire.refreshGeneration]
      ++ "\x7d".toList)

/-- The session of the login, its rotation, and a rotation that carries another subject. -/
def loginSession : SessionWire := sampleSession sampleIdToken 'r' 0
def nextSession : SessionWire := sampleSession sampleIdToken 's' 1
def strangeSession : SessionWire := sampleSession otherIdToken 's' 1

/-- The credential that the login stores. -/
def sampleCredential : StoredCredential :=
  { accountId := ⟨1⟩, deviceId := ⟨2⟩, tokenFamilyId := ⟨3⟩, refreshGeneration := 0,
    issuer := sampleIssuer, audience := "kaleidoscope".toList, subject := "u1".toList,
    refreshToken := ⟨sampleSecret 'r'⟩, valid := by decide +kernel }

def sampleDiscovery : DiscoveryDocument :=
  { issuer := sampleIssuer, authorizationEndpoint := sampleUrl "https://issuer.example" "/auth",
    jwksUri := sampleUrl "https://issuer.example" "/jwks",
    idTokenSigningAlgValuesSupported := ["RS256".toList] }

def sampleModulus : Text :=
  ["0TvNvrE_pz", "oD6MsFqM_3", "QQ5avRninw", "JcKH200kzS", "ABUpvzwyvc", "YLEmyq6msq",
    "dBSDrcAsah", "tGI1IYeZqd", "ruPBmw"].flatMap String.toList

def sampleJwks : JwkSet :=
  { keys := [{ kty := "RSA".toList, kid := "k".toList, use := none, alg := none,
               n := sampleModulus, e := "AQAB".toList }] }

def sampleTokenClaims (subject : String) : TokenClaims :=
  { iss := "https://issuer.example/".toList, aud := .one "kaleidoscope".toList, azp := none,
    sub := subject.toList, exp := 2000, iat := 1000, nonce := some (sampleSecret 'A') }

def sampleDevice : DeviceAuthorizationWire :=
  { deviceCode := sampleSecret 'd', userCode := "ABCD-1234".toList,
    verificationUri := sampleUrl "https://account.example" "/device", expiresAt := 1300,
    intervalSeconds := 5 }

def sampleDisplay : DeviceDisplay :=
  { productName := "Kaleidoscope".toList, deviceLabel := "Laptop".toList, platform := .linux,
    applicationVersion := "0.1.0".toList }

def sampleField (key : String) (value : Text) : Text × Value := (key.toList, .string value)

/-- The JSON value of the request bodies that the sample runs send. -/
def sampleContent : WireContent → Option Value
  | .beginDevice clientId nonce d =>
    some (.object [sampleField "client_id" clientId, sampleField "nonce" nonce,
      ("device".toList, .object [sampleField "product_name" d.productName,
        sampleField "device_label" d.deviceLabel, sampleField "platform" "linux".toList,
        sampleField "application_version" d.applicationVersion])])
  | .pollDevice clientId deviceCode =>
    some (.object [sampleField "client_id" clientId, sampleField "device_code" deviceCode])
  | .refresh clientId token nonce =>
    some (.object [sampleField "client_id" clientId, sampleField "refresh_token" token,
      sampleField "nonce" nonce])
  | .empty => some (.object [])
  | .exchangePkce .. | .beginLink _ => none

mutual

/-- Serialization of values made of objects and of strings that need no escape. -/
def renderValue : Value → Text
  | .object members => "\x7b".toList ++ renderMembers members ++ "\x7d".toList
  | .string s => "\"".toList ++ s ++ "\"".toList
  | _ => "null".toList

def renderMembers : List (Text × Value) → Text
  | [] => []
  | [(key, value)] => "\"".toList ++ key ++ "\":".toList ++ renderValue value
  | (key, value) :: rest =>
    "\"".toList ++ key ++ "\":".toList ++ renderValue value ++ ",".toList ++ renderMembers rest

end

def sampleContents : List WireContent :=
  [.beginDevice sampleConfig.publicClientId (sampleSecret 'A') sampleDisplay,
    .pollDevice sampleConfig.publicClientId (sampleSecret 'd'),
    .refresh sampleConfig.publicClientId (sampleSecret 'r') (sampleSecret 'A'),
    .refresh sampleConfig.publicClientId (sampleSecret 's') (sampleSecret 'A'), .empty]

def sampleToVec (content : WireContent) : Option Bytes :=
  (sampleContent content).map fun value => Text.asciiBytes (renderValue value)

/-- Decode one of the listed values by its bytes. -/
def sampleDecode {T : Type} (encode : T → Option Bytes) (values : List T) (body : Bytes) :
    Option T :=
  values.find? fun value => (encode value).any fun bytes => bytes.data.toList == body.data.toList

def discoveryBody : Bytes := Text.asciiBytes <|
  ["\x7b\"issuer\":", "\"https://i", "ssuer.exam", "ple/\",\"aut", "horization", "_endpoint\"",
    ":\"https://", "issuer.exa", "mple/auth\"", ",\"jwks_uri", "\":\"https:/", "/issuer.ex",
    "ample/jwks", "\",\"id_toke", "n_signing_", "alg_values", "_supported", "\":[\"RS256\"",
    "]\x7d"].flatMap String.toList

def jwksBody : Bytes :=
  Text.asciiBytes ("\x7b\"keys\":[\x7b\"kty\":\"RSA\",\"kid\":\"k\",\"n\":\"".toList
    ++ sampleModulus ++ "\",\"e\":\"AQAB\"\x7d]\x7d".toList)

def deviceBody : Bytes := Text.asciiBytes <|
  "\x7b\"device_code\":\"".toList ++ sampleDevice.deviceCode ++
  ["\",\"user_co", "de\":\"ABCD-", "1234\",\"ver", "ification_", "uri\":\"http", "s://accoun",
    "t.example/", "device\",\"e", "xpires_at\"", ":1300,\"int", "erval_seco",
    "nds\":5\x7d"].flatMap String.toList

/-- The value of a character of the URL-safe base64 alphabet. -/
def sextet (c : Char) : Option Nat :=
  if 'A' ≤ c ∧ c ≤ 'Z' then some (c.toNat - 65)
  else if 'a' ≤ c ∧ c ≤ 'z' then some (c.toNat - 71)
  else if '0' ≤ c ∧ c ≤ '9' then some (c.toNat + 4)
  else if c = '-' then some 62
  else if c = '_' then some 63
  else none

/-- Sextets to bytes, four to three. -/
def joinSextets : List Nat → Option (List UInt8)
  | [] => some []
  | [_] => none
  | [a, b] => some [.ofNat (a * 4 + b / 16)]
  | [a, b, c] => some [.ofNat (a * 4 + b / 16), .ofNat (b * 16 + c / 4)]
  | a :: b :: c :: d :: rest => do
    let bytes ← joinSextets rest
    return .ofNat (a * 4 + b / 16) :: .ofNat (b * 16 + c / 4) :: .ofNat (c * 64 + d) :: bytes

def decode64 (t : Text) : Option Bytes := do
  let bytes ← joinSextets (← t.mapM sextet)
  return ⟨bytes.toArray⟩

/-- The other crates on the inputs of the sample runs. -/
def sampleCrates : External where
  parseUrl := fun _ =>
    some (sampleUrl "https://issuer.example" "/.well-known/openid-configuration")
  appendPairs := fun url _ => url
  showUuid := sampleUuid
  parseUuid := fun _ => none
  toVec := sampleToVec
  decodeValue := fun body => (sampleDecode sampleToVec sampleContents body).bind sampleContent
  decodeSession := sampleDecode (fun wire => some (sampleBody wire))
    [loginSession, nextSession, strangeSession]
  decodeDeviceAuthorization := fun _ => some sampleDevice
  decodeAccount := fun _ => none
  decodeLink := fun _ => none
  decodeExternalIdentities := fun _ => none
  decodeDevices := fun _ => none
  decodeError := fun _ => none
  decodeDiscovery := fun _ => some sampleDiscovery
  decodeJwks := fun _ => some sampleJwks
  decodeHeader := fun _ =>
    some { alg := "RS256".toList, kid := "k".toList, typ := none, crit := none }
  decodeClaims := fun body => some (sampleTokenClaims (if body.size = 141 then "u1" else "user2"))
  encodeBase64 := fun _ => sampleSecret 'A'
  decodeBase64 := decode64
  sha256 := id
  rsaKey := fun _ _ => true
  rsaVerify := fun _ _ _ _ _ => true

/-- A transport that answers the requests of a device login and of a refresh. -/
def sampleNetwork (rotation : WireResponse) (request : WireRequest) : AccountResult WireResponse :=
  match request.content with
  | some (.beginDevice ..) => .ok ⟨200, deviceBody⟩
  | some (.pollDevice ..) => .ok ⟨200, sampleBody loginSession⟩
  | some (.refresh ..) => .ok rotation
  | _ => .error .offline

/-- The answers of the environment: the store and the lock as they are, a clock that stands at
1000, and the given answer to a refresh. -/
def sampleAnswer (rotation : WireResponse) (s : State Pid) : (e : Event) → e.Answer
  | .nowUnix => (1000 : Nat)
  | .cancelled => false
  | .fillRandom size => .ok (Text.asciiBytes (List.replicate size '\x00'))
  | .sleep _ => ()
  | .acquire _ => if s.lock.isNone then .ok () else .error .refreshLockUnavailable
  | .release => ()
  | .load => .ok s.slot
  | .save _ => .ok ()
  | .delete => .ok s.slot.isSome
  | .send request _ => sampleNetwork rotation request
  | .getOidcDocument .discovery _ _ => .ok ⟨200, discoveryBody⟩
  | .getOidcDocument .jwks _ _ => .ok ⟨200, jwksBody⟩
  | .prepareRedirect _ => .error .interactionUnavailable
  | .authorize _ _ => .error .interactionUnavailable
  | .display _ => .ok ()
  | .openUri _ => .ok ()

/-- The environment that gives these answers where `allowed` lets the event happen. -/
def sampleScript (crates : External) (config : AccountClientConfig) (rotation : WireResponse)
    (mayStart : State Pid → Pid → Bool) (allowed : State Pid → Pid → Event → Bool) :
    Pool.Script Event Event.Answer AccountError Unit (State Pid) Pid Operation where
  start s p operation := if mayStart s p then some (s.start p operation) else none
  event s p e :=
    if allowed s p e then
      some (sampleAnswer rotation s e, s.after crates config p e (sampleAnswer rotation s e))
    else none
  finish s p operation result := some (s.finish p operation result)

omit [DecidableEq Pid] in
theorem sampleAnswer_answers (rotation : WireResponse) (s : State Pid) (e : Event) :
    Answers s e (sampleAnswer rotation s e) := by
  cases e with
  | acquire timeout =>
    cases h : s.lock <;> simp [Answers, sampleAnswer, h]
  | _ => simp [Answers, sampleAnswer]

theorem sampleScript_sound {crates : External} {config : AccountClientConfig}
    {rotation : WireResponse} {mayStart : State Pid → Pid → Prop}
    {start : State Pid → Pid → Bool} {allowed : State Pid → Pid → Event → Bool}
    {ok : State Pid → Pid → (e : Event) → e.Answer → State Pid → Prop}
    (hstart : ∀ s p, start s p = true → mayStart s p)
    (hok : ∀ s p e s', allowed s p e = true → ok s p e (sampleAnswer rotation s e) s') :
    (sampleScript crates config rotation start allowed).Sound
      ((accountWorld crates config mayStart).restrict ok) where
  start := by
    intro s p o s' h
    simp only [sampleScript, Option.ite_none_right_eq_some, Option.some.injEq] at h
    obtain ⟨hs, rfl⟩ := h
    exact ⟨hstart s p hs, rfl⟩
  event := by
    intro s p e a s' h
    simp only [sampleScript, Option.ite_none_right_eq_some, Option.some.injEq,
      Prod.mk.injEq] at h
    obtain ⟨ha, rfl, rfl⟩ := h
    exact ⟨⟨sampleAnswer_answers rotation s e, rfl⟩, hok s p e _ ha⟩
  finish := by
    intro s p o x s' h
    simp only [sampleScript, Option.some.injEq] at h
    exact h.symm

end Kaleidoscope.Account
