import Kaleidoscope.Account.Usable
import Kaleidoscope.Account.DeviceLogin

/-!
# What a logout reports

The credential store of the environment is one slot (`StoreSlot`), and only a request to the
control plane fails with an error that says that the session was revoked (`LocalErrors`).

    refreshAccess_ok          what a refresh that succeeded did last
    refreshAccess_reported    a refresh ends in a revocation only where the server reported one
    logout_truthful_iff       the report of a logout is right unless the refresh it begins with
                              already removed the credential
-/

namespace Kaleidoscope.Account

open Prog

/-! ## The environment of a logout -/

/-- The errors that say that the session was revoked. -/
def AccountError.isRevocation (error : AccountError) : Bool :=
  error = .refreshReuseDetected || error = .sessionRevoked

/-- A result that does not say that the session was revoked. -/
def Plain {α : Type} (r : AccountResult α) : Prop :=
  ∀ error, r = .error error → error.isRevocation = false

section

variable {σ : Type} (env : σ → (e : Event) → e.Answer × σ)

/-- The credential store is a slot that nothing else writes. -/
structure StoreSlot (slot : σ → Option StoredCredential) : Prop where
  load : ∀ s stored, (env s .load).1 = .ok stored → stored = slot s
  delete : ∀ s removed, (env s .delete).1 = .ok removed → removed = (slot s).isSome
  after : ∀ s e, slot (env s e).2 = slotAfter (slot s) e (env s e).1

/-- The store, the lock, the randomness and the provider documents fail with errors of their
own. -/
structure LocalErrors : Prop where
  load : ∀ s, Plain (env s .load).1
  save : ∀ s credential, Plain (env s (.save credential)).1
  acquire : ∀ s timeout, Plain (env s (.acquire timeout)).1
  fillRandom : ∀ s size, Plain (env s (.fillRandom size)).1
  document : ∀ s kind url deadline, Plain (env s (.getOidcDocument kind url deadline)).1

end

variable (crates : External) (config : AccountClientConfig)

/-- The server confirms the revocation that it was asked for, or answers a refresh by saying that
the session was revoked. -/
def ReportsRevocation : (e : Event) → e.Answer → Prop
  | .send request _, .ok response =>
    (request.endpoint = .revokeTokenFamily ∧ expectEmptySuccess crates response 204 = .ok ())
      ∨ (request.endpoint = .refresh ∧ ¬Plain (parseSuccess crates crates.decodeSession response 200))
  | .send request _, .error error => request.endpoint = .refresh ∧ error.isRevocation = true
  | _, _ => False

section

variable {σ : Type} (env : σ → (e : Event) → e.Answer × σ) (slot : σ → Option StoredCredential)

/-- The report of a logout that began in `s` and returned in `s'`. -/
structure Truthful (scope : LogoutScope) (localPolicy : LocalLogoutPolicy) (s s' : σ)
    (result : LogoutResult) : Prop where
  removed : result.localCredentialRemoved = true ↔ (slot s).isSome = true ∧ slot s' = none
  revoked : result.remoteRevoked = true →
    ∃ call ∈ calls env (logout crates config scope localPolicy) s,
      ReportsRevocation crates call.2 (env call.1 call.2).1

/-- The logout of a current session is told of a revocation while it refreshes, and the refresh
has emptied the store. -/
structure ForgottenByRefresh (scope : LogoutScope) (localPolicy : LocalLogoutPolicy) (s : σ) :
    Prop where
  scope : scope = .currentSession
  localPolicy : localPolicy = .requireRemoteRevocation
  loaded : ∃ stored, (env s .load).1 = .ok (some stored)
  refreshed : ∃ error s', run env (refreshAccess crates config) (env s .load).2
      = some (.error error, s')
    ∧ error.isRevocation = true ∧ slot s' = none ∧ (env s' .delete).1.isOk = true

end

variable {crates : External} {config : AccountClientConfig}

/-! ## Errors of the pure checks -/

@[simp] theorem plain_ok {α : Type} {a : α} : Plain (.ok a) := nofun

theorem plain_error {α : Type} {error : AccountError} (h : error.isRevocation = false) :
    Plain (.error error : AccountResult α) := by
  intro error' heq
  cases heq
  exact h

theorem plain_bind {α β : Type} {r : AccountResult α} {f : α → AccountResult β} (hr : Plain r)
    (hf : ∀ a, Plain (f a)) : Plain (r >>= f) := by
  intro error h
  rcases except_bind_eq_error.mp h with h | ⟨a, _, h⟩
  · exact hr error h
  · exact hf a error h

theorem plain_rejectIf {c : Prop} [Decidable c] {error : AccountError}
    (h : error.isRevocation = false) : Plain (rejectIf c error) := by
  intro error' heq
  obtain ⟨_, rfl⟩ := rejectIf_eq_error.mp heq
  exact h

theorem discoveryUrl_plain (issuer : Url) : Plain (discoveryUrl crates issuer) := by
  unfold discoveryUrl
  split
  · exact plain_ok
  · exact plain_error rfl

theorem validateHttpsUrl_plain (url : Url) (allowQuery : Bool) :
    Plain (validateHttpsUrl url allowQuery) := by
  unfold validateHttpsUrl
  split
  · exact plain_error rfl
  · exact plain_ok

theorem validateOidcUrl_plain (url : Url) (allowQuery : Bool) :
    Plain (config.validateOidcUrl url allowQuery) := by
  refine plain_bind (validateHttpsUrl_plain url allowQuery) fun _ => ?_
  refine plain_bind (plain_bind (validateHttpsUrl_plain url true) fun _ => plain_ok) fun _ => ?_
  exact plain_rejectIf rfl

theorem parseDocument_plain {T : Type} (decode : Bytes → Option T) (response : WireResponse) :
    Plain (parseDocument decode response) := by
  unfold parseDocument
  split
  · exact plain_error rfl
  · split
    · exact plain_ok
    · exact plain_error rfl

theorem checkDiscovery_plain (response : WireResponse) :
    Plain (checkDiscovery crates config response) := by
  refine plain_bind (parseDocument_plain _ _) fun discovery => ?_
  refine plain_bind (plain_rejectIf rfl) fun _ => ?_
  refine plain_bind (validateOidcUrl_plain _ _) fun _ => ?_
  refine plain_bind (validateOidcUrl_plain _ _) fun _ => ?_
  exact plain_bind (plain_rejectIf rfl) fun _ => plain_ok

theorem checkJwks_plain (response : WireResponse) : Plain (checkJwks crates response) :=
  plain_bind (parseDocument_plain _ _) fun _ => plain_bind (plain_rejectIf rfl) fun _ => plain_ok

theorem endpoint_parse_plain (method : HttpMethod) (path : Text) :
    Plain (AccountEndpoint.parse crates method path) := by
  unfold AccountEndpoint.parse
  split
  · exact plain_ok
  · dsimp only
    split
    · split
      · exact plain_ok
      · exact plain_error rfl
    · split
      · exact plain_ok
      · exact plain_error rfl
    · exact plain_error rfl

theorem validateAccountPayload_plain (bytes : Bytes) :
    Plain (validateAccountPayload crates bytes) := by
  unfold validateAccountPayload
  split
  · exact plain_error rfl
  · split
    · exact plain_error rfl
    · split
      · exact plain_ok
      · exact plain_error rfl

theorem json_plain (endpoint : AccountEndpoint) (token : Option SecretString)
    (content : WireContent) : Plain (WireRequest.json crates endpoint token content) := by
  unfold WireRequest.json
  split
  · exact plain_error rfl
  · refine plain_bind (plain_bind (endpoint_parse_plain _ _) fun _ => ?_) fun _ => plain_ok
    refine plain_bind (plain_rejectIf rfl) fun _ => ?_
    split
    · exact validateAccountPayload_plain _
    · exact plain_ok

theorem decodePart_plain (value : Text) : Plain (decodePart crates value) := by
  unfold decodePart
  split
  · exact plain_error rfl
  · split
    · exact plain_ok
    · exact plain_error rfl

theorem decodeJsonPart_plain {T : Type} (decode : Bytes → Option T) (value : Text) :
    Plain (decodeJsonPart crates decode value) := by
  refine plain_bind (decodePart_plain value) fun bytes => ?_
  split
  · exact plain_ok
  · exact plain_error rfl

theorem decodeJwkComponent_plain (value : Text) : Plain (decodeJwkComponent crates value) :=
  plain_bind (decodePart_plain value) fun _ => plain_bind (plain_rejectIf rfl) fun _ => plain_ok

theorem checkNonce_plain (expected actual : Option SecretString) :
    Plain (checkNonce expected actual) := by
  unfold checkNonce
  split
  · exact plain_rejectIf rfl
  · exact plain_error rfl
  · exact plain_error rfl
  · exact plain_ok

theorem validateClaims_plain (claims : TokenClaims) (nonce : Option SecretString) (now : Nat) :
    Plain (validateClaims config claims nonce now) := by
  refine plain_bind (plain_rejectIf rfl) fun _ => ?_
  refine plain_bind (plain_rejectIf rfl) fun _ => ?_
  exact plain_bind (checkNonce_plain _ _) fun _ => plain_ok

theorem verifyIdToken_plain (provider : ValidatedProvider) (idToken : SecretString)
    (nonce : Option SecretString) (now : Nat) :
    Plain (provider.verifyIdToken crates config idToken nonce now) := by
  refine plain_bind (plain_rejectIf rfl) fun _ => ?_
  split
  · refine plain_bind (plain_rejectIf rfl) fun _ => ?_
    refine plain_bind (decodeJsonPart_plain _ _) fun header => ?_
    refine plain_bind (decodeJsonPart_plain _ _) fun claims => ?_
    refine plain_bind (decodePart_plain _) fun signature => ?_
    refine plain_bind (plain_rejectIf rfl) fun _ => ?_
    refine plain_bind (plain_rejectIf rfl) fun _ => ?_
    split
    · refine plain_bind (plain_rejectIf rfl) fun _ => ?_
      refine plain_bind (decodeJwkComponent_plain _) fun _ => ?_
      refine plain_bind (decodeJwkComponent_plain _) fun _ => ?_
      refine plain_bind (plain_rejectIf rfl) fun _ => ?_
      exact plain_bind (plain_rejectIf rfl) fun _ => validateClaims_plain _ _ _
    · exact plain_error rfl
  · exact plain_error rfl

theorem acceptSession_plain (provider : ValidatedProvider) (nonce : SecretString)
    (expected : Option StoredCredential) (wire : SessionWire) (now : Nat) :
    Plain (acceptSession crates config provider nonce expected wire now) := by
  refine plain_bind (verifyIdToken_plain _ _ _ _) fun subject => ?_
  refine plain_bind (plain_rejectIf rfl) fun _ => plain_bind ?_ fun _ => plain_ok
  unfold StoredCredential.new
  split
  · exact plain_ok
  · exact plain_error rfl

/-! ## The refresh -/

section

variable {σ : Type} {env : σ → (e : Event) → e.Answer × σ}

/-- What a refresh that returned `active` in `s'` did last: a request for a session was answered
with one, its credential was saved, and the lock was released. -/
structure Renewed (crates : External) (env : σ → (e : Event) → e.Answer × σ)
    (active : ActiveSession) (s' : σ) : Prop where
  granted : ∃ s request deadline response wire,
    (env s (.send request deadline)).1 = .ok response
      ∧ request.grants = true ∧ response.status = 200
      ∧ crates.decodeSession response.body = some wire
      ∧ active.accessToken = ⟨wire.accessToken⟩ ∧ active.credential.deviceId = wire.deviceId
      ∧ s' = (env (env (env (env s (.send request deadline)).2 .nowUnix).2
        (.save active.credential)).2 .release).2
      ∧ (env (env (env s (.send request deadline)).2 .nowUnix).2 (.save active.credential)).1.isOk
        = true
  bounded : active.accessToken.isBoundedAscii = true

/-- Where the refresh is before it releases the lock. -/
def RenewedBefore (crates : External) (env : σ → (e : Event) → e.Answer × σ)
    (r : AccountResult ActiveSession) (s : σ) : Prop :=
  ∀ active, r = .ok active → Renewed crates env active (env s .release).2

theorem renewedBefore_error {error : AccountError} {s : σ} :
    RenewedBefore crates env (.error error) s := by
  intro active h
  cases h

theorem failRefresh_keeps {rely : σ → Event → Prop} {error : AccountError} {s : σ}
    {Q : AccountResult ActiveSession → σ → Prop} (hQ : ∀ s', Q (.error error) s') :
    Keeps env rely (fun _ _ => True) Q (failRefresh error) s := by
  unfold failRefresh
  split
  · exact keeps_ask_bind.mpr fun _ => ⟨trivial, hQ _⟩
  · exact hQ s

/-- The part of a refresh before its request is answered gives no session. -/
theorem keeps_bind_any {α β : Type} {rely : σ → Event → Prop} {p : AccountProg α}
    {f : α → AccountProg β} {s : σ} {Q : AccountResult β → σ → Prop} {q : Event → Prop}
    (hp : Only q p) (hf : ∀ a s', Keeps env rely (fun _ _ => True) Q (f a) s')
    (herr : ∀ error s', Q (.error error) s') :
    Keeps env rely (fun _ _ => True) Q (p >>= f) s :=
  keeps_bind (R := fun _ _ => True)
    (keeps_of_only (I := fun _ => True) (fun _ _ _ _ _ => ⟨trivial, trivial⟩) hp trivial)
    (fun a s' _ => hf a s') fun error s' _ => herr error s'

theorem refreshAnswered_renewed {stored : StoredCredential} {provider : ValidatedProvider}
    {nonce : SecretString} {s : σ} {request : WireRequest} {deadline : Nat}
    (hgrants : request.grants = true) :
    Keeps env (fun _ _ => True) (fun _ _ => True) (RenewedBefore crates env)
      (refreshAnswered crates config stored provider nonce (env s (.send request deadline)).1)
      (env s (.send request deadline)).2 := by
  cases hanswer : (env s (.send request deadline)).1 with
  | error error => exact failRefresh_keeps fun _ => renewedBefore_error
  | ok response =>
    show Keeps env _ _ _ (if response.status ≠ 200 then _ else _) _
    by_cases hstatus : response.status ≠ 200
    · rw [if_pos hstatus]
      exact failRefresh_keeps fun _ => renewedBefore_error
    · rw [if_neg hstatus]
      unfold validateSession
      rw [bind_assoc]
      refine keeps_ofExcept_bind (fun wire hwire => ?_) fun _ _ => renewedBefore_error
      rw [bind_assoc]
      refine keeps_ask_bind.mpr fun _ => ⟨trivial, ?_⟩
      refine keeps_ofExcept_bind (fun session hsession => ?_) fun _ _ => renewedBefore_error
      have hverdict : sessionVerdict crates config provider nonce (some stored) response
          (env (env s (.send request deadline)).2 .nowUnix).1 = .ok session :=
        except_bind_eq_ok.mpr ⟨wire, hwire, hsession⟩
      unfold storeRefreshed
      refine keeps_ask_bind.mpr fun _ => ⟨trivial, ?_⟩
      cases hsaved : (env (env (env s (.send request deadline)).2 .nowUnix).2
          (.save session.credential)).1 with
      | error error =>
        refine keeps_bind_any bestEffortRevoke_quiet (fun _ s₁ => ?_) fun _ _ => renewedBefore_error
        exact keeps_ask_bind.mpr fun _ => ⟨trivial, renewedBefore_error⟩
      | ok _ =>
        intro active hactive
        cases hactive
        obtain ⟨wire', hdecode, haccepted⟩ := sessionVerdict_ok hverdict
        rw [checkSessionWire_ok hwire] at hdecode
        cases hdecode
        refine ⟨⟨s, request, deadline, response, wire, hanswer, hgrants, by omega,
          checkSessionWire_ok hwire, ?_, haccepted.deviceId, rfl, by rw [hsaved]; rfl⟩,
          (sessionVerdict_bounded hverdict).1⟩
        obtain ⟨_, _, h⟩ := except_bind_eq_ok.mp hsession
        obtain ⟨_, _, h⟩ := except_bind_eq_ok.mp h
        obtain ⟨_, _, h⟩ := except_bind_eq_ok.mp h
        cases h
        rfl

theorem refreshAccess_renewed (s : σ) :
    Keeps env (fun _ _ => True) (fun _ _ => True)
      (fun r s' => ∀ active, r = .ok active → Renewed crates env active s')
      (refreshAccess crates config) s := by
  refine keeps_ask_bind.mpr fun _ => ⟨trivial, ?_⟩
  refine keeps_ofExcept_bind (fun _ _ => ?_) fun _ _ active h => by cases h
  refine keeps_ensuring (keeps_mono (Q := RenewedBefore crates env) ?_ fun r s' h => ?_)
  · unfold refreshLocked load
    rw [bind_assoc]
    refine keeps_ask_bind.mpr fun _ => ⟨trivial, ?_⟩
    refine keeps_ofExcept_bind (fun stored _ => ?_) fun _ _ => renewedBefore_error
    cases stored with
    | none => exact renewedBefore_error
    | some stored =>
      refine keeps_failIf_bind (fun _ => ?_) fun _ => renewedBefore_error
      refine keeps_bind_any discoverProvider_aside (fun provider _ => ?_)
        fun _ _ => renewedBefore_error
      refine keeps_bind_any freshSecret_aside (fun nonce _ => ?_) fun _ _ => renewedBefore_error
      unfold trySend requestDeadline
      rw [bind_assoc]
      refine keeps_ofExcept_bind (fun request hrequest => ?_) fun _ _ => renewedBefore_error
      rw [bind_assoc]
      refine keeps_bind_any nowUnix_aside (fun now s₁ => ?_) fun _ _ => renewedBefore_error
      refine keeps_ask_bind.mpr fun _ => ⟨trivial, ?_⟩
      exact refreshAnswered_renewed ((content_of_refresh hrequest).2.1)
  · exact keeps_ask_bind.mpr fun _ => ⟨trivial, h⟩

/-- What a refresh that returned a session did last. -/
theorem refreshAccess_ok {s s' : σ} {active : ActiveSession}
    (h : run env (refreshAccess crates config) s = some (.ok active, s')) :
    Renewed crates env active s' :=
  keeps_run (refreshAccess_renewed s) (fun _ _ => trivial) h active rfl

/-- No answer so far said that the session was revoked. -/
def Untold (crates : External) (env : σ → (e : Event) → e.Answer × σ) (s : σ) (e : Event) : Prop :=
  ¬ReportsRevocation crates e (env s e).1

/-- The rule for the steps that are not told of a revocation. -/
theorem keeps_plain_bind {α β : Type} {p : AccountProg α} {f : α → AccountProg β} {s : σ}
    (hp : Keeps env (Untold crates env) (fun _ _ => True) (fun r _ => Plain r) p s)
    (hf : ∀ a s', Keeps env (Untold crates env) (fun _ _ => True) (fun r _ => Plain r) (f a) s') :
    Keeps env (Untold crates env) (fun _ _ => True) (fun r _ => Plain r) (p >>= f) s :=
  keeps_bind hp (fun a s' _ => hf a s') fun error _ h => by
    intro error' heq
    cases heq
    exact h error rfl

theorem keeps_plain_ofExcept {α : Type} {r : AccountResult α} {s : σ} (h : Plain r) :
    Keeps env (Untold crates env) (fun _ _ => True) (fun r _ => Plain r) (ofExcept r) s := h

theorem keeps_plain_ask {e : Event} {s : σ} :
    Keeps env (Untold crates env) (fun _ _ => True) (fun r _ => Plain r) (raise e) s :=
  fun _ => ⟨trivial, plain_ok⟩

theorem discoverProvider_plain (hlocal : LocalErrors env) {deadline : Nat} (s : σ) :
    Keeps env (Untold crates env) (fun _ _ => True) (fun r _ => Plain r)
      (discoverProvider crates config deadline) s := by
  refine keeps_plain_bind ?_ fun _ s₁ => ?_
  · refine keeps_plain_bind keeps_plain_ask fun cancelled _ => ?_
    cases cancelled with
    | true => exact plain_error rfl
    | false => exact keeps_plain_bind keeps_plain_ask fun _ _ => plain_rejectIf rfl
  · refine keeps_plain_bind (keeps_plain_bind keeps_plain_ask fun _ _ => plain_ok) fun deadline _ => ?_
    refine keeps_plain_bind (discoveryUrl_plain _) fun url _ => ?_
    refine keeps_plain_bind (validateOidcUrl_plain _ _) fun _ s₂ => ?_
    refine keeps_ask_bind.mpr fun _ => ⟨trivial, ?_⟩
    refine keeps_plain_bind (hlocal.document _ _ _ _) fun response _ => ?_
    refine keeps_plain_bind (checkDiscovery_plain _) fun discovery s₃ => ?_
    refine keeps_ask_bind.mpr fun _ => ⟨trivial, ?_⟩
    refine keeps_plain_bind (hlocal.document _ _ _ _) fun response _ => ?_
    exact keeps_plain_bind (checkJwks_plain _) fun _ _ => plain_ok

theorem checkSessionWire_plain {response : WireResponse}
    (h : Plain (parseSuccess crates crates.decodeSession response 200)) :
    Plain (checkSessionWire crates response) := by
  refine plain_bind h fun wire => plain_bind (plain_rejectIf rfl) fun _ => ?_
  exact plain_bind (plain_rejectIf rfl) fun _ => plain_ok

theorem bestEffortRevoke_plain {token : SecretString} (s : σ) :
    Keeps env (Untold crates env) (fun _ _ => True) (fun r _ => Plain r)
      (bestEffortRevoke crates config token) s := by
  unfold bestEffortRevoke
  split
  · refine keeps_plain_bind (keeps_plain_bind plain_ok fun request _ => ?_) fun _ _ => plain_ok
    exact keeps_plain_bind (keeps_plain_bind keeps_plain_ask fun _ _ => plain_ok)
      fun _ _ => keeps_plain_ask
  · exact plain_ok

theorem refreshAnswered_plain (hlocal : LocalErrors env) {stored : StoredCredential}
    {provider : ValidatedProvider} {nonce : SecretString} {s s₁ : σ} {request : WireRequest}
    {deadline : Nat} (hendpoint : request.endpoint = .refresh)
    (huntold : Untold crates env s (.send request deadline)) :
    Keeps env (Untold crates env) (fun _ _ => True) (fun r _ => Plain r)
      (refreshAnswered crates config stored provider nonce (env s (.send request deadline)).1)
      s₁ := by
  unfold Untold at huntold
  cases hanswer : (env s (.send request deadline)).1 with
  | error error =>
    rw [hanswer] at huntold
    have herror : error.isRevocation = false := by
      by_contra h
      exact huntold ⟨hendpoint, by simpa using h⟩
    exact failRefresh_keeps fun _ => plain_error herror
  | ok response =>
    rw [hanswer] at huntold
    have hparse : Plain (parseSuccess crates crates.decodeSession response 200) := by
      by_contra h
      exact huntold (.inr ⟨hendpoint, h⟩)
    show Keeps env _ _ _ (if response.status ≠ 200 then _ else _) _
    by_cases hstatus : response.status ≠ 200
    · rw [if_pos hstatus]
      refine failRefresh_keeps fun _ => plain_error (hparse _ ?_)
      unfold parseSuccess
      rw [if_pos (by simp [hstatus])]
    · rw [if_neg hstatus]
      refine keeps_plain_bind ?_ fun session s₂ => ?_
      · refine keeps_plain_bind (checkSessionWire_plain hparse) fun wire _ => ?_
        exact keeps_plain_bind keeps_plain_ask fun now _ => acceptSession_plain _ _ _ _ _
      · unfold storeRefreshed
        refine keeps_ask_bind.mpr fun _ => ⟨trivial, ?_⟩
        have hsave := hlocal.save s₂ session.credential
        cases hsaved : (env s₂ (.save session.credential)).1 with
        | error error =>
          have herror := hsave error hsaved
          refine keeps_plain_bind (bestEffortRevoke_plain _) fun _ s₃ => ?_
          exact keeps_ask_bind.mpr fun _ => ⟨trivial, plain_error herror⟩
        | ok _ => exact plain_ok

theorem refreshAccess_plain (hlocal : LocalErrors env) (s : σ) :
    Keeps env (Untold crates env) (fun _ _ => True) (fun r _ => Plain r)
      (refreshAccess crates config) s := by
  refine keeps_ask_bind.mpr fun _ => ⟨trivial, ?_⟩
  refine keeps_plain_bind (hlocal.acquire _ _) fun _ s₁ => ?_
  refine keeps_ensuring (keeps_mono (Q := fun r _ => Plain r) ?_ fun r s' h => ?_)
  · unfold refreshLocked load
    refine keeps_plain_bind (keeps_ask_bind.mpr fun _ => ⟨trivial, hlocal.load _⟩) fun stored s₂ => ?_
    cases stored with
    | none => exact plain_error rfl
    | some stored =>
      refine keeps_plain_bind (plain_rejectIf rfl) fun _ _ => ?_
      refine keeps_plain_bind (discoverProvider_plain hlocal _) fun provider _ => ?_
      refine keeps_plain_bind ?_ fun nonce _ => ?_
      · refine keeps_ask_bind.mpr fun _ => ⟨trivial, ?_⟩
        exact keeps_plain_bind (hlocal.fillRandom _ _) fun _ _ => plain_ok
      · unfold trySend requestDeadline
        rw [bind_assoc]
        refine keeps_ofExcept_bind (fun request hrequest => ?_) fun error herror => ?_
        · rw [bind_assoc]
          refine keeps_plain_bind (keeps_plain_bind keeps_plain_ask fun _ _ => plain_ok)
            fun deadline s₃ => ?_
          exact fun huntold => ⟨trivial,
            refreshAnswered_plain hlocal (endpoint_of_json hrequest) huntold⟩
        · exact plain_error (json_plain _ _ _ error herror)
  · exact keeps_ask_bind.mpr fun _ => ⟨trivial, h⟩

/-- A refresh ends in a revocation only where the server said so. -/
theorem refreshAccess_reported (hlocal : LocalErrors env) {s s' : σ} {error : AccountError}
    (h : run env (refreshAccess crates config) s = some (.error error, s'))
    (herror : error.isRevocation = true) :
    ∃ call ∈ calls env (refreshAccess crates config) s,
      ReportsRevocation crates call.2 (env call.1 call.2).1 := by
  by_contra hnone
  have hplain := keeps_run (refreshAccess_plain hlocal s)
    (fun call hcall hreports => hnone ⟨call, hcall, hreports⟩) h
  have := hplain error rfl
  rw [herror] at this
  cases this

/-! ## The report -/

/-- An event that leaves the store as it is. -/
theorem slot_aside {slot : σ → Option StoredCredential} (hslot : StoreSlot env slot) (s : σ)
    {e : Event} (he : e.Quiet) : slot (env s e).2 = slot s := by
  rw [hslot.after]
  cases e with
  | load => exact he.elim
  | save credential => exact he.elim
  | delete => exact he.elim
  | getOidcDocument kind url deadline => exact he.elim
  | _ => rfl

theorem slot_quiet {slot : σ → Option StoredCredential} (hslot : StoreSlot env slot) {α : Type}
    {p : AccountProg α} (hp : Only Event.Quiet p) {s s' : σ} {r : AccountResult α}
    (hrun : run env p s = some (r, s')) : slot s' = slot s := by
  have hyields : Yields env (fun _ s' => slot s' = slot s) p s :=
    yields_of_only (F := fun s s' => slot s' = slot s) (fun _ => rfl)
      (fun _ _ _ h h' => h'.trans h) (fun s e he => slot_aside (e := e) hslot s he) hp s
  obtain ⟨r', s₁, hrun', h⟩ := hyields
  rw [hrun] at hrun'
  cases hrun'
  exact h

theorem Renewed.slot {slot : σ → Option StoredCredential} (hslot : StoreSlot env slot)
    {active : ActiveSession} {s : σ} (h : Renewed crates env active s) :
    slot s = some active.credential := by
  obtain ⟨s₀, request, deadline, _, _, _, _, _, _, _, _, rfl, hsaved⟩ := h.granted
  rw [slot_aside hslot _ (e := .release) trivial, hslot.after]
  revert hsaved
  cases (env (env (env s₀ (.send request deadline)).2 .nowUnix).2 (.save active.credential)).1 with
  | error error =>
    intro h
    cases h
  | ok _ =>
    intro _
    rfl

theorem run_ofExcept {α : Type} {r r' : AccountResult α} {s s' : σ}
    (h : run env (ofExcept r) s = some (r', s')) : r = r' ∧ s = s' := by
  cases h
  exact ⟨rfl, rfl⟩

/-- A delete that is answered empties the slot. -/
theorem run_delete {slot : σ → Option StoredCredential} (hslot : StoreSlot env slot) {s s' : σ}
    {removed : Bool} (hrun : run env delete s = some (.ok removed, s')) :
    removed = (slot s).isSome ∧ slot s' = none := by
  rcases run_bind_cases hrun with ⟨_, h, _⟩ | ⟨answer, s₁, hask, h⟩
  · cases h
  · cases hask
    have hdelete := hslot.delete s removed
    have hafter := hslot.after s .delete
    cases hanswer : (env s .delete).1 with
    | error error =>
      rw [hanswer] at h
      cases h
    | ok removed' =>
      rw [hanswer] at h hafter
      cases h
      exact ⟨hdelete hanswer, hafter⟩

theorem run_load {s : σ} {answer : AccountResult (Option StoredCredential)}
    (h : (env s .load).1 = answer) : run env load s = some (answer, (env s .load).2) := by
  show run env (ofExcept (env s .load).1) _ = _
  rw [h]
  rfl

theorem run_delete_isOk {s s' : σ} {removed : Bool}
    (hrun : run env delete s = some (.ok removed, s')) : (env s .delete).1.isOk = true := by
  rcases run_bind_cases hrun with ⟨_, h, _⟩ | ⟨answer, s₁, hask, h⟩
  · cases h
  · cases hask
    obtain ⟨hanswer, _⟩ := run_ofExcept h
    rw [hanswer]
    rfl

theorem delete_run {s : σ} (h : (env s .delete).1.isOk = true) :
    ∃ removed, run env delete s = some (.ok removed, (env s .delete).2) := by
  show ∃ removed, run env (ofExcept (env s .delete).1) (env s .delete).2
    = some (.ok removed, (env s .delete).2)
  cases hanswer : (env s .delete).1 with
  | error error =>
    rw [hanswer] at h
    cases h
  | ok removed => exact ⟨removed, rfl⟩

/-- A revocation that was sent: its request is among the events of the run. -/
theorem run_send {r : AccountResult WireRequest} {deadline : Nat} {s s' : σ}
    {response : WireResponse}
    (hrun : run env (send config r deadline) s = some (.ok response, s')) :
    ∃ request deadlineUnix s₁, r = .ok request
      ∧ (s₁, .send request deadlineUnix) ∈ calls env (send config r deadline) s
      ∧ (env s₁ (.send request deadlineUnix)).1 = .ok response := by
  cases r with
  | error error => cases hrun
  | ok request =>
    refine ⟨request, _, _, rfl, List.mem_cons.mpr (.inr (List.mem_cons.mpr (.inl rfl))), ?_⟩
    generalize hanswer : (env (env s .nowUnix).2 (.send request
      (min (saturatingAdd (env s .nowUnix).1 config.requestTimeout.asSecs) deadline))).1 = answer
    have hrun' : run env (ofExcept answer) (env (env s .nowUnix).2 (.send request
        (min (saturatingAdd (env s .nowUnix).1 config.requestTimeout.asSecs) deadline))).2
        = some (.ok response, s') := by
      rw [← hanswer]
      exact hrun
    cases hrun'
    rfl

/-- What a logout that revoked the session reports. -/
theorem revokeAndForget_report {slot : σ → Option StoredCredential} (hslot : StoreSlot env slot)
    {scope : LogoutScope} {active : ActiveSession} {s s' : σ} {result : LogoutResult}
    (hs : (slot s).isSome = true)
    (hrun : run env (revokeAndForget crates config scope active) s = some (.ok result, s')) :
    result.localCredentialRemoved = true ∧ slot s' = none
      ∧ ∃ call ∈ calls env (revokeAndForget crates config scope active) s,
        ReportsRevocation crates call.2 (env call.1 call.2).1 := by
  have hlist : Only Event.Quiet (runIf (scope = .allDevices) (do
      let devices ← listDevicesWithAccess crates config active.accessToken
      revokeEach crates config active.accessToken devices.devices)) :=
    only_runIf (only_bind listDevicesWithAccess_quiet fun devices => revokeEach_quiet _)
  unfold revokeAndForget at hrun ⊢
  rcases run_bind_cases hrun with ⟨_, _, h⟩ | ⟨_, s₁, hrun₁, hrest⟩
  · cases h
  rcases run_bind_cases hrest with ⟨_, _, h⟩ | ⟨response, s₂, hrun₂, hrest'⟩
  · cases h
  rcases run_bind_cases hrest' with ⟨_, _, h⟩ | ⟨_, s₃, hrun₃, hrest''⟩
  · cases h
  obtain ⟨hconfirmed, rfl⟩ := run_ofExcept hrun₃
  rcases run_bind_cases hrest'' with ⟨_, _, h⟩ | ⟨removed, s₄, hrun₄, hend⟩
  · cases h
  cases hend
  obtain ⟨hremoved, hnone⟩ := run_delete hslot hrun₄
  have hsend := slot_quiet hslot (send_quiet quiet_accountJson_empty) hrun₂
  rw [hsend, slot_quiet hslot hlist hrun₁, hs] at hremoved
  obtain ⟨request, deadlineUnix, s₅, hrequest, hcall, hanswer⟩ := run_send hrun₂
  refine ⟨hremoved, hnone, _, calls_bind_right hrun₁ (calls_bind_left hcall), ?_⟩
  show ReportsRevocation crates _ (env s₅ (.send request deadlineUnix)).1
  rw [hanswer]
  exact .inl ⟨endpoint_of_json hrequest, hconfirmed⟩

/-- Where the refresh succeeds, or fails on a store that keeps its credential, the report of a
logout that asks the server is right. -/
theorem logout_remote {slot : σ → Option StoredCredential} (hslot : StoreSlot env slot)
    (hlocal : LocalErrors env) {scope : LogoutScope} {s s' : σ} {stored : StoredCredential}
    {result : LogoutResult} (hload : (env s .load).1 = .ok (some stored))
    (hnot : ¬ForgottenByRefresh crates config env slot scope .requireRemoteRevocation s)
    (hrun : run env (logout crates config scope .requireRemoteRevocation) s
      = some (.ok result, s')) :
    Truthful crates config env slot scope .requireRemoteRevocation s s' result := by
  have hstored := hslot.load s _ hload
  have hkept : slot (env s .load).2 = slot s := by
    rw [hslot.after, hload]
    rfl
  have hisSome : (slot s).isSome = true := by
    rw [← hstored]
    rfl
  rcases run_bind_cases hrun with ⟨_, _, h⟩ | ⟨stored', s₁, hrun₁, hrest⟩
  · cases h
  obtain ⟨rfl, rfl⟩ : stored' = some stored ∧ s₁ = (env s .load).2 := by
    rw [run_load hload] at hrun₁
    cases hrun₁
    exact ⟨rfl, rfl⟩
  rcases run_bind_cases hrest with ⟨_, _, h⟩ | ⟨refreshed, s₂, hattempt, hthen⟩
  · cases h
  obtain ⟨_, hok, hrefresh⟩ := run_attempt_cases hattempt
  cases hok
  have hcalls : ∀ call ∈ calls env (refreshAccess crates config) (env s .load).2,
      call ∈ calls env (logout crates config scope .requireRemoteRevocation) s := fun call hcall =>
    calls_bind_right hrun₁ (calls_bind_left (by rw [attemptRefresh, calls_attempt]; exact hcall))
  cases refreshed with
  | ok active =>
    have hsome : (slot s₂).isSome = true := by
      rw [(refreshAccess_ok hrefresh).slot hslot]
      rfl
    obtain ⟨hremoved, hnone, call, hcall, hreport⟩ := revokeAndForget_report hslot hsome hthen
    exact ⟨by simp [hremoved, hnone, hisSome], fun _ => ⟨call,
      calls_bind_right hrun₁ (calls_bind_right hattempt hcall), hreport⟩⟩
  | error error =>
    change run env (if (error.isRevocation && decide (scope = .currentSession)) = true then _
      else _) s₂ = _ at hthen
    by_cases hbranch : (error.isRevocation && decide (scope = .currentSession)) = true
    · rw [if_pos hbranch] at hthen
      obtain ⟨herror, hscope⟩ := Bool.and_eq_true_iff.mp hbranch
      rcases run_bind_cases hthen with ⟨_, _, h⟩ | ⟨removed, s₃, hdelete, hend⟩
      · cases h
      cases hend
      obtain ⟨hremoved, hnone⟩ := run_delete hslot hdelete
      -- the refresh left the credential where it was: this delete removes it
      have hsome : (slot s₂).isSome = true := by
        by_contra hempty
        refine hnot ⟨of_decide_eq_true hscope, rfl, ⟨stored, hload⟩, error, s₂, hrefresh, herror,
          by simpa using hempty, run_delete_isOk hdelete⟩
      obtain ⟨call, hcall, hreport⟩ := refreshAccess_reported hlocal hrefresh herror
      exact ⟨by simp [hremoved, hnone, hisSome, hsome], fun _ => ⟨call, hcalls call hcall, hreport⟩⟩
    · rw [if_neg hbranch] at hthen
      split at hthen
      · cases hthen
      · cases hthen

/-- The report of a logout is right exactly where the refresh it begins with has not already
removed the credential. -/
theorem logout_truthful_iff (crates : External) (config : AccountClientConfig)
    {slot : σ → Option StoredCredential} (hslot : StoreSlot env slot) (hlocal : LocalErrors env)
    (scope : LogoutScope) (localPolicy : LocalLogoutPolicy) (s : σ) :
    (∀ result s', run env (logout crates config scope localPolicy) s = some (.ok result, s') →
        Truthful crates config env slot scope localPolicy s s' result)
      ↔ ¬ForgottenByRefresh crates config env slot scope localPolicy s := by
  constructor
  · rintro htruthful ⟨rfl, rfl, ⟨stored, hload⟩, error, s₂, hrefresh, herror, hempty, hdelete⟩
    obtain ⟨removed, hrun⟩ := delete_run hdelete
    obtain ⟨rfl, hnone⟩ := run_delete hslot hrun
    have hlogout : ∃ result, result.localCredentialRemoved = (slot s₂).isSome
        ∧ run env (logout crates config .currentSession .requireRemoteRevocation) s
          = some (.ok result, (env s₂ .delete).2) := by
      unfold logout
      rw [run_bind_ok (run_load hload)]
      show ∃ result, _ ∧ run env (attemptRefresh crates config >>= _) _ = _
      unfold attemptRefresh
      rw [run_bind_ok (run_attempt hrefresh)]
      show ∃ result, _ ∧ run env (if (error.isRevocation
        && decide (LogoutScope.currentSession = .currentSession)) = true then _ else _) s₂ = _
      rw [if_pos (by simp [herror]), run_bind_ok hrun]
      exact ⟨_, rfl, rfl⟩
    obtain ⟨result, hresult, hlogout⟩ := hlogout
    have hreport := (htruthful result _ hlogout).removed
    have hstored := hslot.load s _ hload
    rw [hresult, hempty, ← hstored] at hreport
    have := hreport.mpr ⟨rfl, hnone⟩
    cases this
  · intro hnot result s' hrun
    cases hanswer : (env s .load).1 with
    | error error =>
      unfold logout at hrun
      rw [run_bind_error (run_load hanswer)] at hrun
      cases hrun
    | ok stored =>
      have hstored := hslot.load s _ hanswer
      cases stored with
      | none =>
        unfold logout at hrun
        rw [run_bind_ok (run_load hanswer)] at hrun
        cases hrun
        exact ⟨by simp [← hstored], nofun⟩
      | some stored =>
        cases localPolicy with
        | requireRemoteRevocation => exact logout_remote hslot hlocal hanswer hnot hrun
        | confirmedLocalOnly =>
          unfold logout at hrun
          rw [run_bind_ok (run_load hanswer)] at hrun
          change run env (delete >>= _) _ = _ at hrun
          rcases run_bind_cases hrun with ⟨_, _, h⟩ | ⟨removed, s₁, hdelete, hend⟩
          · cases h
          cases hend
          obtain ⟨hremoved, hnone⟩ := run_delete hslot hdelete
          have hkept : slot (env s .load).2 = slot s := by
            rw [hslot.after, hanswer]
            rfl
          rw [hkept] at hremoved
          exact ⟨by simp [hremoved, hnone], nofun⟩

/-! ## A revocation that the refresh discovers -/

/-- The sample environment with its store as the state. -/
def storeEnv (rotation : WireResponse) (slot : Option StoredCredential) (e : Event) :
    e.Answer × Option StoredCredential :=
  (sampleAnswer rotation (State.initial slot : State Unit) e,
    slotAfter slot e (sampleAnswer rotation (State.initial slot : State Unit) e))

theorem storeEnv_slot (rotation : WireResponse) : StoreSlot (storeEnv rotation) id where
  load _ _ h := by
    cases h
    rfl
  delete _ _ h := by
    cases h
    rfl
  after _ _ := rfl

theorem storeEnv_local (rotation : WireResponse) : LocalErrors (storeEnv rotation) where
  load _ := plain_ok
  save _ _ := plain_ok
  acquire _ _ := plain_ok
  fillRandom _ _ := plain_ok
  document _ kind _ _ := by
    cases kind
    · exact plain_ok
    · exact plain_ok

/-- A server that answers a refresh by saying that the session was revoked. -/
def revokedCrates : External := { sampleCrates with
  decodeError := fun _ => some { error := "session_revoked".toList } }

def revokedResponse : WireResponse :=
  ⟨400, Text.asciiBytes "\x7b\"error\":\"session_revoked\"\x7d".toList⟩

/-- The report where the server is asked and answers. -/
theorem logout_truthful_sample :
    (∀ result s', run (storeEnv ⟨200, sampleBody nextSession⟩)
        (logout sampleCrates sampleConfig .currentSession .requireRemoteRevocation)
        (some sampleCredential) = some (.ok result, s') →
      Truthful sampleCrates sampleConfig (storeEnv ⟨200, sampleBody nextSession⟩) id
        .currentSession .requireRemoteRevocation (some sampleCredential) s' result)
      ↔ ¬ForgottenByRefresh sampleCrates sampleConfig (storeEnv ⟨200, sampleBody nextSession⟩) id
        .currentSession .requireRemoteRevocation (some sampleCredential) :=
  logout_truthful_iff sampleCrates sampleConfig (storeEnv_slot _) (storeEnv_local _) _ _ _

/-- The session was revoked elsewhere: the credential is removed and reported as not removed. -/
theorem logout_forgets : ∃ result s',
    run (storeEnv revokedResponse)
        (logout revokedCrates sampleConfig .currentSession .requireRemoteRevocation)
        (some sampleCredential) = some (.ok result, s')
      ∧ result.localCredentialRemoved = false ∧ s' = none
      ∧ ¬Truthful revokedCrates sampleConfig (storeEnv revokedResponse) id .currentSession
        .requireRemoteRevocation (some sampleCredential) s' result := by
  have hrun : (run (storeEnv revokedResponse)
      (logout revokedCrates sampleConfig .currentSession .requireRemoteRevocation)
      (some sampleCredential)).any (fun last =>
        last.1.toOption.any (fun result => !result.localCredentialRemoved) && last.2.isNone)
        = true := by
    decide +kernel
  obtain ⟨⟨r, s'⟩, hlast, hstate⟩ := (Option.any_eq_true _ _).mp hrun
  obtain ⟨hresult, hnone⟩ := Bool.and_eq_true_iff.mp hstate
  obtain ⟨result, hr, hremoved⟩ := (Option.any_eq_true _ _).mp hresult
  have hfalse : result.localCredentialRemoved = false := by simpa using hremoved
  have hempty : s' = none := Option.isNone_iff_eq_none.mp hnone
  refine ⟨result, s', ?_, hfalse, hempty, fun htruthful => ?_⟩
  · have hok : r = .ok result := ok_of_toOption hr
    rw [hlast, hok]
  · have := htruthful.removed.mpr ⟨rfl, hempty⟩
    rw [hfalse] at this
    cases this

end

end Kaleidoscope.Account
