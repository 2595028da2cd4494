import Kaleidoscope.Account.Client

/-!
# The store discipline of the account operations

A `View` is what one operation has seen through its own events: what the store last showed
it, the provider documents, and the session exchange that is answered and not stored yet.
`storeDiscipline` says when an operation may touch the store or present a refresh token:

- a save stores the session of the answered exchange, accepted at the clock that was read;
  a login saves only after its first and only look at the store showed it empty;
- a delete follows a look at the store, and is not a login's;
- a refresh presents the token of the credential that the store last showed.

    operation_follows        every operation follows the discipline, and ends `Settled`: an
                             answered refresh was stored, refused, or could not be deleted
-/

namespace Kaleidoscope.Account

open Prog

/-! ## Exchanges and views -/

namespace WireContent

/-- Whether a 200 answer to the request carries a session. -/
def grants : WireContent → Bool
  | .exchangePkce .. | .pollDevice .. | .refresh .. => true
  | .beginDevice .. | .beginLink _ | .empty => false

/-- The refresh token that the request presents. -/
def presents : WireContent → Option SecretString
  | .refresh _ token _ => some ⟨token⟩
  | _ => none

def nonce : WireContent → Option SecretString
  | .exchangePkce _ _ _ _ nonce _ | .beginDevice _ nonce _ | .refresh _ _ nonce => some ⟨nonce⟩
  | .pollDevice .. | .beginLink _ | .empty => none

end WireContent

namespace WireRequest

def grants (request : WireRequest) : Bool := request.content.any WireContent.grants

def presents (request : WireRequest) : Option SecretString :=
  request.content.bind WireContent.presents

def nonce (request : WireRequest) : Option SecretString := request.content.bind WireContent.nonce

end WireRequest

/-- A session exchange that was answered with 200: the credential it continues, and what its
answer is checked against. -/
structure Exchange where
  expected : Option StoredCredential
  provider : ValidatedProvider
  nonce : SecretString
  response : WireResponse

structure View where
  /-- the operation is a login -/
  login : Bool := false
  /-- an event was raised -/
  started : Bool := false
  /-- what the store last showed -/
  seen : Option (Option StoredCredential) := none
  /-- the last look at the store was the first event -/
  soleLook : Bool := false
  discovery : Option DiscoveryDocument := none
  jwks : Option JwkSet := none
  /-- the nonce last sent -/
  nonce : Option SecretString := none
  /-- the exchange that was answered and is neither stored nor deleted -/
  exchange : Option Exchange := none
  /-- the first reading of the clock since the exchange was answered -/
  clock : Option Nat := none
  /-- a delete failed since the exchange was answered -/
  deleteFailed : Bool := false

def View.provider (v : View) : Option ValidatedProvider :=
  match v.discovery, v.jwks with
  | some discovery, some jwks => some { discovery, jwks }
  | _, _ => none

section

variable (crates : External) (config : AccountClientConfig)

def Exchange.verdict (x : Exchange) (now : Nat) : AccountResult ActiveSession :=
  sessionVerdict crates config x.provider x.nonce x.expected x.response now

/-- The exchange that an answered request opens. -/
def View.answered (v : View) (request : WireRequest) (response : WireResponse) :
    Option Exchange :=
  if request.grants && response.status = 200 then
    match v.provider, request.nonce <|> v.nonce with
    | some provider, some nonce =>
      some { expected := if request.presents.isSome then v.seen.join else none,
             provider, nonce, response }
    | _, _ => none
  else none

def View.after (v : View) : (e : Event) → e.Answer → View
  | .nowUnix, now => { v with started := true, clock := v.clock <|> some now }
  | .load, .ok stored => { v with started := true, seen := some stored, soleLook := !v.started }
  | .save credential, .ok _ =>
    { v with started := true, seen := some (some credential), soleLook := false, exchange := none }
  | .delete, .ok _ =>
    { v with started := true, seen := some none, soleLook := false, exchange := none }
  | .delete, .error _ =>
    { v with started := true, deleteFailed := v.deleteFailed || v.exchange.isSome }
  | .getOidcDocument .discovery _ _, .ok response =>
    { v with started := true, discovery := (checkDiscovery crates config response).toOption }
  | .getOidcDocument .jwks _ _, .ok response =>
    { v with started := true, jwks := (checkJwks crates response).toOption }
  | .send request _, .ok response =>
    match v.answered request response with
    | some x => { v with started := true, nonce := request.nonce <|> v.nonce, exchange := some x,
                         clock := none, deleteFailed := false }
    | none => { v with started := true, nonce := request.nonce <|> v.nonce }
  | .send request _, .error _ => { v with started := true, nonce := request.nonce <|> v.nonce }
  | _, _ => { v with started := true }

/-- A delete follows a look at the store; a login does not delete. -/
structure View.MayDelete (v : View) : Prop where
  login : v.login = false
  seen : v.seen.isSome = true

/-- What an operation may do where it is. -/
def View.May (v : View) : Event → Prop
  | .send request _ =>
    (request.grants = true → v.exchange = none ∧ v.provider.isSome = true
      ∧ (request.nonce <|> v.nonce).isSome = true)
    ∧ ∀ token, request.presents = some token →
      ∃ stored, v.seen = some (some stored) ∧ stored.refreshToken = token
  | .save credential =>
    ∃ x now session, v.exchange = some x ∧ v.clock = some now
      ∧ x.verdict crates config now = .ok session ∧ session.credential = credential
      ∧ v.seen = some x.expected ∧ v.login = x.expected.isNone
      ∧ (x.expected = none → v.soleLook = true)
  | .delete => v.MayDelete
  | _ => True

def storeDiscipline : Protocol Event Event.Answer View where
  may := View.May crates config
  next := View.after crates config

/-- The answer of the exchange was refused: as it stands, or at the clock that was read. -/
def View.Refused (v : View) (x : Exchange) : Prop :=
  (∃ error, checkSessionWire crates x.response = .error error)
    ∨ ∃ now error, v.clock = some now ∧ x.verdict crates config now = .error error

/-- An answered refresh that is neither stored nor deleted was refused, or the delete failed. -/
def View.Settled (v : View) : Prop :=
  ∀ x stored, v.exchange = some x → x.expected = some stored →
    v.deleteFailed = true ∨ v.Refused crates config x

/-! ## Quiet events -/

/-- Neither the store nor a document nor a nonce nor a session is touched. -/
def Event.Quiet : Event → Prop
  | .load | .save _ | .delete | .getOidcDocument .. => False
  | .send request _ => request.grants = false ∧ request.nonce = none
  | _ => True

/-- What stays while an operation does not touch the store and opens no exchange. -/
structure Frame (v v' : View) : Prop where
  login : v'.login = v.login
  seen : v'.seen = v.seen
  soleLook : v'.soleLook = v.soleLook
  exchange : v'.exchange = v.exchange
  deleteFailed : v'.deleteFailed = v.deleteFailed
  nonce : v'.nonce = v.nonce
  clock : ∀ now, v.clock = some now → v'.clock = some now

/-- A frame in which the provider stays too. -/
structure Still (v v' : View) : Prop extends Frame v v' where
  provider : v'.provider = v.provider

end

variable {crates : External} {config : AccountClientConfig}

theorem Frame.rfl {v : View} : Frame v v :=
  ⟨Eq.refl _, Eq.refl _, Eq.refl _, Eq.refl _, Eq.refl _, Eq.refl _, fun _ h => h⟩

theorem Frame.trans {a b c : View} (h : Frame a b) (h' : Frame b c) : Frame a c :=
  ⟨h'.login.trans h.login, h'.seen.trans h.seen, h'.soleLook.trans h.soleLook,
    h'.exchange.trans h.exchange, h'.deleteFailed.trans h.deleteFailed, h'.nonce.trans h.nonce,
    fun now hn => h'.clock now (h.clock now hn)⟩

theorem View.MayDelete.frame {v v' : View} (h : v.MayDelete) (hf : Frame v v') : v'.MayDelete :=
  ⟨hf.login.trans h.login, by rw [hf.seen]; exact h.seen⟩

theorem Still.rfl {v : View} : Still v v := ⟨.rfl, Eq.refl _⟩

theorem Still.trans {a b c : View} (h : Still a b) (h' : Still b c) : Still a c :=
  ⟨h.toFrame.trans h'.toFrame, h'.provider.trans h.provider⟩

theorem after_quiet (crates : External) (config : AccountClientConfig) {e : Event} (he : e.Quiet)
    (v : View) (a : e.Answer) : Still v (v.after crates config e a) := by
  cases e with
  | load => exact he.elim
  | save credential => exact he.elim
  | delete => exact he.elim
  | getOidcDocument kind url deadlineUnix => exact he.elim
  | nowUnix =>
    refine ⟨⟨rfl, rfl, rfl, rfl, rfl, rfl, fun now hn => ?_⟩, rfl⟩
    simp [View.after, hn]
  | send request deadlineUnix =>
    obtain ⟨hg, hn⟩ := he
    cases a with
    | error x => exact ⟨⟨rfl, rfl, rfl, rfl, rfl, by simp [View.after, hn], fun _ h => h⟩, rfl⟩
    | ok response =>
      have hx : v.answered request response = none := by simp [View.answered, hg]
      refine ⟨⟨?_, ?_, ?_, ?_, ?_, ?_, ?_⟩, ?_⟩ <;> simp [View.after, hx, hn, View.provider]
  | _ => exact ⟨⟨rfl, rfl, rfl, rfl, rfl, rfl, fun _ h => h⟩, rfl⟩

theorem may_quiet (crates : External) (config : AccountClientConfig) {e : Event} (he : e.Quiet)
    (v : View) : v.May crates config e := by
  cases e with
  | load => exact he.elim
  | save credential => exact he.elim
  | delete => exact he.elim
  | getOidcDocument kind url deadlineUnix => exact he.elim
  | send request deadlineUnix =>
    obtain ⟨hg, hn⟩ := he
    refine ⟨fun h => absurd h (by simp [hg]), fun token ht => ?_⟩
    -- a request that presents a token grants a session
    cases hc : request.content with
    | none => simp [WireRequest.presents, hc] at ht
    | some content =>
      cases content <;>
        simp_all [WireRequest.presents, WireRequest.grants, WireContent.presents,
          WireContent.grants]
  | _ => trivial

/-- The frame rule for quiet programs. -/
theorem follows_of_quiet {α : Type} {p : AccountProg α} (hp : Only Event.Quiet p) {v : View}
    {Q : AccountResult α → View → Prop} (hQ : ∀ r v', Still v v' → Q r v') :
    Follows (storeDiscipline crates config) Q p v :=
  follows_of_only (F := Still) (fun _ => .rfl) (fun _ _ _ => .trans)
    (fun l _ he => ⟨may_quiet crates config he l, after_quiet crates config he l⟩) hp hQ

/-! ## Requests -/

theorem content_of_json {endpoint : AccountEndpoint} {token : Option SecretString}
    {content : WireContent} {request : WireRequest}
    (h : WireRequest.json crates endpoint token content = .ok request) :
    request.content = some content := by
  unfold WireRequest.json at h
  split at h
  next => cases h
  next body _ =>
    cases hv : WireRequest.validate crates ⟨endpoint, token, some content, body⟩ with
    | error x => simp [hv] at h
    | ok _ => simp [hv] at h; cases h; rfl

theorem content_of_accountEmpty {endpoint : AccountEndpoint} {token : SecretString}
    {request : WireRequest} (h : WireRequest.accountEmpty crates endpoint token = .ok request) :
    request.content = none := by
  unfold WireRequest.accountEmpty at h
  cases hv : WireRequest.validate crates ⟨endpoint, some token, none, ByteArray.empty⟩ with
  | error x => simp [hv] at h
  | ok _ => simp [hv] at h; cases h; rfl

/-- A request that carries no session and no nonce. -/
def QuietRequest (r : AccountResult WireRequest) : Prop :=
  ∀ request, r = .ok request → request.grants = false ∧ request.nonce = none

theorem quiet_accountEmpty {endpoint : AccountEndpoint} {token : SecretString} :
    QuietRequest (WireRequest.accountEmpty crates endpoint token) := by
  intro request h
  have hc := content_of_accountEmpty h
  simp [WireRequest.grants, WireRequest.nonce, hc]

theorem quiet_accountJson_empty {endpoint : AccountEndpoint} {token : SecretString} :
    QuietRequest (WireRequest.accountJson crates endpoint token .empty) := by
  intro request h
  have hc := content_of_json h
  simp [WireRequest.grants, WireRequest.nonce, hc, WireContent.grants, WireContent.nonce]

theorem quiet_beginLink {token : SecretString} {provider : Text} :
    QuietRequest (WireRequest.beginLink crates token provider) := by
  intro request h
  unfold WireRequest.beginLink at h
  cases hp : WireRequest.validateProvider provider with
  | error x => simp [hp] at h; cases h
  | ok _ =>
    simp [hp] at h
    have hc := content_of_json h
    simp [WireRequest.grants, WireRequest.nonce, hc, WireContent.grants, WireContent.nonce]

/-! ## Quiet programs -/

theorem nowUnix_quiet : Only Event.Quiet nowUnix := only_ask.mpr trivial

theorem requestDeadline_quiet {deadline : Nat} :
    Only Event.Quiet (requestDeadline config deadline) :=
  only_bind nowUnix_quiet fun _ => trivial

theorem ensureBefore_quiet {deadline : Nat} : Only Event.Quiet (ensureBefore deadline) := by
  refine only_bind (only_ask.mpr trivial) fun cancelled => ?_
  split
  · trivial
  · exact only_bind nowUnix_quiet fun now => trivial

theorem trySend_quiet {r : AccountResult WireRequest} (hr : QuietRequest r) {deadline : Nat} :
    Only Event.Quiet (trySend config r deadline) := by
  refine only_ofExcept_bind fun request h => only_bind requestDeadline_quiet fun _ => ?_
  exact only_ask.mpr (hr request h)

theorem send_quiet {r : AccountResult WireRequest} (hr : QuietRequest r) {deadline : Nat} :
    Only Event.Quiet (send config r deadline) :=
  only_bind (trySend_quiet hr) fun _ => trivial

theorem freshSecret_quiet : Only Event.Quiet (freshSecret crates) :=
  only_bind (only_ask.mpr trivial) fun _ => only_bind trivial fun _ => trivial

theorem bestEffortRevoke_quiet {token : SecretString} :
    Only Event.Quiet (bestEffortRevoke crates config token) := by
  unfold bestEffortRevoke
  split
  next request h =>
    refine only_bind (trySend_quiet ?_) fun _ => trivial
    rw [← h]
    exact quiet_accountJson_empty
  next => trivial

theorem listDevicesWithAccess_quiet {token : SecretString} :
    Only Event.Quiet (listDevicesWithAccess crates config token) := by
  refine only_bind (send_quiet quiet_accountEmpty) fun response => ?_
  exact only_ofExcept_bind fun wire _ => only_failIf_bind trivial

theorem revokeEach_quiet {token : SecretString} (devices : List DeviceSummary) :
    Only Event.Quiet (revokeEach crates config token devices) := by
  induction devices with
  | nil => trivial
  | cons device rest ih =>
    refine only_bind (send_quiet quiet_accountJson_empty) fun response => ?_
    exact only_ofExcept_bind fun _ _ => ih

theorem anyInvalidIdentity_quiet (identities : List ExternalIdentitySummary) :
    Only Event.Quiet (anyInvalidIdentity config identities) := by
  induction identities with
  | nil => trivial
  | cons identity rest ih =>
    unfold anyInvalidIdentity
    split
    · trivial
    · refine only_bind nowUnix_quiet fun now => ?_
      split
      · trivial
      · split
        · trivial
        · exact ih

/-! ## Sessions and the provider -/

theorem after_document (crates : External) (config : AccountClientConfig) (v : View)
    (kind : OidcDocument) (url : Url) (deadline : Nat) (answer : AccountResult WireResponse) :
    Frame v (v.after crates config (.getOidcDocument kind url deadline) answer) := by
  cases kind <;> cases answer <;> exact ⟨rfl, rfl, rfl, rfl, rfl, rfl, fun _ h => h⟩

theorem discover_follows {deadline : Nat} {v : View}
    {Q : AccountResult ValidatedProvider → View → Prop}
    (hok : ∀ provider v', Frame v v' → v'.provider = some provider → Q (.ok provider) v')
    (herr : ∀ error v', Frame v v' → Q (.error error) v') :
    Follows (storeDiscipline crates config) Q (discover crates config deadline) v := by
  refine follows_ofExcept_bind (fun url _ => ?_) fun x _ => herr x v .rfl
  refine follows_ofExcept_bind (fun _ _ => ?_) fun x _ => herr x v .rfl
  refine follows_ask_bind.mpr ⟨trivial, fun answer => ?_⟩
  have h₁ := after_document crates config v .discovery url deadline answer
  refine follows_ofExcept_bind (fun response hr => ?_) fun x _ => herr x _ h₁
  refine follows_ofExcept_bind (fun discovery hd => ?_) fun x _ => herr x _ h₁
  refine follows_ask_bind.mpr ⟨trivial, fun answer' => ?_⟩
  have h₂ := h₁.trans (after_document crates config _ .jwks
    discovery.jwksUri deadline answer')
  refine follows_ofExcept_bind (fun response' hr' => ?_) fun x _ => herr x _ h₂
  refine follows_ofExcept_bind (fun jwks hj => ?_) fun x _ => herr x _ h₂
  refine hok _ _ h₂ ?_
  subst hr
  subst hr'
  simp [storeDiscipline, View.after, View.provider, hd, hj, Except.toOption]

/-- What fetching the provider leaves behind. -/
structure Discovered (v : View) (r : AccountResult ValidatedProvider) (v' : View) : Prop
    extends Frame v v' where
  ok : ∀ provider, r = .ok provider → v'.provider = some provider

theorem discovered_error {v v' : View} {x : AccountError} (h : Frame v v') :
    Discovered v (.error x) v' :=
  ⟨h, fun _ h => nomatch h⟩

theorem discoverProvider_follows {deadline : Nat} {v : View} :
    Follows (storeDiscipline crates config) (Discovered v) (discoverProvider crates config deadline)
      v := by
  refine follows_bind (R := fun _ v' => Still v v')
    (follows_of_quiet ensureBefore_quiet fun _ _ h => h) (fun _ v₁ h₁ => ?_)
    fun x v₁ h₁ => discovered_error h₁.toFrame
  refine follows_bind (R := fun _ v' => Still v₁ v')
    (follows_of_quiet requestDeadline_quiet fun _ _ h => h) (fun _ v₂ h₂ => ?_)
    fun x v₂ h₂ => discovered_error (h₁.toFrame.trans h₂.toFrame)
  have h := h₁.toFrame.trans h₂.toFrame
  refine discover_follows (fun provider v' h' hp => ⟨h.trans h', ?_⟩)
    fun x v' h' => discovered_error (h.trans h')
  intro provider' hr
  cases hr
  exact hp

/-- The verdict of the program is the verdict of the exchange at the clock it read. -/
theorem validateSession_follows {x : Exchange} {v : View}
    (hclock : v.clock = none) {Q : AccountResult ActiveSession → View → Prop}
    (hok : ∀ session now v', Frame v v' → v'.clock = some now →
      x.verdict crates config now = .ok session → Q (.ok session) v')
    (herr : ∀ error v', Frame v v' → v'.Refused crates config x → Q (.error error) v') :
    Follows (storeDiscipline crates config) Q
      (validateSession crates config x.response x.provider x.nonce x.expected) v := by
  refine follows_ofExcept_bind (fun wire hw => ?_) fun error hw => herr error v .rfl ?_
  · have hv : ∀ now, x.verdict crates config now
        = acceptSession crates config x.provider x.nonce x.expected wire now := by
      intro now
      simp only [Exchange.verdict, sessionVerdict, hw]
      rfl
    refine follows_ask_bind.mpr ⟨trivial, fun now => ?_⟩
    have hframe : Frame v ((storeDiscipline crates config).next v .nowUnix now) :=
      (after_quiet crates config (e := .nowUnix) trivial v now).toFrame
    have hread : ((storeDiscipline crates config).next v .nowUnix now).clock = some now := by
      simp [storeDiscipline, View.after, hclock]
    cases ha : acceptSession crates config x.provider x.nonce x.expected wire now with
    | ok session => exact hok session now _ hframe hread ((hv now).trans ha)
    | error e => exact herr e _ hframe (.inr ⟨now, e, hread, (hv now).trans ha⟩)
  · exact .inl ⟨error, hw⟩

/-! ## The refresh -/

theorem load_follows {α : Type} {f : Option StoredCredential → AccountProg α} {v : View}
    {Q : AccountResult α → View → Prop}
    (hok : ∀ stored, Follows (storeDiscipline crates config) Q (f stored)
      { v with started := true, seen := some stored, soleLook := !v.started })
    (herr : ∀ x, Q (.error x) { v with started := true }) :
    Follows (storeDiscipline crates config) Q (load >>= f) v := by
  refine ⟨trivial, fun answer => ?_⟩
  cases answer with
  | error x => exact herr x
  | ok stored => exact hok stored

/-- A delete that is allowed leaves no exchange open, or is recorded as failed. -/
theorem delete_follows {α : Type} {f : AccountResult Bool → AccountProg α} {v : View}
    {Q : AccountResult α → View → Prop} (hv : v.MayDelete)
    (hnext : ∀ answer v', v'.MayDelete →
      (v'.exchange = none ∨ v'.exchange = v.exchange ∧ (v.exchange.isSome = true →
        v'.deleteFailed = true)) →
      Follows (storeDiscipline crates config) Q (f answer) v') :
    Follows (storeDiscipline crates config) Q (raise .delete >>= f) v := by
  refine follows_ask_bind.mpr ⟨hv, fun answer => ?_⟩
  cases answer with
  | ok removed => exact hnext _ _ ⟨hv.login, rfl⟩ (.inl rfl)
  | error x =>
    refine hnext _ _ ⟨hv.login, hv.seen⟩ (.inr ⟨rfl, fun hx => ?_⟩)
    simp [storeDiscipline, View.after, hx]

theorem settled_of_none {v : View} (h : v.exchange = none) : v.Settled crates config := by
  intro x stored hx
  rw [h] at hx
  cases hx

theorem settled_of_deleteFailed {v : View} (h : v.deleteFailed = true) :
    v.Settled crates config :=
  fun _ _ _ _ => .inl h

/-- What a refresh leaves behind: nothing open, or an error that is settled. -/
structure Refreshed (crates : External) (config : AccountClientConfig) (v : View)
    (r : AccountResult ActiveSession) (v' : View) : Prop where
  settled : v'.Settled crates config
  login : v'.login = false
  seen : v.seen.isSome = true → v'.seen.isSome = true
  ok : ∀ session, r = .ok session → v'.exchange = none ∧ v'.seen = some (some session.credential)

theorem refreshed_error {v v' : View} {x : AccountError} (hv : v'.MayDelete)
    (h : v'.Settled crates config) : Refreshed crates config v (.error x) v' :=
  ⟨h, hv.login, fun _ => hv.seen, fun _ h => nomatch h⟩

/-- Where a refresh is between its look at the store and the answer to its exchange. -/
structure RefreshReady (v : View) (stored : StoredCredential) : Prop where
  login : v.login = false
  seen : v.seen = some (some stored)
  exchange : v.exchange = none

theorem RefreshReady.frame {v v' : View} {stored : StoredCredential} (h : RefreshReady v stored)
    (hf : Frame v v') : RefreshReady v' stored :=
  ⟨hf.login.trans h.login, hf.seen.trans h.seen, hf.exchange.trans h.exchange⟩

theorem RefreshReady.mayDelete {v : View} {stored : StoredCredential} (h : RefreshReady v stored) :
    v.MayDelete :=
  ⟨h.login, by simp [h.seen]⟩

theorem RefreshReady.error {v w : View} {stored : StoredCredential} {x : AccountError}
    (h : RefreshReady v stored) : Refreshed crates config w (.error x) v :=
  refreshed_error h.mayDelete (settled_of_none h.exchange)

theorem failRefresh_follows {error : AccountError} {v w : View} {stored : StoredCredential}
    (hv : RefreshReady v stored) :
    Follows (storeDiscipline crates config) (Refreshed crates config w) (failRefresh error) v := by
  unfold failRefresh
  split
  · refine delete_follows hv.mayDelete fun answer v' hv' h => ?_
    refine refreshed_error hv' (settled_of_none ?_)
    rcases h with h | ⟨h, _⟩
    · exact h
    · exact h.trans hv.exchange
  · exact hv.error

/-- Sending a request reads the clock first. -/
theorem trySend_follows {α : Type} {r : AccountResult WireRequest} {d : Nat}
    {f : AccountResult WireResponse → AccountProg α} {v : View}
    {Q : AccountResult α → View → Prop}
    (hok : ∀ request deadline v', r = .ok request → Still v v' →
      v'.May crates config (.send request deadline) ∧ ∀ answer,
        Follows (storeDiscipline crates config) Q (f answer)
          (v'.after crates config (.send request deadline) answer))
    (herr : ∀ x, r = .error x → Q (.error x) v) :
    Follows (storeDiscipline crates config) Q (trySend config r d >>= f) v := by
  cases r with
  | error x => exact herr x rfl
  | ok request =>
    exact ⟨trivial, fun now =>
      hok request _ _ rfl (after_quiet crates config (e := .nowUnix) trivial v now)⟩

/-- A best-effort revocation never fails and does not touch the store. -/
theorem bestEffortRevoke_follows {α : Type} {token : SecretString} {f : Unit → AccountProg α}
    {v : View} {Q : AccountResult α → View → Prop}
    (hnext : ∀ v', Still v v' → Follows (storeDiscipline crates config) Q (f ()) v') :
    Follows (storeDiscipline crates config) Q (bestEffortRevoke crates config token >>= f) v := by
  unfold bestEffortRevoke
  split
  next request h =>
    have hquiet : ∀ deadline, (Event.send request deadline).Quiet :=
      fun _ => quiet_accountJson_empty request h
    rw [bind_assoc]
    refine trySend_follows (fun request' deadline v' hr hstill => ?_) fun _ h => nomatch h
    cases hr
    have hquiet : (Event.send request deadline).Quiet := quiet_accountJson_empty request h
    exact ⟨may_quiet crates config hquiet v',
      fun answer => hnext _ (hstill.trans (after_quiet crates config hquiet v' answer))⟩
  next => exact hnext v .rfl

theorem storeRefreshed_follows {x : Exchange} {stored : StoredCredential}
    {session : ActiveSession} {now : Nat} {v w : View} (hlogin : v.login = false)
    (hseen : v.seen = some (some stored)) (hx : v.exchange = some x)
    (hexp : x.expected = some stored) (hclock : v.clock = some now)
    (hv : x.verdict crates config now = .ok session) :
    Follows (storeDiscipline crates config) (Refreshed crates config w)
      (storeRefreshed crates config session) v := by
  refine follows_ask_bind.mpr ⟨⟨x, now, session, hx, hclock, hv, rfl, ?_, ?_, ?_⟩,
    fun answer => ?_⟩
  · rw [hexp, hseen]
  · rw [hexp, hlogin]
    rfl
  · intro h
    rw [hexp] at h
    cases h
  cases answer with
  | ok _ =>
    refine ⟨settled_of_none rfl, hlogin, fun _ => rfl, fun session' h => ?_⟩
    cases h
    exact ⟨rfl, rfl⟩
  | error error =>
    refine bestEffortRevoke_follows fun v' h => ?_
    have hseen' : v'.seen = some (some stored) := h.seen.trans hseen
    have hx' : v'.exchange = some x := h.exchange.trans hx
    have hdelete : v'.MayDelete := ⟨h.login.trans hlogin, by simp [hseen']⟩
    refine delete_follows hdelete fun _ v'' hv'' hopen => ?_
    refine refreshed_error hv'' ?_
    rcases hopen with hnone | ⟨_, hfailed⟩
    · exact settled_of_none hnone
    · exact settled_of_deleteFailed (hfailed (by simp [hx']))

/-- The view after the answer to a session exchange with status 200. -/
theorem after_answered {v : View} {request : WireRequest} {response : WireResponse}
    {deadline : Nat} {provider : ValidatedProvider} {nonce : SecretString}
    {expected : Option StoredCredential} (hstatus : response.status = 200)
    (hgrants : request.grants = true) (hp : v.provider = some provider)
    (hnonce : (request.nonce <|> v.nonce) = some nonce)
    (hexpected : (if request.presents.isSome then v.seen.join else none) = expected) :
    v.after crates config (.send request deadline) (.ok response)
      = { v with started := true, nonce := some nonce, clock := none, deleteFailed := false,
                 exchange := some ⟨expected, provider, nonce, response⟩ } := by
  have hsome : v.answered request response = some ⟨expected, provider, nonce, response⟩ := by
    simp [View.answered, hgrants, hstatus, hp, hnonce, hexpected]
  simp [View.after, hsome, hnonce]

/-- The view after the answer to a session exchange with another status. -/
theorem after_unanswered {v : View} {request : WireRequest} {response : WireResponse}
    {deadline : Nat} (hstatus : response.status ≠ 200 ∨ request.grants = false) :
    v.after crates config (.send request deadline) (.ok response)
      = { v with started := true, nonce := request.nonce <|> v.nonce } := by
  have hnone : v.answered request response = none := by
    rcases hstatus with h | h <;> simp [View.answered, h]
  simp [View.after, hnone]

theorem refreshAnswered_follows {stored : StoredCredential} {provider : ValidatedProvider}
    {nonce : SecretString} {request : WireRequest} {deadline : Nat} {v w : View}
    (hv : RefreshReady v stored) (hp : v.provider = some provider)
    (hnonce : request.nonce = some nonce) (hgrants : request.grants = true)
    (hpresents : request.presents = some stored.refreshToken)
    (answer : AccountResult WireResponse) :
    Follows (storeDiscipline crates config) (Refreshed crates config w)
      (refreshAnswered crates config stored provider nonce answer)
      (v.after crates config (.send request deadline) answer) := by
  cases answer with
  | error error =>
    have hready : RefreshReady (v.after crates config (.send request deadline) (.error error))
        stored := ⟨hv.login, hv.seen, hv.exchange⟩
    exact failRefresh_follows hready
  | ok response =>
    simp only [refreshAnswered]
    split
    next hstatus =>
      rw [after_unanswered (.inl hstatus)]
      exact failRefresh_follows ⟨hv.login, hv.seen, hv.exchange⟩
    next hstatus =>
      have hexpected : (if request.presents.isSome then v.seen.join else none) = some stored := by
        simp [hpresents, hv.seen]
      have hnonce' : (request.nonce <|> v.nonce) = some nonce := by simp [hnonce]
      rw [after_answered (not_not.mp hstatus) hgrants hp hnonce' hexpected]
      refine follows_bind (R := fun r v' => v'.login = false ∧ v'.seen = some (some stored)
          ∧ v'.exchange = some ⟨some stored, provider, nonce, response⟩
          ∧ match r with
            | .ok session => ∃ now, v'.clock = some now ∧ Exchange.verdict crates config
                ⟨some stored, provider, nonce, response⟩ now = .ok session
            | .error _ => v'.Settled crates config)
        (validateSession_follows (x := ⟨some stored, provider, nonce, response⟩) rfl
          (fun session now v' h hclock hok =>
            ⟨h.login.trans hv.login, h.seen.trans hv.seen, h.exchange, now, hclock, hok⟩)
          fun error v' h herr =>
            ⟨h.login.trans hv.login, h.seen.trans hv.seen, h.exchange, ?_⟩)
        (fun session v' h => ?_) fun error v' h => ?_
      · intro x _ hx _
        rw [h.exchange] at hx
        cases hx
        exact .inr herr
      · obtain ⟨hlogin, hseen, hx, now, hclock, hok⟩ := h
        exact storeRefreshed_follows hlogin hseen hx rfl hclock hok
      · exact refreshed_error ⟨h.1, by simp [h.2.1]⟩ h.2.2.2

theorem content_of_refresh {clientId : Text} {token nonce : SecretString} {request : WireRequest}
    (h : WireRequest.refresh crates clientId token nonce = .ok request) :
    request.nonce = some nonce ∧ request.grants = true ∧ request.presents = some token := by
  have hc := content_of_json h
  simp [WireRequest.nonce, WireRequest.grants, WireRequest.presents, hc, WireContent.nonce,
    WireContent.grants, WireContent.presents]

/-- No exchange is open, and the operation is not a login. -/
structure Ready (v : View) : Prop where
  login : v.login = false
  exchange : v.exchange = none

theorem Ready.settled {v : View} (h : Ready v) : v.Settled crates config :=
  settled_of_none h.exchange

theorem refreshLocked_follows (crates : External) (config : AccountClientConfig) {v : View}
    (hv : Ready v) : Follows (storeDiscipline crates config) (Refreshed crates config v)
      (refreshLocked crates config) v := by
  refine load_follows (fun stored => ?_) fun x =>
    ⟨settled_of_none hv.exchange, hv.login, fun h => h, fun _ h => nomatch h⟩
  cases stored with
  | none => exact refreshed_error ⟨hv.login, rfl⟩ (settled_of_none hv.exchange)
  | some stored =>
    have hready : RefreshReady
        { v with started := true, seen := some (some stored), soleLook := !v.started } stored :=
      ⟨hv.login, rfl, hv.exchange⟩
    refine follows_failIf_bind (fun _ => ?_) fun _ => hready.error
    refine follows_bind discoverProvider_follows (fun provider v₁ h₁ => ?_)
      fun _ v' h => (hready.frame h.toFrame).error
    have hready₁ := hready.frame h₁.toFrame
    refine follows_bind (R := fun _ v' => Still v₁ v')
      (follows_of_quiet freshSecret_quiet fun _ _ h => h) (fun nonce v₂ h₂ => ?_)
      fun _ v' h => (hready₁.frame h.toFrame).error
    have hready₂ := hready₁.frame h₂.toFrame
    refine trySend_follows (fun request deadline v₃ hr h₃ => ?_) fun _ _ => hready₂.error
    have hready₃ := hready₂.frame h₃.toFrame
    have hp₃ : v₃.provider = some provider := (h₂.trans h₃).provider.trans (h₁.ok provider rfl)
    obtain ⟨hnonce, hgrants, hpresents⟩ := content_of_refresh hr
    refine ⟨⟨fun _ => ⟨hready₃.exchange, by simp [hp₃], by simp [hnonce]⟩, fun token ht => ?_⟩,
      refreshAnswered_follows hready₃ hp₃ hnonce hgrants hpresents⟩
    rw [hpresents] at ht
    cases ht
    exact ⟨stored, hready₃.seen, rfl⟩

theorem refreshed_release {v w : View} {r : AccountResult ActiveSession}
    (h : Refreshed crates config v r w) : Refreshed crates config v r { w with started := true } :=
  ⟨h.settled, h.login, h.seen, h.ok⟩

theorem refreshAccess_follows {v : View} (hv : Ready v) :
    Follows (storeDiscipline crates config) (Refreshed crates config v)
      (refreshAccess crates config) v := by
  refine follows_ask_bind.mpr ⟨trivial, fun answer => ?_⟩
  refine follows_ofExcept_bind (fun _ _ => ?_) fun x _ =>
    ⟨settled_of_none hv.exchange, hv.login, fun h => h, fun _ h => nomatch h⟩
  have hlocked := refreshLocked_follows crates config (v := { v with started := true })
    ⟨hv.login, hv.exchange⟩
  refine follows_ensuring (R := Refreshed crates config v)
    (follows_mono (fun r w h => ⟨h.settled, h.login, h.seen, h.ok⟩) _ _ hlocked) fun r w h => ?_
  exact ⟨trivial, fun _ => refreshed_release h⟩

/-! ## The operations -/

/-- Every operation ends settled. -/
def Ends (crates : External) (config : AccountClientConfig) {α : Type} (p : AccountProg α)
    (v : View) : Prop :=
  Follows (storeDiscipline crates config) (fun _ v' => v'.Settled crates config) p v

theorem ends_of_quiet {α : Type} {p : AccountProg α} (hp : Only Event.Quiet p) {v : View}
    (hv : v.exchange = none) : Ends crates config p v :=
  follows_of_quiet hp fun _ _ h => settled_of_none (h.exchange.trans hv)

theorem ends_quiet_bind {α β : Type} {p : AccountProg α} {f : α → AccountProg β} {v : View}
    (hp : Only Event.Quiet p) (hv : v.exchange = none)
    (hf : ∀ a v', Still v v' → Ends crates config (f a) v') : Ends crates config (p >>= f) v :=
  follows_bind (R := fun _ v' => Still v v') (follows_of_quiet hp fun _ _ h => h) hf
    fun _ _ h => settled_of_none (h.exchange.trans hv)

theorem ends_delete {v : View} (hv : v.MayDelete) : Ends crates config delete v := by
  refine delete_follows hv fun answer v' _ h => ?_
  rcases h with h | ⟨h, hfailed⟩
  · exact settled_of_none h
  · cases hx : v.exchange with
    | none => exact settled_of_none (h.trans hx)
    | some x => exact settled_of_deleteFailed (hfailed (by simp [hx]))

theorem ends_discard {α : Type} {p : AccountProg α} {v : View} (h : Ends crates config p v) :
    Ends crates config (discard p) v :=
  follows_bind h (fun _ _ h => h) fun _ _ h => h

/-- An operation that starts with a refresh and goes on without the store. -/
theorem ends_refreshed {α : Type} {f : ActiveSession → AccountProg α} {v : View}
    (hv : Ready v)
    (hf : ∀ active v', v'.exchange = none → v'.MayDelete → Ends crates config (f active) v') :
    Ends crates config (refreshAccess crates config >>= f) v := by
  refine follows_bind (refreshAccess_follows hv) (fun active v' h => ?_) fun _ _ h => h.settled
  obtain ⟨hx, hseen⟩ := h.ok active rfl
  exact hf active v' hx ⟨h.login, by simp [hseen]⟩

theorem ends_attemptRefresh {α : Type} {f : AccountResult ActiveSession → AccountProg α}
    {v : View} (hv : Ready v)
    (hf : ∀ r v', Refreshed crates config v r v' → Ends crates config (f r) v') :
    Ends crates config (attemptRefresh crates config >>= f) v := by
  refine follows_bind (R := fun r v' => ∃ r', r = .ok r' ∧ Refreshed crates config v r' v')
    (follows_attempt (follows_mono (fun r _ h => ⟨r, rfl, h⟩) _ _ (refreshAccess_follows hv)))
    ?_ fun _ _ ⟨_, h, _⟩ => nomatch h
  rintro r v' ⟨r', hr, h⟩
  cases hr
  exact hf _ v' h

theorem devices_ends {v : View} (hv : Ready v) :
    Ends crates config (devices crates config) v :=
  ends_refreshed hv fun _ _ hx' _ => ends_of_quiet listDevicesWithAccess_quiet hx'

theorem unlink_ends {id : Uuid} {v : View} (hv : Ready v) :
    Ends crates config (unlink crates config id) v :=
  ends_refreshed hv fun _ _ hx' _ => ends_of_quiet
    (only_bind (send_quiet quiet_accountEmpty) fun _ =>
      only_ofExcept_bind fun _ _ => only_done.mpr trivial) hx'

theorem link_ends {provider : Text} {v : View} (hv : Ready v) :
    Ends crates config (link crates config provider) v := by
  refine ends_refreshed hv fun active v' hx' _ => ends_of_quiet ?_ hx'
  refine only_bind (send_quiet quiet_beginLink) fun response => ?_
  refine only_ofExcept_bind fun wire _ => only_ofExcept_bind fun _ _ => ?_
  refine only_bind nowUnix_quiet fun _ => only_failIf_bind ?_
  refine only_bind nowUnix_quiet fun _ => only_failIf_bind ?_
  exact only_bind (only_ask.mpr trivial) fun _ => only_ofExcept_bind fun _ _ => trivial

theorem externalIdentities_ends {v : View} (hv : Ready v) :
    Ends crates config (externalIdentities crates config) v := by
  refine ends_refreshed hv fun active v' hx' _ => ends_of_quiet ?_ hx'
  refine only_bind (send_quiet quiet_accountEmpty) fun response => ?_
  refine only_ofExcept_bind fun wire _ => only_failIf_bind ?_
  exact only_bind (anyInvalidIdentity_quiet _) fun _ => only_failIf_bind trivial

theorem revokeDevice_ends {id : Uuid} {v : View} (hv : Ready v) :
    Ends crates config (revokeDevice crates config id) v := by
  refine ends_refreshed hv fun active v' hx' hdelete => ?_
  refine ends_quiet_bind (send_quiet quiet_accountJson_empty) hx' fun response w h => ?_
  refine follows_ofExcept_bind (fun _ _ => ?_) fun _ _ => settled_of_none (h.exchange.trans hx')
  have hdelete' := hdelete.frame h.toFrame
  refine follows_bind (R := fun _ w' => w'.Settled crates config) ?_ (fun _ _ h => h) fun _ _ h => h
  unfold runIf
  split
  · exact ends_discard (ends_delete hdelete')
  · exact settled_of_none (h.exchange.trans hx')

theorem status_ends {v : View} (hv : Ready v) :
    Ends crates config (status crates config) v := by
  refine load_follows (fun stored => ?_) fun _ => settled_of_none hv.exchange
  cases stored with
  | none => exact settled_of_none hv.exchange
  | some stored =>
    refine ends_attemptRefresh ⟨hv.login, hv.exchange⟩ fun r v' h => ?_
    cases r with
    | ok active =>
      have hx' := (h.ok active rfl).1
      refine ends_quiet_bind (trySend_quiet quiet_accountEmpty) hx' fun response w hw => ?_
      have hxw := hw.exchange.trans hx'
      split
      · exact ends_of_quiet
          (only_ofExcept_bind fun _ _ => only_failIf_bind (only_done.mpr trivial)) hxw
      all_goals exact settled_of_none hxw
    | error error => cases error <;> exact h.settled

theorem revokeAndForget_ends {scope : LogoutScope} {active : ActiveSession} {v : View}
    (hx : v.exchange = none) (hv : v.MayDelete) :
    Ends crates config (revokeAndForget crates config scope active) v := by
  have hlist : Only Event.Quiet (runIf (scope = .allDevices) (do
      let devices ← listDevicesWithAccess crates config active.accessToken
      revokeEach crates config active.accessToken devices.devices)) :=
    only_runIf (only_bind listDevicesWithAccess_quiet fun devices => revokeEach_quiet _)
  refine ends_quiet_bind hlist hx fun _ v₁ h₁ => ?_
  have hx₁ := h₁.exchange.trans hx
  refine ends_quiet_bind (send_quiet quiet_accountJson_empty) hx₁ fun response v₂ h₂ => ?_
  have hx₂ := h₂.exchange.trans hx₁
  refine follows_ofExcept_bind (fun _ _ => ?_) fun _ _ => settled_of_none hx₂
  have hv₂ := hv.frame (h₁.trans h₂).toFrame
  exact follows_bind (ends_delete hv₂) (fun _ _ h => h) fun _ _ h => h

theorem logout_ends {scope : LogoutScope} {localPolicy : LocalLogoutPolicy} {v : View}
    (hv : Ready v) : Ends crates config (logout crates config scope localPolicy) v := by
  refine load_follows (fun stored => ?_) fun _ => settled_of_none hv.exchange
  cases stored with
  | none => exact settled_of_none hv.exchange
  | some stored =>
    simp only
    split
    · exact follows_bind (ends_delete ⟨hv.login, rfl⟩) (fun _ _ h => h) fun _ _ h => h
    · refine ends_attemptRefresh ⟨hv.login, hv.exchange⟩ fun r v' h => ?_
      cases r with
      | ok active => exact revokeAndForget_ends (h.ok active rfl).1 ⟨h.login, h.seen rfl⟩
      | error error =>
        simp only
        split
        · exact follows_bind (ends_delete ⟨h.login, h.seen rfl⟩) (fun _ _ h => h) fun _ _ h => h
        · split <;> exact h.settled

/-! ## The logins -/

/-- Where a login is between its look at the store and its save. -/
structure LoginReady (v : View) : Prop where
  login : v.login = true
  seen : v.seen = some none
  soleLook : v.soleLook = true
  exchange : v.exchange = none

theorem LoginReady.frame {v v' : View} (h : LoginReady v) (hf : Frame v v') : LoginReady v' :=
  ⟨hf.login.trans h.login, hf.seen.trans h.seen, hf.soleLook.trans h.soleLook,
    hf.exchange.trans h.exchange⟩

/-- An exchange that continues no credential is settled as it stands. -/
theorem settled_of_login {v : View} {x : Exchange} (hx : v.exchange = some x)
    (hexp : x.expected = none) : v.Settled crates config := by
  intro y stored hy hs
  rw [hx] at hy
  cases hy
  rw [hexp] at hs
  cases hs

theorem ensureSignedOut_ends {α : Type} {f : Unit → AccountProg α} {v : View}
    (hlogin : v.login = true) (hstart : v.started = false) (hx : v.exchange = none)
    (hf : ∀ v', LoginReady v' → Ends crates config (f ()) v') :
    Ends crates config (ensureSignedOut >>= f) v := by
  unfold ensureSignedOut
  rw [bind_assoc]
  refine load_follows (fun stored => ?_) fun _ => settled_of_none hx
  refine follows_failIf_bind (fun hstored => hf _ ⟨hlogin, ?_, ?_, hx⟩) fun _ => settled_of_none hx
  · simpa using hstored
  · simp [hstart]

theorem checkSessionWire_error {response : WireResponse} (h : response.status ≠ 200) :
    checkSessionWire crates response = .error (mapErrorResponse crates response) := by
  have hparse : parseSuccess crates crates.decodeSession response 200
      = .error (mapErrorResponse crates response) := by
    unfold parseSuccess
    exact if_pos (by simp [h])
  unfold checkSessionWire
  rw [hparse]
  rfl

/-- Storing the session of an answered login exchange. -/
theorem publishLogin_ends {x : Exchange} {session : ActiveSession} {now : Nat} {v : View}
    (hx : v.exchange = some x) (hexp : x.expected = none) (hclock : v.clock = some now)
    (hv : x.verdict crates config now = .ok session) (hlogin : v.login = true)
    (hseen : v.seen = some none) (hsole : v.soleLook = true) :
    Ends crates config (publishLogin crates config session) v := by
  refine follows_ask_bind.mpr ⟨⟨x, now, session, hx, hclock, hv, rfl, ?_, ?_, fun _ => hsole⟩,
    fun answer => ?_⟩
  · rw [hexp, hseen]
  · rw [hexp, hlogin]
    rfl
  cases answer with
  | ok _ => exact settled_of_none rfl
  | error error =>
    refine bestEffortRevoke_follows fun v' h => ?_
    exact settled_of_login (h.exchange.trans hx) hexp

/-- A login exchange, from the request to the stored session. -/
theorem loginAnswered_ends {provider : ValidatedProvider} {nonce : SecretString}
    {request : WireRequest} {response : WireResponse} {deadline : Nat} {v : View}
    (hv : LoginReady v) (hp : v.provider = some provider)
    (hnonce : (request.nonce <|> v.nonce) = some nonce) (hgrants : request.grants = true)
    (hpresents : request.presents = none) :
    Ends crates config (do
      let session ← validateSession crates config response provider nonce none
      publishLogin crates config session)
      (v.after crates config (.send request deadline) (.ok response)) := by
  by_cases hstatus : response.status = 200
  · have hexpected : (if request.presents.isSome then v.seen.join else none) = none := by
      simp [hpresents]
    rw [after_answered hstatus hgrants hp hnonce hexpected]
    refine follows_bind (R := fun r v' => v'.login = true ∧ v'.seen = some none ∧ v'.soleLook = true
        ∧ v'.exchange = some ⟨none, provider, nonce, response⟩
        ∧ ∀ session, r = .ok session → ∃ now, v'.clock = some now ∧ Exchange.verdict crates config
            ⟨none, provider, nonce, response⟩ now = .ok session)
      (validateSession_follows (x := ⟨none, provider, nonce, response⟩) rfl
        (fun session now v' h hclock hok => ⟨h.login.trans hv.login, h.seen.trans hv.seen,
          h.soleLook.trans hv.soleLook, h.exchange, fun s hs => by
            cases hs
            exact ⟨now, hclock, hok⟩⟩)
        fun error v' h _ => ⟨h.login.trans hv.login, h.seen.trans hv.seen,
          h.soleLook.trans hv.soleLook, h.exchange, fun _ h => nomatch h⟩)
      (fun session v' h => ?_) fun error v' h => settled_of_login h.2.2.2.1 rfl
    obtain ⟨hlogin, hseen, hsole, hx, hok⟩ := h
    obtain ⟨now, hclock, hverdict⟩ := hok session rfl
    exact publishLogin_ends hx rfl hclock hverdict hlogin hseen hsole
  · rw [after_unanswered (.inl hstatus)]
    unfold validateSession
    rw [checkSessionWire_error hstatus]
    exact settled_of_none hv.exchange

/-- Sending a login exchange: the login goes on with its answer. -/
theorem sendLogin_ends {α : Type} {r : AccountResult WireRequest} {d : Nat}
    {provider : ValidatedProvider} {f : WireResponse → AccountProg α} {v : View}
    (hv : LoginReady v) (hp : v.provider = some provider)
    (hr : ∀ request, r = .ok request → (request.nonce <|> v.nonce).isSome = true
      ∧ request.presents = none)
    (hf : ∀ request deadline response v', r = .ok request → Still v v' →
      Ends crates config (f response)
        (v'.after crates config (.send request deadline) (.ok response))) :
    Ends crates config (send config r d >>= f) v := by
  unfold send
  rw [bind_assoc]
  refine trySend_follows (fun request deadline v' hreq h => ?_)
    fun _ _ => settled_of_none hv.exchange
  obtain ⟨hnonce, hpresents⟩ := hr request hreq
  refine ⟨⟨fun _ => ⟨h.exchange.trans hv.exchange, ?_, ?_⟩, fun token ht => ?_⟩, fun answer => ?_⟩
  · simp [h.provider, hp]
  · rw [h.nonce]
    exact hnonce
  · rw [hpresents] at ht
    cases ht
  cases answer with
  | error x => exact settled_of_none (h.exchange.trans hv.exchange)
  | ok response => exact hf request deadline response v' hreq h

theorem loginPkce_ends {display : DeviceDisplay} :
    Ends crates config (loginPkce crates config display) { login := true } := by
  refine ensureSignedOut_ends rfl rfl rfl fun v hv => ?_
  have hnone : ∀ {w : View}, Frame v w → w.Settled crates config :=
    fun h => settled_of_none (hv.frame h).exchange
  refine follows_failIf_bind (fun _ => ?_) fun _ => hnone .rfl
  refine ends_quiet_bind nowUnix_quiet hv.exchange fun started v₁ h₁ => ?_
  refine follows_bind discoverProvider_follows (fun provider v₂ h₂ => ?_)
    fun _ _ h => hnone (h₁.toFrame.trans h.toFrame)
  have hv₂ := hv.frame (h₁.toFrame.trans h₂.toFrame)
  have hp₂ := h₂.ok provider rfl
  -- from here to the exchange nothing touches the store or the provider
  have hquiet : ∀ {α β : Type} {p : AccountProg α} {f : α → AccountProg β} {w : View},
      Still v₂ w → Only Event.Quiet p → (∀ a w', Still v₂ w' → Ends crates config (f a) w') →
      Ends crates config (p >>= f) w := fun hw hq hf =>
    ends_quiet_bind hq (hv₂.frame hw.toFrame).exchange fun a w' h => hf a w' (hw.trans h)
  have hset : ∀ {w : View}, Still v₂ w → w.Settled crates config :=
    fun h => settled_of_none (hv₂.frame h.toFrame).exchange
  refine hquiet .rfl (only_ask.mpr trivial) fun redirect v₃ h₃ => ?_
  refine follows_ofExcept_bind (fun redirectUri _ => ?_) fun _ _ => hset h₃
  refine follows_ofExcept_bind (fun _ _ => ?_) fun _ _ => hset h₃
  refine hquiet h₃ freshSecret_quiet fun verifier v₄ h₄ => ?_
  refine hquiet h₄ freshSecret_quiet fun state v₅ h₅ => ?_
  refine hquiet h₅ freshSecret_quiet fun nonce v₆ h₆ => ?_
  refine follows_ofExcept_bind (fun _ _ => ?_) fun _ _ => hset h₆
  refine hquiet h₆ (only_ask.mpr trivial) fun answer v₇ h₇ => ?_
  refine follows_ofExcept_bind (fun callback _ => ?_) fun _ _ => hset h₇
  refine follows_failIf_bind (fun _ => ?_) fun _ => hset h₇
  refine hquiet h₇ ensureBefore_quiet fun _ v₈ h₈ => ?_
  have hp₈ : v₈.provider = some provider := h₈.provider.trans hp₂
  have hrequest : ∀ request, WireRequest.exchangePkce crates config.publicClientId callback.code
      verifier redirectUri nonce display = .ok request →
      request.nonce = some nonce ∧ request.presents = none ∧ request.grants = true := by
    intro request h
    have hc := content_of_json h
    simp [WireRequest.nonce, WireRequest.presents, WireRequest.grants, hc, WireContent.nonce,
      WireContent.presents, WireContent.grants]
  refine sendLogin_ends (hv₂.frame h₈.toFrame) hp₈
    (fun request h => by simp [(hrequest request h).1, (hrequest request h).2.1])
    fun request deadline response v₉ h h₉ => ?_
  obtain ⟨hn, hpr, hg⟩ := hrequest request h
  exact loginAnswered_ends (hv₂.frame (h₈.trans h₉).toFrame) (h₉.provider.trans hp₈)
    (by simp [hn]) hg hpr

theorem ensureNotExpired_quiet {deadline : Nat} :
    Only Event.Quiet (ensureNotExpired deadline) := by
  refine only_bind (only_attempt ensureBefore_quiet) fun r => ?_
  cases r <;> trivial

theorem pollDevice_ends {provider : ValidatedProvider} {nonce deviceCode : SecretString}
    {deadline : Nat} (turns : Nat) : ∀ (interval : Nat) (v : View), LoginReady v →
      v.provider = some provider → v.nonce = some nonce →
      Ends crates config
        (pollDevice crates config provider nonce deviceCode deadline turns interval) v := by
  induction turns with
  | zero => intro interval v _ _ _; trivial
  | succ turns ih =>
    intro interval v hv hp hn
    have hset : ∀ {w : View}, Still v w → w.Settled crates config :=
      fun h => settled_of_none (hv.frame h.toFrame).exchange
    refine ends_quiet_bind (only_ask.mpr trivial) hv.exchange fun cancelled v₁ h₁ => ?_
    refine follows_failIf_bind (fun _ => ?_) fun _ => hset h₁
    refine ends_quiet_bind ensureNotExpired_quiet (hv.frame h₁.toFrame).exchange
      fun _ v₂ h₂ => ?_
    have h₂ := h₁.trans h₂
    refine ends_quiet_bind (only_ask.mpr trivial) (hv.frame h₂.toFrame).exchange
      fun _ v₃ h₃ => ?_
    have h₃ := h₂.trans h₃
    refine ends_quiet_bind (only_ask.mpr trivial) (hv.frame h₃.toFrame).exchange
      fun cancelled' v₄ h₄ => ?_
    have h₄ := h₃.trans h₄
    refine follows_failIf_bind (fun _ => ?_) fun _ => hset h₄
    refine ends_quiet_bind ensureNotExpired_quiet (hv.frame h₄.toFrame).exchange
      fun _ v₅ h₅ => ?_
    have h₅ := h₄.trans h₅
    have hrequest : ∀ request, WireRequest.pollDevice crates config.publicClientId deviceCode
        = .ok request →
        request.nonce = none ∧ request.presents = none ∧ request.grants = true := by
      intro request h
      have hc := content_of_json h
      simp [WireRequest.nonce, WireRequest.presents, WireRequest.grants, hc, WireContent.nonce,
        WireContent.presents, WireContent.grants]
    refine sendLogin_ends (hv.frame h₅.toFrame) (h₅.provider.trans hp)
      (fun request h => by simp [(hrequest request h).2.1, h₅.nonce, hn])
      fun request deadline response v₆ h h₆ => ?_
    obtain ⟨hrn, hpr, hg⟩ := hrequest request h
    have h₆ := h₅.trans h₆
    have hv₆ := hv.frame h₆.toFrame
    have hn₆ : (request.nonce <|> v₆.nonce) = some nonce := by simp [hrn, h₆.nonce, hn]
    by_cases hstatus : response.status = 200
    · simp only [hstatus, if_true]
      exact loginAnswered_ends hv₆ (h₆.provider.trans hp) hn₆ hg hpr
    · simp only [hstatus, if_false]
      rw [after_unanswered (.inl hstatus), hn₆]
      have hv₇ : LoginReady { v₆ with started := true, nonce := some nonce } :=
        ⟨hv₆.login, hv₆.seen, hv₆.soleLook, hv₆.exchange⟩
      have hp₇ := h₆.provider.trans hp
      refine follows_ofExcept_bind (fun pollError _ => ?_) fun _ _ => settled_of_none hv₇.exchange
      cases pollError with
      | pending => exact ih _ _ hv₇ hp₇ rfl
      | slowDown => exact ih _ _ hv₇ hp₇ rfl
      | _ => exact settled_of_none hv₇.exchange

theorem loginDevice_ends {display : DeviceDisplay} {turns : Nat} :
    Ends crates config (loginDevice crates config display turns) { login := true } := by
  refine ensureSignedOut_ends rfl rfl rfl fun v hv => ?_
  have hnone : ∀ {w : View}, Frame v w → w.Settled crates config :=
    fun h => settled_of_none (hv.frame h).exchange
  refine follows_failIf_bind (fun _ => ?_) fun _ => hnone .rfl
  refine ends_quiet_bind nowUnix_quiet hv.exchange fun started v₁ h₁ => ?_
  refine follows_bind discoverProvider_follows (fun provider v₂ h₂ => ?_)
    fun _ _ h => hnone (h₁.toFrame.trans h.toFrame)
  have hv₂ := hv.frame (h₁.toFrame.trans h₂.toFrame)
  refine ends_quiet_bind freshSecret_quiet hv₂.exchange fun nonce v₃ h₃ => ?_
  have hv₃ := hv₂.frame h₃.toFrame
  have hp₃ : v₃.provider = some provider := h₃.provider.trans (h₂.ok provider rfl)
  have hrequest : ∀ request, WireRequest.beginDevice crates config.publicClientId nonce display
      = .ok request →
      request.nonce = some nonce ∧ request.presents = none ∧ request.grants = false := by
    intro request h
    have hc := content_of_json h
    simp [WireRequest.nonce, WireRequest.presents, WireRequest.grants, hc, WireContent.nonce,
      WireContent.presents, WireContent.grants]
  refine sendLogin_ends hv₃ hp₃
    (fun request h => by simp [(hrequest request h).1, (hrequest request h).2.1])
    fun request deadline response v₄ h h₄ => ?_
  obtain ⟨hn, _, hg⟩ := hrequest request h
  have hnonce : (request.nonce <|> v₄.nonce) = some nonce := by simp [hn]
  rw [after_unanswered (.inr hg), hnonce]
  have hready := hv₃.frame h₄.toFrame
  have hv₅ : LoginReady { v₄ with started := true, nonce := some nonce } :=
    ⟨hready.login, hready.seen, hready.soleLook, hready.exchange⟩
  have hp₅ : View.provider { v₄ with started := true, nonce := some nonce } = some provider :=
    h₄.provider.trans hp₃
  refine follows_ofExcept_bind (fun authorization _ => ?_) fun _ _ => settled_of_none hv₅.exchange
  refine follows_failIf_bind (fun _ => ?_) fun _ => settled_of_none hv₅.exchange
  refine ends_quiet_bind nowUnix_quiet hv₅.exchange fun now v₆ h₆ => ?_
  have hv₆ := hv₅.frame h₆.toFrame
  refine follows_failIf_bind (fun _ => ?_) fun _ => settled_of_none hv₆.exchange
  refine follows_ofExcept_bind (fun _ _ => ?_) fun _ _ => settled_of_none hv₆.exchange
  refine ends_quiet_bind (only_ask.mpr trivial) hv₆.exchange fun shown v₇ h₇ => ?_
  have h₇ := h₆.trans h₇
  have hv₇ := hv₅.frame h₇.toFrame
  refine follows_ofExcept_bind (fun _ _ => ?_) fun _ _ => settled_of_none hv₇.exchange
  exact pollDevice_ends turns _ v₇ hv₇ (h₇.provider.trans hp₅) h₇.nonce

def Operation.isLogin : Operation → Bool
  | .loginPkce _ | .loginDevice .. => true
  | _ => false

/-- The view an operation starts with. -/
def Operation.view (operation : Operation) : View := { login := operation.isLogin }

/-- Every operation follows the store discipline and ends settled. -/
theorem operation_follows (client : AccountClient) (operation : Operation) :
    Follows (storeDiscipline crates client.config)
      (fun _ v => v.Settled crates client.config) (operation.program crates client)
      operation.view := by
  have ready : Ready ({} : View) := ⟨rfl, rfl⟩
  cases operation with
  | loginPkce display => exact ends_discard loginPkce_ends
  | loginDevice display turns => exact ends_discard loginDevice_ends
  | status => exact ends_discard (status_ends ready)
  | logout scope localPolicy => exact ends_discard (logout_ends ready)
  | link providerName => exact ends_discard (link_ends ready)
  | unlink externalIdentityId => exact ends_discard (unlink_ends ready)
  | externalIdentities => exact ends_discard (externalIdentities_ends ready)
  | devices => exact ends_discard (devices_ends ready)
  | revokeDevice deviceId => exact ends_discard (revokeDevice_ends ready)

end Kaleidoscope.Account
