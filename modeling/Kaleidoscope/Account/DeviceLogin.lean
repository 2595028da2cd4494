import Kaleidoscope.Account.World

/-!
# The bounds of the device login

`deviceDiscipline` says when the device login may poll: after the prompt was displayed, after a
wait of exactly the current interval, and with a deadline for the transport that is not after the
login's own nor after the expiry of the device code.  A transport that is asked to send at or
after its deadline sends nothing (`requestTimeout`).

    loginDevice_follows    the login polls so, whatever the environment answers
    loginDevice_halts      under a clock that advances by each sleep it ends
    loginDevice_bounded    both, with the discipline of the store
-/

namespace Kaleidoscope.Account

open Prog

/-! ## The discipline of the polls -/

/-- `request_timeout` of the native transport: what is left until the deadline. -/
def requestTimeout (config : AccountClientConfig) (now deadlineUnix : Nat) :
    AccountResult Duration :=
  if deadlineUnix ≤ now then .error .deadlineExceeded
  else .ok ⟨min config.requestTimeout.nanos (Duration.fromSecs (deadlineUnix - now)).nanos⟩

/-- The interval after an answer: `slow_down` adds the increment up to the cap. -/
def nextInterval (crates : External) (interval : Nat) (response : WireResponse) : Nat :=
  if devicePollError crates response = .ok .slowDown then
    min (interval + deviceSlowDownSeconds) maxDevicePollIntervalSeconds
  else interval

def intervalAfter (crates : External) (interval : Nat) : AccountResult WireResponse → Nat
  | .ok response => nextInterval crates interval response
  | .error _ => interval

/-- What a device login has seen. -/
structure DeviceView where
  /-- the first reading of the clock -/
  started : Option Nat := none
  prompt : Option DeviceAuthorizationPrompt := none
  interval : Nat := 0
  /-- the last sleep, since the prompt or the last poll -/
  waited : Option Duration := none

/-- The earlier of the login's deadline and the expiry of the code. -/
def DeviceView.deadline (config : AccountClientConfig) (started : Nat)
    (prompt : DeviceAuthorizationPrompt) : Nat :=
  min (saturatingAdd started config.deviceTimeout.asSecs) prompt.expiresAt

/-- A poll that may be handed to the transport with the given deadline. -/
structure DeviceView.MayPoll (config : AccountClientConfig) (v : DeviceView) (deadlineUnix : Nat) :
    Prop where
  /-- whenever the transport sends it, that is before the deadline -/
  inTime : ∃ started prompt, v.started = some started ∧ v.prompt = some prompt
    ∧ ∀ now wait, requestTimeout config now deadlineUnix = .ok wait →
      now < DeviceView.deadline config started prompt
  waited : v.waited = some (.fromSecs v.interval)
  pos : 1 ≤ v.interval
  capped : v.interval ≤ maxDevicePollIntervalSeconds

section

variable (crates : External) (config : AccountClientConfig)

def DeviceView.after (v : DeviceView) : (e : Event) → e.Answer → DeviceView
  | .nowUnix, now => { v with started := v.started <|> some now }
  | .display prompt, _ =>
    { v with prompt := some prompt, interval := prompt.intervalSeconds, waited := none }
  | .sleep duration, _ => { v with waited := some duration }
  | .send request _, answer =>
    if request.endpoint = .pollDeviceAuthorization then
      { v with waited := none, interval := intervalAfter crates v.interval answer }
    else v
  | _, _ => v

def DeviceView.May (v : DeviceView) : Event → Prop
  | .send request deadlineUnix =>
    request.endpoint = .pollDeviceAuthorization → v.MayPoll config deadlineUnix
  | .display _ => v.prompt = none
  | _ => True

def deviceDiscipline : Protocol Event Event.Answer DeviceView where
  may := DeviceView.May config
  next := DeviceView.after crates

end

variable {crates : External} {config : AccountClientConfig}

theorem requestTimeout_ok {now deadlineUnix : Nat} {wait : Duration}
    (h : requestTimeout config now deadlineUnix = .ok wait) : now < deadlineUnix := by
  unfold requestTimeout at h
  by_contra hle
  rw [if_pos (by omega)] at h
  cases h

theorem nextInterval_ge {interval : Nat} (h : interval ≤ maxDevicePollIntervalSeconds)
    (response : WireResponse) : interval ≤ nextInterval crates interval response := by
  unfold nextInterval
  split
  · omega
  · exact Nat.le_refl interval

theorem nextInterval_le {interval : Nat} (h : interval ≤ maxDevicePollIntervalSeconds)
    (response : WireResponse) :
    nextInterval crates interval response ≤ maxDevicePollIntervalSeconds := by
  unfold nextInterval
  split
  · omega
  · exact h

/-! ## Events beside the polls -/

/-- No poll, no prompt, no sleep. -/
def Event.Aside : Event → Prop
  | .send request _ => request.endpoint ≠ .pollDeviceAuthorization
  | .display _ | .sleep _ => False
  | _ => True

/-- What stays beside the polls. -/
structure Beside (v v' : DeviceView) : Prop where
  started : ∀ now, v.started = some now → v'.started = some now
  prompt : v'.prompt = v.prompt
  interval : v'.interval = v.interval
  waited : v'.waited = v.waited

theorem Beside.rfl {v : DeviceView} : Beside v v := ⟨fun _ h => h, Eq.refl _, Eq.refl _, Eq.refl _⟩

theorem Beside.trans {a b c : DeviceView} (h : Beside a b) (h' : Beside b c) : Beside a c :=
  ⟨fun now hn => h'.started now (h.started now hn), h'.prompt.trans h.prompt,
    h'.interval.trans h.interval, h'.waited.trans h.waited⟩

theorem after_send {v : DeviceView} {request : WireRequest} {deadlineUnix : Nat}
    {answer : AccountResult WireResponse} :
    v.after crates (.send request deadlineUnix) answer
      = if request.endpoint = .pollDeviceAuthorization then
          { v with waited := none, interval := intervalAfter crates v.interval answer }
        else v := rfl

theorem after_aside {e : Event} (he : e.Aside) (v : DeviceView) (a : e.Answer) :
    Beside v (v.after crates e a) := by
  cases e with
  | nowUnix => exact ⟨fun now hn => by simp [DeviceView.after, hn], rfl, rfl, rfl⟩
  | send request deadlineUnix =>
    rw [after_send, if_neg he]
    exact .rfl
  | display prompt => exact he.elim
  | sleep duration => exact he.elim
  | _ => exact .rfl

theorem may_aside {e : Event} (he : e.Aside) (v : DeviceView) : v.May config e := by
  cases e with
  | send request deadlineUnix => exact fun h => absurd h he
  | display prompt => exact he.elim
  | _ => trivial

/-- The frame rule for programs beside the polls. -/
theorem follows_of_aside {α : Type} {p : AccountProg α} (hp : Only Event.Aside p)
    {v : DeviceView} {Q : AccountResult α → DeviceView → Prop} (hQ : ∀ r v', Beside v v' → Q r v') :
    Follows (deviceDiscipline crates config) Q p v :=
  follows_of_only (fun _ => .rfl) (fun _ _ _ => .trans)
    (fun l _ he => ⟨may_aside he l, after_aside he l⟩) hp hQ

/-- A program beside the polls, followed by another one. -/
theorem follows_aside_bind {α β : Type} {p : AccountProg α} {f : α → AccountProg β}
    {v : DeviceView} (hp : Only Event.Aside p)
    (hf : ∀ a v', Beside v v' →
      Follows (deviceDiscipline crates config) (fun _ _ => True) (f a) v') :
    Follows (deviceDiscipline crates config) (fun _ _ => True) (p >>= f) v :=
  follows_bind (R := fun _ v' => Beside v v') (follows_of_aside hp fun _ _ h => h) hf
    fun _ _ _ => trivial

theorem nowUnix_aside : Only Event.Aside nowUnix := only_ask.mpr trivial

theorem cancelled_aside : Only Event.Aside (ask Event.cancelled : AccountProg Bool) :=
  only_ask.mpr trivial

theorem requestDeadline_aside {deadline : Nat} :
    Only Event.Aside (requestDeadline config deadline) :=
  only_bind nowUnix_aside fun _ => trivial

theorem ensureBefore_aside {deadline : Nat} : Only Event.Aside (ensureBefore deadline) := by
  refine only_bind (only_ask.mpr trivial) fun cancelled => ?_
  split
  · trivial
  · exact only_bind nowUnix_aside fun _ => trivial

theorem ensureNotExpired_aside {deadline : Nat} :
    Only Event.Aside (ensureNotExpired deadline) := by
  refine only_bind (only_attempt ensureBefore_aside) fun r => ?_
  cases r <;> trivial

theorem discoverProvider_aside {deadline : Nat} :
    Only Event.Aside (discoverProvider crates config deadline) := by
  refine only_bind ensureBefore_aside fun _ => only_bind requestDeadline_aside fun _ => ?_
  refine only_ofExcept_bind fun url _ => only_ofExcept_bind fun _ _ => ?_
  refine only_bind (only_ask.mpr trivial) fun answer => only_ofExcept_bind fun response _ => ?_
  refine only_ofExcept_bind fun discovery _ => ?_
  refine only_bind (only_ask.mpr trivial) fun answer => only_ofExcept_bind fun response _ => ?_
  exact only_ofExcept_bind fun jwks _ => trivial

theorem freshSecret_aside : Only Event.Aside (freshSecret crates) :=
  only_bind (only_ask.mpr trivial) fun _ => only_bind trivial fun _ => trivial

theorem trySend_aside {r : AccountResult WireRequest} {deadline : Nat}
    (hr : ∀ request, r = .ok request → request.endpoint ≠ .pollDeviceAuthorization) :
    Only Event.Aside (trySend config r deadline) := by
  refine only_ofExcept_bind fun request h => only_bind requestDeadline_aside fun _ => ?_
  exact only_ask.mpr (hr request h)

theorem validateSession_aside {response : WireResponse} {provider : ValidatedProvider}
    {nonce : SecretString} {expected : Option StoredCredential} :
    Only Event.Aside (validateSession crates config response provider nonce expected) :=
  only_ofExcept_bind fun _ _ => only_bind nowUnix_aside fun _ => trivial

theorem bestEffortRevoke_aside {token : SecretString} :
    Only Event.Aside (bestEffortRevoke crates config token) := by
  unfold bestEffortRevoke
  split
  next request h =>
    refine only_bind (trySend_aside fun request' h' => ?_) fun _ => trivial
    cases h'
    rw [endpoint_of_json h]
    exact nofun
  next => trivial

theorem publishLogin_aside {session : ActiveSession} :
    Only Event.Aside (publishLogin crates config session) := by
  refine only_bind (only_ask.mpr trivial) fun answer => ?_
  cases answer with
  | error error => exact only_bind bestEffortRevoke_aside fun _ => trivial
  | ok _ => trivial

/-! ## The polls -/

/-- Where the login is between two polls. -/
structure Polling (config : AccountClientConfig) (deadline interval : Nat) (v : DeviceView) :
    Prop where
  deadline : ∃ started prompt, v.started = some started ∧ v.prompt = some prompt
    ∧ deadline = DeviceView.deadline config started prompt
  current : v.interval = interval
  pos : 1 ≤ interval
  capped : interval ≤ maxDevicePollIntervalSeconds

theorem Polling.beside {deadline interval : Nat} {v v' : DeviceView}
    (h : Polling config deadline interval v) (hv : Beside v v') :
    Polling config deadline interval v' := by
  obtain ⟨started, prompt, hstarted, hprompt, hdeadline⟩ := h.deadline
  exact ⟨⟨started, prompt, hv.started started hstarted, hv.prompt.trans hprompt, hdeadline⟩,
    hv.interval.trans h.current, h.pos, h.capped⟩

theorem Polling.mayPoll {deadline interval deadlineUnix : Nat} {v : DeviceView}
    (h : Polling config deadline interval v) (hwaited : v.waited = some (.fromSecs interval))
    (hle : deadlineUnix ≤ deadline) : v.MayPoll config deadlineUnix := by
  obtain ⟨started, prompt, hstarted, hprompt, hdeadline⟩ := h.deadline
  refine ⟨⟨started, prompt, hstarted, hprompt, fun now wait hwait => ?_⟩, ?_, ?_, ?_⟩
  · have := requestTimeout_ok hwait
    omega
  · rw [h.current]
    exact hwaited
  · rw [h.current]
    exact h.pos
  · rw [h.current]
    exact h.capped

/-- The state of the login after a poll was answered. -/
theorem Polling.polled {deadline interval deadlineUnix : Nat} {v : DeviceView}
    {request : WireRequest} (h : Polling config deadline interval v)
    (hrequest : request.endpoint = .pollDeviceAuthorization) (response : WireResponse) :
    Polling config deadline (nextInterval crates interval response)
      (v.after crates (.send request deadlineUnix) (.ok response)) := by
  have hge := @nextInterval_ge crates interval h.capped response
  have hle := @nextInterval_le crates interval h.capped response
  have hpos := h.pos
  rw [after_send, if_pos hrequest]
  refine ⟨h.deadline, ?_, by omega, hle⟩
  show nextInterval crates v.interval response = _
  rw [h.current]

theorem pollDevice_follows {provider : ValidatedProvider} {nonce deviceCode : SecretString}
    {deadline : Nat} (turns : Nat) : ∀ (interval : Nat) (v : DeviceView),
      Polling config deadline interval v →
      Follows (deviceDiscipline crates config) (fun _ _ => True)
        (pollDevice crates config provider nonce deviceCode deadline turns interval) v := by
  induction turns with
  | zero =>
    intro interval v _
    trivial
  | succ turns ih =>
    intro interval v hv
    refine follows_aside_bind (only_ask.mpr trivial) fun cancelled v₁ h₁ => ?_
    refine follows_failIf_bind (fun _ => ?_) fun _ => trivial
    refine follows_aside_bind ensureNotExpired_aside fun _ v₂ h₂ => ?_
    have hv₂ := hv.beside (h₁.trans h₂)
    refine follows_ask_bind.mpr ⟨trivial, fun _ => ?_⟩
    have hv₃ : Polling config deadline interval { v₂ with waited := some (.fromSecs interval) } :=
      ⟨hv₂.deadline, hv₂.current, hv₂.pos, hv₂.capped⟩
    refine follows_aside_bind (only_ask.mpr trivial) fun cancelled' v₄ h₄ => ?_
    refine follows_failIf_bind (fun _ => ?_) fun _ => trivial
    refine follows_aside_bind ensureNotExpired_aside fun _ v₅ h₅ => ?_
    -- the poll: its request is built, its deadline is read off the clock, and it is sent
    unfold send trySend requestDeadline
    rw [bind_assoc, bind_assoc]
    refine follows_ofExcept_bind (fun request hrequest => ?_) fun _ _ => trivial
    rw [bind_assoc, bind_assoc]
    refine follows_aside_bind nowUnix_aside fun now v₆ h₆ => ?_
    have hbeside := (h₄.trans h₅).trans h₆
    have hv₆ := hv₃.beside hbeside
    have hendpoint := endpoint_of_json hrequest
    refine ⟨fun _ => hv₆.mayPoll hbeside.waited (Nat.min_le_right _ _), fun answer => ?_⟩
    cases answer with
    | error error => trivial
    | ok response =>
      have hv₇ := @Polling.polled crates config deadline interval
        (min (saturatingAdd now config.requestTimeout.asSecs) deadline) v₆ request hv₆ hendpoint
        response
      show Follows _ _ (if response.status = 200 then _ else _) _
      split
      · refine follows_aside_bind validateSession_aside fun session v₈ _ => ?_
        exact follows_of_aside publishLogin_aside fun _ _ _ => trivial
      · refine follows_ofExcept_bind (fun pollError herror => ?_) fun _ _ => trivial
        unfold nextInterval at hv₇
        cases pollError with
        | pending =>
          rw [if_neg (by rw [herror]; exact nofun)] at hv₇
          exact ih _ _ hv₇
        | slowDown =>
          rw [if_pos herror] at hv₇
          exact ih _ _ hv₇
        | denied => trivial
        | expired => trivial
        | cancelled => trivial

theorem loginDevice_follows {display : DeviceDisplay} {turns : Nat} :
    Follows (deviceDiscipline crates config) (fun _ _ => True)
      (loginDevice crates config display turns) {} := by
  unfold loginDevice ensureSignedOut load
  rw [bind_assoc, bind_assoc]
  refine follows_ask_bind.mpr ⟨trivial, fun stored => ?_⟩
  refine follows_ofExcept_bind (fun stored _ => ?_) fun _ _ => trivial
  refine follows_failIf_bind (fun _ => ?_) fun _ => trivial
  refine follows_failIf_bind (fun _ => ?_) fun _ => trivial
  refine follows_ask_bind.mpr ⟨trivial, fun started => ?_⟩
  refine follows_aside_bind discoverProvider_aside fun provider v₁ h₁ => ?_
  refine follows_aside_bind freshSecret_aside fun nonce v₂ h₂ => ?_
  have hbegin : ∀ request, WireRequest.beginDevice crates config.publicClientId nonce display
      = .ok request → request.endpoint ≠ .pollDeviceAuthorization := by
    intro request hrequest
    rw [endpoint_of_json hrequest]
    exact nofun
  refine follows_aside_bind (only_bind (trySend_aside hbegin) fun _ => trivial)
    fun response v₃ h₃ => ?_
  refine follows_ofExcept_bind (fun authorization _ => ?_) fun _ _ => trivial
  refine follows_failIf_bind (fun hfields => ?_) fun _ => trivial
  refine follows_aside_bind nowUnix_aside fun now v₄ h₄ => ?_
  refine follows_failIf_bind (fun _ => ?_) fun _ => trivial
  refine follows_ofExcept_bind (fun _ _ => ?_) fun _ _ => trivial
  have h := ((h₁.trans h₂).trans h₃).trans h₄
  refine follows_ask_bind.mpr ⟨h.prompt, fun shown => ?_⟩
  refine follows_ofExcept_bind (fun _ _ => ?_) fun _ _ => trivial
  simp only [Bool.or_eq_true, Bool.not_eq_true', Bool.and_eq_false_iff, decide_eq_false_iff_not,
    not_or, Bool.not_eq_false, not_not] at hfields
  exact pollDevice_follows turns _ _
    ⟨⟨started, _, h.started started rfl, rfl, rfl⟩, rfl, hfields.2.1, hfields.2.2⟩

/-! ## The end of the login -/

/-- A clock that never goes back and advances by each sleep at least. -/
structure Clock {σ : Type} (env : σ → (e : Event) → e.Answer × σ) (time : σ → Nat) : Prop where
  reads : ∀ s, (env s .nowUnix).1 = time s
  advances : ∀ s e, time s ≤ time (env s e).2
  sleeps : ∀ s duration, time s + duration.asSecs ≤ time (env s (.sleep duration)).2

section

variable {σ : Type} {env : σ → (e : Event) → e.Answer × σ} {time : σ → Nat}

/-- A program without loops ends, at no earlier time. -/
theorem Clock.later (hclock : Clock env time) {α : Type} {p : AccountProg α} {q : Event → Prop}
    (hp : Only q p) (s : σ) : Yields env (fun _ s' => time s ≤ time s') p s :=
  yields_of_only (F := fun s s' => time s ≤ time s') (fun _ => Nat.le_refl _)
    (fun _ _ _ => Nat.le_trans) (fun s e _ => hclock.advances s e) hp s

theorem Clock.later_bind (hclock : Clock env time) {α β : Type} {p : AccountProg α}
    {f : α → AccountProg β} {q : Event → Prop} {s : σ} (hp : Only q p)
    (hf : ∀ a s', time s ≤ time s' → Yields env (fun _ _ => True) (f a) s') :
    Yields env (fun _ _ => True) (p >>= f) s :=
  yields_bind (R := fun _ s' => time s ≤ time s') (hclock.later hp s) hf fun _ _ _ => trivial

/-- Where the login goes on, the deadline has not come. -/
theorem Clock.before (hclock : Clock env time) {α : Type} {deadline : Nat}
    {f : Unit → AccountProg α} {s : σ}
    (hf : ∀ s', time s ≤ time s' → time s < deadline → Yields env (fun _ _ => True) (f ()) s') :
    Yields env (fun _ _ => True) (ensureNotExpired deadline >>= f) s := by
  unfold ensureNotExpired ensureBefore
  rw [bind_assoc]
  refine yields_attempt_bind ?_
  refine yields_ask_bind.mpr ?_
  have h₁ := hclock.advances s .cancelled
  generalize env s .cancelled = answered at h₁
  obtain ⟨cancelled, s₁⟩ := answered
  have h₁ : time s ≤ time s₁ := h₁
  cases cancelled with
  | true => exact yields_done.mpr (yields_done.mpr trivial)
  | false =>
    refine yields_ask_bind.mpr ?_
    show Yields env _ (ofExcept (rejectIf ((env s₁ .nowUnix).1 ≥ deadline) _)) (env s₁ .nowUnix).2
    have h₂ := hclock.advances s₁ .nowUnix
    rw [show (env s₁ .nowUnix).1 = time s₁ from hclock.reads s₁]
    refine yields_ofExcept.mpr ?_
    by_cases hexpired : time s₁ ≥ deadline
    · rw [rejectIf, if_pos hexpired]
      exact yields_done.mpr trivial
    · have hbefore := Nat.lt_of_not_le hexpired
      rw [rejectIf, if_neg hexpired]
      exact hf _ (h₁.trans h₂) (h₁.trans_lt hbefore)

theorem asSecs_fromSecs (n : Nat) : (Duration.fromSecs n).asSecs = n := by
  show n * 1000000000 / 1000000000 = n
  omega

/-- Each turn takes a second at least: so many turns as seconds are left are enough. -/
theorem pollDevice_halts (hclock : Clock env time) {provider : ValidatedProvider}
    {nonce deviceCode : SecretString} {deadline : Nat} (turns : Nat) : ∀ (interval : Nat) (s : σ),
      1 ≤ interval → deadline < time s + turns → 1 ≤ turns →
      Yields env (fun _ _ => True)
        (pollDevice crates config provider nonce deviceCode deadline turns interval) s := by
  induction turns with
  | zero =>
    intro interval s _ _ hturns
    omega
  | succ turns ih =>
    intro interval s hpos hleft _
    refine hclock.later_bind cancelled_aside fun cancelled s₁ h₁ => ?_
    refine yields_failIf_bind (fun _ => ?_) fun _ => trivial
    refine hclock.before fun s₂ h₂ hbefore => ?_
    refine yields_ask_bind.mpr ?_
    have h₃ := hclock.sleeps s₂ (.fromSecs interval)
    rw [asSecs_fromSecs] at h₃
    generalize (env s₂ (.sleep (.fromSecs interval))).2 = s₃ at h₃
    refine hclock.later_bind cancelled_aside fun cancelled' s₄ h₄ => ?_
    refine yields_failIf_bind (fun _ => ?_) fun _ => trivial
    refine hclock.before fun s₅ h₅ _ => ?_
    have hsend : Only (fun _ => True)
        (send config (WireRequest.pollDevice crates config.publicClientId deviceCode) deadline) :=
      only_bind (only_ofExcept_bind fun _ _ => only_bind
        (only_bind (only_ask.mpr trivial) fun _ => trivial) fun _ => only_ask.mpr trivial)
        fun _ => trivial
    refine hclock.later_bind hsend fun response s₆ h₆ => ?_
    split
    · refine hclock.later_bind validateSession_aside fun session s₇ _ => ?_
      exact yields_mono (hclock.later publishLogin_aside s₇) fun _ _ _ => trivial
    · refine yields_ofExcept_bind (fun pollError _ => ?_) fun _ _ => trivial
      cases pollError with
      | pending => exact ih _ _ hpos (by omega) (by omega)
      | slowDown =>
        refine ih _ _ ?_ (by omega) (by omega)
        unfold maxDevicePollIntervalSeconds
        omega
      | denied => exact yields_done.mpr trivial
      | expired => exact yields_done.mpr trivial
      | cancelled => exact yields_done.mpr trivial

end

theorem pollDevice_extends {provider : ValidatedProvider} {nonce deviceCode : SecretString}
    {deadline : Nat} (turns : Nat) : ∀ (more interval : Nat), turns ≤ more →
      Extends (pollDevice crates config provider nonce deviceCode deadline turns interval)
        (pollDevice crates config provider nonce deviceCode deadline more interval) := by
  induction turns with
  | zero =>
    intro more interval _
    exact .spent _
  | succ turns ih =>
    intro more interval hle
    obtain ⟨more, rfl⟩ := Nat.exists_eq_add_of_le' (Nat.le_of_add_left_le hle)
    refine .bind .rfl fun _ => .bind .rfl fun _ => .bind .rfl fun _ => .bind .rfl fun _ => ?_
    refine .bind .rfl fun _ => .bind .rfl fun _ => .bind .rfl fun _ => .bind .rfl fun response => ?_
    split
    · exact .rfl
    · refine .bind .rfl fun pollError => ?_
      cases pollError with
      | pending => exact ih _ _ (by omega)
      | slowDown => exact ih _ _ (by omega)
      | denied => exact .rfl
      | expired => exact .rfl
      | cancelled => exact .rfl

theorem loginDevice_extends {display : DeviceDisplay} {turns more : Nat} (h : turns ≤ more) :
    Extends (loginDevice crates config display turns) (loginDevice crates config display more) := by
  unfold loginDevice
  refine .bind .rfl fun _ => .bind .rfl fun _ => .bind .rfl fun _ => .bind .rfl fun _ => ?_
  refine .bind .rfl fun _ => .bind .rfl fun _ => .bind .rfl fun _ => .bind .rfl fun _ => ?_
  refine .bind .rfl fun _ => .bind .rfl fun _ => .bind .rfl fun _ => .bind .rfl fun _ => ?_
  exact .bind .rfl fun _ => pollDevice_extends turns more _ h

/-- The login ends, after no more turns than its timeout has seconds. -/
theorem loginDevice_halts {σ : Type} {env : σ → (e : Event) → e.Answer × σ} {time : σ → Nat}
    (hclock : Clock env time) (display : DeviceDisplay) (s : σ) :
    ∃ r s', ∀ turns, config.deviceTimeout.asSecs < turns →
      run env (loginDevice crates config display turns) s = some (r, s') := by
  have hends : Yields env (fun _ _ => True)
      (loginDevice crates config display (config.deviceTimeout.asSecs + 1)) s := by
    unfold loginDevice
    have hsigned : Only Event.Aside ensureSignedOut :=
      only_bind (only_bind (only_ask.mpr trivial) fun _ => trivial) fun _ => trivial
    refine hclock.later_bind hsigned fun _ s₁ _ => ?_
    refine yields_failIf_bind (fun _ => ?_) fun _ => trivial
    refine yields_ask_bind.mpr ?_
    rw [show (env s₁ .nowUnix).1 = time s₁ from hclock.reads s₁]
    have h₂ := hclock.advances s₁ .nowUnix
    generalize (env s₁ .nowUnix).2 = s₂ at h₂
    refine hclock.later_bind discoverProvider_aside fun provider s₃ h₃ => ?_
    refine hclock.later_bind freshSecret_aside fun nonce s₄ h₄ => ?_
    have hsend : Only (fun _ => True) (send config
        (WireRequest.beginDevice crates config.publicClientId nonce display)
        (saturatingAdd (time s₁) config.deviceTimeout.asSecs)) :=
      only_bind (only_ofExcept_bind fun _ _ => only_bind
        (only_bind (only_ask.mpr trivial) fun _ => trivial) fun _ => only_ask.mpr trivial)
        fun _ => trivial
    refine hclock.later_bind hsend fun response s₅ h₅ => ?_
    refine yields_ofExcept_bind (fun authorization _ => ?_) fun _ _ => trivial
    refine yields_failIf_bind (fun hfields => ?_) fun _ => trivial
    refine hclock.later_bind nowUnix_aside fun now s₆ h₆ => ?_
    refine yields_failIf_bind (fun _ => ?_) fun _ => trivial
    refine yields_ofExcept_bind (fun _ _ => ?_) fun _ _ => trivial
    refine hclock.later_bind (q := fun _ => True) (only_ask.mpr trivial) fun shown s₇ h₇ => ?_
    refine yields_ofExcept_bind (fun _ _ => ?_) fun _ _ => trivial
    simp only [Bool.or_eq_true, Bool.not_eq_true', Bool.and_eq_false_iff, decide_eq_false_iff_not,
      not_or, Bool.not_eq_false, not_not] at hfields
    refine pollDevice_halts hclock _ _ _ hfields.2.1 ?_ (by omega)
    unfold saturatingAdd
    omega
  obtain ⟨r, s', hrun, -⟩ := hends
  exact ⟨r, s', fun turns hturns => (loginDevice_extends hturns).run_eq hrun⟩

/-! ## The bounds -/

/-- Under a clock that advances by each sleep the login ends.  It polls only after waiting for the
current interval, and so that nothing is sent at or after the deadline; the interval never
decreases; and a credential is saved only from a poll that was answered with 200 and accepted. -/
theorem loginDevice_bounded (crates : External) (config : AccountClientConfig)
    (display : DeviceDisplay) :
    (∀ {σ : Type} {env : σ → (e : Event) → e.Answer × σ} {time : σ → Nat}, Clock env time →
      ∀ s, ∃ r s', ∀ turns, config.deviceTimeout.asSecs < turns →
        run env (loginDevice crates config display turns) s = some (r, s'))
      ∧ (∀ turns, Follows (deviceDiscipline crates config) (fun _ _ => True)
        (loginDevice crates config display turns) {})
      ∧ (∀ interval response, interval ≤ maxDevicePollIntervalSeconds →
        interval ≤ nextInterval crates interval response)
      ∧ ∀ turns, Follows (storeDiscipline crates config) (fun _ v => v.Settled crates config)
        (loginDevice crates config display turns) { login := true } :=
  ⟨fun hclock s => loginDevice_halts hclock display s, fun _ => loginDevice_follows,
    fun _ response h => nextInterval_ge h response, fun _ => loginDevice_ends⟩

/-- A clock in seconds that only sleeps move; everything else is answered as in the sample runs. -/
def sampleClock (now : Nat) : (e : Event) → e.Answer × Nat
  | .nowUnix => (now, now)
  | .sleep duration => ((), now + duration.asSecs)
  | e => (sampleAnswer ⟨200, sampleBody nextSession⟩ (State.initial none : State Unit) e, now)

theorem sampleClock_clock : Clock sampleClock id where
  reads _ := rfl
  advances now e := by
    cases e with
    | sleep duration => exact Nat.le_add_right now duration.asSecs
    | _ => exact Nat.le_refl now
  sleeps _ _ := Nat.le_refl _

theorem loginDevice_bounded_sample :
    (∃ r s', ∀ turns, 600 < turns →
      run sampleClock (loginDevice sampleCrates sampleConfig sampleDisplay turns) 1000
        = some (r, s'))
      ∧ 5 ≤ nextInterval sampleCrates 5 ⟨400, Text.asciiBytes []⟩ :=
  ⟨(loginDevice_bounded sampleCrates sampleConfig sampleDisplay).1 sampleClock_clock 1000,
    (loginDevice_bounded sampleCrates sampleConfig sampleDisplay).2.2.1 5
      ⟨400, Text.asciiBytes []⟩ (by decide)⟩

end Kaleidoscope.Account
