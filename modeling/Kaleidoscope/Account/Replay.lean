import Kaleidoscope.Account.Sequential

/-!
# Consumed refresh tokens

A refresh answered with status 200 consumes the token it presented.  `refresh_access` replaces
or deletes the stored credential when the session is accepted and when it cannot be saved, but
not when the response is refused: then the consumed token stays in the store and the next
refresh presents it again.

    noReplay_of_accepted     no consumed token is presented again, as long as every answered
                             refresh is accepted and the server does not reissue tokens
-/

namespace Kaleidoscope.Account

open Prog

variable {Pid : Type}

/-- The token that the entry presents. -/
def Entry.presents : Entry Pid → Option SecretString
  | .did _ _ (.send request _) _ => request.presents
  | _ => none

/-- The token that the entry consumes: it was presented and answered with 200. -/
def Entry.consumes : Entry Pid → Option SecretString
  | .did _ _ (.send request _) (.ok response) =>
    if response.status = 200 then request.presents else none
  | _ => none

def consumed (history : List (Entry Pid)) : List SecretString :=
  history.filterMap Entry.consumes

/-- No entry presents a token that an earlier one consumed. -/
def NoReplay (history : List (Entry Pid)) : Prop :=
  history.Pairwise fun later earlier =>
    ∀ token, earlier.consumes = some token → later.presents ≠ some token

/-- The exchange that an answered event opens. -/
def opened (s : State Pid) (p : Pid) : (e : Event) → e.Answer → Option Exchange
  | .send request _, .ok response => (s.views p).answered request response
  | _, _ => none

/-- The session of a refresh is accepted at the clock that is read. -/
def VerdictOk (crates : External) (config : AccountClientConfig) (x : Exchange) (now : Nat) :
    Prop :=
  ∀ stored, x.expected = some stored → ∃ session, x.verdict crates config now = .ok session

/-- A delete fails only where the stored token is not consumed. -/
def DeletesConsumed (s : State Pid) : (e : Event) → e.Answer → Prop
  | .delete, .error _ => ∀ c, s.slot = some c → c.refreshToken ∉ consumed s.history
  | _, _ => True

/-- The conditions on one event: an answered refresh passes the checks, a granted token was not
consumed before, and a consumed token that has to be deleted can be. -/
structure AcceptsRotations (crates : External) (config : AccountClientConfig) (s : State Pid)
    (p : Pid) (e : Event) (answer : e.Answer) : Prop where
  reading : AtReading (VerdictOk crates config) s p e answer
  wire : ∀ x stored, opened s p e answer = some x → x.expected = some stored →
    ∃ wire, checkSessionWire crates x.response = .ok wire
  fresh : ∀ x wire, opened s p e answer = some x →
    crates.decodeSession x.response.body = some wire →
    ⟨wire.refreshToken⟩ ∉ consumed (.did p (s.operation p) e answer :: s.history)
  delete : DeletesConsumed s e answer

/-! ## Lemmas -/

theorem consumed_cons (entry : Entry Pid) (history : List (Entry Pid)) (token : SecretString) :
    token ∈ consumed (entry :: history) ↔
      entry.consumes = some token ∨ token ∈ consumed history := by
  unfold consumed
  cases h : entry.consumes <;> simp [h, eq_comm]

theorem mem_consumed {history : List (Entry Pid)} {token : SecretString} :
    token ∈ consumed history ↔ ∃ entry ∈ history, entry.consumes = some token :=
  List.mem_filterMap

theorem noReplay_cons {entry : Entry Pid} {history : List (Entry Pid)} (h : NoReplay history)
    (hnew : ∀ token, entry.presents = some token → token ∉ consumed history) :
    NoReplay (entry :: history) := by
  refine List.pairwise_cons.mpr ⟨fun earlier hmem token hcons hpres => ?_, h⟩
  exact hnew token hpres (mem_consumed.mpr ⟨earlier, hmem, hcons⟩)

/-- An event that is not a send neither presents nor consumes a token. -/
theorem consumed_other (p : Pid) (o : Option Operation) (e : Event) (answer : e.Answer)
    (history : List (Entry Pid)) (h : ∀ request deadline, e ≠ .send request deadline) :
    (∀ token, (Entry.did p o e answer).presents ≠ some token)
      ∧ ∀ token, token ∈ consumed (.did p o e answer :: history) ↔ token ∈ consumed history := by
  have hpres : (Entry.did p o e answer).presents = none := by
    cases e <;> first | rfl | exact absurd rfl (h _ _)
  have hcons : (Entry.did p o e answer).consumes = none := by
    cases e <;> first | rfl | exact absurd rfl (h _ _)
  exact ⟨by simp [hpres], fun token => by simp [consumed_cons, hcons]⟩

variable {crates : External} {config : AccountClientConfig}

/-! ## The run -/

/-- No refresh of the running operation is answered and open. -/
def Clean (v : Pool.Locals Unit Operation View) : Prop :=
  ∀ o l x, v () = some (o, l) → l.exchange = some x → x.expected = none

/-- What is known of the open exchange of a running operation. -/
structure OpenExchange (crates : External) (s : State Unit) (l : View) (x : Exchange) : Prop where
  fresh : ∀ wire, crates.decodeSession x.response.body = some wire →
    ⟨wire.refreshToken⟩ ∉ consumed s.history
  refresh : ∀ stored, x.expected = some stored → l.deleteFailed = false
    ∧ (∃ wire, checkSessionWire crates x.response = .ok wire)
    ∧ s.slot = some stored ∧ stored.refreshToken ∈ consumed s.history

structure ReplayKept (crates : External) (config : AccountClientConfig) (s : State Unit)
    (v : Pool.Locals Unit Operation View) : Prop
    extends Sequential (VerdictOk crates config) s v where
  noReplay : NoReplay s.history
  fresh : Clean v → ∀ c, s.slot = some c → c.refreshToken ∉ consumed s.history
  opened : ∀ o l x, v () = some (o, l) → l.exchange = some x → OpenExchange crates s l x

theorem replayKept_start {s : State Unit} {v : Pool.Locals Unit Operation View} {p : Unit}
    {o : Operation} (h : ReplayKept crates config s v) (hp : v p = none) :
    ReplayKept crates config (s.start p o) (Function.update v p (some (o, o.view))) := by
  have hclean : Clean v := fun o l x hl => by rw [hp] at hl; cases hl
  have hcons : ∀ token, token ∈ consumed (s.start p o).history ↔ token ∈ consumed s.history :=
    fun token => by simp [State.start, consumed_cons, Entry.consumes]
  refine ⟨sequential_start h.toSequential p o, ?_, fun _ c hc => ?_, fun o' l x hl hx => ?_⟩
  · exact noReplay_cons h.noReplay fun token hpres => by cases hpres
  · rw [hcons]
    exact h.fresh hclean c hc
  · simp only [Function.update_self, Option.some.injEq, Prod.mk.injEq] at hl
    obtain ⟨rfl, rfl⟩ := hl
    cases hx

/-- The coupling after an event, from what is new in it. -/
theorem replayKept_of {s : State Unit} {v : Pool.Locals Unit Operation View} {p : Unit}
    {o : Operation} {l : View} {e : Event} {answer : e.Answer}
    (h : ReplayKept crates config s v) (hp : v p = some (o, l)) (hans : Answers s e answer)
    (hok : AcceptsRotations crates config s p e answer)
    (hpres : ∀ token, (Entry.did p (s.operation p) e answer).presents = some token →
      token ∉ consumed s.history)
    (hfresh : (∀ x, (l.after crates config e answer).exchange = some x → x.expected = none) →
      ∀ c, slotAfter s.slot e answer = some c →
        c.refreshToken ∉ consumed (.did p (s.operation p) e answer :: s.history))
    (hopen : ∀ x, (l.after crates config e answer).exchange = some x →
      OpenExchange crates (s.after crates config p e answer) (l.after crates config e answer) x) :
    ReplayKept crates config (s.after crates config p e answer)
      (Function.update v p (some (o, l.after crates config e answer))) := by
  refine ⟨sequential_event h.toSequential hp hans hok.reading, noReplay_cons h.noReplay hpres,
    fun hclean => hfresh fun x hx => hclean o _ x (by simp) hx, fun o' l' x hl hx => ?_⟩
  simp only [Function.update_self, Option.some.injEq, Prod.mk.injEq] at hl
  obtain ⟨rfl, rfl⟩ := hl
  exact hopen x hx

/-- The operation has no open refresh exactly when the pool has none. -/
theorem clean_iff {v : Pool.Locals Unit Operation View} {p : Unit} {o : Operation} {l : View}
    (hp : v p = some (o, l)) : Clean v ↔ ∀ x, l.exchange = some x → x.expected = none := by
  constructor
  · intro h x hx
    exact h o l x hp hx
  · intro h o' l' x hl hx
    have hl' : some (o, l) = some (o', l') := hp.symm.trans hl
    cases hl'
    exact h x hx

/-- Events that touch neither the store nor the transport. -/
theorem replayKept_idle {s : State Unit} {v : Pool.Locals Unit Operation View} {p : Unit}
    {o : Operation} {l : View} {e : Event} {answer : e.Answer}
    (h : ReplayKept crates config s v) (hp : v p = some (o, l)) (hans : Answers s e answer)
    (hok : AcceptsRotations crates config s p e answer)
    (hsend : ∀ request deadline, e ≠ .send request deadline)
    (hslot : slotAfter s.slot e answer = s.slot)
    (hx : (l.after crates config e answer).exchange = l.exchange)
    (hd : (l.after crates config e answer).deleteFailed = l.deleteFailed) :
    ReplayKept crates config (s.after crates config p e answer)
      (Function.update v p (some (o, l.after crates config e answer))) := by
  obtain ⟨hpres, hcons⟩ := consumed_other p (s.operation p) e answer s.history hsend
  refine replayKept_of h hp hans hok (fun token ht => absurd ht (hpres token)) ?_ ?_
  · intro hclean c hc
    rw [hx] at hclean
    rw [hslot] at hc
    rw [hcons]
    exact h.fresh ((clean_iff hp).mpr hclean) c hc
  · intro x hxs
    rw [hx] at hxs
    obtain ⟨hfresh, hrefresh⟩ := h.opened o l x hp hxs
    refine ⟨fun wire hw => ?_, fun stored hs => ?_⟩
    · show _ ∉ consumed (_ :: s.history)
      rw [hcons]
      exact hfresh wire hw
    · obtain ⟨hfailed, hwire, hstored, hmem⟩ := hrefresh stored hs
      refine ⟨hd.trans hfailed, hwire, hslot.trans hstored, ?_⟩
      show _ ∈ consumed (_ :: s.history)
      rw [hcons]
      exact hmem

/-- A save stores the token of the answered exchange, which is not consumed. -/
theorem replayKept_save {s : State Unit} {v : Pool.Locals Unit Operation View} {p : Unit}
    {o : Operation} {l : View} {credential : StoredCredential} {answer : AccountResult Unit}
    (h : ReplayKept crates config s v) (hp : v p = some (o, l))
    (hmay : l.May crates config (.save credential))
    (hok : AcceptsRotations crates config s p (.save credential) answer) :
    ReplayKept crates config (s.after crates config p (.save credential) answer)
      (Function.update v p (some (o, l.after crates config (.save credential) answer))) := by
  cases answer with
  | error x => exact replayKept_idle h hp trivial hok (fun _ _ he => nomatch he) rfl rfl rfl
  | ok u =>
    obtain ⟨x, now, session, hx, _, hv, rfl, _⟩ := hmay
    obtain ⟨wire, hw, haccepted⟩ := sessionVerdict_ok hv
    obtain ⟨hpres, hcons⟩ := consumed_other p (s.operation p) (.save session.credential) (.ok u)
      s.history (fun _ _ he => nomatch he)
    refine replayKept_of h hp trivial hok (fun token ht => absurd ht (hpres token))
      (fun _ c hc => ?_) fun y hy => nomatch hy
    cases hc
    rw [hcons, haccepted.refreshToken]
    exact (h.opened o l x hp hx).fresh wire hw

/-- A delete that fails does so where the stored token is not consumed: no refresh is open. -/
theorem replayKept_delete {s : State Unit} {v : Pool.Locals Unit Operation View} {p : Unit}
    {o : Operation} {l : View} {answer : AccountResult Bool}
    (h : ReplayKept crates config s v) (hp : v p = some (o, l))
    (hans : Answers s .delete answer) (hok : AcceptsRotations crates config s p .delete answer) :
    ReplayKept crates config (s.after crates config p .delete answer)
      (Function.update v p (some (o, l.after crates config .delete answer))) := by
  obtain ⟨hpres, hcons⟩ := consumed_other p (s.operation p) .delete answer s.history
    (fun _ _ he => nomatch he)
  cases answer with
  | ok removed =>
    exact replayKept_of h hp hans hok (fun token ht => absurd ht (hpres token))
      (fun _ c hc => nomatch hc) fun y hy => nomatch hy
  | error x =>
    refine replayKept_of h hp hans hok (fun token ht => absurd ht (hpres token)) ?_ ?_
    · intro hclean c hc
      rw [hcons]
      exact h.fresh ((clean_iff hp).mpr hclean) c hc
    · intro y hy
      have hopen := h.opened o l y hp hy
      refine ⟨fun wire hw => ?_, fun stored hs => ?_⟩
      · show _ ∉ consumed (_ :: s.history)
        rw [hcons]
        exact hopen.fresh wire hw
      · obtain ⟨_, _, hslot, hmem⟩ := hopen.refresh stored hs
        exact absurd hmem (hok.delete stored hslot)

/-- A send that consumes no token and opens no exchange. -/
theorem replayKept_unanswered {s : State Unit} {v : Pool.Locals Unit Operation View} {p : Unit}
    {o : Operation} {l : View} {request : WireRequest} {deadline : Nat}
    {answer : AccountResult WireResponse}
    (h : ReplayKept crates config s v) (hp : v p = some (o, l))
    (hok : AcceptsRotations crates config s p (.send request deadline) answer)
    (hpres : ∀ token, request.presents = some token → token ∉ consumed s.history)
    (hcons : (Entry.did p (s.operation p) (.send request deadline) answer).consumes = none)
    (hx : (l.after crates config (.send request deadline) answer).exchange = l.exchange)
    (hd : (l.after crates config (.send request deadline) answer).deleteFailed
      = l.deleteFailed) :
    ReplayKept crates config (s.after crates config p (.send request deadline) answer)
      (Function.update v p (some (o, l.after crates config (.send request deadline) answer))) := by
  have hsame : ∀ token, token ∈ consumed
      (.did p (s.operation p) (.send request deadline) answer :: s.history)
      ↔ token ∈ consumed s.history := fun token => by simp [consumed_cons, hcons]
  refine replayKept_of h hp trivial hok hpres (fun hclean c hc => ?_) fun x hxs => ?_
  · rw [hx] at hclean
    rw [hsame]
    exact h.fresh ((clean_iff hp).mpr hclean) c hc
  · rw [hx] at hxs
    obtain ⟨hfresh, hrefresh⟩ := h.opened o l x hp hxs
    refine ⟨fun wire hw => fun hmem => hfresh wire hw ((hsame _).mp hmem), fun stored hs => ?_⟩
    obtain ⟨hfailed, hwire, hstored, hmem⟩ := hrefresh stored hs
    exact ⟨hd.trans hfailed, hwire, hstored, (hsame _).mpr hmem⟩

/-- A send whose answer opens an exchange. -/
theorem replayKept_answered {s : State Unit} {v : Pool.Locals Unit Operation View} {p : Unit}
    {o : Operation} {l : View} {request : WireRequest} {deadline : Nat}
    {response : WireResponse} {x : Exchange}
    (h : ReplayKept crates config s v) (hp : v p = some (o, l))
    (hok : AcceptsRotations crates config s p (.send request deadline) (.ok response))
    (hpres : ∀ token, request.presents = some token → token ∉ consumed s.history)
    (hclean : Clean v) (hx : l.answered request response = some x)
    (hexp : ∀ stored, x.expected = some stored → s.slot = some stored
      ∧ request.presents = some stored.refreshToken ∧ response.status = 200)
    (hcons : x.expected = none → request.presents = none) :
    ReplayKept crates config (s.after crates config p (.send request deadline) (.ok response))
      (Function.update v p
        (some (o, l.after crates config (.send request deadline) (.ok response)))) := by
  have hafter : l.after crates config (.send request deadline) (.ok response)
      = { l with started := true, nonce := request.nonce <|> l.nonce, exchange := some x,
                 clock := none, deleteFailed := false } := by simp [View.after, hx]
  have hopened : opened s p (.send request deadline) (.ok response) = some x := by
    simp only [opened, (h.kept p o l hp).2.1]
    exact hx
  refine replayKept_of h hp trivial hok hpres (fun hnone c hc => ?_) fun y hy => ?_
  · have hxn : x.expected = none := hnone x (by rw [hafter])
    have hnocons : (Entry.did p (s.operation p) (.send request deadline)
        (.ok response)).consumes = none := by simp [Entry.consumes, hcons hxn]
    simp only [consumed_cons, hnocons, reduceCtorEq, false_or]
    exact h.fresh hclean c hc
  · rw [hafter] at hy
    cases hy
    refine ⟨fun wire hw => hok.fresh x wire hopened hw, fun stored hs => ?_⟩
    obtain ⟨hslot, hpresents, hstatus⟩ := hexp stored hs
    refine ⟨by rw [hafter], hok.wire x stored hopened hs, hslot, ?_⟩
    exact (consumed_cons _ _ _).mpr (.inl (by simp [Entry.consumes, hstatus, hpresents]))

/-- A send: a refresh presents the token of the slot, which is not consumed yet. -/
theorem replayKept_send {s : State Unit} {v : Pool.Locals Unit Operation View} {p : Unit}
    {o : Operation} {l : View} {request : WireRequest} {deadline : Nat}
    {answer : AccountResult WireResponse}
    (h : ReplayKept crates config s v) (hp : v p = some (o, l))
    (hmay : l.May crates config (.send request deadline))
    (hok : AcceptsRotations crates config s p (.send request deadline) answer) :
    ReplayKept crates config (s.after crates config p (.send request deadline) answer)
      (Function.update v p (some (o, l.after crates config (.send request deadline) answer))) := by
  obtain ⟨hgrants, hpresents⟩ := hmay
  have hgrant : ∀ token, request.presents = some token → request.grants = true := by
    intro token ht
    cases hc : request.content with
    | none => simp [WireRequest.presents, hc] at ht
    | some content =>
      cases content <;>
        simp_all [WireRequest.presents, WireRequest.grants, WireContent.presents,
          WireContent.grants]
  have hclean : request.grants = true → Clean v := by
    intro hg
    refine (clean_iff hp).mpr fun x hx => ?_
    rw [(hgrants hg).1] at hx
    cases hx
  have hslot : ∀ token, request.presents = some token →
      ∃ stored, s.slot = some stored ∧ l.seen = some (some stored)
        ∧ stored.refreshToken = token := by
    intro token ht
    obtain ⟨stored, hseen, htok⟩ := hpresents token ht
    exact ⟨stored, h.seen o l _ hp hseen, hseen, htok⟩
  have hpres : ∀ token, request.presents = some token → token ∉ consumed s.history := by
    intro token ht
    obtain ⟨stored, hs, _, rfl⟩ := hslot token ht
    exact h.fresh (hclean (hgrant _ ht)) stored hs
  cases answer with
  | error x => exact replayKept_unanswered h hp hok hpres rfl rfl rfl
  | ok response =>
    cases hx : l.answered request response with
    | some x =>
      have hx' := hx
      simp only [View.answered, Option.ite_none_right_eq_some, Bool.and_eq_true,
        decide_eq_true_eq] at hx'
      obtain ⟨⟨hg, hstatus⟩, hx'⟩ := hx'
      split at hx'
      next provider nonce _ _ =>
        cases hx'
        refine replayKept_answered h hp hok hpres (hclean hg) hx (fun stored hs => ?_) fun hn => ?_
        · cases ht : request.presents with
          | none => simp [ht] at hs
          | some token =>
            obtain ⟨stored', hs', hseen, rfl⟩ := hslot token ht
            simp only [ht, Option.isSome_some, if_true, hseen, Option.join_some,
              Option.some.injEq] at hs
            subst hs
            exact ⟨hs', rfl, hstatus⟩
        · cases ht : request.presents with
          | none => rfl
          | some token =>
            obtain ⟨stored', _, hseen, _⟩ := hslot token ht
            simp [ht, hseen] at hn
      next => cases hx'
    | none =>
      refine replayKept_unanswered h hp hok hpres ?_ (by simp [View.after, hx])
        (by simp [View.after, hx])
      -- an answered refresh would have opened an exchange
      by_cases hstatus : response.status = 200
      · cases ht : request.presents with
        | none => simp [Entry.consumes, ht]
        | some token =>
          obtain ⟨_, hprovider, hnonce⟩ := hgrants (hgrant token ht)
          obtain ⟨provider, hprovider⟩ := Option.isSome_iff_exists.mp hprovider
          obtain ⟨nonce, hnonce⟩ := Option.isSome_iff_exists.mp hnonce
          simp [View.answered, hgrant token ht, hstatus, hprovider, hnonce] at hx
      · simp [Entry.consumes, hstatus]

theorem replayKept_event {s : State Unit} {v : Pool.Locals Unit Operation View} {p : Unit}
    {o : Operation} {l : View} {e : Event} {answer : e.Answer}
    (h : ReplayKept crates config s v) (hp : v p = some (o, l)) (hmay : l.May crates config e)
    (hans : Answers s e answer) (hok : AcceptsRotations crates config s p e answer) :
    ReplayKept crates config (s.after crates config p e answer)
      (Function.update v p (some (o, l.after crates config e answer))) := by
  cases e with
  | send request deadline => exact replayKept_send h hp hmay hok
  | save credential => exact replayKept_save h hp hmay hok
  | delete => exact replayKept_delete h hp hans hok
  | load =>
    cases answer <;> exact replayKept_idle h hp hans hok (fun _ _ he => nomatch he) rfl rfl rfl
  | getOidcDocument kind url deadline =>
    cases kind <;> cases answer <;>
      exact replayKept_idle h hp hans hok (fun _ _ he => nomatch he) rfl rfl rfl
  | _ => exact replayKept_idle h hp hans hok (fun _ _ he => nomatch he) rfl rfl rfl

/-- An operation that ends settled has no open refresh. -/
theorem clean_of_settled {s : State Unit} {v : Pool.Locals Unit Operation View} {p : Unit}
    {o : Operation} {l : View} (h : ReplayKept crates config s v) (hp : v p = some (o, l))
    (hsettled : l.Settled crates config) : Clean v := by
  refine (clean_iff hp).mpr fun x hx => ?_
  cases hexp : x.expected with
  | none => rfl
  | some stored =>
    obtain ⟨hfailed, ⟨wire, hwire⟩, _⟩ := (h.opened o l x hp hx).refresh stored hexp
    rcases hsettled x stored hx hexp with hf | ⟨error, herror⟩ | ⟨now, error, hclock, herror⟩
    · rw [hfailed] at hf
      cases hf
    · rw [hwire] at herror
      cases herror
    · obtain ⟨session, hv⟩ := h.reading o l x now hp hx hclock stored hexp
      rw [hv] at herror
      cases herror

theorem replayKept_finish {s : State Unit} {v : Pool.Locals Unit Operation View} {p : Unit}
    {o : Operation} {l : View} {result : AccountResult Unit} (h : ReplayKept crates config s v)
    (hp : v p = some (o, l)) (hsettled : l.Settled crates config) :
    ReplayKept crates config (s.finish p o result) (Function.update v p none) := by
  have hcons : ∀ token, token ∈ consumed (s.finish p o result).history
      ↔ token ∈ consumed s.history :=
    fun token => by simp [State.finish, consumed_cons, Entry.consumes]
  refine ⟨sequential_finish h.toSequential, ?_, fun _ c hc => ?_, fun o' l' x hl => ?_⟩
  · exact noReplay_cons h.noReplay fun token hpres => by cases hpres
  · rw [hcons]
    exact h.fresh (clean_of_settled h hp hsettled) c hc
  · simp at hl

/-- The operations of one client, one after the other, in an environment where every answered
refresh is accepted, no consumed token is granted again, and a consumed token can be deleted. -/
def rotationWorld (crates : External) (config : AccountClientConfig) :
    Pool.World Event Event.Answer AccountError Unit (State Unit) Unit Operation :=
  (accountWorld crates config fun _ _ => True).restrict
    fun s p e answer _ => AcceptsRotations crates config s p e answer

/-! ## Scripted runs -/

/-- The conditions as a test on the next event of a scripted run. -/
def acceptsRotations (rotation : WireResponse) (s : State Unit) (p : Unit) : Event → Bool
  | .nowUnix =>
    match (s.views p).exchange, (s.views p).clock with
    | some x, none =>
      x.expected.isNone || (x.verdict sampleCrates sampleConfig 1000).toOption.isSome
    | _, _ => true
  | .send request deadline =>
    match opened s p (.send request deadline) (sampleNetwork rotation request) with
    | some x =>
      (x.expected.isNone || (checkSessionWire sampleCrates x.response).toOption.isSome)
        && (sampleCrates.decodeSession x.response.body).all fun wire =>
          ⟨wire.refreshToken⟩ ∉ consumed (.did p (s.operation p) (.send request deadline)
            (sampleNetwork rotation request) :: s.history)
    | none => true
  | _ => true

theorem eq_ok_of_toOption_isSome {α : Type} {x : AccountResult α}
    (h : x.toOption.isSome = true) : ∃ a, x = .ok a := by
  cases x with
  | error _ => cases h
  | ok a => exact ⟨a, rfl⟩

theorem acceptsRotations_sound {rotation : WireResponse} {s : State Unit} {p : Unit} {e : Event}
    (h : acceptsRotations rotation s p e = true) :
    AcceptsRotations sampleCrates sampleConfig s p e (sampleAnswer rotation s e) := by
  cases e with
  | nowUnix =>
    refine ⟨?_, fun x _ hx => (nomatch hx), fun x _ hx => (nomatch hx), trivial⟩
    intro x hx hclock stored hexp
    have hv : (x.verdict sampleCrates sampleConfig 1000).toOption.isSome = true := by
      simpa [acceptsRotations, hx, hclock, hexp] using h
    exact eq_ok_of_toOption_isSome hv
  | send request deadline =>
    refine ⟨trivial, fun x stored hx hexp => ?_, fun x wire hx hwire => ?_, trivial⟩
    · simp only [acceptsRotations, show opened s p (.send request deadline)
        (sampleNetwork rotation request) = some x from hx, hexp, Option.isNone_some,
        Bool.false_or, Bool.and_eq_true] at h
      exact eq_ok_of_toOption_isSome h.1
    · simp only [acceptsRotations, show opened s p (.send request deadline)
        (sampleNetwork rotation request) = some x from hx, hwire, Option.all_some,
        Bool.and_eq_true, decide_eq_true_eq] at h
      exact h.2
  | _ => exact ⟨trivial, fun x _ hx => (nomatch hx), fun x _ hx => (nomatch hx), trivial⟩

/-- A status of a client that is signed in. -/
def statusTurns (events : Nat) : List (Pool.Turn Unit Operation) :=
  .start () .status :: List.replicate events (.event ())

def runSignedIn (rotation : WireResponse) (allowed : State Unit → Unit → Event → Bool)
    (turns : List (Pool.Turn Unit Operation)) :
    Option (State Unit × Pool.Running Event Event.Answer AccountError Unit Unit Operation) :=
  Pool.drive (sampleScript sampleCrates sampleConfig rotation (fun _ _ => true) allowed)
    (Operation.program sampleCrates sampleClient) turns
    (State.initial (some sampleCredential), fun _ => none)

theorem runSignedIn_reachable {rotation : WireResponse}
    {allowed : State Unit → Unit → Event → Bool} {turns : List (Pool.Turn Unit Operation)}
    (ok : State Unit → Unit → (e : Event) → e.Answer → State Unit → Prop)
    (hok : ∀ s p e s', allowed s p e = true → ok s p e (sampleAnswer rotation s e) s')
    {c : State Unit × Pool.Running Event Event.Answer AccountError Unit Unit Operation}
    (h : runSignedIn rotation allowed turns = some c) :
    Pool.Reachable ((accountWorld sampleCrates sampleConfig fun _ _ => True).restrict ok)
      (Operation.program sampleCrates sampleClient) (State.initial (some sampleCredential))
      c.1 c.2 :=
  Pool.drive_reachable (sampleScript_sound (fun _ _ _ => trivial) hok) turns .init h

/-- The last event presents a token that was consumed. -/
def replays (s : State Unit) : Bool :=
  s.history.head?.any fun entry =>
    entry.presents.any fun token => token ∈ consumed s.history.tail

theorem replays_not_noReplay {s : State Unit} (h : replays s = true) : ¬NoReplay s.history := by
  intro hno
  obtain ⟨entry, hentry, htoken⟩ := (Option.any_eq_true _ _).mp h
  obtain ⟨token, hpres, hmem⟩ := (Option.any_eq_true _ _).mp htoken
  obtain ⟨earlier, hearlier, hcons⟩ := mem_consumed.mp (of_decide_eq_true hmem)
  cases hh : s.history with
  | nil => simp [hh] at hentry
  | cons first rest =>
    rw [hh] at hno hearlier hentry
    cases hentry
    exact (List.pairwise_cons.mp hno).1 earlier hearlier token hcons hpres

/-! ## Top theorems -/

/-- In every run where every answered refresh is accepted no consumed token is presented again,
and between operations the stored token is not consumed. -/
theorem noReplay_of_accepted (client : AccountClient) {slot : Option StoredCredential}
    {s : State Unit} {r : Pool.Running Event Event.Answer AccountError Unit Unit Operation}
    (run : Pool.Reachable (rotationWorld crates client.config) (Operation.program crates client)
      (State.initial slot) s r) :
    NoReplay s.history
      ∧ (r () = none → ∀ c, s.slot = some c → c.refreshToken ∉ consumed s.history) := by
  have hJ : Pool.Invariant (rotationWorld crates client.config)
      (storeDiscipline crates client.config) (fun _ _ v => v.Settled crates client.config)
      Operation.view (State.initial slot) (ReplayKept crates client.config) :=
    { init := ⟨sequential_init, .nil, fun _ c _ hmem => (nomatch hmem),
        fun o l x hl => (nomatch hl)⟩
      start := by
        rintro s v p o s' h hp ⟨_, rfl⟩
        exact replayKept_start h hp
      event := by
        rintro s v p o l e answer s' h hp hmay ⟨⟨hans, rfl⟩, hok⟩
        exact replayKept_event h hp hmay hans hok
      finish := by
        rintro s v p o l result s' h hp hsettled rfl
        exact replayKept_finish h hp hsettled }
  obtain ⟨v, hv, hcoupled⟩ := Pool.reachable_invariant (operation_follows client) hJ run
  refine ⟨hv.noReplay, fun hidle c hc => hv.fresh ?_ c hc⟩
  intro o l x hl
  rw [hcoupled.idle hidle] at hl
  cases hl

/-- A refresh that is accepted and stored. -/
theorem noReplay_of_accepted_rotation : ∃ s : State Unit,
    consumed s.history = [⟨sampleSecret 'r'⟩] ∧ s.slot.isSome = true ∧ NoReplay s.history := by
  have hrun : (runSignedIn ⟨200, sampleBody nextSession⟩
      (acceptsRotations ⟨200, sampleBody nextSession⟩) (statusTurns 14)).any
      (fun c => consumed c.1.history == [⟨sampleSecret 'r'⟩] && c.1.slot.isSome) = true := by
    decide +kernel
  obtain ⟨⟨s, r⟩, hs, hstate⟩ := (Option.any_eq_true _ _).mp hrun
  obtain ⟨hconsumed, hslot⟩ := Bool.and_eq_true _ _ ▸ hstate
  have hreach := runSignedIn_reachable
    (fun s p e answer _ => AcceptsRotations sampleCrates sampleConfig s p e answer)
    (fun _ _ _ _ h => acceptsRotations_sound h) hs
  exact ⟨s, by simpa using hconsumed, hslot, (noReplay_of_accepted sampleClient hreach).1⟩

/-- A store whose deletes all succeed. -/
def Deletes : (e : Event) → e.Answer → Prop
  | .delete, .error _ => False
  | _, _ => True

/-- A rotation whose body does not decode leaves the consumed token in the store: the next status
presents it again. -/
theorem malformed_rotation_replays : ∃ (s : State Unit)
    (r : Pool.Running Event Event.Answer AccountError Unit Unit Operation),
    Pool.Reachable ((accountWorld sampleCrates sampleConfig fun _ _ => True).restrict
        fun _ _ e answer _ => Deletes e answer)
      (Operation.program sampleCrates sampleClient) (State.initial (some sampleCredential)) s r
      ∧ ¬NoReplay s.history := by
  have hrun : (runSignedIn ⟨200, Text.asciiBytes "\x7b\x7d".toList⟩ (fun _ _ _ => true)
      (statusTurns 12 ++ .finish () :: statusTurns 11)).any
      (fun c => replays c.1) = true := by
    decide +kernel
  obtain ⟨⟨s, r⟩, hs, hreplays⟩ := (Option.any_eq_true _ _).mp hrun
  have hreach := runSignedIn_reachable (fun _ _ e answer _ => Deletes e answer)
    (fun _ _ e _ _ => by cases e <;> trivial) hs
  exact ⟨s, r, hreach, replays_not_noReplay hreplays⟩

end Kaleidoscope.Account
