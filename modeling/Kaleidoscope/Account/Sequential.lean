import Kaleidoscope.Account.World

/-!
# One client, one operation after the other

Runs with a single process.  Nothing else touches the store, so the slot is what the running
operation last saw, and a condition on the clock readings that follow an answered exchange
holds of the exchange for as long as it is open.

    sequential_start, sequential_event, sequential_finish
-/

namespace Kaleidoscope.Account

/-- A condition on the first clock reading after an answered exchange. -/
def AtReading {Pid : Type} (K : Exchange → Nat → Prop) (s : State Pid) (p : Pid) :
    (e : Event) → e.Answer → Prop
  | .nowUnix, now => ∀ x, (s.views p).exchange = some x → (s.views p).clock = none → K x now
  | _, _ => True

structure Sequential (K : Exchange → Nat → Prop) (s : State Unit)
    (v : Pool.Locals Unit Operation View) : Prop where
  kept : Kept s v
  seen : ∀ o l stored, v () = some (o, l) → l.seen = some stored → s.slot = stored
  reading : ∀ o l x now, v () = some (o, l) → l.exchange = some x → l.clock = some now → K x now

variable {crates : External} {config : AccountClientConfig} {K : Exchange → Nat → Prop}

/-- What an operation has seen of the slot stays right over its own events. -/
theorem after_seen {Pid : Type} {s : State Pid} {v : View} {e : Event} {answer : e.Answer}
    (hans : Answers s e answer) (hseen : ∀ stored, v.seen = some stored → s.slot = stored) :
    ∀ stored, (v.after crates config e answer).seen = some stored →
      slotAfter s.slot e answer = stored := by
  intro stored h
  cases e with
  | load =>
    cases answer with
    | error x => exact hseen stored h
    | ok found =>
      cases h
      exact hans.symm
  | save credential =>
    cases answer with
    | error x => exact hseen stored h
    | ok _ => cases h; rfl
  | delete =>
    cases answer with
    | error x => exact hseen stored h
    | ok _ => cases h; rfl
  | getOidcDocument kind url deadlineUnix =>
    cases kind <;> cases answer <;> exact hseen stored h
  | send request deadlineUnix =>
    cases answer with
    | error x => exact hseen stored h
    | ok response =>
      have hkeep : (v.after crates config (.send request deadlineUnix) (.ok response)).seen
          = v.seen := by
        simp only [View.after]
        split <;> rfl
      exact hseen stored (hkeep ▸ h)
  | _ => exact hseen stored h

/-- A condition at the readings carries to every open exchange whose clock was read. -/
theorem after_reading {Pid : Type} {s : State Pid} {p : Pid} {v : View} (hview : s.views p = v)
    {e : Event} {answer : e.Answer} (hread : AtReading K s p e answer)
    (hK : ∀ x now, v.exchange = some x → v.clock = some now → K x now) :
    ∀ x now, (v.after crates config e answer).exchange = some x →
      (v.after crates config e answer).clock = some now → K x now := by
  intro x now hx hclock
  cases e with
  | nowUnix =>
    cases hc : v.clock with
    | some earlier =>
      have hnow : earlier = now := by simpa [View.after, hc] using hclock
      exact hK x now hx (hnow ▸ hc)
    | none =>
      have hnow : answer = now := by simpa [View.after, hc] using hclock
      subst hview
      exact hnow ▸ hread x hx hc
  | save credential =>
    cases answer with
    | error _ => exact hK x now hx hclock
    | ok _ => cases hx
  | delete =>
    cases answer with
    | error _ => exact hK x now hx hclock
    | ok _ => cases hx
  | load => cases answer <;> exact hK x now hx hclock
  | getOidcDocument kind url deadlineUnix =>
    cases kind <;> cases answer <;> exact hK x now hx hclock
  | send request deadlineUnix =>
    cases answer with
    | error _ => exact hK x now hx hclock
    | ok response =>
      cases ha : v.answered request response with
      | some y =>
        simp [View.after, ha] at hclock
      | none =>
        have hafter : v.after crates config (.send request deadlineUnix) (.ok response)
            = { v with started := true, nonce := request.nonce <|> v.nonce } := by
          simp [View.after, ha]
        rw [hafter] at hx hclock
        exact hK x now hx hclock
  | _ => exact hK x now hx hclock

theorem sequential_init {slot : Option StoredCredential} :
    Sequential K (State.initial slot) fun _ => none :=
  ⟨fun _ _ _ h => (nomatch h), fun _ _ _ h => (nomatch h), fun _ _ _ _ h => (nomatch h)⟩

theorem sequential_start {s : State Unit} {v : Pool.Locals Unit Operation View}
    (h : Sequential K s v) (p : Unit) (o : Operation) :
    Sequential K (s.start p o) (Function.update v p (some (o, o.view))) := by
  refine ⟨kept_start h.kept p o, fun o' l stored hl hseen => ?_, fun o' l x now hl hx => ?_⟩
  · simp only [Function.update_self, Option.some.injEq, Prod.mk.injEq] at hl
    obtain ⟨rfl, rfl⟩ := hl
    cases hseen
  · simp only [Function.update_self, Option.some.injEq, Prod.mk.injEq] at hl
    obtain ⟨rfl, rfl⟩ := hl
    cases hx

theorem sequential_event {s : State Unit} {v : Pool.Locals Unit Operation View}
    (h : Sequential K s v) {p : Unit} {o : Operation} {l : View} (hp : v p = some (o, l))
    {e : Event} {answer : e.Answer} (hans : Answers s e answer)
    (hread : AtReading K s p e answer) :
    Sequential K (s.after crates config p e answer)
      (Function.update v p (some (o, l.after crates config e answer))) := by
  refine ⟨kept_event h.kept hp e answer, fun o' l' stored hl => ?_, fun o' l' x now hl => ?_⟩
  · simp only [Function.update_self, Option.some.injEq, Prod.mk.injEq] at hl
    obtain ⟨rfl, rfl⟩ := hl
    exact after_seen hans (fun stored => h.seen o l stored hp) stored
  · simp only [Function.update_self, Option.some.injEq, Prod.mk.injEq] at hl
    obtain ⟨rfl, rfl⟩ := hl
    exact after_reading (h.kept p o l hp).2.1 hread (fun x now => h.reading o l x now hp) x now

theorem sequential_finish {s : State Unit} {v : Pool.Locals Unit Operation View}
    (h : Sequential K s v) {p : Unit} {o : Operation} {result : AccountResult Unit} :
    Sequential K (s.finish p o result) (Function.update v p none) := by
  refine ⟨kept_finish h.kept, fun o' l stored hl => ?_, fun o' l x now hl => ?_⟩ <;>
    simp at hl

end Kaleidoscope.Account
