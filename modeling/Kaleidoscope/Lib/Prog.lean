import Mathlib.Logic.Function.Basic

/-!
# Programs that talk to an environment

A program is a finite tree: it raises an event, the environment answers, the answer picks
the subtree.  It ends with a value or an error (`done`), or it runs out of the turns a loop
was given (`spent`), which stands for a loop that is still going.

A `Protocol` says, over a local state that the program's own events drive, which event may
be raised next.  `Follows P Q p l` is the weakest precondition of `p` under `P`: every event
is allowed where it is raised, whatever the environment answers, and every result satisfies `Q`.

    follows_bind, follows_ask, follows_attempt, follows_ensuring   one rule for each combinator
    follows_of_only     a program that raises only harmless events keeps what they keep

`run` answers a program from an environment that answers by itself; `Yields env Q p s` says that
the run ends and its result and last state satisfy `Q`.

    yields_bind, yields_ask_bind, yields_attempt, yields_ensuring

`calls` lists the events that such a run raises, each with the state it was raised in;
`Keeps env rely ok Q p s` says that each of them is `ok` there, and that the result satisfies
`Q`, as long as all of them satisfy `rely`.

    keeps_bind, keeps_ask_bind, keeps_of_only
    keeps_calls         the events of a run that keeps `ok`
    run_bind_ok, run_bind_error, run_bind_cases, calls_bind_left, calls_bind_right, mem_calls_bind
                        the run of a sequence and those of its parts
    Extends.run_eq      a loop with more turns ends as it did
-/

/-- End with an error where the condition holds. -/
def rejectIf {ε : Type} (c : Prop) [Decidable c] (x : ε) : Except ε Unit :=
  if c then .error x else .ok ()

@[simp] theorem rejectIf_eq_ok {ε : Type} {c : Prop} [Decidable c] {x : ε} {u : Unit} :
    rejectIf c x = .ok u ↔ ¬c := by
  unfold rejectIf
  split
  next h => simp [h]
  next h => simp [h]

@[simp] theorem rejectIf_eq_error {ε : Type} {c : Prop} [Decidable c] {x y : ε} :
    rejectIf c x = .error y ↔ c ∧ x = y := by
  unfold rejectIf
  split
  next h => simp [h]
  next h => simp [h]

theorem except_bind_eq_ok {ε α β : Type} {r : Except ε α} {f : α → Except ε β} {b : β} :
    r >>= f = .ok b ↔ ∃ a, r = .ok a ∧ f a = .ok b := by
  cases r with
  | error x =>
    constructor
    · intro h
      cases h
    · rintro ⟨_, h, _⟩
      cases h
  | ok a =>
    constructor
    · intro h
      exact ⟨a, rfl, h⟩
    · rintro ⟨_, h, hf⟩
      cases h
      exact hf

theorem except_bind_eq_error {ε α β : Type} {r : Except ε α} {f : α → Except ε β} {x : ε} :
    r >>= f = .error x ↔ r = .error x ∨ ∃ a, r = .ok a ∧ f a = .error x := by
  cases r with
  | error y =>
    constructor
    · intro h
      cases h
      exact .inl rfl
    · rintro (h | ⟨_, h, _⟩)
      · cases h
        rfl
      · cases h
  | ok a =>
    constructor
    · intro h
      exact .inr ⟨a, rfl, h⟩
    · rintro (h | ⟨_, h, hf⟩)
      · cases h
      · cases h
        exact hf

/-- A program over events `E`, answered in `A e`, that ends with an error `ε` or a value `α`. -/
inductive Prog (E : Type) (A : E → Type) (ε α : Type) where
  | done (result : Except ε α)
  | spent
  | step (e : E) (k : A e → Prog E A ε α)

namespace Prog

variable {E : Type} {A : E → Type} {ε α β : Type}

/-! ## Combinators -/

/-- Run `p`, then `f` on its value; an error ends the program. -/
def bind : Prog E A ε α → (α → Prog E A ε β) → Prog E A ε β
  | .done (.ok a), f => f a
  | .done (.error x), _ => .done (.error x)
  | .spent, _ => .spent
  | .step e k, f => .step e fun a => bind (k a) f

instance : Monad (Prog E A ε) where
  pure a := .done (.ok a)
  bind := bind

/-- Raise one event and return its answer. -/
def ask (e : E) : Prog E A ε (A e) := .step e fun a => .done (.ok a)

/-- End with an error. -/
def fail (x : ε) : Prog E A ε α := .done (.error x)

/-- A computation without events. -/
def ofExcept (r : Except ε α) : Prog E A ε α := .done r

/-- End with an error where the condition holds. -/
def failIf (c : Prop) [Decidable c] (x : ε) : Prog E A ε Unit := ofExcept (rejectIf c x)

/-- Run `p` where the condition holds. -/
def runIf (c : Prop) [Decidable c] (p : Prog E A ε Unit) : Prog E A ε Unit :=
  if c then p else .done (.ok ())

/-- Run `p` and return its result, error or value, as a value. -/
def attempt {φ : Type} : Prog E A ε α → Prog E A φ (Except ε α)
  | .done r => .done (.ok r)
  | .spent => .spent
  | .step e k => .step e fun a => attempt (k a)

/-- Run `p`, then `cleanup` whether `p` failed or not; the result is that of `p`. -/
def ensuring (p : Prog E A ε α) (cleanup : Prog E A ε β) : Prog E A ε α := do
  let r ← attempt p
  let _ ← (attempt cleanup : Prog E A ε (Except ε β))
  ofExcept r

@[simp] theorem pure_eq (a : α) : (pure a : Prog E A ε α) = .done (.ok a) := rfl

@[simp] theorem bind_eq (p : Prog E A ε α) (f : α → Prog E A ε β) : p >>= f = p.bind f := rfl

@[simp] theorem bind_ok (a : α) (f : α → Prog E A ε β) :
    (Prog.done (.ok a) : Prog E A ε α).bind f = f a := rfl

@[simp] theorem bind_error (x : ε) (f : α → Prog E A ε β) :
    (Prog.done (.error x) : Prog E A ε α).bind f = .done (.error x) := rfl

@[simp] theorem bind_spent (f : α → Prog E A ε β) :
    (Prog.spent : Prog E A ε α).bind f = .spent := rfl

@[simp] theorem bind_step (e : E) (k : A e → Prog E A ε α) (f : α → Prog E A ε β) :
    (Prog.step e k).bind f = .step e fun a => (k a).bind f := rfl

theorem bind_assoc {γ : Type} (p : Prog E A ε α) (f : α → Prog E A ε β)
    (g : β → Prog E A ε γ) : p >>= f >>= g = p >>= fun a => f a >>= g := by
  induction p with
  | done r =>
    cases r with
    | ok a => rfl
    | error x => rfl
  | spent => rfl
  | step e k ih => exact congrArg (Prog.step e) (funext ih)

/-! ## Protocols -/

/-- Which events may be raised in which local state, and how an answered event moves it. -/
structure Protocol (E : Type) (A : E → Type) (L : Type) where
  may : L → E → Prop
  next : L → (e : E) → A e → L

variable {L : Type} {P : Protocol E A L}

/-- Every event of the program is allowed by `P` where it is raised, and every result
satisfies `Q`. -/
def Follows (P : Protocol E A L) (Q : Except ε α → L → Prop) : Prog E A ε α → L → Prop
  | .done r, l => Q r l
  | .spent, _ => True
  | .step e k, l => P.may l e ∧ ∀ a, Follows P Q (k a) (P.next l e a)

@[simp] theorem follows_done {Q : Except ε α → L → Prop} {r : Except ε α} {l : L} :
    Follows P Q (.done r) l ↔ Q r l := Iff.rfl

@[simp] theorem follows_fail {Q : Except ε α → L → Prop} {x : ε} {l : L} :
    Follows P Q (fail x) l ↔ Q (.error x) l := Iff.rfl

@[simp] theorem follows_ofExcept {Q : Except ε α → L → Prop} {r : Except ε α} {l : L} :
    Follows P Q (ofExcept r) l ↔ Q r l := Iff.rfl

@[simp] theorem follows_spent {Q : Except ε α → L → Prop} {l : L} :
    Follows P Q (.spent : Prog E A ε α) l ↔ True := Iff.rfl

@[simp] theorem follows_step {Q : Except ε α → L → Prop} {e : E} {k : A e → Prog E A ε α}
    {l : L} : Follows P Q (.step e k) l ↔ P.may l e ∧ ∀ a, Follows P Q (k a) (P.next l e a) :=
  Iff.rfl

@[simp] theorem follows_ask {e : E} {Q : Except ε (A e) → L → Prop} {l : L} :
    Follows P Q (ask e) l ↔ P.may l e ∧ ∀ a, Q (.ok a) (P.next l e a) := Iff.rfl

theorem follows_mono {Q Q' : Except ε α → L → Prop} (hQ : ∀ r l, Q r l → Q' r l)
    (p : Prog E A ε α) (l : L) (h : Follows P Q p l) : Follows P Q' p l := by
  induction p generalizing l with
  | done r => exact hQ r l h
  | spent => trivial
  | step e k ih => exact ⟨h.1, fun a => ih a _ (h.2 a)⟩

/-- The rule for sequencing: `R` is what the first program establishes. -/
theorem follows_bind {R : Except ε α → L → Prop} {Q : Except ε β → L → Prop}
    {p : Prog E A ε α} {f : α → Prog E A ε β} {l : L} (hp : Follows P R p l)
    (hok : ∀ a l', R (.ok a) l' → Follows P Q (f a) l')
    (herr : ∀ x l', R (.error x) l' → Q (.error x) l') : Follows P Q (p >>= f) l := by
  induction p generalizing l with
  | done r =>
    cases r with
    | ok a => exact hok a l hp
    | error x => exact herr x l hp
  | spent => trivial
  | step e k ih => exact ⟨hp.1, fun a => ih a (hp.2 a)⟩

theorem follows_ask_bind {Q : Except ε β → L → Prop} {e : E} {f : A e → Prog E A ε β} {l : L} :
    Follows P Q (ask e >>= f) l ↔ P.may l e ∧ ∀ a, Follows P Q (f a) (P.next l e a) := Iff.rfl

theorem follows_ofExcept_bind {Q : Except ε β → L → Prop} {r : Except ε α}
    {f : α → Prog E A ε β} {l : L} (hok : ∀ a, r = .ok a → Follows P Q (f a) l)
    (herr : ∀ x, r = .error x → Q (.error x) l) : Follows P Q (ofExcept r >>= f) l := by
  cases r with
  | ok a => exact hok a rfl
  | error x => exact herr x rfl

theorem follows_failIf_bind {Q : Except ε β → L → Prop} {c : Prop} [Decidable c] {x : ε}
    {f : Unit → Prog E A ε β} {l : L} (hok : ¬c → Follows P Q (f ()) l)
    (herr : c → Q (.error x) l) : Follows P Q (failIf c x >>= f) l := by
  refine follows_ofExcept_bind (fun _ h => hok (rejectIf_eq_ok.mp h)) fun y h => ?_
  obtain ⟨hc, rfl⟩ := rejectIf_eq_error.mp h
  exact herr hc

theorem follows_attempt {φ : Type} {Q : Except φ (Except ε α) → L → Prop}
    {p : Prog E A ε α} {l : L} (h : Follows P (fun r l' => Q (.ok r) l') p l) :
    Follows P Q (attempt p) l := by
  induction p generalizing l with
  | done r => exact h
  | spent => trivial
  | step e k ih => exact ⟨h.1, fun a => ih a (h.2 a)⟩

theorem follows_ensuring {R Q : Except ε α → L → Prop} {p : Prog E A ε α}
    {cleanup : Prog E A ε β} {l : L} (hp : Follows P R p l)
    (hc : ∀ r l', R r l' → Follows P (fun _ l'' => Q r l'') cleanup l') :
    Follows P Q (ensuring p cleanup) l := by
  refine follows_bind (R := fun r l' => ∃ r', r = .ok r' ∧ R r' l') ?_ ?_ ?_
  · exact follows_attempt (follows_mono (fun r _ h => ⟨r, rfl, h⟩) p l hp)
  · rintro r l' ⟨r', hr, hR⟩
    cases hr
    refine follows_bind (R := fun x l'' => (∃ y, x = .ok y) ∧ Q r l'') ?_ ?_ ?_
    · exact follows_attempt
        (follows_mono (fun y _ h => ⟨⟨y, rfl⟩, h⟩) cleanup l' (hc r l' hR))
    · exact fun _ _ h => h.2
    · rintro x _ ⟨⟨y, hy⟩, _⟩
      cases hy
  · rintro x _ ⟨r', hr, _⟩
    cases hr

/-! ## Programs that raise only some events -/

/-- The program ends, and every event that it can raise satisfies `q`. -/
def Only (q : E → Prop) : Prog E A ε α → Prop
  | .done _ => True
  | .spent => False
  | .step e k => q e ∧ ∀ a, Only q (k a)

variable {q : E → Prop}

@[simp] theorem only_done {r : Except ε α} : Only q (.done r : Prog E A ε α) ↔ True := Iff.rfl

@[simp] theorem only_fail {x : ε} : Only q (fail x : Prog E A ε α) ↔ True := Iff.rfl

@[simp] theorem only_ofExcept {r : Except ε α} : Only q (ofExcept r : Prog E A ε α) ↔ True :=
  Iff.rfl

@[simp] theorem only_ask {e : E} : Only q (ask e : Prog E A ε (A e)) ↔ q e :=
  ⟨fun h => h.1, fun h => ⟨h, fun _ => trivial⟩⟩

theorem only_bind {p : Prog E A ε α} {f : α → Prog E A ε β} (hp : Only q p)
    (hf : ∀ a, Only q (f a)) : Only q (p >>= f) := by
  induction p with
  | done r =>
    cases r with
    | ok a => exact hf a
    | error x => trivial
  | spent => exact hp
  | step e k ih => exact ⟨hp.1, fun a => ih a (hp.2 a)⟩

theorem only_ofExcept_bind {r : Except ε α} {f : α → Prog E A ε β}
    (hf : ∀ a, r = .ok a → Only q (f a)) : Only q (ofExcept r >>= f) := by
  cases r with
  | ok a => exact hf a rfl
  | error x => trivial

theorem only_failIf_bind {c : Prop} [Decidable c] {x : ε} {f : Unit → Prog E A ε β}
    (hf : Only q (f ())) : Only q (failIf c x >>= f) :=
  only_ofExcept_bind fun _ _ => hf

theorem only_attempt {φ : Type} {p : Prog E A ε α} (hp : Only q p) :
    Only q (attempt p : Prog E A φ (Except ε α)) := by
  induction p with
  | done r => trivial
  | spent => exact hp
  | step e k ih => exact ⟨hp.1, fun a => ih a (hp.2 a)⟩

theorem only_ensuring {p : Prog E A ε α} {cleanup : Prog E A ε β} (hp : Only q p)
    (hc : Only q cleanup) : Only q (ensuring p cleanup) :=
  only_bind (only_attempt hp) fun _ => only_bind (only_attempt hc) fun _ => trivial

theorem only_mono {q' : E → Prop} (hq : ∀ e, q e → q' e) {p : Prog E A ε α} (hp : Only q p) :
    Only q' p := by
  induction p with
  | done r => trivial
  | spent => exact hp
  | step e k ih => exact ⟨hq e hp.1, fun a => ih a (hp.2 a)⟩

theorem only_runIf {c : Prop} [Decidable c] {p : Prog E A ε Unit} (hp : Only q p) :
    Only q (runIf c p) := by
  unfold runIf
  split
  · exact hp
  · trivial

theorem only_ite {c : Prop} [Decidable c] {p p' : Prog E A ε α} (hp : Only q p)
    (hp' : Only q p') : Only q (if c then p else p') := by
  split
  · exact hp
  · exact hp'

/-- The frame rule: where each event of `q` is allowed and moves the local state along `F`,
so does a program that raises only such events. -/
theorem follows_of_only {F : L → L → Prop} (hrefl : ∀ l, F l l)
    (htrans : ∀ a b c, F a b → F b c → F a c)
    (hstep : ∀ l e, q e → P.may l e ∧ ∀ a, F l (P.next l e a))
    {Q : Except ε α → L → Prop} {p : Prog E A ε α} (hp : Only q p) {l : L}
    (hQ : ∀ r l', F l l' → Q r l') : Follows P Q p l := by
  induction p generalizing l with
  | done r => exact hQ r l (hrefl l)
  | spent => trivial
  | step e k ih =>
    obtain ⟨hmay, hnext⟩ := hstep l e hp.1
    refine ⟨hmay, fun a => ih a (hp.2 a) fun r l' h => ?_⟩
    exact hQ r l' (htrans _ _ _ (hnext a) h)

/-! ## Runs in an environment that answers by itself -/

variable {σ : Type} {env : σ → (e : E) → A e × σ}

/-- The result and the last state; `none` where the program does not end. -/
def run (env : σ → (e : E) → A e × σ) : Prog E A ε α → σ → Option (Except ε α × σ)
  | .done r, s => some (r, s)
  | .spent, _ => none
  | .step e k, s => run env (k (env s e).1) (env s e).2

/-- The run ends, and its result and last state satisfy `Q`. -/
def Yields (env : σ → (e : E) → A e × σ) (Q : Except ε α → σ → Prop) (p : Prog E A ε α) (s : σ) :
    Prop :=
  ∃ r s', run env p s = some (r, s') ∧ Q r s'

@[simp] theorem yields_done {Q : Except ε α → σ → Prop} {r : Except ε α} {s : σ} :
    Yields env Q (.done r) s ↔ Q r s := by
  constructor
  · rintro ⟨r', s', hrun, hq⟩
    cases hrun
    exact hq
  · intro h
    exact ⟨r, s, rfl, h⟩

@[simp] theorem yields_fail {Q : Except ε α → σ → Prop} {x : ε} {s : σ} :
    Yields env Q (fail x) s ↔ Q (.error x) s :=
  yields_done

@[simp] theorem yields_ofExcept {Q : Except ε α → σ → Prop} {r : Except ε α} {s : σ} :
    Yields env Q (ofExcept r) s ↔ Q r s :=
  yields_done

@[simp] theorem yields_step {Q : Except ε α → σ → Prop} {e : E} {k : A e → Prog E A ε α} {s : σ} :
    Yields env Q (.step e k) s ↔ Yields env Q (k (env s e).1) (env s e).2 := Iff.rfl

@[simp] theorem yields_ask {e : E} {Q : Except ε (A e) → σ → Prop} {s : σ} :
    Yields env Q (ask e) s ↔ Q (.ok (env s e).1) (env s e).2 := by
  simp [ask]

theorem yields_mono {Q Q' : Except ε α → σ → Prop} {p : Prog E A ε α} {s : σ}
    (h : Yields env Q p s) (hQ : ∀ r s', Q r s' → Q' r s') : Yields env Q' p s := by
  obtain ⟨r, s', hrun, hq⟩ := h
  exact ⟨r, s', hrun, hQ r s' hq⟩

/-- The rule for sequencing: `R` is what the first program establishes. -/
theorem yields_bind {R : Except ε α → σ → Prop} {Q : Except ε β → σ → Prop}
    {p : Prog E A ε α} {f : α → Prog E A ε β} {s : σ} (hp : Yields env R p s)
    (hok : ∀ a s', R (.ok a) s' → Yields env Q (f a) s')
    (herr : ∀ x s', R (.error x) s' → Q (.error x) s') : Yields env Q (p >>= f) s := by
  induction p generalizing s with
  | done r =>
    cases r with
    | ok a => exact hok a s (yields_done.mp hp)
    | error x => exact yields_done.mpr (herr x s (yields_done.mp hp))
  | spent =>
    obtain ⟨r, s', hrun, _⟩ := hp
    cases hrun
  | step e k ih => exact ih _ hp

theorem yields_ask_bind {Q : Except ε β → σ → Prop} {e : E} {f : A e → Prog E A ε β} {s : σ} :
    Yields env Q (ask e >>= f) s ↔ Yields env Q (f (env s e).1) (env s e).2 := Iff.rfl

theorem yields_ofExcept_bind {Q : Except ε β → σ → Prop} {r : Except ε α}
    {f : α → Prog E A ε β} {s : σ} (hok : ∀ a, r = .ok a → Yields env Q (f a) s)
    (herr : ∀ x, r = .error x → Q (.error x) s) : Yields env Q (ofExcept r >>= f) s := by
  cases r with
  | ok a => exact hok a rfl
  | error x => exact yields_done.mpr (herr x rfl)

theorem yields_failIf_bind {Q : Except ε β → σ → Prop} {c : Prop} [Decidable c] {x : ε}
    {f : Unit → Prog E A ε β} {s : σ} (hok : ¬c → Yields env Q (f ()) s)
    (herr : c → Q (.error x) s) : Yields env Q (failIf c x >>= f) s := by
  refine yields_ofExcept_bind (fun _ h => hok (rejectIf_eq_ok.mp h)) fun y h => ?_
  obtain ⟨hc, rfl⟩ := rejectIf_eq_error.mp h
  exact herr hc

theorem yields_attempt {φ : Type} {Q : Except φ (Except ε α) → σ → Prop} {p : Prog E A ε α}
    {s : σ} (h : Yields env (fun r s' => Q (.ok r) s') p s) : Yields env Q (attempt p) s := by
  induction p generalizing s with
  | done r =>
    have hq := (yields_done (Q := fun r s' => Q (.ok r) s')).mp h
    exact yields_done.mpr hq
  | spent =>
    obtain ⟨r, s', hrun, _⟩ := h
    cases hrun
  | step e k ih => exact ih _ h

theorem yields_attempt_bind {Q : Except ε β → σ → Prop} {p : Prog E A ε α}
    {f : Except ε α → Prog E A ε β} {s : σ}
    (h : Yields env (fun r s' => Yields env Q (f r) s') p s) :
    Yields env Q (attempt p >>= f) s := by
  refine yields_bind (R := fun r s' => ∃ a, r = .ok a ∧ Yields env Q (f a) s')
    (yields_attempt (yields_mono h fun r s' hq => ⟨r, rfl, hq⟩)) ?_ ?_
  · rintro a s' ⟨_, ha, hq⟩
    cases ha
    exact hq
  · rintro x s' ⟨_, ha, _⟩
    cases ha

theorem yields_ensuring {Q : Except ε α → σ → Prop} {p : Prog E A ε α} {cleanup : Prog E A ε β}
    {s : σ} (hp : Yields env (fun r s' => Yields env (fun _ s'' => Q r s'') cleanup s') p s) :
    Yields env Q (ensuring p cleanup) s := by
  refine yields_attempt_bind (yields_mono hp fun r s' h => ?_)
  exact yields_attempt_bind (yields_mono h fun _ s'' hq => yields_done.mpr hq)

/-- The frame rule of runs: where each event of `q` moves the state along `F`, so does a program
that raises only such events. -/
theorem yields_of_only {F : σ → σ → Prop} (hrefl : ∀ s, F s s)
    (htrans : ∀ a b c, F a b → F b c → F a c) (hstep : ∀ s e, q e → F s (env s e).2)
    {p : Prog E A ε α} (hp : Only q p) (s : σ) : Yields env (fun _ s' => F s s') p s := by
  induction p generalizing s with
  | done r => exact yields_done.mpr (hrefl s)
  | spent => exact hp.elim
  | step e k ih =>
    exact yields_mono (ih _ (hp.2 _) (env s e).2) fun _ s' h => htrans _ _ _ (hstep s e hp.1) h

/-! ## The events of a run -/

/-- The events that a run raises, in order, each with the state in which it is raised. -/
def calls (env : σ → (e : E) → A e × σ) : Prog E A ε α → σ → List (σ × E)
  | .done _, _ => []
  | .spent, _ => []
  | .step e k, s => (s, e) :: calls env (k (env s e).1) (env s e).2

variable {rely ok : σ → E → Prop}

/-- As long as every event of the run satisfies `rely`, each of them is `ok` in the state it is
raised in, and every result satisfies `Q`. -/
def Keeps (env : σ → (e : E) → A e × σ) (rely ok : σ → E → Prop) (Q : Except ε α → σ → Prop) :
    Prog E A ε α → σ → Prop
  | .done r, s => Q r s
  | .spent, _ => True
  | .step e k, s => rely s e → ok s e ∧ Keeps env rely ok Q (k (env s e).1) (env s e).2

@[simp] theorem keeps_done {Q : Except ε α → σ → Prop} {r : Except ε α} {s : σ} :
    Keeps env rely ok Q (.done r) s ↔ Q r s := Iff.rfl

@[simp] theorem keeps_fail {Q : Except ε α → σ → Prop} {x : ε} {s : σ} :
    Keeps env rely ok Q (fail x) s ↔ Q (.error x) s := Iff.rfl

@[simp] theorem keeps_ofExcept {Q : Except ε α → σ → Prop} {r : Except ε α} {s : σ} :
    Keeps env rely ok Q (ofExcept r) s ↔ Q r s := Iff.rfl

theorem keeps_mono {Q Q' : Except ε α → σ → Prop} {p : Prog E A ε α} {s : σ}
    (h : Keeps env rely ok Q p s) (hQ : ∀ r s', Q r s' → Q' r s') :
    Keeps env rely ok Q' p s := by
  induction p generalizing s with
  | done r => exact hQ r s h
  | spent => trivial
  | step e k ih => exact fun hrely => ⟨(h hrely).1, ih _ (h hrely).2⟩

/-- The rule for sequencing: `R` is what the first program establishes. -/
theorem keeps_bind {R : Except ε α → σ → Prop} {Q : Except ε β → σ → Prop} {p : Prog E A ε α}
    {f : α → Prog E A ε β} {s : σ} (hp : Keeps env rely ok R p s)
    (hok : ∀ a s', R (.ok a) s' → Keeps env rely ok Q (f a) s')
    (herr : ∀ x s', R (.error x) s' → Q (.error x) s') : Keeps env rely ok Q (p >>= f) s := by
  induction p generalizing s with
  | done r =>
    cases r with
    | ok a => exact hok a s hp
    | error x => exact herr x s hp
  | spent => trivial
  | step e k ih => exact fun hrely => ⟨(hp hrely).1, ih _ (hp hrely).2⟩

theorem keeps_ask_bind {Q : Except ε β → σ → Prop} {e : E} {f : A e → Prog E A ε β} {s : σ} :
    Keeps env rely ok Q (ask e >>= f) s
      ↔ (rely s e → ok s e ∧ Keeps env rely ok Q (f (env s e).1) (env s e).2) := Iff.rfl

theorem keeps_ofExcept_bind {Q : Except ε β → σ → Prop} {r : Except ε α}
    {f : α → Prog E A ε β} {s : σ} (hok : ∀ a, r = .ok a → Keeps env rely ok Q (f a) s)
    (herr : ∀ x, r = .error x → Q (.error x) s) : Keeps env rely ok Q (ofExcept r >>= f) s := by
  cases r with
  | ok a => exact hok a rfl
  | error x => exact herr x rfl

theorem keeps_failIf_bind {Q : Except ε β → σ → Prop} {c : Prop} [Decidable c] {x : ε}
    {f : Unit → Prog E A ε β} {s : σ} (hok : ¬c → Keeps env rely ok Q (f ()) s)
    (herr : c → Q (.error x) s) : Keeps env rely ok Q (failIf c x >>= f) s := by
  refine keeps_ofExcept_bind (fun _ h => hok (rejectIf_eq_ok.mp h)) fun y h => ?_
  obtain ⟨hc, rfl⟩ := rejectIf_eq_error.mp h
  exact herr hc

theorem keeps_attempt_bind {Q : Except ε β → σ → Prop} {p : Prog E A ε α}
    {f : Except ε α → Prog E A ε β} {s : σ}
    (h : Keeps env rely ok (fun r s' => Keeps env rely ok Q (f r) s') p s) :
    Keeps env rely ok Q (attempt p >>= f) s := by
  induction p generalizing s with
  | done r => exact h
  | spent => trivial
  | step e k ih => exact fun hrely => ⟨(h hrely).1, ih _ (h hrely).2⟩

theorem keeps_ensuring {Q : Except ε α → σ → Prop} {p : Prog E A ε α} {cleanup : Prog E A ε β}
    {s : σ}
    (hp : Keeps env rely ok (fun r s' => Keeps env rely ok (fun _ s'' => Q r s'') cleanup s') p s) :
    Keeps env rely ok Q (ensuring p cleanup) s := by
  refine keeps_attempt_bind (keeps_mono hp fun r s' h => ?_)
  exact keeps_attempt_bind (keeps_mono h fun _ s'' hq => hq)

/-- The invariant rule: where each event of `q` is `ok` and preserves `I`, a program that raises
only such events keeps `ok` and `I`. -/
theorem keeps_of_only {I : σ → Prop}
    (hstep : ∀ s e, q e → I s → rely s e → ok s e ∧ I (env s e).2)
    {p : Prog E A ε α} (hp : Only q p) {s : σ} (hI : I s) :
    Keeps env rely ok (fun _ s' => I s') p s := by
  induction p generalizing s with
  | done r => exact hI
  | spent => trivial
  | step e k ih =>
    intro hrely
    obtain ⟨hok, hnext⟩ := hstep s e hp.1 hI hrely
    exact ⟨hok, ih _ (hp.2 _) hnext⟩

/-- Every event of a run that keeps `ok` is `ok` where it is raised. -/
theorem keeps_calls {Q : Except ε α → σ → Prop} {p : Prog E A ε α} {s : σ}
    (h : Keeps env rely ok Q p s) (hrely : ∀ call ∈ calls env p s, rely call.1 call.2) :
    ∀ call ∈ calls env p s, ok call.1 call.2 := by
  induction p generalizing s with
  | done r =>
    intro call hcall
    cases hcall
  | spent =>
    intro call hcall
    cases hcall
  | step e k ih =>
    obtain ⟨hok, hrest⟩ := h (hrely (s, e) (List.mem_cons.mpr (.inl rfl)))
    intro call hcall
    rcases List.mem_cons.mp hcall with rfl | hcall
    · exact hok
    · exact ih _ hrest (fun call hc => hrely call (List.mem_cons.mpr (.inr hc))) call hcall

/-- The result of a run that keeps `ok` satisfies `Q`. -/
theorem keeps_run {Q : Except ε α → σ → Prop} {p : Prog E A ε α} {s s' : σ} {r : Except ε α}
    (h : Keeps env rely ok Q p s) (hrely : ∀ call ∈ calls env p s, rely call.1 call.2)
    (hrun : run env p s = some (r, s')) : Q r s' := by
  induction p generalizing s with
  | done r =>
    cases hrun
    exact h
  | spent => cases hrun
  | step e k ih =>
    obtain ⟨_, hrest⟩ := h (hrely (s, e) (List.mem_cons.mpr (.inl rfl)))
    exact ih _ hrest (fun call hc => hrely call (List.mem_cons.mpr (.inr hc))) hrun

/-! ## Runs of a sequence -/

theorem run_bind_ok {p : Prog E A ε α} {f : α → Prog E A ε β} {s s' : σ} {a : α}
    (h : run env p s = some (.ok a, s')) : run env (p >>= f) s = run env (f a) s' := by
  induction p generalizing s with
  | done r =>
    cases h
    rfl
  | spent => cases h
  | step e k ih => exact ih _ h

theorem run_bind_error {p : Prog E A ε α} {f : α → Prog E A ε β} {s s' : σ} {x : ε}
    (h : run env p s = some (.error x, s')) : run env (p >>= f) s = some (.error x, s') := by
  induction p generalizing s with
  | done r =>
    cases h
    rfl
  | spent => cases h
  | step e k ih => exact ih _ h

theorem run_attempt {φ : Type} {p : Prog E A ε α} {s s' : σ} {r : Except ε α}
    (h : run env p s = some (r, s')) :
    run env (attempt p : Prog E A φ (Except ε α)) s = some (.ok r, s') := by
  induction p generalizing s with
  | done r =>
    cases h
    rfl
  | spent => cases h
  | step e k ih => exact ih _ h

/-- The cleanup runs, and the result is that of the program. -/
theorem run_ensuring {p : Prog E A ε α} {cleanup : Prog E A ε β} {s s' s'' : σ}
    {r : Except ε α} {r' : Except ε β} (h : run env p s = some (r, s'))
    (h' : run env cleanup s' = some (r', s'')) :
    run env (ensuring p cleanup) s = some (r, s'') := by
  unfold ensuring
  rw [run_bind_ok (run_attempt h), run_bind_ok (run_attempt h')]
  rfl

/-- A program that raises only events of `q` has a run, and its events are of `q`. -/
theorem run_of_only {p : Prog E A ε α} (hp : Only q p) (s : σ) :
    (∃ r s', run env p s = some (r, s')) ∧ ∀ call ∈ calls env p s, q call.2 := by
  induction p generalizing s with
  | done r => exact ⟨⟨r, s, rfl⟩, fun _ h => nomatch h⟩
  | spent => exact hp.elim
  | step e k ih =>
    obtain ⟨hrun, hcalls⟩ := ih _ (hp.2 (env s e).1) (env s e).2
    refine ⟨hrun, fun call hcall => ?_⟩
    rcases List.mem_cons.mp hcall with rfl | hcall
    · exact hp.1
    · exact hcalls call hcall

/-- The events of a sequence are those of its parts. -/
theorem mem_calls_bind {p : Prog E A ε α} {f : α → Prog E A ε β} {s : σ} {call : σ × E}
    (h : call ∈ calls env (p >>= f) s) : call ∈ calls env p s
      ∨ ∃ a s', run env p s = some (.ok a, s') ∧ call ∈ calls env (f a) s' := by
  induction p generalizing s with
  | done r =>
    cases r with
    | ok a => exact .inr ⟨a, s, rfl, h⟩
    | error x => cases h
  | spent => cases h
  | step e k ih =>
    rcases List.mem_cons.mp h with rfl | h
    · exact .inl (List.mem_cons.mpr (.inl rfl))
    · rcases ih _ h with h | h
      · exact .inl (List.mem_cons.mpr (.inr h))
      · exact .inr h

theorem calls_attempt {φ : Type} {p : Prog E A ε α} {s : σ} :
    calls env (attempt p : Prog E A φ (Except ε α)) s = calls env p s := by
  induction p generalizing s with
  | done r => rfl
  | spent => rfl
  | step e k ih => exact congrArg _ (ih _)

theorem mem_calls_ensuring {p : Prog E A ε α} {cleanup : Prog E A ε β} {s : σ} {call : σ × E}
    (h : call ∈ calls env (ensuring p cleanup) s) : call ∈ calls env p s
      ∨ ∃ s', call ∈ calls env cleanup s' := by
  rcases mem_calls_bind h with h | ⟨r, s', _, h⟩
  · rw [calls_attempt] at h
    exact .inl h
  · rcases mem_calls_bind h with h | ⟨_, _, _, h⟩
    · rw [calls_attempt] at h
      exact .inr ⟨s', h⟩
    · cases h

/-- The run of a sequence ends where its first part fails, or where the second ends. -/
theorem run_bind_cases {p : Prog E A ε α} {f : α → Prog E A ε β} {s s' : σ} {r : Except ε β}
    (h : run env (p >>= f) s = some (r, s')) :
    (∃ x, run env p s = some (.error x, s') ∧ r = .error x)
      ∨ ∃ a s₁, run env p s = some (.ok a, s₁) ∧ run env (f a) s₁ = some (r, s') := by
  induction p generalizing s with
  | done result =>
    cases result with
    | ok a => exact .inr ⟨a, s, rfl, h⟩
    | error x =>
      cases h
      exact .inl ⟨x, rfl, rfl⟩
  | spent => cases h
  | step e k ih => exact ih _ h

/-- The run of an attempt has the result of the program as its value. -/
theorem run_attempt_cases {φ : Type} {p : Prog E A ε α} {s s' : σ} {r : Except φ (Except ε α)}
    (h : run env (attempt p) s = some (r, s')) :
    ∃ result, r = .ok result ∧ run env p s = some (result, s') := by
  induction p generalizing s with
  | done result =>
    cases h
    exact ⟨result, rfl, rfl⟩
  | spent => cases h
  | step e k ih => exact ih _ h

/-- The events of the first part of a sequence. -/
theorem calls_bind_left {p : Prog E A ε α} {f : α → Prog E A ε β} {s : σ} {call : σ × E}
    (h : call ∈ calls env p s) : call ∈ calls env (p >>= f) s := by
  induction p generalizing s with
  | done result => cases h
  | spent => cases h
  | step e k ih =>
    rcases List.mem_cons.mp h with rfl | h
    · exact List.mem_cons.mpr (.inl rfl)
    · exact List.mem_cons.mpr (.inr (ih _ h))

/-- The events of the second part of a sequence. -/
theorem calls_bind_right {p : Prog E A ε α} {f : α → Prog E A ε β} {s s₁ : σ} {a : α}
    {call : σ × E} (hrun : run env p s = some (.ok a, s₁)) (h : call ∈ calls env (f a) s₁) :
    call ∈ calls env (p >>= f) s := by
  induction p generalizing s with
  | done result =>
    cases hrun
    exact h
  | spent => cases hrun
  | step e k ih => exact List.mem_cons.mpr (.inr (ih _ hrun))

theorem calls_bind_ok {p : Prog E A ε α} {f : α → Prog E A ε β} {s s₁ : σ} {a : α}
    (hrun : run env p s = some (.ok a, s₁)) :
    calls env (p >>= f) s = calls env p s ++ calls env (f a) s₁ := by
  induction p generalizing s with
  | done result =>
    cases hrun
    rfl
  | spent => cases hrun
  | step e k ih => exact congrArg _ (ih _ hrun)

/-! ## Returned values -/

/-- Every value that the program can return satisfies `V`. -/
def Returns (V : α → Prop) : Prog E A ε α → Prop
  | .done (.ok a) => V a
  | .done (.error _) => True
  | .spent => True
  | .step _ k => ∀ a, Returns V (k a)

theorem returns_bind {V : β → Prop} {p : Prog E A ε α} {f : α → Prog E A ε β}
    (hf : ∀ a, Returns V (f a)) : Returns V (p >>= f) := by
  induction p with
  | done r =>
    cases r with
    | ok a => exact hf a
    | error x => trivial
  | spent => trivial
  | step e k ih => exact ih

theorem returns_run {V : α → Prop} {p : Prog E A ε α} {s s' : σ} {a : α} (h : Returns V p)
    (hrun : run env p s = some (.ok a, s')) : V a := by
  induction p generalizing s with
  | done r =>
    cases hrun
    exact h
  | spent => cases hrun
  | step e k ih => exact ih _ (h _) hrun

/-! ## More turns -/

/-- A program in which some loops may go on where they stop in the other one. -/
inductive Extends : Prog E A ε α → Prog E A ε α → Prop
  | done (r : Except ε α) : Extends (.done r) (.done r)
  | spent (p : Prog E A ε α) : Extends .spent p
  | step (e : E) {k k' : A e → Prog E A ε α} : (∀ a, Extends (k a) (k' a)) →
      Extends (.step e k) (.step e k')

theorem Extends.rfl {p : Prog E A ε α} : Extends p p := by
  induction p with
  | done r => exact .done r
  | spent => exact .spent _
  | step e k ih => exact .step e ih

theorem Extends.trans {p q r : Prog E A ε α} (h : Extends p q) (h' : Extends q r) :
    Extends p r := by
  induction h generalizing r with
  | done _ => exact h'
  | spent _ => exact .spent r
  | step e _ ih =>
    cases h' with
    | step _ h' => exact .step e fun a => ih a (h' a)

theorem Extends.bind {p q : Prog E A ε α} {f g : α → Prog E A ε β} (h : Extends p q)
    (hf : ∀ a, Extends (f a) (g a)) : Extends (p >>= f) (q >>= g) := by
  induction h with
  | done r =>
    cases r with
    | ok a => exact hf a
    | error x => exact .done _
  | spent _ => exact .spent _
  | step e _ ih => exact .step e ih

/-- What has ended ends the same with more turns. -/
theorem Extends.run_eq {p q : Prog E A ε α} (h : Extends p q) {s s' : σ} {r : Except ε α}
    (hrun : run env p s = some (r, s')) : run env q s = some (r, s') := by
  induction h generalizing s with
  | done _ => exact hrun
  | spent _ => cases hrun
  | step e _ ih => exact ih _ hrun

end Prog
