import Mathlib.Tactic.Common

/-!
# Tasks that take time

A task of an event loop as the steps that it takes, each with its duration and with what it does
to the state when it ends.  A task can be watched for a limited time, and the loop that runs it
can be stopped, which it is at the next step that hands control back to the loop.

    within_of_le    a task that is quick enough is seen to its end
    within_of_lt    a task that is not is seen in the middle of a step
-/

namespace Timed

/-- `suspends`: the loop has control while the step lasts. -/
inductive Job (σ α : Type) where
  | done (a : α)
  | step (takes : Nat) (suspends : Bool) (effect : σ → σ) (rest : Job σ α)

namespace Job

variable {σ α β : Type}

def bind : Job σ α → (α → Job σ β) → Job σ β
  | done a, f => f a
  | step takes suspends effect rest, f => step takes suspends effect (rest.bind f)

instance : Monad (Job σ) where
  pure := done
  bind := bind

/-- A change of the state that takes no time. -/
def act (effect : σ → σ) : Job σ Unit := step 0 false effect (done ())

/-! ## A task on its own -/

def time : Job σ α → Nat
  | done _ => 0
  | step takes _ _ rest => takes + rest.time

def result : Job σ α → α
  | done a => a
  | step _ _ _ rest => rest.result

def final : Job σ α → σ → σ
  | done _, s => s
  | step _ _ effect rest, s => rest.final (effect s)

theorem time_bind (t : Job σ α) (f : α → Job σ β) :
    (t.bind f).time = t.time + (f t.result).time := by
  induction t with
  | done a => rw [bind, time, result, Nat.zero_add]
  | step takes suspends effect rest ih => rw [bind, time, time, result, ih, Nat.add_assoc]

theorem result_bind (t : Job σ α) (f : α → Job σ β) :
    (t.bind f).result = (f t.result).result := by
  induction t with
  | done a => rfl
  | step takes suspends effect rest ih => rw [bind, result, result, ih]

theorem final_bind (t : Job σ α) (f : α → Job σ β) (s : σ) :
    (t.bind f).final s = (f t.result).final (t.final s) := by
  induction t generalizing s with
  | done a => rfl
  | step takes suspends effect rest ih => rw [bind, final, final, result, ih]

/-! ## A task that is watched -/

/-- What is left of a task after some time, and the state then. -/
def within : Nat → Job σ α → σ → Job σ α × σ
  | _, done a, s => (done a, s)
  | budget, step takes suspends effect rest, s =>
    if takes ≤ budget then within (budget - takes) rest (effect s)
    else (step (takes - budget) suspends effect rest, s)

/-- The state when the loop has stopped, if it has in that time: the task goes on until it hands
control back. -/
def drain : Nat → Job σ α → σ → Option σ
  | _, done _, s => some s
  | _, step _ true _ _, s => some s
  | budget, step takes false effect rest, s =>
    if takes ≤ budget then drain (budget - takes) rest (effect s) else none

theorem within_of_le (t : Job σ α) :
    ∀ {budget : Nat} (s : σ), t.time ≤ budget → t.within budget s = (done t.result, t.final s) := by
  induction t with
  | done a => intro budget s _; rfl
  | step takes suspends effect rest ih =>
    intro budget s h
    rw [time] at h
    rw [within, if_pos (by omega), ih (effect s) (by omega)]
    rfl

theorem within_of_lt (t : Job σ α) :
    ∀ {budget : Nat} (s : σ), budget < t.time →
      ∃ takes suspends effect rest s',
        t.within budget s = (step takes suspends effect rest, s') := by
  induction t with
  | done a => intro budget s h; exact absurd h (Nat.not_lt_zero budget)
  | step takes suspends effect rest ih =>
    intro budget s h
    rw [time] at h
    by_cases hle : takes ≤ budget
    · rw [within, if_pos hle]
      exact ih (effect s) (by omega)
    · rw [within, if_neg hle]
      exact ⟨takes - budget, suspends, effect, rest, s, rfl⟩

end Job

end Timed
