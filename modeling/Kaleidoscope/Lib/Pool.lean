import Kaleidoscope.Lib.Prog

/-!
# Pools of programs over a shared state

Any number of processes, each running one operation, take turns: a process starts an
operation, raises its next event, or finishes.  One process identifier (`Unit`) gives the
operations of one client one after the other; many give every interleaving.

    reachable_invariant      a coupling of the shared state with the local states of the
                             processes' protocol, kept by each move, holds in every reachable state
    drive_reachable          a scripted run is reachable
-/

namespace Pool

variable {E : Type} {A : E → Type} {ε α σ Pid Op L : Type}

/-- How the shared state moves when a process starts an operation, has an event answered,
or finishes with a result. -/
structure World (E : Type) (A : E → Type) (ε α σ Pid Op : Type) where
  start : σ → Pid → Op → σ → Prop
  event : σ → Pid → (e : E) → A e → σ → Prop
  finish : σ → Pid → Op → Except ε α → σ → Prop

/-- What each process is running: its operation and what is left of its program. -/
abbrev Running (E : Type) (A : E → Type) (ε α Pid Op : Type) :=
  Pid → Option (Op × Prog E A ε α)

/-- The states of all runs from `init`. -/
inductive Reachable [DecidableEq Pid] (W : World E A ε α σ Pid Op)
    (program : Op → Prog E A ε α) (init : σ) : σ → Running E A ε α Pid Op → Prop where
  | init : Reachable W program init init fun _ => none
  | start {s : σ} {r : Running E A ε α Pid Op} {s' : σ} (p : Pid) (o : Op)
      (run : Reachable W program init s r) (idle : r p = none) (move : W.start s p o s') :
      Reachable W program init s' (Function.update r p (some (o, program o)))
  | event {s : σ} {r : Running E A ε α Pid Op} {s' : σ} (p : Pid) (o : Op) (e : E)
      (k : A e → Prog E A ε α) (a : A e) (run : Reachable W program init s r)
      (busy : r p = some (o, .step e k)) (move : W.event s p e a s') :
      Reachable W program init s' (Function.update r p (some (o, k a)))
  | finish {s : σ} {r : Running E A ε α Pid Op} {s' : σ} (p : Pid) (o : Op) (x : Except ε α)
      (run : Reachable W program init s r) (busy : r p = some (o, .done x))
      (move : W.finish s p o x s') :
      Reachable W program init s' (Function.update r p none)

/-- The world in which only moves that satisfy a condition are made. -/
def World.restrict (W : World E A ε α σ Pid Op)
    (ok : σ → Pid → (e : E) → A e → σ → Prop) : World E A ε α σ Pid Op :=
  { W with event := fun s p e a s' => W.event s p e a s' ∧ ok s p e a s' }

theorem reachable_of_restrict [DecidableEq Pid] {W : World E A ε α σ Pid Op}
    {ok : σ → Pid → (e : E) → A e → σ → Prop} {program : Op → Prog E A ε α} {init : σ} {s : σ}
    {r : Running E A ε α Pid Op} (run : Reachable (W.restrict ok) program init s r) :
    Reachable W program init s r := by
  induction run with
  | init => exact .init
  | start p o _ idle move ih => exact .start p o ih idle move
  | event p o e k a _ busy move ih => exact .event p o e k a ih busy move.1
  | finish p o x _ busy move ih => exact .finish p o x ih busy move

/-! ## The invariant rule -/

/-- The local states of the processes, next to what they run. -/
abbrev Locals (Pid Op L : Type) := Pid → Option (Op × L)

/-- Each process follows the protocol from its local state. -/
def Coupled (P : Prog.Protocol E A L) (Q : Op → Except ε α → L → Prop)
    (r : Running E A ε α Pid Op) (v : Locals Pid Op L) : Prop :=
  ∀ p, match r p, v p with
    | none, none => True
    | some (o, g), some (o', l) => o = o' ∧ Prog.Follows P (Q o) g l
    | _, _ => False

theorem Coupled.idle {P : Prog.Protocol E A L} {Q : Op → Except ε α → L → Prop}
    {r : Running E A ε α Pid Op} {v : Locals Pid Op L} (h : Coupled P Q r v) {p : Pid}
    (hp : r p = none) : v p = none := by
  have := h p
  rw [hp] at this
  cases hv : v p with
  | none => rfl
  | some l => rw [hv] at this; exact this.elim

theorem Coupled.busy {P : Prog.Protocol E A L} {Q : Op → Except ε α → L → Prop}
    {r : Running E A ε α Pid Op} {v : Locals Pid Op L} (h : Coupled P Q r v) {p : Pid}
    {o : Op} {g : Prog E A ε α} (hp : r p = some (o, g)) :
    ∃ l, v p = some (o, l) ∧ Prog.Follows P (Q o) g l := by
  have := h p
  rw [hp] at this
  cases hv : v p with
  | none => rw [hv] at this; exact this.elim
  | some w =>
    obtain ⟨o', l⟩ := w
    rw [hv] at this
    obtain ⟨rfl, hg⟩ := this
    exact ⟨l, rfl, hg⟩

theorem Coupled.update_some [DecidableEq Pid] {P : Prog.Protocol E A L}
    {Q : Op → Except ε α → L → Prop} {r : Running E A ε α Pid Op} {v : Locals Pid Op L}
    (h : Coupled P Q r v) (p : Pid) (o : Op)
    {g : Prog E A ε α} {l : L} (hg : Prog.Follows P (Q o) g l) :
    Coupled P Q (Function.update r p (some (o, g))) (Function.update v p (some (o, l))) := by
  intro q
  by_cases hq : q = p
  · subst hq
    simpa using hg
  · simpa [Function.update_of_ne hq] using h q

theorem Coupled.update_none [DecidableEq Pid] {P : Prog.Protocol E A L}
    {Q : Op → Except ε α → L → Prop} {r : Running E A ε α Pid Op} {v : Locals Pid Op L}
    (h : Coupled P Q r v) (p : Pid) :
    Coupled P Q (Function.update r p none) (Function.update v p none) := by
  intro q
  by_cases hq : q = p
  · subst hq
    simp
  · simpa [Function.update_of_ne hq] using h q

/-- An invariant of a pool: `J` couples the shared state with the local protocol states.
Each obligation is about one move of one process. -/
structure Invariant [DecidableEq Pid] (W : World E A ε α σ Pid Op) (P : Prog.Protocol E A L)
    (Q : Op → Except ε α → L → Prop) (l₀ : Op → L) (init : σ)
    (J : σ → Locals Pid Op L → Prop) : Prop where
  init : J init fun _ => none
  start : ∀ {s v p o s'}, J s v → v p = none → W.start s p o s' →
    J s' (Function.update v p (some (o, l₀ o)))
  event : ∀ {s v p o l e a s'}, J s v → v p = some (o, l) → P.may l e → W.event s p e a s' →
    J s' (Function.update v p (some (o, P.next l e a)))
  finish : ∀ {s v p o l x s'}, J s v → v p = some (o, l) → Q o x l → W.finish s p o x s' →
    J s' (Function.update v p none)

/-- Every reachable state satisfies an invariant whose programs follow the protocol. -/
theorem reachable_invariant [DecidableEq Pid] {W : World E A ε α σ Pid Op} {P : Prog.Protocol E A L}
    {Q : Op → Except ε α → L → Prop} {l₀ : Op → L} {init : σ} {J : σ → Locals Pid Op L → Prop}
    {program : Op → Prog E A ε α} (hprog : ∀ o, Prog.Follows P (Q o) (program o) (l₀ o))
    (hJ : Invariant W P Q l₀ init J) {s : σ} {r : Running E A ε α Pid Op}
    (run : Reachable W program init s r) : ∃ v, J s v ∧ Coupled P Q r v := by
  induction run with
  | init => exact ⟨fun _ => none, hJ.init, fun _ => trivial⟩
  | start p o run idle move ih =>
    obtain ⟨v, hv, hc⟩ := ih
    exact ⟨_, hJ.start hv (hc.idle idle) move, hc.update_some p o (hprog o)⟩
  | event p o e k a run busy move ih =>
    obtain ⟨v, hv, hc⟩ := ih
    obtain ⟨l, hl, hg⟩ := hc.busy busy
    exact ⟨_, hJ.event hv hl hg.1 move, hc.update_some p o (hg.2 a)⟩
  | finish p o x run busy move ih =>
    obtain ⟨v, hv, hc⟩ := ih
    obtain ⟨l, hl, hg⟩ := hc.busy busy
    exact ⟨_, hJ.finish hv hl hg move, hc.update_none p⟩

/-! ## Scripted runs -/

variable [DecidableEq Pid]

/-- One turn of a scripted run. -/
inductive Turn (Pid Op : Type) where
  | start (p : Pid) (o : Op)
  | event (p : Pid)
  | finish (p : Pid)

/-- An environment that answers by itself: each answer comes with the shared state after it;
`none` where the turn is not possible. -/
structure Script (E : Type) (A : E → Type) (ε α σ Pid Op : Type) where
  start : σ → Pid → Op → Option σ
  event : σ → Pid → (e : E) → Option (A e × σ)
  finish : σ → Pid → Op → Except ε α → Option σ

/-- The script makes only moves of the world. -/
structure Script.Sound (h : Script E A ε α σ Pid Op) (W : World E A ε α σ Pid Op) : Prop where
  start : ∀ {s p o s'}, h.start s p o = some s' → W.start s p o s'
  event : ∀ {s p e a s'}, h.event s p e = some (a, s') → W.event s p e a s'
  finish : ∀ {s p o x s'}, h.finish s p o x = some s' → W.finish s p o x s'

/-- One turn; `none` when the process cannot take it. -/
def turn (h : Script E A ε α σ Pid Op) (program : Op → Prog E A ε α) :
    Turn Pid Op → σ × Running E A ε α Pid Op → Option (σ × Running E A ε α Pid Op)
  | .start p o, (s, r) =>
    match r p, h.start s p o with
    | none, some s' => some (s', Function.update r p (some (o, program o)))
    | _, _ => none
  | .event p, (s, r) =>
    match r p with
    | some (o, .step e k) =>
      (h.event s p e).map fun (a, s') => (s', Function.update r p (some (o, k a)))
    | _ => none
  | .finish p, (s, r) =>
    match r p with
    | some (o, .done x) => (h.finish s p o x).map fun s' => (s', Function.update r p none)
    | _ => none

/-- A whole script from a state. -/
def drive (h : Script E A ε α σ Pid Op) (program : Op → Prog E A ε α) :
    List (Turn Pid Op) → σ × Running E A ε α Pid Op → Option (σ × Running E A ε α Pid Op)
  | [], c => some c
  | t :: ts, c => (turn h program t c).bind (drive h program ts)

theorem turn_reachable {W : World E A ε α σ Pid Op} {h : Script E A ε α σ Pid Op}
    (hs : h.Sound W) {program : Op → Prog E A ε α} {init : σ} (t : Turn Pid Op)
    {c c' : σ × Running E A ε α Pid Op} (hc : Reachable W program init c.1 c.2)
    (ht : turn h program t c = some c') : Reachable W program init c'.1 c'.2 := by
  obtain ⟨s, r⟩ := c
  cases t with
  | start p o =>
    simp only [turn] at ht
    split at ht
    next hp hm => cases ht; exact .start p o hc hp (hs.start hm)
    next => cases ht
  | event p =>
    simp only [turn] at ht
    split at ht
    next o e k hp =>
      simp only [Option.map_eq_some_iff] at ht
      obtain ⟨⟨a, s'⟩, he, rfl⟩ := ht
      exact .event p o e k a hc hp (hs.event he)
    next => cases ht
  | finish p =>
    simp only [turn] at ht
    split at ht
    next o x hp =>
      simp only [Option.map_eq_some_iff] at ht
      obtain ⟨s', hf, rfl⟩ := ht
      exact .finish p o x hc hp (hs.finish hf)
    next => cases ht

theorem drive_reachable {W : World E A ε α σ Pid Op} {h : Script E A ε α σ Pid Op}
    (hs : h.Sound W) {program : Op → Prog E A ε α} {init : σ} (ts : List (Turn Pid Op))
    {c c' : σ × Running E A ε α Pid Op} (hc : Reachable W program init c.1 c.2)
    (ht : drive h program ts c = some c') : Reachable W program init c'.1 c'.2 := by
  induction ts generalizing c with
  | nil => cases ht; exact hc
  | cons t ts ih =>
    simp only [drive, Option.bind_eq_some_iff] at ht
    obtain ⟨d, hd, hts⟩ := ht
    exact ih (turn_reachable hs t hc hd) hts

end Pool
