import Kaleidoscope.Sdk.Native
import Mathlib.Algebra.Order.Field.Rat
import Mathlib.Data.Rat.Cast.Order
import Mathlib.Tactic.FieldSimp

/-!
# Retries

The attempts that a native call makes, each with the time it is given, and which of them the call
may follow by another.

    call_policy_iff   for which clocks and outcomes a call keeps to the retry rule, in both SDKs
-/

namespace Kaleidoscope.Sdk

open JsonReader (JsonValue Rejection)

/-! ## The rule -/

/-- What an SDK makes of the output of a child. -/
inductive Reading where
  | json (value : JsonValue)
  | notJson
  /-- JSON beyond a limit of the process -/
  | beyond

def readPython (limits : PythonLimits) (stdout : List UInt8) : Reading :=
  match loads limits stdout with
  | .ok value => .json value
  | .error .malformed => .notJson
  | .error _ => .beyond

def readTypescript (stdout : List UInt8) : Reading :=
  match parse stdout with
  | .ok value => .json value
  | .error _ => .notJson

/-- The failure after which the request may be sent again: the child was not spawned, it took too
long, it exited with an error and without one JSON value, or it refused because the vault is
busy. -/
def retry (read : List UInt8 → Reading) (entitlement : Exit → List UInt8 → Bool) :
    Outcome → Option CallError
  | .spawnFailure => some .childProcess
  | .timeout => some .deadlineExceeded
  | .outputLimit => none
  | .cancelled => none
  | .exited exit stdout stderr =>
    if exit = .code 0 ∨ entitlement exit stderr = true then none
    else
      match read stdout with
      | .notJson => some .childProcess
      | .json value => if isBusyRefusal value then some (.nativeRefusal value) else none
      | .beyond => none

def retryPython (limits : PythonLimits) : Outcome → Option CallError :=
  retry (readPython limits) fun exit stderr =>
    (classifyRefusalPython stderr (some exit.returncode)).isSome

def retryTypescript : Outcome → Option CallError :=
  retry readTypescript fun exit stderr => (classifyRefusalTypescript stderr exit.status).isSome

/-! ## Attempts -/

/-- An attempt: when its time is computed, how much it gets, and how it ends. -/
structure Attempt where
  start : Int
  budget : ℚ
  outcome : Outcome

section

variable (verdict : Outcome → Verdict) (deadline : Int) (clock : Nat → Int)
  (outcomes : Nat → Outcome)

/-- The attempts from the `i`-th on. -/
def attempts : (left i : Nat) → List Attempt
  | 0, _ => []
  | left + 1, i =>
    if deadline - clock i ≤ 0 then []
    else
      { start := clock i
        budget := ((deadline - clock i : Int) : ℚ) / ((left + 1 : Nat) : ℚ)
        outcome := outcomes i } ::
        if (verdict (outcomes i)).isAgain then attempts left (i + 1) else []

end

/-- `_NativeCaller._call` as the attempts that it makes. -/
def attemptsPython (limits : PythonLimits) (bound : Nat) (timeout : Int) (clock : Nat → Int)
    (outcomes : Nat → Outcome) : List Attempt :=
  attempts (verdictPython limits) (clock 0 + timeout) (fun i => clock (i + 1)) outcomes bound 0

/-- `callNative` as the attempts that it makes. -/
def attemptsTypescript (bound : Nat) (timeout : Int) (clock : Nat → Int)
    (outcomes : Nat → Outcome) : List Attempt :=
  attempts verdictTypescript (clock 0 + timeout) (fun i => clock (i + 1)) outcomes bound 0

/-- The rule, for a call that made these attempts, spawned so many children and ended so. -/
structure Policy (retry : Outcome → Option CallError) (bound : Nat) (deadline : Int)
    (made : List Attempt) (ended : Nat × Except CallError JsonValue) : Prop where
  spawned : ended.1 = (made.map fun attempt => attempt.outcome.children).sum
  bounded : ended.1 ≤ bound
  /-- another attempt follows only what may be sent again -/
  again : ∀ attempt ∈ made.dropLast, (retry attempt.outcome).isSome = true
  /-- the error raised is that of the last attempt -/
  raised : ∀ attempt ∈ made.getLast?, ∀ failure, retry attempt.outcome = some failure →
    ended.2 = .error failure
  within : ∀ attempt ∈ made, attempt.start + attempt.budget ≤ deadline

section

variable {verdict : Outcome → Verdict} {exhausted : Option CallError → CallError}
  {deadline : Int} {clock : Nat → Int} {outcomes : Nat → Outcome}

/-! ## The loop -/

theorem children_le_one (o : Outcome) : o.children ≤ 1 := by
  cases o with
  | spawnFailure => exact Nat.zero_le 1
  | timeout | outputLimit | cancelled | exited => exact Nat.le_refl 1

theorem attempts_children (left : Nat) : ∀ i,
    ((attempts verdict deadline clock outcomes left i).map
      fun attempt => attempt.outcome.children).sum ≤ left := by
  induction left with
  | zero =>
    intro i
    exact Nat.le_refl 0
  | succ left ih =>
    intro i
    have hone := children_le_one (outcomes i)
    have hrest := ih (i + 1)
    rw [attempts]
    split
    · exact Nat.zero_le _
    · rw [List.map_cons, List.sum_cons]
      split
      · show (outcomes i).children + _ ≤ left + 1
        omega
      · show (outcomes i).children + 0 ≤ left + 1
        omega

/-- The children that the loop counts are those of its attempts. -/
theorem attemptLoop_children (left : Nat) : ∀ (i : Nat) (lastFailure : Option CallError),
    (attemptLoop verdict exhausted deadline clock outcomes left i lastFailure).1
      = ((attempts verdict deadline clock outcomes left i).map
        fun attempt => attempt.outcome.children).sum := by
  induction left with
  | zero =>
    intro i lastFailure
    rfl
  | succ left ih =>
    intro i lastFailure
    rw [attemptLoop, attempts]
    split
    · rfl
    · cases verdict (outcomes i) with
      | done result => simp [Verdict.isAgain]
      | again failure => simp [Verdict.isAgain, ih]

/-- The loop ends with what the last attempt makes it end with. -/
theorem attemptLoop_result (left : Nat) : ∀ (i : Nat) (lastFailure : Option CallError),
    (attemptLoop verdict exhausted deadline clock outcomes left i lastFailure).2
      = match (attempts verdict deadline clock outcomes left i).getLast? with
        | none => .error (exhausted lastFailure)
        | some attempt => (verdict attempt.outcome).last exhausted := by
  induction left with
  | zero =>
    intro i lastFailure
    rfl
  | succ left ih =>
    intro i lastFailure
    rw [attemptLoop, attempts]
    split
    · rfl
    · cases hv : verdict (outcomes i) with
      | done result =>
        simp [Verdict.isAgain, hv, Verdict.last]
      | again failure =>
        simp only [Verdict.isAgain, if_true, ih]
        cases hlast : (attempts verdict deadline clock outcomes left (i + 1)).getLast? with
        | none =>
          rw [List.getLast?_eq_none_iff.mp hlast]
          simp [hv, Verdict.last]
        | some attempt =>
          have hne : attempts verdict deadline clock outcomes left (i + 1) ≠ [] := by
            intro hnil
            rw [hnil] at hlast
            cases hlast
          rw [List.getLast?_cons, hlast]
          rfl

/-- What is left of the deadline, shared among the attempts left, does not go beyond it. -/
theorem attempts_within (left : Nat) : ∀ (i : Nat),
    ∀ attempt ∈ attempts verdict deadline clock outcomes left i,
      attempt.start + attempt.budget ≤ deadline := by
  induction left with
  | zero =>
    intro i attempt h
    cases h
  | succ left ih =>
    intro i attempt h
    rw [attempts] at h
    split at h
    · cases h
    next hroom =>
      rcases List.mem_cons.mp h with rfl | h
      · have hpos : (0 : ℚ) < ((left + 1 : Nat) : ℚ) := by
          exact_mod_cast Nat.succ_pos left
        have hone : (1 : ℚ) ≤ ((left + 1 : Nat) : ℚ) := by
          exact_mod_cast Nat.succ_le_succ (Nat.zero_le left)
        have hleft : (0 : ℚ) ≤ ((deadline - clock i : Int) : ℚ) := by
          exact_mod_cast (show (0 : Int) ≤ deadline - clock i by omega)
        have hshare : ((deadline - clock i : Int) : ℚ) / ((left + 1 : Nat) : ℚ)
            ≤ ((deadline - clock i : Int) : ℚ) := div_le_self hleft hone
        have hsum : ((clock i : Int) : ℚ) + ((deadline - clock i : Int) : ℚ) = deadline := by
          push_cast
          ring
        show ((clock i : Int) : ℚ) + _ ≤ _
        rw [← hsum]
        exact add_le_add_right hshare _
      · split at h
        · exact ih (i + 1) attempt h
        · cases h

/-- The attempts from `i` on that another one follows. -/
theorem exists_dropLast_iff (p : Outcome → Prop) (left : Nat) : ∀ i,
    (∃ attempt ∈ (attempts verdict deadline clock outcomes left i).dropLast, p attempt.outcome)
      ↔ ∃ k, k + 1 < left ∧ (∀ j ≤ k + 1, clock (i + j) < deadline)
        ∧ (∀ j ≤ k, (verdict (outcomes (i + j))).isAgain = true) ∧ p (outcomes (i + k)) := by
  induction left with
  | zero =>
    intro i
    simp [attempts]
  | succ left ih =>
    intro i
    rw [attempts]
    by_cases hlate : deadline - clock i ≤ 0
    · rw [if_pos hlate]
      refine iff_of_false (by simp) ?_
      rintro ⟨k, -, hintime, -⟩
      have := hintime 0 (Nat.zero_le _)
      rw [Nat.add_zero] at this
      omega
    rw [if_neg hlate]
    by_cases hagain : (verdict (outcomes i)).isAgain = true
    · rw [if_pos hagain]
      have hnext := ih (i + 1)
      cases left with
      | zero =>
        refine iff_of_false (by simp [attempts]) ?_
        rintro ⟨k, hk, -⟩
        omega
      | succ left =>
        by_cases hroom : deadline - clock (i + 1) ≤ 0
        · rw [attempts, if_pos hroom]
          refine iff_of_false (by simp) ?_
          rintro ⟨k, -, hintime, -⟩
          have := hintime 1 (by omega)
          omega
        · have hne : attempts verdict deadline clock outcomes (left + 1) (i + 1) ≠ [] := by
            rw [attempts, if_neg hroom]
            exact List.cons_ne_nil _ _
          rw [List.dropLast_cons_of_ne_nil hne]
          constructor
          · rintro ⟨attempt, hmem, hp⟩
            rcases List.mem_cons.mp hmem with rfl | hmem
            · refine ⟨0, by omega, fun j hj => ?_, fun j hj => ?_, hp⟩
              · match j, hj with
                | 0, _ => rw [Nat.add_zero]; omega
                | 1, _ => omega
              · rw [Nat.le_zero.mp hj]
                exact hagain
            · obtain ⟨k, hk, hintime, hbefore, hp⟩ := hnext.mp ⟨attempt, hmem, hp⟩
              refine ⟨k + 1, by omega, fun j hj => ?_, fun j hj => ?_, ?_⟩
              · cases j with
                | zero => rw [Nat.add_zero]; omega
                | succ j =>
                  rw [show i + (j + 1) = i + 1 + j by omega]
                  exact hintime j (by omega)
              · cases j with
                | zero => exact hagain
                | succ j =>
                  rw [show i + (j + 1) = i + 1 + j by omega]
                  exact hbefore j (by omega)
              · rw [show i + (k + 1) = i + 1 + k by omega]
                exact hp
          · rintro ⟨k, hk, hintime, hbefore, hp⟩
            cases k with
            | zero => exact ⟨_, List.mem_cons_self, hp⟩
            | succ k =>
              rw [show i + (k + 1) = i + 1 + k by omega] at hp
              obtain ⟨attempt, hmem, hp⟩ := hnext.mpr ⟨k, by omega,
                fun j hj => by
                  rw [show i + 1 + j = i + (j + 1) by omega]
                  exact hintime (j + 1) (by omega),
                fun j hj => by
                  rw [show i + 1 + j = i + (j + 1) by omega]
                  exact hbefore (j + 1) (by omega), hp⟩
              exact ⟨attempt, List.mem_cons_of_mem _ hmem, hp⟩
    · rw [if_neg hagain]
      refine iff_of_false (by simp) ?_
      rintro ⟨k, -, -, hbefore, -⟩
      exact hagain (hbefore 0 (Nat.zero_le _))

theorem isAgain_of_mem {left i : Nat} {attempt : Attempt}
    (h : attempt ∈ (attempts verdict deadline clock outcomes left i).dropLast) :
    (verdict attempt.outcome).isAgain = true := by
  obtain ⟨k, -, -, hagain, hsame⟩ := (exists_dropLast_iff (· = attempt.outcome) left i).mp
    ⟨attempt, h, rfl⟩
  rw [← hsame]
  exact hagain k (Nat.le_refl k)

/-- A call keeps to the rule exactly where it sends again only what may be sent again. -/
theorem policy_iff {retry : Outcome → Option CallError} {left : Nat}
    (hraised : ∀ o failure, retry o = some failure →
      verdict o = .again failure ∧ exhausted (some failure) = failure) :
    Policy retry left deadline (attempts verdict deadline clock outcomes left 0)
        (attemptLoop verdict exhausted deadline clock outcomes left 0 none)
      ↔ ∀ attempt ∈ (attempts verdict deadline clock outcomes left 0).dropLast,
        (retry attempt.outcome).isSome = true := by
  constructor
  · exact fun h => h.again
  · intro hagain
    have hchildren := @attemptLoop_children verdict exhausted deadline clock outcomes left 0 none
    refine ⟨hchildren, ?_, hagain, ?_, attempts_within left 0⟩
    · rw [hchildren]
      exact attempts_children left 0
    · intro attempt hlast failure hretry
      obtain ⟨hverdict, hexhausted⟩ := hraised _ _ hretry
      rw [attemptLoop_result, Option.mem_def.mp hlast]
      show (verdict attempt.outcome).last exhausted = _
      rw [hverdict, Verdict.last, hexhausted]

end

/-! ## The verdicts -/

/-- A child that exits with an error, is no entitlement refusal, and answers `null`. -/
def NullAnswer (limits : PythonLimits) (o : Outcome) : Prop :=
  ∃ exit stdout stderr, o = .exited exit stdout stderr ∧ exit ≠ .code 0
    ∧ classifyRefusalPython stderr (some exit.returncode) = none ∧ loads limits stdout = .ok .null

theorem verdictTypescript_again_iff {o : Outcome} {failure : CallError} :
    verdictTypescript o = .again failure ↔ retryTypescript o = some failure := by
  cases o with
  | spawnFailure | timeout => simp [verdictTypescript, retryTypescript, retry]
  | outputLimit | cancelled => simp [verdictTypescript, retryTypescript, retry]
  | exited exit stdout stderr =>
    by_cases hexit : exit = .code 0
    · subst hexit
      simp only [verdictTypescript, retryTypescript, retry, Exit.status]
      cases parse stdout <;> simp
    · have hstatus : exit.status ≠ some 0 := fun h => hexit (status_eq_zero.mp h)
      simp only [verdictTypescript, retryTypescript, retry, readTypescript, if_pos hstatus,
        if_neg hstatus, hexit, false_or]
      cases classifyRefusalTypescript stderr exit.status with
      | some reason => simp
      | none =>
        cases parse stdout with
        | error e => simp
        | ok value => by_cases hbusy : isBusyRefusal value = true <;> simp [hbusy]

theorem verdictPython_again_iff {limits : PythonLimits} {o : Outcome} {failure : CallError} :
    verdictPython limits o = .again failure
      ↔ retryPython limits o = some failure ∨ NullAnswer limits o ∧ failure = .childProcess := by
  have hnull : ∀ exit stdout stderr, NullAnswer limits (.exited exit stdout stderr)
      ↔ exit ≠ .code 0 ∧ classifyRefusalPython stderr (some exit.returncode) = none
        ∧ loads limits stdout = .ok .null := by
    intro exit stdout stderr
    constructor
    · rintro ⟨_, _, _, hsame, h⟩
      cases hsame
      exact h
    · intro h
      exact ⟨exit, stdout, stderr, rfl, h⟩
  cases o with
  | spawnFailure | timeout => simp [verdictPython, retryPython, retry, NullAnswer]
  | outputLimit | cancelled => simp [verdictPython, retryPython, retry, NullAnswer]
  | exited exit stdout stderr =>
    rw [hnull]
    by_cases hexit : exit = .code 0
    · subst hexit
      simp only [verdictPython, retryPython, retry, Exit.returncode]
      rcases loads_cases limits stdout with ⟨v, hv, h⟩ | (h | h) | h | h <;> rw [h]
      · cases v with
        | null => exact absurd rfl hv
        | bool | number | string | array | object => simp
      · simp
      · simp
      · simp
      · simp
    · have hcode : exit.returncode ≠ 0 := fun h => hexit (returncode_eq_zero.mp h)
      simp only [verdictPython, retryPython, retry, readPython, hexit, hcode, ne_eq,
        not_false_eq_true, if_true, false_or, true_and]
      cases classifyRefusalPython stderr (some exit.returncode) with
      | some reason =>
        rcases loads_cases limits stdout with ⟨v, hv, h⟩ | (h | h) | h | h <;> rw [h] <;> simp
      | none =>
        have hbusy : isBusyRefusal .null = false := rfl
        rcases loads_cases limits stdout with ⟨v, hv, h⟩ | (h | h) | h | h <;> rw [h]
        · by_cases hbusy : isBusyRefusal v = true
          · cases v with
            | null => exact absurd rfl hv
            | bool | number | string | array | object => simp [hbusy]
          · cases v with
            | null => exact absurd rfl hv
            | bool | number | string | array | object => simp [hbusy]
        · -- `null`: the request is sent again, and the rule says that it is not
          constructor
          · intro h
            cases h
            simp
          · simp only [hbusy, Bool.false_eq_true, if_false]
            rintro (h | ⟨-, rfl⟩)
            · cases h
            · rfl
        · simp
        · simp
        · simp

theorem isAgain_iff {v : Verdict} : v.isAgain = true ↔ ∃ failure, v = .again failure := by
  cases v with
  | done result => simp [Verdict.isAgain]
  | again failure => simp [Verdict.isAgain]

/-- The failures after which the request may be sent again are raised as they are. -/
theorem retry_cases {read : List UInt8 → Reading} {entitlement : Exit → List UInt8 → Bool}
    {o : Outcome} {failure : CallError} (h : retry read entitlement o = some failure) :
    failure = .childProcess ∨ failure = .deadlineExceeded
      ∨ ∃ response, failure = .nativeRefusal response := by
  cases o with
  | spawnFailure =>
    cases h
    exact .inl rfl
  | timeout =>
    cases h
    exact .inr (.inl rfl)
  | outputLimit | cancelled => cases h
  | exited exit stdout stderr =>
    rw [retry] at h
    split at h
    · cases h
    · split at h
      · cases h
        exact .inl rfl
      · split at h
        · cases h
          exact .inr (.inr ⟨_, rfl⟩)
        · cases h
      · cases h

theorem exhaustedPython_retry {limits : PythonLimits} {o : Outcome} {failure : CallError}
    (h : retryPython limits o = some failure) : exhaustedPython (some failure) = failure := by
  rcases retry_cases h with rfl | rfl | ⟨response, rfl⟩ <;> rfl

theorem exhaustedTypescript_retry {o : Outcome} {failure : CallError}
    (h : retryTypescript o = some failure) : exhaustedTypescript (some failure) = failure := by
  rcases retry_cases h with rfl | rfl | ⟨response, rfl⟩ <;> rfl

theorem NullAnswer.retry {limits : PythonLimits} {o : Outcome} (h : NullAnswer limits o) :
    retryPython limits o = none := by
  obtain ⟨exit, stdout, stderr, rfl, hexit, hrefusal, hnull⟩ := h
  simp [retryPython, Sdk.retry, readPython, hexit, hrefusal, hnull]
  rfl

/-! ## Top theorem -/

/-- The `k`-th attempt of a Python call is made. -/
def BegunPython (limits : PythonLimits) (timeout : Int) (clock : Nat → Int)
    (outcomes : Nat → Outcome) (k : Nat) : Prop :=
  (∀ j ≤ k, clock (j + 1) < clock 0 + timeout)
    ∧ ∀ j < k, (verdictPython limits (outcomes j)).isAgain = true

/-- TypeScript keeps to the rule in every run; Python does exactly where no attempt is made after
a child that answered `null`. -/
theorem call_policy_iff (limits : PythonLimits) (bound : Nat) (timeout : Int) (clock : Nat → Int)
    (outcomes : Nat → Outcome) :
    (Policy (retryPython limits) bound (clock 0 + timeout)
        (attemptsPython limits bound timeout clock outcomes)
        (callPython limits bound timeout clock outcomes)
      ↔ ∀ k, k + 1 < bound → BegunPython limits timeout clock outcomes (k + 1) →
        ¬NullAnswer limits (outcomes k))
      ∧ Policy retryTypescript bound (clock 0 + timeout)
        (attemptsTypescript bound timeout clock outcomes)
        (callNative bound timeout clock outcomes) := by
  constructor
  · unfold attemptsPython callPython
    rw [policy_iff fun o failure h =>
      ⟨verdictPython_again_iff.mpr (.inl h), exhaustedPython_retry h⟩]
    constructor
    · intro hagain k hk hbegun hnull
      obtain ⟨attempt, hmem, hsame⟩ := (exists_dropLast_iff (· = outcomes k) bound 0).mpr
        ⟨k, hk, by simpa using hbegun.1, fun j hj => by simpa using hbegun.2 j (by omega), by simp⟩
      have hretry := hagain attempt hmem
      rw [hsame, hnull.retry] at hretry
      cases hretry
    · intro h attempt hmem
      obtain ⟨k, hk, hintime, hagain, hsame⟩ := (exists_dropLast_iff (· = attempt.outcome)
        bound 0).mp ⟨attempt, hmem, rfl⟩
      simp only [Nat.zero_add] at hintime hagain hsame
      have hnot := h k hk ⟨hintime, fun j hj => hagain j (by omega)⟩
      obtain ⟨failure, hfailure⟩ := isAgain_iff.mp (hagain k (Nat.le_refl k))
      rcases verdictPython_again_iff.mp hfailure with hretry | ⟨hnull, -⟩
      · rw [← hsame, hretry]
        rfl
      · exact absurd hnull hnot
  · unfold attemptsTypescript callNative
    rw [policy_iff fun o failure h =>
      ⟨verdictTypescript_again_iff.mpr h, exhaustedTypescript_retry h⟩]
    intro attempt hmem
    obtain ⟨failure, hfailure⟩ := isAgain_iff.mp (isAgain_of_mem hmem)
    rw [verdictTypescript_again_iff.mp hfailure]
    rfl

/-- A child that exits with an error and answers `null`. -/
def nullRefusal : Outcome := .exited (.code 1) [0x6E, 0x75, 0x6C, 0x6C] []

/-- The request is sent again after it. -/
theorem null_refusal_sent_again :
    ¬ ∀ (limits : PythonLimits) bound timeout clock outcomes,
      Policy (retryPython limits) bound (clock 0 + timeout)
        (attemptsPython limits bound timeout clock outcomes)
        (callPython limits bound timeout clock outcomes) := by
  intro h
  have hpolicy := h ⟨1000, 4300⟩ 2 1 (fun _ => 0) fun _ => nullRefusal
  have hmade : (attemptsPython ⟨1000, 4300⟩ 2 1 (fun _ => 0) fun _ => nullRefusal).dropLast.all
      (fun attempt => (retryPython ⟨1000, 4300⟩ attempt.outcome).isSome) = false := by
    decide +kernel
  have hagain := List.all_eq_true.mpr hpolicy.again
  rw [hmade] at hagain
  cases hagain

end Kaleidoscope.Sdk
