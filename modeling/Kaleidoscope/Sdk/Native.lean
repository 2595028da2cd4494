import Kaleidoscope.Lib.JsonReader
import Kaleidoscope.Sdk.Diagnostic
import Kaleidoscope.Sdk.Refusal

/-!
# Native calls

One operation, a bounded number of attempts inside one deadline.  Each attempt ends in an outcome,
and each SDK either settles the call by it or sends the request again.  The clock and the outcomes
are given: how much of the deadline an attempt gets shows only in whether it times out.

    callNative_same_iff    for which clocks and outcomes the two SDKs spawn as many children and
                           end with the same value or the same class of error
-/

namespace Kaleidoscope.Sdk

open JsonReader (JsonValue Rejection)

/-! ## What a child returns -/

/-- How a child exits: with a code, or killed by a signal (`number + 1`). -/
inductive Exit where
  | code (n : Nat)
  | signal (number : Nat)
  deriving DecidableEq

/-- `process.returncode`: a signal is a negative number. -/
def Exit.returncode : Exit → Int
  | .code n => n
  | .signal number => -(number + 1)

/-- `result.code`: a child that a signal killed has none. -/
def Exit.status : Exit → Option Int
  | .code n => some n
  | .signal _ => none

inductive Outcome where
  | spawnFailure
  | timeout
  | outputLimit
  | cancelled
  | exited (exit : Exit) (stdout stderr : List UInt8)

/-- The children an attempt starts. -/
def Outcome.children : Outcome → Nat
  | .spawnFailure => 0
  | _ => 1

/-! ## Reading JSON -/

/-- The limits of a Python process: how much deeper it may recurse, and how many digits an integer
may have (zero for any number). -/
structure PythonLimits where
  recursion : Nat
  intDigits : Nat

/-- `json.loads`: integers are exact, other numbers are floats, and three constants are known. -/
def jsonLoads (limits : PythonLimits) : JsonReader.Dialect where
  constants := true
  number l :=
    if l.isInteger then
      if 0 < limits.intDigits ∧ limits.intDigits < l.whole.length then .error .tooLong
      else .ok (.finite l.value)
    else .ok (JsonReader.nearestDouble l.value)
  depth := some limits.recursion

/-- `JSON.parse` -/
def jsonParse : JsonReader.Dialect where
  constants := false
  number l := .ok (JsonReader.nearestDouble l.value)
  depth := none

/-- `json.detect_encoding`, with the bytes after the byte order mark that the codec drops. -/
def detectEncoding (b : List UInt8) : Unicode.Encoding × List UInt8 :=
  match b with
  | 0x00 :: 0x00 :: 0xFE :: 0xFF :: rest => (.utf32 .big, rest)
  | 0xFF :: 0xFE :: 0x00 :: 0x00 :: rest => (.utf32 .little, rest)
  | 0xFE :: 0xFF :: rest => (.utf16 .big, rest)
  | 0xFF :: 0xFE :: rest => (.utf16 .little, rest)
  | 0xEF :: 0xBB :: 0xBF :: rest => (.utf8, rest)
  | b₀ :: b₁ :: b₂ :: b₃ :: _ =>
    if b₀ = 0 then (if b₁ = 0 then .utf32 .big else .utf16 .big, b)
    else if b₁ = 0 then (if b₂ ≠ 0 ∨ b₃ ≠ 0 then .utf16 .little else .utf32 .little, b)
    else (.utf8, b)
  | [b₀, b₁] =>
    if b₀ = 0 then (.utf16 .big, b)
    else if b₁ = 0 then (.utf16 .little, b)
    else (.utf8, b)
  | _ => (.utf8, b)

/-- `json.loads(stdout)` -/
def loads (limits : PythonLimits) (stdout : List UInt8) : Except Rejection JsonValue :=
  match Unicode.decode (detectEncoding stdout).1 (detectEncoding stdout).2 with
  | none => .error .malformed
  | some text => JsonReader.read (jsonLoads limits) text

/-- `JSON.parse(stdout.toString("utf8"))` -/
def parse (stdout : List UInt8) : Except Rejection JsonValue :=
  JsonReader.read jsonParse ((Utf8.decodeLossy stdout).map JsonReader.point)

/-- `_is_busy_refusal` and `isBusyRefusal` -/
def isBusyRefusal (response : JsonValue) : Bool :=
  match response.member? (JsonReader.ofText "code") with
  | some (.string code) => code == JsonReader.ofText "contended"
  | _ => false

/-! ## Errors -/

inductive CallError where
  | entitlement (reason diagnostic : Text)
  | nativeRefusal (response : JsonValue)
  | childProcess
  | deadlineExceeded
  | outputLimit
  | cancelled
  | protocol
  /-- Python's `RecursionError` and `ValueError`, which the caller does not expect -/
  | recursion
  | value

/-- The class of an error, by the name that both SDKs give it in `code`. -/
inductive ErrorClass where
  | entitlement
  | nativeRefusal
  | childCrash
  | deadlineExceeded
  | outputLimit
  | cancelled
  | protocolContract
  | recursion
  | value
  deriving DecidableEq

def CallError.errorClass : CallError → ErrorClass
  | .entitlement _ _ => .entitlement
  | .nativeRefusal _ => .nativeRefusal
  | .childProcess => .childCrash
  | .deadlineExceeded => .deadlineExceeded
  | .outputLimit => .outputLimit
  | .cancelled => .cancelled
  | .protocol => .protocolContract
  | .recursion => .recursion
  | .value => .value

/-! ## Attempts -/

/-- What an SDK makes of an outcome. -/
inductive Verdict where
  | done (result : Except CallError JsonValue)
  | again (failure : CallError)

def Verdict.isAgain : Verdict → Bool
  | .again _ => true
  | .done _ => false

def verdictPython (limits : PythonLimits) : Outcome → Verdict
  | .spawnFailure => .again .childProcess
  | .timeout => .again .deadlineExceeded
  | .outputLimit => .done (.error .outputLimit)
  | .cancelled => .done (.error .cancelled)
  | .exited exit stdout stderr =>
    match loads limits stdout with
    | .error .tooDeep => .done (.error .recursion)
    | .error .tooLong => .done (.error .value)
    | loaded =>
      -- `None` stands for no value, and is also what `null` is read as
      let parsed : Option JsonValue := match loaded with
        | .ok .null => none
        | .ok value => some value
        | .error _ => none
      if exit.returncode ≠ 0 then
        match classifyRefusalPython stderr (some exit.returncode) with
        | some reason => .done (.error (.entitlement reason (boundedDiagnosticPython stderr)))
        | none =>
          match parsed with
          | some response =>
            if isBusyRefusal response then .again (.nativeRefusal response)
            else .done (.error (.nativeRefusal response))
          | none => .again .childProcess
      else
        match parsed with
        | some value => .done (.ok value)
        | none => .done (.error .protocol)

def verdictTypescript : Outcome → Verdict
  | .spawnFailure => .again .childProcess
  | .timeout => .again .deadlineExceeded
  | .outputLimit => .done (.error .outputLimit)
  | .cancelled => .done (.error .cancelled)
  | .exited exit stdout stderr =>
    let reason :=
      if exit.status ≠ some 0 then classifyRefusalTypescript stderr exit.status else none
    match reason with
    | some reason => .done (.error (.entitlement reason (boundedDiagnosticTypescript stderr)))
    | none =>
      match parse stdout with
      | .error _ =>
        if exit.status = some 0 then .done (.error .protocol) else .again .childProcess
      | .ok parsed =>
        if exit.status ≠ some 0 then
          if isBusyRefusal parsed then .again (.nativeRefusal parsed)
          else .done (.error (.nativeRefusal parsed))
        else .done (.ok parsed)

/-- What is raised once no attempt is left. -/
def exhaustedPython : Option CallError → CallError
  | some (.nativeRefusal response) => .nativeRefusal response
  | some .deadlineExceeded => .deadlineExceeded
  | some _ => .childProcess
  | none => .deadlineExceeded

def exhaustedTypescript : Option CallError → CallError
  | some (.nativeRefusal response) => .nativeRefusal response
  | some .deadlineExceeded => .deadlineExceeded
  | _ => .childProcess

section

variable (verdict : Outcome → Verdict) (exhausted : Option CallError → CallError)
  (deadline : Int) (clock : Nat → Int) (outcomes : Nat → Outcome)

/-- The attempts from the `i`-th on: the children they start and how the call ends. -/
def attemptLoop : (left i : Nat) → (lastFailure : Option CallError) →
    Nat × Except CallError JsonValue
  | 0, _, lastFailure => (0, .error (exhausted lastFailure))
  | left + 1, i, lastFailure =>
    if deadline - clock i ≤ 0 then (0, .error (exhausted lastFailure))
    else
      match verdict (outcomes i) with
      | .done result => ((outcomes i).children, result)
      | .again failure =>
        let rest := attemptLoop left (i + 1) (some failure)
        ((outcomes i).children + rest.1, rest.2)

end

/-- `_NativeCaller._call` from its first reading of the clock on. -/
def callPython (limits : PythonLimits) (attempts : Nat) (timeout : Int) (clock : Nat → Int)
    (outcomes : Nat → Outcome) : Nat × Except CallError JsonValue :=
  attemptLoop (verdictPython limits) exhaustedPython (clock 0 + timeout) (fun i => clock (i + 1))
    outcomes attempts 0 none

/-- `callNative` from its first reading of the clock on. -/
def callNative (attempts : Nat) (timeout : Int) (clock : Nat → Int) (outcomes : Nat → Outcome) :
    Nat × Except CallError JsonValue :=
  attemptLoop verdictTypescript exhaustedTypescript (clock 0 + timeout) (fun i => clock (i + 1))
    outcomes attempts 0 none

/-! ## Statement -/

/-- The same number of children, and the same value or the same class of error. -/
def SameEnd (python typescript : Nat × Except CallError JsonValue) : Prop :=
  python.1 = typescript.1
    ∧ python.2.mapError CallError.errorClass = typescript.2.mapError CallError.errorClass

/-- Both SDKs send the request again. -/
def SentAgain (limits : PythonLimits) (o : Outcome) : Prop :=
  (verdictPython limits o).isAgain = true ∧ (verdictTypescript o).isAgain = true

/-- Both SDKs settle the call. -/
def Settled (limits : PythonLimits) (o : Outcome) : Prop :=
  (verdictPython limits o).isAgain = false ∧ (verdictTypescript o).isAgain = false

/-- Python reads no value: the text is rejected, or is `null`. -/
def NoValue (loaded : Except Rejection JsonValue) : Prop :=
  loaded = .ok .null ∨ loaded = .error .malformed

/-- What the output of the last attempt must be for the call to end alike.  After an exit of zero,
the same value but `null`, or none for both; after another exit, a refusal for both or for
neither, and if for neither, then a value but `null` for both or none for both. -/
def EndsAlike (limits : PythonLimits) : Outcome → Prop
  | .exited exit stdout stderr =>
    let value := ∃ v, v ≠ .null ∧ loads limits stdout = .ok v
    let none := NoValue (loads limits stdout) ∧ ∃ e, parse stdout = .error e
    let refused := (classifyRefusalPython stderr (some exit.returncode)).isSome
    let refused' := (classifyRefusalTypescript stderr exit.status).isSome
    if exit = .code 0 then (∃ v, v ≠ .null ∧ loads limits stdout = .ok v ∧ parse stdout = .ok v) ∨ none
    else if refused then refused' ∧ (value ∨ NoValue (loads limits stdout))
    else ¬ refused' ∧ ((value ∧ ∃ v, parse stdout = .ok v) ∨ none)
  | _ => True

/-! ## Lemmas -/

/-- How the call ends if an attempt with the verdict is the last. -/
def Verdict.last (exhausted : Option CallError → CallError) : Verdict → Except CallError JsonValue
  | .done result => result
  | .again failure => .error (exhausted (some failure))

section

variable {verdict : Outcome → Verdict} {exhausted : Option CallError → CallError}
  {deadline : Int} {clock : Nat → Int} {outcomes : Nat → Outcome}

/-- No attempt is left, or no time for one. -/
def Stops (deadline : Int) (clock : Nat → Int) (left i : Nat) : Prop :=
  left = 0 ∨ deadline ≤ clock i

theorem attemptLoop_stop {left i : Nat} (h : Stops deadline clock left i)
    (lastFailure : Option CallError) :
    attemptLoop verdict exhausted deadline clock outcomes left i lastFailure
      = (0, .error (exhausted lastFailure)) := by
  cases left with
  | zero => rfl
  | succ left =>
    have hlate : deadline - clock i ≤ 0 := by
      rcases h with hzero | hlate
      · cases hzero
      · omega
    rw [attemptLoop, if_pos hlate]

theorem attemptLoop_done {left i : Nat} (hroom : ¬ Stops deadline clock (left + 1) i)
    {result : Except CallError JsonValue} (hv : verdict (outcomes i) = .done result)
    (lastFailure : Option CallError) :
    attemptLoop verdict exhausted deadline clock outcomes (left + 1) i lastFailure
      = ((outcomes i).children, result) := by
  have hearly : ¬ deadline - clock i ≤ 0 := fun hle => hroom (.inr (by omega))
  rw [attemptLoop, if_neg hearly, hv]

theorem attemptLoop_again {left i : Nat} (hroom : ¬ Stops deadline clock (left + 1) i)
    {failure : CallError} (hv : verdict (outcomes i) = .again failure)
    (lastFailure : Option CallError) :
    attemptLoop verdict exhausted deadline clock outcomes (left + 1) i lastFailure
      = ((outcomes i).children
          + (attemptLoop verdict exhausted deadline clock outcomes left (i + 1) (some failure)).1,
        (attemptLoop verdict exhausted deadline clock outcomes left (i + 1) (some failure)).2) := by
  have hearly : ¬ deadline - clock i ≤ 0 := fun hle => hroom (.inr (by omega))
  rw [attemptLoop, if_neg hearly, hv]

/-- What both SDKs do where no child is started, and how neither settles a call. -/
structure Crashes (verdict : Outcome → Verdict) (exhausted : Option CallError → CallError) :
    Prop where
  spawn : verdict .spawnFailure = .again .childProcess
  crash : exhausted (some .childProcess) = .childProcess
  settles : ∀ {o e}, verdict o = .done (.error e) → e.errorClass ≠ .childCrash

/-- Attempts that start no child end in a crash. -/
theorem attemptLoop_childless (hc : Crashes verdict exhausted) (left : Nat) :
    ∀ {i : Nat} {failure : CallError}, ¬ Stops deadline clock left i →
      (attemptLoop verdict exhausted deadline clock outcomes left i (some failure)).1 = 0 →
      (attemptLoop verdict exhausted deadline clock outcomes left i (some failure)).2
        = .error .childProcess := by
  induction left with
  | zero =>
    intro i failure hroom _
    exact absurd (.inl rfl) hroom
  | succ left ih =>
    intro i failure hroom hzero
    cases hv : verdict (outcomes i) with
    | done result =>
      rw [attemptLoop_done hroom hv] at hzero
      cases ho : outcomes i with
      | spawnFailure =>
        rw [ho, hc.spawn] at hv
        cases hv
      | timeout | outputLimit | cancelled | exited =>
        rw [ho] at hzero
        cases hzero
    | again failure' =>
      rw [attemptLoop_again hroom hv] at hzero ⊢
      have hnone : outcomes i = .spawnFailure := by
        cases ho : outcomes i with
        | spawnFailure => rfl
        | timeout | outputLimit | cancelled | exited =>
          rw [ho] at hzero
          simp only [Outcome.children] at hzero
          omega
      rw [hnone, hc.spawn] at hv
      cases hv
      by_cases hstop : Stops deadline clock left (i + 1)
      · rw [attemptLoop_stop hstop, hc.crash]
      · refine ih hstop ?_
        simp only [hnone, Outcome.children] at hzero
        omega

end

theorem python_crashes (limits : PythonLimits) :
    Crashes (verdictPython limits) exhaustedPython where
  spawn := rfl
  crash := rfl
  settles {o e} h := by
    cases o with
    | spawnFailure | timeout => cases h
    | outputLimit | cancelled =>
      cases h
      decide
    | exited exit stdout stderr =>
      simp only [verdictPython] at h
      repeat' split at h
      all_goals
        cases h
        try exact nofun

theorem typescript_crashes : Crashes verdictTypescript exhaustedTypescript where
  spawn := rfl
  crash := rfl
  settles {o e} h := by
    cases o with
    | spawnFailure | timeout => cases h
    | outputLimit | cancelled =>
      cases h
      decide
    | exited exit stdout stderr =>
      simp only [verdictTypescript] at h
      repeat' split at h
      all_goals
        cases h
        try exact nofun

theorem returncode_eq_zero {exit : Exit} : exit.returncode = 0 ↔ exit = .code 0 := by
  cases exit with
  | code n => simp [Exit.returncode]
  | signal number =>
    simp only [Exit.returncode, reduceCtorEq, iff_false]
    omega

theorem status_eq_zero {exit : Exit} : exit.status = some 0 ↔ exit = .code 0 := by
  cases exit with
  | code n => simp [Exit.status]
  | signal number => simp [Exit.status]

theorem mapError_error {ε ε' α : Type} (f : ε → ε') (e : ε) :
    (Except.error e : Except ε α).mapError f = .error (f e) := rfl

theorem mapError_ok {ε ε' α : Type} (f : ε → ε') (a : α) :
    (Except.ok a : Except ε α).mapError f = .ok a := rfl

theorem jsonLoads_converts (limits : PythonLimits) : (jsonLoads limits).Converts := by
  intro l h
  simp only [jsonLoads] at h
  repeat' split at h
  all_goals cases h

theorem jsonParse_converts : jsonParse.Converts := fun _ h => (nomatch h)

/-- The readings of an output, as far as the verdicts tell them apart. -/
theorem loads_cases (limits : PythonLimits) (stdout : List UInt8) :
    (∃ v, v ≠ .null ∧ loads limits stdout = .ok v) ∨ NoValue (loads limits stdout)
      ∨ loads limits stdout = .error .tooDeep ∨ loads limits stdout = .error .tooLong := by
  have hfuel : loads limits stdout ≠ .error .outOfFuel := by
    unfold loads
    split
    · exact nofun
    · exact JsonReader.read_ne_outOfFuel (jsonLoads_converts limits) _
  generalize loads limits stdout = loaded at hfuel
  cases loaded with
  | ok v =>
    by_cases hv : v = .null
    · exact .inr (.inl (.inl (by rw [hv])))
    · exact .inl ⟨v, hv, rfl⟩
  | error e =>
    cases e with
    | malformed => exact .inr (.inl (.inr rfl))
    | tooDeep => exact .inr (.inr (.inl rfl))
    | tooLong => exact .inr (.inr (.inr rfl))
    | outOfFuel => exact absurd rfl hfuel

theorem parse_ne_outOfFuel (stdout : List UInt8) : parse stdout ≠ .error .outOfFuel :=
  JsonReader.read_ne_outOfFuel jsonParse_converts _

/-- The class a call ends with if an attempt with the verdict is the last. -/
def Verdict.endClass (exhausted : Option CallError → CallError) (v : Verdict) :
    Except ErrorClass JsonValue :=
  (v.last exhausted).mapError CallError.errorClass

section

variable {limits : PythonLimits} {exit : Exit} {stdout stderr : List UInt8}

theorem endClass_python_value {v : JsonValue} (hv : v ≠ .null) (h : loads limits stdout = .ok v) :
    (verdictPython limits (.exited exit stdout stderr)).endClass exhaustedPython
      = if exit = .code 0 then .ok v
        else if (classifyRefusalPython stderr (some exit.returncode)).isSome then
          .error .entitlement
        else .error .nativeRefusal := by
  simp only [verdictPython, h, ne_eq, returncode_eq_zero, ite_not]
  cases v with
  | null => exact absurd rfl hv
  | bool | number | string | array | object =>
    by_cases hexit : exit = .code 0
    · simp only [if_pos hexit]
      rfl
    · simp only [if_neg hexit]
      cases classifyRefusalPython stderr (some exit.returncode) with
      | some reason => rfl
      | none =>
        simp only [Option.isSome_none, Bool.false_eq_true, if_false]
        split
        · rfl
        · rfl

theorem endClass_python_none (h : NoValue (loads limits stdout)) :
    (verdictPython limits (.exited exit stdout stderr)).endClass exhaustedPython
      = if exit = .code 0 then .error .protocolContract
        else if (classifyRefusalPython stderr (some exit.returncode)).isSome then
          .error .entitlement
        else .error .childCrash := by
  rcases h with h | h
  all_goals
    simp only [verdictPython, h, ne_eq, returncode_eq_zero, ite_not]
    by_cases hexit : exit = .code 0
    · simp only [if_pos hexit]
      rfl
    · simp only [if_neg hexit]
      cases classifyRefusalPython stderr (some exit.returncode) with
      | some reason => rfl
      | none => rfl

theorem endClass_typescript :
    (verdictTypescript (.exited exit stdout stderr)).endClass exhaustedTypescript
      = if exit = .code 0 then
          match parse stdout with
          | .ok v => .ok v
          | .error _ => .error .protocolContract
        else if (classifyRefusalTypescript stderr exit.status).isSome then .error .entitlement
        else
          match parse stdout with
          | .ok _ => .error .nativeRefusal
          | .error _ => .error .childCrash := by
  simp only [verdictTypescript, ne_eq, status_eq_zero, ite_not]
  by_cases hexit : exit = .code 0
  · simp only [if_pos hexit]
    cases parse stdout with
    | ok v => rfl
    | error e => rfl
  · simp only [if_neg hexit]
    cases classifyRefusalTypescript stderr exit.status with
    | some reason => rfl
    | none =>
      cases parse stdout with
      | ok v =>
        simp only [Option.isSome_none, Bool.false_eq_true, if_false]
        split
        · rfl
        · rfl
      | error e => rfl

end

/-- `EndsAlike` says when the two verdicts, taken as the last, end a call alike. -/
theorem endsAlike_iff (limits : PythonLimits) (o : Outcome) :
    EndsAlike limits o ↔
      (verdictPython limits o).endClass exhaustedPython
        = (verdictTypescript o).endClass exhaustedTypescript := by
  cases o with
  | spawnFailure | timeout | outputLimit | cancelled => exact iff_of_true trivial rfl
  | exited exit stdout stderr =>
    rw [endClass_typescript]
    simp only [EndsAlike]
    rcases loads_cases limits stdout with ⟨v, hv, h⟩ | h | h | h
    · have hnone : ¬ NoValue (loads limits stdout) := by
        rw [h]
        rintro (heq | heq)
        · exact hv (Except.ok.inj heq)
        · cases heq
      have hvalue : ∃ v, v ≠ .null ∧ loads limits stdout = .ok v := ⟨v, hv, h⟩
      rw [endClass_python_value hv h]
      by_cases hexit : exit = .code 0
      · simp only [if_pos hexit]
        cases hp : parse stdout with
        | ok w =>
          constructor
          · rintro (⟨u, -, hu, hw⟩ | ⟨hno, -⟩)
            · rw [h] at hu
              cases hu
              cases hw
              rfl
            · exact absurd hno hnone
          · intro heq
            cases Except.ok.inj heq
            exact .inl ⟨v, hv, h, rfl⟩
        | error e => simp [hnone]
      · simp only [if_neg hexit]
        cases classifyRefusalPython stderr (some exit.returncode) with
        | some reason =>
          cases classifyRefusalTypescript stderr exit.status with
          | some reason' => simp [hvalue]
          | none => cases parse stdout <;> simp
        | none =>
          cases classifyRefusalTypescript stderr exit.status with
          | some reason' => simp
          | none => cases parse stdout <;> simp [hvalue, hnone]
    · have hvalue : ¬ ∃ v, v ≠ .null ∧ loads limits stdout = .ok v := by
        rintro ⟨v, hv, heq⟩
        rcases h with h | h
        · rw [h] at heq
          exact hv (Except.ok.inj heq).symm
        · rw [h] at heq
          cases heq
      have hsame : ¬ ∃ v, v ≠ .null ∧ loads limits stdout = .ok v ∧ parse stdout = .ok v :=
        fun ⟨v, hv, heq, _⟩ => hvalue ⟨v, hv, heq⟩
      rw [endClass_python_none h]
      by_cases hexit : exit = .code 0
      · simp only [if_pos hexit]
        simp only [hsame, false_or]
        cases parse stdout with
        | ok w => simp
        | error e => simp [h]
      · simp only [if_neg hexit]
        cases classifyRefusalPython stderr (some exit.returncode) with
        | some reason =>
          cases classifyRefusalTypescript stderr exit.status with
          | some reason' => simp [h]
          | none => cases parse stdout <;> simp
        | none =>
          cases classifyRefusalTypescript stderr exit.status with
          | some reason' => simp
          | none =>
            simp only [hvalue, false_and, false_or]
            cases parse stdout <;> simp [h]
    all_goals
      have hverdict : (verdictPython limits (.exited exit stdout stderr)).endClass exhaustedPython
          = .error .recursion
          ∨ (verdictPython limits (.exited exit stdout stderr)).endClass exhaustedPython
            = .error .value := by
        simp [verdictPython, h, Verdict.endClass, Verdict.last, mapError_error,
          CallError.errorClass]
      have hfalse : ¬ NoValue (loads limits stdout) := by
        rw [h]
        rintro (heq | heq)
        · cases heq
        · cases heq
      have hvalue : ∀ v, loads limits stdout ≠ .ok v := by
        rw [h]
        exact fun _ => nofun
      refine iff_of_false ?_ ?_
      · simp [hvalue, hfalse]
      · by_cases hexit : exit = .code 0
        · rcases hverdict with hverdict | hverdict
          all_goals
            rw [hverdict, if_pos hexit]
            cases parse stdout <;> simp
        · rcases hverdict with hverdict | hverdict
          all_goals
            rw [hverdict, if_neg hexit]
            cases parse stdout <;> simp <;> split <;> simp

/-! ## Top theorem -/

section

variable {limits : PythonLimits} {deadline : Int} {clock : Nat → Int} {outcomes : Nat → Outcome}

/-- From the `i`-th attempt on: some are sent again by both SDKs, and the one after them ends the
call alike in both. -/
def AgreesFrom (limits : PythonLimits) (deadline : Int) (clock : Nat → Int)
    (outcomes : Nat → Outcome) (left i : Nat) : Prop :=
  ∃ k < left, (∀ j ≤ k, clock (i + j) < deadline)
    ∧ (∀ j < k, SentAgain limits (outcomes (i + j)))
    ∧ EndsAlike limits (outcomes (i + k))
    ∧ (Settled limits (outcomes (i + k)) ∨ k + 1 = left ∨ deadline ≤ clock (i + k + 1))

/-- The first attempt is the last, or is sent again. -/
theorem agreesFrom_succ {left i : Nat} (hroom : ¬ Stops deadline clock (left + 1) i) :
    AgreesFrom limits deadline clock outcomes (left + 1) i ↔
      EndsAlike limits (outcomes i)
          ∧ (Settled limits (outcomes i) ∨ Stops deadline clock left (i + 1))
        ∨ SentAgain limits (outcomes i)
          ∧ AgreesFrom limits deadline clock outcomes left (i + 1) := by
  have hearly : clock i < deadline := by
    by_contra hlate
    exact hroom (.inr (by omega))
  constructor
  · rintro ⟨k, hk, htime, hagain, hends, hlast⟩
    cases k with
    | zero =>
      refine .inl ⟨hends, hlast.imp_right fun h => ?_⟩
      exact h.imp (fun h => by omega) fun h => h
    | succ k =>
      have hshift : ∀ j, i + 1 + j = i + (j + 1) := fun j => by omega
      refine .inr ⟨hagain 0 (by omega), k, by omega, fun j hj => ?_, fun j hj => ?_, ?_, ?_⟩
      · rw [hshift]
        exact htime (j + 1) (by omega)
      · rw [hshift]
        exact hagain (j + 1) (by omega)
      · rw [hshift]
        exact hends
      · rw [hshift]
        exact hlast.imp_right fun h => h.imp_left fun h => by omega
  · rintro (⟨hends, hlast⟩ | ⟨hagain, k, hk, htime, hrest, hends, hlast⟩)
    · refine ⟨0, by omega, fun j hj => ?_, fun j hj => ?_, hends, ?_⟩
      · rw [Nat.le_zero.mp hj]
        exact hearly
      · omega
      · exact hlast.imp_right fun h => h.imp_left fun h => by omega
    · have hshift : ∀ j, i + (j + 1) = i + 1 + j := fun j => by omega
      refine ⟨k + 1, by omega, fun j hj => ?_, fun j hj => ?_, ?_, ?_⟩
      · cases j with
        | zero => exact hearly
        | succ j =>
          rw [hshift]
          exact htime j (by omega)
      · cases j with
        | zero => exact hagain
        | succ j =>
          rw [hshift]
          exact hrest j (by omega)
      · rw [hshift]
        exact hends
      · rw [hshift]
        exact hlast.imp_right fun h => h.imp_left fun h => by omega

theorem not_agreesFrom_of_stops {left i : Nat} (h : Stops deadline clock left i) :
    ¬ AgreesFrom limits deadline clock outcomes left i := by
  rintro ⟨k, hk, htime, -⟩
  have hearly := htime 0 (by omega)
  rcases h with rfl | hlate
  · omega
  · rw [Nat.add_zero] at hearly
    omega

/-- A call that is settled by one attempt and not by the other differs, unless no attempt is
left. -/
theorem settled_ne_again {verdict verdict' : Outcome → Verdict}
    {exhausted exhausted' : Option CallError → CallError} (hc : Crashes verdict exhausted)
    (hc' : Crashes verdict' exhausted') {left i : Nat} {result : Except CallError JsonValue}
    (failure : CallError) {n : Nat} (hv : verdict (outcomes i) = .done result)
    (hroom : ¬ Stops deadline clock left (i + 1)) :
    ¬ (n = n + (attemptLoop verdict' exhausted' deadline clock outcomes left (i + 1)
            (some failure)).1
        ∧ result.mapError CallError.errorClass
          = (attemptLoop verdict' exhausted' deadline clock outcomes left (i + 1)
            (some failure)).2.mapError CallError.errorClass) := by
  rintro ⟨hcount, hclass⟩
  have hzero : (attemptLoop verdict' exhausted' deadline clock outcomes left (i + 1)
      (some failure)).1 = 0 := by
    omega
  rw [attemptLoop_childless hc' left hroom hzero] at hclass
  cases result with
  | ok v => cases hclass
  | error e => exact hc.settles hv (Except.error.inj hclass)

theorem loops_same_iff (left : Nat) :
    ∀ {i : Nat} {last last' : Option CallError},
      SameEnd (attemptLoop (verdictPython limits) exhaustedPython deadline clock outcomes left i
          last)
        (attemptLoop verdictTypescript exhaustedTypescript deadline clock outcomes left i last') ↔
      Stops deadline clock left i
          ∧ (exhaustedPython last).errorClass = (exhaustedTypescript last').errorClass
        ∨ AgreesFrom limits deadline clock outcomes left i := by
  induction left with
  | zero =>
    intro i last last'
    have hstop : Stops deadline clock 0 i := .inl rfl
    rw [attemptLoop_stop hstop, attemptLoop_stop hstop]
    simp [SameEnd, hstop, not_agreesFrom_of_stops hstop, mapError_error]
  | succ left ih =>
    intro i last last'
    by_cases hstop : Stops deadline clock (left + 1) i
    · rw [attemptLoop_stop hstop, attemptLoop_stop hstop]
      simp [SameEnd, hstop, not_agreesFrom_of_stops hstop, mapError_error]
    rw [agreesFrom_succ hstop]
    have hends := endsAlike_iff limits (outcomes i)
    cases hp : verdictPython limits (outcomes i) with
    | done result =>
      cases ht : verdictTypescript (outcomes i) with
      | done result' =>
        rw [attemptLoop_done hstop hp, attemptLoop_done hstop ht]
        rw [hp, ht] at hends
        simp [SameEnd, hstop, SentAgain, Settled, hp, ht, Verdict.isAgain, hends,
          Verdict.endClass, Verdict.last]
      | again failure' =>
        rw [attemptLoop_done hstop hp, attemptLoop_again hstop ht]
        rw [hp, ht] at hends
        by_cases hlast : Stops deadline clock left (i + 1)
        · rw [attemptLoop_stop hlast]
          simp [SameEnd, hstop, hlast, SentAgain, hp, Verdict.isAgain, hends,
            Verdict.endClass, Verdict.last]
        · have hne := settled_ne_again (python_crashes limits) typescript_crashes
            failure' (n := (outcomes i).children) hp hlast
          refine iff_of_false hne ?_
          simp [hstop, hlast, SentAgain, Settled, hp, ht, Verdict.isAgain]
    | again failure =>
      cases ht : verdictTypescript (outcomes i) with
      | done result' =>
        rw [attemptLoop_again hstop hp, attemptLoop_done hstop ht]
        rw [hp, ht] at hends
        by_cases hlast : Stops deadline clock left (i + 1)
        · rw [attemptLoop_stop hlast]
          simp [SameEnd, hstop, hlast, SentAgain, ht, Verdict.isAgain, hends,
            Verdict.endClass, Verdict.last]
        · have hne := settled_ne_again typescript_crashes (python_crashes limits)
            failure (n := (outcomes i).children) ht hlast
          refine iff_of_false (fun h => hne ⟨h.1.symm, h.2.symm⟩) ?_
          simp [hstop, hlast, SentAgain, Settled, hp, ht, Verdict.isAgain]
      | again failure' =>
        rw [attemptLoop_again hstop hp, attemptLoop_again hstop ht]
        rw [hp, ht] at hends
        have hrest := @ih (i + 1) (some failure) (some failure')
        have hsplit : ∀ {a b : Nat × Except CallError JsonValue} {n : Nat},
            SameEnd (n + a.1, a.2) (n + b.1, b.2) ↔ SameEnd a b := fun {a b n} => by
          simp [SameEnd]
        rw [hsplit, hrest]
        simp [hstop, SentAgain, Settled, hp, ht, Verdict.isAgain, hends,
          Verdict.endClass, Verdict.last, mapError_error, and_comm]

end

/-- For which attempt counts, deadlines, clocks and outcomes the two SDKs spawn as many children
and end with the same value or the same class of error: some attempt is begun in time, both SDKs
send again up to one that ends the call alike, and after that one both have settled the call or
none could be begun. -/
theorem callNative_same_iff (limits : PythonLimits) (attempts : Nat) (timeout : Int)
    (clock : Nat → Int) (outcomes : Nat → Outcome) :
    SameEnd (callPython limits attempts timeout clock outcomes)
        (callNative attempts timeout clock outcomes) ↔
      ∃ k < attempts, (∀ j ≤ k, clock (j + 1) < clock 0 + timeout)
        ∧ (∀ j < k, SentAgain limits (outcomes j))
        ∧ EndsAlike limits (outcomes k)
        ∧ (Settled limits (outcomes k) ∨ k + 1 = attempts
          ∨ clock 0 + timeout ≤ clock (k + 2)) := by
  unfold callPython callNative
  rw [loops_same_iff]
  simp only [AgreesFrom, Nat.zero_add]
  constructor
  · rintro (⟨-, hclass⟩ | hagrees)
    · cases hclass
    · exact hagrees
  · intro hagrees
    exact .inr hagrees

/-- A child that answers `null`. -/
def nullAnswer : Outcome := .exited (.code 0) [0x6E, 0x75, 0x6C, 0x6C] []

/-- One SDK returns the answer, and the other reports that there is none. -/
theorem null_answer_differs :
    ¬ SameEnd (callPython ⟨1000, 4300⟩ 1 1 (fun _ => 0) fun _ => nullAnswer)
      (callNative 1 1 (fun _ => 0) fun _ => nullAnswer) := by
  rintro ⟨-, hclass⟩
  have hok := congrArg Except.isOk hclass
  revert hok
  decide +kernel

end Kaleidoscope.Sdk
