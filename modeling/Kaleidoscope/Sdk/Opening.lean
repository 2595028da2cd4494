import Kaleidoscope.Lib.Timed
import Mathlib

/-!
# Opening a memory

`__aenter__` and `__enter__` of the Python SDK's `KaleidoscopeMemory`.  The second hands the
opening to a task of a private event loop, in a thread of its own, and waits for its report.

    opening_fails_alike_iff    both fail alike exactly where what raises is the session's own
                               opening, and is reported in time
-/

namespace Kaleidoscope.Sdk.Opening

open Timed (Job)

variable {E : Type}

/-! ## Steps -/

inductive Phase where
  /-- `resolve_binary`, with the digest of the file -/
  | locate
  /-- `load_launch_descriptor` -/
  | load
  /-- the constructor of `PersistentKaleidoscopeSession` -/
  | construct
  /-- the import of `mcp` and `entitlement_preflight` -/
  | preflight
  /-- from the parameters of the child to its initialization -/
  | spawn
  /-- `_assert_exact_tools` -/
  | discover
  deriving DecidableEq

/-- The child is waited for on the loop; all that comes before runs in one go. -/
def Phase.suspends : Phase → Bool
  | .spawn => true
  | .discover => true
  | _ => false

/-- How the steps of one opening go. -/
structure Course (E : Type) where
  takes : Phase → Nat
  raises : Phase → Option E
  /-- the closing of the stack after a failure, which ends the child -/
  closing : Nat
  /-- the `EntitlementError` that the child's diagnostics amount to -/
  refusal : Option E

/-- What is held for a memory: `self._descriptor`, `self._session`, the thread of the private
loop, and the child. -/
structure Held where
  descriptor : Bool
  session : Bool
  loop : Bool
  child : Bool
  deriving DecidableEq

def Held.Clean (held : Held) : Prop :=
  held.session = false ∧ held.loop = false ∧ held.child = false

abbrev Coroutine (E : Type) := ExceptT E (Job Held)

def act (effect : Held → Held) : Coroutine E Unit := ExceptT.lift (Job.act effect)

def run (course : Course E) (phase : Phase) : Coroutine E Unit :=
  ExceptT.mk (.step (course.takes phase) phase.suspends id (.done
    (match course.raises phase with
      | some e => .error e
      | none => .ok ())))

/-! ## Both ways -/

/-- The property `descriptor`, loaded unless it is `cached`. -/
def descriptor (course : Course E) (cached : Bool) : Coroutine E Unit :=
  if cached then pure ()
  else do
    run course .locate
    run course .load
    act fun held => { held with descriptor := true }

/-- `PersistentKaleidoscopeSession.__aenter__` -/
def sessionAenter (course : Course E) : Coroutine E Unit := do
  run course .preflight
  tryCatch
    (do
      act fun held => { held with child := true }
      run course .spawn
      run course .discover)
    fun e => do
      ExceptT.lift (.step course.closing true (fun held => { held with child := false }) (.done ()))
      throw (course.refusal.getD e)

/-- `PersistentKaleidoscopeSession(self.descriptor, …)` -/
def newSession (course : Course E) (cached : Bool) : Coroutine E Unit := do
  descriptor course cached
  run course .construct

/-- `KaleidoscopeMemory.__aenter__`, after the entry is claimed -/
def aenter (course : Course E) (cached : Bool) : Coroutine E Unit := do
  newSession course cached
  sessionAenter course
  act fun held => { held with session := true }

/-- How the owner task stands when it has opened or failed to open. -/
inductive Report (E : Type) where
  | opened
  /-- in the list, with the event set -/
  | failure (e : E)
  /-- nowhere but in the task, whose event stays unset -/
  | unseen (e : E)

/-- `_own_session`, up to where it parks -/
def ownSession (course : Course E) (cached : Bool) : Job Held (Report E) := do
  match ← (newSession course cached).run with
  | .error e => return .unseen e
  | .ok () =>
    match ← (sessionAenter course).run with
    | .error e => return .failure e
    | .ok () => do
      Job.act fun held => { held with session := true }
      return .opened

/-- What a caller sees. -/
inductive Raised (E : Type) where
  | step (e : E)
  /-- `ChildProcessError("the Kaleidoscope session did not open in time")` -/
  | notInTime
  /-- `ChildProcessError`: the session thread did not stop -/
  | notStopped

/-- `thread.join(timeout=10.0)`, in milliseconds -/
def joinTimeout : Nat := 10000

/-- `_stop_loop` where the owner task is at `rest` -/
def stopLoop {α : Type} (rest : Job Held α) (raised : Raised E) (held : Held) :
    Except (Raised E) Unit × Held :=
  match rest.drain joinTimeout held with
  | some held => (.error raised, { held with loop := false })
  | none => (.error .notStopped, held)

/-- `__enter__` once the loop runs: `opened.wait` lasts `timeout` milliseconds and five seconds. -/
def enter (course : Course E) (cached : Bool) (timeout : Nat) : Except (Raised E) Unit × Held :=
  match (ownSession course cached).within (timeout + 5000) ⟨cached, false, true, false⟩ with
  | (.done .opened, held) => (.ok (), held)
  | (.done (.failure e), held) => stopLoop (.done ()) (.step e) held
  | (.done (.unseen _), held) => stopLoop (.done ()) .notInTime held
  | (.step takes suspends effect rest, held) =>
    stopLoop (.step takes suspends effect rest) .notInTime held

/-- `async with` -/
def asyncEnter (course : Course E) (cached : Bool) : Except (Raised E) Unit × Held :=
  let opening := (aenter course cached).run
  (opening.result.mapError .step, opening.final ⟨cached, false, false, false⟩)

/-! ## Statement -/

/-- Whatever exception `async with` raises `with` raises too, and nothing is held after either. -/
def FailsAlike (course : Course E) (cached : Bool) (timeout : Nat) : Prop :=
  ∀ raised, (asyncEnter course cached).1 = .error raised →
    (enter course cached timeout).1 = .error raised
      ∧ (asyncEnter course cached).2.Clean ∧ (enter course cached timeout).2.Clean

def sessionPhases : List Phase := [.preflight, .spawn, .discover]

/-- The steps before the session's own opening. -/
def newSessionPhases (cached : Bool) : List Phase :=
  if cached then [.construct] else [.locate, .load, .construct]

def firstRaising (course : Course E) (phases : List Phase) : Option Phase :=
  phases.find? fun phase => (course.raises phase).isSome

/-- The time until a step of the session's own opening has raised and what was opened before it
is closed. -/
def reportTime (course : Course E) (cached : Bool) (phase : Phase) : Nat :=
  (((newSessionPhases cached ++ sessionPhases).takeWhile (· ≠ phase)).map course.takes).sum
    + course.takes phase + if phase.suspends then course.closing else 0

/-! ## Lemmas -/

variable {course : Course E} {cached : Bool}

theorem run_ok {phase : Phase} (h : course.raises phase = none) :
    run course phase
      = ExceptT.mk (.step (course.takes phase) phase.suspends id (.done (.ok ()))) := by
  unfold run
  rw [h]

theorem run_error {phase : Phase} {e : E} (h : course.raises phase = some e) :
    run course phase
      = ExceptT.mk (.step (course.takes phase) phase.suspends id (.done (.error e))) := by
  unfold run
  rw [h]

theorem firstRaising_none {phase : Phase} (phases : List Phase)
    (h : course.raises phase = none) :
    firstRaising course (phase :: phases) = firstRaising course phases := by
  unfold firstRaising
  rw [List.find?_cons, h]
  rfl

theorem firstRaising_some {phase : Phase} {e : E} (phases : List Phase)
    (h : course.raises phase = some e) : firstRaising course (phase :: phases) = some phase := by
  unfold firstRaising
  rw [List.find?_cons, h]
  rfl

/-- All that is held but for the descriptor is the same. -/
def Held.Same (held held' : Held) : Prop :=
  held'.session = held.session ∧ held'.loop = held.loop ∧ held'.child = held.child

/-- A session is made. -/
structure Made (course : Course E) (cached : Bool) : Prop where
  none_raises : firstRaising course (newSessionPhases cached) = none
  result : (newSession course cached).run.result = .ok ()
  time : (newSession course cached).run.time = ((newSessionPhases cached).map course.takes).sum
  final : ∀ held : Held, held.Same ((newSession course cached).run.final held)

theorem newSession_cached (course : Course E) :
    Made course true
      ∨ ∃ phase e, firstRaising course (newSessionPhases true) = some phase
          ∧ (newSession course true).run.result = .error e := by
  cases h : course.raises .construct with
  | some e =>
    refine .inr ⟨_, e, firstRaising_some [] h, ?_⟩
    unfold newSession descriptor
    rw [run_error h]
    rfl
  | none =>
    have hrun : (newSession course true).run
        = .step (course.takes .construct) false id (.done (.ok ())) := by
      unfold newSession descriptor
      rw [run_ok h]
      rfl
    refine .inl ⟨firstRaising_none [] h, ?_, ?_, fun held => ?_⟩
    · rw [hrun]; rfl
    · rw [hrun]; rfl
    · rw [hrun]; exact ⟨rfl, rfl, rfl⟩

theorem newSession_loaded (course : Course E) :
    Made course false
      ∨ ∃ phase e, firstRaising course (newSessionPhases false) = some phase
          ∧ (newSession course false).run.result = .error e := by
  have hphases : newSessionPhases false = [.locate, .load, .construct] := rfl
  have hunfold : newSession course false = (do
      (do run course .locate; run course .load; act fun held => { held with descriptor := true })
      run course .construct) := rfl
  cases hlocate : course.raises .locate with
  | some e =>
    refine .inr ⟨_, e, firstRaising_some _ hlocate, ?_⟩
    rw [hunfold, run_error hlocate]
    rfl
  | none =>
    cases hload : course.raises .load with
    | some e =>
      refine .inr ⟨.load, e, ?_, ?_⟩
      · rw [hphases, firstRaising_none _ hlocate, firstRaising_some _ hload]
      · rw [hunfold, run_ok hlocate, run_error hload]
        rfl
    | none =>
      cases hconstruct : course.raises .construct with
      | some e =>
        refine .inr ⟨.construct, e, ?_, ?_⟩
        · rw [hphases, firstRaising_none _ hlocate, firstRaising_none _ hload,
            firstRaising_some _ hconstruct]
        · rw [hunfold, run_ok hlocate, run_ok hload, run_error hconstruct]
          rfl
      | none =>
        have hrun : (newSession course false).run
            = .step (course.takes .locate) false id (.step (course.takes .load) false id
                (.step 0 false (fun held => { held with descriptor := true })
                  (.step (course.takes .construct) false id (.done (.ok ()))))) := by
          rw [hunfold, run_ok hlocate, run_ok hload, run_ok hconstruct]
          rfl
        refine .inl ⟨?_, ?_, ?_, fun held => ?_⟩
        · rw [hphases, firstRaising_none _ hlocate, firstRaising_none _ hload,
            firstRaising_none _ hconstruct]
          rfl
        · rw [hrun]; rfl
        · rw [hrun, hphases]
          simp only [Job.time, List.map_cons, List.map_nil, List.sum_cons, List.sum_nil]
          omega
        · rw [hrun]; exact ⟨rfl, rfl, rfl⟩

/-- A session is made, or a step of its making raises. -/
theorem newSession_spec (course : Course E) (cached : Bool) :
    Made course cached
      ∨ ∃ phase e, firstRaising course (newSessionPhases cached) = some phase
          ∧ (newSession course cached).run.result = .error e := by
  cases cached with
  | true => exact newSession_cached course
  | false => exact newSession_loaded course

/-- The time from the preflight on until a step has raised and the child is closed. -/
def sessionTime (course : Course E) (phase : Phase) : Nat :=
  ((sessionPhases.takeWhile (· ≠ phase)).map course.takes).sum + course.takes phase
    + if phase.suspends then course.closing else 0

/-- A session's own opening fails at a step, and ends its child. -/
structure Failed (course : Course E) (phase : Phase) (e : E) : Prop where
  raises : firstRaising course sessionPhases = some phase
  result : (sessionAenter course).run.result = .error e
  time : (sessionAenter course).run.time = sessionTime course phase
  final : ∀ held : Held, held.child = false → held.Same ((sessionAenter course).run.final held)

/-- A session opens, or one of its steps raises. -/
theorem sessionAenter_spec (course : Course E) :
    (firstRaising course sessionPhases = none ∧ (sessionAenter course).run.result = .ok ())
      ∨ ∃ phase e, Failed course phase e := by
  have hphases : sessionPhases = [.preflight, .spawn, .discover] := rfl
  cases hpreflight : course.raises .preflight with
  | some e =>
    have hrun : (sessionAenter course).run
        = .step (course.takes .preflight) false id (.done (.error e)) := by
      unfold sessionAenter
      rw [run_error hpreflight]
      rfl
    refine .inr ⟨.preflight, e, firstRaising_some _ hpreflight, ?_, ?_, fun held _ => ?_⟩
    · rw [hrun]; rfl
    · rw [hrun]
      show _ = 0 + _ + 0
      rw [Job.time, Job.time, Nat.add_zero, Nat.add_zero, Nat.zero_add]
    · rw [hrun]; exact ⟨rfl, rfl, rfl⟩
  | none =>
    cases hspawn : course.raises .spawn with
    | some e =>
      have hrun : (sessionAenter course).run
          = .step (course.takes .preflight) false id
              (.step 0 false (fun held => { held with child := true })
                (.step (course.takes .spawn) true id
                  (.step course.closing true (fun held => { held with child := false })
                    (.done (.error (course.refusal.getD e)))))) := by
        unfold sessionAenter
        rw [run_ok hpreflight, run_error hspawn]
        rfl
      refine .inr ⟨.spawn, course.refusal.getD e, ?_, ?_, ?_, fun held hchild => ?_⟩
      · rw [hphases, firstRaising_none _ hpreflight, firstRaising_some _ hspawn]
      · rw [hrun]; rfl
      · rw [hrun]
        simp [Job.time, sessionTime, sessionPhases, Phase.suspends]
        omega
      · rw [hrun]; exact ⟨rfl, rfl, hchild.symm⟩
    | none =>
      cases hdiscover : course.raises .discover with
      | some e =>
        have hrun : (sessionAenter course).run
            = .step (course.takes .preflight) false id
                (.step 0 false (fun held => { held with child := true })
                  (.step (course.takes .spawn) true id
                    (.step (course.takes .discover) true id
                      (.step course.closing true (fun held => { held with child := false })
                        (.done (.error (course.refusal.getD e))))))) := by
          unfold sessionAenter
          rw [run_ok hpreflight, run_ok hspawn, run_error hdiscover]
          rfl
        refine .inr ⟨.discover, course.refusal.getD e, ?_, ?_, ?_, fun held hchild => ?_⟩
        · rw [hphases, firstRaising_none _ hpreflight, firstRaising_none _ hspawn,
            firstRaising_some _ hdiscover]
        · rw [hrun]; rfl
        · rw [hrun]
          simp [Job.time, sessionTime, sessionPhases, Phase.suspends]
          omega
        · rw [hrun]; exact ⟨rfl, rfl, hchild.symm⟩
      | none =>
        refine .inl ⟨?_, ?_⟩
        · rw [hphases, firstRaising_none _ hpreflight, firstRaising_none _ hspawn,
            firstRaising_none _ hdiscover]
          rfl
        · unfold sessionAenter
          rw [run_ok hpreflight, run_ok hspawn, run_ok hdiscover]
          rfl

theorem newSessionPhases_disjoint {phase : Phase} (h : phase ∈ newSessionPhases cached) :
    phase ∉ sessionPhases := by
  revert h
  cases cached <;> cases phase <;> decide

theorem reportTime_eq {phase : Phase} (h : phase ∈ sessionPhases) :
    reportTime course cached phase
      = ((newSessionPhases cached).map course.takes).sum + sessionTime course phase := by
  unfold reportTime sessionTime
  have hout : ∀ other ∈ newSessionPhases cached, decide (other ≠ phase) = true := by
    intro other hother
    refine decide_eq_true fun heq => ?_
    rw [heq] at hother
    exact newSessionPhases_disjoint hother h
  rw [List.takeWhile_append_of_pos hout, List.map_append, List.sum_append]
  omega

/-! ### The two openings -/

theorem ownSession_eq (course : Course E) (cached : Bool) :
    ownSession course cached = (newSession course cached).run.bind fun
      | .error e => .done (.unseen e)
      | .ok () => (sessionAenter course).run.bind fun
        | .error e => .done (.failure e)
        | .ok () => .step 0 false (fun held => { held with session := true })
            (.done .opened) := rfl

theorem aenter_eq (course : Course E) (cached : Bool) :
    (aenter course cached).run = (newSession course cached).run.bind fun
      | .error e => .done (.error e)
      | .ok () => (sessionAenter course).run.bind fun
        | .error e => .done (.error e)
        | .ok () => .step 0 false (fun held => { held with session := true })
            (.done (.ok ())) := by
  refine congrArg (Job.bind (newSession course cached).run) (funext fun made => ?_)
  cases made with
  | error e => rfl
  | ok _ =>
    refine congrArg (Job.bind (sessionAenter course).run) (funext fun opened => ?_)
    cases opened with
    | error e => rfl
    | ok _ => rfl

theorem asyncEnter_raises {e : E} (h : (aenter course cached).run.result = .error e) :
    (asyncEnter course cached).1 = .error (.step e) := by
  show ((aenter course cached).run.result).mapError Raised.step = _
  rw [h]
  rfl

/-! Where the making of the session raises. -/

theorem ownSession_unmade {e : E} (h : (newSession course cached).run.result = .error e) :
    (ownSession course cached).result = .unseen e := by
  rw [ownSession_eq, Job.result_bind, h]
  rfl

theorem aenter_unmade {e : E} (h : (newSession course cached).run.result = .error e) :
    (aenter course cached).run.result = .error e := by
  rw [aenter_eq, Job.result_bind, h]
  rfl

/-! Where the session's own opening raises. -/

theorem ownSession_failed {phase : Phase} {e : E} (hmade : Made course cached)
    (hfailed : Failed course phase e) : (ownSession course cached).result = .failure e := by
  rw [ownSession_eq, Job.result_bind, hmade.result]
  dsimp only
  rw [Job.result_bind, hfailed.result]
  rfl

theorem aenter_failed {phase : Phase} {e : E} (hmade : Made course cached)
    (hfailed : Failed course phase e) : (aenter course cached).run.result = .error e := by
  rw [aenter_eq, Job.result_bind, hmade.result]
  dsimp only
  rw [Job.result_bind, hfailed.result]
  rfl

theorem ownSession_time {phase : Phase} {e : E} (hmade : Made course cached)
    (hfailed : Failed course phase e) :
    (ownSession course cached).time = reportTime course cached phase := by
  have hmem : phase ∈ sessionPhases := List.mem_of_find?_eq_some hfailed.raises
  rw [reportTime_eq hmem, ← hmade.time, ← hfailed.time, ownSession_eq, Job.time_bind, hmade.result]
  dsimp only
  rw [Job.time_bind, hfailed.result]
  rfl

theorem Held.Same.trans {a b c : Held} (hab : a.Same b) (hbc : b.Same c) : a.Same c :=
  ⟨hbc.1.trans hab.1, hbc.2.1.trans hab.2.1, hbc.2.2.trans hab.2.2⟩

theorem ownSession_final {phase : Phase} {e : E} (hmade : Made course cached)
    (hfailed : Failed course phase e) {held : Held} (hchild : held.child = false) :
    held.Same ((ownSession course cached).final held) := by
  have hsession := hmade.final held
  have hopening := hfailed.final _ (hsession.2.2.trans hchild)
  rw [ownSession_eq, Job.final_bind, hmade.result]
  dsimp only
  rw [Job.final_bind, hfailed.result]
  exact hsession.trans hopening

theorem aenter_final {phase : Phase} {e : E} (hmade : Made course cached)
    (hfailed : Failed course phase e) {held : Held} (hchild : held.child = false) :
    held.Same ((aenter course cached).run.final held) := by
  have hsession := hmade.final held
  have hopening := hfailed.final _ (hsession.2.2.trans hchild)
  rw [aenter_eq, Job.final_bind, hmade.result]
  dsimp only
  rw [Job.final_bind, hfailed.result]
  exact hsession.trans hopening

/-! Where no step raises. -/

theorem asyncEnter_opened (hmade : Made course cached)
    (hopened : (sessionAenter course).run.result = .ok ()) :
    (asyncEnter course cached).1 = .ok () := by
  show ((aenter course cached).run.result).mapError Raised.step = _
  rw [aenter_eq, Job.result_bind, hmade.result]
  dsimp only
  rw [Job.result_bind, hopened]
  rfl

/-! ### What the caller of `__enter__` sees -/

theorem stopLoop_ne_step {rest : Job Held (Report E)} {raised : Raised E} {held : Held} {e : E}
    (h : raised ≠ .step e) : (stopLoop rest raised held).1 ≠ .error (.step e) := by
  unfold stopLoop
  cases rest.drain joinTimeout held with
  | some held => exact fun heq => h (Except.error.inj heq)
  | none => exact fun heq => nomatch heq

/-- An owner that is not at its end by then is given up. -/
theorem enter_late {timeout : Nat} (h : timeout + 5000 < (ownSession course cached).time) (e : E) :
    (enter course cached timeout).1 ≠ .error (.step e) := by
  obtain ⟨takes, suspends, effect, rest, held, hwithin⟩ :=
    Job.within_of_lt (ownSession course cached) ⟨cached, false, true, false⟩ h
  unfold enter
  rw [hwithin]
  exact stopLoop_ne_step fun heq => nomatch heq

/-- An exception that only the task has never reaches the caller. -/
theorem enter_unseen {timeout : Nat} {e' : E} (h : (ownSession course cached).result = .unseen e')
    (e : E) : (enter course cached timeout).1 ≠ .error (.step e) := by
  by_cases htime : (ownSession course cached).time ≤ timeout + 5000
  · unfold enter
    rw [Job.within_of_le _ _ htime, h]
    exact fun heq => nomatch heq
  · exact enter_late (by omega) e

theorem enter_failure {timeout : Nat} {e : E} (h : (ownSession course cached).result = .failure e)
    (htime : (ownSession course cached).time ≤ timeout + 5000) :
    enter course cached timeout = (.error (.step e),
      { (ownSession course cached).final ⟨cached, false, true, false⟩ with loop := false }) := by
  unfold enter
  rw [Job.within_of_le _ _ htime, h]
  rfl

/-! ## Both fail alike where the session's own opening is at fault -/

/-- Whatever exception `async with` raises, `with` raises it too and neither leaves anything
behind, exactly where the first step that raises is one of the session's own opening and the
failure is reported before the wait for it is over. -/
theorem opening_fails_alike_iff (course : Course E) (cached : Bool) (timeout : Nat) :
    FailsAlike course cached timeout
      ↔ ∀ phase, firstRaising course (newSessionPhases cached ++ sessionPhases) = some phase →
          phase ∈ sessionPhases ∧ reportTime course cached phase ≤ timeout + 5000 := by
  have happend : firstRaising course (newSessionPhases cached ++ sessionPhases)
      = (firstRaising course (newSessionPhases cached)).or
          (firstRaising course sessionPhases) := List.find?_append
  rcases newSession_spec course cached with hmade | ⟨phase, e, hfirst, hresult⟩
  · rcases sessionAenter_spec course with ⟨hnone, hopened⟩ | ⟨phase, e, hfailed⟩
    · -- no step raises
      rw [happend, hmade.none_raises, hnone]
      refine ⟨fun _ phase h => (by cases h), fun _ raised h => ?_⟩
      rw [asyncEnter_opened hmade hopened] at h
      cases h
    · -- the session's own opening raises
      rw [happend, hmade.none_raises, hfailed.raises]
      have hasync := asyncEnter_raises (aenter_failed hmade hfailed)
      have htime := ownSession_time hmade hfailed
      constructor
      · intro h other hother
        cases hother
        refine ⟨List.mem_of_find?_eq_some hfailed.raises, ?_⟩
        by_contra hlate
        exact enter_late (by omega) e (h _ hasync).1
      · intro h raised hraised
        rw [hasync] at hraised
        cases hraised
        have hintime := (h phase rfl).2
        rw [enter_failure (ownSession_failed hmade hfailed) (by omega)]
        have hasyncHeld : Held.Same ⟨cached, false, false, false⟩ _ :=
          aenter_final hmade hfailed rfl
        have hheld : Held.Same ⟨cached, false, true, false⟩ _ :=
          ownSession_final hmade hfailed rfl
        exact ⟨rfl, hasyncHeld, hheld.1, rfl, hheld.2.2⟩
  · -- the making of the session raises, where nothing catches it
    rw [happend, hfirst]
    constructor
    · intro h
      exact absurd (h _ (asyncEnter_raises (aenter_unmade hresult))).1
        (enter_unseen (ownSession_unmade hresult) e)
    · intro h
      have hout := (h phase rfl).1
      exact absurd hout (newSessionPhases_disjoint (List.mem_of_find?_eq_some hfirst))

/-- An engine that is not installed: `locate_engine` raises at once. -/
def missingEngine : Course String where
  takes _ := 0
  raises
    | .locate => some "MissingBinaryError"
    | _ => none
  closing := 0
  refusal := none

/-- `async with` says that the engine is missing; `with` says, after the whole wait, that the
session did not open in time. -/
theorem opening_missing_engine : ¬FailsAlike missingEngine false 30000 := by
  intro h
  have hasync : (asyncEnter missingEngine false).1 = .error (.step "MissingBinaryError") := rfl
  have hsync := (h _ hasync).1
  have hother : (enter missingEngine false 30000).1 = .error .notInTime := rfl
  rw [hother] at hsync
  cases hsync

end Kaleidoscope.Sdk.Opening
