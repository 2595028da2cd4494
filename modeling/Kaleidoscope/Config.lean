import Mathlib.Data.List.Permutation
import Kaleidoscope.Account.Model
import Kaleidoscope.Lib.BTree
import Kaleidoscope.Lib.Pool
import Kaleidoscope.FsSafe

/-!
# The manager configuration

One file, `manager.json`, that every command reads whole, changes and writes back.  An update
loads it, and `save` takes a snapshot of its own, locks, compares the file with that snapshot
and writes.  The steps of several processes interleave.

    saves_serial    the file is as if the saved updates had run one after the other, as long as
                    each write finds that its save started from what the update had loaded
-/

namespace Kaleidoscope.ConfigStore

open Prog Disk

def managerConfigVersion : Nat := 2
def legacyManagerConfigVersion : Nat := 1
def maxManagerConfigBytes : Nat := 64 * 1024

structure ManagerConfig where
  version : Nat
  activeProfile : Option Text
  accountBindings : BTreeMap Text Account.Uuid
  installedProjects : BTreeSet PosixPath
  deriving DecidableEq

namespace ManagerConfig

/-- `ManagerConfig::default`. -/
def initial : ManagerConfig :=
  { version := managerConfigVersion, activeProfile := none, accountBindings := [],
    installedProjects := [] }

def validateActive : Option Text → Result Unit
  | some profile => validateProfileName profile
  | none => .ok ()

def validateBinding (binding : Text × Account.Uuid) : Result Unit := do
  validateProfileName binding.1
  rejectIf binding.2.isNil (.invalidManagerConfig "profile account binding is invalid")

def validateProject (project : PosixPath) : Result Unit :=
  rejectIf (!project.absolute) (.invalidManagerConfig "installed project path is not absolute")

def validate (config : ManagerConfig) : Result Unit := do
  rejectIf (config.version ≠ legacyManagerConfigVersion ∧ config.version ≠ managerConfigVersion)
    (.invalidManagerConfig "unsupported version")
  validateActive config.activeProfile
  config.installedProjects.forM validateProject
  config.accountBindings.forM validateBinding

end ManagerConfig

/-- What the digest and the JSON crates compute. -/
structure Codec where
  digestBytes : Bytes → Text
  fromSlice : Bytes → Option ManagerConfig
  toVecPretty : ManagerConfig → Option Bytes

/-! ## Steps -/

/-- The three places that take a snapshot of the file. -/
inductive Reading where
  | load
  | save
  | compare
  deriving DecidableEq

inductive ConfigEvent where
  | snapshot (reading : Reading)
  | acquire
  | write (bytes : Bytes)
  | release

abbrev ConfigEvent.Answer : ConfigEvent → Type
  | .snapshot _ => Result Snapshot
  | .acquire => Result Unit
  | .write _ => Result Unit
  | .release => Unit

abbrev ConfigProg := Prog ConfigEvent ConfigEvent.Answer ManagerError

def readConfig (reading : Reading) : ConfigProg Snapshot := do
  ofExcept (← ask (.snapshot reading))

def acquire : ConfigProg Unit := do
  ofExcept (← ask .acquire)

def write (bytes : Bytes) : ConfigProg Unit := do
  ofExcept (← ask (.write bytes))

section

variable (codec : Codec)

/-- The configuration that a snapshot holds. -/
def decode (snapshot : Snapshot) : Result ManagerConfig :=
  match snapshot.bytes with
  | none => .ok .initial
  | some bytes =>
    match codec.fromSlice bytes with
    | none => .error (.invalidManagerConfig "malformed JSON")
    | some config => do
      config.validate
      return if config.version = legacyManagerConfigVersion then
        { config with version := managerConfigVersion } else config

/-- The configuration as `save` checks it. -/
def upgraded (config : ManagerConfig) : Result ManagerConfig := do
  let config := { config with version := managerConfigVersion }
  config.validate
  return config

def encode (config : ManagerConfig) : Result Bytes :=
  match codec.toVecPretty config with
  | none => .error (.invalidManagerConfig "cannot encode JSON")
  | some bytes => .ok (bytes.push 10)

def load : ConfigProg ManagerConfig := do
  let snapshot ← readConfig .load
  ofExcept (decode codec snapshot)

/-- What `save` does while it holds the lock. -/
def saveLocked (config : ManagerConfig) (original : Snapshot) : ConfigProg Unit := do
  let found ← readConfig .compare
  failIf (found ≠ original) .concurrentEdit
  let bytes ← ofExcept (encode codec config)
  write bytes

def save (config : ManagerConfig) : ConfigProg Unit := do
  let config ← ofExcept (upgraded config)
  let original ← readConfig .save
  acquire
  ensuring (saveLocked codec config original) (ask .release)

/-! ## Updates -/

/-- Load, change and save; the new configuration is the result. -/
def update (change : ManagerConfig → ManagerConfig) : ConfigProg ManagerConfig := do
  let config ← load codec
  save codec (change config)
  return change config

/-- Load, change and save where there is something to save; every error is dropped. -/
def bestEffort (change : ManagerConfig → Option ManagerConfig) : ConfigProg Unit := do
  match ← (attempt (load codec) : ConfigProg (Result ManagerConfig)) with
  | .error _ => return ()
  | .ok config =>
    match change config with
    | none => return ()
    | some config => do
      let _ ← (attempt (save codec config) : ConfigProg (Result Unit))
      return ()

def insertProject (project : PosixPath) (config : ManagerConfig) : Option ManagerConfig :=
  if project ∈ config.installedProjects then none
  else some { config with installedProjects := config.installedProjects.insert project }

def registerProject (project : PosixPath) : ConfigProg Unit :=
  bestEffort codec (insertProject project)

def retainProjects (project : PosixPath) (keeps : PosixPath → Bool) (config : ManagerConfig) :
    Option ManagerConfig :=
  let retained := config.installedProjects.filter fun candidate =>
    candidate ≠ project && keeps candidate
  if retained.length = config.installedProjects.length then none
  else some { config with installedProjects := retained }

def forgetProject (project : PosixPath) (keeps : PosixPath → Bool) : ConfigProg Unit :=
  bestEffort codec (retainProjects project keeps)

def activate (profile : Option Text) (config : ManagerConfig) : ManagerConfig :=
  { config with activeProfile := profile }

def setActiveProfile (profile : Option Text) : ConfigProg ManagerConfig := do
  ofExcept (ManagerConfig.validateActive profile)
  update codec (activate profile)

def bindAccount (profile : Text) (accountId : Account.Uuid) (config : ManagerConfig) :
    ManagerConfig :=
  { config with accountBindings := config.accountBindings.insert profile accountId }

def bindProfileAccount (profile : Text) (accountId : Account.Uuid) :
    ConfigProg ManagerConfig := do
  ofExcept (ManagerConfig.validateBinding (profile, accountId))
  update codec (bindAccount profile accountId)

def unbindAccount (profile : Text) (config : ManagerConfig) : ManagerConfig :=
  { config with accountBindings := config.accountBindings.remove profile }

def unbindProfileAccount (profile : Text) : ConfigProg ManagerConfig := do
  ofExcept (validateProfileName profile)
  update codec (unbindAccount profile)

def deactivate (profile : Text) (config : ManagerConfig) : ManagerConfig :=
  if config.activeProfile = some profile then { config with activeProfile := none } else config

def forgetProfile (profile : Text) : ConfigProg ManagerConfig := do
  ofExcept (validateProfileName profile)
  update codec fun config => unbindAccount profile (deactivate profile config)

inductive Operation where
  | setActiveProfile (profile : Option Text)
  | bindProfileAccount (profile : Text) (accountId : Account.Uuid)
  | unbindProfileAccount (profile : Text)
  | forgetProfile (profile : Text)
  | registerProject (project : PosixPath)
  /-- `keeps` is what the probe of each project says -/
  | forgetProject (project : PosixPath) (keeps : PosixPath → Bool)

/-- What a process runs for an operation; the returned configuration is dropped. -/
def Operation.program : Operation → ConfigProg Unit
  | .setActiveProfile profile => do let _ ← ConfigStore.setActiveProfile codec profile
  | .bindProfileAccount profile accountId => do
    let _ ← ConfigStore.bindProfileAccount codec profile accountId
  | .unbindProfileAccount profile => do let _ ← ConfigStore.unbindProfileAccount codec profile
  | .forgetProfile profile => do let _ ← ConfigStore.forgetProfile codec profile
  | .registerProject project => ConfigStore.registerProject codec project
  | .forgetProject project keeps => ConfigStore.forgetProject codec project keeps

/-! ## What an update writes -/

/-- The arguments that an operation refuses before it loads anything. -/
def Operation.check : Operation → Result Unit
  | .setActiveProfile profile => ManagerConfig.validateActive profile
  | .bindProfileAccount profile accountId => ManagerConfig.validateBinding (profile, accountId)
  | .unbindProfileAccount profile => validateProfileName profile
  | .forgetProfile profile => validateProfileName profile
  | .registerProject _ => .ok ()
  | .forgetProject _ _ => .ok ()

/-- What an operation makes of a configuration; `none` where it has nothing to save. -/
def Operation.change : Operation → ManagerConfig → Option ManagerConfig
  | .setActiveProfile profile, config => some (activate profile config)
  | .bindProfileAccount profile accountId, config => some (bindAccount profile accountId config)
  | .unbindProfileAccount profile, config => some (unbindAccount profile config)
  | .forgetProfile profile, config => some (unbindAccount profile (deactivate profile config))
  | .registerProject project, config => insertProject project config
  | .forgetProject project keeps, config => retainProjects project keeps config

/-- The bytes that an operation writes after it loaded a snapshot. -/
def Operation.written (operation : Operation) (loaded : Snapshot) : Option Bytes := do
  operation.check.toOption
  let config ← (decode codec loaded).toOption
  let changed ← operation.change config
  let upgraded ← (upgraded changed).toOption
  (encode codec upgraded).toOption

/-- A snapshot of the file. -/
def snapshotFile (file : Option Node) : Result Snapshot :=
  snapshotOf codec.digestBytes maxManagerConfigBytes "manager configuration" file

/-- The file as it is once a write has published the bytes. -/
def published (bytes : Bytes) : Option Node := some (.file bytes 0o600)

/-- The environment of an operation that runs alone. -/
def alone (file : Option Node) : (e : ConfigEvent) → e.Answer × Option Node
  | .snapshot _ => (snapshotFile codec file, file)
  | .acquire => (.ok (), file)
  | .write bytes => (.ok (), published bytes)
  | .release => ((), file)

/-- What an operation that runs alone leaves in the file. -/
def execute (operation : Operation) (file : Option Node) : Option Node :=
  match run (alone codec) (operation.program codec) file with
  | some (_, file') => file'
  | none => file

variable {codec} {loaded : Snapshot} {file : Option Node}

theorem toOption_eq_some {α : Type} {r : Result α} {a : α} : r.toOption = some a ↔ r = .ok a := by
  cases r <;> simp [Except.toOption]

theorem written_eq_some {operation : Operation} {bytes : Bytes} :
    operation.written codec loaded = some bytes ↔
      operation.check = .ok () ∧ ∃ config changed final, decode codec loaded = .ok config
        ∧ operation.change config = some changed ∧ upgraded changed = .ok final
        ∧ encode codec final = .ok bytes := by
  simp only [Operation.written, Option.bind_eq_bind, Option.bind_eq_some_iff, toOption_eq_some]
  constructor
  · rintro ⟨_, hcheck, config, hdecode, changed, hchange, final, hfinal, hbytes⟩
    exact ⟨hcheck, config, changed, final, hdecode, hchange, hfinal, hbytes⟩
  · rintro ⟨hcheck, config, changed, final, hdecode, hchange, hfinal, hbytes⟩
    exact ⟨(), hcheck, config, hdecode, changed, hchange, final, hfinal, hbytes⟩

theorem save_alone {config final : ManagerConfig} {bytes : Bytes}
    (hs : snapshotFile codec file = .ok loaded) (hfinal : upgraded config = .ok final)
    (hbytes : encode codec final = .ok bytes) :
    Yields (alone codec) (fun r file' => r = .ok () ∧ file' = published bytes)
      (save codec config) file := by
  unfold save
  rw [hfinal]
  refine yields_ask_bind.mpr ?_
  simp only [alone, hs]
  refine yields_ask_bind.mpr (yields_ensuring ?_)
  unfold saveLocked
  refine yields_ask_bind.mpr ?_
  simp only [alone, hs]
  refine yields_failIf_bind (fun _ => ?_) fun h => absurd rfl h
  rw [hbytes]
  exact yields_ask_bind.mpr ⟨_, _, rfl, _, _, rfl, rfl, rfl⟩

theorem load_alone {config : ManagerConfig} (hs : snapshotFile codec file = .ok loaded)
    (hdecode : decode codec loaded = .ok config) :
    Yields (alone codec) (fun r file' => r = .ok config ∧ file' = file) (load codec) file := by
  refine yields_ask_bind.mpr ?_
  simp only [alone, hs]
  exact yields_ofExcept.mpr ⟨hdecode, rfl⟩

theorem update_alone {change : ManagerConfig → ManagerConfig} {config final : ManagerConfig}
    {bytes : Bytes} (hs : snapshotFile codec file = .ok loaded)
    (hdecode : decode codec loaded = .ok config) (hfinal : upgraded (change config) = .ok final)
    (hbytes : encode codec final = .ok bytes) :
    Yields (alone codec) (fun _ file' => file' = published bytes)
      (update codec change >>= fun _ => pure ()) file := by
  unfold update
  simp only [bind_assoc]
  refine yields_bind (load_alone hs hdecode) ?_ fun x file' h => by cases h.1
  rintro a file' ⟨ha, rfl⟩
  cases ha
  refine yields_bind (save_alone hs hfinal hbytes) ?_ fun x file' h => h.2
  rintro _ file' ⟨_, rfl⟩
  exact yields_done.mpr rfl

theorem bestEffort_alone {change : ManagerConfig → Option ManagerConfig}
    {config changed final : ManagerConfig} {bytes : Bytes}
    (hs : snapshotFile codec file = .ok loaded) (hdecode : decode codec loaded = .ok config)
    (hchange : change config = some changed) (hfinal : upgraded changed = .ok final)
    (hbytes : encode codec final = .ok bytes) :
    Yields (alone codec) (fun _ file' => file' = published bytes) (bestEffort codec change)
      file := by
  unfold bestEffort
  refine yields_attempt_bind (yields_mono (load_alone hs hdecode) ?_)
  rintro r file' ⟨rfl, rfl⟩
  simp only [hchange]
  refine yields_attempt_bind (yields_mono (save_alone hs hfinal hbytes) ?_)
  rintro r file' ⟨_, rfl⟩
  exact yields_done.mpr rfl

/-- An operation that runs alone writes what it makes of the file. -/
theorem execute_written {operation : Operation} {bytes : Bytes}
    (hs : snapshotFile codec file = .ok loaded)
    (hw : operation.written codec loaded = some bytes) :
    execute codec operation file = published bytes := by
  obtain ⟨hcheck, config, changed, final, hdecode, hchange, hfinal, hbytes⟩ :=
    written_eq_some.mp hw
  have hrun : Yields (alone codec) (fun _ file' => file' = published bytes)
      (operation.program codec) file := by
    cases operation with
    | setActiveProfile profile =>
      cases hchange
      rw [Operation.check] at hcheck
      simp only [Operation.program, setActiveProfile, hcheck]
      exact update_alone hs hdecode hfinal hbytes
    | bindProfileAccount profile accountId =>
      cases hchange
      rw [Operation.check] at hcheck
      simp only [Operation.program, bindProfileAccount, hcheck]
      exact update_alone hs hdecode hfinal hbytes
    | unbindProfileAccount profile =>
      cases hchange
      rw [Operation.check] at hcheck
      simp only [Operation.program, unbindProfileAccount, hcheck]
      exact update_alone hs hdecode hfinal hbytes
    | forgetProfile profile =>
      cases hchange
      rw [Operation.check] at hcheck
      simp only [Operation.program, forgetProfile, hcheck]
      exact update_alone hs hdecode hfinal hbytes
    | registerProject project => exact bestEffort_alone hs hdecode hchange hfinal hbytes
    | forgetProject project keeps => exact bestEffort_alone hs hdecode hchange hfinal hbytes
  obtain ⟨r, file', hrun, rfl⟩ := hrun
  simp [execute, hrun]

/-! ## The discipline of an update -/

/-- What an observer knows of a running operation. -/
structure View where
  operation : Operation
  /-- the snapshot that it loaded -/
  loaded : Option Snapshot := none
  /-- the snapshot that `save` started from -/
  original : Option Snapshot := none
  holding : Bool := false
  /-- under the lock, the file was found as in `original` -/
  compared : Bool := false

def View.after (v : View) : (e : ConfigEvent) → e.Answer → View
  | .snapshot .load, .ok snapshot => { v with loaded := some snapshot }
  | .snapshot .save, .ok snapshot => { v with original := some snapshot, compared := false }
  | .snapshot .compare, .ok snapshot => { v with compared := v.original = some snapshot }
  | .acquire, .ok _ => { v with holding := true, compared := false }
  | .write _, _ => { v with compared := false }
  | .release, _ => { v with holding := false }
  | _, _ => v

/-- An operation writes only what it makes of the snapshot it loaded, under the lock, after the
file was found unchanged. -/
def discipline (codec : Codec) : Protocol ConfigEvent ConfigEvent.Answer View where
  may v
    | .write bytes => v.holding = true ∧ v.compared = true
        ∧ ∃ loaded, v.loaded = some loaded ∧ v.operation.written codec loaded = some bytes
    | .release => v.holding = true
    | _ => True
  next := View.after

variable {v : View}

/-- Any result and any last view. -/
abbrev Ends {α : Type} : Result α → View → Prop := fun _ _ => True

theorem save_follows {config : ManagerConfig} (hloaded : v.loaded = some loaded)
    (hw : ∀ final bytes, upgraded config = .ok final → encode codec final = .ok bytes →
      v.operation.written codec loaded = some bytes) :
    Follows (discipline codec) Ends (save codec config) v := by
  unfold save
  refine follows_ofExcept_bind (fun final hfinal => ?_) fun _ _ => trivial
  refine follows_ask_bind.mpr ⟨trivial, fun original => ?_⟩
  cases original with
  | error x => trivial
  | ok original =>
    refine follows_ask_bind.mpr ⟨trivial, fun acquired => ?_⟩
    cases acquired with
    | error x => trivial
    | ok _ =>
      refine follows_ensuring (R := fun _ v' => v'.holding = true) ?_ fun _ v' h => ?_
      · refine follows_ask_bind.mpr ⟨trivial, fun found => ?_⟩
        cases found with
        | error x => exact rfl
        | ok found =>
          refine follows_failIf_bind (fun hsame => ?_) fun _ => rfl
          refine follows_ofExcept_bind (fun bytes hbytes => ?_) fun _ _ => rfl
          refine follows_ask_bind.mpr ⟨⟨rfl, ?_, loaded, hloaded, ?_⟩, fun result => ?_⟩
          · simp [discipline, View.after, not_not.mp hsame]
          · exact hw final bytes hfinal hbytes
          · cases result <;> exact rfl
      · exact follows_ask.mpr ⟨h, fun _ => trivial⟩

theorem load_follows {Q : Result ManagerConfig → View → Prop}
    (hok : ∀ snapshot config, decode codec snapshot = .ok config →
      Q (.ok config) { v with loaded := some snapshot })
    (herr : ∀ x v', Q (.error x) v') : Follows (discipline codec) Q (load codec) v := by
  refine follows_ask_bind.mpr ⟨trivial, fun snapshot => ?_⟩
  cases snapshot with
  | error x => exact herr x _
  | ok snapshot =>
    cases h : decode codec snapshot with
    | error x => exact follows_ofExcept.mpr (h ▸ herr x _)
    | ok config => exact follows_ofExcept.mpr (h ▸ hok snapshot config h)

theorem update_follows {change : ManagerConfig → ManagerConfig}
    (hcheck : v.operation.check = .ok ())
    (hchange : ∀ config, v.operation.change config = some (change config)) :
    Follows (discipline codec) Ends (update codec change >>= fun _ => pure ()) v := by
  unfold update
  simp only [bind_assoc]
  refine follows_bind (R := fun r v' => ∀ config, r = .ok config →
    Follows (discipline codec) Ends (save codec (change config)) v') ?_ ?_ fun _ _ _ => trivial
  · refine load_follows (fun snapshot config hdecode config' h => ?_) fun x v' _ h => nomatch h
    cases h
    refine save_follows rfl fun final bytes hfinal hbytes => ?_
    exact written_eq_some.mpr
      ⟨hcheck, config, _, final, hdecode, hchange config, hfinal, hbytes⟩
  · intro config v' h
    exact follows_bind (h config rfl) (fun _ _ _ => trivial) fun _ _ _ => trivial

theorem bestEffort_follows {change : ManagerConfig → Option ManagerConfig}
    (hcheck : v.operation.check = .ok ()) (hchange : v.operation.change = change) :
    Follows (discipline codec) Ends (bestEffort codec change) v := by
  unfold bestEffort
  refine follows_bind (R := fun r v' => ∀ config changed, r = .ok (.ok config) →
    change config = some changed →
    Follows (discipline codec) Ends (save codec changed) v') ?_ ?_ fun _ _ _ => trivial
  · refine follows_attempt (load_follows (fun snapshot config hdecode config' changed h hc => ?_)
      fun x v' _ _ h => nomatch h)
    cases h
    refine save_follows rfl fun final bytes hfinal hbytes => ?_
    exact written_eq_some.mpr
      ⟨hcheck, config, changed, final, hdecode, hchange ▸ hc, hfinal, hbytes⟩
  · intro r v' h
    cases r with
    | error x => trivial
    | ok config =>
      cases hc : change config with
      | none =>
        simp only [hc]
        exact follows_done.mpr trivial
      | some changed =>
        simp only [hc]
        exact follows_bind (R := Ends) (follows_attempt (h config changed rfl hc))
          (fun _ _ _ => trivial) fun _ _ _ => trivial

/-- Every operation keeps the discipline. -/
theorem program_follows (operation : Operation) :
    Follows (discipline codec) Ends (operation.program codec) { operation } := by
  cases operation with
  | setActiveProfile profile =>
    simp only [Operation.program, setActiveProfile, bind_assoc]
    refine follows_ofExcept_bind (fun _ hcheck => ?_) fun _ _ => trivial
    exact update_follows hcheck fun _ => rfl
  | bindProfileAccount profile accountId =>
    simp only [Operation.program, bindProfileAccount, bind_assoc]
    refine follows_ofExcept_bind (fun _ hcheck => ?_) fun _ _ => trivial
    exact update_follows hcheck fun _ => rfl
  | unbindProfileAccount profile =>
    simp only [Operation.program, unbindProfileAccount, bind_assoc]
    refine follows_ofExcept_bind (fun _ hcheck => ?_) fun _ _ => trivial
    exact update_follows hcheck fun _ => rfl
  | forgetProfile profile =>
    simp only [Operation.program, forgetProfile, bind_assoc]
    refine follows_ofExcept_bind (fun _ hcheck => ?_) fun _ _ => trivial
    exact update_follows hcheck fun _ => rfl
  | registerProject project => exact bestEffort_follows rfl rfl
  | forgetProject project keeps => exact bestEffort_follows rfl rfl

end

/-! ## Processes -/

/-- A save that succeeded: its operation, what that had loaded, and the file it replaced. -/
structure Save where
  operation : Operation
  loaded : Option Snapshot
  found : Option Node

/-- The file, its lock, and what an observer sees of the running operations and the saves,
newest first. -/
structure State (Pid : Type) where
  file : Option Node
  lock : Option Pid
  views : Pid → Option View
  saved : List Save

section

variable {Pid : Type} (codec : Codec)

/-- The answers that the shared state determines; every step may also fail. -/
def Answers (s : State Pid) : (e : ConfigEvent) → e.Answer → Prop
  | .snapshot _, .ok snapshot => snapshotFile codec s.file = .ok snapshot
  | .acquire, .ok _ => s.lock = none
  | _, _ => True

/-- A write that fails may have published the bytes. -/
def FileAfter (file : Option Node) : (e : ConfigEvent) → e.Answer → Option Node → Prop
  | .write bytes, .ok _, file' => file' = published bytes
  | .write bytes, .error _, file' => file' = file ∨ file' = published bytes
  | _, _, file' => file' = file

/-- Acquiring can fail once the lock is there, and the lock may stay when it is dropped. -/
def LockAfter (lock : Option Pid) (p : Pid) : (e : ConfigEvent) → e.Answer → Option Pid → Prop
  | .acquire, .ok _, lock' => lock' = some p
  | .acquire, .error _, lock' => lock' = lock ∨ lock = none ∧ lock' = some p
  | .release, _, lock' => lock' = lock ∨ lock' = none
  | _, _, lock' => lock' = lock

def savedAfter (s : State Pid) (p : Pid) : (e : ConfigEvent) → e.Answer → List Save
  | .write _, .ok _ =>
    ((s.views p).map fun v => ⟨v.operation, v.loaded, s.file⟩).toList ++ s.saved
  | _, _ => s.saved

def configWorld [DecidableEq Pid] :
    Pool.World ConfigEvent ConfigEvent.Answer ManagerError Unit (State Pid) Pid Operation where
  start s p operation s' :=
    s' = { s with views := Function.update s.views p (some { operation }) }
  event s p e answer s' :=
    Answers codec s e answer ∧ FileAfter s.file e answer s'.file
      ∧ LockAfter s.lock p e answer s'.lock
      ∧ s'.views = Function.update s.views p ((s.views p).map fun v => v.after e answer)
      ∧ s'.saved = savedAfter s p e answer
  finish s p _ _ s' := s' = { s with views := Function.update s.views p none }

/-- The state before any operation. -/
def State.initial (file : Option Node) : State Pid :=
  { file, lock := none, views := fun _ => none, saved := [] }

/-- The file is what the saved operations make of the first one, one after the other, and no
save replaced a file other than the one that its operation had loaded. -/
def NoLostUpdate (init : Option Node) (s : State Pid) : Prop :=
  (∃ order : List Operation, order.Perm (s.saved.map Save.operation)
      ∧ s.file = order.foldl (fun file operation => execute codec operation file) init)
    ∧ ∀ save ∈ s.saved, ∃ loaded, save.loaded = some loaded
        ∧ snapshotFile codec save.found = .ok loaded

/-- The condition on a write: its save started from what the operation had loaded, and where
the write fails it has published nothing. -/
def Fresh (s : State Pid) (p : Pid) : (e : ConfigEvent) → e.Answer → State Pid → Prop
  | .write _, .ok _, _ => ∀ v, s.views p = some v → v.original = v.loaded
  | .write _, .error _, s' => s'.file = s.file
  | _, _, _ => True

/-- What every run whose writes are fresh keeps. -/
structure Consistent (init : Option Node) (s : State Pid) (v : Pool.Locals Pid Operation View) :
    Prop where
  kept : ∀ p, v p = (s.views p).map fun l => (l.operation, l)
  holding : ∀ p l, s.views p = some l → l.holding = true → s.lock = some p
  compared : ∀ p l, s.views p = some l → l.holding = true → l.compared = true →
    ∃ original, l.original = some original ∧ snapshotFile codec s.file = .ok original
  file : s.file = s.saved.foldr (fun save file => execute codec save.operation file) init
  found : ∀ save ∈ s.saved, ∃ loaded, save.loaded = some loaded
    ∧ snapshotFile codec save.found = .ok loaded

variable {codec} {init : Option Node} {s s' : State Pid}
variable {v : Pool.Locals Pid Operation View} {p : Pid}

theorem after_operation (l : View) (e : ConfigEvent) (answer : e.Answer) :
    (l.after e answer).operation = l.operation := by
  unfold View.after
  split <;> rfl

/-- Only a successful acquire starts holding the lock. -/
theorem holding_of_after {l : View} {e : ConfigEvent} {answer : e.Answer} {lock lock' : Option Pid}
    (hlock : LockAfter lock p e answer lock') (hheld : l.holding = true → lock = some p)
    (h : (l.after e answer).holding = true) : lock' = some p := by
  cases e with
  | snapshot reading =>
    have hl : l.holding = true := by
      cases reading <;> cases answer <;> exact h
    cases answer <;> exact hlock.trans (hheld hl)
  | acquire =>
    cases answer with
    | ok _ => exact hlock
    | error x =>
      have hl := hheld h
      rcases hlock with hlock | ⟨hnone, _⟩
      · exact hlock.trans hl
      · rw [hl] at hnone
        cases hnone
  | write bytes => cases answer <;> exact hlock.trans (hheld h)
  | release => cases h

/-- The step of another process leaves the holder's lock alone. -/
theorem lock_of_other {q : Pid} {l : View} {e : ConfigEvent} {answer : e.Answer}
    (hans : Answers codec s e answer) (hlock : LockAfter s.lock p e answer s'.lock)
    (hmay : (discipline codec).may l e) (hheld : l.holding = true → s.lock = some p)
    (hne : q ≠ p) (hq : s.lock = some q) : s'.lock = some q := by
  cases e with
  | snapshot reading => cases answer <;> exact hlock.trans hq
  | acquire =>
    cases answer with
    | ok _ =>
      have hfree : s.lock = none := hans
      rw [hfree] at hq
      cases hq
    | error x =>
      rcases hlock with hlock | ⟨hfree, _⟩
      · exact hlock.trans hq
      · rw [hfree] at hq
        cases hq
  | write bytes => cases answer <;> exact hlock.trans hq
  | release =>
    have hp := hheld hmay
    rw [hp] at hq
    exact absurd (Option.some.inj hq).symm hne

/-- A step that may be taken without the lock leaves the file alone. -/
theorem file_of_not_holding {l : View} {e : ConfigEvent} {answer : e.Answer}
    (hfile : FileAfter s.file e answer s'.file) (hmay : (discipline codec).may l e)
    (h : l.holding = false) : s'.file = s.file := by
  cases e with
  | write bytes =>
    have hheld := hmay.1
    rw [h] at hheld
    cases hheld
  | snapshot reading => cases answer <;> exact hfile
  | acquire => cases answer <;> exact hfile
  | release => exact hfile

/-- What the comparison established holds until the process writes. -/
theorem compared_of_after {l : View} {e : ConfigEvent} {answer : e.Answer}
    (hans : Answers codec s e answer) (hfile : FileAfter s.file e answer s'.file)
    (hcompared : l.holding = true → l.compared = true →
      ∃ original, l.original = some original ∧ snapshotFile codec s.file = .ok original)
    (hheld : (l.after e answer).holding = true) (h : (l.after e answer).compared = true) :
    ∃ original, (l.after e answer).original = some original
      ∧ snapshotFile codec s'.file = .ok original := by
  cases e with
  | snapshot reading =>
    have hsame : s'.file = s.file := by cases answer <;> exact hfile
    rw [hsame]
    cases answer with
    | error x =>
      cases reading <;> exact hcompared hheld h
    | ok snapshot =>
      cases reading with
      | load => exact hcompared hheld h
      | save => cases h
      | compare =>
        have heq : l.original = some snapshot := by simpa [View.after] using h
        exact ⟨snapshot, heq, hans⟩
  | acquire =>
    cases answer with
    | ok _ => cases h
    | error x =>
      have hsame : s'.file = s.file := hfile
      rw [hsame]
      exact hcompared hheld h
  | write bytes => cases h
  | release => cases hheld

/-- What a fresh write does to the file. -/
theorem execute_of_write {l : View} {bytes : Bytes} {original : Snapshot}
    (hmay : (discipline codec).may l (.write bytes)) (horiginal : l.original = some original)
    (hfound : snapshotFile codec s.file = .ok original) (hfresh : l.original = l.loaded) :
    published bytes = execute codec l.operation s.file ∧ l.loaded = some original := by
  obtain ⟨_, _, loaded, hloaded, hw⟩ := hmay
  have heq : loaded = original := by
    rw [hloaded, horiginal] at hfresh
    exact (Option.some.inj hfresh).symm
  subst heq
  exact ⟨(execute_written hfound hw).symm, hloaded⟩

theorem consistent_init : Consistent codec init (State.initial init : State Pid) fun _ => none :=
  ⟨fun _ => rfl, fun _ _ h => (nomatch h), fun _ _ h => (nomatch h), rfl, fun _ h => (nomatch h)⟩

variable [DecidableEq Pid]

theorem consistent_event {o : Operation} {l : View} {e : ConfigEvent} {answer : e.Answer}
    (h : Consistent codec init s v) (hp : v p = some (o, l)) (hmay : (discipline codec).may l e)
    (hmove : (configWorld codec).event s p e answer s') (hfresh : Fresh s p e answer s') :
    Consistent codec init s' (Function.update v p (some (o, l.after e answer))) := by
  obtain ⟨hans, hfile, hlock, hviews, hsaved⟩ := hmove
  obtain ⟨rfl, hview⟩ : l.operation = o ∧ s.views p = some l := by
    have hk := h.kept p
    rw [hp] at hk
    cases hs : s.views p with
    | none =>
      rw [hs] at hk
      cases hk
    | some l' =>
      rw [hs] at hk
      cases hk
      exact ⟨rfl, rfl⟩
  have hviews' : s'.views = Function.update s.views p (some (l.after e answer)) := by
    rw [hviews, hview]
    rfl
  have hself : ∀ q l', s'.views q = some l' →
      q = p ∧ l' = l.after e answer ∨ q ≠ p ∧ s.views q = some l' := by
    intro q l' hq
    rw [hviews'] at hq
    by_cases hqp : q = p
    · subst hqp
      rw [Function.update_self] at hq
      exact .inl ⟨rfl, (Option.some.inj hq).symm⟩
    · rw [Function.update_of_ne hqp] at hq
      exact .inr ⟨hqp, hq⟩
  have hheld := h.holding p l hview
  -- the saved list and the file change together, and only by a successful write
  have hsave : s'.file = s.file ∧ s'.saved = s.saved
      ∨ ∃ original, snapshotFile codec s.file = .ok original ∧ l.loaded = some original
        ∧ s'.file = execute codec l.operation s.file
        ∧ s'.saved = ⟨l.operation, l.loaded, s.file⟩ :: s.saved := by
    cases e with
    | snapshot reading => cases answer <;> exact .inl ⟨hfile, hsaved⟩
    | acquire => cases answer <;> exact .inl ⟨hfile, hsaved⟩
    | release => exact .inl ⟨hfile, hsaved⟩
    | write bytes =>
      cases answer with
      | error x => exact .inl ⟨hfresh, hsaved⟩
      | ok _ =>
        obtain ⟨original, horiginal, hfound⟩ := h.compared p l hview hmay.1 hmay.2.1
        obtain ⟨hexec, hloaded⟩ := execute_of_write hmay horiginal hfound (hfresh l hview)
        refine .inr ⟨original, hfound, hloaded, hfile.trans hexec, ?_⟩
        rw [hsaved]
        simp [savedAfter, hview]
  refine ⟨fun q => ?_, fun q l' hq hl => ?_, fun q l' hq hl hc => ?_, ?_, ?_⟩
  · rw [hviews']
    by_cases hqp : q = p
    · subst hqp
      simp [after_operation]
    · rw [Function.update_of_ne hqp, Function.update_of_ne hqp]
      exact h.kept q
  · rcases hself q l' hq with ⟨rfl, rfl⟩ | ⟨hne, hq⟩
    · exact holding_of_after hlock hheld hl
    · exact lock_of_other hans hlock hmay hheld hne (h.holding q l' hq hl)
  · rcases hself q l' hq with ⟨rfl, rfl⟩ | ⟨hne, hq⟩
    · exact compared_of_after hans hfile (h.compared q l hview) hl hc
    · -- the other process holds the lock, so this one wrote nothing
      have hidle : l.holding = false := by
        by_contra hnot
        have hmine := hheld (by simpa using hnot)
        rw [h.holding q l' hq hl] at hmine
        exact hne (Option.some.inj hmine)
      rw [file_of_not_holding hfile hmay hidle]
      exact h.compared q l' hq hl hc
  · rcases hsave with ⟨hf, hs⟩ | ⟨original, _, _, hf, hs⟩
    · rw [hf, hs]
      exact h.file
    · rw [hf, hs, List.foldr_cons, ← h.file]
  · rcases hsave with ⟨_, hs⟩ | ⟨original, hfound, hloaded, _, hs⟩
    · rw [hs]
      exact h.found
    · rw [hs]
      intro save hmem
      rcases List.mem_cons.mp hmem with rfl | hmem
      · exact ⟨original, hloaded, hfound⟩
      · exact h.found save hmem

theorem consistent_start {o : Operation} (h : Consistent codec init s v) :
    Consistent codec init { s with views := Function.update s.views p (some { operation := o }) }
      (Function.update v p (some (o, { operation := o }))) := by
  -- the new view holds no lock
  have hold : ∀ q l, Function.update s.views p (some { operation := o }) q = some l →
      l.holding = true → s.views q = some l := by
    intro q l hq hl
    by_cases hqp : q = p
    · subst hqp
      rw [Function.update_self] at hq
      cases hq
      cases hl
    · rw [Function.update_of_ne hqp] at hq
      exact hq
  refine ⟨fun q => ?_, fun q l hq hl => h.holding q l (hold q l hq hl) hl,
    fun q l hq hl => h.compared q l (hold q l hq hl) hl, h.file, h.found⟩
  by_cases hqp : q = p
  · subst hqp
    simp
  · simpa [Function.update_of_ne hqp] using h.kept q

theorem consistent_finish (h : Consistent codec init s v) :
    Consistent codec init { s with views := Function.update s.views p none }
      (Function.update v p none) := by
  have hold : ∀ q l, Function.update s.views p none q = some l → s.views q = some l := by
    intro q l hq
    by_cases hqp : q = p
    · subst hqp
      simp at hq
    · simpa [Function.update_of_ne hqp] using hq
  refine ⟨fun q => ?_, fun q l hq => h.holding q l (hold q l hq),
    fun q l hq => h.compared q l (hold q l hq), h.file, h.found⟩
  by_cases hqp : q = p
  · subst hqp
    simp
  · simpa [Function.update_of_ne hqp] using h.kept q

end

/-! ## Two processes on a fresh machine -/

def sampleName : Text := ['w']

def sampleProject : PosixPath := ⟨true, [.normal ['p']]⟩

def sampleActive : Option Text → Text
  | none => "null".toList
  | some profile => ['"'] ++ profile ++ ['"']

/-- The sample project, where it is installed. -/
def sampleProjects : BTreeSet PosixPath → Text
  | [] => "[]".toList
  | _ :: _ => "[\n    \"/p\"\n  ]".toList

/-- Pretty JSON of a configuration without bindings whose profile needs no escape. -/
def sampleJson (config : ManagerConfig) : Bytes :=
  Text.asciiBytes <|
    "\x7b\n  \"version\": ".toList ++ [Nat.digitChar config.version]
      ++ ",\n  \"active".toList ++ "_profile\": ".toList ++ sampleActive config.activeProfile
      ++ ",\n  \"account".toList ++ "_bindings\": ".toList ++ "\x7b\x7d,\n  \"inst".toList
      ++ "alled_proj".toList ++ "ects\": ".toList ++ sampleProjects config.installedProjects
      ++ "\n\x7d".toList

def sampleActivated : ManagerConfig := activate (some sampleName) .initial

def sampleRegistered : ManagerConfig := { ManagerConfig.initial with
  installedProjects := [sampleProject] }

def sampleBoth : ManagerConfig := activate (some sampleName) sampleRegistered

def sampleConfigs : List ManagerConfig := [sampleActivated, sampleRegistered, sampleBoth]

def sampleFile (config : ManagerConfig) : Bytes := (sampleJson config).push 10

/-- The digests of the sample files, in pieces. -/
def sampleDigests : List (Bytes × List String) :=
  [(Text.utf8 "<absent>".toList, ["a4d0f0eb87", "fed960b9f1", "819efda1cd", "7935b4f665",
      "fdd3872149", "260986d11e", "96da"]),
    (sampleFile sampleActivated, ["24b96c1dba", "03fd3571d3", "263adbb97d", "b5a4acab7b",
      "69c2532abf", "73c2e38c4d", "31eb"]),
    (sampleFile sampleRegistered, ["45b7ac345c", "ad5e061d04", "3c0aeb0f30", "82f6edb3b1",
      "37c1e3b072", "e5b6d31ee2", "3477"]),
    (sampleFile sampleBoth, ["5a9ccc91b4", "62d83a41ba", "4e26c5f341", "eaf656ec33",
      "c9b83a8735", "82d131ad42", "eba1"])]

def sampleCodec : Codec where
  digestBytes bytes := ((sampleDigests.lookup bytes).getD []).flatMap String.toList
  fromSlice bytes := sampleConfigs.find? fun config => sampleFile config = bytes
  toVecPretty config := some (sampleJson config)

/-- The answers of a machine on which no step fails. -/
def sampleAnswer (codec : Codec) (s : State Nat) : (e : ConfigEvent) → e.Answer
  | .snapshot _ => snapshotFile codec s.file
  | .acquire =>
    if s.lock = none then .ok ()
    else .error (.hostConflict "another manager operation owns the target lock")
  | .write _ => .ok ()
  | .release => ()

def sampleFileAfter (file : Option Node) : ConfigEvent → Option Node
  | .write bytes => published bytes
  | _ => file

def sampleLockAfter (lock : Option Nat) (p : Nat) : ConfigEvent → Option Nat
  | .acquire => if lock = none then some p else lock
  | .release => none
  | _ => lock

def sampleAfter (codec : Codec) (s : State Nat) (p : Nat) (e : ConfigEvent) : State Nat :=
  { file := sampleFileAfter s.file e
    lock := sampleLockAfter s.lock p e
    views := Function.update s.views p
      ((s.views p).map fun v => v.after e (sampleAnswer codec s e))
    saved := savedAfter s p e (sampleAnswer codec s e) }

/-- The environment that gives these answers where `allowed` lets the event happen. -/
def sampleScript (codec : Codec) (allowed : State Nat → Nat → ConfigEvent → Bool) :
    Pool.Script ConfigEvent ConfigEvent.Answer ManagerError Unit (State Nat) Nat Operation where
  start s p operation :=
    some { s with views := Function.update s.views p (some { operation }) }
  event s p e :=
    if allowed s p e then some (sampleAnswer codec s e, sampleAfter codec s p e) else none
  finish s p _ _ := some { s with views := Function.update s.views p none }

theorem sampleAnswer_moves (codec : Codec) (s : State Nat) (p : Nat) (e : ConfigEvent) :
    (configWorld codec).event s p e (sampleAnswer codec s e) (sampleAfter codec s p e) := by
  cases e with
  | snapshot reading =>
    refine ⟨?_, ?_, ?_, rfl, rfl⟩
    · cases hs : snapshotFile codec s.file <;> simp [sampleAnswer, Answers, hs]
    · cases hs : snapshotFile codec s.file <;>
        simp [sampleAnswer, sampleAfter, sampleFileAfter, FileAfter, hs]
    · cases hs : snapshotFile codec s.file <;>
        simp [sampleAnswer, sampleAfter, sampleLockAfter, LockAfter, hs]
  | acquire =>
    refine ⟨?_, ?_, ?_, rfl, rfl⟩
    · by_cases hs : s.lock = none <;> simp [sampleAnswer, Answers, hs]
    · by_cases hs : s.lock = none <;>
        simp [sampleAnswer, sampleAfter, sampleFileAfter, FileAfter, hs]
    · by_cases hs : s.lock = none <;>
        simp [sampleAnswer, sampleAfter, sampleLockAfter, LockAfter, hs]
  | write bytes => exact ⟨trivial, rfl, rfl, rfl, rfl⟩
  | release => exact ⟨trivial, rfl, .inr rfl, rfl, rfl⟩

theorem sampleScript_sound {codec : Codec} {allowed : State Nat → Nat → ConfigEvent → Bool}
    {ok : State Nat → Nat → (e : ConfigEvent) → e.Answer → State Nat → Prop}
    (hok : ∀ s p e s', allowed s p e = true → ok s p e (sampleAnswer codec s e) s') :
    (sampleScript codec allowed).Sound ((configWorld codec).restrict ok) where
  start h := (Option.some.inj h).symm
  event := by
    intro s p e a s' h
    simp only [sampleScript, Option.ite_none_right_eq_some, Option.some.injEq,
      Prod.mk.injEq] at h
    obtain ⟨hallowed, rfl, rfl⟩ := h
    exact ⟨sampleAnswer_moves codec s p e, hok s p e _ hallowed⟩
  finish h := (Option.some.inj h).symm

def sampleSet : Operation := .setActiveProfile (some sampleName)
def sampleRegister : Operation := .registerProject sampleProject

/-- A process that runs an operation it started, from its load to its end. -/
def wholeTurns (p : Nat) : List (Pool.Turn Nat Operation) :=
  List.replicate 6 (.event p) ++ [.finish p]

def runSample (allowed : State Nat → Nat → ConfigEvent → Bool)
    (turns : List (Pool.Turn Nat Operation)) :
    Option (State Nat × Pool.Running ConfigEvent ConfigEvent.Answer ManagerError Unit Nat
      Operation) :=
  Pool.drive (sampleScript sampleCodec allowed) (Operation.program sampleCodec)
    (.start 0 sampleSet :: .start 1 sampleRegister :: turns) (State.initial none, fun _ => none)

theorem runSample_reachable {allowed : State Nat → Nat → ConfigEvent → Bool}
    {turns : List (Pool.Turn Nat Operation)}
    (ok : State Nat → Nat → (e : ConfigEvent) → e.Answer → State Nat → Prop)
    (hok : ∀ s p e s', allowed s p e = true → ok s p e (sampleAnswer sampleCodec s e) s')
    {c : State Nat × Pool.Running ConfigEvent ConfigEvent.Answer ManagerError Unit Nat Operation}
    (h : runSample allowed turns = some c) :
    Pool.Reachable ((configWorld sampleCodec).restrict ok) (Operation.program sampleCodec)
      (State.initial none) c.1 c.2 :=
  Pool.drive_reachable (sampleScript_sound hok) _ .init h

/-- Whether a write is fresh. -/
def fresh (s : State Nat) (p : Nat) : ConfigEvent → Bool
  | .write _ => (s.views p).all fun v => v.original = v.loaded
  | _ => true

theorem fresh_sound {codec : Codec} {s s' : State Nat} {p : Nat} {e : ConfigEvent}
    (h : fresh s p e = true) : Fresh s p e (sampleAnswer codec s e) s' := by
  cases e with
  | write bytes =>
    intro v hv
    rw [fresh, hv] at h
    simpa using h
  | snapshot reading => cases hs : sampleAnswer codec s (.snapshot reading) <;> trivial
  | acquire => cases hs : sampleAnswer codec s .acquire <;> trivial
  | release => trivial

def Operation.isSampleSet : Operation → Bool
  | .setActiveProfile profile => profile = some sampleName
  | _ => false

def Operation.isSampleRegister : Operation → Bool
  | .registerProject project => project = sampleProject
  | _ => false

/-- Both updates were saved, and the file holds only the project. -/
def losesActive (s : State Nat) : Bool :=
  match s.saved with
  | [second, first] =>
    second.operation.isSampleRegister && first.operation.isSampleSet
      && s.file = published (sampleFile sampleRegistered)
  | _ => false

theorem losesActive_not_noLostUpdate {s : State Nat} (h : losesActive s = true) :
    ¬NoLostUpdate sampleCodec none s := by
  unfold losesActive at h
  split at h
  next second first hsaved =>
    simp only [Bool.and_eq_true, decide_eq_true_eq] at h
    obtain ⟨⟨hsecond, hfirst⟩, hfile⟩ := h
    have hset : first.operation = sampleSet := by
      unfold Operation.isSampleSet at hfirst
      split at hfirst
      next profile hop => rw [hop, of_decide_eq_true hfirst, sampleSet]
      next => cases hfirst
    have hregister : second.operation = sampleRegister := by
      unfold Operation.isSampleRegister at hsecond
      split at hsecond
      next project hop => rw [hop, of_decide_eq_true hsecond, sampleRegister]
      next => cases hsecond
    rintro ⟨⟨order, hperm, horder⟩, _⟩
    rw [hsaved, List.map_cons, List.map_cons, List.map_nil, hset, hregister] at hperm
    rw [hfile] at horder
    rcases List.perm_pair.mp hperm with rfl | rfl
    · revert horder
      decide +kernel
    · revert horder
      decide +kernel
  next => cases h

/-! ## Top theorem -/

/-- No update is lost in a run whose writes are fresh. -/
theorem saves_serial {Pid : Type} [DecidableEq Pid] {codec : Codec} {init : Option Node}
    {s : State Pid} {r : Pool.Running ConfigEvent ConfigEvent.Answer ManagerError Unit Pid
      Operation}
    (run : Pool.Reachable ((configWorld codec).restrict Fresh) (Operation.program codec)
      (State.initial init) s r) : NoLostUpdate codec init s := by
  have hinv : Pool.Invariant ((configWorld codec).restrict Fresh) (discipline codec)
      (fun _ => Ends) (fun o => { operation := o }) (State.initial init : State Pid)
      (Consistent codec init) :=
    { init := consistent_init
      start := by
        rintro s v p o s' h _ rfl
        exact consistent_start h
      event := by
        rintro s v p o l e answer s' h hp hmay ⟨hmove, hfresh⟩
        exact consistent_event h hp hmay hmove hfresh
      finish := by
        rintro s v p o l x s' h _ _ rfl
        exact consistent_finish h }
  obtain ⟨v, h, _⟩ := Pool.reachable_invariant program_follows hinv run
  refine ⟨⟨(s.saved.map Save.operation).reverse, List.reverse_perm _, ?_⟩, h.found⟩
  rw [h.file, List.foldl_reverse, List.foldr_map]

/-- The project is registered after the active profile is saved. -/
theorem saves_serial_registered : ∃ s : State Nat, s.file = published (sampleFile sampleBoth)
    ∧ s.saved.length = 2 ∧ NoLostUpdate sampleCodec none s := by
  have hrun : (runSample fresh (wholeTurns 0 ++ wholeTurns 1)).any
      (fun c => decide (c.1.file = published (sampleFile sampleBoth))
        && c.1.saved.length == 2) = true := by
    decide +kernel
  obtain ⟨⟨s, r⟩, hs, hstate⟩ := (Option.any_eq_true _ _).mp hrun
  obtain ⟨hfile, hlength⟩ := Bool.and_eq_true _ _ ▸ hstate
  have hreach := runSample_reachable Fresh (fun _ _ _ _ h => fresh_sound h) hs
  exact ⟨s, of_decide_eq_true hfile, by simpa using hlength, saves_serial hreach⟩

/-- Both load before either saves: the second save drops the first. -/
theorem active_profile_lost : ∃ (s : State Nat) (r : Pool.Running ConfigEvent
      ConfigEvent.Answer ManagerError Unit Nat Operation),
    Pool.Reachable (configWorld sampleCodec) (Operation.program sampleCodec) (State.initial none)
      s r ∧ ¬NoLostUpdate sampleCodec none s := by
  have hrun : (runSample (fun _ _ _ => true)
      (.event 1 :: wholeTurns 0 ++ (wholeTurns 1).tail)).any
      (fun c => losesActive c.1) = true := by
    decide +kernel
  obtain ⟨⟨s, r⟩, hs, hlost⟩ := (Option.any_eq_true _ _).mp hrun
  have hreach := runSample_reachable (fun _ _ _ _ _ => True) (fun _ _ _ _ _ => trivial) hs
  exact ⟨s, r, Pool.reachable_of_restrict hreach, losesActive_not_noLostUpdate hlost⟩

end Kaleidoscope.ConfigStore
