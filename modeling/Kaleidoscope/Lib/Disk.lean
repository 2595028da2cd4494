import Kaleidoscope.Lib.Path
import Kaleidoscope.Lib.Prog

/-!
# A disk whose steps can fail

A file system as the list of its entries, the file-system calls as events, and a drive that
answers them.  One chosen step of a run may fail: it answers with an error and changes nothing.
A step is a call together with the place of the program that makes it.

A temporary file is kept apart from the entries: its name is unique to the process and the call,
so no other path has it.  `publish` renames it.

    get_set, get_remove      the entries after a change
    answer_frame             a step changes no path but the one its call names
-/

namespace Disk

inductive Node where
  | file (bytes : Bytes) (mode : Nat)
  | directory
  | symlink
  /-- a device, a socket or a pipe -/
  | special
  deriving DecidableEq

/-- The entries of a file system; the first entry of a path counts. -/
structure Fs where
  entries : List (PosixPath × Node)

namespace Fs

def get (fs : Fs) (p : PosixPath) : Option Node := fs.entries.lookup p

def remove (fs : Fs) (p : PosixPath) : Fs := ⟨fs.entries.filter fun entry => entry.1 ≠ p⟩

def set (fs : Fs) (p : PosixPath) (node : Node) : Fs := ⟨(p, node) :: (fs.remove p).entries⟩

/-- The entry as it should be: present with a node, or absent. -/
def put (fs : Fs) (p : PosixPath) : Option Node → Fs
  | some node => fs.set p node
  | none => fs.remove p

def isDirectory (fs : Fs) (p : PosixPath) : Bool := p == .root || fs.get p == some .directory

/-- Whether an entry lies directly in the directory. -/
def hasChild (fs : Fs) (dir : PosixPath) : Bool :=
  fs.entries.any fun entry => entry.1.parent == some dir

theorem lookup_filter_ne {p q : PosixPath} (entries : List (PosixPath × Node)) :
    (entries.filter fun entry => entry.1 ≠ p).lookup q
      = if q = p then none else entries.lookup q := by
  induction entries with
  | nil => simp
  | cons entry rest ih =>
    obtain ⟨k, node⟩ := entry
    by_cases hk : k = p
    · subst hk
      by_cases hq : q = k
      · simp [hq] at ih ⊢
        exact ih
      · simp [hq, List.lookup_cons] at ih ⊢
        simp [ih, beq_false_of_ne hq]
    · by_cases hq : q = k
      · subst hq
        simp [hk]
      · simp only [ne_eq, hk, not_false_eq_true, decide_true, List.filter_cons_of_pos,
          List.lookup_cons, beq_false_of_ne hq]
        exact ih

theorem get_remove {fs : Fs} {p q : PosixPath} :
    (fs.remove p).get q = if q = p then none else fs.get q :=
  lookup_filter_ne fs.entries

theorem get_set {fs : Fs} {p q : PosixPath} {node : Node} :
    (fs.set p node).get q = if q = p then some node else fs.get q := by
  by_cases h : q = p
  · simp [set, get, h]
  · have hset : (fs.set p node).get q = (fs.remove p).get q := by
      unfold set get
      rw [List.lookup_cons, beq_false_of_ne h]
    rw [hset, get_remove, if_neg h, if_neg h]

theorem get_set_of_ne {fs : Fs} {p q : PosixPath} {node : Node} (h : some p ≠ some q) :
    (fs.set p node).get q = fs.get q := by
  rw [get_set, if_neg fun hq => h (congrArg some hq.symm)]

theorem get_remove_of_ne {fs : Fs} {p q : PosixPath} (h : some p ≠ some q) :
    (fs.remove p).get q = fs.get q := by
  rw [get_remove, if_neg fun hq => h (congrArg some hq.symm)]

theorem get_put {fs : Fs} {p q : PosixPath} {node : Option Node} :
    (fs.put p node).get q = if q = p then node else fs.get q := by
  cases node with
  | some node => exact get_set
  | none => exact get_remove

theorem isSome_lookup_iff {entries : List (PosixPath × Node)} {p : PosixPath} :
    (entries.lookup p).isSome = true ↔ ∃ entry ∈ entries, entry.1 = p := by
  induction entries with
  | nil => simp
  | cons entry rest ih =>
    obtain ⟨k, node⟩ := entry
    rw [List.lookup_cons]
    by_cases hk : p = k
    · simp [hk]
    · rw [beq_false_of_ne hk]
      simp [ih, Ne.symm hk]

theorem hasChild_iff {fs : Fs} {dir : PosixPath} :
    fs.hasChild dir = true ↔ ∃ q, (fs.get q).isSome = true ∧ q.parent = some dir := by
  unfold hasChild get
  simp only [isSome_lookup_iff, List.any_eq_true, beq_iff_eq]
  constructor
  · rintro ⟨entry, hentry, hparent⟩
    exact ⟨entry.1, ⟨entry, hentry, rfl⟩, hparent⟩
  · rintro ⟨q, ⟨entry, hentry, rfl⟩, hparent⟩
    exact ⟨entry, hentry, hparent⟩

end Fs

/-! ## Calls -/

inductive IoKind where
  | notFound
  | alreadyExists
  | other
  deriving DecidableEq

inductive FileType where
  | file
  | directory
  | symlink
  | special
  deriving DecidableEq

structure Metadata where
  type : FileType
  len : Nat
  mode : Nat
  deriving DecidableEq

def Node.metadata : Node → Metadata
  | .file bytes mode => ⟨.file, bytes.size, mode⟩
  | .directory => ⟨.directory, 0, 0⟩
  | .symlink => ⟨.symlink, 0, 0⟩
  | .special => ⟨.special, 0, 0⟩

/-- The calls that answer with nothing but success. -/
inductive Action where
  | createDirectory (path : PosixPath)
  | setDirectoryMode (path : PosixPath)
  /-- create a file that does not exist yet -/
  | createFile (path : PosixPath) (mode : Nat)
  | writeProcessId (path : PosixPath)
  | syncFile (path : PosixPath)
  /-- create the temporary file that is to replace `path` -/
  | createTemporary (path : PosixPath) (mode : Nat)
  | setTemporaryMode (path : PosixPath) (mode : Nat)
  | writeTemporary (path : PosixPath) (bytes : Bytes)
  | syncTemporary (path : PosixPath)
  /-- rename the temporary file to `path` -/
  | publish (path : PosixPath)
  | removeTemporary (path : PosixPath)
  | removeFile (path : PosixPath)
  | syncDirectory (path : PosixPath)
  | removeDirectory (path : PosixPath)
  deriving DecidableEq

inductive Call where
  | metadata (path : PosixPath)
  | read (path : PosixPath)
  /-- whether the directory has an entry -/
  | listDirectory (path : PosixPath)
  | act (action : Action)
  deriving DecidableEq

abbrev Call.Value : Call → Type
  | .metadata _ => Metadata
  | .read _ => Bytes
  | .listDirectory _ => Bool
  | .act _ => Unit

/-- A call and the place it is made from. -/
structure Step (S : Type) where
  site : S
  call : Call
  deriving DecidableEq

abbrev Step.Answer {S : Type} (step : Step S) : Type := Except IoKind step.call.Value

structure Drive (S : Type) where
  fs : Fs
  temporary : Option (Bytes × Nat) := none
  processId : Nat
  /-- the step that is to fail -/
  fault : Option (Step S)
  /-- the step that failed -/
  failed : Option (Step S) := none

variable {S : Type}

/-- A decimal number and a line feed. -/
def processIdLine (n : Nat) : Bytes := Text.utf8 ((toString n).toList ++ ['\n'])

/-- An action that succeeds; `none` where the file system does not allow it. -/
def Drive.act (d : Drive S) : Action → Except IoKind (Drive S)
  | .createDirectory path =>
    if (d.fs.get path).isSome then .error .alreadyExists
    else if path.parent.any d.fs.isDirectory then .ok { d with fs := d.fs.set path .directory }
    else .error .notFound
  | .setDirectoryMode path => if d.fs.isDirectory path then .ok d else .error .notFound
  | .createFile path mode =>
    if (d.fs.get path).isSome then .error .alreadyExists
    else if path.parent.any d.fs.isDirectory then
      .ok { d with fs := d.fs.set path (.file ByteArray.empty mode) }
    else .error .notFound
  | .writeProcessId path =>
    match d.fs.get path with
    | some (.file _ mode) =>
      .ok { d with fs := d.fs.set path (.file (processIdLine d.processId) mode) }
    | _ => .error .notFound
  | .syncFile path => if (d.fs.get path).isSome then .ok d else .error .notFound
  | .createTemporary path mode =>
    if path.parent.any d.fs.isDirectory then
      .ok { d with temporary := some (ByteArray.empty, mode) }
    else .error .notFound
  | .setTemporaryMode _ mode =>
    match d.temporary with
    | some (bytes, _) => .ok { d with temporary := some (bytes, mode) }
    | none => .error .notFound
  | .writeTemporary _ bytes =>
    match d.temporary with
    | some (_, mode) => .ok { d with temporary := some (bytes, mode) }
    | none => .error .notFound
  | .syncTemporary _ => if d.temporary.isSome then .ok d else .error .notFound
  | .publish path =>
    match d.temporary, d.fs.get path with
    | none, _ => .error .notFound
    | some _, some .directory => .error .other
    | some (bytes, mode), _ =>
      .ok { d with fs := d.fs.set path (.file bytes mode), temporary := none }
  | .removeTemporary _ => .ok { d with temporary := none }
  | .removeFile path =>
    match d.fs.get path with
    | none => .error .notFound
    | some .directory => .error .other
    | some _ => .ok { d with fs := d.fs.remove path }
  | .syncDirectory path => if d.fs.isDirectory path then .ok d else .error .notFound
  | .removeDirectory path =>
    if d.fs.get path = some .directory ∧ d.fs.hasChild path = false then
      .ok { d with fs := d.fs.remove path }
    else .error .other

/-- The answer of a drive on which nothing fails. -/
def Drive.perform (d : Drive S) : (call : Call) → Except IoKind call.Value × Drive S
  | .metadata path =>
    match d.fs.get path with
    | some node => (.ok node.metadata, d)
    | none => (.error .notFound, d)
  | .read path =>
    match d.fs.get path with
    | some (.file bytes _) => (.ok bytes, d)
    | some _ => (.error .other, d)
    | none => (.error .notFound, d)
  | .listDirectory path =>
    if d.fs.isDirectory path then (.ok (d.fs.hasChild path), d) else (.error .other, d)
  | .act action =>
    match d.act action with
    | .ok d' => (.ok (), d')
    | .error kind => (.error kind, d)

theorem perform_metadata_some {d : Drive S} {path : PosixPath} {node : Node}
    (h : d.fs.get path = some node) : d.perform (.metadata path) = (.ok node.metadata, d) := by
  simp [Drive.perform, h]

theorem perform_metadata_none {d : Drive S} {path : PosixPath} (h : d.fs.get path = none) :
    d.perform (.metadata path) = (.error .notFound, d) := by
  simp [Drive.perform, h]

variable [DecidableEq S]

/-- The answer of the drive: its one failing step changes nothing. -/
def Drive.answer (d : Drive S) (step : Step S) : step.Answer × Drive S :=
  if d.fault = some step ∧ d.failed = none then (.error .other, { d with failed := some step })
  else d.perform step.call

/-! ## Frames -/

/-- The path that a call can change. -/
def Call.touches : Call → Option PosixPath
  | .act (.createDirectory path) => some path
  | .act (.createFile path _) => some path
  | .act (.writeProcessId path) => some path
  | .act (.publish path) => some path
  | .act (.removeFile path) => some path
  | .act (.removeDirectory path) => some path
  | _ => none

/-- Only touched paths changed, and a failure in between was at the site. -/
structure Frame (site : S) (touched : PosixPath → Prop) (d d' : Drive S) : Prop where
  same : ∀ p, ¬touched p → d'.fs.get p = d.fs.get p
  failed : d'.failed = d.failed ∨ d.failed = none ∧ ∃ call, d'.failed = some ⟨site, call⟩

/-- The step is made from the site and touches only such paths. -/
def Within (site : S) (touched : PosixPath → Prop) (step : Step S) : Prop :=
  step.site = site ∧ ∀ p, step.call.touches = some p → touched p

omit [DecidableEq S] in
theorem Frame.refl (site : S) (touched : PosixPath → Prop) (d : Drive S) : Frame site touched d d :=
  ⟨fun _ _ => rfl, .inl rfl⟩

omit [DecidableEq S] in
theorem Frame.trans {site : S} {touched : PosixPath → Prop} {a b c : Drive S}
    (h : Frame site touched a b) (h' : Frame site touched b c) : Frame site touched a c := by
  refine ⟨fun p hp => (h'.same p hp).trans (h.same p hp), ?_⟩
  rcases h.failed with hab | ⟨ha, call, hb⟩
  · rw [← hab]
    exact h'.failed
  · rcases h'.failed with hbc | ⟨hb', _⟩
    · exact .inr ⟨ha, call, hbc.trans hb⟩
    · rw [hb] at hb'
      cases hb'

omit [DecidableEq S] in
theorem act_frame {d d' : Drive S} {action : Action} (h : d.act action = .ok d') :
    d'.failed = d.failed
      ∧ ∀ p, (Call.act action).touches ≠ some p → d'.fs.get p = d.fs.get p := by
  cases action <;> simp only [Drive.act] at h <;>
    repeat' split at h
  all_goals first
    | (cases h; done)
    | (cases h
       refine ⟨rfl, fun p hp => ?_⟩
       first
         | rfl
         | exact Fs.get_set_of_ne hp
         | exact Fs.get_remove_of_ne hp)

omit [DecidableEq S] in
theorem perform_frame (d : Drive S) (call : Call) :
    (d.perform call).2.failed = d.failed
      ∧ ∀ p, call.touches ≠ some p → (d.perform call).2.fs.get p = d.fs.get p := by
  cases call with
  | act action =>
    cases h : d.act action with
    | ok d' => simpa [Drive.perform, h] using act_frame h
    | error kind => simp [Drive.perform, h]
  | metadata path =>
    simp only [Drive.perform]
    split <;> exact ⟨rfl, fun _ _ => rfl⟩
  | read path =>
    simp only [Drive.perform]
    split <;> exact ⟨rfl, fun _ _ => rfl⟩
  | listDirectory path =>
    simp only [Drive.perform]
    split <;> exact ⟨rfl, fun _ _ => rfl⟩

theorem answer_frame {site : S} {touched : PosixPath → Prop} {step : Step S}
    (h : Within site touched step) (d : Drive S) : Frame site touched d (d.answer step).2 := by
  obtain ⟨hsite, htouch⟩ := h
  unfold Drive.answer
  split
  next hfault => exact ⟨fun _ _ => rfl, .inr ⟨hfault.2, step.call, by simp [← hsite]⟩⟩
  next =>
    obtain ⟨hfailed, hsame⟩ := perform_frame d step.call
    exact ⟨fun p hp => hsame p fun ht => hp (htouch p ht), .inl hfailed⟩

/-- A program that makes only such steps leaves the other paths as they were. -/
theorem frame_of_only {ε α : Type} {site : S} {touched : PosixPath → Prop}
    {p : Prog (Step S) Step.Answer ε α} (hp : Prog.Only (Within site touched) p) (d : Drive S) :
    Prog.Yields Drive.answer (fun _ d' => Frame site touched d d') p d :=
  Prog.yields_of_only (Frame.refl site touched) (fun _ _ _ => Frame.trans)
    (fun d _ h => answer_frame h d) hp d

/-! ## Calls -/

/-- The rule for a call: it fails, or it is performed. -/
theorem yields_call_bind {ε α : Type} {site : S} {call : Call}
    {f : Except IoKind call.Value → Prog (Step S) Step.Answer ε α} {d : Drive S}
    {Q : Except ε α → Drive S → Prop}
    (hfail : d.failed = none → Prog.Yields Drive.answer Q (f (.error .other))
      { d with failed := some ⟨site, call⟩ })
    (hdo : Prog.Yields Drive.answer Q (f (d.perform call).1) (d.perform call).2) :
    Prog.Yields Drive.answer Q (Prog.ask (⟨site, call⟩ : Step S) >>= f) d := by
  refine Prog.yields_ask_bind.mpr ?_
  unfold Drive.answer
  split
  next h => exact hfail h.2
  next => exact hdo

end Disk
