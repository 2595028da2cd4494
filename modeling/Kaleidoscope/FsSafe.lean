import Kaleidoscope.Error

/-!
# Safe file-system updates

Snapshots, the lock beside a target, bounded backups, and writes and removals that either
publish whole or leave the file as it was.  Each helper is a program over single calls, in the
order of the source; `Site` says which of an apply's helpers a call belongs to.

    acquire_yields, atomicWrite_yields, atomicRemove_yields, restoreSnapshot_yields
        what a helper leaves behind, for each place where its one failing call can be
-/

namespace Kaleidoscope

open Prog Disk

inductive Site where
  | lock
  | checkTarget
  | checkReceipt
  | backup
  | target
  | receipt
  | recheck
  | restore
  | removeBackup
  | release
  | prune
  deriving DecidableEq

abbrev FsProg := Prog (Step Site) Step.Answer ManagerError

/-! ## Snapshots -/

/-- What a plan does to the bytes of its target. -/
inductive TargetWrite where
  | write (bytes : Bytes)
  | remove
  /-- touch nothing -/
  | leave
  deriving DecidableEq

namespace TargetWrite

/-- The bytes a plan leaves on disk, given what is there now. -/
def resultingBytes (original : Option Bytes) : TargetWrite → Option Bytes
  | .write bytes => some bytes
  | .remove => none
  | .leave => original

def isRemove (w : TargetWrite) : Bool := w == .remove

def isLeave (w : TargetWrite) : Bool := w == .leave

end TargetWrite

structure Snapshot where
  bytes : Option Bytes
  sha256 : Text
  unixMode : Option Nat
  deriving DecidableEq

section

variable (digestBytes : Bytes → Text)

def Snapshot.absent : Snapshot :=
  { bytes := none, sha256 := digestBytes (Text.utf8 "<absent>".toList), unixMode := none }

/-- The permission bits a snapshot keeps: `mode & 0o777`. -/
def snapshotMode (mode : Nat) : Nat := mode % 512

def validateAbsolutePath (path : PosixPath) (target : String) : Result Unit := do
  rejectIf (!path.absolute) (.unsafePath target "path is not absolute")
  rejectIf path.hasTraversal (.unsafePath target "path contains traversal")

/-- The snapshot of an entry of the file system. -/
def snapshotOf (maximum : Nat) (target : String) : Option Node → Result Snapshot
  | none => .ok (.absent digestBytes)
  | some .symlink => .error (.unsafePath target "selected file is a symlink")
  | some (.file bytes mode) =>
    if bytes.size > maximum then .error (.unsafePath target "not a bounded regular file")
    else .ok { bytes := some bytes, sha256 := digestBytes bytes,
               unixMode := some (snapshotMode mode) }
  | some _ => .error (.unsafePath target "not a bounded regular file")

/-! ## Calls -/

def call (site : Site) (c : Call) : FsProg (Except IoKind c.Value) := ask (⟨site, c⟩ : Step Site)

/-- An action; its error names the operation. -/
def act (site : Site) (action : Action) (operation : String) : FsProg Unit := do
  match ← call site (.act action) with
  | .ok _ => return ()
  | .error kind => fail (.io operation kind)

/-- The metadata of a path, if it exists. -/
def symlinkMetadata (site : Site) (path : PosixPath) (operation : String) :
    FsProg (Option Metadata) := do
  match ← call site (.metadata path) with
  | .ok metadata => return some metadata
  | .error .notFound => return none
  | .error kind => fail (.io operation kind)

def readFile (site : Site) (path : PosixPath) : FsProg Bytes := do
  match ← call site (.read path) with
  | .ok bytes => return bytes
  | .error kind => fail (.io "read file" kind)

def readSnapshot (site : Site) (path : PosixPath) (maximum : Nat) (target : String) :
    FsProg Snapshot := do
  ofExcept (validateAbsolutePath path target)
  match ← symlinkMetadata site path "inspect file" with
  | none => return .absent digestBytes
  | some metadata =>
    failIf (metadata.type = .symlink) (.unsafePath target "selected file is a symlink")
    failIf (metadata.type ≠ .file ∨ metadata.len > maximum)
      (.unsafePath target "not a bounded regular file")
    let bytes ← readFile site path
    failIf (bytes.size > maximum) (.unsafePath target "file grew beyond its size limit")
    return { bytes := some bytes, sha256 := digestBytes bytes,
             unixMode := some (snapshotMode metadata.mode) }

def assertUnchanged (site : Site) (path : PosixPath) (expected : Snapshot) (maximum : Nat)
    (target : String) : FsProg Unit := do
  let found ← readSnapshot digestBytes site path maximum target
  failIf (found ≠ expected) .concurrentEdit

end

/-! ## Directories -/

/-- The path beside `path` with a suffix to its name. -/
structure Sibling (target : PosixPath) (suffix : String) where
  path : PosixPath
  beside : target.withSuffix suffix.toList = some path

def siblingPath (path : PosixPath) (suffix : String) : Result (Sibling path suffix) :=
  match h : path.withSuffix suffix.toList with
  | some sibling => .ok ⟨sibling, h⟩
  | none => .error (.unsafePath "configuration file" "path has no file name")

/-- The directory was created by somebody else in between. -/
def inspectRaced (site : Site) (cursor : PosixPath) : FsProg Unit := do
  match ← call site (.metadata cursor) with
  | .ok metadata =>
    failIf (metadata.type ≠ .directory)
      (.unsafePath "configuration directory" "raced with an unsafe entry")
  | .error kind => fail (.io "inspect directory" kind)

def createDirectory (site : Site) (cursor : PosixPath) : FsProg Unit := do
  match ← call site (.act (.createDirectory cursor)) with
  | .ok _ => act site (.setDirectoryMode cursor) "set directory permissions"
  | .error .alreadyExists => inspectRaced site cursor
  | .error kind => fail (.io "create directory" kind)

def ensureDirectory (site : Site) (cursor : PosixPath) : FsProg Unit := do
  match ← symlinkMetadata site cursor "inspect directory" with
  | some metadata =>
    failIf (metadata.type = .symlink)
      (.unsafePath "configuration directory" "an ancestor is a symlink")
    failIf (metadata.type ≠ .directory)
      (.unsafePath "configuration directory" "an ancestor is not a directory")
  | none => createDirectory site cursor

def ensureDirectories (site : Site) : List PosixPath → FsProg Unit
  | [] => return ()
  | cursor :: rest => do
    ensureDirectory site cursor
    ensureDirectories site rest

def ensureParentDirectory (site : Site) (path : PosixPath) : FsProg Unit := do
  ofExcept (validateAbsolutePath path "configuration file")
  failIf path.parent.isNone (.unsafePath "configuration file" "path has no parent")
  ensureDirectories site path.ancestors

/-! ## The lock -/

def inspectLock (site : Site) (path : PosixPath) : FsProg Unit := do
  match ← symlinkMetadata site path "inspect lock" with
  | some _ => fail (.hostConflict "another manager operation owns the target lock")
  | none => return ()

/-- `FileLock::acquire`: the path of the lock. -/
def acquireLock (site : Site) (target : PosixPath) : FsProg PosixPath := do
  ensureParentDirectory site target
  let lock ← ofExcept (siblingPath target ".kaleidoscope-lock")
  inspectLock site lock.path
  act site (.createFile lock.path 0o600) "create lock"
  act site (.writeProcessId lock.path) "write lock"
  act site (.syncFile lock.path) "sync lock"
  return lock.path

/-- A call whose error is ignored. -/
def ignore (site : Site) (action : Action) : FsProg Unit := do
  let _ ← call site (.act action)
  return ()

/-- Dropping a `FileLock`. -/
def releaseLock (site : Site) (lock : PosixPath) : FsProg Unit := ignore site (.removeFile lock)

/-- The directories that a planner can create. -/
def managedDirectoryNames : List Text :=
  ["use-kaleidoscope".toList, "skills".toList, ".agents".toList, ".claude".toList, "rules".toList,
    ".codex".toList, ".cursor".toList]

/-- Remove the empty managed directories, innermost first. -/
def pruneDirectories (site : Site) : List PosixPath → FsProg Unit
  | [] => return ()
  | directory :: rest => do
    if (directory.fileName.getD []) ∉ managedDirectoryNames then return ()
    else
      match ← call site (.listDirectory directory) with
      | .ok true => return ()
      | _ =>
        match ← call site (.act (.removeDirectory directory)) with
        | .error _ => return ()
        | .ok _ => pruneDirectories site rest

def pruneEmptyManagedDirectories (site : Site) (target : PosixPath) : FsProg Unit :=
  pruneDirectories site target.ancestors.reverse

/-! ## Writes and removals -/

def syncParent (site : Site) (path : PosixPath) : FsProg Unit :=
  match path.parent with
  | none => fail (.unsafePath "configuration file" "path has no parent")
  | some parent => act site (.syncDirectory parent) "sync directory"

def setTemporaryMode (site : Site) (path : PosixPath) : Option Nat → FsProg Unit
  | some mode => act site (.setTemporaryMode path mode) "set file permissions"
  | none => return ()

/-- Fill the temporary file and rename it to the path. -/
def publishTemporary (site : Site) (path : PosixPath) (bytes : Bytes) (unixMode : Option Nat) :
    FsProg Unit := do
  setTemporaryMode site path unixMode
  act site (.writeTemporary path bytes) "write temporary file"
  act site (.syncTemporary path) "sync temporary file"
  act site (.publish path) "publish file"
  syncParent site path

/-- `atomic_write` once the parent directories are there. -/
def replaceFile (site : Site) (path : PosixPath) (bytes : Bytes) (unixMode : Option Nat) :
    FsProg Unit := do
  let found ← call site (.metadata path)
  failIf (found.toOption.any fun metadata => metadata.type = .symlink)
    (.unsafePath "configuration file" "selected file is a symlink")
  act site (.createTemporary path (unixMode.getD 0o600)) "create temporary file"
  match ← (attempt (publishTemporary site path bytes unixMode) : FsProg (Result Unit)) with
  | .ok _ => return ()
  | .error error => do
    ignore site (.removeTemporary path)
    fail error

def atomicWrite (site : Site) (path : PosixPath) (bytes : Bytes) (unixMode : Option Nat) :
    FsProg Unit := do
  ensureParentDirectory site path
  replaceFile site path bytes unixMode

def atomicRemove (site : Site) (path : PosixPath) : FsProg Unit := do
  match ← symlinkMetadata site path "inspect removal target" with
  | none => return ()
  | some metadata =>
    failIf (metadata.type ≠ .file)
      (.unsafePath "configuration file" "removal target is not a regular file")
    act site (.removeFile path) "remove file"
    syncParent site path

def writeBoundedBackup (site : Site) (target : PosixPath) (original : Snapshot) :
    FsProg (Option PosixPath) := do
  match original.bytes with
  | none => return none
  | some bytes =>
    let backup ← ofExcept (siblingPath target ".kaleidoscope-backup")
    atomicWrite site backup.path bytes (some 0o600)
    return some backup.path

def restoreSnapshot (site : Site) (path : PosixPath) (snapshot : Snapshot) : FsProg Unit :=
  match snapshot.bytes with
  | some bytes => atomicWrite site path bytes snapshot.unixMode
  | none => atomicRemove site path

/-! ## What the helpers can touch -/

section

variable {site : Site} {touched : PosixPath → Prop}

theorem call_within {c : Call} (h : ∀ p, c.touches = some p → touched p) :
    Only (Within site touched) (call site c) :=
  only_ask.mpr ⟨rfl, h⟩

theorem act_within {action : Action} {operation : String}
    (h : ∀ p, (Call.act action).touches = some p → touched p) :
    Only (Within site touched) (act site action operation) := by
  refine only_bind (call_within h) fun r => ?_
  cases r <;> trivial

theorem symlinkMetadata_within {path : PosixPath} {operation : String} :
    Only (Within site touched) (symlinkMetadata site path operation) := by
  refine only_bind (call_within fun _ h => nomatch h) fun r => ?_
  split <;> trivial

theorem readSnapshot_within {digestBytes : Bytes → Text} {path : PosixPath} {maximum : Nat}
    {target : String} :
    Only (Within site touched) (readSnapshot digestBytes site path maximum target) := by
  refine only_ofExcept_bind fun _ _ => only_bind symlinkMetadata_within fun found => ?_
  cases found with
  | none => trivial
  | some metadata =>
    refine only_failIf_bind (only_failIf_bind (only_bind ?_ fun _ => only_failIf_bind trivial))
    refine only_bind (call_within fun _ h => nomatch h) fun r => ?_
    cases r <;> trivial

theorem assertUnchanged_within {digestBytes : Bytes → Text} {path : PosixPath} {expected : Snapshot}
    {maximum : Nat} {target : String} :
    Only (Within site touched)
      (assertUnchanged digestBytes site path expected maximum target) :=
  only_bind readSnapshot_within fun _ => trivial

theorem ensureDirectory_within {cursor : PosixPath} (h : touched cursor) :
    Only (Within site touched) (ensureDirectory site cursor) := by
  refine only_bind symlinkMetadata_within fun found => ?_
  cases found with
  | some metadata => exact only_failIf_bind trivial
  | none =>
    refine only_bind (call_within fun _ ht => by cases ht; exact h) fun r => ?_
    split
    · exact act_within fun _ ht => nomatch ht
    · refine only_bind (call_within fun _ ht => nomatch ht) fun r => ?_
      cases r <;> trivial
    · trivial

theorem ensureDirectories_within {cursors : List PosixPath} (h : ∀ p ∈ cursors, touched p) :
    Only (Within site touched) (ensureDirectories site cursors) := by
  induction cursors with
  | nil => trivial
  | cons cursor rest ih =>
    refine only_bind (ensureDirectory_within (h cursor (by simp))) fun _ => ?_
    exact ih fun p hp => h p (by simp [hp])

theorem ensureParentDirectory_within {path : PosixPath} (h : ∀ p ∈ path.ancestors, touched p) :
    Only (Within site touched) (ensureParentDirectory site path) :=
  only_ofExcept_bind fun _ _ => only_failIf_bind (ensureDirectories_within h)

theorem ignore_within {action : Action} (h : ∀ p, (Call.act action).touches = some p → touched p) :
    Only (Within site touched) (ignore site action) :=
  only_bind (call_within h) fun _ => trivial

theorem acquireLock_within {target : PosixPath} (h : ∀ p ∈ target.ancestors, touched p)
    (hlock : ∀ p, target.withSuffix ".kaleidoscope-lock".toList = some p → touched p) :
    Only (Within site touched) (acquireLock site target) := by
  refine only_bind (ensureParentDirectory_within h) fun _ => ?_
  refine only_ofExcept_bind fun lock _ => ?_
  have hp : touched lock.path := hlock lock.path lock.beside
  refine only_bind (only_bind symlinkMetadata_within fun r => by cases r <;> trivial) fun _ => ?_
  refine only_bind (act_within fun _ ht => by cases ht; exact hp) fun _ => ?_
  refine only_bind (act_within fun _ ht => by cases ht; exact hp) fun _ => ?_
  exact only_bind (act_within fun _ ht => nomatch ht) fun _ => trivial

theorem pruneDirectories_within {directories : List PosixPath} (h : ∀ p ∈ directories, touched p) :
    Only (Within site touched) (pruneDirectories site directories) := by
  induction directories with
  | nil => trivial
  | cons directory rest ih =>
    unfold pruneDirectories
    split
    · trivial
    · refine only_bind (call_within fun _ ht => nomatch ht) fun r => ?_
      split
      · trivial
      · refine only_bind (call_within fun _ ht => by cases ht; exact h directory (by simp))
          fun r => ?_
        cases r
        · trivial
        · exact ih fun p hp => h p (by simp [hp])

theorem syncParent_within {path : PosixPath} : Only (Within site touched) (syncParent site path) := by
  unfold syncParent
  split
  · trivial
  · exact act_within fun _ ht => nomatch ht

theorem publishTemporary_within {path : PosixPath} {bytes : Bytes} {unixMode : Option Nat}
    (h : touched path) :
    Only (Within site touched) (publishTemporary site path bytes unixMode) := by
  have hmode : Only (Within site touched) (setTemporaryMode site path unixMode) := by
    cases unixMode with
    | none => trivial
    | some mode => exact act_within fun _ ht => nomatch ht
  refine only_bind hmode fun _ => ?_
  refine only_bind (act_within fun _ ht => nomatch ht) fun _ => ?_
  refine only_bind (act_within fun _ ht => nomatch ht) fun _ => ?_
  refine only_bind (act_within fun _ ht => by cases ht; exact h) fun _ => syncParent_within

theorem replaceFile_within {path : PosixPath} {bytes : Bytes} {unixMode : Option Nat}
    (h : touched path) : Only (Within site touched) (replaceFile site path bytes unixMode) := by
  refine only_bind (call_within fun _ ht => nomatch ht) fun found => only_failIf_bind ?_
  refine only_bind (act_within fun _ ht => nomatch ht) fun _ => ?_
  refine only_bind (only_attempt (publishTemporary_within h)) fun r => ?_
  cases r with
  | ok _ => trivial
  | error x => exact only_bind (ignore_within fun _ ht => nomatch ht) fun _ => trivial

theorem atomicRemove_within {path : PosixPath} (h : touched path) :
    Only (Within site touched) (atomicRemove site path) := by
  refine only_bind symlinkMetadata_within fun found => ?_
  cases found with
  | none => trivial
  | some metadata =>
    refine only_failIf_bind (only_bind (act_within fun _ ht => by cases ht; exact h) fun _ => ?_)
    exact syncParent_within

end

/-! ## What the helpers leave behind -/

/-- A run on a drive. -/
abbrev Runs {α : Type} (Q : Result α → Drive Site → Prop) (p : FsProg α) (d : Drive Site) : Prop :=
  Yields Drive.answer Q p d

/-- The drive after a call failed. -/
def failAt (site : Site) (c : Call) (d : Drive Site) : Drive Site :=
  { d with failed := some ⟨site, c⟩ }

/-- The directories above a path exist. -/
structure Housed (fs : Fs) (path : PosixPath) : Prop where
  valid : validateAbsolutePath path "configuration file" = .ok ()
  parent : ∃ parent, path.parent = some parent ∧ fs.isDirectory parent = true
  ancestors : ∀ p ∈ path.ancestors, fs.get p = some .directory

section

variable {α : Type} {site : Site} {d : Drive Site} {Q : Result α → Drive Site → Prop}

theorem symlinkMetadata_yields {path : PosixPath} {operation : String}
    {f : Option Metadata → FsProg α}
    (hfail : d.failed = none → Q (.error (.io operation .other)) (failAt site (.metadata path) d))
    (hok : Runs Q (f ((d.fs.get path).map Node.metadata)) d) :
    Runs Q (symlinkMetadata site path operation >>= f) d := by
  unfold symlinkMetadata
  rw [bind_assoc]
  refine yields_call_bind (fun hd => yields_done.mpr (hfail hd)) ?_
  simp only [Drive.perform]
  cases h : d.fs.get path with
  | none => simpa [h] using hok
  | some node => simpa [h] using hok

theorem act_yields {action : Action} {operation : String} {w : Drive Site} {f : Unit → FsProg α}
    (h : d.act action = .ok w)
    (hfail : d.failed = none → Q (.error (.io operation .other)) (failAt site (.act action) d))
    (hok : Runs Q (f ()) w) : Runs Q (act site action operation >>= f) d := by
  unfold act
  rw [bind_assoc]
  refine yields_call_bind (fun hd => yields_done.mpr (hfail hd)) ?_
  simpa [Drive.perform, h] using hok

theorem act_ends {action : Action} {operation : String} {w : Drive Site}
    {Q : Result Unit → Drive Site → Prop} (h : d.act action = .ok w)
    (hfail : d.failed = none → Q (.error (.io operation .other)) (failAt site (.act action) d))
    (hok : Q (.ok ()) w) : Runs Q (act site action operation) d := by
  refine yields_call_bind (fun hd => yields_done.mpr (hfail hd)) ?_
  simpa [Drive.perform, h] using hok

theorem ignore_yields {action : Action} {f : Unit → FsProg α}
    (hfail : d.failed = none → Runs Q (f ()) (failAt site (.act action) d))
    (hok : Runs Q (f ()) (d.perform (.act action)).2) : Runs Q (ignore site action >>= f) d := by
  unfold ignore
  rw [bind_assoc]
  exact yields_call_bind hfail hok

/-- A snapshot is that of the entry, unless a call fails. -/
theorem readSnapshot_yields {digestBytes : Bytes → Text} {path : PosixPath} {maximum : Nat}
    {target : String} {f : Snapshot → FsProg α}
    (hvalid : validateAbsolutePath path target = .ok ())
    (hfail : ∀ x c, d.failed = none → Q (.error x) (failAt site c d))
    (hok : ∀ snapshot, snapshotOf digestBytes maximum target (d.fs.get path) = .ok snapshot →
      Runs Q (f snapshot) d)
    (herr : ∀ x, snapshotOf digestBytes maximum target (d.fs.get path) = .error x →
      Q (.error x) d) :
    Runs Q (readSnapshot digestBytes site path maximum target >>= f) d := by
  unfold readSnapshot
  rw [hvalid]
  simp only [bind_assoc]
  refine symlinkMetadata_yields (fun hd => hfail _ _ hd) ?_
  cases hnode : d.fs.get path with
  | none => exact hok _ (by rw [hnode]; rfl)
  | some node =>
    rw [hnode] at hok herr
    simp only [Option.map_some, bind_assoc]
    cases node with
    | file bytes mode =>
      refine yields_failIf_bind (fun _ => ?_) fun h => by cases h
      by_cases hsize : bytes.size > maximum
      · refine yields_failIf_bind (fun h => absurd (.inr hsize) h) fun _ => herr _ ?_
        simp [snapshotOf, hsize]
      · refine yields_failIf_bind (fun _ => ?_) fun h => ?_
        · unfold readFile
          simp only [bind_assoc]
          refine yields_call_bind (fun hd => yields_done.mpr (hfail _ _ hd)) ?_
          simp only [Drive.perform, hnode]
          refine yields_failIf_bind (fun _ => hok _ ?_) fun h => absurd h hsize
          simp [snapshotOf, hsize, Node.metadata]
        · rcases h with h | h
          · exact absurd rfl h
          · exact absurd h hsize
    | symlink =>
      refine yields_failIf_bind (fun h => absurd rfl h) fun _ => herr _ rfl
    | directory =>
      refine yields_failIf_bind (fun _ => ?_) fun h => by cases h
      refine yields_failIf_bind (fun h => ?_) fun _ => herr _ rfl
      exact absurd (.inl (by simp [Node.metadata])) h
    | special =>
      refine yields_failIf_bind (fun _ => ?_) fun h => by cases h
      refine yields_failIf_bind (fun h => ?_) fun _ => herr _ rfl
      exact absurd (.inl (by simp [Node.metadata])) h

theorem assertUnchanged_yields {digestBytes : Bytes → Text} {path : PosixPath} {expected : Snapshot}
    {maximum : Nat} {target : String} {f : Unit → FsProg α}
    (hvalid : validateAbsolutePath path target = .ok ())
    (hfail : ∀ x c, d.failed = none → Q (.error x) (failAt site c d))
    (hok : snapshotOf digestBytes maximum target (d.fs.get path) = .ok expected →
      Runs Q (f ()) d)
    (herr : ∀ x, snapshotOf digestBytes maximum target (d.fs.get path) ≠ .ok expected →
      Q (.error x) d) :
    Runs Q (assertUnchanged digestBytes site path expected maximum target >>= f) d := by
  unfold assertUnchanged
  rw [bind_assoc]
  refine readSnapshot_yields hvalid hfail (fun snapshot hs => ?_) fun x hx => ?_
  · refine yields_failIf_bind (fun h => hok ?_) fun h => herr _ ?_
    · rw [hs, not_not.mp h]
    · intro heq
      rw [hs] at heq
      exact h (Except.ok.inj heq)
  · refine herr x fun heq => ?_
    rw [hx] at heq
    cases heq

theorem ensureDirectories_yields {cursors : List PosixPath} {f : Unit → FsProg α}
    (hdirs : ∀ p ∈ cursors, d.fs.get p = some .directory)
    (hfail : ∀ x, ∀ p ∈ cursors, d.failed = none → Q (.error x) (failAt site (.metadata p) d))
    (hok : Runs Q (f ()) d) : Runs Q (ensureDirectories site cursors >>= f) d := by
  induction cursors with
  | nil => exact hok
  | cons cursor rest ih =>
    unfold ensureDirectories ensureDirectory
    simp only [bind_assoc]
    refine symlinkMetadata_yields (fun hd => hfail _ cursor (by simp) hd) ?_
    rw [hdirs cursor (by simp)]
    simp only [Option.map_some, bind_assoc]
    refine yields_failIf_bind (fun _ => ?_) fun h => nomatch h
    refine yields_failIf_bind (fun _ => ?_) fun h => absurd rfl h
    exact ih (fun p hp => hdirs p (by simp [hp])) fun x p hp => hfail x p (by simp [hp])

theorem ensureParentDirectory_yields {path : PosixPath} {f : Unit → FsProg α}
    (hhoused : Housed d.fs path)
    (hfail : ∀ x, ∀ p ∈ path.ancestors, d.failed = none →
      Q (.error x) (failAt site (.metadata p) d))
    (hok : Runs Q (f ()) d) : Runs Q (ensureParentDirectory site path >>= f) d := by
  obtain ⟨parent, hparent, _⟩ := hhoused.parent
  unfold ensureParentDirectory
  rw [hhoused.valid]
  simp only [bind_assoc]
  refine yields_failIf_bind (fun _ => ?_) fun h => ?_
  · exact ensureDirectories_yields hhoused.ancestors hfail hok
  · simp [hparent] at h

theorem syncParent_yields {path parent : PosixPath} {Q : Result Unit → Drive Site → Prop}
    (hparent : path.parent = some parent) (hdir : d.fs.isDirectory parent = true)
    (hfail : ∀ x, d.failed = none →
      Q (.error x) (failAt site (.act (.syncDirectory parent)) d))
    (hok : Q (.ok ()) d) : Runs Q (syncParent site path) d := by
  unfold syncParent
  rw [hparent]
  exact act_ends (by simp [Drive.act, hdir]) (hfail _) hok

/-- The node a path may hold so that a file can replace it: a file, or nothing. -/
def Replaceable (node : Option Node) : Prop :=
  ∀ n, node = some n → ∃ bytes mode, n = .file bytes mode

/-- How a write or a removal ends: done, not begun, or done with an error at its last call.  An
error of a write's look at the path is ignored. -/
inductive Put (site : Site) (path parent : PosixPath) (node : Option Node) (d : Drive Site) :
    Result Unit → Drive Site → Prop where
  | done {d' : Drive Site} (fs : ∀ q, d'.fs.get q = if q = path then node else d.fs.get q)
      (failed : d'.failed = d.failed ∨ node.isSome = true ∧ d.failed = none
        ∧ d'.failed = some ⟨site, .metadata path⟩) : Put site path parent node d (.ok ()) d'
  | undone {x : ManagerError} {d' : Drive Site} {c : Call} (fs : d'.fs = d.fs)
      (clean : d.failed = none) (failed : d'.failed = some ⟨site, c⟩)
      (call : node.isSome = true → c ≠ .metadata path) (sync : c ≠ .act (.syncDirectory parent)) :
      Put site path parent node d (.error x) d'
  | unsynced {x : ManagerError} {d' : Drive Site}
      (fs : ∀ q, d'.fs.get q = if q = path then node else d.fs.get q) (clean : d.failed = none)
      (failed : d'.failed = some ⟨site, .act (.syncDirectory parent)⟩) :
      Put site path parent node d (.error x) d'

theorem isDirectory_set {fs : Fs} {path parent : PosixPath} {node : Node}
    (hne : parent ≠ path) (h : fs.isDirectory parent = true) :
    (fs.set path node).isDirectory parent = true := by
  simpa [Fs.isDirectory, Fs.get_set, hne] using h

theorem parent_ne {path parent : PosixPath} (h : path.parent = some parent) : parent ≠ path := by
  rintro rfl
  have hlen := PosixPath.length_parent h
  omega

/-- The look at a path that a file can replace: what follows it is as it was, but for the look's
own failure. -/
theorem look_yields {α : Type} {Q : Result α → Drive Site → Prop} {path : PosixPath}
    {f : Except IoKind Metadata → FsProg α} (hnode : Replaceable (d.fs.get path))
    (hrest : ∀ found (d₀ : Drive Site), d₀.fs = d.fs →
      (d₀.failed = d.failed ∨ d.failed = none ∧ d₀.failed = some ⟨site, .metadata path⟩) →
      (found.toOption.any fun metadata => metadata.type = .symlink) = false → Runs Q (f found) d₀) :
    Runs Q (call site (.metadata path) >>= f) d := by
  refine yields_call_bind (fun hd => ?_) ?_
  · exact hrest (.error .other) _ rfl (.inr ⟨hd, rfl⟩) rfl
  · cases hn : d.fs.get path with
    | none =>
      rw [perform_metadata_none hn]
      exact hrest (.error .notFound) d rfl (.inl rfl) rfl
    | some n =>
      obtain ⟨b, m, rfl⟩ := hnode n hn
      rw [perform_metadata_some hn]
      exact hrest (.ok (Node.file b m).metadata) d rfl (.inl rfl) rfl

theorem replaceFile_yields {path parent : PosixPath} {bytes : Bytes} {mode : Nat}
    (hparent : path.parent = some parent) (hdir : d.fs.isDirectory parent = true)
    (hnode : Replaceable (d.fs.get path)) :
    Runs (Put site path parent (some (.file bytes mode)) d)
      (replaceFile site path bytes (some mode)) d := by
  unfold replaceFile
  refine look_yields hnode fun found d₀ hfs hfailed hfound => ?_
  have hclean : d₀.failed = none → d.failed = none := by
    intro h
    rcases hfailed with h' | ⟨h', _⟩
    · rw [← h', h]
    · exact h'
  refine yields_failIf_bind (fun _ => ?_) fun h => by rw [hfound] at h; cases h
  refine act_yields (w := { d₀ with temporary := some (ByteArray.empty, mode) })
    (by simp [Drive.act, hparent, hfs, hdir]) (fun hd => ?_) ?_
  · exact .undone hfs (hclean hd) rfl (fun _ => by simp) (by simp)
  refine yields_attempt_bind ?_
  unfold publishTemporary setTemporaryMode
  have hcleanup : ∀ {c : Call} {x : ManagerError} {t : Option (Bytes × Nat)},
      d₀.failed = none → c ≠ .metadata path → c ≠ .act (.syncDirectory parent) →
      Runs (Put site path parent (some (.file bytes mode)) d) (do
        ignore site (.removeTemporary path)
        fail x) (failAt site c { d₀ with temporary := t }) := by
    intro c x t hd hc hs
    refine ignore_yields (fun h => by cases h) (yields_fail.mpr ?_)
    exact .undone hfs (hclean hd) rfl (fun _ => hc) hs
  refine act_yields (w := { d₀ with temporary := some (ByteArray.empty, mode) }) rfl
    (fun hd => hcleanup hd (by simp) (by simp)) ?_
  refine act_yields (w := { d₀ with temporary := some (bytes, mode) }) rfl
    (fun hd => hcleanup hd (by simp) (by simp)) ?_
  refine act_yields (w := { d₀ with temporary := some (bytes, mode) }) rfl
    (fun hd => hcleanup hd (by simp) (by simp)) ?_
  have hpublish : Drive.act { d₀ with temporary := some (bytes, mode) } (.publish path)
      = .ok { d₀ with fs := d₀.fs.set path (.file bytes mode), temporary := none } := by
    simp only [Drive.act, hfs]
    cases hn : d.fs.get path with
    | none => rfl
    | some n =>
      obtain ⟨b, m, rfl⟩ := hnode n hn
      rfl
  refine act_yields hpublish (fun hd => hcleanup hd (by simp) (by simp)) ?_
  have hdir' : (d₀.fs.set path (.file bytes mode)).isDirectory parent = true := by
    rw [hfs]
    exact isDirectory_set (parent_ne hparent) hdir
  refine syncParent_yields hparent hdir' (fun x hd => ?_) ?_
  · refine ignore_yields (fun h => by cases h) (yields_fail.mpr ?_)
    exact .unsynced (fun q => by simp [Drive.perform, Drive.act, failAt, hfs, Fs.get_set])
      (hclean hd) rfl
  · refine yields_done.mpr (.done (fun q => by simp [hfs, Fs.get_set]) ?_)
    exact hfailed.imp_right fun h => ⟨rfl, h⟩

theorem atomicWrite_yields {path parent : PosixPath} {bytes : Bytes} {mode : Nat}
    (hhoused : Housed d.fs path) (hparent : path.parent = some parent)
    (hnode : Replaceable (d.fs.get path)) :
    Runs (Put site path parent (some (.file bytes mode)) d)
      (atomicWrite site path bytes (some mode)) d := by
  obtain ⟨parent', hparent', hdir⟩ := hhoused.parent
  rw [hparent] at hparent'
  cases hparent'
  refine ensureParentDirectory_yields hhoused (fun x p hp hd => ?_)
    (replaceFile_yields hparent hdir hnode)
  refine .undone rfl hd rfl (fun _ h => ?_) (by simp)
  have hlt := PosixPath.length_lt_of_mem_ancestors hp
  cases h
  omega

theorem atomicRemove_yields {path parent : PosixPath} (hparent : path.parent = some parent)
    (hdir : d.fs.isDirectory parent = true) (hnode : Replaceable (d.fs.get path)) :
    Runs (Put site path parent none d) (atomicRemove site path) d := by
  unfold atomicRemove
  refine symlinkMetadata_yields (fun hd => ?_) ?_
  · exact .undone rfl hd rfl (fun h => nomatch h) (by simp)
  cases hn : d.fs.get path with
  | none =>
    refine yields_done.mpr (.done (fun q => ?_) (.inl rfl))
    split
    next hq => rw [hq, hn]
    next => rfl
  | some n =>
    obtain ⟨bytes, mode, rfl⟩ := hnode n hn
    simp only [Option.map_some]
    refine yields_failIf_bind (fun _ => ?_) fun h => absurd rfl h
    refine act_yields (w := { d with fs := d.fs.remove path }) (by simp [Drive.act, hn])
      (fun hd => ?_) ?_
    · exact .undone rfl hd rfl (fun h => nomatch h) (by simp)
    have hdir' : (d.fs.remove path).isDirectory parent = true := by
      simpa [Fs.isDirectory, Fs.get_remove, parent_ne hparent] using hdir
    refine syncParent_yields hparent hdir' (fun x hd => ?_) ?_
    · exact .unsynced (fun q => Fs.get_remove) hd rfl
    · exact .done (fun q => Fs.get_remove) (.inl rfl)

/-- Removing what is not a file fails and changes nothing. -/
theorem atomicRemove_irregular {path : PosixPath} {node : Node} (hn : d.fs.get path = some node)
    (hnode : ∀ bytes mode, node ≠ .file bytes mode) :
    Runs (fun r d' => (∃ x, r = .error x) ∧ d'.fs = d.fs
      ∧ (d'.failed = d.failed ∨ d.failed = none ∧ ∃ c, d'.failed = some ⟨site, c⟩))
      (atomicRemove site path) d := by
  unfold atomicRemove
  refine symlinkMetadata_yields (fun hd => ⟨⟨_, rfl⟩, rfl, .inr ⟨hd, _, rfl⟩⟩) ?_
  rw [hn]
  refine yields_failIf_bind (fun h => ?_) fun _ => ⟨⟨_, rfl⟩, rfl, .inl rfl⟩
  cases node with
  | file bytes mode => exact absurd rfl (hnode bytes mode)
  | _ => exact absurd (by simp [Node.metadata]) h

/-! ## Directories and the lock -/

/-- A path that can be made a directory, or is one. -/
def Passable (node : Option Node) : Prop := node = none ∨ node = some .directory

/-- How making sure of directories ends. -/
inductive Ensured (site : Site) (cursors : List PosixPath) (d : Drive Site) :
    Result Unit → Drive Site → Prop where
  | done {d' : Drive Site} (dirs : ∀ p ∈ cursors, d'.fs.get p = some .directory)
      (found : ∀ p ∈ cursors, Passable (d.fs.get p)) (failed : d'.failed = d.failed) :
      Ensured site cursors d (.ok ()) d'
  | failed {x : ManagerError} {d' : Drive Site} {c : Call} (clean : d.failed = none)
      (failed : d'.failed = some ⟨site, c⟩) : Ensured site cursors d (.error x) d'
  | refused {x : ManagerError} {d' : Drive Site} {p : PosixPath} (cursor : p ∈ cursors)
      (node : ¬Passable (d.fs.get p)) (failed : d'.failed = d.failed) :
      Ensured site cursors d (.error x) d'

theorem ensureDirectory_yields {cursor parent : PosixPath} (hparent : cursor.parent = some parent)
    (hdir : d.fs.isDirectory parent = true) :
    Runs (Ensured site [cursor] d) (ensureDirectory site cursor) d := by
  unfold ensureDirectory
  refine symlinkMetadata_yields (fun hd => .failed hd rfl) ?_
  cases hn : d.fs.get cursor with
  | some node =>
    have hrefused : node ≠ .directory → ∀ x, Ensured site [cursor] d (.error x) d := by
      intro hne x
      refine .refused (List.mem_singleton.mpr rfl) ?_ rfl
      rintro (h | h)
      · rw [hn] at h
        cases h
      · rw [hn] at h
        exact hne (Option.some.inj h)
    simp only [Option.map_some]
    refine yields_failIf_bind (fun _ => ?_) fun h => hrefused (by rintro rfl; cases h) _
    unfold failIf
    refine yields_ofExcept.mpr ?_
    by_cases hd : node = .directory
    · subst hd
      refine .done ?_ ?_ rfl
      · simpa using hn
      · intro p hp
        rw [List.mem_singleton.mp hp]
        exact .inr hn
    · have htype : node.metadata.type ≠ .directory := by
        cases node with
        | directory => exact absurd rfl hd
        | _ => simp [Node.metadata]
      rw [rejectIf, if_pos htype]
      exact hrefused hd _
  | none =>
    simp only [Option.map_none]
    unfold createDirectory
    refine yields_call_bind (fun hd => yields_done.mpr (.failed hd rfl)) ?_
    have hact : d.act (.createDirectory cursor)
        = .ok { d with fs := d.fs.set cursor .directory } := by
      simp [Drive.act, hn, hparent, hdir]
    simp only [Drive.perform, hact]
    have hset : ({ d with fs := d.fs.set cursor .directory } : Drive Site).fs.get cursor
        = some .directory := by simp [Fs.get_set]
    refine act_ends (w := { d with fs := d.fs.set cursor .directory }) ?_
      (fun hd => .failed hd rfl) ?_
    · simp [Drive.act, Fs.isDirectory, Fs.get_set]
    · refine .done (by simpa using hset) (fun p hp => ?_) rfl
      rw [List.mem_singleton.mp hp]
      exact .inl hn

/-- Two facts about one run. -/
theorem yields_and {β : Type} {P R : Result β → Drive Site → Prop} {p : FsProg β}
    (h : Runs P p d) (h' : Runs R p d) : Runs (fun r d' => P r d' ∧ R r d') p d := by
  obtain ⟨r, d', hrun, hp⟩ := h
  obtain ⟨r', d'', hrun', hr⟩ := h'
  rw [hrun] at hrun'
  cases hrun'
  exact ⟨r, d', hrun, hp, hr⟩

theorem ensureDirectories_general {rest : List Component} {base : PosixPath}
    (hbase : d.fs.isDirectory base = true) :
    Runs (Ensured site (PosixPath.prefixes base rest) d)
      (ensureDirectories site (PosixPath.prefixes base rest)) d := by
  induction rest generalizing base d with
  | nil => exact yields_done.mpr (.done (fun _ h => nomatch h) (fun _ h => nomatch h) rfl)
  | cons c rest ih =>
    simp only [PosixPath.prefixes]
    generalize hnext : ({ base with components := base.components ++ [c] } : PosixPath) = next
    have hparent : next.parent = some base := by
      rw [← hnext]
      exact PosixPath.parent_next base c
    unfold ensureDirectories
    have hens : Runs (Ensured site [next] d) (ensureDirectory site next) d :=
      ensureDirectory_yields hparent hbase
    have hone : Only (Within site fun p => p = next) (ensureDirectory site next) :=
      ensureDirectory_within rfl
    have hmany : Only (Within site fun p => p ∈ PosixPath.prefixes next rest)
        (ensureDirectories site (PosixPath.prefixes next rest)) :=
      ensureDirectories_within fun p hp => hp
    have hfirst := yields_and hens (frame_of_only hone d)
    refine yields_bind hfirst (fun _ d₁ h => ?_) fun x d₁ h => ?_
    · obtain ⟨hens, hframe⟩ := h
      cases hens with
      | done dirs found failed =>
        have hnextdir := dirs next (List.mem_singleton.mpr rfl)
        have hdir₁ : d₁.fs.isDirectory next = true := by simp [Fs.isDirectory, hnextdir]
        have hne : ∀ p ∈ PosixPath.prefixes next rest, p ≠ next := by
          rintro p hp rfl
          exact absurd (PosixPath.length_lt_of_mem_prefixes hp) (lt_irrefl _)
        refine yields_mono (yields_and (ih hdir₁) (frame_of_only hmany d₁)) fun r d₂ h => ?_
        obtain ⟨hrest, hframe₂⟩ := h
        cases hrest with
        | done dirs₂ found₂ failed₂ =>
          refine .done (fun p hp => ?_) (fun p hp => ?_) (failed₂.trans failed)
          · rcases List.mem_cons.mp hp with rfl | hp
            · rw [hframe₂.same p fun h => hne p h rfl]
              exact hnextdir
            · exact dirs₂ p hp
          · rcases List.mem_cons.mp hp with rfl | hp
            · exact found p (List.mem_singleton.mpr rfl)
            · rw [← hframe.same p (hne p hp)]
              exact found₂ p hp
        | failed clean failed₂ => exact .failed (failed ▸ clean) failed₂
        | refused cursor node failed₂ =>
          refine .refused (List.mem_cons_of_mem _ cursor) ?_ (failed₂.trans failed)
          rw [← hframe.same _ (hne _ cursor)]
          exact node
    · obtain ⟨hens, _⟩ := h
      cases hens with
      | failed clean failed => exact .failed clean failed
      | refused cursor node failed =>
        exact .refused (List.mem_cons.mpr (.inl (List.mem_singleton.mp cursor))) node failed

theorem validateAbsolutePath_ok {path : PosixPath} {target : String}
    (h : validateAbsolutePath path target = .ok ()) :
    path.absolute = true ∧ path.hasTraversal = false := by
  obtain ⟨_, h₁, h₂⟩ := except_bind_eq_ok.mp h
  exact ⟨by simpa using rejectIf_eq_ok.mp h₁, by simpa using rejectIf_eq_ok.mp h₂⟩

theorem validateAbsolutePath_of {path : PosixPath} {target : String} (h : path.absolute = true)
    (h' : path.hasTraversal = false) : validateAbsolutePath path target = .ok () := by
  unfold validateAbsolutePath
  rw [h, h']
  rfl

/-- The directories stay as long as the paths above do. -/
theorem Housed.frame {fs fs' : Fs} {path : PosixPath} (h : Housed fs path)
    (hsame : ∀ q, q.components.length < path.components.length → fs'.get q = fs.get q) :
    Housed fs' path := by
  obtain ⟨parent, hparent, hdir⟩ := h.parent
  refine ⟨h.valid, ⟨parent, hparent, ?_⟩, fun p hp => ?_⟩
  · have hlen := PosixPath.length_parent hparent
    have heq := hsame parent (by omega)
    unfold Fs.isDirectory at hdir ⊢
    rw [heq]
    exact hdir
  · rw [hsame p (PosixPath.length_lt_of_mem_ancestors hp)]
    exact h.ancestors p hp

theorem valid_withSuffix {path sibling : PosixPath} {suffix : Text} {target target' : String}
    (h : validateAbsolutePath path target = .ok ())
    (hsibling : path.withSuffix suffix = some sibling) :
    validateAbsolutePath sibling target' = .ok () := by
  obtain ⟨habs, htraversal⟩ := validateAbsolutePath_ok h
  obtain ⟨name, parent, hname, hparent, rfl⟩ := PosixPath.withSuffix_eq_some.mp hsibling
  have hpath := PosixPath.eq_join hname hparent
  subst hpath
  refine validateAbsolutePath_of habs ?_
  simp only [PosixPath.hasTraversal, PosixPath.join, List.any_append] at htraversal ⊢
  simpa using htraversal

theorem Housed.withSuffix {fs : Fs} {path sibling : PosixPath} {suffix : Text} (h : Housed fs path)
    (hsibling : path.withSuffix suffix = some sibling) : Housed fs sibling := by
  refine ⟨valid_withSuffix h.valid hsibling, ?_, ?_⟩
  · rw [PosixPath.parent_withSuffix hsibling]
    exact h.parent
  · rw [PosixPath.ancestors_withSuffix hsibling]
    exact h.ancestors

/-- What the lock needs of the file system. -/
structure Lockable (fs : Fs) (target lock : PosixPath) : Prop where
  free : fs.get lock = none
  passable : ∀ p ∈ target.ancestors, Passable (fs.get p)

theorem siblingPath_of {path sibling : PosixPath} {suffix : String}
    (h : path.withSuffix suffix.toList = some sibling) :
    siblingPath path suffix = .ok ⟨sibling, h⟩ := by
  unfold siblingPath
  split
  next found hfound =>
    rw [h] at hfound
    cases hfound
    rfl
  next hnone =>
    rw [h] at hnone
    cases hnone

/-- How acquiring the lock ends. -/
inductive Acquired (site : Site) (target lock : PosixPath) (d : Drive Site) :
    Result PosixPath → Drive Site → Prop where
  | held {d' : Drive Site} (lockable : Lockable d.fs target lock) (housed : Housed d'.fs target)
      (failed : d'.failed = d.failed) : Acquired site target lock d (.ok lock) d'
  | failed {x : ManagerError} {d' : Drive Site} {c : Call} (clean : d.failed = none)
      (failed : d'.failed = some ⟨site, c⟩) : Acquired site target lock d (.error x) d'
  | refused {x : ManagerError} {d' : Drive Site} (locked : ¬Lockable d.fs target lock)
      (failed : d'.failed = d.failed) : Acquired site target lock d (.error x) d'

theorem acquireLock_yields {target lock : PosixPath} {name : String}
    (hvalid : validateAbsolutePath target name = .ok ())
    (hlock : target.withSuffix ".kaleidoscope-lock".toList = some lock) :
    Runs (Acquired site target lock d) (acquireLock site target) d := by
  obtain ⟨fname, parent, hname, hparent, hjoin⟩ := PosixPath.withSuffix_eq_some.mp hlock
  obtain ⟨habs, htraversal⟩ := validateAbsolutePath_ok hvalid
  have hvalid' : validateAbsolutePath target "configuration file" = .ok () :=
    validateAbsolutePath_of habs htraversal
  have hlocklen := PosixPath.length_withSuffix hlock
  -- every directory above the target is a shorter path than the lock
  have hshort : ∀ p ∈ target.ancestors, p ≠ lock := by
    rintro p hp rfl
    have hlt := PosixPath.length_lt_of_mem_ancestors hp
    omega
  unfold acquireLock ensureParentDirectory
  rw [hvalid']
  simp only [bind_assoc]
  refine yields_failIf_bind (fun _ => ?_) fun h => by simp [hparent] at h
  have hbase : d.fs.isDirectory { target with components := [] } = true := by
    simp [Fs.isDirectory, PosixPath.root, habs]
  have hens : Runs (Ensured site target.ancestors d)
      (ensureDirectories site target.ancestors) d :=
    ensureDirectories_general hbase
  have hwithin : Only (Within site fun p => p ∈ target.ancestors)
      (ensureDirectories site target.ancestors) :=
    ensureDirectories_within fun p hp => hp
  have hdirs := yields_and hens (frame_of_only hwithin d)
  refine yields_bind hdirs (fun _ d₁ h => ?_) fun x d₁ h => ?_
  · obtain ⟨hens, hframe⟩ := h
    cases hens with
    | done dirs found failed =>
      have hfree : d₁.fs.get lock = d.fs.get lock :=
        hframe.same lock fun h => hshort lock h rfl
      have hclean : d₁.failed = none → d.failed = none := fun h => failed ▸ h
      have hroot : d₁.fs.isDirectory parent = true := by
        cases hc : parent.components with
        | nil =>
          have hp : parent = { target with components := [] } := by
            rw [PosixPath.eq_join hname hparent]
            cases parent
            cases hc
            rfl
          rw [hp]
          simp [Fs.isDirectory, PosixPath.root, habs]
        | cons c rest =>
          have hmem : parent ∈ target.ancestors := by
            refine PosixPath.parent_mem_ancestors hparent ?_
            rw [hc]
            simp
          simp [Fs.isDirectory, dirs parent hmem]
      have hhoused : Housed d₁.fs target := ⟨hvalid', ⟨parent, hparent, hroot⟩, dirs⟩
      rw [siblingPath_of hlock]
      unfold inspectLock
      simp only [bind_assoc]
      refine symlinkMetadata_yields (fun hd => .failed (hclean hd) rfl) ?_
      rw [hfree]
      cases hn : d.fs.get lock with
      | some node =>
        refine yields_done.mpr (.refused (fun h => ?_) failed)
        rw [h.free] at hn
        cases hn
      | none =>
        have hlockable : Lockable d.fs target lock := ⟨hn, found⟩
        have hcreate : d₁.act (.createFile lock 0o600)
            = .ok { d₁ with fs := d₁.fs.set lock (.file ByteArray.empty 0o600) } := by
          simp [Drive.act, hfree, hn, PosixPath.parent_withSuffix hlock, hparent, hroot]
        refine act_yields hcreate (fun hd => .failed (hclean hd) rfl) ?_
        generalize hfs : d₁.fs.set lock (.file ByteArray.empty 0o600) = fs
        have hget : fs.get lock = some (.file ByteArray.empty 0o600) := by
          rw [← hfs]
          simp [Fs.get_set]
        have hwrite : Drive.act { d₁ with fs := fs } (.writeProcessId lock) = .ok
            { d₁ with fs := fs.set lock (.file (processIdLine d₁.processId) 0o600) } := by
          simp [Drive.act, hget]
        refine act_yields hwrite (fun hd => .failed (hclean hd) rfl) ?_
        refine act_yields (by simp [Drive.act, Fs.get_set]; rfl)
          (fun hd => .failed (hclean hd) rfl) ?_
        refine yields_done.mpr (.held hlockable (hhoused.frame fun q hq => ?_) failed)
        have hne : q ≠ lock := by
          rintro rfl
          omega
        simp [← hfs, Fs.get_set, hne]
  · obtain ⟨hens, _⟩ := h
    cases hens with
    | failed clean failed => exact .failed clean failed
    | refused cursor node failed =>
      exact .refused (fun h => node (h.passable _ cursor)) failed

end

end Kaleidoscope
