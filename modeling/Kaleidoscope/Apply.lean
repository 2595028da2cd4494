import Kaleidoscope.FsSafe

/-!
# Applying a plan

A plan names a target, the owner receipt beside it, and what to do to both.  `apply` takes the
lock, checks both files against the snapshots of the plan, saves a backup, changes the target,
then the receipt, and puts the target back where the receipt failed.  The three kinds of plan
share these steps; a hook plan puts the target back without looking at it again.

    apply_atomic_iff    after an error both files are as they were, unless the one failing step is
                        of a kind that `apply` does not undo
-/

namespace Kaleidoscope

open Prog Disk

def maxHostConfigBytes : Nat := 1024 * 1024
def maxInstructionBytes : Nat := 1024 * 1024
def maxSettingsBytes : Nat := 1024 * 1024
def maxReceiptBytes : Nat := 64 * 1024

inductive RestoreTier where
  | byteIdentical
  | structural
  | adoptedLeftInPlace
  deriving DecidableEq

inductive ChangeAction where
  | add
  | adopt
  | update
  | remove
  | alreadyConnected
  | alreadyDisconnected
  deriving DecidableEq

inductive InstructionAction where
  | add
  | adopt
  | update
  | remove
  | alreadyInstalled
  | alreadyRemoved
  deriving DecidableEq

inductive HookAction where
  | add
  | adopt
  | update
  | remove
  | alreadyInstalled
  | alreadyRemoved
  deriving DecidableEq

/-- What a plan of any kind says about its files; `suffix` is that of the owner receipt. -/
structure Plan (Action Receipt : Type) (suffix : String) where
  action : Action
  target : PosixPath
  receiptPath : Sibling target suffix
  backupPath : Sibling target ".kaleidoscope-backup"
  /-- what a removal restores; nothing on an install -/
  restore : Option RestoreTier
  original : Snapshot
  receiptOriginal : Snapshot
  write : TargetWrite
  receiptAfter : Option Receipt
  removeBackup : Bool
  /-- only a removal drops the backup -/
  removal : removeBackup = true → restore.isSome = true

theorem none_of_kept : false = true → (none : Option RestoreTier).isSome = true :=
  fun h => by cases h

theorem some_of_removed (tier : RestoreTier) : true = true → (some tier).isSome = true :=
  fun _ => rfl

abbrev ConnectionPlan (Receipt : Type) := Plan ChangeAction Receipt ".kaleidoscope-owner.json"
abbrev InstructionPlan (Receipt : Type) :=
  Plan InstructionAction Receipt ".kaleidoscope-instruction-owner.json"
abbrev HookPlan (Receipt : Type) := Plan HookAction Receipt ".kaleidoscope-owner.json"

/-- Where the `apply` of one kind of plan differs from that of another. -/
structure Traits where
  targetName : String
  receiptName : String
  maxTargetBytes : Nat
  /-- whether the target is looked at again before it is put back -/
  guarded : Bool

def connectionTraits : Traits :=
  { targetName := "host configuration", receiptName := "connection owner receipt",
    maxTargetBytes := maxHostConfigBytes, guarded := true }

def instructionTraits : Traits :=
  { targetName := "agent instruction file", receiptName := "instruction owner receipt",
    maxTargetBytes := maxInstructionBytes, guarded := true }

def hookTraits : Traits :=
  { targetName := "harness settings", receiptName := "hook owner receipt",
    maxTargetBytes := maxSettingsBytes, guarded := false }

/-- What the digest and the JSON crates compute. -/
structure ReceiptCodec (Receipt : Type) where
  digestBytes : Bytes → Text
  toVecPretty : Receipt → Option Bytes

section

variable {Action Receipt : Type} {suffix : String} (codec : ReceiptCodec Receipt)
  (traits : Traits) (plan : Plan Action Receipt suffix)

/-- The snapshot that a change of the target is expected to leave. -/
def snapshotForWrite (write : TargetWrite) (original : Snapshot) : Snapshot :=
  match write with
  | .write bytes =>
    { bytes := some bytes, sha256 := codec.digestBytes bytes, unixMode := original.unixMode }
  | .remove => .absent codec.digestBytes
  | .leave => original

def encodeReceipt (receipt : Receipt) : Result Bytes :=
  match codec.toVecPretty receipt with
  | none => .error .invalidOwnerReceipt
  | some bytes => .ok (bytes.push 10)

/-- Save the bytes of the target, unless this is a removal or the target stays as it is. -/
def saveBackup : FsProg Unit :=
  runIf (plan.restore.isNone = true ∧ plan.write.isLeave = false) do
    let _ ← writeBoundedBackup .backup plan.target plan.original

def writeTarget : FsProg Unit :=
  match plan.write with
  | .write bytes => atomicWrite .target plan.target bytes (some (plan.original.unixMode.getD 0o600))
  | .remove => atomicRemove .target plan.target
  | .leave => return ()

/-- The bytes of the receipt that the plan writes. -/
def encodedReceipt : Result (Option Bytes) :=
  match plan.receiptAfter with
  | none => .ok none
  | some receipt => do
    let bytes ← encodeReceipt codec receipt
    return some bytes

def writeReceipt : Option Bytes → FsProg Unit
  | some bytes => atomicWrite .receipt plan.receiptPath.path bytes (some 0o600)
  | none => atomicRemove .receipt plan.receiptPath.path

def checkTarget (site : Site) (expected : Snapshot) : FsProg Unit :=
  assertUnchanged codec.digestBytes site plan.target expected traits.maxTargetBytes
    traits.targetName

def restoreTarget : FsProg Unit := restoreSnapshot .restore plan.target plan.original

/-- Put the target back after the receipt failed. -/
def recover : FsProg Unit :=
  if traits.guarded then do
    let expected := snapshotForWrite codec plan.write plan.original
    match ← (attempt (checkTarget codec traits plan .recheck expected) : FsProg (Result Unit)) with
    | .ok _ => restoreTarget plan
    | .error _ => return ()
  else runIf (plan.write.isLeave = false) (restoreTarget plan)

def dropBackup : FsProg Unit :=
  runIf (plan.removeBackup = true) (atomicRemove .removeBackup plan.backupPath.path)

/-- Change the receipt; where that fails, put the target back. -/
def finishReceipt (bytes : Option Bytes) : FsProg Unit := do
  match ← (attempt (writeReceipt plan bytes) : FsProg (Result Unit)) with
  | .ok _ => dropBackup plan
  | .error error => do
    recover codec traits plan
    fail error

/-- What `apply` does while it holds the lock. -/
def applyLocked : FsProg Unit := do
  checkTarget codec traits plan .checkTarget plan.original
  assertUnchanged codec.digestBytes .checkReceipt plan.receiptPath.path plan.receiptOriginal
    maxReceiptBytes traits.receiptName
  saveBackup plan
  writeTarget plan
  let bytes ← ofExcept (encodedReceipt codec plan)
  finishReceipt codec traits plan bytes

/-- The steps that the three kinds of plan share. -/
def applyPlan : FsProg Unit := do
  let lock ← acquireLock .lock plan.target
  ensuring (applyLocked codec traits plan) (releaseLock .release lock)
  runIf (plan.write.isRemove = true) (pruneEmptyManagedDirectories .prune plan.target)

end

section

variable {Receipt : Type} (codec : ReceiptCodec Receipt)

def ChangeAction.isNoop (action : ChangeAction) : Bool :=
  action == .alreadyConnected || action == .alreadyDisconnected

def InstructionAction.isNoop (action : InstructionAction) : Bool :=
  action == .alreadyInstalled || action == .alreadyRemoved

def HookAction.isNoop (action : HookAction) : Bool :=
  action == .alreadyInstalled || action == .alreadyRemoved

def ConnectionPlan.apply (plan : ConnectionPlan Receipt) : FsProg Unit :=
  runIf (plan.action.isNoop = false) (applyPlan codec connectionTraits plan)

def InstructionPlan.apply (plan : InstructionPlan Receipt) : FsProg Unit :=
  runIf (plan.action.isNoop = false) (applyPlan codec instructionTraits plan)

def HookPlan.apply (plan : HookPlan Receipt) : FsProg Unit :=
  runIf (plan.action.isNoop = false) (applyPlan codec hookTraits plan)

end

/-! ## What a plan means to leave -/

section

variable {Action Receipt : Type} {suffix : String} (codec : ReceiptCodec Receipt)
  (traits : Traits) (plan : Plan Action Receipt suffix)

/-- The file system is as the two snapshots of the plan say. -/
structure Current (fs : Fs) : Prop where
  valid : validateAbsolutePath plan.target traits.targetName = .ok ()
  target : snapshotOf codec.digestBytes traits.maxTargetBytes traits.targetName
    (fs.get plan.target) = .ok plan.original
  receipt : snapshotOf codec.digestBytes maxReceiptBytes traits.receiptName
    (fs.get plan.receiptPath.path) = .ok plan.receiptOriginal

/-- The target as the plan changes it. -/
def written (node : Option Node) : Option Node :=
  match plan.write with
  | .write bytes => some (.file bytes (plan.original.unixMode.getD 0o600))
  | .remove => none
  | .leave => node

/-- The receipt as the plan changes it. -/
def receiptNode : Option Bytes → Option Node
  | some bytes => some (.file bytes 0o600)
  | none => none

/-- The target as it is put back. -/
def restored : Option Node :=
  plan.original.bytes.map fun bytes => .file bytes (plan.original.unixMode.getD 0o600)

/-- Whether the target is put back when the receipt fails.  The guard does not know the file that
`apply` itself created, nor one that it made longer than a snapshot can be. -/
def putsBack : Bool :=
  match plan.write with
  | .write bytes =>
    !traits.guarded
      || plan.original.bytes.isSome && decide (bytes.size ≤ traits.maxTargetBytes)
  | .remove => true
  | .leave => traits.guarded

/-- The target after a receipt that failed. -/
def recovered (node : Option Node) : Option Node :=
  if putsBack traits plan then restored plan else written plan node

/-! ## The steps that are not undone -/

/-- Whether the call synchronises the directory of the two files. -/
def isSync (c : Call) : Bool :=
  plan.target.parent.any fun directory => c == .act (.syncDirectory directory)

theorem not_sync_metadata {path : PosixPath} : ¬isSync plan (.metadata path) = true := by
  unfold isSync
  cases plan.target.parent with
  | none => simp
  | some directory => simp

/-- Whether a failing step of the receipt's write or removal is noticed. -/
def NoticedReceipt (c : Call) : Prop :=
  plan.receiptAfter.isSome = true → c ≠ .metadata plan.receiptPath.path

/-- A failing step of which a run that reached the backup's removal took no notice. -/
def Unnoticed : Option (Step Site) → Prop
  | none => True
  | some ⟨.target, c⟩ => (∃ bytes, plan.write = .write bytes) ∧ c = .metadata plan.target
  | some ⟨.receipt, c⟩ => ¬NoticedReceipt plan c
  | some ⟨.release, _⟩ => True
  | some ⟨.prune, _⟩ => True
  | some _ => False

/-- The lock can be taken. -/
def CanLock (fs : Fs) : Prop :=
  ∀ lock, plan.target.withSuffix ".kaleidoscope-lock".toList = some lock →
    Lockable fs plan.target lock

/-- A failure that `apply` does not undo: the directory could not be synchronised after the
target was changed; the receipt failed and the target is not put back as it was, or the receipt
had been changed already; or the backup could not be dropped after both were changed. -/
def Defect (receipt : Option Bytes) (fs : Fs) (failed : Option (Step Site)) : Prop :=
  (∃ c, failed = some ⟨.target, c⟩ ∧ isSync plan c = true
      ∧ written plan (fs.get plan.target) ≠ fs.get plan.target)
    ∨ (∃ c, failed = some ⟨.receipt, c⟩ ∧ NoticedReceipt plan c
      ∧ (recovered traits plan (fs.get plan.target) ≠ fs.get plan.target
        ∨ isSync plan c = true ∧ receiptNode receipt ≠ fs.get plan.receiptPath.path))
    ∨ plan.removeBackup = true
      ∧ (written plan (fs.get plan.target) ≠ fs.get plan.target
        ∨ receiptNode receipt ≠ fs.get plan.receiptPath.path)
      ∧ ((∃ c, failed = some ⟨.removeBackup, c⟩)
        ∨ ¬Replaceable (fs.get plan.backupPath.path) ∧ Unnoticed plan failed ∧ CanLock plan fs)

/-- After an error both files are as they were. -/
def AtomicOnError (fs : Fs) (r : Result Unit) (fs' : Fs) : Prop :=
  (∃ x, r = .error x) →
    fs'.get plan.target = fs.get plan.target
      ∧ fs'.get plan.receiptPath.path = fs.get plan.receiptPath.path

/-! ## How an apply ends -/

/-- A step that fails before either file was changed, and is noticed. -/
def Early : Step Site → Prop
  | ⟨.lock, _⟩ => True
  | ⟨.checkTarget, _⟩ => True
  | ⟨.checkReceipt, _⟩ => True
  | ⟨.backup, _⟩ => True
  | ⟨.target, c⟩ =>
    isSync plan c = false ∧ ((∃ bytes, plan.write = .write bytes) → c ≠ .metadata plan.target)
  | _ => False

/-- A failing step of which a run that went on took no notice. -/
def Passed (failed : Option (Step Site)) : Prop :=
  Unnoticed plan failed ∨ ∃ c, failed = some ⟨.backup, c⟩

/-- How a run that started with the nodes `t`, `r` and `b` at the target, the receipt and the
backup ends: its result, the nodes at the target and the receipt, and the step that failed. -/
inductive Ended (receipt : Option Bytes) (t r b : Option Node) :
    Result Unit → Option Node → Option Node → Option (Step Site) → Prop where
  | done {failed : Option (Step Site)} (passed : Passed plan failed)
      (backup : plan.removeBackup = true → Replaceable b) :
      Ended receipt t r b (.ok ()) (written plan t) (receiptNode receipt) failed
  | early {x : ManagerError} {failed : Option (Step Site)}
      (step : (∃ s, failed = some s ∧ Early plan s)
        ∨ plan.removeBackup = false ∧ (failed = none ∨ ∃ c, failed = some ⟨.release, c⟩)) :
      Ended receipt t r b (.error x) t r failed
  | unsynced {x : ManagerError} {c : Call} (sync : isSync plan c = true) :
      Ended receipt t r b (.error x) (written plan t) r (some ⟨.target, c⟩)
  | receipt {x : ManagerError} {c : Call} (noticed : NoticedReceipt plan c) :
      Ended receipt t r b (.error x) (recovered traits plan t)
        (if isSync plan c then receiptNode receipt else r) (some ⟨.receipt, c⟩)
  | backup {x : ManagerError} {failed : Option (Step Site)} (remove : plan.removeBackup = true)
      (reached : (∃ c, failed = some ⟨.removeBackup, c⟩)
        ∨ ¬Replaceable b ∧ Unnoticed plan failed) :
      Ended receipt t r b (.error x) (written plan t) (receiptNode receipt) failed

variable {codec traits plan} {receipt : Option Bytes} {fs fs' : Fs} {res : Result Unit}
  {failed : Option (Step Site)}

theorem not_defect_of_early (h : (∃ s, failed = some s ∧ Early plan s)
    ∨ plan.removeBackup = false ∧ (failed = none ∨ ∃ c, failed = some ⟨.release, c⟩)) :
    ¬Defect traits plan receipt fs failed := by
  rintro (⟨c, hf, hsync, _⟩ | ⟨c, hf, _⟩ | ⟨hremove, _, hstep⟩)
  · subst hf
    rcases h with ⟨s, hs, hearly⟩ | ⟨_, h | ⟨c', h⟩⟩
    · cases hs
      rw [hearly.1] at hsync
      cases hsync
    · cases h
    · cases h
  · subst hf
    rcases h with ⟨s, hs, hearly⟩ | ⟨_, h | ⟨c', h⟩⟩
    · cases hs
      exact hearly
    · cases h
    · cases h
  · rcases h with ⟨⟨site, call⟩, hs, hearly⟩ | ⟨hkept, _⟩
    · subst hs
      rcases hstep with ⟨c, hc⟩ | ⟨_, hunnoticed, _⟩
      · cases hc
        exact hearly
      · cases site <;> first
          | exact hunnoticed
          | exact hearly
          | exact hearly.2 hunnoticed.1 hunnoticed.2
    · rw [hkept] at hremove
      cases hremove

theorem not_defect_of_passed (h : Passed plan failed)
    (hb : plan.removeBackup = true → Replaceable (fs.get plan.backupPath.path)) :
    ¬Defect traits plan receipt fs failed := by
  rintro (⟨c, hf, hsync, _⟩ | ⟨c, hf, hnoticed, _⟩ | ⟨hremove, _, hstep⟩)
  · subst hf
    rcases h with h | ⟨c', h⟩
    · exact not_sync_metadata plan (h.2 ▸ hsync)
    · cases h
  · subst hf
    rcases h with h | ⟨c', h⟩
    · exact h hnoticed
    · cases h
  · rcases hstep with ⟨c, hc⟩ | ⟨hirregular, _⟩
    · subst hc
      rcases h with h | ⟨c', h⟩
      · exact h
      · cases h
    · exact hirregular (hb hremove)

/-- The two files are as before exactly where the run met none of the defects. -/
theorem Ended.atomic_iff
    (h : Ended traits plan receipt (fs.get plan.target) (fs.get plan.receiptPath.path)
      (fs.get plan.backupPath.path) res (fs'.get plan.target) (fs'.get plan.receiptPath.path)
      failed) (hlock : CanLock plan fs) :
    AtomicOnError plan fs res fs' ↔ ¬Defect traits plan receipt fs failed := by
  unfold AtomicOnError
  generalize htarget : fs'.get plan.target = t' at h ⊢
  generalize hreceipt : fs'.get plan.receiptPath.path = r' at h ⊢
  cases h with
  | done passed backup =>
    exact ⟨fun _ => not_defect_of_passed passed backup, fun _ ⟨x, hx⟩ => nomatch hx⟩
  | early step => exact ⟨fun _ => not_defect_of_early step, fun _ _ => ⟨rfl, rfl⟩⟩
  | @unsynced x c sync =>
    constructor
    · rintro h (⟨c', _, _, hne⟩ | ⟨c', hc, _⟩ | ⟨hremove, hne, ⟨c', hc⟩ | ⟨_, hunnoticed, _⟩⟩)
      · exact hne (h ⟨x, rfl⟩).1
      · cases hc
      · cases hc
      · exact not_sync_metadata plan (hunnoticed.2 ▸ sync)
    · intro h _
      refine ⟨?_, rfl⟩
      by_contra hne
      exact h (.inl ⟨c, rfl, sync, hne⟩)
  | @receipt x c noticed =>
    constructor
    · rintro h (⟨c', hc, _⟩ | ⟨c', hc, _, hne⟩ | ⟨_, _, ⟨c', hc⟩ | ⟨_, hunnoticed, _⟩⟩)
      · cases hc
      · cases hc
        obtain ⟨h₁, h₂⟩ := h ⟨x, rfl⟩
        rcases hne with hne | ⟨hsync, hne⟩
        · exact hne h₁
        · rw [if_pos hsync] at h₂
          exact hne h₂
      · cases hc
      · exact hunnoticed noticed
    · intro h _
      constructor
      · by_contra hne
        exact h (.inr (.inl ⟨c, rfl, noticed, .inl hne⟩))
      · by_contra hne
        split at hne
        next hsync => exact h (.inr (.inl ⟨c, rfl, noticed, .inr ⟨hsync, hne⟩⟩))
        next => exact hne rfl
  | @backup x failed remove reached =>
    constructor
    · intro h hdefect
      obtain ⟨h₁, h₂⟩ := h ⟨x, rfl⟩
      have hnone : ∀ c, failed = some ⟨.receipt, c⟩ → ¬NoticedReceipt plan c := by
        rintro c rfl
        rcases reached with ⟨c', hc⟩ | ⟨_, hunnoticed⟩
        · cases hc
        · exact hunnoticed
      rcases hdefect with ⟨c, _, _, hne⟩ | ⟨c, hc, hnoticed, _⟩ | ⟨_, hne | hne, _⟩
      · exact hne h₁
      · exact hnone c hc hnoticed
      · exact hne h₁
      · exact hne h₂
    · intro h _
      have hlast : ∀ P : Prop, (¬P → Defect traits plan receipt fs failed) → P := by
        intro P hP
        by_contra hne
        exact h (hP hne)
      have hreach : (∃ c, failed = some ⟨.removeBackup, c⟩)
          ∨ ¬Replaceable (fs.get plan.backupPath.path) ∧ Unnoticed plan failed
            ∧ CanLock plan fs :=
        reached.imp_right fun h => ⟨h.1, h.2, hlock⟩
      exact ⟨hlast _ fun hne => .inr (.inr ⟨remove, .inl hne, hreach⟩),
        hlast _ fun hne => .inr (.inr ⟨remove, .inr hne, hreach⟩)⟩

/-! ## The files of a run -/

/-- The suffix of a receipt is its own. -/
structure Apart (suffix : String) : Prop where
  nonempty : suffix.toList ≠ []
  backup : suffix.toList ≠ ".kaleidoscope-backup".toList
  lock : suffix.toList ≠ ".kaleidoscope-lock".toList

theorem Plan.receipt_ne (hs : Apart suffix) : plan.receiptPath.path ≠ plan.target :=
  PosixPath.withSuffix_ne plan.receiptPath.beside hs.nonempty

theorem Plan.backup_ne : plan.backupPath.path ≠ plan.target :=
  PosixPath.withSuffix_ne plan.backupPath.beside (by decide)

theorem Plan.receipt_ne_backup (hs : Apart suffix) :
    plan.receiptPath.path ≠ plan.backupPath.path := by
  intro h
  have hbeside := plan.backupPath.beside
  rw [← h] at hbeside
  exact hs.backup (PosixPath.withSuffix_inj plan.receiptPath.beside hbeside)

/-- The nodes at the three paths of a plan, on a drive that has the directories above them. -/
structure Files (plan : Plan Action Receipt suffix) (t r b : Option Node) (d : Drive Site) :
    Prop where
  target : d.fs.get plan.target = t
  receipt : d.fs.get plan.receiptPath.path = r
  backup : d.fs.get plan.backupPath.path = b
  housed : Housed d.fs plan.target

variable {t r b node : Option Node} {d d' : Drive Site}

/-- Paths beside the target are not above it. -/
theorem Files.housed_of {path : PosixPath} (h : Files plan t r b d)
    (hlen : path.components.length = plan.target.components.length)
    (hsame : ∀ q, q ≠ path → d'.fs.get q = d.fs.get q) : Housed d'.fs plan.target := by
  refine h.housed.frame fun q hq => hsame q ?_
  rintro rfl
  omega

theorem Files.putTarget (h : Files plan t r b d) (hs : Apart suffix)
    (hget : ∀ q, d'.fs.get q = if q = plan.target then node else d.fs.get q) :
    Files plan node r b d' := by
  refine ⟨?_, ?_, ?_, h.housed_of rfl fun q hq => ?_⟩
  · rw [hget, if_pos rfl]
  · rw [hget, if_neg (Plan.receipt_ne hs), h.receipt]
  · rw [hget, if_neg Plan.backup_ne, h.backup]
  · rw [hget, if_neg hq]

theorem Files.putReceipt (h : Files plan t r b d) (hs : Apart suffix)
    (hget : ∀ q, d'.fs.get q = if q = plan.receiptPath.path then node else d.fs.get q) :
    Files plan t node b d' := by
  refine ⟨?_, ?_, ?_, h.housed_of (PosixPath.length_withSuffix plan.receiptPath.beside) fun q hq => ?_⟩
  · rw [hget, if_neg (Plan.receipt_ne hs).symm, h.target]
  · rw [hget, if_pos rfl]
  · rw [hget, if_neg (Plan.receipt_ne_backup hs).symm, h.backup]
  · rw [hget, if_neg hq]

theorem Files.putBackup (h : Files plan t r b d) (hs : Apart suffix)
    (hsame : ∀ q, q ≠ plan.backupPath.path → d'.fs.get q = d.fs.get q) :
    Files plan t r (d'.fs.get plan.backupPath.path) d' := by
  refine ⟨?_, ?_, rfl, h.housed_of (PosixPath.length_withSuffix plan.backupPath.beside) hsame⟩
  · rw [hsame _ Plan.backup_ne.symm, h.target]
  · rw [hsame _ (Plan.receipt_ne_backup hs), h.receipt]

theorem Files.same (h : Files plan t r b d) (hfs : d'.fs = d.fs) : Files plan t r b d' := by
  refine ⟨?_, ?_, ?_, ?_⟩
  · rw [hfs, h.target]
  · rw [hfs, h.receipt]
  · rw [hfs, h.backup]
  · rw [hfs]
    exact h.housed

theorem replaceable_of_snapshot {digestBytes : Bytes → Text} {maximum : Nat} {name : String}
    {snapshot : Snapshot} (h : snapshotOf digestBytes maximum name node = .ok snapshot) :
    Replaceable node := by
  rintro n rfl
  unfold snapshotOf at h
  split at h
  next hn => cases hn
  next => cases h
  next bytes mode hn =>
    cases hn
    exact ⟨bytes, mode, rfl⟩
  next => cases h

/-! ## Each step of an apply -/

/-- How saving the backup ends. -/
def Saved (plan : Plan Action Receipt suffix) (t r b : Option Node) (res : Result Unit)
    (d' : Drive Site) : Prop :=
  ∃ b', Files plan t r b' d'
    ∧ (d'.failed = none ∨ ∃ c, d'.failed = some ⟨.backup, c⟩)
    ∧ (plan.removeBackup = true → d'.failed = none ∧ b' = b ∧ res = .ok ())

theorem writeBoundedBackup_frame (h : Files plan t r b d) :
    Runs (fun _ d' => Frame .backup (fun q => q = plan.backupPath.path) d d')
      (writeBoundedBackup .backup plan.target plan.original) d := by
  unfold writeBoundedBackup
  cases plan.original.bytes with
  | none => exact yields_done.mpr (Frame.refl _ _ d)
  | some bytes =>
    rw [siblingPath_of plan.backupPath.beside]
    simp only
    show Runs _ (atomicWrite .backup plan.backupPath.path bytes (some 0o600) >>= fun _ =>
      pure (some plan.backupPath.path)) d
    unfold atomicWrite
    simp only [bind_assoc]
    refine ensureParentDirectory_yields (h.housed.withSuffix plan.backupPath.beside)
      (fun x p _ hd => ⟨fun _ _ => rfl, .inr ⟨hd, _, rfl⟩⟩) ?_
    have honly : Only (Within .backup fun q => q = plan.backupPath.path)
        (replaceFile .backup plan.backupPath.path bytes (some 0o600) >>= fun _ =>
          (pure (some plan.backupPath.path) : FsProg (Option PosixPath))) :=
      only_bind (replaceFile_within rfl) fun _ => trivial
    exact frame_of_only honly d

theorem saveBackup_yields (h : Files plan t r b d) (hs : Apart suffix) (hclean : d.failed = none) :
    Runs (Saved plan t r b) (saveBackup plan) d := by
  unfold saveBackup runIf
  split
  next hsave =>
    have hkept : ¬plan.removeBackup = true := by
      intro hremove
      have hrestore := plan.removal hremove
      rw [Option.isNone_iff_eq_none.mp hsave.1] at hrestore
      cases hrestore
    have hsaved : ∀ (res : Result Unit) (d' : Drive Site),
        Frame .backup (fun q => q = plan.backupPath.path) d d' → Saved plan t r b res d' := by
      intro res d' hframe
      refine ⟨_, h.putBackup hs hframe.same, ?_, fun hremove => absurd hremove hkept⟩
      rcases hframe.failed with hf | ⟨_, c, hf⟩
      · exact .inl (hf.trans hclean)
      · exact .inr ⟨c, hf⟩
    refine yields_bind (writeBoundedBackup_frame h) ?_ ?_
    · intro _ d' hframe
      exact yields_done.mpr (hsaved _ d' hframe)
    · intro x d' hframe
      exact hsaved _ d' hframe
  next => exact yields_done.mpr ⟨b, h, .inl hclean, fun _ => ⟨hclean, rfl, rfl⟩⟩

/-- How changing the target ends. -/
inductive Changed (plan : Plan Action Receipt suffix) (t r b : Option Node) (d : Drive Site) :
    Result Unit → Drive Site → Prop where
  | done {d' : Drive Site} (files : Files plan (written plan t) r b d')
      (failed : d'.failed = d.failed
        ∨ d.failed = none ∧ (∃ bytes, plan.write = .write bytes)
          ∧ d'.failed = some ⟨.target, .metadata plan.target⟩) : Changed plan t r b d (.ok ()) d'
  | undone {x : ManagerError} {d' : Drive Site} {c : Call} (files : Files plan t r b d')
      (failed : d'.failed = some ⟨.target, c⟩) (early : Early plan ⟨.target, c⟩) :
      Changed plan t r b d (.error x) d'
  | unsynced {x : ManagerError} {d' : Drive Site} {c : Call}
      (files : Files plan (written plan t) r b d') (failed : d'.failed = some ⟨.target, c⟩)
      (sync : isSync plan c = true) : Changed plan t r b d (.error x) d'

theorem isSync_iff {parent : PosixPath} (hparent : plan.target.parent = some parent) {c : Call} :
    isSync plan c = true ↔ c = .act (.syncDirectory parent) := by
  simp [isSync, hparent]

theorem changed_of_put {parent : PosixPath} {res : Result Unit} (h : Files plan t r b d)
    (hs : Apart suffix) (hparent : plan.target.parent = some parent)
    (hwrite : (written plan t).isSome = true ↔ ∃ bytes, plan.write = .write bytes)
    (hput : Put .target plan.target parent (written plan t) d res d') :
    Changed plan t r b d res d' := by
  cases hput with
  | done fs failed =>
    refine .done (h.putTarget hs fs) (failed.imp_right fun hf => ?_)
    exact ⟨hf.2.1, hwrite.mp hf.1, hf.2.2⟩
  | @undone x d' c fs clean failed call sync =>
    refine .undone (h.same fs) failed ⟨?_, fun hw => call (hwrite.mpr hw)⟩
    rw [Bool.eq_false_iff]
    intro hsync
    exact sync ((isSync_iff hparent).mp hsync)
  | unsynced fs clean failed =>
    exact .unsynced (h.putTarget hs fs) failed ((isSync_iff hparent).mpr rfl)

theorem writeTarget_yields (h : Files plan t r b d) (hs : Apart suffix) (ht : Replaceable t) :
    Runs (Changed plan t r b d) (writeTarget plan) d := by
  obtain ⟨parent, hparent, hdir⟩ := h.housed.parent
  have hnode : Replaceable (d.fs.get plan.target) := h.target ▸ ht
  unfold writeTarget
  cases hw : plan.write with
  | write bytes =>
    refine yields_mono (atomicWrite_yields h.housed hparent hnode) fun res d' hput => ?_
    refine changed_of_put h hs hparent ?_ (by rw [written, hw]; exact hput)
    simp [written, hw]
  | remove =>
    refine yields_mono (atomicRemove_yields hparent hdir hnode) fun res d' hput => ?_
    refine changed_of_put h hs hparent ?_ (by rw [written, hw]; exact hput)
    simp [written, hw]
  | leave =>
    refine yields_done.mpr (.done ?_ (.inl rfl))
    rw [written, hw]
    exact h

/-- Looking at a file again, once a step has failed. -/
theorem checkTarget_ends {site : Site} {expected : Snapshot} (h : Files plan t r b d)
    (hvalid : validateAbsolutePath plan.target traits.targetName = .ok ())
    (hfailed : d.failed ≠ none) :
    Runs (fun res d' => d' = d ∧ (res = .ok () ↔ snapshotOf codec.digestBytes
      traits.maxTargetBytes traits.targetName t = .ok expected))
      (checkTarget codec traits plan site expected) d := by
  unfold checkTarget assertUnchanged
  refine readSnapshot_yields hvalid (fun x c hd => absurd hd hfailed) ?_ ?_
  · intro snapshot hsnapshot
    rw [h.target] at hsnapshot
    refine yields_ofExcept.mpr ⟨rfl, ?_⟩
    rw [hsnapshot, rejectIf_eq_ok, not_not]
    exact ⟨congrArg _, Except.ok.inj⟩
  · intro x hx
    rw [h.target] at hx
    rw [hx]
    exact ⟨rfl, by simp⟩

/-- What a current snapshot says about the target. -/
theorem original_cases {digestBytes : Bytes → Text} {maximum : Nat} {name : String}
    {snapshot : Snapshot} (h : snapshotOf digestBytes maximum name node = .ok snapshot) :
    node = none ∧ snapshot = .absent digestBytes
      ∨ ∃ bytes mode, node = some (.file bytes mode) ∧ bytes.size ≤ maximum
        ∧ snapshot = { bytes := some bytes, sha256 := digestBytes bytes,
                       unixMode := some (snapshotMode mode) } := by
  unfold snapshotOf at h
  split at h
  next =>
    cases h
    exact .inl ⟨rfl, rfl⟩
  next => cases h
  next bytes mode =>
    split at h
    next => cases h
    next hsize =>
      cases h
      exact .inr ⟨bytes, mode, rfl, by omega, rfl⟩
  next => cases h

/-- The guard accepts the change that `apply` made exactly where the target is put back. -/
theorem recheck_iff (hguarded : traits.guarded = true) (ht : snapshotOf codec.digestBytes
      traits.maxTargetBytes traits.targetName t = .ok plan.original) :
    snapshotOf codec.digestBytes traits.maxTargetBytes traits.targetName (written plan t)
        = .ok (snapshotForWrite codec plan.write plan.original)
      ↔ putsBack traits plan = true := by
  unfold written snapshotForWrite putsBack
  cases hw : plan.write with
  | remove => simp [snapshotOf]
  | leave => simp [ht, hguarded]
  | write bytes =>
    rcases original_cases ht with ⟨_, horiginal⟩ | ⟨old, mode, _, _, horiginal⟩
    · rw [horiginal]
      by_cases hsize : bytes.size > traits.maxTargetBytes
      · simp [snapshotOf, Snapshot.absent, hsize, hguarded]
      · simp [snapshotOf, Snapshot.absent, hsize, hguarded]
    · rw [horiginal]
      by_cases hsize : bytes.size > traits.maxTargetBytes
      · simp [snapshotOf, hsize, hguarded]
      · simp [snapshotOf, hsize, hguarded, snapshotMode, Nat.le_of_not_lt hsize]

theorem restoreTarget_yields (h : Files plan t r b d) (hs : Apart suffix) (ht : Replaceable t)
    (hfailed : d.failed ≠ none)
    (horiginal : ∀ bytes, plan.original.bytes = some bytes →
      plan.original.unixMode = some (plan.original.unixMode.getD 0o600)) :
    Runs (fun _ d' => d'.failed = d.failed ∧ Files plan (restored plan) r b d')
      (restoreTarget plan) d := by
  obtain ⟨parent, hparent, hdir⟩ := h.housed.parent
  have hnode : Replaceable (d.fs.get plan.target) := h.target ▸ ht
  have hput : ∀ res d', Put .restore plan.target parent (restored plan) d res d' →
      d'.failed = d.failed ∧ Files plan (restored plan) r b d' := by
    intro res d' hput
    cases hput with
    | done fs failed =>
      refine ⟨?_, h.putTarget hs fs⟩
      rcases failed with hf | ⟨_, hclean, _⟩
      · exact hf
      · exact absurd hclean hfailed
    | undone fs clean => exact absurd clean hfailed
    | unsynced fs clean => exact absurd clean hfailed
  unfold restoreTarget restoreSnapshot
  cases hbytes : plan.original.bytes with
  | some bytes =>
    simp only
    rw [horiginal bytes hbytes]
    refine yields_mono (atomicWrite_yields h.housed hparent hnode) fun res d' hp => hput res d' ?_
    rw [restored, hbytes]
    exact hp
  | none =>
    refine yields_mono (atomicRemove_yields hparent hdir hnode) fun res d' hp => hput res d' ?_
    rw [restored, hbytes]
    exact hp

theorem written_replaceable (ht : Replaceable t) : Replaceable (written plan t) := by
  unfold written
  cases plan.write with
  | write bytes =>
    rintro n hn
    cases hn
    exact ⟨_, _, rfl⟩
  | remove =>
    rintro n hn
    cases hn
  | leave => exact ht

/-- A guard that fails without a failing step does not put the target back. -/
theorem recover_yields (h : Files plan (written plan t) r b d) (hs : Apart suffix)
    (hvalid : validateAbsolutePath plan.target traits.targetName = .ok ())
    (ht : snapshotOf codec.digestBytes traits.maxTargetBytes traits.targetName t
      = .ok plan.original) (hfailed : d.failed ≠ none) :
    Runs (fun _ d' => d'.failed = d.failed ∧ Files plan (recovered traits plan t) r b d')
      (recover codec traits plan) d := by
  have hw : Replaceable (written plan t) := written_replaceable (replaceable_of_snapshot ht)
  have horiginal : ∀ bytes, plan.original.bytes = some bytes →
      plan.original.unixMode = some (plan.original.unixMode.getD 0o600) := by
    intro bytes hbytes
    rcases original_cases ht with ⟨_, ho⟩ | ⟨old, mode, _, _, ho⟩
    · rw [ho] at hbytes
      cases hbytes
    · rw [ho]
      rfl
  have hrestore := restoreTarget_yields h hs hw hfailed horiginal
  unfold recover
  by_cases hguarded : traits.guarded = true
  · rw [if_pos hguarded]
    refine yields_attempt_bind ?_
    refine yields_mono (checkTarget_ends h hvalid hfailed) fun res d' hcheck => ?_
    obtain ⟨rfl, hres⟩ := hcheck
    have hputs := hres.trans (recheck_iff hguarded ht)
    cases res with
    | ok u =>
      have hback : putsBack traits plan = true := hputs.mp rfl
      refine yields_mono hrestore fun _ d'' hd => ?_
      rw [recovered, if_pos hback]
      exact hd
    | error x =>
      have hback : ¬putsBack traits plan = true := by
        intro hback
        have hok := hputs.mpr hback
        cases hok
      refine yields_done.mpr ⟨rfl, ?_⟩
      rw [recovered, if_neg hback]
      exact h
  · have hunguarded : traits.guarded = false := Bool.eq_false_iff.mpr hguarded
    rw [if_neg hguarded]
    unfold runIf
    split
    next hleave =>
      have hback : putsBack traits plan = true := by
        unfold putsBack
        cases hwrite : plan.write with
        | write bytes => simp [hunguarded]
        | remove => rfl
        | leave => simp [hwrite, TargetWrite.isLeave] at hleave
      refine yields_mono hrestore fun _ d'' hd => ?_
      rw [recovered, if_pos hback]
      exact hd
    next hleave =>
      have hwrite : plan.write = .leave := by
        simpa [TargetWrite.isLeave] using hleave
      have hback : ¬putsBack traits plan = true := by
        simp [putsBack, hwrite, hunguarded]
      refine yields_done.mpr ⟨rfl, ?_⟩
      rw [recovered, if_neg hback]
      exact h

theorem writeReceipt_yields {parent : PosixPath} (h : Files plan t r b d)
    (hparent : plan.target.parent = some parent) (hr : Replaceable r) :
    Runs (Put .receipt plan.receiptPath.path parent (receiptNode receipt) d)
      (writeReceipt plan receipt) d := by
  have hhoused := h.housed.withSuffix plan.receiptPath.beside
  have hparent' : plan.receiptPath.path.parent = some parent := by
    rw [PosixPath.parent_withSuffix plan.receiptPath.beside, hparent]
  have hnode : Replaceable (d.fs.get plan.receiptPath.path) := h.receipt ▸ hr
  unfold writeReceipt
  cases receipt with
  | some bytes => exact atomicWrite_yields hhoused hparent' hnode
  | none =>
    obtain ⟨parent', hp, hdir⟩ := hhoused.parent
    rw [hparent'] at hp
    cases hp
    exact atomicRemove_yields hparent' hdir hnode

/-! ## The whole apply -/

/-- How a run ended, read off its last drive. -/
def EndedOn (traits : Traits) (plan : Plan Action Receipt suffix) (receipt : Option Bytes)
    (t r b : Option Node) (res : Result Unit) (d' : Drive Site) : Prop :=
  Ended traits plan receipt t r b res (d'.fs.get plan.target) (d'.fs.get plan.receiptPath.path)
    d'.failed

/-- The backup matters only to a plan that drops it. -/
theorem EndedOn.withBackup {b' : Option Node} (h : EndedOn traits plan receipt t r b' res d')
    (hb : plan.removeBackup = true → b' = b) : EndedOn traits plan receipt t r b res d' := by
  unfold EndedOn at h ⊢
  generalize d'.fs.get plan.target = t' at h ⊢
  generalize d'.fs.get plan.receiptPath.path = r' at h ⊢
  generalize d'.failed = failed at h ⊢
  cases h with
  | done passed backup => exact .done passed fun hremove => hb hremove ▸ backup hremove
  | early step => exact .early step
  | unsynced sync => exact .unsynced sync
  | receipt noticed => exact .receipt noticed
  | backup remove reached => exact .backup remove (hb remove ▸ reached)

theorem irregular_of_not_replaceable (h : ¬Replaceable node) :
    ∃ n, node = some n ∧ ∀ bytes mode, n ≠ .file bytes mode := by
  unfold Replaceable at h
  push Not at h
  exact h

theorem dropBackup_yields (h : Files plan (written plan t) (receiptNode receipt) b d)
    (hs : Apart suffix) (hpassed : Passed plan d.failed)
    (hunnoticed : plan.removeBackup = true → Unnoticed plan d.failed) :
    Runs (EndedOn traits plan receipt t r b) (dropBackup plan) d := by
  obtain ⟨parent, hparent, hdir⟩ := h.housed.parent
  have hended : ∀ {res : Result Unit} {d' : Drive Site},
      (∀ q, q ≠ plan.backupPath.path → d'.fs.get q = d.fs.get q) →
      Ended traits plan receipt t r b res (written plan t) (receiptNode receipt) d'.failed →
      EndedOn traits plan receipt t r b res d' := by
    intro res d' hsame hend
    have hfiles := h.putBackup hs hsame
    unfold EndedOn
    rw [hfiles.target, hfiles.receipt]
    exact hend
  have hbelow : ∀ {node : Option Node} {d' : Drive Site},
      (∀ q, d'.fs.get q = if q = plan.backupPath.path then node else d.fs.get q) →
      ∀ q, q ≠ plan.backupPath.path → d'.fs.get q = d.fs.get q := by
    intro node d' hget q hq
    rw [hget, if_neg hq]
  unfold dropBackup runIf
  split
  next hremove =>
    by_cases hb : Replaceable b
    · have hparent' : plan.backupPath.path.parent = some parent := by
        rw [PosixPath.parent_withSuffix plan.backupPath.beside, hparent]
      refine yields_mono (atomicRemove_yields hparent' hdir (h.backup ▸ hb)) fun res d' hput => ?_
      cases hput with
      | done fs failed =>
        refine hended (hbelow fs) (.done ?_ fun _ => hb)
        rcases failed with hf | ⟨hnone, _⟩
        · exact hf ▸ hpassed
        · cases hnone
      | undone fs clean failed =>
        exact hended (fun q _ => by rw [fs]) (.backup hremove (.inl ⟨_, failed⟩))
      | unsynced fs clean failed =>
        exact hended (hbelow fs) (.backup hremove (.inl ⟨_, failed⟩))
    · obtain ⟨n, hn, hirregular⟩ := irregular_of_not_replaceable hb
      have hget : d.fs.get plan.backupPath.path = some n := h.backup.trans hn
      refine yields_mono (atomicRemove_irregular hget hirregular) fun res d' hpost => ?_
      obtain ⟨⟨x, rfl⟩, hfs, hfailed⟩ := hpost
      refine hended (fun q _ => by rw [hfs]) (.backup hremove ?_)
      rcases hfailed with hf | ⟨_, c, hf⟩
      · exact .inr ⟨hb, hf ▸ hunnoticed hremove⟩
      · exact .inl ⟨c, hf⟩
  next hkept =>
    exact yields_done.mpr (hended (fun _ _ => rfl) (.done hpassed fun h => absurd h hkept))

theorem finishReceipt_yields (h : Files plan (written plan t) r b d) (hs : Apart suffix)
    (hvalid : validateAbsolutePath plan.target traits.targetName = .ok ())
    (ht : snapshotOf codec.digestBytes traits.maxTargetBytes traits.targetName t
      = .ok plan.original) (hr : Replaceable r)
    (hreceipt : receipt.isSome = plan.receiptAfter.isSome) (hpassed : Passed plan d.failed)
    (hunnoticed : plan.removeBackup = true → Unnoticed plan d.failed) :
    Runs (EndedOn traits plan receipt t r b) (finishReceipt codec traits plan receipt) d := by
  obtain ⟨parent, hparent, hdir⟩ := h.housed.parent
  have hsome : (receiptNode receipt).isSome = plan.receiptAfter.isSome := by
    rw [← hreceipt]
    cases receipt <;> rfl
  -- what follows a receipt that failed: the target is put back, and the error returned
  have hback : ∀ {r' : Option Node} {x : ManagerError} {c : Call} {d' : Drive Site},
      Files plan (written plan t) r' b d' → d'.failed = some ⟨.receipt, c⟩ →
      NoticedReceipt plan c → r' = (if isSync plan c then receiptNode receipt else r) →
      Runs (EndedOn traits plan receipt t r b) (do
        recover codec traits plan
        fail x) d' := by
    intro r' x c d' hfiles hfailed hnoticed hr'
    have hend : ∀ (y : ManagerError) (d'' : Drive Site), d''.failed = d'.failed →
        Files plan (recovered traits plan t) r' b d'' →
        EndedOn traits plan receipt t r b (.error y) d'' := by
      intro y d'' hf hfiles'
      unfold EndedOn
      rw [hfiles'.target, hfiles'.receipt, hf, hfailed, hr']
      exact .receipt hnoticed
    have hrec := recover_yields hfiles hs hvalid ht (by rw [hfailed]; simp)
    refine yields_bind hrec ?_ ?_
    · intro _ d'' hd
      exact yields_fail.mpr (hend x d'' hd.1 hd.2)
    · intro y d'' hd
      exact hend y d'' hd.1 hd.2
  unfold finishReceipt
  refine yields_attempt_bind ?_
  refine yields_mono (writeReceipt_yields h hparent hr) fun res d' hput => ?_
  cases hput with
  | done fs failed =>
    have hfiles := h.putReceipt hs fs
    rcases failed with hf | ⟨hnode, _, hf⟩
    · exact dropBackup_yields hfiles hs (hf ▸ hpassed) (hf ▸ hunnoticed)
    · have hmissed : Unnoticed plan d'.failed := by
        rw [hf]
        exact fun hnoticed => hnoticed (hsome ▸ hnode) rfl
      exact dropBackup_yields hfiles hs (.inl hmissed) fun _ => hmissed
  | @undone x d' c fs clean failed call sync =>
    have hsync : ¬isSync plan c = true := fun hc => sync ((isSync_iff hparent).mp hc)
    refine hback (h.same fs) failed (fun hafter => call (hsome ▸ hafter)) ?_
    rw [if_neg hsync]
  | @unsynced x d' fs clean failed =>
    refine hback (h.putReceipt hs fs) failed (fun _ => by simp) ?_
    rw [if_pos ((isSync_iff hparent).mpr rfl)]

/-- The bytes of the receipt that the plan writes, if it writes one. -/
def receiptBytes (codec : ReceiptCodec Receipt) (plan : Plan Action Receipt suffix) :
    Option Bytes :=
  plan.receiptAfter.bind fun receipt => (encodeReceipt codec receipt).toOption

theorem encodedReceipt_of (hencode : ∀ receipt, (codec.toVecPretty receipt).isSome = true) :
    encodedReceipt codec plan = .ok (receiptBytes codec plan)
      ∧ (receiptBytes codec plan).isSome = plan.receiptAfter.isSome := by
  unfold encodedReceipt receiptBytes encodeReceipt
  cases plan.receiptAfter with
  | none => exact ⟨rfl, rfl⟩
  | some receipt =>
    obtain ⟨bytes, hbytes⟩ := Option.isSome_iff_exists.mp (hencode receipt)
    simp only [Option.bind_some, hbytes]
    exact ⟨rfl, rfl⟩

theorem applyLocked_yields (h : Files plan t r b d) (hs : Apart suffix)
    (hencode : ∀ receipt, (codec.toVecPretty receipt).isSome = true)
    (hvalid : validateAbsolutePath plan.target traits.targetName = .ok ())
    (ht : snapshotOf codec.digestBytes traits.maxTargetBytes traits.targetName t
      = .ok plan.original)
    (hr : snapshotOf codec.digestBytes maxReceiptBytes traits.receiptName r
      = .ok plan.receiptOriginal) (hclean : d.failed = none) :
    Runs (EndedOn traits plan (receiptBytes codec plan) t r b) (applyLocked codec traits plan)
      d := by
  have hearly : ∀ {t' r' b' : Option Node} {x : ManagerError} {d' : Drive Site},
      Files plan t r b' d' → ((∃ s, d'.failed = some s ∧ Early plan s)
        ∨ plan.removeBackup = false ∧ (d'.failed = none ∨ ∃ c, d'.failed = some ⟨.release, c⟩)) →
      EndedOn traits plan (receiptBytes codec plan) t r b (.error x) d' := by
    intro _ _ b' x d' hfiles hstep
    unfold EndedOn
    rw [hfiles.target, hfiles.receipt]
    exact .early hstep
  unfold applyLocked checkTarget
  refine assertUnchanged_yields hvalid (fun x c _ => ?_) (fun _ => ?_) fun x hne => ?_
  · exact @hearly t r _ _ _ (h.same rfl) (.inl ⟨_, rfl, trivial⟩)
  swap
  · rw [h.target] at hne
    exact absurd ht hne
  have hvalidReceipt := @valid_withSuffix _ _ _ _ traits.receiptName hvalid plan.receiptPath.beside
  refine assertUnchanged_yields hvalidReceipt (fun x c _ => ?_) (fun _ => ?_) fun x hne => ?_
  · exact @hearly t r _ _ _ (h.same rfl) (.inl ⟨_, rfl, trivial⟩)
  swap
  · rw [h.receipt] at hne
    exact absurd hr hne
  refine yields_bind (saveBackup_yields h hs hclean) ?_ ?_
  swap
  · rintro x d' ⟨b', hfiles, hfailed, hkept⟩
    refine @hearly t r _ _ _ hfiles ?_
    rcases hfailed with hf | ⟨c, hf⟩
    · refine .inr ⟨?_, .inl hf⟩
      rw [Bool.eq_false_iff]
      intro hremove
      cases (hkept hremove).2.2
    · exact .inl ⟨_, hf, trivial⟩
  rintro _ d' ⟨b', hfiles, hfailed, hkept⟩
  have hb : plan.removeBackup = true → b' = b := fun hremove => (hkept hremove).2.1
  refine yields_bind (writeTarget_yields hfiles hs (replaceable_of_snapshot ht)) ?_ ?_
  swap
  · intro x d'' hchanged
    cases hchanged with
    | undone files failed early => exact @hearly t r _ _ _ files (.inl ⟨_, failed, early⟩)
    | unsynced files failed sync =>
      unfold EndedOn
      rw [files.target, files.receipt, failed]
      exact .unsynced sync
  intro _ d'' hchanged
  cases hchanged with
  | done files failed =>
    have henc : encodedReceipt codec plan = .ok (receiptBytes codec plan)
        ∧ (receiptBytes codec plan).isSome = plan.receiptAfter.isSome := encodedReceipt_of hencode
    obtain ⟨hbytes, hsome⟩ := henc
    rw [hbytes]
    have hpassed : Passed plan d''.failed := by
      rcases failed with hf | ⟨_, hwrite, hf⟩
      · rw [hf]
        rcases hfailed with hn | ⟨c, hc⟩
        · rw [hn]
          exact .inl trivial
        · exact .inr ⟨c, hc⟩
      · rw [hf]
        exact .inl ⟨hwrite, rfl⟩
    have hunnoticed : plan.removeBackup = true → Unnoticed plan d''.failed := by
      intro hremove
      rcases failed with hf | ⟨_, hwrite, hf⟩
      · rw [hf, (hkept hremove).1]
        trivial
      · rw [hf]
        exact ⟨hwrite, rfl⟩
    have hfinish := finishReceipt_yields files hs hvalid ht (replaceable_of_snapshot hr) hsome
      hpassed hunnoticed
    refine yields_mono hfinish fun res d₃ hend => ?_
    exact hend.withBackup hb

theorem Ended.unlock {failed' : Option (Step Site)} {t' r' : Option Node}
    (h : Ended traits plan receipt t r b res t' r' failed)
    (hf : failed' = failed ∨ failed = none ∧ ∃ c, failed' = some ⟨.release, c⟩) :
    Ended traits plan receipt t r b res t' r' failed' := by
  rcases hf with rfl | ⟨rfl, c, rfl⟩
  · exact h
  · cases h with
    | done passed backup => exact .done (.inl trivial) backup
    | early step =>
      rcases step with ⟨s, hs, _⟩ | ⟨hkept, _⟩
      · cases hs
      · exact .early (.inr ⟨hkept, .inr ⟨c, rfl⟩⟩)
    | backup remove reached =>
      rcases reached with ⟨c', hc⟩ | ⟨hb, _⟩
      · cases hc
      · exact .backup remove (.inr ⟨hb, trivial⟩)

/-- Pruning always succeeds. -/
theorem pruneDirectories_ok {site : Site} (directories : List PosixPath) (d : Drive Site) :
    Runs (fun res _ => res = .ok ()) (pruneDirectories site directories) d := by
  induction directories generalizing d with
  | nil => exact yields_done.mpr rfl
  | cons directory rest ih =>
    unfold pruneDirectories
    split
    · exact yields_done.mpr rfl
    · refine yields_ask_bind.mpr ?_
      split
      · exact yields_done.mpr rfl
      · refine yields_ask_bind.mpr ?_
        split
        · exact yields_done.mpr rfl
        · exact ih _

theorem lock_ne {lock : PosixPath} (hs : Apart suffix)
    (hlock : plan.target.withSuffix ".kaleidoscope-lock".toList = some lock) :
    plan.target ≠ lock ∧ plan.receiptPath.path ≠ lock ∧ plan.backupPath.path ≠ lock := by
  refine ⟨(PosixPath.withSuffix_ne hlock (by decide)).symm, ?_, ?_⟩
  · rintro rfl
    exact hs.lock (PosixPath.withSuffix_inj plan.receiptPath.beside hlock)
  · rintro rfl
    have heq := PosixPath.withSuffix_inj plan.backupPath.beside hlock
    revert heq
    decide

theorem not_mem_ancestors {path : PosixPath}
    (hlen : path.components.length = plan.target.components.length) :
    path ∉ plan.target.ancestors := by
  intro hmem
  have hlt := PosixPath.length_lt_of_mem_ancestors hmem
  omega

theorem exists_lock (plan : Plan Action Receipt suffix) :
    ∃ lock, plan.target.withSuffix ".kaleidoscope-lock".toList = some lock := by
  obtain ⟨name, parent, hname, hparent, _⟩ := PosixPath.withSuffix_eq_some.mp plan.backupPath.beside
  exact ⟨_, PosixPath.withSuffix_eq_some.mpr ⟨name, parent, hname, hparent, rfl⟩⟩

theorem applyPlan_atomic_iff (hs : Apart suffix)
    (hencode : ∀ receipt, (codec.toVecPretty receipt).isSome = true)
    (hcurrent : Current codec traits plan d.fs) (hclean : d.failed = none) :
    Runs (fun res d' => AtomicOnError plan d.fs res d'.fs
        ↔ ¬Defect traits plan (receiptBytes codec plan) d.fs d'.failed)
      (applyPlan codec traits plan) d := by
  obtain ⟨lock, hlock⟩ := exists_lock plan
  obtain ⟨htarget_ne, hreceipt_ne, hbackup_ne⟩ := lock_ne hs hlock
  have hnot_target := @not_mem_ancestors _ _ _ plan plan.target rfl
  have hnot_receipt := @not_mem_ancestors _ _ _ plan _
    (PosixPath.length_withSuffix plan.receiptPath.beside)
  have hnot_backup := @not_mem_ancestors _ _ _ plan _
    (PosixPath.length_withSuffix plan.backupPath.beside)
  -- the lock and the directories above the target are the only paths that taking it changes
  have hwithin : Only (Within .lock fun q => q ∈ plan.target.ancestors ∨ q = lock)
      (acquireLock .lock plan.target) := by
    refine acquireLock_within (fun q hq => .inl hq) fun q hq => ?_
    rw [hlock] at hq
    cases hq
    exact .inr rfl
  unfold applyPlan
  refine yields_bind
    (yields_and (acquireLock_yields hcurrent.valid hlock) (frame_of_only hwithin d)) ?_ ?_
  swap
  · rintro x d₁ ⟨hacquired, hframe⟩
    have hsame : AtomicOnError plan d.fs (.error x) d₁.fs := fun _ =>
      ⟨hframe.same _ (not_or.mpr ⟨hnot_target, htarget_ne⟩),
        hframe.same _ (not_or.mpr ⟨hnot_receipt, hreceipt_ne⟩)⟩
    refine ⟨fun _ => ?_, fun _ => hsame⟩
    cases hacquired with
    | failed clean failed => exact not_defect_of_early (.inl ⟨_, failed, trivial⟩)
    | refused locked failed =>
      have hnone : d₁.failed = none := failed.trans hclean
      rw [hnone]
      rintro (⟨c, hc, _⟩ | ⟨c, hc, _⟩ | ⟨_, _, ⟨c, hc⟩ | ⟨_, _, hcan⟩⟩)
      · cases hc
      · cases hc
      · cases hc
      · exact locked (hcan lock hlock)
  rintro lock' d₁ ⟨hacquired, hframe⟩
  cases hacquired with
  | held lockable housed failed =>
    have hcan : CanLock plan d.fs := by
      intro lock' hlock'
      rw [hlock] at hlock'
      cases hlock'
      exact lockable
    have hfiles : Files plan (d.fs.get plan.target) (d.fs.get plan.receiptPath.path)
        (d.fs.get plan.backupPath.path) d₁ :=
      ⟨hframe.same _ (not_or.mpr ⟨hnot_target, htarget_ne⟩),
        hframe.same _ (not_or.mpr ⟨hnot_receipt, hreceipt_ne⟩),
        hframe.same _ (not_or.mpr ⟨hnot_backup, hbackup_ne⟩), housed⟩
    have hlocked := applyLocked_yields hfiles hs hencode hcurrent.valid hcurrent.target
      hcurrent.receipt (failed.trans hclean)
    have hrelease : ∀ d₂ : Drive Site, Runs (fun _ d₃ => Frame .release (fun q => q = lock) d₂ d₃)
        (releaseLock .release lock) d₂ := by
      refine frame_of_only (ignore_within ?_)
      intro q hq
      cases hq
      rfl
    refine yields_bind (yields_ensuring (yields_mono hlocked fun res d₂ hend =>
      yields_mono (hrelease d₂) fun _ d₃ hfree => ?_) : Runs (EndedOn traits plan
        (receiptBytes codec plan) (d.fs.get plan.target) (d.fs.get plan.receiptPath.path)
        (d.fs.get plan.backupPath.path)) _ d₁) ?_ ?_
    · unfold EndedOn at hend ⊢
      rw [hfree.same _ htarget_ne, hfree.same _ hreceipt_ne]
      exact hend.unlock hfree.failed
    · intro _ d₃ hend
      have hprune : Runs (fun res d₄ => res = .ok () ∧ Frame .prune
          (fun q => q ∈ plan.target.ancestors) d₃ d₄)
          (runIf (plan.write.isRemove = true)
            (pruneEmptyManagedDirectories .prune plan.target)) d₃ := by
        unfold runIf
        split
        · refine yields_and (pruneDirectories_ok _ _) (frame_of_only ?_ d₃)
          exact pruneDirectories_within fun q hq => List.mem_reverse.mp hq
        · exact yields_done.mpr ⟨rfl, Frame.refl _ _ _⟩
      refine yields_mono hprune fun res d₄ hpost => ?_
      obtain ⟨rfl, hpruned⟩ := hpost
      have hpassed : Passed plan d₄.failed ∧ (plan.removeBackup = true →
          Replaceable (d.fs.get plan.backupPath.path)) := by
        unfold EndedOn at hend
        generalize d₃.fs.get plan.target = t' at hend
        generalize d₃.fs.get plan.receiptPath.path = r' at hend
        cases hend with
        | done passed backup =>
          refine ⟨?_, backup⟩
          rcases hpruned.failed with hf | ⟨_, c, hf⟩
          · exact hf ▸ passed
          · rw [hf]
            exact .inl trivial
      exact ⟨fun _ => not_defect_of_passed hpassed.1 hpassed.2, fun _ ⟨x, hx⟩ => nomatch hx⟩
    · intro x d₃ hend
      exact hend.atomic_iff hcan

/-- A run leaves both files as they were after an error exactly where it met no defect. -/
def AtomicExactly (codec : ReceiptCodec Receipt) (traits : Traits) (isNoop : Bool)
    (plan : Plan Action Receipt suffix) (d : Drive Site) (res : Result Unit)
    (d' : Drive Site) : Prop :=
  AtomicOnError plan d.fs res d'.fs
    ↔ isNoop = true ∨ ¬Defect traits plan (receiptBytes codec plan) d.fs d'.failed

theorem runIf_atomic_exactly {isNoop : Bool} (hs : Apart suffix)
    (hencode : ∀ receipt, (codec.toVecPretty receipt).isSome = true)
    (hcurrent : Current codec traits plan d.fs) (hclean : d.failed = none) :
    Runs (AtomicExactly codec traits isNoop plan d)
      (runIf (isNoop = false) (applyPlan codec traits plan)) d := by
  unfold runIf AtomicExactly
  cases isNoop with
  | true => exact yields_done.mpr ⟨fun _ => .inl rfl, fun _ ⟨x, hx⟩ => nomatch hx⟩
  | false =>
    refine yields_mono (applyPlan_atomic_iff hs hencode hcurrent hclean) fun res d' h => ?_
    simpa using h

end

/-- Each of the three applies leaves both files as they were after an error exactly where the
step that failed was none of those that it does not undo. -/
theorem apply_atomic_iff {Receipt : Type} {codec : ReceiptCodec Receipt} {d : Drive Site}
    (hencode : ∀ receipt, (codec.toVecPretty receipt).isSome = true) (hclean : d.failed = none) :
    (∀ plan : ConnectionPlan Receipt, Current codec connectionTraits plan d.fs →
      Runs (AtomicExactly codec connectionTraits plan.action.isNoop plan d)
        (ConnectionPlan.apply codec plan) d)
      ∧ (∀ plan : InstructionPlan Receipt, Current codec instructionTraits plan d.fs →
        Runs (AtomicExactly codec instructionTraits plan.action.isNoop plan d)
          (InstructionPlan.apply codec plan) d)
      ∧ ∀ plan : HookPlan Receipt, Current codec hookTraits plan d.fs →
        Runs (AtomicExactly codec hookTraits plan.action.isNoop plan d)
          (HookPlan.apply codec plan) d := by
  have howner : Apart ".kaleidoscope-owner.json" := ⟨by decide, by decide, by decide⟩
  have hinstruction : Apart ".kaleidoscope-instruction-owner.json" :=
    ⟨by decide, by decide, by decide⟩
  refine ⟨fun plan hcurrent => ?_, fun plan hcurrent => ?_, fun plan hcurrent => ?_⟩
  · exact runIf_atomic_exactly howner hencode hcurrent hclean
  · exact runIf_atomic_exactly hinstruction hencode hcurrent hclean
  · exact runIf_atomic_exactly howner hencode hcurrent hclean

/-! ## A new target and a receipt that cannot be written -/

namespace ApplySample

def codec : ReceiptCodec Text :=
  { digestBytes := fun bytes => bytes.data.toList.map fun byte => Char.ofNat byte.toNat
    toVecPretty := fun receipt => some (Text.asciiBytes receipt) }

def directory : PosixPath := PosixPath.root.join "home".toList
def target : PosixPath := directory.join "mcp.json".toList
def backup : PosixPath := directory.join "mcp.json.kaleidoscope-backup".toList

/-- Install into a target that does not exist yet. -/
def plan {Action : Type} (action : Action) (suffix : String) (receiptPath : Sibling target suffix) :
    Plan Action Text suffix :=
  { action, target, receiptPath
    backupPath := ⟨backup, by decide⟩
    restore := none
    original := .absent codec.digestBytes
    receiptOriginal := .absent codec.digestBytes
    write := .write (Text.asciiBytes "new".toList)
    receiptAfter := some "owner".toList
    removeBackup := false
    removal := fun h => by cases h }

def ownerPath : Sibling target ".kaleidoscope-owner.json" :=
  ⟨directory.join "mcp.json.kaleidoscope-owner.json".toList, by decide⟩

def instructionOwnerPath : Sibling target ".kaleidoscope-instruction-owner.json" :=
  ⟨directory.join "mcp.json.kaleidoscope-instruction-owner.json".toList, by decide⟩

def connectionPlan : ConnectionPlan Text := plan .add _ ownerPath
def instructionPlan : InstructionPlan Text := plan .add _ instructionOwnerPath
def hookPlan : HookPlan Text := plan .add _ ownerPath

/-- An empty directory, and a disk that fails to publish the receipt. -/
def drive : Drive Site :=
  { fs := ⟨[(directory, .directory)]⟩
    processId := 1
    fault := some ⟨.receipt, .act (.publish ownerPath.path)⟩ }

theorem current {Action : Type} (action : Action) {suffix : String}
    {receiptPath : Sibling target suffix} {traits : Traits}
    (h : drive.fs.get receiptPath.path = none) :
    Current codec traits (plan action suffix receiptPath) drive.fs := by
  have htarget : drive.fs.get target = none := by decide
  refine ⟨rfl, ?_, ?_⟩
  · show snapshotOf _ _ _ (drive.fs.get target) = _
    rw [htarget]
    rfl
  · show snapshotOf _ _ _ (drive.fs.get receiptPath.path) = _
    rw [h]
    rfl

end ApplySample

section

open ApplySample

theorem apply_atomic_iff_new :
    Runs (AtomicExactly codec connectionTraits false connectionPlan drive)
        (ConnectionPlan.apply codec connectionPlan) drive
      ∧ Runs (AtomicExactly codec instructionTraits false instructionPlan drive)
        (InstructionPlan.apply codec instructionPlan) drive
      ∧ Runs (AtomicExactly codec hookTraits false hookPlan drive)
        (HookPlan.apply codec hookPlan) drive := by
  obtain ⟨hconnection, hinstruction, hhook⟩ :=
    @apply_atomic_iff Text codec drive (fun _ => rfl) rfl
  exact ⟨hconnection connectionPlan (current _ (by decide)),
    hinstruction instructionPlan (current _ (by decide)), hhook hookPlan (current _ (by decide))⟩

/-- Whether a run ended with an error, and what it left at the target. -/
def errorAndTarget (target : PosixPath) : Option (Result Unit × Drive Site) → Option (Option Node)
  | some (.error _, d) => some (d.fs.get target)
  | _ => none

/-- The receipt cannot be written, and the new target stays. -/
theorem created_target_stays :
    Current codec connectionTraits connectionPlan drive.fs ∧ drive.failed = none
      ∧ ¬Runs (fun res d' => AtomicOnError connectionPlan drive.fs res d'.fs)
        (ConnectionPlan.apply codec connectionPlan) drive := by
  refine ⟨current _ (by decide), rfl, ?_⟩
  have hrun : errorAndTarget target
      (run Drive.answer (ConnectionPlan.apply codec connectionPlan) drive)
        = some (some (.file (Text.asciiBytes "new".toList) 0o600)) := by
    decide +kernel
  rintro ⟨res, d', heq, hatomic⟩
  rw [heq] at hrun
  cases res with
  | ok u => cases hrun
  | error x =>
    have hkept := (hatomic ⟨x, rfl⟩).1
    have hleft : d'.fs.get target = some (.file (Text.asciiBytes "new".toList) 0o600) :=
      Option.some.inj hrun
    have hnone : drive.fs.get target = none := by decide
    have hsame : d'.fs.get target = drive.fs.get target := hkept
    rw [hleft, hnone] at hsame
    cases hsame

end

end Kaleidoscope
