import Kaleidoscope.Hosts

/-!
# Agent instructions

The manager keeps a block between two markers in an instruction file, or a whole file of its own.
An install adds the block, replaces the one that is there, or takes an identical one over; a
removal takes it out again, with the separator that the owner receipt records.
-/

namespace Kaleidoscope

/-- `Display` of an error. -/
def ManagerError.message : ManagerError → Text
  | .usage message => message.toList
  | .unsafePath target reason =>
    "unsafe ".toList ++ target.toList ++ " path: ".toList ++ reason.toList
  | .io operation kind =>
    operation.toList ++ " failed (".toList
      ++ (match kind with
        | .notFound => "NotFound".toList
        | .alreadyExists => "AlreadyExists".toList
        | .other => "Other".toList)
      ++ ")".toList
  | .invalidEngineContract contract reason =>
    "engine returned an invalid ".toList ++ contract.toList ++ ": ".toList ++ reason.toList
  | .invalidManagerConfig reason =>
    "manager configuration is invalid: ".toList ++ reason.toList
  | .invalidHostConfig message => "host configuration is invalid: ".toList ++ message.toList
  | .hostConflict message => "host configuration conflict: ".toList ++ message.toList
  | .concurrentEdit =>
    "host configuration changed between the preview and the write, so nothing was ".toList
      ++ "overwritten. If the target is ~/.claude.json, Claude Code rewrites that file ".toList
      ++ "itself: close it (or wait for it to settle) and re-run.".toList
  | .invalidOwnerReceipt =>
    "the manager-owned entry no longer matches its owner receipt, so no manager command ".toList
      ++ "will edit it. Nothing was changed. If you edited it on purpose, delete the ".toList
      ++ "Kaleidoscope entry and its `*.kaleidoscope-owner.json` (or ".toList
      ++ "`*.kaleidoscope-instruction-owner.json`) receipt beside it by hand, then re-run ".toList
      ++ "`kaleidoscope init`.".toList
  | .invalidProfileName => "profile name is invalid".toList
  | .initManagerStateRecovery profile cause =>
    "manager state could not be published after native initialization (".toList
      ++ cause.message ++ "); the vault and native profile were preserved; run ".toList
      ++ "kaleidoscope profile use ".toList ++ profile
  | .profileRootMismatch profile existing requested =>
    "profile ".toList ++ profile ++ " is already bound to ".toList ++ existing
      ++ "; --root named ".toList ++ requested
      ++ ". Repointing a profile at a different vault is never implied: choose the existing ".toList
      ++ "root, pick another --profile name, or remove the profile first.".toList
  | .ambiguousVault message => message
  | .wouldForkVault root workspaces =>
    root ++ " is already a Kaleidoscope vault (".toList ++ (toString workspaces).toList
      ++ " workspace(s)). Creating a profile there would FORK it -- the engine adds a SECOND ".toList
      ++ "workspace to the same directory, the two profiles then hold separate memory in it, ".toList
      ++ "and `profile import` refuses afterwards because the vault has two workspaces, so no ".toList
      ++ "manager command undoes it. Re-run without --create to adopt it, or name an empty ".toList
      ++ "--root.".toList
  | .hostConfigTooLarge message => message.toList
  | .panicked => []

namespace Instructions

open Prog Disk

def managerOwner : Text := "kaleidoscope-manager-v1".toList
def receiptVersion : Nat := 2

inductive InstructionTarget where
  | skill
  | agents
  | claude
  | cursor
  deriving DecidableEq

namespace InstructionTarget

def asStr : InstructionTarget → Text
  | .skill => "skill".toList
  | .agents => "agents".toList
  | .claude => "claude".toList
  | .cursor => "cursor".toList

end InstructionTarget

/-- How the manager owns bytes in a file: a span between markers, or all of it. -/
inductive OwnedShape where
  | markerBlock
  | wholeFile
  deriving DecidableEq

def ownedShape : InstructionTarget → OwnedShape
  | .skill => .wholeFile
  | .agents => .markerBlock
  | .claude => .markerBlock
  | .cursor => .markerBlock

structure InstructionReceipt where
  version : Nat
  owner : Text
  target : InstructionTarget
  shape : OwnedShape
  ownedSha256 : Text
  ownedBlock : Text
  preSha256 : Text
  postSha256 : Text
  separator : Text
  fileCreated : Bool
  adopted : Bool
  deriving DecidableEq

/-- What the digest and the JSON crates compute. -/
structure Crates where
  receipts : ReceiptCodec InstructionReceipt
  fromSlice : Bytes → Option InstructionReceipt

def instructionPath (kind : InstructionTarget) (host : Option Host) (project : PosixPath) :
    Result PosixPath := do
  rejectIf (!project.absolute) (.unsafePath "project directory" "path must be absolute")
  match kind with
  | .skill =>
    let skill (directory : Text) : PosixPath :=
      (((project.join directory).join "skills".toList).join "use-kaleidoscope".toList).join
        "SKILL.md".toList
    match host with
    | none => .error (.usage ("instructions install skill requires --host: the skill directory "
        ++ "differs per harness (claude-code reads .claude/skills/, codex and opencode read "
        ++ ".agents/skills/, cursor has none). Pass --host codex|claude-code|cursor|opencode."))
    | some .claudeCode => .ok (skill ".claude".toList)
    | some .codex | some .openCode => .ok (skill ".agents".toList)
    | some .cursor => .error (.usage ("Cursor has no skill directory; install the cursor rule "
        ++ "instead (kaleidoscope instructions install cursor)"))
  | .agents => .ok (project.join "AGENTS.md".toList)
  | .claude => .ok (project.join "CLAUDE.md".toList)
  | .cursor =>
    .ok (((project.join ".cursor".toList).join "rules".toList).join "kaleidoscope.mdc".toList)

/-! ## Markers -/

def markerStart : InstructionTarget → Text
  | .skill => []
  | .agents =>
    "<!-- >>> kaleidoscope-manager owner=kaleidoscope-manager-v1 instruction=agents -->".toList
  | .claude =>
    "<!-- >>> kaleidoscope-manager owner=kaleidoscope-manager-v1 instruction=claude -->".toList
  | .cursor =>
    "---\n# >>> kaleidoscope-manager owner=kaleidoscope-manager-v1 instruction=cursor".toList

def markerEnd : InstructionTarget → Text
  | .skill => []
  | .agents =>
    "<!-- <<< kaleidoscope-manager owner=kaleidoscope-manager-v1 instruction=agents -->".toList
  | .claude =>
    "<!-- <<< kaleidoscope-manager owner=kaleidoscope-manager-v1 instruction=claude -->".toList
  | .cursor =>
    "# <<< kaleidoscope-manager owner=kaleidoscope-manager-v1 instruction=cursor".toList

def duplicatedMarker : ManagerError :=
  .invalidHostConfig "instruction owner marker is duplicated or incomplete"

/-- From the start marker to the end marker, with the newline after it. -/
def findOwnedBlock (text : Text) (kind : InstructionTarget) : Result (Option Text) :=
  match Text.matchIndices (markerStart kind) text, Text.matchIndices (markerEnd kind) text with
  | [], [] => .ok none
  | [start], [stop] =>
    if start < stop then
      let after := stop + (markerEnd kind).length
      let after := if text[after]? = some '\n' then after + 1 else after
      .ok (some ((text.take after).drop start))
    else .error duplicatedMarker
  | _, _ => .error duplicatedMarker

/-- The marker up to the manager's name. -/
def relaxedMarker (full : Text) : Text :=
  match Text.find "kaleidoscope-manager".toList full with
  | some at_ => full.take (at_ + "kaleidoscope-manager".length)
  | none => full

/-- From the first relaxed marker to the end of the line that the last one is in. -/
def forcedOwnedSpan (text : Text) (kind : InstructionTarget) : Option Text :=
  let start := relaxedMarker (markerStart kind)
  let stop := relaxedMarker (markerEnd kind)
  if start.isEmpty || stop.isEmpty then none
  else
    let starts := Text.matchIndices start text
    let stops := Text.matchIndices stop text
    match (starts ++ stops).min? with
    | none => none
    | some lowest =>
      let highest := (starts.map (· + start.length) ++ stops.map (· + stop.length)).foldl max 0
      let after :=
        match Text.find ['\n'] (text.drop highest) with
        | some offset => highest + offset + 1
        | none => text.length
      some ((text.take after).drop lowest)

/-- What the manager owns of a text. -/
def currentOwned (text : Text) (kind : InstructionTarget) (receipt : Option InstructionReceipt)
    (force : Bool) : Result (Option Text) :=
  match ownedShape kind with
  | .markerBlock =>
    match findOwnedBlock text kind with
    | .ok block => .ok block
    | .error error =>
      if force then
        match forcedOwnedSpan text kind with
        | some span => .ok (some span)
        | none => .error error
      else .error error
  | .wholeFile => .ok (if text.isEmpty ∨ receipt.isNone then none else some text)

/-! ## The block in a text -/

/-- The new text, and the separator that was put before the block. -/
def installBlock (text : Text) (current : Option Text) (desired : Text) (shape : OwnedShape) :
    Result (Text × Text) :=
  match shape, current with
  | .wholeFile, _ => .ok (desired, [])
  | .markerBlock, some current => do
    rejectIf ((Text.matchIndices current text).length ≠ 1)
      (.invalidHostConfig "owned instruction block is ambiguous")
    return (Text.replaceFirst current desired text, [])
  | .markerBlock, none =>
    let separator : Text :=
      if text.isEmpty || ['\n', '\n'].isSuffixOf text then []
      else if ['\n'].isSuffixOf text then ['\n']
      else ['\n', '\n']
    .ok (text ++ separator ++ desired, separator)

/-- Whether the separator is still before the block. -/
def separatorBefore (separator before : Text) : Result Bool :=
  if separator.isEmpty then .ok false
  else (Text.endsBefore separator before).elim (.error .panicked) .ok

/-- The text without the block, and without the separator where it is still before it. -/
def removeBlock (text block separator : Text) (shape : OwnedShape) : Result Text :=
  match shape with
  | .wholeFile => .ok []
  | .markerBlock =>
    match Text.find block text with
    | none => .error .invalidOwnerReceipt
    | some start => do
      rejectIf (Text.contains (text.drop (start + block.length)) block) .invalidOwnerReceipt
      let before := text.take start
      let separated ← separatorBefore separator before
      return (if separated then before.take (before.length - separator.length) else before)
        ++ text.drop (start + block.length)

/-! ## Messages -/

/-- The `--host` of a remedy. -/
def hostFlag (host : Option Host) : Text :=
  match host with
  | none => "--host claude-code".toList
  | some host => "--host ".toList ++ host.asStr

def markerLabel : InstructionTarget → Text
  | .skill => "SKILL.md".toList
  | .agents => "AGENTS.md".toList
  | .claude => "CLAUDE.md".toList
  | .cursor => ".cursor/rules/kaleidoscope.mdc".toList

/-- A block that differs from the manager's, and no receipt. -/
def unownedBlock (kind : InstructionTarget) (host : Option Host) : ManagerError :=
  .hostConflict (String.ofList (markerLabel kind
    ++ " contains a Kaleidoscope block that differs from this version's, and it carries no ".toList
    ++ "manager owner receipt. Nothing was changed.\nWays forward:\n".toList
    ++ "  keep your block and wire everything else\n      kaleidoscope init ".toList
    ++ hostFlag host ++ " --no-instructions\n".toList
    ++ "  replace it (the discarded bytes are printed in full first)\n".toList
    ++ "      kaleidoscope instructions install ".toList ++ kind.asStr ++ " --force".toList))

/-- A block that differs from what the receipt names. -/
def handEdited : ManagerError :=
  .hostConflict ("the manager-owned instruction block has been hand-edited and no longer matches "
    ++ "its owner receipt; re-run with --force to overwrite or remove it (the discarded bytes "
    ++ "are printed in full first)")

/-- A block and no receipt, on a removal. -/
def unownedMarker (target : PosixPath) : ManagerError :=
  .hostConflict (String.ofList ("the instruction marker at ".toList ++ target.display
    ++ " has no manager owner receipt; re-run with --force to remove it and disclose the ".toList
    ++ "discarded bytes".toList))

/-- A receipt and no marker, on a removal. -/
def missingMarkers (target receiptPath : PosixPath) : ManagerError :=
  .invalidHostConfig (String.ofList (target.display
    ++ " carries a manager owner receipt but no manager marker at all -- both markers were ".toList
    ++ "edited or removed by hand, so nothing here identifies the block, and --force cannot ".toList
    ++ "either. Delete the manager block from ".toList ++ target.display
    ++ " by hand, then delete ".toList ++ receiptPath.display ++ ".".toList))

/-- A rule of the user's, without markers. -/
def unmarkedRule (target : PosixPath) : ManagerError :=
  .hostConflict (String.ofList (target.display
    ++ " already exists and carries no Kaleidoscope marker block, so the manager cannot tell ".toList
    ++ "where its own text would end and yours begins. Nothing was changed.\n".toList
    ++ "Ways forward:\n  keep your file and wire everything else\n".toList
    ++ "      kaleidoscope init --host cursor --no-instructions\n  delete ".toList
    ++ target.display ++ " by hand and re-run, or make it byte-identical to the manager's ".toList
    ++ "rule, which a re-run will adopt in place.".toList))

section

variable (crates : Crates)

def digest (bytes : Bytes) : Text := crates.receipts.digestBytes bytes

/-- A whole file of the user's. -/
def wholeFileConflict (target : PosixPath) (host : Option Host) (yours : Text) (yourBytes : Nat)
    (desired : Text) : ManagerError :=
  .hostConflict (String.ofList (target.display
    ++ " already exists and its contents differ from the skill this manager installs, so ".toList
    ++ "nothing was changed.\n  yours:   sha256:".toList ++ yours.take 8 ++ "   (".toList
    ++ (toString yourBytes).toList ++ " bytes)\n  manager: sha256:".toList
    ++ (digest crates (Text.utf8 desired)).take 8 ++ "   (".toList
    ++ (toString (Text.byteLen desired)).toList ++ " bytes)\nWays forward:\n".toList
    ++ "  keep your file and wire everything else\n      kaleidoscope init ".toList
    ++ hostFlag host ++ " --no-skill\n".toList
    ++ "  replace it (the discarded bytes are printed in full first, and a ".toList
    ++ target.display ++ ".kaleidoscope-backup is kept)\n".toList
    ++ "      kaleidoscope instructions install skill ".toList ++ hostFlag host
    ++ " --force\nIf you make the file byte-identical to the manager's, a re-run will adopt ".toList
    ++ "it in place and write only the owner receipt.".toList))

/-! ## Receipts -/

def InstructionReceipt.validate (receipt : InstructionReceipt) (kind : InstructionTarget) :
    Result Unit := do
  rejectIf
    (receipt.version ≠ receiptVersion
      ∨ receipt.owner ≠ managerOwner
      ∨ receipt.target ≠ kind
      ∨ receipt.ownedSha256 ≠ digest crates (Text.utf8 receipt.ownedBlock))
    .invalidOwnerReceipt
  rejectIf
    (receipt.shape = .markerBlock
      ∧ (!(markerStart kind).isPrefixOf receipt.ownedBlock
        ∨ !(markerEnd kind ++ ['\n']).isSuffixOf receipt.ownedBlock))
    .invalidOwnerReceipt

def decodeReceipt (snapshot : Snapshot) (kind : InstructionTarget) :
    Result (Option InstructionReceipt) :=
  match snapshot.bytes with
  | none => .ok none
  | some bytes =>
    match crates.fromSlice bytes with
    | none => .error .invalidOwnerReceipt
    | some receipt => do
      InstructionReceipt.validate crates receipt kind
      return some receipt

def snapshotText (snapshot : Snapshot) : Result Text :=
  match Utf8.decode (snapshot.bytes.elim [] fun bytes => bytes.data.toList) with
  | none => .error (.invalidHostConfig "agent instruction file is not UTF-8")
  | some text => .ok text

def validateOwnership (receipt : Option InstructionReceipt) (current : Option Text)
    (kind : InstructionTarget) (host : Option Host) : Result Unit :=
  match receipt, current with
  | none, none => .ok ()
  | none, some _ => .error (unownedBlock kind host)
  | some receipt, some current =>
    rejectIf
      (receipt.target ≠ kind ∨ receipt.ownedBlock ≠ current
        ∨ receipt.ownedSha256 ≠ digest crates (Text.utf8 current))
      handEdited
  | some _, none => .error handEdited

/-- A forced change does not ask whose the block is. -/
def checkOwnership (force : Bool) (receipt : Option InstructionReceipt) (current : Option Text)
    (kind : InstructionTarget) (host : Option Host) : Result Unit :=
  if force then .ok () else validateOwnership crates receipt current kind host

/-! ## Planning -/

/-- A plan, and the bytes that a forced one discards. -/
structure Planned where
  plan : InstructionPlan InstructionReceipt
  discarded : Option Text

/-- What both planners read first. -/
structure Look where
  target : PosixPath
  receiptPath : Sibling target ".kaleidoscope-instruction-owner.json"
  backupPath : Sibling target ".kaleidoscope-backup"
  original : Snapshot
  receiptOriginal : Snapshot
  receipt : Option InstructionReceipt
  text : Text

def lookAt (kind : InstructionTarget) (host : Option Host) (project : PosixPath) (nodes : Nodes) :
    Result Look := do
  let target ← instructionPath kind host project
  let receiptPath ← siblingPath target ".kaleidoscope-instruction-owner.json"
  let backupPath ← siblingPath target ".kaleidoscope-backup"
  let original ← snapshotOf (digest crates) maxInstructionBytes instructionTraits.targetName
    nodes.target
  let receiptOriginal ← snapshotOf (digest crates) maxReceiptBytes instructionTraits.receiptName
    nodes.receipt
  let receipt ← decodeReceipt crates receiptOriginal kind
  let text ← snapshotText original
  return { target, receiptPath, backupPath, original, receiptOriginal, receipt, text }

/-- A plan that leaves everything as it is. -/
def noopPlan (action : InstructionAction) (look : Look) : InstructionPlan InstructionReceipt where
  action := action
  target := look.target
  receiptPath := look.receiptPath
  backupPath := look.backupPath
  restore := none
  original := look.original
  receiptOriginal := look.receiptOriginal
  write := .leave
  receiptAfter := none
  removeBackup := false
  removal := none_of_kept

/-- Take over content that is there already: the receipt is all that is written. -/
def adoptPlan (kind : InstructionTarget) (desired : Text) (look : Look) :
    InstructionPlan InstructionReceipt :=
  { noopPlan .adopt look with
    receiptAfter := some
      { version := receiptVersion, owner := managerOwner, target := kind, shape := ownedShape kind
        ownedSha256 := digest crates (Text.utf8 desired), ownedBlock := desired
        preSha256 := look.original.sha256, postSha256 := look.original.sha256, separator := []
        fileCreated := false, adopted := true } }

/-- Whether the content is the manager's already, without a receipt. -/
def adopts (kind : InstructionTarget) (desired : Text) (look : Look) (current : Option Text) :
    Bool :=
  match ownedShape kind with
  | .wholeFile => look.receipt.isNone && !look.text.isEmpty && look.text == desired
  | .markerBlock => look.receipt.isNone && current == some desired

/-- Content of the user's, where the manager's would be the whole file or cannot be told apart. -/
def unmanaged (kind : InstructionTarget) (look : Look) (current : Option Text) : Bool :=
  (kind == .skill || kind == .cursor) && look.receipt.isNone && current.isNone
    && !look.text.all Text.isWhitespace

/-- What of the user's an install discards, or why it does not. -/
def installDiscards (kind : InstructionTarget) (host : Option Host) (desired : Text)
    (force : Bool) (look : Look) (current : Option Text) : Result (Option Text) :=
  if unmanaged kind look current then
    match ownedShape kind with
    | .markerBlock => .error (unmarkedRule look.target)
    | .wholeFile => do
      rejectIf (!force) (wholeFileConflict crates look.target host look.original.sha256
        (look.original.bytes.elim 0 (·.size)) desired)
      return some look.text
  else .ok none

/-- What a forced change discards of the block that is there. -/
def forcedDiscards (receipt : Option InstructionReceipt) (current : Option Text) : Option Text :=
  current.bind fun current =>
    if receipt.any (·.ownedBlock == current) then none else some current

def installReceipt (kind : InstructionTarget) (desired : Text) (look : Look)
    (updated separator : Text) : InstructionReceipt where
  version := receiptVersion
  owner := managerOwner
  target := kind
  shape := ownedShape kind
  ownedSha256 := digest crates (Text.utf8 desired)
  ownedBlock := desired
  preSha256 := look.receipt.elim look.original.sha256 (·.preSha256)
  postSha256 := digest crates (Text.utf8 updated)
  separator := separator
  fileCreated := look.receipt.elim look.original.bytes.isNone (·.fileCreated)
  adopted := look.receipt.any (·.adopted)

/-- `desired` is the block or the file that this version of the manager ships. -/
def planInstallAt (desired : Text) (kind : InstructionTarget) (host : Option Host)
    (project : PosixPath) (force : Bool) (nodes : Nodes) : Result Planned := do
  let look ← lookAt crates kind host project nodes
  let current ← currentOwned look.text kind look.receipt force
  if adopts kind desired look current then
    return ⟨adoptPlan crates kind desired look, none⟩
  else do
    let unmanagedText ← installDiscards crates kind host desired force look current
    checkOwnership crates force look.receipt current kind host
    let discarded :=
      if force then (forcedDiscards look.receipt current).or unmanagedText else unmanagedText
    if current = some desired ∧ look.receipt.any (·.ownedBlock == desired) then
      return ⟨noopPlan .alreadyInstalled look, none⟩
    else do
      let action : InstructionAction := if current.isSome then .update else .add
      let (updated, separator) ← installBlock look.text current desired (ownedShape kind)
      return ⟨{ noopPlan action look with
        write := .write (Text.utf8 updated)
        receiptAfter := some (installReceipt crates kind desired look updated separator) },
        discarded⟩

/-- A whole file that the manager did not create is left in place, or put back as it was. -/
def releasePlan (look : Look) (receipt : InstructionReceipt) (backup : Snapshot) :
    InstructionPlan InstructionReceipt :=
  if look.original.sha256 = receipt.postSha256
      ∧ backup.bytes.isSome ∧ backup.sha256 = receipt.preSha256 then
    { noopPlan .remove look with
      restore := some .byteIdentical
      write := backup.bytes.elim .leave .write
      removeBackup := true
      removal := some_of_removed .byteIdentical }
  else
    { noopPlan .remove look with
      restore := some .adoptedLeftInPlace
      removal := fun _ => rfl }

def readBackup (nodes : Nodes) : Result Snapshot :=
  snapshotOf (digest crates) maxInstructionBytes "instruction backup" nodes.backup

/-- The file is as the manager left it, and known as it was before. -/
def exactly (look : Look) (receipt : InstructionReceipt) (backup : Snapshot) : Prop :=
  receipt.adopted = false ∧ look.original.sha256 = receipt.postSha256
    ∧ (receipt.fileCreated = true ∨ backup.bytes.isSome = true ∧ backup.sha256 = receipt.preSha256)

instance (look : Look) (receipt : InstructionReceipt) (backup : Snapshot) :
    Decidable (exactly look receipt backup) := inferInstanceAs (Decidable (_ ∧ _))

def exactPlan (look : Look) (receipt : InstructionReceipt) (backup : Snapshot) :
    InstructionPlan InstructionReceipt :=
  { noopPlan .remove look with
    restore := some .byteIdentical
    write := if receipt.fileCreated then .remove else backup.bytes.elim .remove .write
    removeBackup := true
    removal := some_of_removed .byteIdentical }

def structuralPlan (kind : InstructionTarget) (look : Look) (receipt : InstructionReceipt)
    (removed : Text) : InstructionPlan InstructionReceipt :=
  { noopPlan .remove look with
    restore := some .structural
    write :=
      if receipt.fileCreated && removed.all Text.isWhitespace then .remove
      else if ownedShape kind = .wholeFile ∧ receipt.fileCreated = false then .leave
      else .write (Text.utf8 removed)
    removal := fun _ => rfl }

def planRemoveAt (kind : InstructionTarget) (host : Option Host) (project : PosixPath) (force : Bool)
    (nodes : Nodes) : Result Planned := do
  let look ← lookAt crates kind host project nodes
  let current ← currentOwned look.text kind look.receipt force
  match look.receipt with
  | none => do
    rejectIf current.isSome (unownedMarker look.target)
    return ⟨noopPlan .alreadyRemoved look, none⟩
  | some receipt =>
    if ownedShape kind = .wholeFile ∧ receipt.fileCreated = false then do
      let backup ← readBackup crates nodes
      return ⟨releasePlan look receipt backup, none⟩
    else do
      checkOwnership crates force (some receipt) current kind host
      let discarded := if force then forcedDiscards (some receipt) current else none
      match current with
      | none => .error (missingMarkers look.target look.receiptPath.path)
      | some current => do
        let backup ← readBackup crates nodes
        if exactly look receipt backup then
          return ⟨exactPlan look receipt backup, discarded⟩
        else do
          let removed ← removeBlock look.text current receipt.separator (ownedShape kind)
          return ⟨structuralPlan kind look receipt removed, discarded⟩

end

end Instructions

end Kaleidoscope
