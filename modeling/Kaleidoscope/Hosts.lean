import Kaleidoscope.Target
import Kaleidoscope.JsonCrate
import Kaleidoscope.HostEntry
import Kaleidoscope.Engine
import Kaleidoscope.Lib.Find
import Kaleidoscope.Lib.Utf8

/-!
# The entry of a host that keeps its configuration in JSON

A connect puts the manager's entry into the document, replaces the one that the owner receipt
names, or takes an identical one over; a disconnect takes the receipt's entry out again.
-/

namespace Kaleidoscope

inductive Host where
  | codex
  | claudeCode
  | cursor
  | openCode
  deriving DecidableEq

namespace Host

def asStr : Host → Text
  | .codex => "codex".toList
  | .claudeCode => "claude-code".toList
  | .cursor => "cursor".toList
  | .openCode => "opencode".toList

/-- A host with its version; no other host keeps JSON, and OpenCode always comes with one. -/
def json : Host → Option OpenCodeVersion → Option JsonHost
  | .claudeCode, _ => some .claudeCode
  | .cursor, _ => some .cursor
  | .openCode, version => version.map .openCode
  | .codex, _ => none

end Host

inductive OwnedFormat where
  | jsonEntry
  | codexMarkerBlock
  deriving DecidableEq

structure OwnershipReceipt where
  version : Nat
  owner : Text
  host : Host
  scope : Scope
  profile : Text
  format : OwnedFormat
  openCodeVersion : Option OpenCodeVersion
  ownedSha256 : Text
  owned : Value
  preSha256 : Text
  postSha256 : Text
  configCreated : Bool
  adopted : Bool

namespace Hosts

open Prog Disk

def owner : Text := "kaleidoscope-manager-v1".toList
def ownerReceiptVersion : Nat := 1
def markerStart : Text :=
  "# >>> kaleidoscope-manager owner=kaleidoscope-manager-v1 host=codex".toList
def markerEnd : Text := "# <<< kaleidoscope-manager owner=kaleidoscope-manager-v1".toList

/-- What the digest, the JSON and the TOML crates compute. -/
structure Crates where
  json : JsonCrate
  receipts : ReceiptCodec OwnershipReceipt
  fromSlice : Bytes → Option OwnershipReceipt
  isToml : Text → Bool

/-! ## Paths in a document -/

def getJsonPath (path : List Text) (value : Value) : Option Value :=
  match path with
  | [] => some value
  | key :: path => (value.get key).bind (getJsonPath path)

/-- Set a member, under new objects where there are none. -/
def setJsonPath (member : Value) (path : List Text) (value : Value) : Result Value :=
  match path, value with
  | [], _ => .error (.invalidHostConfig "empty structured path")
  | [last], .object members => .ok (.object (Members.set last member members))
  | [_], _ => .error (.invalidHostConfig "parent is not an object")
  | key :: path, .object members => do
    let inner ← setJsonPath member path ((members.lookup key).getD (.object []))
    return .object (Members.set key inner members)
  | key :: _, _ =>
    .error (.invalidHostConfig (String.ofList (key ++ " is not an object".toList)))

def removeJsonPath (path : List Text) (value : Value) : Result Value :=
  match path, value with
  | [], _ => .error (.invalidHostConfig "empty structured path")
  | [last], .object members => do
    rejectIf (members.lookup last).isNone .invalidOwnerReceipt
    return .object (Members.swapRemove last members)
  | key :: path, .object members =>
    match members.lookup key with
    | none => .error .invalidOwnerReceipt
    | some inner => do
      let inner ← removeJsonPath path inner
      return .object (Members.set key inner members)
  | _ :: _, _ => .error .invalidOwnerReceipt

def jsonEntryPath (host : Host) (version : Option OpenCodeVersion) : List Text :=
  (host.json version).elim [] Kaleidoscope.jsonEntryPath

def desiredJsonEntry (host : Host) (descriptor : LaunchDescriptor)
    (version : Option OpenCodeVersion) : Value :=
  (host.json version).elim .null fun host =>
    Kaleidoscope.desiredJsonEntry host descriptor.command.display descriptor.args

/-- Nothing is left but the containers of the entry. -/
def jsonDocumentIsEmptyShell (host : Host) (version : Option OpenCodeVersion) (document : Value) :
    Bool :=
  let parents := (jsonEntryPath host version).dropLast
  let expected := (setJsonPath (.object []) parents (.object [])).toOption.getD (.object [])
  document.same expected || document.isEmptyObject

/-! ## The two shapes of OpenCode -/

structure OpenCodeShapeState where
  stableEntry : Bool
  betaContainer : Bool
  betaEntry : Bool

namespace OpenCodeShapeState

def hasAnyEntry (state : OpenCodeShapeState) : Bool := state.stableEntry || state.betaEntry

def conflictsWith (state : OpenCodeShapeState) : OpenCodeVersion → Bool
  | .stableV1 => state.betaContainer
  | .betaV2 => state.stableEntry

end OpenCodeShapeState

def openCodeShapeState (document : Value) : Result OpenCodeShapeState :=
  match document.get "mcp".toList with
  | none => .ok ⟨false, false, false⟩
  | some (.object mcp) =>
    let stableEntry := (mcp.lookup "kaleidoscope".toList).isSome
    match mcp.lookup "servers".toList with
    | none => .ok ⟨stableEntry, false, false⟩
    | some (.object servers) =>
      .ok ⟨stableEntry, true, (servers.lookup "kaleidoscope".toList).isSome⟩
    | some _ =>
      .error (.invalidHostConfig "OpenCode mcp.servers must be an object for beta-v2")
  | some _ => .error (.invalidHostConfig "OpenCode mcp must be an object")

/-- The version of the receipt, else the requested one, else the one whose container is there. -/
def selectedVersion (state : OpenCodeShapeState) (receipt : Option OwnershipReceipt)
    (requested : Option OpenCodeVersion) : Result OpenCodeVersion :=
  match receipt with
  | some receipt =>
    match receipt.openCodeVersion with
    | none => .error .invalidOwnerReceipt
    | some owned => do
      rejectIf (requested.any (· ≠ owned)) (.hostConflict
        "the requested OpenCode version differs from the manager-owned entry")
      return owned
  | none => .ok (requested.getD (if state.betaContainer then .betaV2 else .stableV1))

def selectOpenCodeVersion (document : Value) (receipt : Option OwnershipReceipt)
    (requested : Option OpenCodeVersion) : Result OpenCodeVersion := do
  let state ← openCodeShapeState document
  let selected ← selectedVersion state receipt requested
  rejectIf (state.conflictsWith selected) (.hostConflict
    ("stable-v1 and beta-v2 OpenCode shapes are both present or conflict with the requested "
      ++ "target; manual review is required"))
  return selected

section

variable (crates : Crates)

/-! ## Receipts -/

def digest (bytes : Bytes) : Text := crates.receipts.digestBytes bytes

def ownedDigest (format : OwnedFormat) (owned : Value) : Result Text :=
  match format with
  | .jsonEntry => .ok (digest crates ⟨(crates.json.toVec owned).toArray⟩)
  | .codexMarkerBlock =>
    match owned.asStr with
    | none => .error .invalidOwnerReceipt
    | some block => .ok (digest crates (Text.utf8 block))

/-- The digest in a receipt is that of what it says is owned. -/
def OwnershipReceipt.digestHolds (receipt : OwnershipReceipt) (format : OwnedFormat) : Bool :=
  match ownedDigest crates format receipt.owned with
  | .ok digest => receipt.ownedSha256 == digest
  | .error _ => false

def OwnershipReceipt.validate (receipt : OwnershipReceipt) (host : Host) (scope : Scope) :
    Result Unit := do
  rejectIf
    (receipt.version ≠ ownerReceiptVersion
      ∨ receipt.owner ≠ owner
      ∨ receipt.host ≠ host
      ∨ receipt.scope ≠ scope
      ∨ !(validateProfileName receipt.profile).isOk
      ∨ !OwnershipReceipt.digestHolds crates receipt receipt.format
      ∨ decide (receipt.host = .openCode) ≠ receipt.openCodeVersion.isSome)
    .invalidOwnerReceipt
  match receipt.format with
  | .jsonEntry => rejectIf (!receipt.owned.isObject) .invalidOwnerReceipt
  | .codexMarkerBlock =>
    rejectIf (!receipt.owned.asStr.any markerStart.isPrefixOf) .invalidOwnerReceipt

def newReceipt (host : Host) (scope : Scope) (profile : Text) (format : OwnedFormat)
    (owned : Value) (configCreated : Bool) (openCodeVersion : Option OpenCodeVersion)
    (preSha256 postSha256 : Text) (adopted : Bool) : Result OwnershipReceipt := do
  validateProfileName profile
  let ownedSha256 ← ownedDigest crates format owned
  return { version := ownerReceiptVersion, owner := owner, host, scope, profile, format,
           openCodeVersion, ownedSha256, owned, preSha256, postSha256, configCreated, adopted }

def decodeReceipt (snapshot : Snapshot) (host : Host) (scope : Scope) :
    Result (Option OwnershipReceipt) :=
  match snapshot.bytes with
  | none => .ok none
  | some bytes =>
    match crates.fromSlice bytes with
    | none => .error .invalidOwnerReceipt
    | some receipt => do
      OwnershipReceipt.validate crates receipt host scope
      return some receipt

def validateCurrentOwnership (receipt : Option OwnershipReceipt) (current : Option Value)
    (format : OwnedFormat) : Result Unit :=
  match receipt, current with
  | none, none => .ok ()
  | some receipt, some current =>
    rejectIf
      (receipt.format ≠ format ∨ !receipt.owned.same current
        ∨ !OwnershipReceipt.digestHolds crates receipt format)
      .invalidOwnerReceipt
  | _, _ => .error .invalidOwnerReceipt

/-! ## Reading -/

def hostConfigTooLarge (target : PosixPath) (host : Host) (scope : Scope) (size : Nat) : ManagerError :=
  let alternative : Text :=
    match scope with
    | .user => "\nWays forward:\n  put the entry in the project instead\n".toList
        ++ "      kaleidoscope init --host ".toList ++ host.asStr ++ " --scope project\n".toList
        ++ "  or trim the file by hand and re-run.".toList
    | .project => "\nWay forward:\n  trim the file by hand and re-run.".toList
  .hostConfigTooLarge (String.ofList (target.display ++ " is ".toList ++ (toString size).toList
    ++ " bytes, over the ".toList ++ (toString maxHostConfigBytes).toList
    ++ "-byte limit this manager will read and rewrite whole, so nothing was changed. ".toList
    ++ "The limit exists because every edit re-encodes the entire document, and a partial ".toList
    ++ "write of a harness's live configuration is not recoverable.".toList ++ alternative))

def readHostConfig (target : PosixPath) (host : Host) (scope : Scope) (node : Option Node) :
    Result Snapshot :=
  match snapshotOf (digest crates) maxHostConfigBytes connectionTraits.targetName node with
  | .error (.unsafePath name "not a bounded regular file") =>
    match node.map (·.metadata.len) with
    | some size =>
      if maxHostConfigBytes < size then .error (hostConfigTooLarge target host scope size)
      else .error (.unsafePath name "not a bounded regular file")
    | none => .error (.unsafePath name "not a bounded regular file")
  | read => read

def readReceipt (node : Option Node) : Result Snapshot :=
  snapshotOf (digest crates) maxReceiptBytes connectionTraits.receiptName node

def parseJsonDocument (snapshot : Snapshot) : Result Value :=
  match snapshot.bytes with
  | none => .ok (.object [])
  | some bytes =>
    if bytes.data.toList.all isAsciiWhitespace then .ok (.object [])
    else
      match crates.json.fromSlice bytes with
      | none => .error (.invalidHostConfig
          ("expected strict JSON; JSONC files must be migrated to .json before manager edits"))
      | some document => do
        rejectIf (!document.isObject) (.invalidHostConfig "top-level value must be an object")
        return document

/-! ## Planning -/

/-- `to_string_pretty`, each line indented. -/
def rendered (value : Value) : Text :=
  let text := (Utf8.decode (crates.json.toVecPretty value)).getD []
  ['\n'].intercalate ((Text.split '\n' text).map fun line => "  ".toList ++ line)

def unmanagedJsonEntry (host : Host) (target : PosixPath) (path : List Text) (desired : Value) :
    ManagerError :=
  .hostConflict (String.ofList (target.display ++ " already contains a \"".toList
    ++ ['.'].intercalate path
    ++ "\" entry that is not the one this manager writes, and it carries no manager ".toList
    ++ "owner receipt. The manager will not edit an entry it cannot prove it wrote. ".toList
    ++ "Nothing was changed.\nWays forward:\n  wire everything except the MCP entry\n".toList
    ++ "      kaleidoscope init --host ".toList ++ host.asStr ++ " --no-connect\n".toList
    ++ "  hand the entry over: delete the \"kaleidoscope\" key under \"".toList
    ++ ['.'].intercalate path.dropLast ++ "\" in ".toList ++ target.display
    ++ ", then re-run -- or make it byte-identical to this, which a re-run will adopt ".toList
    ++ "in place:\n".toList ++ rendered crates desired))

/-- A plan that leaves everything as it is. -/
def keepPlan (action : ChangeAction) (target : PosixPath)
    (receiptPath : Sibling target ".kaleidoscope-owner.json")
    (backupPath : Sibling target ".kaleidoscope-backup") (original receiptOriginal : Snapshot) :
    ConnectionPlan OwnershipReceipt where
  action := action
  target := target
  receiptPath := receiptPath
  backupPath := backupPath
  restore := none
  original := original
  receiptOriginal := receiptOriginal
  write := .leave
  receiptAfter := none
  removeBackup := false
  removal := none_of_kept

def noChangePlan (action : ChangeAction) (target : PosixPath)
    (receiptPath : Sibling target ".kaleidoscope-owner.json")
    (backupPath : Sibling target ".kaleidoscope-backup") (original receiptOriginal : Snapshot) :
    Result (ConnectionPlan OwnershipReceipt) := do
  rejectIf (action = .alreadyConnected ∧ receiptOriginal.bytes.isNone)
    (.hostConflict "a matching entry exists but has no manager owner receipt")
  return keepPlan action target receiptPath backupPath original receiptOriginal

/-- What a connect has to do with the current entry. -/
def connectAction (host : Host) (target : PosixPath) (path : List Text) (desired : Value)
    (current : Option Value) (receipt : Option OwnershipReceipt) : Result ChangeAction :=
  match receipt with
  | some receipt => do
    validateCurrentOwnership crates (some receipt) current .jsonEntry
    return if current.isSome then .update else .add
  | none =>
    if current.any (·.same desired) then .ok .adopt
    else do
      rejectIf current.isSome (unmanagedJsonEntry crates host target path desired)
      return .add

/-- What becomes of the target, and its digest after it. -/
def connectWrite (action : ChangeAction) (original : Snapshot) (document : Value)
    (path : List Text) (desired : Value) : Result (TargetWrite × Text) :=
  if action = .adopt then do
    rejectIf original.bytes.isNone (.hostConflict "cannot adopt an absent entry")
    return (.leave, original.sha256)
  else do
    let document ← setJsonPath desired path document
    let encoded := crates.json.encode document
    return (.write encoded, digest crates encoded)

/-- The digest of the target as it was before the manager wrote it first. -/
def preSha256 (original : Snapshot) : Option OwnershipReceipt → Text
  | none => original.sha256
  | some receipt => if receipt.preSha256.isEmpty then original.sha256 else receipt.preSha256

def openCodeVersion (host : Host) (document : Value) (receipt : Option OwnershipReceipt)
    (requested : Option OpenCodeVersion) : Result (Option OpenCodeVersion) :=
  match host with
  | .openCode => do
    let version ← selectOpenCodeVersion document receipt requested
    return some version
  | _ => .ok none

def planJsonConnect (host : Host) (scope : Scope) (profile : Text) (descriptor : LaunchDescriptor)
    (target : PosixPath) (receiptPath : Sibling target ".kaleidoscope-owner.json")
    (backupPath : Sibling target ".kaleidoscope-backup") (original receiptOriginal : Snapshot)
    (oldReceipt : Option OwnershipReceipt) (requested : Option OpenCodeVersion) :
    Result (ConnectionPlan OwnershipReceipt) := do
  let document ← parseJsonDocument crates original
  let version ← openCodeVersion host document oldReceipt requested
  let desired := desiredJsonEntry host descriptor version
  let path := jsonEntryPath host version
  let current := getJsonPath path document
  let action ← connectAction crates host target path desired current oldReceipt
  if current.any (·.same desired) ∧ oldReceipt.isSome then
    noChangePlan .alreadyConnected target receiptPath backupPath original receiptOriginal
  else do
    let written ← connectWrite crates action original document path desired
    let receipt ← newReceipt crates host scope profile .jsonEntry desired
      (action ≠ .adopt && oldReceipt.elim original.bytes.isNone (·.configCreated)) version
      (preSha256 original oldReceipt) written.2
      (action = .adopt || oldReceipt.any (·.adopted))
    return { keepPlan action target receiptPath backupPath original receiptOriginal with
      write := written.1
      receiptAfter := some receipt }

/-- The tier of a removal, what it does to the target, and whether it drops the backup. -/
def resolveRestore (original : Snapshot) (backup : Option Node) (receipt : OwnershipReceipt)
    (structural : TargetWrite) : Result (RestoreTier × TargetWrite × Bool) :=
  if receipt.adopted then .ok (.structural, structural, false)
  else do
    let backup ← snapshotOf (digest crates) maxHostConfigBytes "host configuration backup" backup
    let fileIsOurs := !receipt.postSha256.isEmpty && original.sha256 == receipt.postSha256
    let backupIsPre :=
      backup.bytes.isSome && !receipt.preSha256.isEmpty && backup.sha256 == receipt.preSha256
    if fileIsOurs && (receipt.configCreated || backupIsPre) then
      if receipt.configCreated then return (.byteIdentical, .remove, true)
      else return (.byteIdentical, backup.bytes.elim .remove .write, true)
    else return (.structural, structural, false)

theorem some_of_resolved (restored : RestoreTier × TargetWrite × Bool) :
    restored.2.2 = true → (some restored.1).isSome = true := fun _ => rfl

/-- Whether an entry without a receipt is there. -/
def hasEntry (host : Host) (document : Value) : Result Bool :=
  match host with
  | .openCode => do
    let state ← openCodeShapeState document
    return state.hasAnyEntry
  | _ => .ok (getJsonPath (jsonEntryPath host none) document).isSome

/-- The other shape is there as well. -/
def rejectBothShapes (host : Host) (document : Value) (receipt : OwnershipReceipt) : Result Unit :=
  match host with
  | .openCode => do
    let state ← openCodeShapeState document
    rejectIf (receipt.openCodeVersion.any state.conflictsWith) (.hostConflict
      ("both stable-v1 and beta-v2 OpenCode Kaleidoscope entries exist; manual review is "
        ++ "required"))
  | _ => .ok ()

/-- Cut the entry out of the text; where that cannot be proved equivalent, write the whole
document again. -/
def exciseOrEncode (original : Snapshot) (before document : Value) : Bytes :=
  let text := original.bytes.elim [] fun bytes => bytes.data.toList
  match JsonSpan.excise crates.json.serde text before document with
  | some text => ⟨text.toArray⟩
  | none => crates.json.encode document

def planJsonDisconnect (host : Host) (target : PosixPath)
    (receiptPath : Sibling target ".kaleidoscope-owner.json")
    (backupPath : Sibling target ".kaleidoscope-backup") (original receiptOriginal : Snapshot)
    (receipt : Option OwnershipReceipt) (backup : Option Node) :
    Result (ConnectionPlan OwnershipReceipt) := do
  let before ← parseJsonDocument crates original
  match receipt with
  | none => do
    let found ← hasEntry host before
    rejectIf found (.hostConflict (String.ofList ("the ".toList ++ host.asStr
      ++ " Kaleidoscope entry has no manager owner receipt".toList)))
    noChangePlan .alreadyDisconnected target receiptPath backupPath original receiptOriginal
  | some receipt => do
    let path := jsonEntryPath host receipt.openCodeVersion
    let current := getJsonPath path before
    rejectBothShapes host before receipt
    validateCurrentOwnership crates (some receipt) current .jsonEntry
    let document ← removeJsonPath path before
    let structural : TargetWrite :=
      if receipt.configCreated && jsonDocumentIsEmptyShell host receipt.openCodeVersion document
      then .remove
      else .write (exciseOrEncode crates original before document)
    let restored ← resolveRestore crates original backup receipt structural
    return { keepPlan .remove target receiptPath backupPath original receiptOriginal with
      restore := some restored.1
      write := restored.2.1
      removeBackup := restored.2.2
      removal := some_of_resolved restored }

end

end Hosts

end Kaleidoscope
