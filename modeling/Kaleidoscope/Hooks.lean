import Kaleidoscope.Target
import Kaleidoscope.JsonCrate

/-!
# The session-start hook

The settings of a harness hold a list of session-start elements.  An install adds the manager's
element to the list, replaces the one that the owner receipt names, or takes an identical one
over; a removal takes the receipt's element out again.
-/

namespace Kaleidoscope.Hooks

open Prog Disk

def managerOwner : Text := "kaleidoscope-manager-v1".toList
def receiptVersion : Nat := 1
def event : Text := "SessionStart".toList
def matcher : Text := "startup|resume|clear|compact".toList
def hookTimeoutSeconds : Nat := 10

structure HookReceipt where
  version : Nat
  owner : Text
  scope : Scope
  profile : Text
  owned : Value
  ownedSha256 : Text
  preSha256 : Text
  postSha256 : Text
  fileCreated : Bool
  adopted : Bool

/-- What the digest and the JSON crates compute. -/
structure Crates where
  json : JsonCrate
  receipts : ReceiptCodec HookReceipt
  fromSlice : Bytes → Option HookReceipt

def ownedEntry (manager profile : Text) : Value :=
  .object [
    ("matcher".toList, .string matcher),
    ("hooks".toList, .array [.object [
      ("type".toList, .string "command".toList),
      ("command".toList,
        .string (manager ++ " hook session-start --profile ".toList ++ profile)),
      ("timeout".toList, .number (.posInt hookTimeoutSeconds))]])]

/-! ## The document -/

def hooksKey : Text := "hooks".toList

/-- The elements of the event; no list is an empty one. -/
def eventArray (document : Value) : List Value :=
  (((document.get hooksKey).bind (Value.get event)).bind Value.asArray).getD []

def pushEntry (document entry : Value) : Result Value :=
  match document with
  | .object members =>
    match (members.lookup hooksKey).getD (.object []) with
    | .object hooks =>
      match (hooks.lookup event).getD (.array []) with
      | .array entries =>
        .ok (.object (Members.set hooksKey
          (.object (Members.set event (.array (entries ++ [entry])) hooks)) members))
      | _ => .error (.invalidHostConfig "hooks.SessionStart is not an array")
    | _ => .error (.invalidHostConfig "hooks is not an object")
  | _ => .error (.invalidHostConfig "settings.json is not an object")

def replaceEntry (document : Value) (index : Nat) (entry : Value) : Result Value :=
  match document with
  | .object members =>
    match members.lookup hooksKey with
    | some (.object hooks) =>
      match hooks.lookup event with
      | some (.array entries) => do
        rejectIf (entries.length ≤ index) .invalidOwnerReceipt
        return .object (Members.set hooksKey
          (.object (Members.set event (.array (entries.set index entry)) hooks)) members)
      | _ => .error .invalidOwnerReceipt
    | _ => .error .invalidOwnerReceipt
  | _ => .error .invalidOwnerReceipt

/-- Remove the element, then the list if it is empty, then `hooks` if it is empty. -/
def removeEntry (document : Value) (index : Nat) : Result Value :=
  match document with
  | .object members =>
    match members.lookup hooksKey with
    | some (.object hooks) =>
      match hooks.lookup event with
      | some (.array entries) => do
        rejectIf (entries.length ≤ index) .invalidOwnerReceipt
        let left := entries.eraseIdx index
        let hooks :=
          if left.isEmpty then Members.swapRemove event hooks
          else Members.set event (.array left) hooks
        return .object
          (if hooks.isEmpty then Members.swapRemove hooksKey members
          else Members.set hooksKey (.object hooks) members)
      | _ => .error .invalidOwnerReceipt
    | _ => .error .invalidOwnerReceipt
  | _ => .error .invalidOwnerReceipt

/-- The command that an entry of the manager runs. -/
def ownedCommand (owned : Value) : Option Text :=
  match (owned.get hooksKey).bind Value.asArray with
  | some (hook :: _) => (hook.get "command".toList).bind Value.asStr
  | _ => none

/-- Whether an element runs a command. -/
def runs (command : Text) (entry : Value) : Bool :=
  ((entry.get hooksKey).bind Value.asArray).any fun hooks => hooks.any fun hook =>
    (hook.get "command".toList).bind Value.asStr == some command

/-- The elements that are equal to what the receipt names. -/
def matchingIndices (document : Value) (owned : Option Value) : List Nat :=
  match owned with
  | none => []
  | some owned => (eventArray document).findIdxs fun entry => entry.same owned

def identicalIndices (document desired : Value) : List Nat :=
  (eventArray document).findIdxs fun entry => entry.same desired

/-- The elements that run the command of an entry and differ from it. -/
def resemblingIndices (document owned : Value) : List Nat :=
  match ownedCommand owned with
  | none => []
  | some command =>
    (eventArray document).findIdxs fun entry => !entry.same owned && runs command entry

def entryAt (document : Value) (index : Nat) : Result Value :=
  match (eventArray document)[index]? with
  | some entry => .ok entry
  | none => .error .invalidOwnerReceipt

section

variable (crates : Crates)

def canonicalDigest (value : Value) : Text :=
  crates.receipts.digestBytes ⟨(crates.json.toVec value).toArray⟩

def HookReceipt.validate (receipt : HookReceipt) (scope : Scope) : Result Unit :=
  rejectIf
    (receipt.version ≠ receiptVersion
      ∨ receipt.owner ≠ managerOwner
      ∨ receipt.scope ≠ scope
      ∨ !(validateProfileName receipt.profile).isOk
      ∨ !receipt.owned.isObject
      ∨ receipt.ownedSha256 ≠ canonicalDigest crates receipt.owned)
    .invalidOwnerReceipt

def decodeReceipt (snapshot : Snapshot) (scope : Scope) : Result (Option HookReceipt) :=
  match snapshot.bytes with
  | none => .ok none
  | some bytes =>
    match crates.fromSlice bytes with
    | none => .error .invalidOwnerReceipt
    | some receipt => do
      receipt.validate crates scope
      return some receipt

def parseSettings (snapshot : Snapshot) : Result Value :=
  match snapshot.bytes with
  | none => .ok (.object [])
  | some bytes =>
    if bytes.data.toList.all isAsciiWhitespace then .ok (.object [])
    else
      match crates.json.fromSlice bytes with
      | none => .error (.invalidHostConfig "settings.json is not valid JSON")
      | some document => do
        rejectIf (!document.isObject) (.invalidHostConfig "settings.json is not a JSON object")
        return document

def settingsSnapshot (node : Option Node) : Result Snapshot :=
  snapshotOf crates.receipts.digestBytes maxSettingsBytes hookTraits.targetName node

def receiptSnapshot (node : Option Node) : Result Snapshot :=
  snapshotOf crates.receipts.digestBytes maxReceiptBytes hookTraits.receiptName node

/-! ## Messages -/

def entriesText (count : Nat) : Text := (toString count).toList

/-- Several elements are equal to the manager's and no receipt says which is its own. -/
def severalIdentical (target : PosixPath) (count : Nat) : ManagerError :=
  .hostConflict (String.ofList (target.display ++ " carries ".toList ++ entriesText count
    ++ " identical Kaleidoscope SessionStart entries; refusing to guess which one is ours. ".toList
    ++ "Remove all but one from \"hooks.SessionStart\" in that file, then re-run.".toList))

def editedCopy (target : PosixPath) : ManagerError :=
  .hostConflict (String.ofList (target.display
    ++ " already carries a SessionStart entry that runs this manager with different ".toList
    ++ "surrounding fields. Nothing was changed.\nWays forward:\n".toList
    ++ "  wire everything except the hook\n".toList
    ++ "      kaleidoscope init --host claude-code --no-hooks\n".toList
    ++ "  remove that entry from \"hooks.SessionStart\" in ".toList ++ target.display
    ++ " by hand, then re-run.".toList))

def ambiguousInstall (target : PosixPath) (count : Nat) : ManagerError :=
  .hostConflict (String.ofList (target.display ++ " carries ".toList ++ entriesText count
    ++ " identical manager-owned SessionStart entries; refusing to guess which one is ours".toList))

def handEdited (target : PosixPath) : ManagerError :=
  .hostConflict (String.ofList ("the SessionStart entry in ".toList ++ target.display
    ++ " has been hand-edited and no longer matches its owner receipt; ".toList
    ++ "re-run with --force to remove it".toList))

def ambiguousRemoval (target : PosixPath) (count : Nat) : ManagerError :=
  .hostConflict (String.ofList (target.display ++ " carries ".toList ++ entriesText count
    ++ " identical manager-owned SessionStart entries; refusing to remove the first one".toList))

/-! ## Planning -/

/-- What an install has to do, from how many elements are the receipt's, how many are the desired
one, and how many resemble it. -/
def installAction (target : PosixPath) (document : Value) (receipt : Option HookReceipt)
    (desired : Value) : Result HookAction :=
  let owned := matchingIndices document (receipt.map (·.owned))
  let identical := identicalIndices document desired
  let resembling := resemblingIndices document desired
  match owned, identical.length, resembling.length with
  | [], 0, 0 => .ok .add
  | [], count, _ =>
    if receipt.isNone ∧ count = 1 then .ok .adopt
    else if receipt.isNone ∧ 1 < count then .error (severalIdentical target count)
    else .error (editedCopy target)
  | [index], _, _ => do
    let entry ← entryAt document index
    return if entry.same desired then .alreadyInstalled else .update
  | owned, _, _ => .error (ambiguousInstall target owned.length)

/-- The document with the manager's element in the place of the receipt's, or at the end. -/
def installed (document : Value) (owned : Option Value) (desired : Value) : Result Value :=
  match matchingIndices document owned with
  | [] => pushEntry document desired
  | index :: _ => replaceEntry document index desired

/-- What becomes of the settings, and their digest after it. -/
def installWrite (action : HookAction) (original : Snapshot) (document : Value)
    (owned : Option Value) (desired : Value) : Result (TargetWrite × Text) :=
  if action = .adopt then .ok (.leave, original.sha256)
  else do
    let document ← installed document owned desired
    let encoded := crates.json.encode document
    return (.write encoded, crates.receipts.digestBytes encoded)

def installReceipt (scope : Scope) (profile : Text) (desired : Value) (action : HookAction)
    (original : Snapshot) (receipt : Option HookReceipt) (postSha256 : Text) : HookReceipt where
  version := receiptVersion
  owner := managerOwner
  scope := scope
  profile := profile
  owned := desired
  ownedSha256 := canonicalDigest crates desired
  preSha256 :=
    if action = .adopt then original.sha256
    else receipt.elim original.sha256 (·.preSha256)
  postSha256 := postSha256
  fileCreated := action ≠ .adopt && receipt.elim original.bytes.isNone (·.fileCreated)
  adopted := action = .adopt || receipt.any (·.adopted)

/-- A plan that leaves everything as it is. -/
def noopPlan (action : HookAction) (target : PosixPath)
    (receiptPath : Sibling target ".kaleidoscope-owner.json")
    (backupPath : Sibling target ".kaleidoscope-backup") (original receiptOriginal : Snapshot) :
    HookPlan HookReceipt where
  action := action
  target := target
  receiptPath := receiptPath
  backupPath := backupPath
  restore := none
  original := original
  receiptOriginal := receiptOriginal
  write := .leave
  receiptAfter := none
  removeBackup := false
  removal := none_of_kept

def planInstallAt (scope : Scope) (manager profile : Text) (target : PosixPath) (nodes : Nodes) :
    Result (HookPlan HookReceipt) := do
  validateProfileName profile
  let receiptPath ← siblingPath target ".kaleidoscope-owner.json"
  let backupPath ← siblingPath target ".kaleidoscope-backup"
  let original ← settingsSnapshot crates nodes.target
  let receiptOriginal ← receiptSnapshot crates nodes.receipt
  let receipt ← decodeReceipt crates receiptOriginal scope
  let document ← parseSettings crates original
  let desired := ownedEntry manager profile
  let action ← installAction target document receipt desired
  if action = .alreadyInstalled then
    return noopPlan .alreadyInstalled target receiptPath backupPath original receiptOriginal
  else do
    let written ← installWrite crates action original document (receipt.map (·.owned)) desired
    return { noopPlan action target receiptPath backupPath original receiptOriginal with
      write := written.1
      receiptAfter :=
        some (installReceipt crates scope profile desired action original receipt written.2) }

/-- The document without the receipt's element; nothing if there is none to remove. -/
def withoutEntry (target : PosixPath) (document owned : Value) (force : Bool) :
    Result (Option Value) :=
  match matchingIndices document (some owned) with
  | [] =>
    match resemblingIndices document owned with
    | [] => .ok none
    | index :: _ => do
      rejectIf (!force) (handEdited target)
      let removed ← removeEntry document index
      return some removed
  | [index] => do
    let removed ← removeEntry document index
    return some removed
  | several => .error (ambiguousRemoval target several.length)

/-- Cut the element out of the text; where that cannot be proved equivalent, write the whole
document again. -/
def exciseOrEncode (original : Snapshot) (before document : Value) : Bytes :=
  let excised := original.bytes.bind fun bytes =>
    JsonSpan.excise crates.json.serde bytes.data.toList before document
  match excised with
  | some text => ⟨text.toArray⟩
  | none => crates.json.encode document

def planRemoveAt (scope : Scope) (target : PosixPath) (force : Bool) (nodes : Nodes) :
    Result (HookPlan HookReceipt) := do
  let receiptPath ← siblingPath target ".kaleidoscope-owner.json"
  let backupPath ← siblingPath target ".kaleidoscope-backup"
  let original ← settingsSnapshot crates nodes.target
  let receiptOriginal ← receiptSnapshot crates nodes.receipt
  let removed := noopPlan .alreadyRemoved target receiptPath backupPath original receiptOriginal
  match ← decodeReceipt crates receiptOriginal scope with
  | none => return removed
  | some receipt => do
    let before ← parseSettings crates original
    match ← withoutEntry target before receipt.owned force with
    | none => return removed
    | some document => do
      let backup ← snapshotOf crates.receipts.digestBytes maxSettingsBytes "settings backup"
        nodes.backup
      -- the settings as the manager left them, and known as they were before
      if receipt.adopted = false ∧ original.sha256 = receipt.postSha256
          ∧ (receipt.fileCreated = true
            ∨ backup.bytes.isSome ∧ backup.sha256 = receipt.preSha256) then
        return { removed with
          action := .remove
          restore := some .byteIdentical
          write :=
            if receipt.fileCreated then .remove
            else backup.bytes.elim .remove .write
          removeBackup := true
          removal := some_of_removed .byteIdentical }
      else
        return { removed with
          action := .remove
          restore := some .structural
          write :=
            if receipt.fileCreated && document.isEmptyObject then .remove
            else .write (exciseOrEncode crates original before document)
          removal := fun _ => rfl }

end

end Kaleidoscope.Hooks
