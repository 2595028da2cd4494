import Kaleidoscope.Hosts

/-!
# The marker block of Codex

Codex keeps its configuration in TOML, where the manager owns the text between two markers.
-/

namespace Kaleidoscope.Hosts

open Prog Disk

def snapshotText (snapshot : Snapshot) : Result Text :=
  match Utf8.decode (snapshot.bytes.elim [] fun bytes => bytes.data.toList) with
  | none => .error (.invalidHostConfig "configuration is not UTF-8")
  | some text => .ok text

/-- From the start marker to the end marker, with the newline after it. -/
def findCodexBlock (text : Text) : Result (Option Text) :=
  match Text.matchIndices markerStart text, Text.matchIndices markerEnd text with
  | [], [] => .ok none
  | [start], [stop] =>
    if start < stop then
      let after := stop + markerEnd.length
      let after := if text[after]? = some '\n' then after + 1 else after
      .ok (some ((text.take after).drop start))
    else .error (.invalidHostConfig "manager marker block is duplicated or incomplete")
  | _, _ => .error (.invalidHostConfig "manager marker block is duplicated or incomplete")

/-- A table of the manager's name; the lines are trimmed, so how they end makes no difference. -/
def containsUnmanagedCodexTable (text : Text) : Bool :=
  ((Text.split '\n' text).map Text.trim).any fun line =>
    line == "[mcp_servers.kaleidoscope]".toList
      || line == "[mcp_servers.\"kaleidoscope\"]".toList
      || "[mcp_servers.kaleidoscope.".toList.isPrefixOf line

def installCodexBlock (text : Text) (current : Option Text) (desired : Text) : Result Text :=
  match current with
  | some current => do
    rejectIf ((Text.matchIndices current text).length ≠ 1)
      (.invalidHostConfig "owned marker block is ambiguous")
    return Text.replaceFirst current desired text
  | none =>
    let separator : Text :=
      if text.isEmpty || ['\n', '\n'].isSuffixOf text then []
      else if ['\n'].isSuffixOf text then ['\n']
      else ['\n', '\n']
    .ok (text ++ separator ++ desired)

/-- Take the block out, and the newline that the manager put before it. -/
def removeCodexBlock (text block : Text) (insertedSeparator : Bool) : Result Text :=
  match Text.find block text with
  | none => .error .invalidOwnerReceipt
  | some start => do
    rejectIf (Text.contains (text.drop (start + block.length)) block) .invalidOwnerReceipt
    let before := text.take start
    let blankLine ←
      if insertedSeparator then
        (Text.endsBefore ['\n', '\n'] before).elim (.error .panicked) .ok
      else .ok false
    return (if blankLine then before.dropLast else before) ++ text.drop (start + block.length)

section

variable (crates : Crates)

/-- `to_string` of a string. -/
def quoted (text : Text) : Text := (Utf8.decode (crates.json.toVec (.string text))).getD []

def codexBlock (descriptor : LaunchDescriptor) (profile : Text) : Text :=
  markerStart ++ "\n[mcp_servers.kaleidoscope]\ncommand = ".toList
    ++ quoted crates descriptor.command.display
    ++ "\nargs = [\"mcp\", \"--profile\", ".toList ++ quoted crates profile
    ++ "]\nenabled = true\nrequired = false\nstartup_timeout_sec = 10\n".toList
    ++ "tool_timeout_sec = 30\nenabled_tools = [\"search\", \"remember\"]\n".toList
    ++ "default_tools_approval_mode = \"writes\"\n\n".toList
    ++ "[mcp_servers.kaleidoscope.tools.search]\napproval_mode = \"approve\"\n".toList
    ++ markerEnd ++ "\n".toList

def validateCodexDocument (text : Text) : Result Unit :=
  rejectIf (!crates.isToml text)
    (.invalidHostConfig "Codex configuration must be valid TOML before manager edits")

def unmanagedTable (target : PosixPath) : ManagerError :=
  .hostConflict (String.ofList (target.display
    ++ " contains an [mcp_servers.kaleidoscope] table that is not inside a manager ".toList
    ++ "marker block, so the manager cannot tell where its own text would end and yours ".toList
    ++ "begins. Nothing was changed.\nWays forward:\n".toList
    ++ "  wire everything except the MCP entry\n".toList
    ++ "      kaleidoscope init --host codex --no-connect\n".toList
    ++ "  delete the [mcp_servers.kaleidoscope] table from ".toList ++ target.display
    ++ " by hand, then re-run.".toList))

def unmanagedBlock (host : Host) (target : PosixPath) : ManagerError :=
  .hostConflict (String.ofList (target.display
    ++ " contains a Kaleidoscope marker block that differs from this version's, and it ".toList
    ++ "carries no manager owner receipt. Nothing was changed.\nWays forward:\n".toList
    ++ "  keep your block and wire everything else\n".toList
    ++ "      kaleidoscope init --host ".toList ++ host.asStr ++ " --no-connect\n".toList
    ++ "  delete the marker block (from the `>>> kaleidoscope-manager` line to the ".toList
    ++ "`<<< kaleidoscope-manager` line) from ".toList ++ target.display
    ++ " by hand, then re-run.\nIf you make the block byte-identical to this manager's, a ".toList
    ++ "re-run will adopt it in place and write only the owner receipt.".toList))

def planCodexConnect (host : Host) (scope : Scope) (profile : Text)
    (descriptor : LaunchDescriptor) (target : PosixPath)
    (receiptPath : Sibling target ".kaleidoscope-owner.json")
    (backupPath : Sibling target ".kaleidoscope-backup") (original receiptOriginal : Snapshot)
    (oldReceipt : Option OwnershipReceipt) : Result (ConnectionPlan OwnershipReceipt) := do
  let text ← snapshotText original
  validateCodexDocument crates text
  let current ← findCodexBlock text
  rejectIf (current.isNone ∧ containsUnmanagedCodexTable text) (unmanagedTable target)
  let desired := codexBlock crates descriptor profile
  if oldReceipt.isNone ∧ current = some desired then do
    let receipt ← newReceipt crates host scope profile .codexMarkerBlock (.string desired) false
      none original.sha256 original.sha256 true
    return { keepPlan .adopt target receiptPath backupPath original receiptOriginal with
      receiptAfter := some receipt }
  else do
    rejectIf (oldReceipt.isNone ∧ current.isSome) (unmanagedBlock host target)
    validateCurrentOwnership crates oldReceipt (current.map .string) .codexMarkerBlock
    if current = some desired then
      noChangePlan .alreadyConnected target receiptPath backupPath original receiptOriginal
    else do
      let action : ChangeAction := if current.isSome then .update else .add
      let updated ← installCodexBlock text current desired
      validateCodexDocument crates updated
      let bytes := Text.utf8 updated
      let receipt ← newReceipt crates host scope profile .codexMarkerBlock (.string desired)
        (oldReceipt.elim original.bytes.isNone (·.configCreated)) none
        (preSha256 original oldReceipt) (digest crates bytes) (oldReceipt.any (·.adopted))
      return { keepPlan action target receiptPath backupPath original receiptOriginal with
        write := .write bytes
        receiptAfter := some receipt }

def planCodexDisconnect (target : PosixPath)
    (receiptPath : Sibling target ".kaleidoscope-owner.json")
    (backupPath : Sibling target ".kaleidoscope-backup") (original receiptOriginal : Snapshot)
    (receipt : Option OwnershipReceipt) (backup : Option Node) :
    Result (ConnectionPlan OwnershipReceipt) := do
  let text ← snapshotText original
  validateCodexDocument crates text
  let current ← findCodexBlock text
  match receipt with
  | none => do
    rejectIf (current.isSome ∨ containsUnmanagedCodexTable text)
      (.hostConflict "the Kaleidoscope Codex entry has no manager owner receipt")
    noChangePlan .alreadyDisconnected target receiptPath backupPath original receiptOriginal
  | some receipt => do
    validateCurrentOwnership crates (some receipt) (current.map .string) .codexMarkerBlock
    let removed ← removeCodexBlock text (current.getD []) (!receipt.adopted)
    let structural : TargetWrite :=
      if receipt.configCreated && removed.all Text.isWhitespace then .remove
      else .write (Text.utf8 removed)
    let restored ← resolveRestore crates original backup receipt structural
    return { keepPlan .remove target receiptPath backupPath original receiptOriginal with
      restore := some restored.1
      write := restored.2.1
      removeBackup := restored.2.2
      removal := some_of_resolved restored }

/-! ## Any host -/

def planConnectAtVersion (host : Host) (scope : Scope) (profile : Text)
    (descriptor : LaunchDescriptor) (target : PosixPath) (requested : Option OpenCodeVersion)
    (nodes : Nodes) : Result (ConnectionPlan OwnershipReceipt) := do
  rejectIf (host ≠ .openCode ∧ requested.isSome)
    (.usage "--opencode-version is valid only for the opencode host")
  validateProfileName profile
  let receiptPath ← siblingPath target ".kaleidoscope-owner.json"
  let backupPath ← siblingPath target ".kaleidoscope-backup"
  let original ← readHostConfig crates target host scope nodes.target
  let receiptOriginal ← readReceipt crates nodes.receipt
  let oldReceipt ← decodeReceipt crates receiptOriginal host scope
  match host with
  | .codex =>
    planCodexConnect crates host scope profile descriptor target receiptPath backupPath original
      receiptOriginal oldReceipt
  | _ =>
    planJsonConnect crates host scope profile descriptor target receiptPath backupPath original
      receiptOriginal oldReceipt requested

def planDisconnectAt (host : Host) (scope : Scope) (target : PosixPath) (nodes : Nodes) :
    Result (ConnectionPlan OwnershipReceipt) := do
  let receiptPath ← siblingPath target ".kaleidoscope-owner.json"
  let backupPath ← siblingPath target ".kaleidoscope-backup"
  let original ← readHostConfig crates target host scope nodes.target
  let receiptOriginal ← readReceipt crates nodes.receipt
  let receipt ← decodeReceipt crates receiptOriginal host scope
  match host with
  | .codex =>
    planCodexDisconnect crates target receiptPath backupPath original receiptOriginal receipt
      nodes.backup
  | _ =>
    planJsonDisconnect crates host target receiptPath backupPath original receiptOriginal receipt
      nodes.backup

end

end Kaleidoscope.Hosts
