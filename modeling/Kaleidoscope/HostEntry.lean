import Kaleidoscope.Value

/-!
# The entries of JSON hosts

What the manager writes into the configuration of each host that keeps it in JSON, and where.
-/

namespace Kaleidoscope

inductive OpenCodeVersion where
  | stableV1
  | betaV2
  deriving DecidableEq

/-- A host that keeps its configuration in JSON, with the version that is selected for it. -/
inductive JsonHost where
  | claudeCode
  | cursor
  | openCode (version : OpenCodeVersion)
  deriving DecidableEq

def strings (texts : List Text) : Value := .array (texts.map .string)

/-- `desired_json_entry`; `command` is what `to_string_lossy` makes of the path. -/
def desiredJsonEntry (host : JsonHost) (command : Text) (args : List Text) : Value :=
  match host with
  | .claudeCode => .object [
      ("type".toList, .string "stdio".toList),
      ("command".toList, .string command),
      ("args".toList, strings args)]
  | .cursor => .object [
      ("command".toList, .string command),
      ("args".toList, strings args)]
  | .openCode .stableV1 => .object [
      ("type".toList, .string "local".toList),
      ("command".toList, strings (command :: args)),
      ("enabled".toList, .bool true)]
  | .openCode .betaV2 => .object [
      ("type".toList, .string "local".toList),
      ("command".toList, strings (command :: args)),
      ("codemode".toList, .bool false)]

/-- `json_entry_path` -/
def jsonEntryPath : JsonHost → List Text
  | .claudeCode | .cursor => ["mcpServers".toList, "kaleidoscope".toList]
  | .openCode .stableV1 => ["mcp".toList, "kaleidoscope".toList]
  | .openCode .betaV2 => ["mcp".toList, "servers".toList, "kaleidoscope".toList]

/-! ## What a host runs -/

def asString : Value → Option Text
  | .string s => some s
  | _ => none

/-- The texts of an array of strings. -/
def asStrings : Value → Option (List Text)
  | .array items => items.mapM asString
  | _ => none

/-- The program that a host starts for an entry, and its arguments: `command` names the program,
or the program and its arguments. -/
def launched : Value → Option (Text × List Text)
  | .object members =>
    match members.lookup "command".toList with
    | some (.string command) =>
      ((members.lookup "args".toList).bind asStrings).map fun args => (command, args)
    | some command =>
      match asStrings command with
      | some (command :: args) => some (command, args)
      | _ => none
    | none => none
  | _ => none

theorem asStrings_strings (texts : List Text) : asStrings (strings texts) = some texts := by
  unfold strings asStrings
  induction texts with
  | nil => rfl
  | cons text texts ih =>
    show (texts.map Value.string |>.cons (.string text)).mapM asString = _
    simp only at ih
    rw [List.mapM_cons, ih]
    rfl

/-- Every host starts what its entry was written from. -/
theorem launched_desired (host : JsonHost) (command : Text) (args : List Text) :
    launched (desiredJsonEntry host command args) = some (command, args) := by
  match host with
  | .claudeCode =>
    show ((some (strings args)).bind asStrings).map _ = _
    rw [Option.bind_some, asStrings_strings]
    rfl
  | .cursor =>
    show ((some (strings args)).bind asStrings).map _ = _
    rw [Option.bind_some, asStrings_strings]
    rfl
  | .openCode .stableV1 =>
    show (match asStrings (strings (command :: args)) with
      | some (command :: args) => some (command, args)
      | _ => none) = _
    rw [asStrings_strings]
  | .openCode .betaV2 =>
    show (match asStrings (strings (command :: args)) with
      | some (command :: args) => some (command, args)
      | _ => none) = _
    rw [asStrings_strings]

end Kaleidoscope
