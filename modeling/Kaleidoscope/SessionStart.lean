import Kaleidoscope.Hooks
import Kaleidoscope.JsonLine
import Kaleidoscope.Lib.Find

/-!
# What the session-start hook prints

The hook probes the server that the harness is registered to start, asks the engine for memories
of the project, and prints both as one JSON line: a summary of every rung first, then a text for
the model.  Each part has a budget of bytes.
-/

namespace Kaleidoscope.SessionStart

open JsonWriter (display fromStr)

/-- The budget of the JSON line. -/
def maxHookOutputBytes : Nat := 4 * 1024

/-- The budget of the context inside it. -/
def maxContextBytes : Nat := 2600

/-- Of that context, the share of the memories. -/
def maxMemorySectionBytes : Nat := 1500

def publicTools : List Text := ["remember".toList, "search".toList]

structure SessionStartOptions where
  profile : Text
  /-- whether memories are retrieved -/
  retrieval : Bool

/-- The server that the harness is registered to launch. -/
structure Registration where
  scope : Text
  source : Text
  command : Text
  args : List Text

def Registration.displayCommand (registration : Registration) : Text :=
  if registration.args.isEmpty then registration.command
  else registration.command ++ ' ' :: [' '].intercalate registration.args

/-- What the probe of the server found; times are in milliseconds. -/
inductive Probe where
  | unregistered
  | unusable (detail : Text)
  | noAnswer (detail : Text)
  | answered (protocol server : Option Text) (tools : List Text) (contract : Option Text)
      (elapsed : UInt64)

namespace Probe

def tools : Probe → List Text
  | answered _ _ tools _ _ => tools
  | _ => []

def publishesBoth (probe : Probe) : Bool :=
  publicTools.all fun wanted => probe.tools.contains wanted

/-- Whether the server answered and the client takes its answer. -/
def accepted : Probe → Bool
  | answered _ _ _ contract _ => contract.isNone
  | _ => false

end Probe

structure Project where
  label : Text
  directory : Text

/-! ## Shortening -/

/-- The longest start of a text of at most so many bytes. -/
def floorPrefix : Nat → Text → Text
  | _, [] => []
  | n, c :: t => if c.utf8Size ≤ n then c :: floorPrefix (n - c.utf8Size) t else []

/-- A text within a budget of bytes, cut at a character and marked where it is longer. -/
def clip (text : Text) (budget : Nat) : Text :=
  if Text.byteLen text ≤ budget then text
  else floorPrefix (budget - 3) text ++ (if 3 ≤ budget then ['…'] else [])

/-! ## Memories -/

def untitled : Text := "(untitled)".toList

/-- The lines of a text, without what ends them. -/
def lines (text : Text) : List Text :=
  let pieces := Text.split '\n' text
  let ended := pieces.dropLast.map fun line => (Text.stripSuffix ['\r'] line).getD line
  match pieces.getLast? with
  | none => ended
  | some last => if last.isEmpty then ended else ended ++ [last]

/-- One line for a memory: its type, title, the opening of its body, and its id. -/
def renderHit (hit : Value) : Text :=
  let content := ((hit.get "content_md".toList).bind Value.asStr).getD []
  let contentLines := (lines content).filter fun line => !(Text.trim line).isEmpty
  let title := Text.trim ((contentLines.head?.getD untitled).dropWhile (· == '#'))
  let body := Text.trim (contentLines.tail.head?.getD [])
  let kind := ((hit.get "memory_type".toList).bind Value.asStr).getD "memory".toList
  let id := ((hit.get "memory_id".toList).bind Value.asStr).getD "mem_?".toList
  "- [".toList ++ kind ++ "] ".toList ++ title ++ " — ".toList
    ++ clip body (min 160 maxMemorySectionBytes) ++ " (".toList ++ id ++ ")".toList

def selectedHits (answer : Value) : List Value :=
  ((answer.get "selected_hits".toList).bind Value.asArray).getD []

/-- The bytes of lines, with a newline after each. -/
def spentBy (entries : List Text) : Nat :=
  (entries.map fun entry => Text.byteLen entry + 1).sum

/-- The lines of the memories that fit, and how many of these carry the label. -/
structure Rendered where
  entries : List Text
  labelled : Nat
  within : spentBy entries ≤ maxMemorySectionBytes
  labelled_le : labelled ≤ entries.length

inductive Memories where
  | skipped (reason : Text)
  | unavailable (detail : Text)
  | empty
  | found (rendered : Rendered) (scopeRequested : Bool) (elapsed : UInt64)

/-- How one search ends: no time is left for it, the engine cannot be run, it refuses, or it
prints something. -/
inductive Turn where
  | spent
  | failed (message : Text)
  | refused (stderr : Text)
  | printed (stdout : JsonSpan.Str)

/-- What the hook found. -/
structure Session where
  options : SessionStartOptions
  registration : Option Registration
  probe : Probe
  /-- the profile launches, or why not -/
  launch : Except Text Unit
  engine : Option Text
  project : Option Project
  memories : Memories
  elapsed : UInt64

/-- Whether the tools reach the model. -/
def toolsVisible (session : Session) : Bool :=
  session.registration.isSome && session.probe.publishesBoth && session.probe.accepted

def numberOf (n : Nat) : Value := .number (.posInt n)

def nullable (text : Option Text) : Value := text.elim .null .string

def verdictReason (session : Session) : Text :=
  if toolsVisible session then
    "server publishes both tools and the tools/list result satisfies the client contract".toList
  else
    match session.probe with
    | .unregistered =>
      if session.registration.isNone then
        "no mcpServers.kaleidoscope entry applies to this project".toList
      else "unregistered".toList
    | .unusable _ => "the registered command is not an executable file".toList
    | .noAnswer _ => "the registered command did not answer tools/list".toList
    | .answered _ _ _ contract _ =>
      if contract.isSome then "client_tools_list_contract".toList
      else "the server did not publish both search and remember".toList

def outcomeKey : Text := "outcome".toList
def detailKey : Text := "detail".toList

def probeValue : Probe → Value
  | .unregistered => .object [(outcomeKey, .string "unregistered".toList)]
  | .unusable detail =>
    .object [(outcomeKey, .string "unusable".toList), (detailKey, .string detail)]
  | .noAnswer detail =>
    .object [(outcomeKey, .string "no_answer".toList), (detailKey, .string detail)]
  | .answered protocol server tools contract elapsed =>
    .object [
      (outcomeKey, .string "answered".toList),
      ("protocol".toList, nullable protocol),
      ("server".toList, nullable server),
      ("tools".toList, .array (tools.map .string)),
      ("client_contract_ok".toList, .bool contract.isNone),
      ("ms".toList, numberOf elapsed.toNat)]

def memoriesValue : Memories → Value
  | .skipped reason =>
    .object [(outcomeKey, .string "skipped".toList), (detailKey, .string reason)]
  | .unavailable detail =>
    .object [(outcomeKey, .string "unavailable".toList), (detailKey, .string detail)]
  | .empty => .object [(outcomeKey, .string "empty".toList), ("count".toList, numberOf 0)]
  | .found rendered scopeRequested elapsed =>
    .object [
      (outcomeKey, .string "found".toList),
      ("count".toList, numberOf rendered.entries.length),
      ("scope_requested".toList, .bool scopeRequested),
      ("labelled_for_project".toList, numberOf rendered.labelled),
      ("ms".toList, numberOf elapsed.toNat)]

def registrationValue (registration : Registration) : Value :=
  .object [
    ("scope".toList, .string registration.scope),
    ("source".toList, .string registration.source),
    ("command".toList, .string registration.displayCommand)]

def projectValue (project : Project) : Value :=
  .object [
    ("label".toList, .string project.label),
    ("directory".toList, .string project.directory)]

def launchValue : Except Text Unit → Value
  | .ok () => .string "ok".toList
  | .error detail => .string detail

def toolsVisibleKey : Text := "tools_visible".toList

/-- Every rung that the verdict was computed from. -/
def factMembers (session : Session) : Members := [
  ("kaleidoscope_session_start".toList, numberOf 1),
  (toolsVisibleKey, .bool (toolsVisible session)),
  ("reason".toList, .string (verdictReason session)),
  ("profile".toList, .string session.options.profile),
  ("engine".toList, nullable session.engine),
  ("profile_launch".toList, launchValue session.launch),
  ("registration".toList, session.registration.elim .null registrationValue),
  ("probe".toList, probeValue session.probe),
  ("project".toList, session.project.elim .null projectValue),
  ("memories".toList, memoriesValue session.memories),
  ("budget_bytes".toList, numberOf maxContextBytes),
  ("total_ms".toList, numberOf session.elapsed.toNat)]

def probeFacts (session : Session) : Value := .object (factMembers session)

/-! ## The context -/

def decimal (n : Nat) : Text := (toString n).toList

/-- Why the tools cannot be used. -/
def unreachableDetail (session : Session) : Text :=
  match session.probe with
  | .unregistered =>
    ("No `mcpServers.kaleidoscope` entry applies to this project, so the harness starts no "
      ++ "server. Run `kaleidoscope connect --host claude-code`.").toList
  | .unusable detail =>
    "The registered command cannot be run (".toList ++ detail
      ++ "). Run `kaleidoscope doctor --json`.".toList
  | .noAnswer detail =>
    "The registered command `".toList
      ++ session.registration.elim ['?'] Registration.displayCommand
      ++ "` did not answer tools/list (".toList ++ detail ++ ").".toList
  | .answered _ _ tools (some reason) _ =>
    "The server starts and publishes ".toList
      ++ (if tools.isEmpty then "nothing".toList else " and ".toList.intercalate tools)
      ++ ", but ".toList ++ reason
      ++ ". No mcp__kaleidoscope__* name will appear in your tool list.".toList
  | .answered _ _ tools none _ =>
    "The server answered but published ".toList
      ++ (if tools.isEmpty then "no tools".toList else ", ".toList.intercalate tools)
      ++ " rather than search and remember.".toList

def reachableLine (session : Session) : Text :=
  ("Kaleidoscope MCP tools ARE reachable: mcp__kaleidoscope__search and "
      ++ "mcp__kaleidoscope__remember. Probed by speaking MCP to ").toList
    ++ session.registration.elim "the registered server".toList Registration.displayCommand
    ++ ", not assumed.\n".toList

/-- That the profile did not launch, after a line on the tools. -/
def launchLine (session : Session) : Text :=
  match session.launch with
  | .ok () => []
  | .error detail =>
    if toolsVisible session then
      "Profile `".toList ++ session.options.profile ++ "` did not launch: ".toList ++ detail
        ++ ". Run `kaleidoscope doctor --json`.\n".toList
    else
      "The engine itself is also unhealthy — profile `".toList ++ session.options.profile
        ++ "` did not launch: ".toList ++ detail
        ++ (". Run `kaleidoscope doctor --json` first; until it passes, the CLI below cannot run "
          ++ "either.\n").toList

def fallbackLines (session : Session) : Text :=
  ("The CLI is the fallback — it is unaffected by the MCP fault, and that orthogonality is the "
      ++ "point:\n  echo '\x7b\"query\":\"...\",\"top_k\":5\x7d' | kscope call --profile ").toList
    ++ session.options.profile
    ++ (" search\n  kscope schema search   # every accepted field, including memory_id lookups, "
      ++ "which write no exposure row\n").toList
    ++ ("This probe watched the SERVER, not your tool list; no hook can see your tool list. If "
      ++ "mcp__kaleidoscope__search and mcp__kaleidoscope__remember are in fact present, prefer "
      ++ "them — those two are the whole tool surface.\n").toList

/-- The lines on the tools. -/
def statusLines (session : Session) : Text :=
  if toolsVisible session then reachableLine session ++ launchLine session
  else
    "Kaleidoscope MCP tools are NOT usable in this session. ".toList ++ unreachableDetail session
      ++ ['\n'] ++ launchLine session ++ fallbackLines session

/-- What the memories have to do with the project. -/
def provenance (label : Text) (rendered : Rendered) : Text :=
  if rendered.labelled = rendered.entries.length then "recorded for ".toList ++ label
  else if rendered.labelled = 0 then
    "ranked for ".toList ++ label
      ++ (", none of them carrying a project label — a memory with no project axis is not "
        ++ "excluded by a scope filter, so these may belong to any project in this vault").toList
  else
    "ranked for ".toList ++ label ++ "; ".toList ++ decimal rendered.labelled ++ " of ".toList
      ++ decimal rendered.entries.length
      ++ " carry that project label and the rest carry none".toList

def projectLabel (session : Session) : Text :=
  session.project.elim "this project".toList Project.label

/-- The count, up to the word that it counts. -/
def countText (rendered : Rendered) : Text := decimal rendered.entries.length ++ " memories".toList

/-- The line before the memories, without its newline. -/
def headerLine (label : Text) (rendered : Rendered) : Text :=
  countText rendered ++ ' ' :: provenance label rendered ++ " (budget ".toList
    ++ decimal maxMemorySectionBytes ++ " B; there are more — search for the rest):".toList

/-- The memories, or why there are none, after an empty line. -/
def memoryLines (session : Session) : Text :=
  match session.memories with
  | .found rendered _ _ =>
    '\n' :: headerLine (projectLabel session) rendered ++ ['\n']
      ++ rendered.entries.flatMap fun entry => entry ++ ['\n']
  | .empty =>
    ("\nThe vault holds no memories for this project yet. Record durable decisions as they are "
      ++ "made.\n").toList
  | .unavailable detail => "\nNo memories were retrieved: ".toList ++ detail ++ ".\n".toList
  | .skipped reason => "\nNo memories were retrieved: ".toList ++ reason ++ ".\n".toList

/-- The half that a model reads, after the summary. -/
def renderContext (session : Session) : Text :=
  display (probeFacts session) ++ '\n' :: (statusLines session ++ memoryLines session)

/-! ## The line -/

def clipContext (context : Text) : Text := clip context maxContextBytes

def hookOutput (context : Text) : Value :=
  .object [("hookSpecificOutput".toList, .object [
    ("hookEventName".toList, .string Hooks.event),
    ("additionalContext".toList, .string context)])]

def wrapHookLine (context : Text) : Text := display (hookOutput context)

/-- The text up to the first empty line. -/
def firstParagraph (context : Text) : Text :=
  match Text.find ['\n', '\n'] context with
  | some i => context.take i
  | none => context

/-- The context that the line holds: all of it, its first paragraph or the summary alone. -/
def emittedContext (context facts : Text) : Text :=
  if Text.byteLen (wrapHookLine (clipContext context)) ≤ maxHookOutputBytes then
    clipContext context
  else if Text.byteLen (wrapHookLine (clipContext (firstParagraph context)))
      ≤ maxHookOutputBytes then
    clipContext (firstParagraph context)
  else clip facts maxContextBytes

def encodeHookLine (context facts : Text) : Text := wrapHookLine (emittedContext context facts)

/-- `session_start_output`, from what the hook found. -/
def sessionStartOutput (session : Session) : Text :=
  encodeHookLine (renderContext session) (display (probeFacts session))

end Kaleidoscope.SessionStart
