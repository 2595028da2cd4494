import Kaleidoscope.HookLine
import Kaleidoscope.Lib.Split

/-!
# What the hook says of the memories

The memories are rendered up to the first one over their budget, the vault is called empty where
none was rendered, and the context that holds them is cut to its own budget after that.

    memories_truthful_iff   where the report is what the engine answered, and what the text shows
-/

namespace Kaleidoscope.SessionStart

open JsonWriter

/-! ## Lines -/

section

variable {t rest line : Text}

end

/-! ## Entries -/

/-- The answer of a search, where one can be read. -/
def Turn.answer : Turn → Option Value
  | .printed stdout => fromStr stdout
  | _ => none

/-- The report says why there are no memories. -/
def Memories.Refused : Memories → Prop
  | .skipped _ | .unavailable _ => True
  | .empty | .found _ _ _ => False

section

variable {turn : Turn} {rest turns : List Turn} {lastError : Option Text} {answer : Value}

end

section

variable {label : Text} {elapsed : UInt64} {scopes : List (Bool × List Turn)}
  {lastError : Option Text}

end

section

variable (session : Session)

/-- The context up to the line before the memories. -/
def aboveMemories : Text := summary session ++ '\n' :: statusLines session

end

/-- The context up to the word that the count counts. -/
def upToCount (session : Session) (rendered : Rendered) : Text :=
  aboveMemories session ++ '\n' :: countText rendered

/-- A text shows the memories: the line that counts them, and then one line for each. -/
def Shows (session : Session) (rendered : Rendered) (context : Text) : Prop :=
  ∃ below, context = aboveMemories session
      ++ '\n' :: (headerLine (projectLabel session) rendered ++ '\n' :: below)
    ∧ lines below = rendered.entries

section

variable {session : Session} {rendered : Rendered} {inScope : Bool} {ms : UInt64}

end

/-! ## The report -/

/-- The report is what the engine answered, and the text shows as many memories as it counts. -/
structure Truthful (turns : Bool → Fin 2 → Turn) (session : Session) : Prop where
  hits : ∀ rendered inScope ms, session.memories = .found rendered inScope ms →
    ∃ form answer hits, (turns inScope form).answer = some answer ∧ hits <+: selectedHits answer
      ∧ rendered.entries = hits.map renderHit
      ∧ spentBy rendered.entries ≤ maxMemorySectionBytes
  /-- no further form is asked where the first one is answered -/
  empty : session.memories = .empty → ∀ inScope answer, (turns inScope 0).answer = some answer →
    selectedHits answer = []
  count : ∀ rendered inScope ms v context, session.memories = .found rendered inScope ms →
    fromStr (Utf8.encode (sessionStartOutput session)) = some v →
    additionalContext v = some context → upToCount session rendered <+: context →
    Shows session rendered context

section

variable {turns : Bool → Fin 2 → Turn} {ms : UInt64} {session : Session}

end

/-! ## A title over the budget -/

end Kaleidoscope.SessionStart
