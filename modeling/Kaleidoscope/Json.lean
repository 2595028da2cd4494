import Kaleidoscope.Lib.Text

/-!
# JSON values

The values the manager parses and writes.  An object keeps its members in order, as the
`preserve_order` map does.
-/

namespace Kaleidoscope

/-- A JSON number as the parser classifies it: unsigned, negative (its magnitude), or a
floating-point number (its bits). -/
inductive Number where
  | posInt (n : Nat)
  | negInt (magnitude : Nat)
  | float (bits : UInt64)
  deriving DecidableEq

inductive Value where
  | null
  | bool (b : Bool)
  | number (n : Number)
  | string (s : Text)
  | array (items : List Value)
  | object (members : List (Text × Value))

abbrev Members := List (Text × Value)

namespace Value

def isNull : Value → Bool
  | null => true
  | _ => false

end Value

end Kaleidoscope
