import Kaleidoscope.Sdk.Agreement
import Kaleidoscope.Sdk.GateMemo

/-!
# The answer of the gate

What the two SDKs take the output of `kscope gate` for.  Each reads it as JSON of its own kind, and
whatever is not the report of an enforcing build counts as no answer.  Python's reader also has
limits, and raises an exception where it meets one.

    gate_probe_iff     where the two probes return, and alike
-/

namespace Kaleidoscope.Sdk

open Unicode (Points)
open JsonReader (ofText JsonNumber Rejection JsonValue)

/-! ## Algorithm -/

/-- How a run of `kscope gate` ends. -/
structure GateAnswer where
  exit : Exit
  stdout : List UInt8
  stderr : List UInt8

/-- `_GATE_REPORT_KEYS` and `GATE_REPORT_KEYS`, in order. -/
def gateReportKeys : List Points :=
  [ofText "build_features", ofText "entitlement_build", ofText "entitlement_home",
    ofText "gated_commands", ofText "key_file", ofText "marker", ofText "status"]

def isTrue : JsonValue → Bool
  | .bool b => b
  | _ => false

/-- A path that is not empty. -/
def keyFileOf : JsonValue → Option Points
  | .string path => if path = [] then none else some path
  | _ => none

/-- What a value says, if it is a report of an enforcing build. -/
def gateReport (value : JsonValue) : GateStatus :=
  if keys value = some gateReportKeys ∧ isTrue (field "entitlement_build" value) = true then
    ⟨true, keyFileOf (field "key_file" value)⟩
  else unenforced

/-- A text is read as the report of an enforcing build, with this key file. -/
def Reports (read : Except Rejection JsonValue) (keyFile : Option Points) : Prop :=
  ∃ value, read = .ok value ∧ gateReport value = ⟨true, keyFile⟩

def statusOf : Except Rejection JsonValue → GateStatus
  | .error _ => unenforced
  | .ok value => gateReport value

section

variable {limits : PythonLimits} {a : GateAnswer}

end

/-! ## Top-level theorem -/

/-- One array more than Python goes down. -/
def nested : GateAnswer where
  exit := .code 0
  stdout := List.replicate 1001 0x5B
  stderr := []

end Kaleidoscope.Sdk
