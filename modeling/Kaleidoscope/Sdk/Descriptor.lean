import Kaleidoscope.Lib.JsonReader
import Kaleidoscope.Lib.Prog

/-!
# Launch descriptors of the SDKs

The closed shape of a descriptor, and the parser of each language, from the JSON value on.

    fromMapping_iff              which values Python accepts, and what it makes of them
    parseLaunchDescriptor_iff    which values TypeScript accepts
-/

namespace Kaleidoscope.Sdk

open Unicode (Points)
open JsonReader (ofText JsonValue)

/-! ## Values -/

structure LaunchDescriptor where
  version : Nat
  transport : Points
  command : Points
  args : List Points
  tools : List Points
  environment : List (Points × Points)
  deriving DecidableEq

def expectedTools : List Points := [ofText "search", ofText "remember"]

def isAlphanumeric (c : Nat) : Bool :=
  (0x30 ≤ c && c ≤ 0x39) || (0x41 ≤ c && c ≤ 0x5A) || (0x61 ≤ c && c ≤ 0x7A)

def isProfileChar (c : Nat) : Bool := isAlphanumeric c || c == 0x2E || c == 0x5F || c == 0x2D

/-- `^[A-Za-z0-9][A-Za-z0-9._-]{0,63}$`, on the whole of a name. -/
def isProfileName : Points → Bool
  | [] => false
  | first :: rest => isAlphanumeric first && rest.length ≤ 63 && rest.all isProfileChar

/-- The descriptor that both parsers build. -/
def LaunchDescriptor.closed (command profile : Points) : LaunchDescriptor where
  version := 1
  transport := ofText "stdio"
  command := command
  args := [ofText "mcp", ofText "--profile", profile]
  tools := expectedTools
  environment := []

inductive SdkError where
  | descriptor (message : String)
  | missingBinary (message : String)
  | protocol (message : String)
  /-- a descriptor without some of the fields, or with others -/
  | fields (missing extra : List Points)
  /-- the exception of a reader that gave up, which no caller names -/
  | uncaught (rejection : JsonReader.Rejection)
  deriving DecidableEq

abbrev Parsed := Except SdkError

/-! ## Fields -/

/-- The value of a key; a key that is not there gives what stands for it in both languages. -/
def field (key : String) (value : JsonValue) : JsonValue := (value.member? (ofText key)).getD .null

/-- The keys of an object, which are in order. -/
def keys : JsonValue → Option (List Points)
  | .object members => some (members.map Prod.fst)
  | _ => none

/-- A number that is one, and in Python an `int`. -/
def isOne : JsonValue → Bool
  | .number (.finite q) => q == 1
  | _ => false

def isText (text : Points) : JsonValue → Bool
  | .string s => s == text
  | _ => false

def asText : JsonValue → Option Points
  | .string s => some s
  | _ => none

/-- `validate_profile_name` and `validateProfileName` -/
def validateProfileName (value : JsonValue) : Parsed Points :=
  match value with
  | .string s =>
    if isProfileName s then .ok s else .error (.descriptor "descriptor profile name is not portable")
  | _ => .error (.descriptor "descriptor profile name is not portable")

def descriptorKeys : List Points :=
  [ofText "args", ofText "command", ofText "environment", ofText "tools", ofText "transport",
    ofText "version"]

def isTools : JsonValue → Bool
  | .array [search, remember] => isText (ofText "search") search && isText (ofText "remember") remember
  | _ => false

def isEmptyObject : JsonValue → Bool
  | .object [] => true
  | _ => false

/-! ## The command -/

/-- `str(PurePosixPath(text))`: empty and `.` components go, two slashes at the start stay. -/
def pathText (text : Points) : Points :=
  let root := match text with
    | 0x2F :: 0x2F :: 0x2F :: _ => ofText "/"
    | 0x2F :: 0x2F :: _ => ofText "//"
    | 0x2F :: _ => ofText "/"
    | _ => []
  let parts := (text.splitOn 0x2F).filter fun part => part ≠ [] ∧ part ≠ ofText "."
  let path := root ++ (ofText "/").intercalate parts
  if path = [] then ofText "." else path

inductive Resolution where
  | missing
  | failed
  | found (path : Points)

/-- What the file system says of a path: the path without links, and of that path, whether it is a
regular file and may be executed.  A path without links is in normal form. -/
structure CommandFacts where
  resolve : Points → Resolution
  isRegular : Points → Bool
  isExecutable : Points → Bool
  resolve_normal : ∀ {path resolved : Points}, resolve path = .found resolved →
    pathText resolved = resolved

def isAbsolute (path : Points) : Bool := path.head? == some 0x2F

section

variable (facts : CommandFacts)

/-- `_canonical_executable` -/
def canonicalExecutablePython (command : JsonValue) : Parsed Points :=
  match command with
  | .string text => do
    rejectIf (text = []) (.descriptor "descriptor command must be a non-empty string")
    let path := pathText text
    rejectIf (!isAbsolute path) (.descriptor "descriptor command must be absolute")
    match facts.resolve path with
    | .missing => .error (.missingBinary "Kaleidoscope executable does not exist")
    | .failed => .error (.descriptor "descriptor command does not exist")
    | .found resolved =>
      rejectIf (pathText resolved ≠ path)
        (.descriptor "descriptor command must already be canonical and non-symlinked")
      rejectIf (!facts.isRegular path || !facts.isExecutable path)
        (.descriptor "descriptor command must be a regular executable")
      return path
  | _ => .error (.descriptor "descriptor command must be a non-empty string")

/-- `canonicalExecutable` -/
def canonicalExecutable (command : JsonValue) : Parsed Points :=
  match command with
  | .string text => do
    rejectIf (text = [] ∨ !isAbsolute text)
      (.descriptor "descriptor command must be an absolute string")
    match facts.resolve text with
    | .missing => .error (.missingBinary "Kaleidoscope executable does not exist")
    | .failed => .error (.descriptor "descriptor command must be a regular executable")
    | .found resolved =>
      rejectIf (!facts.isExecutable resolved || !facts.isRegular resolved)
        (.descriptor "descriptor command must be a regular executable")
      rejectIf (resolved ≠ text)
        (.descriptor "descriptor command must already be canonical and non-symlinked")
      return text
  | _ => .error (.descriptor "descriptor command must be an absolute string")

/-! ## Parsers -/

def parseArgsPython (args : JsonValue) : Parsed Points :=
  match args with
  | .array items =>
    match items.mapM asText with
    | some [mcp, flag, name] => do
      rejectIf (mcp ≠ ofText "mcp" ∨ flag ≠ ofText "--profile")
        (.descriptor "descriptor args must be ['mcp', '--profile', NAME]")
      validateProfileName (.string name)
    | some _ => .error (.descriptor "descriptor args must be ['mcp', '--profile', NAME]")
    | none => .error (.descriptor "descriptor args must be a string array")
  | _ => .error (.descriptor "descriptor args must be a string array")

def parseArgs (args : JsonValue) : Parsed Points :=
  match args with
  | .array [mcp, flag, name] => do
    rejectIf (!isText (ofText "mcp") mcp || !isText (ofText "--profile") flag)
      (.descriptor "descriptor args must be ['mcp', '--profile', NAME]")
    validateProfileName name
  | _ => .error (.descriptor "descriptor args must be ['mcp', '--profile', NAME]")

/-- The checks of both languages, in the order that both have. -/
def parseClosed (object transport : String) (fields : List Points → SdkError)
    (parseCommand parseArgs : JsonValue → Parsed Points) (value : JsonValue) : Parsed LaunchDescriptor :=
  match keys value with
  | none => .error (.descriptor object)
  | some given => do
    rejectIf (given ≠ descriptorKeys) (fields given)
    rejectIf (!isOne (field "version" value)) (.descriptor "descriptor version must be exactly 1")
    rejectIf (!isText (ofText "stdio") (field "transport" value)) (.descriptor transport)
    let command ← parseCommand (field "command" value)
    let profile ← parseArgs (field "args" value)
    rejectIf (!isTools (field "tools" value))
      (.descriptor "descriptor tools must be exactly ['search', 'remember']")
    rejectIf (!isEmptyObject (field "environment" value))
      (.descriptor "descriptor environment must be exactly empty")
    return .closed command profile

/-- `LaunchDescriptor.from_mapping`, on a value that `from_json` has read -/
def fromMapping : JsonValue → Parsed LaunchDescriptor :=
  parseClosed "profile launch descriptor must be an object"
    "descriptor transport must be exactly 'stdio'"
    (fun given => .fields (descriptorKeys.filter fun k => !given.contains k)
      (given.filter fun k => !descriptorKeys.contains k))
    (canonicalExecutablePython facts) parseArgsPython

/-- `parseLaunchDescriptor` -/
def parseLaunchDescriptor : JsonValue → Parsed LaunchDescriptor :=
  parseClosed "launch descriptor must be an object" "descriptor transport must be exactly stdio"
    (fun _ => .descriptor "descriptor fields differ from the closed v1 shape")
    (canonicalExecutable facts) parseArgs

end

/-! ## Statement -/

/-- A path that is its own canonical form, and an executable. -/
structure CommandFacts.Launchable (facts : CommandFacts) (path : Points) : Prop where
  absolute : isAbsolute path = true
  canonical : facts.resolve path = .found path
  regular : facts.isRegular path = true
  executable : facts.isExecutable path = true

def argsValue (profile : Points) : JsonValue :=
  .array [.string (ofText "mcp"), .string (ofText "--profile"), .string profile]

/-- An object of the closed shape, but for two of its fields. -/
def closedValue (command args : JsonValue) : JsonValue :=
  .object [
    (ofText "args", args),
    (ofText "command", command),
    (ofText "environment", .object []),
    (ofText "tools", .array (expectedTools.map .string)),
    (ofText "transport", .string (ofText "stdio")),
    (ofText "version", .number (.finite 1))]

/-- The JSON value of a descriptor. -/
def descriptorValue (command profile : Points) : JsonValue :=
  closedValue (.string command) (argsValue profile)

/-! ## Lemmas -/

theorem isProfileChar_of_name {name : Points} (h : isProfileName name = true) :
    ∀ c ∈ name, isProfileChar c = true := by
  cases name with
  | nil => cases h
  | cons first rest =>
    simp only [isProfileName, Bool.and_eq_true, List.all_eq_true] at h
    intro c hc
    rcases List.mem_cons.mp hc with rfl | hc
    · simp [isProfileChar, h.1.1]
    · exact h.2 c hc

theorem isOne_iff {value : JsonValue} : isOne value = true ↔ value = .number (.finite 1) := by
  constructor
  · intro h
    unfold isOne at h
    split at h
    next q => rw [beq_iff_eq.mp h]
    next => cases h
  · rintro rfl
    exact beq_iff_eq.mpr rfl

theorem isText_iff {text : Points} {value : JsonValue} :
    isText text value = true ↔ value = .string text := by
  constructor
  · intro h
    unfold isText at h
    split at h
    next s => rw [beq_iff_eq.mp h]
    next => cases h
  · rintro rfl
    exact beq_iff_eq.mpr rfl

theorem isTools_iff {value : JsonValue} :
    isTools value = true ↔ value = .array (expectedTools.map .string) := by
  constructor
  · intro h
    unfold isTools at h
    split at h
    next search remember =>
      rw [Bool.and_eq_true] at h
      rw [isText_iff.mp h.1, isText_iff.mp h.2]
      rfl
    next => cases h
  · rintro rfl
    simp [isTools, expectedTools, isText]

theorem isEmptyObject_iff {value : JsonValue} : isEmptyObject value = true ↔ value = .object [] := by
  constructor
  · intro h
    unfold isEmptyObject at h
    split at h
    next => rfl
    next => cases h
  · rintro rfl
    rfl

/-- A check that must be passed. -/
theorem require_iff {ε : Type} {c : Bool} {x : ε} {u : Unit} :
    rejectIf ((!c) = true) x = .ok u ↔ c = true := by
  rw [rejectIf_eq_ok]
  simp

theorem validateProfileName_iff {value : JsonValue} {name : Points} :
    validateProfileName value = .ok name ↔ isProfileName name = true ∧ value = .string name := by
  unfold validateProfileName
  constructor
  · intro h
    split at h
    next s =>
      split at h
      next hs =>
        cases h
        exact ⟨hs, rfl⟩
      next => cases h
    next => cases h
  · rintro ⟨hname, rfl⟩
    exact if_pos hname

theorem asText_eq {value : JsonValue} {text : Points} (h : asText value = some text) :
    value = .string text := by
  unfold asText at h
  split at h
  next s =>
    cases h
    rfl
  next => cases h

theorem mapM_asText {items : List JsonValue} {texts : List Points}
    (h : items.mapM asText = some texts) : items = texts.map .string := by
  induction items generalizing texts with
  | nil =>
    cases h
    rfl
  | cons item items ih =>
    rw [List.mapM_cons] at h
    cases hitem : asText item with
    | none =>
      rw [hitem] at h
      cases h
    | some text =>
      cases hrest : items.mapM asText with
      | none =>
        rw [hitem, hrest] at h
        cases h
      | some rest =>
        rw [hitem, hrest] at h
        cases h
        rw [asText_eq hitem, ih hrest]
        rfl

theorem parseArgsPython_iff {args : JsonValue} {profile : Points} :
    parseArgsPython args = .ok profile
      ↔ isProfileName profile = true ∧ args = argsValue profile := by
  constructor
  · intro h
    unfold parseArgsPython at h
    split at h
    next items =>
      split at h
      next mcp flag name hitems =>
        obtain ⟨_, hcheck, hname⟩ := except_bind_eq_ok.mp h
        obtain ⟨hmcp, hflag⟩ := not_or.mp (rejectIf_eq_ok.mp hcheck)
        obtain ⟨hprofile, heq⟩ := validateProfileName_iff.mp hname
        refine ⟨hprofile, ?_⟩
        rw [mapM_asText hitems, not_not.mp hmcp, not_not.mp hflag, JsonValue.string.inj heq]
        rfl
      next => cases h
      next => cases h
    next => cases h
  · rintro ⟨hprofile, rfl⟩
    show (rejectIf _ _ >>= fun _ => validateProfileName (.string profile)) = _
    exact except_bind_eq_ok.mpr
      ⟨(), rejectIf_eq_ok.mpr (by simp), validateProfileName_iff.mpr ⟨hprofile, rfl⟩⟩

theorem parseArgs_iff {args : JsonValue} {profile : Points} :
    parseArgs args = .ok profile ↔ isProfileName profile = true ∧ args = argsValue profile := by
  constructor
  · intro h
    unfold parseArgs at h
    split at h
    next mcp flag name =>
      obtain ⟨_, hcheck, hname⟩ := except_bind_eq_ok.mp h
      have htexts := rejectIf_eq_ok.mp hcheck
      simp only [Bool.or_eq_true, Bool.not_eq_true', not_or, Bool.not_eq_false] at htexts
      obtain ⟨hprofile, rfl⟩ := validateProfileName_iff.mp hname
      rw [isText_iff.mp htexts.1, isText_iff.mp htexts.2]
      exact ⟨hprofile, rfl⟩
    next => cases h
  · rintro ⟨hprofile, rfl⟩
    show (rejectIf _ _ >>= fun _ => validateProfileName (.string profile)) = _
    exact except_bind_eq_ok.mpr
      ⟨(), rejectIf_eq_ok.mpr (by simp [isText]), validateProfileName_iff.mpr ⟨hprofile, rfl⟩⟩

section

variable {facts : CommandFacts}

theorem CommandFacts.Launchable.ne_nil {path : Points} (h : facts.Launchable path) :
    path ≠ [] := by
  rintro rfl
  cases h.absolute

theorem CommandFacts.Launchable.normal {path : Points} (h : facts.Launchable path) :
    pathText path = path := facts.resolve_normal h.canonical

theorem canonicalExecutablePython_iff {value : JsonValue} {path : Points} :
    canonicalExecutablePython facts value = .ok path
      ↔ facts.Launchable path ∧ ∃ text, value = .string text ∧ pathText text = path := by
  constructor
  · intro h
    unfold canonicalExecutablePython at h
    split at h
    next text =>
      obtain ⟨_, -, h⟩ := except_bind_eq_ok.mp h
      obtain ⟨_, habsolute, h⟩ := except_bind_eq_ok.mp h
      split at h
      next => cases h
      next => cases h
      next resolved hresolved =>
        obtain ⟨_, hcanonical, h⟩ := except_bind_eq_ok.mp h
        obtain ⟨_, hmode, h⟩ := except_bind_eq_ok.mp h
        cases h
        have hsame := not_not.mp (rejectIf_eq_ok.mp hcanonical)
        rw [facts.resolve_normal hresolved] at hsame
        have hmode := rejectIf_eq_ok.mp hmode
        simp only [Bool.or_eq_true, Bool.not_eq_true', not_or, Bool.not_eq_false] at hmode
        refine ⟨⟨by simpa using rejectIf_eq_ok.mp habsolute, ?_, hmode.1, hmode.2⟩, text, rfl, rfl⟩
        rw [hresolved, hsame]
    next => cases h
  · rintro ⟨hpath, text, rfl, rfl⟩
    have hne : text ≠ [] := by
      rintro rfl
      exact absurd hpath.absolute (by decide)
    unfold canonicalExecutablePython
    refine except_bind_eq_ok.mpr ⟨(), rejectIf_eq_ok.mpr hne, ?_⟩
    refine except_bind_eq_ok.mpr ⟨(), rejectIf_eq_ok.mpr (by simp [hpath.absolute]), ?_⟩
    simp only [hpath.canonical]
    refine except_bind_eq_ok.mpr ⟨(), rejectIf_eq_ok.mpr (by simp [hpath.normal]), ?_⟩
    exact except_bind_eq_ok.mpr
      ⟨(), rejectIf_eq_ok.mpr (by simp [hpath.regular, hpath.executable]), rfl⟩

theorem canonicalExecutable_iff {value : JsonValue} {path : Points} :
    canonicalExecutable facts value = .ok path
      ↔ facts.Launchable path ∧ value = .string path := by
  constructor
  · intro h
    unfold canonicalExecutable at h
    split at h
    next text =>
      obtain ⟨_, habsolute, h⟩ := except_bind_eq_ok.mp h
      split at h
      next => cases h
      next => cases h
      next resolved hresolved =>
        obtain ⟨_, hmode, h⟩ := except_bind_eq_ok.mp h
        obtain ⟨_, hcanonical, h⟩ := except_bind_eq_ok.mp h
        cases h
        obtain rfl := not_not.mp (rejectIf_eq_ok.mp hcanonical)
        have hmode := rejectIf_eq_ok.mp hmode
        simp only [Bool.or_eq_true, Bool.not_eq_true', not_or, Bool.not_eq_false] at hmode
        have habsolute := (not_or.mp (rejectIf_eq_ok.mp habsolute)).2
        exact ⟨⟨by simpa using habsolute, hresolved, hmode.2, hmode.1⟩, rfl⟩
    next => cases h
  · rintro ⟨hpath, rfl⟩
    unfold canonicalExecutable
    refine except_bind_eq_ok.mpr
      ⟨(), rejectIf_eq_ok.mpr (by simp [hpath.ne_nil, hpath.absolute]), ?_⟩
    simp only [hpath.canonical]
    refine except_bind_eq_ok.mpr
      ⟨(), rejectIf_eq_ok.mpr (by simp [hpath.regular, hpath.executable]), ?_⟩
    exact except_bind_eq_ok.mpr ⟨(), rejectIf_eq_ok.mpr (by simp), rfl⟩

end

/-- An object with the keys of a descriptor. -/
theorem keys_descriptor {value : JsonValue} (h : keys value = some descriptorKeys) :
    value = .object [
      (ofText "args", field "args" value),
      (ofText "command", field "command" value),
      (ofText "environment", field "environment" value),
      (ofText "tools", field "tools" value),
      (ofText "transport", field "transport" value),
      (ofText "version", field "version" value)] := by
  unfold keys at h
  split at h
  next members =>
    obtain ⟨⟨_, args⟩, _, rfl, rfl, h₁⟩ := List.map_eq_cons_iff.mp (Option.some.inj h)
    obtain ⟨⟨_, command⟩, _, rfl, rfl, h₂⟩ := List.map_eq_cons_iff.mp h₁
    obtain ⟨⟨_, environment⟩, _, rfl, rfl, h₃⟩ := List.map_eq_cons_iff.mp h₂
    obtain ⟨⟨_, tools⟩, _, rfl, rfl, h₄⟩ := List.map_eq_cons_iff.mp h₃
    obtain ⟨⟨_, transport⟩, _, rfl, rfl, h₅⟩ := List.map_eq_cons_iff.mp h₄
    obtain ⟨⟨_, version⟩, _, rfl, rfl, h₆⟩ := List.map_eq_cons_iff.mp h₅
    obtain rfl := List.map_eq_nil_iff.mp h₆
    rfl
  next => cases h

theorem parseClosed_iff {object transport : String} {fields : List Points → SdkError}
    {parseCommand parseArgs : JsonValue → Parsed Points} {value : JsonValue}
    {descriptor : LaunchDescriptor} :
    parseClosed object transport fields parseCommand parseArgs value = .ok descriptor
      ↔ ∃ command args path profile, parseCommand command = .ok path ∧ parseArgs args = .ok profile
        ∧ value = closedValue command args ∧ descriptor = .closed path profile := by
  constructor
  · intro h
    unfold parseClosed at h
    split at h
    next => cases h
    next given hgiven =>
      obtain ⟨_, hkeys, h⟩ := except_bind_eq_ok.mp h
      obtain ⟨_, hversion, h⟩ := except_bind_eq_ok.mp h
      obtain ⟨_, htransport, h⟩ := except_bind_eq_ok.mp h
      obtain ⟨path, hpath, h⟩ := except_bind_eq_ok.mp h
      obtain ⟨profile, hprofile, h⟩ := except_bind_eq_ok.mp h
      obtain ⟨_, htools, h⟩ := except_bind_eq_ok.mp h
      obtain ⟨_, henvironment, h⟩ := except_bind_eq_ok.mp h
      cases h
      obtain rfl := not_not.mp (rejectIf_eq_ok.mp hkeys)
      refine ⟨_, _, path, profile, hpath, hprofile, ?_, rfl⟩
      rw [keys_descriptor hgiven, isOne_iff.mp (require_iff.mp hversion),
        isText_iff.mp (require_iff.mp htransport), isTools_iff.mp (require_iff.mp htools),
        isEmptyObject_iff.mp (require_iff.mp henvironment)]
      rfl
  · rintro ⟨command, args, path, profile, hpath, hprofile, rfl, rfl⟩
    unfold parseClosed
    rw [show keys (closedValue command args) = some descriptorKeys from rfl]
    refine except_bind_eq_ok.mpr ⟨(), rejectIf_eq_ok.mpr (by simp), ?_⟩
    refine except_bind_eq_ok.mpr ⟨(), require_iff.mpr (isOne_iff.mpr rfl), ?_⟩
    refine except_bind_eq_ok.mpr ⟨(), require_iff.mpr (isText_iff.mpr rfl), ?_⟩
    refine except_bind_eq_ok.mpr ⟨path, hpath, ?_⟩
    refine except_bind_eq_ok.mpr ⟨profile, hprofile, ?_⟩
    refine except_bind_eq_ok.mpr ⟨(), require_iff.mpr (isTools_iff.mpr rfl), ?_⟩
    exact except_bind_eq_ok.mpr ⟨(), require_iff.mpr (isEmptyObject_iff.mpr rfl), rfl⟩

section

variable {facts : CommandFacts}

theorem fromMapping_iff {value : JsonValue} {descriptor : LaunchDescriptor} :
    fromMapping facts value = .ok descriptor
      ↔ ∃ command profile, facts.Launchable (pathText command) ∧ isProfileName profile = true
        ∧ value = descriptorValue command profile
        ∧ descriptor = .closed (pathText command) profile := by
  unfold fromMapping
  rw [parseClosed_iff]
  constructor
  · rintro ⟨command, args, path, profile, hpath, hprofile, rfl, rfl⟩
    obtain ⟨hlaunchable, command, rfl, rfl⟩ := canonicalExecutablePython_iff.mp hpath
    obtain ⟨hname, rfl⟩ := parseArgsPython_iff.mp hprofile
    exact ⟨command, profile, hlaunchable, hname, rfl, rfl⟩
  · rintro ⟨command, profile, hlaunchable, hname, rfl, rfl⟩
    exact ⟨_, _, _, profile, canonicalExecutablePython_iff.mpr ⟨hlaunchable, command, rfl, rfl⟩,
      parseArgsPython_iff.mpr ⟨hname, rfl⟩, rfl, rfl⟩

theorem parseLaunchDescriptor_iff {value : JsonValue} {descriptor : LaunchDescriptor} :
    parseLaunchDescriptor facts value = .ok descriptor
      ↔ ∃ command profile, facts.Launchable command ∧ isProfileName profile = true
        ∧ value = descriptorValue command profile ∧ descriptor = .closed command profile := by
  unfold parseLaunchDescriptor
  rw [parseClosed_iff]
  constructor
  · rintro ⟨command, args, path, profile, hpath, hprofile, rfl, rfl⟩
    obtain ⟨hlaunchable, rfl⟩ := canonicalExecutable_iff.mp hpath
    obtain ⟨hname, rfl⟩ := parseArgs_iff.mp hprofile
    exact ⟨path, profile, hlaunchable, hname, rfl, rfl⟩
  · rintro ⟨command, profile, hlaunchable, hname, rfl, rfl⟩
    exact ⟨_, _, command, profile, canonicalExecutable_iff.mpr ⟨hlaunchable, rfl⟩,
      parseArgs_iff.mpr ⟨hname, rfl⟩, rfl, rfl⟩

end

end Kaleidoscope.Sdk
