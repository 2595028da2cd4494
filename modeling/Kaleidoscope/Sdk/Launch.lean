import Kaleidoscope.Engine
import Kaleidoscope.HostEntry
import Kaleidoscope.Lib.Utf8
import Kaleidoscope.Sdk.Descriptor

/-!
# One launch descriptor everywhere

A descriptor that the manager has validated, its JSON in the SDKs, and the entries that the
manager writes from it.  The path of the command is the bytes that the system knows it by.

    everywhere_iff        which descriptors mean the same to all of them
    descriptor_meaning    what the others mean
-/

namespace Kaleidoscope.Launch

open Unicode (Points)
open JsonReader (ofText)

/-! ## The manager's descriptor -/

structure LaunchDescriptor where
  version : Nat
  transport : Text
  command : List UInt8
  args : List Text
  tools : List Text
  environment : BTreeMap Text Text

/-- The components of an absolute path. -/
def components (path : List UInt8) : List (List UInt8) :=
  (path.splitOn 0x2F).filter fun part => part ≠ [] ∧ part ≠ [0x2E]

def isAbsolute (path : List UInt8) : Bool := path.head? == some 0x2F

/-- `==` on paths; of two relative paths only what an absolute one can be told from matters. -/
def samePath (path other : List UInt8) : Bool :=
  isAbsolute path == isAbsolute other && components path == components other

namespace LaunchDescriptor

def environmentIsValid (d : LaunchDescriptor) : Bool :=
  match d.environment with
  | [] => true
  | [(name, store)] => name == profileHomeVariable && store.head? == some '/'
  | _ => false

def validate (d : LaunchDescriptor) (expectedEngine : List UInt8) (profile : Text) :
    Result Unit := do
  validateProfileName profile
  rejectIf
    (d.version ≠ launchDescriptorVersion
      ∨ d.transport ≠ "stdio".toList
      ∨ !samePath d.command expectedEngine
      ∨ d.args ≠ Kaleidoscope.LaunchDescriptor.launchArgs profile
      ∨ d.tools ≠ publicTools
      ∨ !d.environmentIsValid
      ∨ !isAbsolute d.command)
    (.invalidEngineContract "launch descriptor" "closed version-1 shape mismatch")

def points (text : Text) : Points := text.map JsonReader.point

/-- The JSON of a descriptor; a path that is not UTF-8 has none. -/
def toJson (d : LaunchDescriptor) : Option JsonReader.JsonValue :=
  (Utf8.decode d.command).map fun command => .object [
    (ofText "args", .array (d.args.map fun arg => .string (points arg))),
    (ofText "command", .string (points command)),
    (ofText "environment", .object (d.environment.map fun e => (points e.1, .string (points e.2)))),
    (ofText "tools", .array (d.tools.map fun tool => .string (points tool))),
    (ofText "transport", .string (points d.transport)),
    (ofText "version", .number (.finite d.version))]

/-- The entry of a host, with the command as `to_string_lossy` gives it. -/
def entry (d : LaunchDescriptor) (host : JsonHost) : Value :=
  desiredJsonEntry host (Utf8.decodeLossy d.command) d.args

/-! ## Statement -/

/-- What a parser of an SDK made of a descriptor is the descriptor. -/
structure Same (d : LaunchDescriptor) (parsed : Sdk.LaunchDescriptor) : Prop where
  command : ∃ command, Utf8.decode d.command = some command ∧ parsed.command = points command
  args : parsed.args = d.args.map points
  tools : parsed.tools = d.tools.map points
  environment : parsed.environment = d.environment.map fun e => (points e.1, points e.2)

/-- Both SDKs accept the JSON as what it says. -/
def Sdks (facts : Sdk.CommandFacts) (d : LaunchDescriptor) : Prop :=
  ∃ value python typescript, d.toJson = some value
    ∧ Sdk.fromMapping facts value = .ok python ∧ d.Same python
    ∧ Sdk.parseLaunchDescriptor facts value = .ok typescript ∧ d.Same typescript

/-- Every host starts the command with the arguments. -/
def Hosts (d : LaunchDescriptor) : Prop :=
  ∀ host, ∃ command, launched (d.entry host) = some (command, d.args)
    ∧ Utf8.encode command = d.command

structure Everywhere (facts : Sdk.CommandFacts) (d : LaunchDescriptor) : Prop where
  sdks : d.Sdks facts
  hosts : d.Hosts

/-! ## Lemmas -/

theorem isAlphanumeric_point {c : Char} (h : Text.isAsciiAlphanumeric c = true) :
    Sdk.isAlphanumeric (JsonReader.point c) = true := by
  have hle : ∀ a b : Char, a ≤ b ↔ a.toNat ≤ b.toNat := fun a b => UInt32.le_iff_toNat_le
  unfold Text.isAsciiAlphanumeric at h
  unfold Sdk.isAlphanumeric JsonReader.point
  simp only [Bool.or_eq_true, Bool.and_eq_true, decide_eq_true_eq, hle] at h ⊢
  have hbounds : ('0' : Char).toNat = 0x30 ∧ ('9' : Char).toNat = 0x39 ∧ ('a' : Char).toNat = 0x61
      ∧ ('z' : Char).toNat = 0x7A ∧ ('A' : Char).toNat = 0x41 ∧ ('Z' : Char).toNat = 0x5A := by
    decide
  omega

theorem isProfileChar_point {c : Char}
    (h : (Text.isAsciiAlphanumeric c || c == '.' || c == '_' || c == '-') = true) :
    Sdk.isProfileChar (JsonReader.point c) = true := by
  simp only [Bool.or_eq_true, beq_iff_eq] at h
  unfold Sdk.isProfileChar
  rcases h with ((h | rfl) | rfl) | rfl
  · simp [isAlphanumeric_point h]
  · decide
  · decide
  · decide

theorem isProfileName_of_valid {profile : Text} (h : validateProfileName profile = .ok ()) :
    Sdk.isProfileName (points profile) = true := by
  have hshape := rejectIf_eq_ok.mp h
  simp only [Bool.or_eq_true, not_or, Bool.not_eq_true, decide_eq_false_iff_not, not_lt,
    Bool.not_eq_false'] at hshape
  obtain ⟨⟨⟨⟨⟨hne, hlength⟩, hascii⟩, hfirst⟩, -⟩, hall⟩ := hshape
  rw [Text.byteLen_of_isAscii hascii] at hlength
  cases profile with
  | nil => cases hne
  | cons c rest =>
    have hrest : ∀ d ∈ rest, Sdk.isProfileChar (JsonReader.point d) = true := fun d hd =>
      isProfileChar_point (List.all_eq_true.mp hall d (by simp [hd]))
    simp only [points, List.map_cons, Sdk.isProfileName, Bool.and_eq_true, decide_eq_true_eq,
      List.all_map, List.all_eq_true, List.length_map]
    rw [List.length_cons] at hlength
    refine ⟨⟨isAlphanumeric_point (by simpa using hfirst), by omega⟩, hrest⟩

theorem hosts_iff {d : LaunchDescriptor} :
    d.Hosts ↔ ∃ command, Utf8.decode d.command = some command := by
  unfold Hosts entry
  simp only [launched_desired]
  constructor
  · intro h
    obtain ⟨command, -, hencode⟩ := h .cursor
    exact ⟨command, Utf8.decode_iff.mpr hencode⟩
  · rintro ⟨command, hdecode⟩ host
    have hencode := Utf8.decode_iff.mp hdecode
    refine ⟨_, rfl, ?_⟩
    rw [← hencode, Utf8.decodeLossy_encode]

/-- What validation says of a descriptor. -/
theorem validate_eq_ok {d : LaunchDescriptor} {engine : List UInt8} {profile : Text}
    (h : d.validate engine profile = .ok ()) :
    validateProfileName profile = .ok () ∧ d.version = launchDescriptorVersion
      ∧ d.transport = "stdio".toList
      ∧ d.args = Kaleidoscope.LaunchDescriptor.launchArgs profile ∧ d.tools = publicTools := by
  obtain ⟨_, hname, h⟩ := except_bind_eq_ok.mp h
  have hshape := rejectIf_eq_ok.mp h
  simp only [not_or, not_not] at hshape
  exact ⟨hname, hshape.1, hshape.2.1, hshape.2.2.2.1, hshape.2.2.2.2.1⟩

/-- The JSON of a validated descriptor without an environment is of the closed shape. -/
theorem toJson_eq {d : LaunchDescriptor} {engine : List UInt8} {profile command : Text}
    (hvalid : d.validate engine profile = .ok ()) (henvironment : d.environment = [])
    (hcommand : Utf8.decode d.command = some command) :
    d.toJson = some (Sdk.descriptorValue (points command) (points profile)) := by
  obtain ⟨-, hversion, htransport, hargs, htools⟩ := validate_eq_ok hvalid
  unfold toJson
  rw [hcommand, hversion, htransport, hargs, htools, henvironment]
  have hstdio : points "stdio".toList = ofText "stdio" := rfl
  have hone : ((launchDescriptorVersion : Nat) : ℚ) = 1 := by norm_num [launchDescriptorVersion]
  rw [hstdio, hone]
  rfl

theorem closed_same {d : LaunchDescriptor} {engine : List UInt8} {profile command : Text}
    (hvalid : d.validate engine profile = .ok ()) (henvironment : d.environment = [])
    (hcommand : Utf8.decode d.command = some command) :
    d.Same (.closed (points command) (points profile)) := by
  obtain ⟨-, -, -, hargs, htools⟩ := validate_eq_ok hvalid
  refine ⟨⟨command, hcommand, rfl⟩, ?_, ?_, ?_⟩
  · rw [hargs]
    rfl
  · rw [htools]
    rfl
  · rw [henvironment]
    rfl

/-- The JSON of a descriptor with a profile store is not of the closed shape. -/
theorem environment_eq_nil {d : LaunchDescriptor} {command profile : Points}
    (h : d.toJson = some (Sdk.descriptorValue command profile)) : d.environment = [] := by
  obtain ⟨text, -, hjson⟩ := Option.map_eq_some_iff.mp h
  simp [Sdk.descriptorValue, Sdk.closedValue] at hjson
  exact hjson.2.2.1

theorem sdks_of_nil {d : LaunchDescriptor} {engine : List UInt8} {profile command : Text}
    {facts : Sdk.CommandFacts} (hvalid : d.validate engine profile = .ok ())
    (hcommand : Utf8.decode d.command = some command)
    (hlaunchable : facts.Launchable (points command)) (henvironment : d.environment = []) :
    d.Sdks facts := by
  have hname := isProfileName_of_valid (validate_eq_ok hvalid).1
  refine ⟨_, _, _, toJson_eq hvalid henvironment hcommand, ?_,
    closed_same hvalid henvironment hcommand, ?_, closed_same hvalid henvironment hcommand⟩
  · refine Sdk.fromMapping_iff.mpr ⟨points command, points profile, ?_, hname, rfl, ?_⟩
    · rw [hlaunchable.normal]
      exact hlaunchable
    · rw [hlaunchable.normal]
  · exact Sdk.parseLaunchDescriptor_iff.mpr
      ⟨points command, points profile, hlaunchable, hname, rfl, rfl⟩

theorem refused_of_store {d : LaunchDescriptor} {facts : Sdk.CommandFacts}
    {value : JsonReader.JsonValue} (hvalue : d.toJson = some value) (henvironment : d.environment ≠ []) :
    (∀ python, Sdk.fromMapping facts value ≠ .ok python)
      ∧ ∀ typescript, Sdk.parseLaunchDescriptor facts value ≠ .ok typescript := by
  constructor
  · intro python hpython
    obtain ⟨command, name, -, -, rfl, -⟩ := Sdk.fromMapping_iff.mp hpython
    exact henvironment (environment_eq_nil hvalue)
  · intro typescript htypescript
    obtain ⟨command, name, -, -, rfl, -⟩ := Sdk.parseLaunchDescriptor_iff.mp htypescript
    exact henvironment (environment_eq_nil hvalue)

theorem Everywhere.environment_eq_nil {facts : Sdk.CommandFacts} {d : LaunchDescriptor}
    (h : d.Everywhere facts) : d.environment = [] := by
  obtain ⟨value, python, -, hvalue, hpython, -⟩ := h.sdks
  by_contra henvironment
  exact (refused_of_store hvalue henvironment).1 python hpython

/-! ## Top theorems -/

/-- A validated descriptor means the same everywhere iff it carries no profile store and its
command is UTF-8. -/
theorem everywhere_iff {d : LaunchDescriptor} {engine : List UInt8} {profile : Text}
    (hvalid : d.validate engine profile = .ok ()) {facts : Sdk.CommandFacts}
    (hcanonical : ∀ command, Utf8.decode d.command = some command →
      facts.Launchable (points command)) :
    d.Everywhere facts ↔ d.environment = [] ∧ ∃ command, Utf8.decode d.command = some command := by
  constructor
  · intro h
    exact ⟨h.environment_eq_nil, hosts_iff.mp h.hosts⟩
  · rintro ⟨henvironment, command, hcommand⟩
    exact ⟨sdks_of_nil hvalid hcommand (hcanonical command hcommand) henvironment,
      hosts_iff.mpr ⟨command, hcommand⟩⟩

/-- Every host starts what a validated descriptor says, and both SDKs accept it as what it says,
or both refuse it for the profile store that it carries. -/
theorem descriptor_meaning {d : LaunchDescriptor} {engine : List UInt8} {profile command : Text}
    {facts : Sdk.CommandFacts} (hvalid : d.validate engine profile = .ok ())
    (hcommand : Utf8.decode d.command = some command)
    (hlaunchable : facts.Launchable (points command)) :
    d.Hosts ∧ (d.environment = [] → d.Sdks facts)
      ∧ (d.environment ≠ [] → ∃ value, d.toJson = some value
        ∧ (∀ python, Sdk.fromMapping facts value ≠ .ok python)
        ∧ ∀ typescript, Sdk.parseLaunchDescriptor facts value ≠ .ok typescript) := by
  refine ⟨hosts_iff.mpr ⟨command, hcommand⟩, sdks_of_nil hvalid hcommand hlaunchable, ?_⟩
  intro henvironment
  obtain ⟨value, hvalue⟩ : ∃ value, d.toJson = some value := by
    unfold toJson
    rw [hcommand]
    exact ⟨_, rfl⟩
  exact ⟨value, hvalue, refused_of_store hvalue henvironment⟩

/-! ## A disk with one executable -/

def kscope : Text := "/opt/kscope".toList

/-- `/opt/kscope` is an executable, and there is nothing else. -/
def onlyKscope : Sdk.CommandFacts where
  resolve := fun path => if path = points kscope then .found path else .missing
  isRegular := fun path => path == points kscope
  isExecutable := fun path => path == points kscope
  resolve_normal := by
    intro path resolved h
    by_cases hpath : path = points kscope
    · rw [if_pos hpath] at h
      cases h
      subst hpath
      decide
    · rw [if_neg hpath] at h
      cases h

/-- What the manager builds for an engine at this path. -/
def issued (command : List UInt8) (environment : BTreeMap Text Text) : LaunchDescriptor where
  version := launchDescriptorVersion
  transport := "stdio".toList
  command := command
  args := Kaleidoscope.LaunchDescriptor.launchArgs "default".toList
  tools := publicTools
  environment := environment

theorem kscope_launchable : onlyKscope.Launchable (points kscope) := by
  refine ⟨by decide, ?_, by decide, by decide⟩
  show (if points kscope = points kscope then Sdk.Resolution.found _ else .missing) = _
  exact if_pos rfl

theorem decode_kscope : Utf8.decode (Utf8.encode kscope) = some kscope := by decide +kernel

theorem descriptor_meaning_kscope :
    (issued (Utf8.encode kscope) []).Hosts
      ∧ ((issued (Utf8.encode kscope) []).environment = []
        → (issued (Utf8.encode kscope) []).Sdks onlyKscope)
      ∧ ((issued (Utf8.encode kscope) []).environment ≠ []
        → ∃ value, (issued (Utf8.encode kscope) []).toJson = some value
          ∧ (∀ python, Sdk.fromMapping onlyKscope value ≠ .ok python)
          ∧ ∀ typescript, Sdk.parseLaunchDescriptor onlyKscope value ≠ .ok typescript) :=
  @descriptor_meaning (issued (Utf8.encode kscope) []) (Utf8.encode kscope) "default".toList kscope
    onlyKscope (by decide +kernel) decode_kscope kscope_launchable

/-- A descriptor with a store of profiles passes validation, and no SDK accepts it. -/
theorem store_refused :
    (issued (Utf8.encode kscope) [(profileHomeVariable, "/profiles".toList)]).validate
        (Utf8.encode kscope) "default".toList = .ok ()
      ∧ onlyKscope.Launchable (points kscope)
      ∧ ¬ (issued (Utf8.encode kscope)
        [(profileHomeVariable, "/profiles".toList)]).Everywhere onlyKscope := by
  refine ⟨by decide +kernel, kscope_launchable, ?_⟩
  intro h
  cases h.environment_eq_nil

/-- A path that is not UTF-8 passes validation, and no host starts it. -/
example : (issued [0x2F, 0xFF] []).validate [0x2F, 0xFF] "default".toList = .ok ()
    ∧ (launched ((issued [0x2F, 0xFF] []).entry .cursor)).map (fun run => run.1)
      = some ['/', Char.ofNat 0xFFFD] := by
  decide +kernel

end LaunchDescriptor

end Kaleidoscope.Launch
