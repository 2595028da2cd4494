import Kaleidoscope.Error
import Kaleidoscope.Lib.BTree

/-!
# What the engine answers

The records that the engine prints as JSON, and the checks that the manager makes on each before
it believes it.

    provisional_validate    the descriptor of a dry run passes the check of a real one
-/

namespace Kaleidoscope

def profileVersion : Nat := 1
def launchDescriptorVersion : Nat := 1
def publicTools : List Text := ["search".toList, "remember".toList]
def profileHomeVariable : Text := "KSCOPE_PROFILE_HOME".toList

inductive Durability where
  | processLocal
  | durableLocal
  deriving DecidableEq

structure Profile where
  version : Nat
  name : Text
  root : PosixPath
  workspaceId : Text
  principalId : Text
  journal : Text
  durability : Durability
  deriving DecidableEq

def Profile.validate (profile : Profile) (expectedName : Option Text) : Result Unit := do
  rejectIf (profile.version ≠ profileVersion)
    (.invalidEngineContract "profile" "unsupported version")
  validateProfileName profile.name
  rejectIf (expectedName.any fun name => name ≠ profile.name)
    (.invalidEngineContract "profile" "name mismatch")
  rejectIf
    (!profile.root.absolute || profile.workspaceId.isEmpty || profile.principalId.isEmpty
        || profile.journal.isEmpty)
    (.invalidEngineContract "profile" "missing address field")

structure LaunchDescriptor where
  version : Nat
  transport : Text
  command : PosixPath
  args : List Text
  tools : List Text
  environment : BTreeMap Text Text
  deriving DecidableEq

namespace LaunchDescriptor

def launchArgs (profile : Text) : List Text := ["mcp".toList, "--profile".toList, profile]

/-- The descriptor a profile would get, without creating one. -/
def provisional (engine : PosixPath) (profile : Text) : Result LaunchDescriptor := do
  validateProfileName profile
  rejectIf (!engine.absolute) (.unsafePath "engine" "path must be absolute")
  return { version := launchDescriptorVersion, transport := "stdio".toList, command := engine,
           args := launchArgs profile, tools := publicTools, environment := [] }

/-- Nothing, or the profile store alone, as an absolute path. -/
def environmentIsValid (descriptor : LaunchDescriptor) : Bool :=
  match descriptor.environment with
  | [] => true
  | [(name, store)] => name == profileHomeVariable && store.head? == some '/'
  | _ => false

def validate (descriptor : LaunchDescriptor) (expectedEngine : PosixPath) (profile : Text) :
    Result Unit := do
  validateProfileName profile
  rejectIf
    (descriptor.version ≠ launchDescriptorVersion
      ∨ descriptor.transport ≠ "stdio".toList
      ∨ descriptor.command ≠ expectedEngine
      ∨ descriptor.args ≠ launchArgs profile
      ∨ descriptor.tools ≠ publicTools
      ∨ !descriptor.environmentIsValid
      ∨ !descriptor.command.absolute)
    (.invalidEngineContract "launch descriptor" "closed version-1 shape mismatch")

/-- The descriptor of a dry run passes the check of a real one. -/
theorem provisional_validate {engine : PosixPath} {profile : Text} {descriptor : LaunchDescriptor}
    (h : provisional engine profile = .ok descriptor) :
    descriptor.validate engine profile = .ok () := by
  unfold provisional at h
  obtain ⟨_, hname, h⟩ := except_bind_eq_ok.mp h
  obtain ⟨_, hengine, h⟩ := except_bind_eq_ok.mp h
  cases h
  have habsolute : engine.absolute = true := by simpa using rejectIf_eq_ok.mp hengine
  unfold validate
  refine except_bind_eq_ok.mpr ⟨(), hname, ?_⟩
  simp [environmentIsValid, habsolute]

end LaunchDescriptor

structure ProfileEntry where
  name : Text
  valid : Bool
  profile : Option Profile
  detail : Option Text

structure ProfileList where
  version : Nat
  profiles : List Text
  entries : List ProfileEntry
  stale : Nat

namespace ProfileList

/-- Whether a name does not come before the next one. -/
def outOfOrder : List Text → Bool
  | first :: second :: rest => !decide (first < second) || outOfOrder (second :: rest)
  | _ => false

def validateEntry (entry : ProfileEntry) : Result Unit :=
  match entry.valid, entry.profile, entry.detail with
  | true, some profile, none => profile.validate (some entry.name)
  | false, none, some _ => .ok ()
  | _, _, _ =>
    .error (.invalidEngineContract "profile list" "an entry's validity disagrees with its profile")

def validate (list : ProfileList) : Result Unit := do
  rejectIf
    (list.version ≠ profileVersion
      ∨ outOfOrder list.profiles
      ∨ list.profiles.any fun name => !(validateProfileName name).isOk)
    (.invalidEngineContract "profile list" "invalid version, name, or order")
  rejectIf
    (list.entries.map (·.name) ≠ list.profiles
      ∨ (list.entries.filter fun entry => !entry.valid).length ≠ list.stale)
    (.invalidEngineContract "profile list" "entries disagree with the names or the stale count")
  list.entries.forM validateEntry

end ProfileList

structure InitResult where
  version : Nat
  status : Text
  profile : Profile
  launch : LaunchDescriptor

/-- The checks of `Engine::init_profile` on what `init-profile` printed. -/
def InitResult.validate (result : InitResult) (engine : PosixPath) (name : Text) : Result Unit := do
  rejectIf (result.version ≠ 1 ∨ result.status ≠ "initialized".toList)
    (.invalidEngineContract "init-profile result" "unexpected status")
  result.profile.validate (some name)
  result.launch.validate engine name

end Kaleidoscope
