import Kaleidoscope.Engine
import Kaleidoscope.Json
import Kaleidoscope.Lib.BTree

/-!
# Vault discovery

The probe that tells whether a directory is worth offering to the engine, and the set of the
candidates that `init` has found.  A program raises one event for each call of the file system
and for each request to the engine or to the manager's own state.

The probe looks at a path with `symlink_metadata` and follows no link there; a candidate is
canonicalised before it is probed.
-/

namespace Kaleidoscope

open Prog Disk

/-- A call of the standard library that reads the file system. -/
inductive FileCall where
  | canonicalize (path : PosixPath)
  | symlinkMetadata (path : PosixPath)
  | read (path : PosixPath)
  | readDir (path : PosixPath)

abbrev FileCall.Value : FileCall → Type
  | .canonicalize _ => PosixPath
  | .symlinkMetadata _ => Metadata
  | .read _ => Bytes
  | .readDir _ => List (Text × FileType)

/-- What is asked of the engine, of the manager's state and of the clock. -/
inductive Request where
  | profileShow (name : Text)
  | profileList
  | profileLaunch (name : Text)
  | profileImport (name : Text) (root : PosixPath) (durability : Durability)
  | initProfile (name : Text) (root : PosixPath) (createdAt : Text) (durability : Durability)
  | setActiveProfile (profile : Text)
  /-- create the directories above a vault root -/
  | ensureVaultParentDirectory (root : PosixPath)
  | now

abbrev Request.Answer : Request → Type
  | .profileShow _ => Result Profile
  | .profileList => Result ProfileList
  | .profileLaunch _ => Result LaunchDescriptor
  | .profileImport _ _ _ => Result Profile
  | .initProfile _ _ _ _ => Result InitResult
  | .setActiveProfile _ => Result Unit
  | .ensureVaultParentDirectory _ => Result Unit
  | .now => Text

inductive InitEvent where
  | file (call : FileCall)
  | request (request : Request)

abbrev InitEvent.Answer : InitEvent → Type
  | .file call => Except IoKind call.Value
  | .request r => r.Answer

abbrev InitProg := Prog InitEvent InitEvent.Answer ManagerError

/-- What a run of the manager takes from its surroundings. -/
structure Setting where
  /-- the path of the engine -/
  engine : PosixPath
  /-- `KALEIDOSCOPE_DATA_HOME`, or the directory of the platform -/
  dataHome : Result PosixPath
  currentDirectory : Except IoKind PosixPath
  /-- the JSON parser -/
  fromSlice : Bytes → Option Value

namespace Discovery

def maxManifestBytes : Nat := 1024 * 1024
def rootManifestSchema : Text := "filesystem.root-manifest".toList
def manifestName : Text := "manifest.json".toList

/-- What one candidate directory is, as far as a read-only probe can tell. -/
inductive Candidate where
  | notAVault
  | vault (root : PosixPath) (workspaces : Nat)

def Candidate.workspaces : Candidate → Nat
  | .notAVault => 0
  | .vault _ workspaces => workspaces

inductive DiscoveryRule where
  | explicitRoot
  | registeredProfile
  | defaultRoot
  | projectLocal
  | userVaultDirectory

def DiscoveryRule.asStr : DiscoveryRule → Text
  | .explicitRoot => "--root".toList
  | .registeredProfile => "registered profile".toList
  | .defaultRoot => "default root".toList
  | .projectLocal => "<project>/.kaleidoscope".toList
  | .userVaultDirectory => "user vault directory".toList

structure FoundVault where
  rule : DiscoveryRule
  detail : Option Text
  root : PosixPath
  workspaces : Nat

def fileCall (call : FileCall) : InitProg (Except IoKind call.Value) :=
  ask (InitEvent.file call)

/-! ## The probe -/

/-- Whether a parsed manifest names the schema of a vault. -/
def hasRootSchema : Value → Bool
  | .object members =>
    match members.lookup "schema_name".toList with
    | some (.string schema) => schema == rootManifestSchema
    | _ => false
  | _ => false

/-- Whether the bytes of a manifest are those of a vault. -/
def isRootManifest (setting : Setting) (bytes : Bytes) : Bool :=
  (setting.fromSlice bytes).any hasRootSchema

def countWorkspaces (root : PosixPath) : InitProg Nat := do
  match ← fileCall (.readDir (root.join "workspaces".toList)) with
  | .error _ => return 0
  | .ok entries =>
    return (entries.filter fun entry =>
      "wsp_".toList.isPrefixOf entry.1 && entry.2 == .directory).length

def readManifest (setting : Setting) (root : PosixPath) : InitProg Candidate := do
  match ← fileCall (.read (root.join manifestName)) with
  | .error _ => return .notAVault
  | .ok bytes =>
    if isRootManifest setting bytes then do
      let workspaces ← countWorkspaces root
      return .vault root workspaces
    else return .notAVault

def probeManifest (setting : Setting) (root : PosixPath) : InitProg Candidate := do
  match ← fileCall (.symlinkMetadata (root.join manifestName)) with
  | .error _ => return .notAVault
  | .ok metadata =>
    if metadata.type = .file ∧ metadata.len ≤ maxManifestBytes then readManifest setting root
    else return .notAVault

def probe (setting : Setting) (root : PosixPath) : InitProg Candidate :=
  if root.absolute then do
    match ← fileCall (.symlinkMetadata root) with
    | .error _ => return .notAVault
    | .ok metadata =>
      if metadata.type = .directory then probeManifest setting root else return .notAVault
  else return .notAVault

/-! ## Candidates -/

/-- The candidates found so far, and every canonical path that was looked at. -/
structure CandidateSet where
  seen : BTreeSet PosixPath
  found : List FoundVault

def CandidateSet.new : CandidateSet := ⟨[], []⟩

/-- The canonical path, or the path itself where there is none. -/
def canonicalizeOr (path : PosixPath) : InitProg PosixPath := do
  match ← fileCall (.canonicalize path) with
  | .error _ => return path
  | .ok canonical => return canonical

def CandidateSet.offer (setting : Setting) (set : CandidateSet) (rule : DiscoveryRule)
    (detail : Option Text) (root : PosixPath) : InitProg CandidateSet := do
  let key ← canonicalizeOr root
  if key.normalized ∈ set.seen then return set
  else do
    let seen := set.seen.insert key.normalized
    match ← probe setting key with
    | .vault root workspaces =>
      return { seen := seen, found := set.found ++ [⟨rule, detail, root, workspaces⟩] }
    | .notAVault => return { set with seen := seen }

/-- The child directories of a directory, sorted. -/
def childDirectories (directory : PosixPath) : InitProg (List PosixPath) := do
  match ← fileCall (.readDir directory) with
  | .error _ => return []
  | .ok entries =>
    let children := (entries.filter fun entry => entry.2 == .directory).map fun entry =>
      directory.join entry.1
    return children.mergeSort fun a b => (compare a b).isLE

end Discovery

end Kaleidoscope
