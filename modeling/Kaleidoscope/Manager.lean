import Kaleidoscope.Discovery
import Kaleidoscope.Lib.Links

/-!
# `init`

Discover an existing vault, adopt it, or create one.  The one destructive request is
`init-profile`: on a root that already is a vault it adds a second workspace.  `create` probes
its root before, without following a link; the engine follows links.

A `World` is what a run meets: the file tree before each of its steps, whether a call of the file
system fails there, and what a request is answered.

    create_on_no_vault     no `init-profile` on a vault, where the probe can see the vaults
-/

namespace Kaleidoscope.Manager

open Prog Disk Discovery

inductive VaultPolicy where
  | auto
  /-- adopt the single candidate, refuse if there are zero or several -/
  | adopt
  /-- create, refuse if the root probes as a vault -/
  | create

structure VaultInit where
  status : Text
  profile : Option Profile
  launch : LaunchDescriptor
  provisionalLaunch : Bool
  discoveredBy : Text
  discoveredDetail : Option Text
  workspaces : Nat
  created : Bool

/-! ## Requests -/

def request (r : Request) : InitProg r.Answer := ask (InitEvent.request r)

section

variable (setting : Setting)

def profileShow (name : Text) : InitProg Profile := do
  ofExcept (validateProfileName name)
  let profile ← ofExcept (← request (.profileShow name))
  ofExcept (profile.validate (some name))
  return profile

def profileList : InitProg ProfileList := do
  let list ← ofExcept (← request .profileList)
  ofExcept list.validate
  return list

def profileLaunch (name : Text) : InitProg LaunchDescriptor := do
  ofExcept (validateProfileName name)
  let descriptor ← ofExcept (← request (.profileLaunch name))
  ofExcept (descriptor.validate setting.engine name)
  return descriptor

def profileImport (name : Text) (root : PosixPath) (durability : Durability) : InitProg Profile := do
  ofExcept (validateProfileName name)
  let profile ← ofExcept (← request (.profileImport name root durability))
  ofExcept (profile.validate (some name))
  return profile

def initProfile (name : Text) (root : PosixPath) (createdAt : Text) (durability : Durability) :
    InitProg InitResult := do
  ofExcept (validateProfileName name)
  let result ← ofExcept (← request (.initProfile name root createdAt durability))
  ofExcept (result.validate setting.engine name)
  return result

def setActiveProfile (profile : Text) : InitProg Unit := do
  match ← request (.setActiveProfile profile) with
  | .error cause => fail (.initManagerStateRecovery profile cause)
  | .ok _ => return ()

def publish (profile : Text) : InitProg LaunchDescriptor := do
  setActiveProfile profile
  profileLaunch setting profile

/-- The descriptor of a profile; a dry run does not make the profile active. -/
def publishUnless (dryRun : Bool) (profile : Text) : InitProg LaunchDescriptor :=
  if dryRun then profileLaunch setting profile else publish setting profile

/-! ## Directories -/

def validateConfigPath (path : PosixPath) : Result Unit :=
  rejectIf (!path.absolute || path.normalized.hasTraversal)
    (.unsafePath "manager configuration" "path must be absolute and traversal-free")

def defaultVaultRoot (profile : Text) : Result PosixPath := do
  validateProfileName profile
  let base ← setting.dataHome
  validateConfigPath base
  return (base.join "vaults".toList).join profile

def canonicalDirectory (path : PosixPath) (target : String) : InitProg PosixPath := do
  failIf (!path.absolute) (.unsafePath target "path is not absolute")
  match ← fileCall (.canonicalize path) with
  | .error kind => fail (.io "canonicalize directory" kind)
  | .ok canonical =>
    match ← fileCall (.symlinkMetadata path) with
    | .error kind => fail (.io "inspect directory" kind)
    | .ok metadata =>
      failIf (metadata.type ≠ .directory)
        (.unsafePath target "selected path is a symlink or not a directory")
      return canonical

def projectRoot (explicit : Option PosixPath) : InitProg PosixPath :=
  match explicit, setting.currentDirectory with
  | some path, _ => canonicalDirectory path "project directory"
  | none, .ok path => canonicalDirectory path "project directory"
  | none, .error kind => fail (.io "resolve project directory" kind)

/-! ## An existing profile -/

def sameCanonical : Except IoKind PosixPath → Except IoKind PosixPath → Bool
  | .ok a, .ok b => a.normalized == b.normalized
  | _, _ => false

/-- An explicit root must be where the existing profile points. -/
def checkSameRoot (profile : Text) (existing : PosixPath) : Option PosixPath → InitProg Unit
  | none => return ()
  | some requested => do
    let a ← fileCall (.canonicalize requested)
    let b ← fileCall (.canonicalize existing)
    failIf (!sameCanonical a b)
      (.profileRootMismatch profile existing.display requested.display)

def reuseExistingProfile (profile : Text) (root : Option PosixPath) (dryRun : Bool) :
    InitProg (Option VaultInit) := do
  match ← (attempt (profileShow profile) : InitProg (Result Profile)) with
  | .error _ => return none
  | .ok existing =>
    checkSameRoot profile existing.root root
    let candidate ← probe setting existing.root
    let launch ← publishUnless setting dryRun profile
    return some
      { status := "already_initialized".toList, profile := some existing, launch,
        provisionalLaunch := false, discoveredBy := "existing profile".toList,
        discoveredDetail := some profile, workspaces := candidate.workspaces, created := false }

/-! ## Discovery -/

/-- Rule 3: the roots of every other registered profile. -/
def offerRegistered (profile : Text) : List Text → CandidateSet → InitProg CandidateSet
  | [], set => return set
  | name :: rest, set =>
    if name = profile then offerRegistered profile rest set
    else do
      match ← (attempt (profileShow name) : InitProg (Result Profile)) with
      | .error _ => offerRegistered profile rest set
      | .ok other => do
        let set ← set.offer setting .registeredProfile (some name) other.root
        offerRegistered profile rest set

def offerProfiles (profile : Text) (set : CandidateSet) : InitProg CandidateSet := do
  match ← (attempt profileList : InitProg (Result ProfileList)) with
  | .error _ => return set
  | .ok list => offerRegistered setting profile list.profiles set

/-- Rule 5: the project-local convention. -/
def offerProject (project : Option PosixPath) (set : CandidateSet) : InitProg CandidateSet := do
  match ← (attempt (projectRoot setting project) : InitProg (Result PosixPath)) with
  | .error _ => return set
  | .ok project => set.offer setting .projectLocal none (project.join ".kaleidoscope".toList)

/-- Rule 6: every immediate child of the user-level vault directory. -/
def offerChildren : List PosixPath → CandidateSet → InitProg CandidateSet
  | [], set => return set
  | child :: rest, set => do
    let set ← set.offer setting .userVaultDirectory none child
    offerChildren rest set

def offerVaults (defaultRoot : PosixPath) (set : CandidateSet) : InitProg CandidateSet :=
  match defaultRoot.parent with
  | none => return set
  | some vaults => do
    let children ← childDirectories vaults
    offerChildren setting children set

/-- Rules 1 and 3 to 6 of the search order. -/
def discover (profile : Text) (root project : Option PosixPath) : InitProg (List FoundVault) :=
  match root with
  | some path => do
    let set ← CandidateSet.new.offer setting .explicitRoot none path
    return set.found
  | none => do
    let set ← offerProfiles setting profile .new
    let defaultRoot ← ofExcept (defaultVaultRoot setting profile)
    let set ← set.offer setting .defaultRoot none defaultRoot
    let set ← offerProject setting project set
    let set ← offerVaults setting defaultRoot set
    return set.found

/-! ## Adopting and creating -/

def adopt (profile : Text) (found : FoundVault) (durability : Durability) :
    InitProg VaultInit := do
  let imported ← profileImport profile found.root durability
  let launch ← publish setting profile
  return { status := "adopted".toList, profile := some imported, launch,
           provisionalLaunch := false, discoveredBy := found.rule.asStr,
           discoveredDetail := found.detail, workspaces := found.workspaces, created := false }

def rootRule (usesDefaultRoot : Bool) : Text :=
  if usesDefaultRoot then "default root".toList else "--root".toList

/-- A root that probes as a vault is refused. -/
def refuseVault (root : PosixPath) : InitProg Unit := do
  match ← probe setting root with
  | .vault _ workspaces => fail (.wouldForkVault root.display workspaces)
  | .notAVault => return ()

/-- The directories above the default root, which a process-local vault may not have yet. -/
def ensureDefaultParent (root : PosixPath) (durability : Durability) (usesDefaultRoot : Bool) :
    InitProg Unit :=
  runIf (usesDefaultRoot = true ∧ durability = .processLocal)
    (do ofExcept (← request (.ensureVaultParentDirectory root)))

/-- Make the new profile active and report its vault. -/
def reportCreated (profile : Text) (usesDefaultRoot : Bool) (initialized : InitResult) :
    InitProg VaultInit := do
  setActiveProfile profile
  let candidate ← probe setting initialized.profile.root
  return { status := "initialized".toList, profile := some initialized.profile,
           launch := initialized.launch, provisionalLaunch := false,
           discoveredBy := rootRule usesDefaultRoot, discoveredDetail := none,
           workspaces := candidate.workspaces, created := true }

def create (profile : Text) (root : PosixPath) (durability : Durability) (usesDefaultRoot : Bool) :
    InitProg VaultInit := do
  refuseVault setting root
  ensureDefaultParent root durability usesDefaultRoot
  let createdAt ← request .now
  let initialized ← initProfile setting profile root createdAt durability
  reportCreated setting profile usesDefaultRoot initialized

/-- What `init` would do, having done nothing. -/
def preview (profile status discoveredBy : Text) (discoveredDetail : Option Text)
    (workspaces : Nat) (created : Bool) : InitProg VaultInit := do
  let launch ← ofExcept (LaunchDescriptor.provisional setting.engine profile)
  return { status, profile := none, launch, provisionalLaunch := true, discoveredBy,
           discoveredDetail, workspaces, created }

def padTo (width : Nat) (text : Text) : Text := text ++ List.replicate (width - text.length) ' '

def candidateLine (found : FoundVault) : Text :=
  let rule := "found via ".toList ++ found.rule.asStr
    ++ found.detail.elim [] fun detail => " '".toList ++ detail ++ "'".toList
  "  ".toList ++ padTo 38 rule ++ [' '] ++ (toString found.workspaces).toList
    ++ " workspace(s)  ".toList ++ found.root.display ++ ['\n']

/-- The refusal of several candidates, which prints each of them. -/
def ambiguousMessage (profile : Text) (candidates : List FoundVault) : Text :=
  ("several Kaleidoscope vaults were found and none of them is the\n"
      ++ "obvious one. Re-run with the one you mean:\n\n").toList
    ++ "  kaleidoscope init --root /abs/path/to/the/vault --profile ".toList ++ profile
    ++ "\n\n".toList ++ candidates.flatMap candidateLine
    ++ "\nNothing was created and nothing was changed.".toList

/-- The root that a creation is for. -/
def targetRoot (profile : Text) (root : Option PosixPath) : Result PosixPath :=
  match root with
  | none => defaultVaultRoot setting profile
  | some path => .ok path

/-- A policy that asks for a new vault, `forced` where the user named it. -/
def createOrPreview (profile : Text) (root : Option PosixPath) (durability : Durability)
    (forced dryRun : Bool) : InitProg VaultInit := do
  let target ← ofExcept (targetRoot setting profile root)
  if dryRun then do
    runIf (forced = true) (refuseVault setting target)
    preview setting profile "would_create".toList (rootRule root.isNone) none 0 true
  else create setting profile target durability root.isNone

def adoptOrPreview (profile : Text) (found : FoundVault) (durability : Durability)
    (dryRun : Bool) : InitProg VaultInit :=
  if dryRun then
    preview setting profile "would_adopt".toList found.rule.asStr found.detail found.workspaces
      false
  else adopt setting profile found durability

/-- What the policy makes of the candidates. -/
def applyPolicy (profile : Text) (root : Option PosixPath) (durability : Durability) (dryRun : Bool) :
    VaultPolicy → List FoundVault → InitProg VaultInit
  | .create, _ => createOrPreview setting profile root durability true dryRun
  | .adopt, [found] | .auto, [found] => adoptOrPreview setting profile found durability dryRun
  | .adopt, candidates =>
    let count := candidates.length
    fail (.usage
      (s!"--adopt requires exactly one discovered vault; {count} were found. "
        ++ "Name the one you mean with --root."))
  | .auto, [] => createOrPreview setting profile root durability false dryRun
  | .auto, candidates => fail (.ambiguousVault (ambiguousMessage profile candidates))

def init (profile : Text) (root : Option PosixPath) (durability : Durability) (policy : VaultPolicy)
    (project : Option PosixPath) (dryRun : Bool) : InitProg VaultInit := do
  ofExcept (validateProfileName profile)
  failIf (root.any fun path => !path.absolute)
    (.unsafePath "vault root" "path must be absolute")
  match ← reuseExistingProfile setting profile root dryRun with
  | some reused => return reused
  | none => do
    let candidates ← discover setting profile root project
    applyPolicy setting profile root durability dryRun policy candidates

end

/-! ## What a run meets -/

structure World where
  /-- the file tree before each step -/
  tree : Nat → Links.Tree
  /-- whether a call of the file system fails at a step -/
  fails : Nat → Bool
  answer : Nat → (r : Request) → r.Answer

def fileType : Links.Entry → FileType
  | .directory => .directory
  | .file _ => .file
  | .link _ => .symlink
  | .special => .special

def byteLength : Links.Entry → Nat
  | .file bytes => bytes.size
  | _ => 0

/-- What a call finds in a tree. -/
def look (t : Links.Tree) : (call : FileCall) → Option call.Value
  | .canonicalize path => t.canonicalize path
  | .symlinkMetadata path => (t.lstat path).map fun entry => ⟨fileType entry, byteLength entry, 0⟩
  | .read path => t.read path
  | .readDir path => (t.readDir path).map fun entries =>
    entries.map fun entry => (entry.1, fileType entry.2)

namespace World

variable (w : World)

def fileAnswer (n : Nat) (call : FileCall) : Except IoKind call.Value :=
  if w.fails n then .error .other
  else match look (w.tree n) call with
    | none => .error .notFound
    | some value => .ok value

/-- The environment of a run; its state is the number of the step. -/
def env (n : Nat) : (e : InitEvent) → e.Answer × Nat
  | .file call => (w.fileAnswer n call, n + 1)
  | .request r => (w.answer n r, n + 1)

end World

section

variable (setting : Setting)

/-- Whether a root, links followed, is the directory of a vault. -/
def isVault (t : Links.Tree) (root : PosixPath) : Bool :=
  (t.stat root).any (fun entry => fileType entry == .directory)
    && (t.read (root.join manifestName)).any (isRootManifest setting)

/-- Whether neither a root nor its manifest is a link, and the manifest is not too long. -/
def isPlain (t : Links.Tree) (root : PosixPath) : Bool :=
  !(t.lstat root).any Links.Entry.isLink
    && !(t.lstat (root.join manifestName)).any Links.Entry.isLink
    && (t.read (root.join manifestName)).all fun bytes => bytes.size ≤ maxManifestBytes

/-- A vault that the probe's calls can see. -/
def Seen (w : World) (n : Nat) (root : PosixPath) : Prop :=
  isVault setting (w.tree n) root = true ∧ w.fails n = false ∧ isPlain (w.tree n) root = true

/-- Before step `m` the root can be seen wherever it is a vault, and nothing makes it one. -/
structure Guarded (w : World) (m : Nat) (root : PosixPath) : Prop where
  seen : ∀ n < m, isVault setting (w.tree n) root = true → Seen setting w n root
  stays : ∀ n < m, isVault setting (w.tree (n + 1)) root = true →
    isVault setting (w.tree n) root = true

/-- An `init-profile` at step `m` is not for a vault, where its root is guarded. -/
def Spares (w : World) (m : Nat) : InitEvent → Prop
  | .request (.initProfile _ target _ _) =>
    Guarded setting w m target → isVault setting (w.tree m) target = false
  | _ => True

variable {setting} {w : World} {n : Nat} {root : PosixPath} {α β : Type}

theorem Guarded.isVault_of_le {m : Nat} (h : Guarded setting w m root) (hle : n ≤ m)
    (hv : isVault setting (w.tree m) root = true) : isVault setting (w.tree n) root = true := by
  induction m with
  | zero =>
    obtain rfl : n = 0 := by omega
    exact hv
  | succ m ih =>
    by_cases hn : n = m + 1
    · rw [hn]
      exact hv
    · have hprev : Guarded setting w m root :=
        ⟨fun k hk => h.seen k (by omega), fun k hk => h.stays k (by omega)⟩
      exact ih hprev (by omega) (h.stays m (by omega) hv)

/-! ## The probe sees what can be seen -/

theorem Seen.rootAnswer (h : Seen setting w n root) :
    w.fileAnswer n (.symlinkMetadata root) = .ok ⟨.directory, 0, 0⟩ := by
  obtain ⟨hvault, hfails, hplain⟩ := h
  unfold isVault at hvault
  unfold isPlain at hplain
  simp only [Bool.and_eq_true, Bool.not_eq_true'] at hvault hplain
  have hstat := Links.lstat_of_stat hplain.1.1
  rw [← hstat] at hvault
  cases hentry : (w.tree n).lstat root with
  | none => simp [hentry] at hvault
  | some entry =>
    rw [hentry] at hvault
    cases entry with
    | directory => simp [World.fileAnswer, hfails, look, hentry, fileType, byteLength]
    | file bytes => simp [fileType] at hvault
    | link target => simp [fileType] at hvault
    | special => simp [fileType] at hvault

theorem Seen.read (h : Seen setting w n root) :
    ∃ bytes, (w.tree n).read (root.join manifestName) = some bytes
      ∧ isRootManifest setting bytes = true ∧ bytes.size ≤ maxManifestBytes := by
  obtain ⟨hvault, _, hplain⟩ := h
  unfold isVault at hvault
  unfold isPlain at hplain
  simp only [Bool.and_eq_true] at hvault hplain
  cases hread : (w.tree n).read (root.join manifestName) with
  | none => simp [hread] at hvault
  | some bytes =>
    rw [hread] at hvault hplain
    exact ⟨bytes, rfl, hvault.2, by simpa using hplain.2⟩

theorem Seen.manifestAnswer (h : Seen setting w n root) :
    ∃ len ≤ maxManifestBytes,
      w.fileAnswer n (.symlinkMetadata (root.join manifestName)) = .ok ⟨.file, len, 0⟩ := by
  obtain ⟨bytes, hread, _, hsize⟩ := h.read
  obtain ⟨_, hfails, hplain⟩ := h
  unfold isPlain at hplain
  simp only [Bool.and_eq_true, Bool.not_eq_true'] at hplain
  refine ⟨bytes.size, hsize, ?_⟩
  have hstat := Links.lstat_of_stat hplain.1.2
  unfold Links.Tree.read at hread
  rw [← hstat] at hread
  split at hread
  next found hfile =>
    cases hread
    simp [World.fileAnswer, hfails, look, hfile, fileType, byteLength]
  next => cases hread

theorem Seen.readAnswer (h : Seen setting w n root) :
    ∃ bytes, w.fileAnswer n (.read (root.join manifestName)) = .ok bytes
      ∧ isRootManifest setting bytes = true := by
  obtain ⟨bytes, hread, hmanifest, _⟩ := h.read
  refine ⟨bytes, ?_, hmanifest⟩
  simp [World.fileAnswer, h.2.1, look, hread]

/-! ## Events that change nothing -/

/-- Whether the engine, or the manager, may change something. -/
def changes : Request → Bool
  | .profileShow _ | .profileList | .profileLaunch _ | .now => false
  | .profileImport _ _ _ | .initProfile _ _ _ _ | .setActiveProfile _
  | .ensureVaultParentDirectory _ => true

/-- An event that only asks. -/
def Quiet : InitEvent → Prop
  | .file _ => True
  | .request r => changes r = false

theorem request_quiet {r : Request} (h : changes r = false) : Only Quiet (request r) :=
  only_ask.mpr h

theorem fileCall_quiet {call : FileCall} : Only Quiet (fileCall call) :=
  only_ask.mpr trivial

theorem countWorkspaces_quiet : Only Quiet (countWorkspaces root) := by
  refine only_bind fileCall_quiet fun answer => ?_
  cases answer <;> trivial

theorem readManifest_quiet : Only Quiet (readManifest setting root) := by
  refine only_bind fileCall_quiet fun answer => ?_
  cases answer with
  | error kind => trivial
  | ok bytes => exact only_ite (only_bind countWorkspaces_quiet fun _ => trivial) trivial

theorem probeManifest_quiet : Only Quiet (probeManifest setting root) := by
  refine only_bind fileCall_quiet fun answer => ?_
  cases answer with
  | error kind => trivial
  | ok metadata => exact only_ite readManifest_quiet trivial

theorem probe_quiet : Only Quiet (probe setting root) := by
  refine only_ite (only_bind fileCall_quiet fun answer => ?_) trivial
  cases answer with
  | error kind => trivial
  | ok metadata => exact only_ite probeManifest_quiet trivial

theorem offer_quiet {set : CandidateSet} {rule : DiscoveryRule} {detail : Option Text} :
    Only Quiet (set.offer setting rule detail root) := by
  refine only_bind (only_bind fileCall_quiet fun answer => ?_) fun key => ?_
  · cases answer <;> trivial
  · refine only_ite trivial (only_bind probe_quiet fun candidate => ?_)
    cases candidate <;> trivial

theorem profileShow_quiet {name : Text} : Only Quiet (profileShow name) :=
  only_ofExcept_bind fun _ _ => only_bind (request_quiet rfl) fun _ =>
    only_ofExcept_bind fun _ _ => only_ofExcept_bind fun _ _ => trivial

theorem profileList_quiet : Only Quiet profileList :=
  only_bind (request_quiet rfl) fun _ =>
    only_ofExcept_bind fun _ _ => only_ofExcept_bind fun _ _ => trivial

theorem profileLaunch_quiet {name : Text} : Only Quiet (profileLaunch setting name) :=
  only_ofExcept_bind fun _ _ => only_bind (request_quiet rfl) fun _ =>
    only_ofExcept_bind fun _ _ => only_ofExcept_bind fun _ _ => trivial

theorem canonicalDirectory_quiet {path : PosixPath} {target : String} :
    Only Quiet (canonicalDirectory path target) := by
  refine only_failIf_bind (only_bind fileCall_quiet fun answer => ?_)
  cases answer with
  | error kind => trivial
  | ok canonical =>
    refine only_bind fileCall_quiet fun answer => ?_
    cases answer with
    | error kind => trivial
    | ok metadata => exact only_failIf_bind trivial

theorem projectRoot_quiet {explicit : Option PosixPath} :
    Only Quiet (projectRoot setting explicit) := by
  unfold projectRoot
  split
  · exact canonicalDirectory_quiet
  · exact canonicalDirectory_quiet
  · trivial

theorem checkSameRoot_quiet {profile : Text} {existing : PosixPath} {root : Option PosixPath} :
    Only Quiet (checkSameRoot profile existing root) := by
  cases root with
  | none => trivial
  | some requested =>
    exact only_bind fileCall_quiet fun _ => only_bind fileCall_quiet fun _ => trivial

theorem refuseVault_quiet : Only Quiet (refuseVault setting root) := by
  refine only_bind probe_quiet fun candidate => ?_
  cases candidate <;> trivial

theorem offerRegistered_quiet {profile : Text} (names : List Text) (set : CandidateSet) :
    Only Quiet (offerRegistered setting profile names set) := by
  induction names generalizing set with
  | nil => trivial
  | cons name rest ih =>
    refine only_ite (ih set) (only_bind (only_attempt profileShow_quiet) fun answer => ?_)
    cases answer with
    | error x => exact ih set
    | ok other => exact only_bind offer_quiet fun set => ih set

theorem offerChildren_quiet (children : List PosixPath) (set : CandidateSet) :
    Only Quiet (offerChildren setting children set) := by
  induction children generalizing set with
  | nil => trivial
  | cons child rest ih => exact only_bind offer_quiet fun set => ih set

theorem offerProfiles_quiet {profile : Text} {set : CandidateSet} :
    Only Quiet (offerProfiles setting profile set) := by
  refine only_bind (only_attempt profileList_quiet) fun answer => ?_
  cases answer with
  | error x => trivial
  | ok list => exact offerRegistered_quiet list.profiles set

theorem offerProject_quiet {project : Option PosixPath} {set : CandidateSet} :
    Only Quiet (offerProject setting project set) := by
  refine only_bind (only_attempt projectRoot_quiet) fun answer => ?_
  cases answer with
  | error x => trivial
  | ok project => exact offer_quiet

theorem offerVaults_quiet {set : CandidateSet} :
    Only Quiet (offerVaults setting root set) := by
  unfold offerVaults
  split
  · trivial
  · refine only_bind (only_bind fileCall_quiet fun answer => ?_) fun children =>
      offerChildren_quiet children set
    cases answer <;> trivial

theorem discover_quiet {profile : Text} {root project : Option PosixPath} :
    Only Quiet (discover setting profile root project) := by
  cases root with
  | some path => exact only_bind offer_quiet fun _ => trivial
  | none =>
    exact only_bind offerProfiles_quiet fun _ => only_ofExcept_bind fun _ _ =>
      only_bind offer_quiet fun _ => only_bind offerProject_quiet fun _ =>
      only_bind offerVaults_quiet fun _ => trivial

/-! ## Events that create nothing -/

/-- Every event but `init-profile`. -/
def Harmless : InitEvent → Prop
  | .request (.initProfile _ _ _ _) => False
  | _ => True

theorem quiet_harmless {p : InitProg α} (hp : Only Quiet p) : Only Harmless p := by
  refine only_mono (fun e h => ?_) hp
  cases e with
  | file call => trivial
  | request r => cases r <;> trivial

theorem request_harmless {r : Request} (h : Harmless (.request r)) : Only Harmless (request r) :=
  only_ask.mpr h

theorem profileImport_harmless {name : Text} {durability : Durability} :
    Only Harmless (profileImport name root durability) :=
  only_ofExcept_bind fun _ _ => only_bind (request_harmless trivial) fun _ =>
    only_ofExcept_bind fun _ _ => only_ofExcept_bind fun _ _ => trivial

theorem setActiveProfile_harmless {profile : Text} :
    Only Harmless (setActiveProfile profile) := by
  refine only_bind (request_harmless trivial) fun answer => ?_
  cases answer <;> trivial

theorem publish_harmless {profile : Text} : Only Harmless (publish setting profile) :=
  only_bind setActiveProfile_harmless fun _ => (quiet_harmless profileLaunch_quiet)

theorem publishUnless_harmless {dryRun : Bool} {profile : Text} :
    Only Harmless (publishUnless setting dryRun profile) :=
  only_ite (quiet_harmless profileLaunch_quiet) publish_harmless

theorem ensureDefaultParent_harmless {durability : Durability} {usesDefaultRoot : Bool} :
    Only Harmless (ensureDefaultParent root durability usesDefaultRoot) :=
  only_runIf (only_bind (request_harmless trivial) fun _ => trivial)

theorem reportCreated_harmless {profile : Text} {usesDefaultRoot : Bool} {result : InitResult} :
    Only Harmless (reportCreated setting profile usesDefaultRoot result) :=
  only_bind setActiveProfile_harmless fun _ => only_bind (quiet_harmless probe_quiet) fun _ => trivial

/-! ## Runs -/

/-- Up to a step there was one at which no vault could be seen at the root. -/
def Missed (setting : Setting) (w : World) (root : PosixPath) (m : Nat) : Prop :=
  ∃ k ≤ m, ¬Seen setting w k root

theorem Missed.mono {m : Nat} (h : Missed setting w root n) (hle : n ≤ m) :
    Missed setting w root m := by
  obtain ⟨k, hk, hseen⟩ := h
  exact ⟨k, by omega, hseen⟩

theorem Missed.spares {name createdAt : Text} {durability : Durability}
    (h : Missed setting w root n) :
    Spares setting w (n + 1) (.request (.initProfile name root createdAt durability)) := by
  intro hguarded
  obtain ⟨k, hk, hseen⟩ := h
  by_contra hvault
  rw [Bool.not_eq_false] at hvault
  have hlt : k < n + 1 := by omega
  exact hseen (hguarded.seen k hlt (hguarded.isVault_of_le hlt.le hvault))

theorem keeps_harmless {p : InitProg α} (hp : Only Harmless p) (n : Nat) :
    Keeps w.env (fun _ _ => True) (Spares setting w) (fun _ m => n ≤ m) p n := by
  apply keeps_of_only (q := Harmless) _ hp (Nat.le_refl n)
  intro m e he hle _
  cases e with
  | file call => exact ⟨trivial, Nat.le_succ_of_le hle⟩
  | request r =>
    constructor
    · cases r <;> trivial
    · exact Nat.le_succ_of_le hle

theorem keeps_fileCall_bind {call : FileCall} {Q : Result β → Nat → Prop}
    {f : Except IoKind call.Value → InitProg β} :
    Keeps w.env (fun _ _ => True) (Spares setting w) Q (fileCall call >>= f) n
      ↔ Keeps w.env (fun _ _ => True) (Spares setting w) Q (f (w.fileAnswer n call)) (n + 1) :=
  ⟨fun h => (h trivial).2, fun h _ => ⟨trivial, h⟩⟩

theorem keeps_missed {p : InitProg α} {r : Result α} (hp : Only Harmless p)
    (h : ¬Seen setting w n root) :
    Keeps w.env (fun _ _ => True) (Spares setting w) (fun r' m => r' = r → Missed setting w root m) p n :=
  keeps_mono (keeps_harmless hp n) fun _ _ hle _ => ⟨n, hle, h⟩

/-- A probe that finds no vault ran at a time when none could be seen. -/
theorem probe_keeps (habsolute : root.absolute = true) (n : Nat) :
    Keeps w.env (fun _ _ => True) (Spares setting w)
      (fun r m => r = .ok .notAVault → Missed setting w root m) (probe setting root) n := by
  -- each of the three calls happens at a step of its own
  by_cases hroot : Seen setting w n root
  case neg => exact keeps_missed (quiet_harmless probe_quiet) hroot
  unfold probe
  rw [if_pos habsolute, keeps_fileCall_bind, hroot.rootAnswer]
  simp only [if_true]
  unfold probeManifest
  by_cases hmanifest : Seen setting w (n + 1) root
  case neg => exact keeps_missed (quiet_harmless probeManifest_quiet) hmanifest
  obtain ⟨len, hlen, hanswer⟩ := hmanifest.manifestAnswer
  rw [keeps_fileCall_bind, hanswer]
  simp only [hlen, true_and, if_true]
  unfold readManifest
  by_cases hread : Seen setting w (n + 2) root
  case neg => exact keeps_missed (quiet_harmless readManifest_quiet) hread
  obtain ⟨bytes, hbytes, hschema⟩ := hread.readAnswer
  rw [keeps_fileCall_bind, hbytes]
  simp only [hschema, if_true]
  refine keeps_bind (keeps_harmless (quiet_harmless countWorkspaces_quiet) _) ?_ ?_
  · intro workspaces m _ h
    cases h
  · intro x m _ h
    cases h

theorem refuseVault_keeps (habsolute : root.absolute = true) (n : Nat) :
    Keeps w.env (fun _ _ => True) (Spares setting w) (fun r m => r = .ok () → Missed setting w root m)
      (refuseVault setting root) n := by
  refine keeps_bind (probe_keeps habsolute n) ?_ ?_
  · intro candidate m h
    cases candidate with
    | notAVault => exact fun _ => h rfl
    | vault found workspaces =>
      intro hr
      cases hr
  · intro x m _ hr
    cases hr

/-- The new vault of a result that says so was made where none could be seen at some time. -/
def FreshAt (setting : Setting) (w : World) (target : PosixPath) (r : Result VaultInit) : Prop :=
  ∀ v, r = .ok v → v.status = "initialized".toList → ∃ k, ¬Seen setting w k target

theorem freshAt_error {x : ManagerError} : FreshAt setting w root (.error x) := by
  intro v h
  cases h

theorem initProfile_keeps {name createdAt : Text} {durability : Durability}
    (h : Spares setting w n (.request (.initProfile name root createdAt durability))) :
    Keeps w.env (fun _ _ => True) (Spares setting w) (fun _ _ => True)
      (initProfile setting name root createdAt durability) n := by
  refine keeps_ofExcept_bind (fun _ _ => ?_) fun _ _ => trivial
  refine keeps_ask_bind.mpr fun _ => ⟨h, ?_⟩
  refine keeps_ofExcept_bind (fun result _ => ?_) fun _ _ => trivial
  exact keeps_ofExcept_bind (fun _ _ => trivial) fun _ _ => trivial

theorem create_keeps {profile : Text} {durability : Durability} {usesDefaultRoot : Bool}
    (habsolute : root.absolute = true) (n : Nat) :
    Keeps w.env (fun _ _ => True) (Spares setting w) (fun r _ => FreshAt setting w root r)
      (create setting profile root durability usesDefaultRoot) n := by
  refine keeps_bind (refuseVault_keeps habsolute n) ?_ fun x _ _ => freshAt_error
  intro _ m hmissed
  replace hmissed := hmissed rfl
  refine keeps_bind (keeps_harmless ensureDefaultParent_harmless m) ?_ fun x _ _ => freshAt_error
  intro _ l hle
  -- asking for the time takes a step, so the request comes after the probe
  refine keeps_ask_bind.mpr fun _ => ⟨trivial, ?_⟩
  have hspares := @Missed.spares setting w l root profile (w.answer l .now) durability
    (hmissed.mono hle)
  refine keeps_bind (initProfile_keeps hspares) ?_ fun x _ _ => freshAt_error
  intro initialized j _
  refine keeps_mono (keeps_harmless reportCreated_harmless j) fun r _ _ v _ _ => ?_
  obtain ⟨k, _, hseen⟩ := hmissed
  exact ⟨k, hseen⟩

/-- A result that does not say that a vault was made. -/
def NotInitialized (r : Result VaultInit) : Prop :=
  ∀ v, r = .ok v → v.status ≠ "initialized".toList

theorem NotInitialized.freshAt {r : Result VaultInit} (h : NotInitialized r) :
    FreshAt setting w root r :=
  fun v hv hstatus => absurd hstatus (h v hv)

theorem notInitialized_error {x : ManagerError} : NotInitialized (.error x) := by
  intro v h
  cases h

theorem preview_keeps {profile status discoveredBy : Text} {detail : Option Text}
    {workspaces : Nat} {created : Bool} (hstatus : status ≠ "initialized".toList) (n : Nat) :
    Keeps w.env (fun _ _ => True) (Spares setting w) (fun r _ => NotInitialized r)
      (preview setting profile status discoveredBy detail workspaces created) n := by
  refine keeps_ofExcept_bind (fun launch _ => ?_) fun _ _ => notInitialized_error
  intro v hv
  cases hv
  exact hstatus

theorem adopt_keeps {profile : Text} {found : FoundVault} {durability : Durability} (n : Nat) :
    Keeps w.env (fun _ _ => True) (Spares setting w) (fun r _ => NotInitialized r)
      (adopt setting profile found durability) n := by
  refine keeps_bind (keeps_harmless profileImport_harmless n) ?_ fun _ _ _ => notInitialized_error
  intro imported m _
  refine keeps_bind (keeps_harmless publish_harmless m) ?_ fun _ _ _ => notInitialized_error
  intro launch l _ v hv
  cases hv
  show "adopted".toList ≠ "initialized".toList
  decide

theorem reuseExistingProfile_keeps {profile : Text} {root : Option PosixPath} {dryRun : Bool} (n : Nat) :
    Keeps w.env (fun _ _ => True) (Spares setting w)
      (fun r _ => ∀ v, r = .ok (some v) → v.status ≠ "initialized".toList)
      (reuseExistingProfile setting profile root dryRun) n := by
  have herror : ∀ (x : ManagerError) (v : VaultInit),
      (.error x : Result (Option VaultInit)) = .ok (some v) → v.status ≠ "initialized".toList := by
    intro x v h
    cases h
  refine keeps_bind (keeps_harmless (quiet_harmless (only_attempt profileShow_quiet)) n) ?_
    fun x _ _ => herror x
  intro answer m _
  cases answer with
  | error x =>
    intro v hv
    cases hv
  | ok existing =>
    refine keeps_bind (keeps_harmless (quiet_harmless checkSameRoot_quiet) m) ?_ fun x _ _ => herror x
    intro _ l _
    refine keeps_bind (keeps_harmless (quiet_harmless probe_quiet) l) ?_ fun x _ _ => herror x
    intro candidate j _
    refine keeps_bind (keeps_harmless publishUnless_harmless j) ?_ fun x _ _ => herror x
    intro launch i _ v hv
    cases hv
    show "already_initialized".toList ≠ "initialized".toList
    decide

theorem targetRoot_absolute {profile : Text} {root : Option PosixPath} {target : PosixPath}
    (hroot : ¬(root.any fun path => !path.absolute) = true)
    (h : targetRoot setting profile root = .ok target) : target.absolute = true := by
  cases root with
  | some path =>
    cases h
    simpa using hroot
  | none =>
    obtain ⟨_, _, h⟩ := except_bind_eq_ok.mp h
    obtain ⟨base, _, h⟩ := except_bind_eq_ok.mp h
    obtain ⟨_, hbase, h⟩ := except_bind_eq_ok.mp h
    cases h
    have hnot := rejectIf_eq_ok.mp hbase
    simp only [Bool.or_eq_true, Bool.not_eq_true'] at hnot
    simpa [PosixPath.join] using fun habsolute => hnot (.inl habsolute)

/-- What `init` leaves: no new vault unless none could be seen at its root at some time. -/
def Fresh (setting : Setting) (w : World) (profile : Text) (root : Option PosixPath)
    (r : Result VaultInit) : Prop :=
  ∀ target, targetRoot setting profile root = .ok target → FreshAt setting w target r

theorem createOrPreview_keeps {profile : Text} {root : Option PosixPath} {durability : Durability}
    {forced dryRun : Bool} (hroot : ¬(root.any fun path => !path.absolute) = true) (n : Nat) :
    Keeps w.env (fun _ _ => True) (Spares setting w) (fun r _ => Fresh setting w profile root r)
      (createOrPreview setting profile root durability forced dryRun) n := by
  refine keeps_ofExcept_bind (fun target htarget => ?_) fun _ _ _ _ => freshAt_error
  by_cases hdry : dryRun = true
  · rw [if_pos hdry]
    refine keeps_bind (keeps_harmless (quiet_harmless (only_runIf refuseVault_quiet)) n) ?_
      fun _ _ _ _ _ => freshAt_error
    intro _ m _
    refine keeps_mono (preview_keeps ?_ m) fun r _ h _ _ => h.freshAt
    decide
  · rw [if_neg hdry]
    refine keeps_mono (create_keeps (targetRoot_absolute hroot htarget) n) fun r _ h t ht => ?_
    rw [htarget] at ht
    cases ht
    exact h

theorem adoptOrPreview_keeps {profile : Text} {found : FoundVault} {durability : Durability}
    {dryRun : Bool} (n : Nat) :
    Keeps w.env (fun _ _ => True) (Spares setting w) (fun r _ => NotInitialized r)
      (adoptOrPreview setting profile found durability dryRun) n := by
  unfold adoptOrPreview
  by_cases hdry : dryRun = true
  · rw [if_pos hdry]
    exact preview_keeps (by decide) n
  · rw [if_neg hdry]
    exact adopt_keeps n

theorem applyPolicy_keeps {profile : Text} {root : Option PosixPath} {durability : Durability}
    {dryRun : Bool} (hroot : ¬(root.any fun path => !path.absolute) = true)
    (policy : VaultPolicy) (candidates : List FoundVault) (n : Nat) :
    Keeps w.env (fun _ _ => True) (Spares setting w) (fun r _ => Fresh setting w profile root r)
      (applyPolicy setting profile root durability dryRun policy candidates) n := by
  unfold applyPolicy
  split
  · exact createOrPreview_keeps hroot n
  · exact keeps_mono (adoptOrPreview_keeps n) fun r _ h _ _ => h.freshAt
  · exact keeps_mono (adoptOrPreview_keeps n) fun r _ h _ _ => h.freshAt
  · exact fun _ _ => freshAt_error
  · exact createOrPreview_keeps hroot n
  · exact fun _ _ => freshAt_error

theorem init_keeps {profile : Text} {root project : Option PosixPath} {durability : Durability}
    {policy : VaultPolicy} {dryRun : Bool} (n : Nat) :
    Keeps w.env (fun _ _ => True) (Spares setting w) (fun r _ => Fresh setting w profile root r)
      (init setting profile root durability policy project dryRun) n := by
  refine keeps_ofExcept_bind (fun _ _ => ?_) fun _ _ _ _ => freshAt_error
  refine keeps_failIf_bind (fun hroot => ?_) fun _ _ _ => freshAt_error
  refine keeps_bind (reuseExistingProfile_keeps n) ?_ fun _ _ _ _ _ => freshAt_error
  intro reused m hreused
  cases reused with
  | some v =>
    intro _ _ v' hv'
    cases hv'
    exact fun hstatus => absurd hstatus (hreused v rfl)
  | none =>
    refine keeps_bind (keeps_harmless (quiet_harmless discover_quiet) m) ?_ fun _ _ _ _ _ => freshAt_error
    exact fun candidates l _ => applyPolicy_keeps hroot policy candidates l

/-- A root for which `init-profile` is called is no vault, where it is guarded until the call; and
a root whose vault can be seen all along gets no new one. -/
theorem create_on_no_vault (profile : Text) (root project : Option PosixPath) (durability : Durability)
    (policy : VaultPolicy) (dryRun : Bool) :
    (∀ (m : Nat) (name target createdAt durability'),
      (m, InitEvent.request (.initProfile name target createdAt durability'))
          ∈ calls w.env (init setting profile root durability policy project dryRun) 0 →
        Guarded setting w m target → isVault setting (w.tree m) target = false)
      ∧ ∀ (v : VaultInit) (m : Nat) (target : PosixPath),
        run w.env (init setting profile root durability policy project dryRun) 0
            = some (.ok v, m) →
          v.status = "initialized".toList →
          targetRoot setting profile root = .ok target → ∃ k, ¬Seen setting w k target := by
  have hkeeps := @init_keeps setting w profile root project durability policy dryRun 0
  constructor
  · intro m name target createdAt durability' hcall
    exact keeps_calls hkeeps (fun _ _ => trivial) _ hcall
  · intro v m target hrun hstatus htarget
    exact keeps_run hkeeps (fun _ _ => trivial) hrun target htarget v rfl hstatus

end

/-! ## A vault behind a link -/

def sampleManifest : Bytes :=
  Text.asciiBytes "\x7b\"schema_name\":\"filesystem.root-manifest\"\x7d".toList

def sampleSetting : Setting :=
  { engine := PosixPath.root.join "kscope".toList
    dataHome := .ok (PosixPath.root.join "data".toList)
    currentDirectory := .ok .root
    fromSlice := fun bytes =>
      if bytes = sampleManifest then
        some (.object [("schema_name".toList, .string rootManifestSchema)])
      else none }

/-- A vault at `/vault`, and the link `/link` to it. -/
def sampleTree : Links.Tree :=
  { entries :=
      [(["vault".toList], .directory),
        (["vault".toList, manifestName], .file sampleManifest),
        (["link".toList], .link (PosixPath.root.join "vault".toList))]
    workingDirectory := [] }

def sampleName : Text := "default".toList

def sampleResult (root : PosixPath) : InitResult :=
  { version := 1
    status := "initialized".toList
    profile :=
      { version := profileVersion, name := sampleName, root, workspaceId := "wsp_new".toList,
        principalId := "usr_new".toList, journal := "journal:new".toList,
        durability := .durableLocal }
    launch :=
      { version := launchDescriptorVersion, transport := "stdio".toList,
        command := sampleSetting.engine, args := LaunchDescriptor.launchArgs sampleName,
        tools := publicTools, environment := [] } }

/-- The engine knows no profile and makes the one that it is asked for. -/
def sampleAnswer : (r : Request) → r.Answer
  | .profileShow _ => .error .invalidProfileName
  | .profileList => .error .invalidProfileName
  | .profileLaunch _ => .error .invalidProfileName
  | .profileImport _ _ _ => .error .invalidProfileName
  | .initProfile _ root _ _ => .ok (sampleResult root)
  | .setActiveProfile _ => .ok ()
  | .ensureVaultParentDirectory _ => .ok ()
  | .now => "2026-01-01T00:00:00Z".toList

def sampleWorld : World :=
  { tree := fun _ => sampleTree, fails := fun _ => false, answer := fun _ => sampleAnswer }

/-- `init --create --root <root>`. -/
def sampleInit (root : PosixPath) : InitProg VaultInit :=
  init sampleSetting sampleName (some root) .durableLocal .create none false

/-- The step and the root of a request to create. -/
def initCall : Nat × InitEvent → Option (Nat × PosixPath)
  | (m, .request (.initProfile _ root _ _)) => some (m, root)
  | _ => none

theorem exists_call {w : World} {p : InitProg VaultInit} {m : Nat} {root : PosixPath}
    (h : (m, root) ∈ (calls w.env p 0).filterMap initCall) :
    ∃ name createdAt durability,
      (m, InitEvent.request (.initProfile name root createdAt durability)) ∈ calls w.env p 0 := by
  obtain ⟨call, hmem, hcall⟩ := List.mem_filterMap.mp h
  unfold initCall at hcall
  split at hcall
  next name root' createdAt durability =>
    cases hcall
    exact ⟨name, createdAt, durability, hmem⟩
  next => cases hcall

def freshRoot : PosixPath := PosixPath.root.join "fresh".toList

def statusOf : Option (Result VaultInit × Nat) → Option Text
  | some (.ok v, _) => some v.status
  | _ => none

theorem exists_run {o : Option (Result VaultInit × Nat)} {status : Text}
    (h : statusOf o = some status) : ∃ v m, o = some (.ok v, m) ∧ v.status = status := by
  unfold statusOf at h
  split at h
  next v m =>
    cases h
    exact ⟨v, m, rfl, rfl⟩
  next => cases h

theorem create_on_no_vault_fresh :
    isVault sampleSetting sampleTree freshRoot = false
      ∧ ∃ k, ¬Seen sampleSetting sampleWorld k freshRoot := by
  have hnone : isVault sampleSetting sampleTree freshRoot = false := by decide +kernel
  have hguarded : Guarded sampleSetting sampleWorld 5 freshRoot := by
    constructor
    · intro n _ h
      rw [show sampleWorld.tree n = sampleTree from rfl, hnone] at h
      cases h
    · intro n _ h
      exact h
  have hcalls : (5, freshRoot)
      ∈ (calls sampleWorld.env (sampleInit freshRoot) 0).filterMap initCall := by
    decide +kernel
  have hstatus : statusOf (run sampleWorld.env (sampleInit freshRoot) 0)
      = some "initialized".toList := by
    decide +kernel
  obtain ⟨name, createdAt, durability, hcall⟩ := exists_call hcalls
  obtain ⟨v, m, hrun, hv⟩ := exists_run hstatus
  have hall := @create_on_no_vault sampleSetting sampleWorld sampleName (some freshRoot) none
    .durableLocal .create false
  exact ⟨hall.1 5 name freshRoot createdAt durability hcall hguarded,
    hall.2 v m freshRoot hrun hv rfl⟩

def linkRoot : PosixPath := PosixPath.root.join "link".toList

/-- `/link` leads to a vault, and `init --create --root /link` asks for a new vault there. -/
theorem link_forks_vault : ∃ (m : Nat) (name createdAt : Text) (durability : Durability),
    (m, InitEvent.request (.initProfile name linkRoot createdAt durability))
        ∈ calls sampleWorld.env (sampleInit linkRoot) 0
      ∧ isVault sampleSetting (sampleWorld.tree m) linkRoot = true := by
  have hvault : isVault sampleSetting sampleTree linkRoot = true := by decide +kernel
  have hcalls : (8, linkRoot)
      ∈ (calls sampleWorld.env (sampleInit linkRoot) 0).filterMap initCall := by
    decide +kernel
  obtain ⟨name, createdAt, durability, hcall⟩ := exists_call hcalls
  exact ⟨8, name, createdAt, durability, hcall, hvault⟩

end Kaleidoscope.Manager
