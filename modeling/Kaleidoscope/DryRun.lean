import Kaleidoscope.FsSafe
import Kaleidoscope.InitChoice

/-!
# The dry run of `init`

`init` decides twice: a dry run says what would happen, and a real run does it.  Some checks are
made only by the real run, in `create`.

    dry_run_predicts_iff    the dry run says what the real run does, and refuses what it refuses,
                            exactly where the directories above a new default root can be had
-/

namespace Kaleidoscope.Manager

open Prog Disk Discovery

/-! ## The directories above a vault -/

/-- One turn of `ensure_vault_parent_directory`, in a tree that stays as it is; `create` is what
comes of creating a directory that is missing. -/
def ensureAncestor (t : Links.Tree) (create : PosixPath → Result Unit) (cursor : PosixPath) :
    Result Unit :=
  match t.lstat cursor with
  | some (.link _) => .error (.unsafePath "vault root parent" "an ancestor is a symlink")
  | some .directory => .ok ()
  | some _ => .error (.unsafePath "vault root parent" "an ancestor is not a directory")
  | none => create cursor

/-- `ensure_vault_parent_directory`, whose loop goes over the path as it is compared. -/
def ensureVaultParent (t : Links.Tree) (create : PosixPath → Result Unit) (path : PosixPath) :
    Result Unit := do
  validateAbsolutePath path.normalized "vault root"
  rejectIf path.normalized.parent.isNone (.unsafePath "vault root" "path has no parent")
  path.normalized.ancestors.forM (ensureAncestor t create)

/-- Surroundings with the manager's own request, which makes sure of the directories above a root,
and an engine whose path is absolute, as its constructor makes it. -/
structure Grounds (setting : Setting) (σ : Type) extends Surroundings σ where
  engine : setting.engine.absolute = true
  create : σ → PosixPath → Result Unit
  create_after : ∀ s r, changes r = false → create (after s r) = create s
  ensures : ∀ s root, answer s (.ensureVaultParentDirectory root)
    = ensureVaultParent (tree s) (create s) root

/-! ## Statement -/

section

variable {σ : Type} (w : Surroundings σ)

/-- The program makes the request in its run. -/
def Issues {α : Type} (p : InitProg α) (s : σ) (r : Request) : Prop :=
  ∃ s', (s', InitEvent.request r) ∈ calls w.env p s

/-- The program ends with an error, and has asked nobody to change anything: the directories above
a vault are the only thing that it may have seen to itself. -/
structure Refused (p : InitProg VaultInit) (s : σ) (x : ManagerError) : Prop where
  ends : ∃ s', run w.env p s = some (.error x, s')
  idle : ∀ r, Issues w p s r → changes r = true → ∃ root, r = .ensureVaultParentDirectory root

/-- The program ends with a report of this status. -/
def Reports (p : InitProg VaultInit) (s : σ) (status : String) : Prop :=
  ∃ v s', run w.env p s = some (.ok v, s') ∧ v.status = status.toList

/-- A dry run says what a real run does. -/
structure Predicts (profile : Text) (target : Result PosixPath) (durability : Durability)
    (dry real : InitProg VaultInit) (s : σ) : Prop where
  creates : Reports w dry s "would_create"
    ↔ ∃ root createdAt, target = .ok root
      ∧ Issues w real s (.initProfile profile root createdAt durability)
  adopts : Reports w dry s "would_adopt"
    ↔ ∃ root, Issues w real s (.profileImport profile root durability)
  refuses : ∀ x, Refused w real s x → ∃ s', run w.env dry s = some (.error x, s')

/-- The dry run of `init` changes nothing and says what its real run does. -/
structure DryRunPredicts (setting : Setting) (s : σ) (profile : Text) (root project : Option PosixPath)
    (durability : Durability) (policy : VaultPolicy) : Prop where
  quiet : ∀ r, Issues w (init setting profile root durability policy project true) s r →
    changes r = false
  predicts : Predicts w profile (targetRoot setting profile root) durability
    (init setting profile root durability policy project true)
    (init setting profile root durability policy project false) s

/-- There is no profile of the name, the policy asks for a new vault at this root, and there is
none. -/
structure ComesToMake (setting : Setting) (s : σ) (profile : Text) (root project : Option PosixPath)
    (policy : VaultPolicy) (target : PosixPath) : Prop where
  searched : ∃ candidates s', Searched setting w s profile root project candidates s'
    ∧ (policy = .create ∨ policy = .auto ∧ candidates = [])
  isTarget : targetRoot setting profile root = .ok target
  free : ¬Holds setting (w.tree s) target

end

/-- A directory, or nothing where a directory can be made. -/
def Usable (t : Links.Tree) (create : PosixPath → Result Unit) (cursor : PosixPath) : Prop :=
  t.lstat cursor = some .directory ∨ t.lstat cursor = none ∧ create cursor = .ok ()

/-- Above a new default root that is not to last there are directories, or they can be made. -/
def Ready {setting : Setting} {σ : Type} (w : Grounds setting σ) (s : σ) (profile : Text)
    (root project : Option PosixPath) (durability : Durability) (policy : VaultPolicy) : Prop :=
  root = none → durability = .processLocal → ∀ target,
    ComesToMake w.toSurroundings setting s profile root project policy target →
    ∀ cursor ∈ target.normalized.ancestors, Usable (w.tree s) (w.create s) cursor

/-! ## The directories can be had -/

section

variable {t : Links.Tree} {create : PosixPath → Result Unit}

theorem ensureAncestor_ok_iff {cursor : PosixPath} :
    ensureAncestor t create cursor = .ok () ↔ Usable t create cursor := by
  unfold ensureAncestor Usable
  cases hentry : t.lstat cursor with
  | none => simp
  | some entry => cases entry <;> simp

theorem forM_ok_iff {α : Type} {f : α → Result Unit} {l : List α} :
    l.forM f = .ok () ↔ ∀ a ∈ l, f a = .ok () := by
  induction l with
  | nil => simp [pure, Except.pure]
  | cons a l ih =>
    rw [List.forall_mem_cons, ← ih]
    refine (except_bind_eq_ok (r := f a) (f := fun _ => l.forM f)).trans ?_
    exact ⟨fun ⟨_, h, h'⟩ => ⟨h, h'⟩, fun ⟨h, h'⟩ => ⟨(), h, h'⟩⟩

/-- The default root is absolute, without traversal, and not the root of the tree. -/
theorem defaultVaultRoot_valid {setting : Setting} {profile : Text} {root : PosixPath}
    (h : defaultVaultRoot setting profile = .ok root) :
    validateAbsolutePath root.normalized "vault root" = .ok ()
      ∧ root.normalized.parent.isNone = false := by
  obtain ⟨_, _, h⟩ := except_bind_eq_ok.mp h
  obtain ⟨base, _, h⟩ := except_bind_eq_ok.mp h
  obtain ⟨_, hbase, h⟩ := except_bind_eq_ok.mp h
  cases h
  have hnot := rejectIf_eq_ok.mp hbase
  simp only [Bool.or_eq_true, Bool.not_eq_true', not_or, Bool.not_eq_false,
    Bool.not_eq_true] at hnot
  obtain ⟨habsolute, htraversal⟩ := hnot
  have hroot : ((base.join "vaults".toList).join profile).normalized
      = (base.normalized.join "vaults".toList).join profile := by
    obtain ⟨absolute, components⟩ := base
    subst habsolute
    simp [PosixPath.normalized, PosixPath.join]
  have hnormal : base.normalized.absolute = true := by
    obtain ⟨absolute, components⟩ := base
    subst habsolute
    rfl
  rw [hroot]
  refine ⟨validateAbsolutePath_of hnormal ?_, by rw [PosixPath.parent_join]; rfl⟩
  simpa [PosixPath.hasTraversal, PosixPath.join] using htraversal

theorem ensureVaultParent_ok_iff {setting : Setting} {profile : Text} {root : PosixPath}
    (h : defaultVaultRoot setting profile = .ok root) :
    ensureVaultParent t create root = .ok ()
      ↔ ∀ cursor ∈ root.normalized.ancestors, Usable t create cursor := by
  obtain ⟨hvalid, hparent⟩ := defaultVaultRoot_valid h
  unfold ensureVaultParent
  rw [hvalid, hparent]
  refine forM_ok_iff.trans ?_
  simp only [ensureAncestor_ok_iff]

end

/-! ## Requests of a run -/

section

variable {σ α β : Type} {w : Surroundings σ} {s s' s₁ : σ} {r : Request}

/-- The program asks nobody to change anything. -/
def Idle (w : Surroundings σ) (p : InitProg α) (s : σ) : Prop :=
  ∀ r, changes r = true → ¬Issues w p s r

theorem idle_of_quiet {p : InitProg α} (hp : Only Quiet p) : Idle w p s := by
  rintro r hr ⟨s', h⟩
  have hquiet : changes r = false := (run_of_only hp s).2 _ h
  rw [hr] at hquiet
  cases hquiet

theorem issues_of_only {q : InitEvent → Prop} {p : InitProg α} (hp : Only q p)
    (h : Issues w p s r) : q (.request r) :=
  (run_of_only hp s).2 _ h.choose_spec

theorem issues_request {f : r.Answer → InitProg α} : Issues w (request r >>= f) s r :=
  ⟨s, List.mem_cons_self⟩

theorem issues_bind {p : InitProg α} {f : α → InitProg β} {a : α} (hp : Idle w p s)
    (hrun : run w.env p s = some (.ok a, s₁)) (hr : changes r = true) :
    Issues w (p >>= f) s r ↔ Issues w (f a) s₁ r := by
  unfold Issues
  rw [calls_bind_ok hrun]
  constructor
  · rintro ⟨s', h⟩
    rcases List.mem_append.mp h with h | h
    · exact absurd ⟨s', h⟩ (hp r hr)
    · exact ⟨s', h⟩
  · rintro ⟨s', h⟩
    exact ⟨s', List.mem_append_right _ h⟩

theorem idle_bind_error {p : InitProg α} {f : α → InitProg β} {x : ManagerError}
    (hp : Idle w p s) (hrun : run w.env p s = some (.error x, s₁)) : Idle w (p >>= f) s := by
  rintro r hr ⟨s', h⟩
  rcases mem_calls_bind h with h | ⟨a, s₂, hok, _⟩
  · exact hp r hr ⟨s', h⟩
  · rw [hrun] at hok
    cases hok

/-! ## A prediction and its parts -/

variable {profile : Text} {target : Result PosixPath} {durability : Durability}
  {dry real dry' real' : InitProg VaultInit}

theorem Predicts.congr (h : Predicts w profile target durability dry real s)
    (hdry : run w.env dry s = run w.env dry' s') (hreal : run w.env real s = run w.env real' s')
    (hissues : ∀ r, changes r = true → (Issues w real s r ↔ Issues w real' s' r)) :
    Predicts w profile target durability dry' real' s' := by
  have hreports : ∀ status, Reports w dry' s' status ↔ Reports w dry s status := by
    intro status
    unfold Reports
    rw [hdry]
  have hcreate : ∀ root createdAt, Issues w real' s' (.initProfile profile root createdAt durability)
      ↔ Issues w real s (.initProfile profile root createdAt durability) :=
    fun _ _ => (hissues _ rfl).symm
  have himport : ∀ root, Issues w real' s' (.profileImport profile root durability)
      ↔ Issues w real s (.profileImport profile root durability) := fun _ => (hissues _ rfl).symm
  refine ⟨?_, ?_, fun x hx => ?_⟩
  · simp only [hreports, hcreate]
    exact h.creates
  · simp only [hreports, himport]
    exact h.adopts
  · rw [← hdry]
    refine h.refuses x ⟨hreal ▸ hx.ends, fun r hr hc => ?_⟩
    exact hx.idle r ((hissues r hc).mp hr) hc

theorem predicts_congr (hdry : run w.env dry s = run w.env dry' s')
    (hreal : run w.env real s = run w.env real' s')
    (hissues : ∀ r, changes r = true → (Issues w real s r ↔ Issues w real' s' r)) :
    Predicts w profile target durability dry real s
      ↔ Predicts w profile target durability dry' real' s' :=
  ⟨fun h => h.congr hdry hreal hissues,
    fun h => h.congr hdry.symm hreal.symm fun r hr => (hissues r hr).symm⟩

/-- A quiet part that both programs start with. -/
theorem predicts_bind {q : InitProg α} {f g : α → InitProg VaultInit} {a : α} (hq : Only Quiet q)
    (hrun : run w.env q s = some (.ok a, s₁)) :
    Predicts w profile target durability (q >>= f) (q >>= g) s
      ↔ Predicts w profile target durability (f a) (g a) s₁ :=
  predicts_congr (run_bind_ok hrun) (run_bind_ok hrun) fun _ hr =>
    issues_bind (idle_of_quiet hq) hrun hr

/-- Both refuse with one error. -/
theorem predicts_of_refusal {x : ManagerError} (hdry : run w.env dry s = some (.error x, s₁))
    (hreal : run w.env real s = some (.error x, s₁)) (hidle : Idle w real s) :
    Predicts w profile target durability dry real s := by
  refine ⟨iff_of_false ?_ ?_, iff_of_false ?_ ?_, fun y hy => ?_⟩
  · rintro ⟨v, s', h, _⟩
    rw [hdry] at h
    cases h
  · rintro ⟨root, createdAt, _, h⟩
    exact hidle _ rfl h
  · rintro ⟨v, s', h, _⟩
    rw [hdry] at h
    cases h
  · rintro ⟨root, h⟩
    exact hidle _ rfl h
  · obtain ⟨s', h⟩ := hy.ends
    rw [hreal] at h
    cases h
    exact ⟨s₁, hdry⟩

theorem predicts_bind_error {q : InitProg α} {f g : α → InitProg VaultInit} {x : ManagerError}
    (hq : Only Quiet q) (hrun : run w.env q s = some (.error x, s₁)) :
    Predicts w profile target durability (q >>= f) (q >>= g) s :=
  predicts_of_refusal (run_bind_error hrun) (run_bind_error hrun)
    (idle_bind_error (idle_of_quiet hq) hrun)

theorem issues_of_run {p : InitProg α} {f : α → InitProg β} {a : α}
    (hrun : run w.env p s = some (.ok a, s₁)) (h : Issues w (f a) s₁ r) :
    Issues w (p >>= f) s r := by
  obtain ⟨s', h⟩ := h
  refine ⟨s', ?_⟩
  rw [calls_bind_ok hrun]
  exact List.mem_append_right _ h

theorem issues_left {p : InitProg α} {f : α → InitProg β} (h : Issues w p s r) :
    Issues w (p >>= f) s r := by
  obtain ⟨s', h⟩ := h
  exact ⟨s', calls_bind_left h⟩

theorem Idle.bind {p : InitProg α} {f : α → InitProg β} {a : α} (hp : Idle w p s)
    (hrun : run w.env p s = some (.ok a, s₁)) (hf : Idle w (f a) s₁) : Idle w (p >>= f) s :=
  fun r hr h => hf r hr ((issues_bind hp hrun hr).mp h)

/-! ## What is planned and what is done -/

variable {setting : Setting} {root : Option PosixPath}

/-- A program that asks for a new vault where the dry run says that it would. -/
theorem predicts_of_creates {v : VaultInit} {place : PosixPath} {createdAt : Text}
    (hdry : run w.env dry s = some (.ok v, s₁)) (hstatus : v.status = "would_create".toList)
    (htarget : target = .ok place)
    (hmakes : Issues w real s (.initProfile profile place createdAt durability))
    (hkeeps : ∀ found, ¬Issues w real s (.profileImport profile found durability)) :
    Predicts w profile target durability dry real s := by
  refine ⟨iff_of_true ⟨v, s₁, hdry, hstatus⟩ ⟨place, createdAt, htarget, hmakes⟩,
    iff_of_false ?_ ?_, fun x hx => ?_⟩
  · rintro ⟨v', s', hdry', hstatus'⟩
    rw [hdry] at hdry'
    cases hdry'
    rw [hstatus] at hstatus'
    exact absurd hstatus' (by decide)
  · rintro ⟨found, hfound⟩
    exact hkeeps found hfound
  · obtain ⟨_, h⟩ := hx.idle _ hmakes rfl
    cases h

/-- A program that adopts a vault where the dry run says that it would. -/
theorem predicts_of_adopts {v : VaultInit} {found : PosixPath}
    (hdry : run w.env dry s = some (.ok v, s₁)) (hstatus : v.status = "would_adopt".toList)
    (hadopts : Issues w real s (.profileImport profile found durability))
    (hreal : Only Harmless real) : Predicts w profile target durability dry real s := by
  refine ⟨iff_of_false ?_ ?_, iff_of_true ⟨v, s₁, hdry, hstatus⟩ ⟨found, hadopts⟩, fun x hx => ?_⟩
  · rintro ⟨v', s', hdry', hstatus'⟩
    rw [hdry] at hdry'
    cases hdry'
    rw [hstatus] at hstatus'
    exact absurd hstatus' (by decide)
  · rintro ⟨place, createdAt, _, h⟩
    exact issues_of_only hreal h
  · obtain ⟨_, h⟩ := hx.idle _ hadopts rfl
    cases h

theorem run_preview {status discoveredBy : Text} {detail : Option Text} {workspaces : Nat}
    {created : Bool} (hname : validateProfileName profile = .ok ())
    (hengine : setting.engine.absolute = true) :
    ∃ v, run w.env (preview setting profile status discoveredBy detail workspaces created) s
        = some (.ok v, s) ∧ v.status = status := by
  unfold preview LaunchDescriptor.provisional rejectIf
  rw [hname, if_neg (by rw [hengine]; decide)]
  exact ⟨_, rfl, rfl⟩

theorem adopt_harmless {found : FoundVault} :
    Only Harmless (adopt setting profile found durability) :=
  only_bind profileImport_harmless fun _ => only_bind publish_harmless fun _ => trivial

theorem predicts_adopt (hname : validateProfileName profile = .ok ())
    (hengine : setting.engine.absolute = true) (found : FoundVault) :
    Predicts w profile target durability (adoptOrPreview setting profile found durability true)
      (adoptOrPreview setting profile found durability false) s := by
  obtain ⟨v, hdry, hstatus⟩ := @run_preview _ w s profile setting "would_adopt".toList
    found.rule.asStr found.detail found.workspaces false hname hengine
  have hadopts : Issues w (adopt setting profile found durability) s
      (.profileImport profile found.root durability) := by
    refine issues_left ?_
    unfold profileImport
    rw [hname]
    exact issues_request
  exact predicts_of_adopts hdry hstatus hadopts adopt_harmless

/-- The directories above the vault are asked for where they are needed, and can be had. -/
def Had (w : Surroundings σ) (s : σ) (place : PosixPath) (durability : Durability)
    (usesDefaultRoot : Bool) : Prop :=
  usesDefaultRoot = true → durability = .processLocal →
    w.answer s (.ensureVaultParentDirectory place) = .ok ()

/-- What a creation may ask. -/
def Creating : InitEvent → Prop
  | .request (.profileImport _ _ _) => False
  | _ => True

theorem quiet_creating {p : InitProg α} (hp : Only Quiet p) : Only Creating p := by
  refine only_mono (fun e h => ?_) hp
  cases e with
  | file call => trivial
  | request r =>
    cases r with
    | profileImport name root durability => exact absurd (show (true = false) from h) (by decide)
    | _ => trivial

theorem create_creating {place : PosixPath} {usesDefaultRoot : Bool} :
    Only Creating (create setting profile place durability usesDefaultRoot) := by
  refine only_bind (quiet_creating refuseVault_quiet) fun _ => ?_
  refine only_bind (only_runIf (only_bind (only_ask.mpr trivial) fun _ => trivial)) fun _ => ?_
  refine only_bind (only_ask.mpr trivial) fun createdAt => ?_
  refine only_bind (only_ofExcept_bind fun _ _ => only_bind (only_ask.mpr trivial) fun _ =>
    only_ofExcept_bind fun _ _ => only_ofExcept_bind fun _ _ => trivial) fun initialized => ?_
  refine only_bind (only_bind (only_ask.mpr trivial) fun answer => ?_) fun _ => ?_
  · cases answer <;> trivial
  · exact only_bind (quiet_creating probe_quiet) fun _ => trivial

theorem run_refuseVault {place : PosixPath} (hfree : ¬Holds setting (w.tree s) place) :
    run w.env (refuseVault setting place) s = some (.ok (), s) := by
  unfold refuseVault
  rw [run_bind_ok (run_probe_none fun h => hfree h.2)]
  rfl

/-- With the directories a creation gets as far as the engine. -/
theorem create_issues {place : PosixPath} {usesDefaultRoot : Bool}
    (hname : validateProfileName profile = .ok ()) (hfree : ¬Holds setting (w.tree s) place)
    (hhad : Had w s place durability usesDefaultRoot) :
    ∃ createdAt, Issues w (create setting profile place durability usesDefaultRoot) s
      (.initProfile profile place createdAt durability) := by
  have hensure : ∃ s₂, run w.env (ensureDefaultParent place durability usesDefaultRoot) s
      = some (.ok (), s₂) := by
    unfold ensureDefaultParent runIf
    split
    next h =>
      refine ⟨w.after s (.ensureVaultParentDirectory place), ?_⟩
      show some (w.answer s (.ensureVaultParentDirectory place), _) = _
      rw [hhad h.1 h.2]
      rfl
    next => exact ⟨s, rfl⟩
  obtain ⟨s₂, hensure⟩ := hensure
  refine ⟨w.answer s₂ .now, ?_⟩
  refine issues_of_run (run_refuseVault hfree) (issues_of_run hensure ?_)
  refine issues_of_run (show run w.env (request .now) s₂ = _ from rfl) (issues_left ?_)
  unfold initProfile
  rw [hname]
  exact issues_request

/-- Without the directories a creation is refused. -/
theorem create_refused {place : PosixPath} {usesDefaultRoot : Bool}
    (hfree : ¬Holds setting (w.tree s) place) (hhad : ¬Had w s place durability usesDefaultRoot) :
    ∀ createdAt, ¬Issues w (create setting profile place durability usesDefaultRoot) s
      (.initProfile profile place createdAt durability) := by
  unfold Had at hhad
  push Not at hhad
  obtain ⟨hdefault, hlocal, hhad⟩ := hhad
  intro createdAt h
  have hguard := (issues_bind (idle_of_quiet refuseVault_quiet) (run_refuseVault hfree) rfl).mp h
  obtain ⟨s', hcall⟩ := hguard
  have hensure : run w.env (ensureDefaultParent place durability usesDefaultRoot) s
      = some (w.answer s (.ensureVaultParentDirectory place),
        w.after s (.ensureVaultParentDirectory place)) := by
    unfold ensureDefaultParent runIf
    rw [if_pos ⟨hdefault, hlocal⟩]
    rfl
  rcases mem_calls_bind hcall with hcall | ⟨_, s₂, hok, _⟩
  · exact issues_of_only ensureDefaultParent_harmless ⟨s', hcall⟩
  · rw [hensure] at hok
    exact hhad (Prod.ext_iff.mp (Option.some.inj hok)).1

/-- A free root: the dry run says that the vault would be made, and so it is where the directories
above it can be had. -/
theorem predicts_create_iff {place : PosixPath} {usesDefaultRoot : Bool} {discoveredBy : Text}
    (hname : validateProfileName profile = .ok ()) (hengine : setting.engine.absolute = true)
    (hfree : ¬Holds setting (w.tree s) place) :
    Predicts w profile (.ok place) durability
        (preview setting profile "would_create".toList discoveredBy none 0 true)
        (create setting profile place durability usesDefaultRoot) s
      ↔ Had w s place durability usesDefaultRoot := by
  obtain ⟨v, hdry, hstatus⟩ := @run_preview _ w s profile setting "would_create".toList
    discoveredBy none 0 true hname hengine
  constructor
  · intro h
    by_contra hhad
    obtain ⟨place', createdAt, hplace, hmakes⟩ := h.creates.mp ⟨v, s, hdry, hstatus⟩
    cases hplace
    exact create_refused hfree hhad createdAt hmakes
  · intro hhad
    obtain ⟨createdAt, hmakes⟩ := create_issues hname hfree hhad
    exact predicts_of_creates hdry hstatus rfl hmakes fun _ h => issues_of_only create_creating h

/-! ## What the policy plans -/

/-- A policy that asks for a new vault. -/
theorem predicts_createOrPreview_iff {forced : Bool}
    (hname : validateProfileName profile = .ok ()) (hengine : setting.engine.absolute = true)
    (habsolute : ¬(root.any fun path => !path.absolute) = true)
    (hfree : forced = false → ∀ place, targetRoot setting profile root = .ok place →
      ¬Holds setting (w.tree s) place) :
    Predicts w profile (targetRoot setting profile root) durability
        (createOrPreview setting profile root durability forced true)
        (createOrPreview setting profile root durability forced false) s
      ↔ ∀ place, targetRoot setting profile root = .ok place → ¬Holds setting (w.tree s) place →
        Had w s place durability root.isNone := by
  unfold createOrPreview
  cases htarget : targetRoot setting profile root with
  | error x => exact iff_of_true (predicts_of_refusal rfl rfl (idle_of_quiet trivial)) nofun
  | ok place =>
    have hplace := targetRoot_absolute habsolute htarget
    by_cases hholds : Holds setting (w.tree s) place
    · have hprobe : run w.env (refuseVault setting place) s = some (.error
          (.wouldForkVault place.display (workspacesIn (w.tree s) place)), s) := by
        unfold refuseVault
        rw [run_bind_ok (run_probe_holds hplace hholds)]
        rfl
      cases forced with
      | false => exact absurd hholds (hfree rfl place htarget)
      | true =>
        refine iff_of_true ?_ ?_
        · show Predicts w profile _ durability (refuseVault setting place >>= _)
            (refuseVault setting place >>= _) s
          exact predicts_bind_error refuseVault_quiet hprobe
        · rintro _ ⟨⟩ hnot
          exact absurd hholds hnot
    · have hiff := @predicts_create_iff _ w s profile durability setting place root.isNone
        (rootRule root.isNone) hname hengine hholds
      have hdry : run w.env (do
            runIf (forced = true) (refuseVault setting place)
            preview setting profile "would_create".toList (rootRule root.isNone) none 0 true) s
          = run w.env
            (preview setting profile "would_create".toList (rootRule root.isNone) none 0 true) s := by
        cases forced with
        | false => rfl
        | true => exact run_bind_ok (run_refuseVault hholds)
      refine (predicts_congr hdry rfl fun _ _ => Iff.rfl).trans (hiff.trans ?_)
      constructor
      · rintro hhad _ ⟨⟩ _
        exact hhad
      · intro h
        exact h place rfl hholds

/-- `init` says what it does about the candidates, save for the directories above a new vault. -/
theorem predicts_policy_iff {policy : VaultPolicy} {candidates : List FoundVault}
    (hname : validateProfileName profile = .ok ()) (hengine : setting.engine.absolute = true)
    (habsolute : ¬(root.any fun path => !path.absolute) = true)
    (hfree : candidates = [] → ∀ place, targetRoot setting profile root = .ok place →
      ¬Holds setting (w.tree s) place) :
    Predicts w profile (targetRoot setting profile root) durability
        (applyPolicy setting profile root durability true policy candidates)
        (applyPolicy setting profile root durability false policy candidates) s
      ↔ (policy = .create ∨ policy = .auto ∧ candidates = [] →
        ∀ place, targetRoot setting profile root = .ok place → ¬Holds setting (w.tree s) place →
          Had w s place durability root.isNone) := by
  have hrefused : ∀ x, Predicts w profile (targetRoot setting profile root) durability
      (fail x) (fail x) s := fun x => predicts_of_refusal rfl rfl (idle_of_quiet trivial)
  match policy, candidates with
  | .create, candidates =>
    have hforced : true = false → ∀ place, targetRoot setting profile root = .ok place →
        ¬Holds setting (w.tree s) place := nofun
    refine (predicts_createOrPreview_iff hname hengine habsolute hforced).trans ?_
    exact ⟨fun h _ => h, fun h => h (.inl rfl)⟩
  | .auto, [] =>
    refine (predicts_createOrPreview_iff hname hengine habsolute fun _ => hfree rfl).trans ?_
    exact ⟨fun h _ => h, fun h => h (.inr ⟨rfl, rfl⟩)⟩
  | .adopt, [found] => exact iff_of_true (predicts_adopt hname hengine found) (by simp)
  | .auto, [found] => exact iff_of_true (predicts_adopt hname hengine found) (by simp)
  | .adopt, [] => exact iff_of_true (hrefused _) (by simp)
  | .adopt, _ :: _ :: _ => exact iff_of_true (hrefused _) (by simp)
  | .auto, _ :: _ :: _ => exact iff_of_true (hrefused _) (by simp)

/-! ## A profile that exists -/

/-- A profile that exists is reported, and a real run asks to make it active. -/
theorem reuse_existing {existing : Profile} {s₂ : σ}
    (hshow : run w.env (attempt (profileShow profile) : InitProg (Result Profile)) s
      = some (.ok (.ok existing), s₁))
    (hsame : run w.env (checkSameRoot profile existing.root root) s₁ = some (.ok (), s₂)) :
    (∀ dryRun o s', run w.env (reuseExistingProfile setting profile root dryRun) s
        = some (.ok o, s') → ∃ v, o = some v ∧ v.status = "already_initialized".toList)
      ∧ Issues w (reuseExistingProfile setting profile root false) s (.setActiveProfile profile) := by
  constructor
  · intro dryRun o s' h
    unfold reuseExistingProfile at h
    rw [run_bind_ok hshow] at h
    dsimp only at h
    rw [run_bind_ok hsame] at h
    rcases run_bind_cases h with ⟨x, _, hr⟩ | ⟨candidate, s₃, _, h₃⟩
    · cases hr
    · rcases run_bind_cases h₃ with ⟨x, _, hr⟩ | ⟨launch, s₄, _, h₄⟩
      · cases hr
      · cases h₄
        exact ⟨_, rfl, rfl⟩
  · refine issues_of_run hshow (issues_of_run hsame ?_)
    obtain ⟨r, s₃, hprobe, _⟩ := run_quiet (@probe_quiet setting existing.root) w s₂
    cases r with
    | ok candidate => exact issues_of_run hprobe (issues_left (issues_left issues_request))
    | error x =>
      -- a probe refuses nothing
      by_cases h : existing.root.absolute = true ∧ Holds setting (w.tree s₂) existing.root
      · rw [run_probe_holds h.1 h.2] at hprobe
        cases hprobe
      · rw [run_probe_none h] at hprobe
        cases hprobe

theorem reuse_harmless {dryRun : Bool} :
    Only Harmless (reuseExistingProfile setting profile root dryRun) := by
  refine only_bind (quiet_harmless (only_attempt profileShow_quiet)) fun answer => ?_
  cases answer with
  | error x => trivial
  | ok existing =>
    exact only_bind (quiet_harmless checkSameRoot_quiet) fun _ =>
      only_bind (quiet_harmless probe_quiet) fun _ =>
      only_bind publishUnless_harmless fun _ => trivial

theorem reuse_creating {dryRun : Bool} :
    Only Creating (reuseExistingProfile setting profile root dryRun) := by
  refine only_bind (quiet_creating (only_attempt profileShow_quiet)) fun answer => ?_
  cases answer with
  | error x => trivial
  | ok existing =>
    refine only_bind (quiet_creating checkSameRoot_quiet) fun _ =>
      only_bind (quiet_creating probe_quiet) fun _ => only_bind (only_ite ?_ ?_) fun _ => trivial
    · exact quiet_creating profileLaunch_quiet
    · refine only_bind (only_bind (only_ask.mpr trivial) fun answer => ?_) fun _ =>
        quiet_creating profileLaunch_quiet
      cases answer <;> trivial

/-- Where the profile exists, both runs report it. -/
theorem predicts_existing {f g : Option VaultInit → InitProg VaultInit}
    {existing : Profile} {s₂ : σ} (hf : ∀ v, f (some v) = pure v) (hg : ∀ v, g (some v) = pure v)
    (hshow : run w.env (attempt (profileShow profile) : InitProg (Result Profile)) s
      = some (.ok (.ok existing), s₁))
    (hsame : run w.env (checkSameRoot profile existing.root root) s₁ = some (.ok (), s₂)) :
    Predicts w profile target durability
      (reuseExistingProfile setting profile root true >>= f)
      (reuseExistingProfile setting profile root false >>= g) s := by
  obtain ⟨hreports, hactive⟩ :=
    @reuse_existing _ w s s₁ profile setting root existing s₂ hshow hsame
  have hdry : ∀ status, Reports w (reuseExistingProfile setting profile root true >>= f) s status →
      status.toList = "already_initialized".toList := by
    rintro status ⟨v, s', h, hstatus⟩
    rcases run_bind_cases h with ⟨x, _, hr⟩ | ⟨o, s₃, ho, h₃⟩
    · cases hr
    · obtain ⟨v', rfl, hv'⟩ := hreports true o s₃ ho
      rw [hf] at h₃
      cases h₃
      exact hstatus.symm.trans hv'
  have hreal : ∀ r, Issues w (reuseExistingProfile setting profile root false >>= g) s r →
      Issues w (reuseExistingProfile setting profile root false) s r := by
    rintro r ⟨s', h⟩
    rcases mem_calls_bind h with h | ⟨o, s₃, ho, h⟩
    · exact ⟨s', h⟩
    · obtain ⟨v', rfl, _⟩ := hreports false o s₃ ho
      rw [hg] at h
      exact absurd h List.not_mem_nil
  refine ⟨iff_of_false ?_ ?_, iff_of_false ?_ ?_, fun x hx => ?_⟩
  · intro h
    exact absurd (hdry _ h) (by decide)
  · rintro ⟨place, createdAt, _, h⟩
    exact issues_of_only reuse_harmless (hreal _ h)
  · intro h
    exact absurd (hdry _ h) (by decide)
  · rintro ⟨found, h⟩
    exact issues_of_only reuse_creating (hreal _ h)
  · obtain ⟨_, h⟩ := hx.idle _ (issues_left hactive) rfl
    cases h

/-! ## The dry run changes nothing -/

variable {project : Option PosixPath} {policy : VaultPolicy}

theorem preview_quiet {status discoveredBy : Text} {detail : Option Text} {workspaces : Nat}
    {created : Bool} :
    Only Quiet (preview setting profile status discoveredBy detail workspaces created) :=
  only_ofExcept_bind fun _ _ => trivial

theorem applyPolicy_quiet {candidates : List FoundVault} :
    Only Quiet (applyPolicy setting profile root durability true policy candidates) := by
  have hcreate : ∀ forced,
      Only Quiet (createOrPreview setting profile root durability forced true) :=
    fun forced => only_ofExcept_bind fun place _ =>
      only_bind (only_runIf refuseVault_quiet) fun _ => preview_quiet
  unfold applyPolicy
  split
  · exact hcreate true
  · exact preview_quiet
  · exact preview_quiet
  · trivial
  · exact hcreate false
  · trivial

theorem reuse_quiet : Only Quiet (reuseExistingProfile setting profile root true) := by
  refine only_bind (only_attempt profileShow_quiet) fun answer => ?_
  cases answer with
  | error x => trivial
  | ok existing =>
    exact only_bind checkSameRoot_quiet fun _ => only_bind probe_quiet fun _ =>
      only_bind profileLaunch_quiet fun _ => trivial

theorem init_quiet : Only Quiet (init setting profile root durability policy project true) := by
  refine only_ofExcept_bind fun _ _ => only_failIf_bind (only_bind reuse_quiet fun reused => ?_)
  cases reused with
  | some v => trivial
  | none => exact only_bind discover_quiet fun _ => applyPolicy_quiet

/-! ## The whole of `init` -/

/-- Where there is no profile, both runs go on in the state that the question left. -/
theorem predicts_absent {f g : Option VaultInit → InitProg VaultInit} {x : ManagerError}
    (hshow : run w.env (attempt (profileShow profile) : InitProg (Result Profile)) s
      = some (.ok (.error x), s₁)) :
    Predicts w profile target durability
        (reuseExistingProfile setting profile root true >>= f)
        (reuseExistingProfile setting profile root false >>= g) s
      ↔ Predicts w profile target durability (f none) (g none) s₁ := by
  have hreuse : ∀ dryRun, run w.env (reuseExistingProfile setting profile root dryRun) s
      = some (.ok none, s₁) := fun dryRun => run_bind_ok hshow
  have hidle : Idle w (reuseExistingProfile setting profile root false) s :=
    (idle_of_quiet (only_attempt profileShow_quiet)).bind hshow (idle_of_quiet trivial)
  exact predicts_congr (run_bind_ok (hreuse true)) (run_bind_ok (hreuse false)) fun _ hr =>
    issues_bind hidle (hreuse false) hr

/-- What is left of `init` once it knows whether there is a profile. -/
def afterReuse (setting : Setting) (profile : Text) (root : Option PosixPath) (durability : Durability)
    (policy : VaultPolicy) (project : Option PosixPath) (dryRun : Bool) :
    Option VaultInit → InitProg VaultInit
  | some reused => return reused
  | none => do
    let candidates ← discover setting profile root project
    applyPolicy setting profile root durability dryRun policy candidates

theorem init_eq {dryRun : Bool} (hname : validateProfileName profile = .ok ())
    (habsolute : ¬(root.any fun path => !path.absolute) = true) :
    init setting profile root durability policy project dryRun
      = reuseExistingProfile setting profile root dryRun
        >>= afterReuse setting profile root durability policy project dryRun := by
  unfold init failIf rejectIf
  rw [hname, if_neg habsolute]
  show (reuseExistingProfile setting profile root dryRun >>= _) = _
  congr 1

/-- Only a profile that cannot be shown is made anew. -/
theorem absent_of_reuse_none
    (h : run w.env (reuseExistingProfile setting profile root false) s = some (.ok none, s')) :
    ∃ x, run w.env (attempt (profileShow profile) : InitProg (Result Profile)) s
      = some (.ok (.error x), s') := by
  obtain ⟨answer, s₁, hrun, _⟩ := run_quiet (@profileShow_quiet profile) w s
  have hshow : run w.env (attempt (profileShow profile) : InitProg (Result Profile)) s
      = some (.ok answer, s₁) := run_attempt hrun
  cases answer with
  | error x =>
    have hreuse : run w.env (reuseExistingProfile setting profile root false) s
        = some (.ok none, s₁) := run_bind_ok hshow
    rw [hreuse] at h
    cases h
    exact ⟨x, hshow⟩
  | ok existing =>
    have hrest := h
    unfold reuseExistingProfile at hrest
    rw [run_bind_ok hshow] at hrest
    rcases run_bind_cases hrest with ⟨x, _, hr⟩ | ⟨_, s₂, hsame, _⟩
    · cases hr
    · obtain ⟨v, hv, _⟩ := (reuse_existing hshow hsame).1 false none s' h
      cases hv

/-- `init` gets to the choice between the candidates. -/
theorem predicts_searched_iff {candidates : List FoundVault} (hengine : setting.engine.absolute = true)
    (h : Searched setting w s profile root project candidates s') :
    Predicts w profile (targetRoot setting profile root) durability
        (init setting profile root durability policy project true)
        (init setting profile root durability policy project false) s
      ↔ (policy = .create ∨ policy = .auto ∧ candidates = [] →
        ∀ place, targetRoot setting profile root = .ok place → ¬Holds setting (w.tree s) place →
          Had w s' place durability root.isNone) := by
  obtain ⟨_, _, ⟨offers, hsearch, hexact⟩, htree⟩ := @init_search _ _ _ _ _ _ _ _ _
    durability policy h
  obtain ⟨hname, habsolute, s₁, hreuse, hdiscover⟩ := h
  have hroot : ¬(root.any fun path => !path.absolute) = true := by
    rw [habsolute]
    decide
  have hfree : candidates = [] → ∀ place, targetRoot setting profile root = .ok place →
      ¬Holds setting (w.tree s') place := by
    rintro rfl place hplace
    rw [htree]
    exact target_free hsearch hexact hplace
  obtain ⟨x, hshow⟩ := absent_of_reuse_none hreuse
  rw [init_eq hname hroot, init_eq hname hroot, ← htree]
  refine (predicts_absent hshow).trans ?_
  refine (predicts_bind discover_quiet hdiscover).trans ?_
  exact predicts_policy_iff hname hengine hroot hfree

/-- `init` ends before that. -/
theorem predicts_of_not_searched
    (h : ∀ candidates s', ¬Searched setting w s profile root project candidates s') :
    Predicts w profile (targetRoot setting profile root) durability
      (init setting profile root durability policy project true)
      (init setting profile root durability policy project false) s := by
  cases hname : validateProfileName profile with
  | error x =>
    have hinit : ∀ dryRun, init setting profile root durability policy project dryRun
        = .done (.error x) := by
      intro dryRun
      unfold init
      rw [hname]
      rfl
    rw [hinit, hinit]
    exact predicts_of_refusal rfl rfl (idle_of_quiet trivial)
  | ok _ =>
    by_cases hroot : (root.any fun path => !path.absolute) = true
    · have hinit : ∀ dryRun, init setting profile root durability policy project dryRun
          = .done (.error (.unsafePath "vault root" "path must be absolute")) := by
        intro dryRun
        unfold init failIf rejectIf
        rw [hname, if_pos hroot]
        rfl
      rw [hinit, hinit]
      exact predicts_of_refusal rfl rfl (idle_of_quiet trivial)
    · rw [init_eq hname hroot, init_eq hname hroot]
      obtain ⟨answer, s₁, hrun, _⟩ := run_quiet (@profileShow_quiet profile) w s
      have hshow : run w.env (attempt (profileShow profile) : InitProg (Result Profile)) s
          = some (.ok answer, s₁) := run_attempt hrun
      cases answer with
      | error x =>
        refine (predicts_absent hshow).mpr ?_
        obtain ⟨found, s₂, hdiscover, _⟩ :=
          run_quiet (@discover_quiet setting profile root project) w s₁
        cases found with
        | error y => exact predicts_bind_error discover_quiet hdiscover
        | ok candidates =>
          rw [Bool.not_eq_true] at hroot
          exact absurd ⟨hname, hroot, s₁, run_bind_ok hshow, hdiscover⟩ (h candidates s₂)
      | ok existing =>
        obtain ⟨same, s₂, hsame, _⟩ :=
          run_quiet (@checkSameRoot_quiet profile existing.root root) w s₁
        cases same with
        | ok _ => exact predicts_existing (fun _ => rfl) (fun _ => rfl) hshow hsame
        | error y =>
          have hreuse : ∀ dryRun, run w.env (reuseExistingProfile setting profile root dryRun) s
              = some (.error y, s₂) := by
            intro dryRun
            unfold reuseExistingProfile
            rw [run_bind_ok hshow]
            exact run_bind_error hsame
          have hidle : Idle w (reuseExistingProfile setting profile root false) s :=
            (idle_of_quiet (only_attempt profileShow_quiet)).bind hshow
              (idle_bind_error (idle_of_quiet checkSameRoot_quiet) hsame)
          exact predicts_of_refusal (run_bind_error (hreuse true)) (run_bind_error (hreuse false))
            (idle_bind_error hidle (hreuse false))

end

/-! ## Top-level theorem -/

section

variable {setting : Setting} {σ : Type} {s s' : σ} {profile : Text} {root project : Option PosixPath}
  {candidates candidates' : List FoundVault}

/-- A run that only asks leaves the directories as they can be made. -/
theorem create_of_quiet (w : Grounds setting σ) {α : Type} {p : InitProg α} {r : Result α}
    (hp : Only Quiet p) (hrun : run w.env p s = some (r, s')) : w.create s' = w.create s := by
  have hstep : ∀ s e, Quiet e → w.create (w.env s e).2 = w.create s := by
    intro s e he
    cases e with
    | file call => rfl
    | request r => exact w.create_after s r he
  obtain ⟨r', s'', hrun', hcreate⟩ := yields_of_only (F := fun a b => w.create b = w.create a)
    (fun _ => rfl) (fun _ _ _ h h' => h'.trans h) hstep hp s
  rw [hrun] at hrun'
  cases hrun'
  exact hcreate

theorem create_searched (w : Grounds setting σ)
    (h : Searched setting w.toSurroundings s profile root project candidates s') :
    w.create s' = w.create s := by
  obtain ⟨_, _, s₁, hreuse, hdiscover⟩ := h
  obtain ⟨x, hshow⟩ := absent_of_reuse_none hreuse
  exact (create_of_quiet w discover_quiet hdiscover).trans
    (create_of_quiet w (only_attempt profileShow_quiet) hshow)

/-- A search has one outcome. -/
theorem Searched.candidates_eq {w : Surroundings σ} {s'' : σ}
    (h : Searched setting w s profile root project candidates s')
    (h' : Searched setting w s profile root project candidates' s'') : candidates = candidates' := by
  obtain ⟨_, _, s₁, hreuse, hdiscover⟩ := h
  obtain ⟨_, _, s₂, hreuse', hdiscover'⟩ := h'
  rw [hreuse] at hreuse'
  cases hreuse'
  rw [hdiscover] at hdiscover'
  cases hdiscover'
  rfl

end

/-- The dry run of `init` changes nothing, and says what the real run does and what it refuses,
exactly where the directories above a new default root that is not to last are there or can be
made. -/
theorem dry_run_predicts_iff (setting : Setting) {σ : Type} (w : Grounds setting σ) (s : σ)
    (profile : Text) (root project : Option PosixPath) (durability : Durability)
    (policy : VaultPolicy) :
    DryRunPredicts w.toSurroundings setting s profile root project durability policy
      ↔ Ready w s profile root project durability policy := by
  refine Iff.trans (b := Predicts w.toSurroundings profile (targetRoot setting profile root) durability
    (init setting profile root durability policy project true)
    (init setting profile root durability policy project false) s)
    ⟨fun h => h.predicts, fun h => ⟨fun r hr => issues_of_only init_quiet hr, h⟩⟩ ?_
  by_cases hsearched : ∃ candidates s',
      Searched setting w.toSurroundings s profile root project candidates s'
  · obtain ⟨candidates, s', hsearched⟩ := hsearched
    obtain ⟨_, _, _, htree⟩ := @init_search _ _ _ _ _ _ _ _ _ durability policy hsearched
    have hcreate := create_searched w hsearched
    have hensures : ∀ place, targetRoot setting profile none = .ok place →
        (w.answer s' (.ensureVaultParentDirectory place) = .ok ()
          ↔ ∀ cursor ∈ place.normalized.ancestors, Usable (w.tree s) (w.create s) cursor) := by
      intro place hplace
      rw [w.ensures, htree, hcreate]
      exact ensureVaultParent_ok_iff hplace
    refine (predicts_searched_iff w.engine hsearched).trans ⟨fun h => ?_, fun h => ?_⟩
    · rintro rfl hlocal place ⟨⟨candidates', s'', hsearched', hpolicy⟩, hplace, hfree⟩
      rw [← hsearched.candidates_eq hsearched'] at hpolicy
      exact (hensures place hplace).mp (h hpolicy place hplace hfree rfl hlocal)
    · intro hpolicy place hplace hfree hdefault hlocal
      obtain rfl := Option.isNone_iff_eq_none.mp hdefault
      exact (hensures place hplace).mpr
        (h rfl hlocal place ⟨⟨candidates, s', hsearched, hpolicy⟩, hplace, hfree⟩)
  · refine iff_of_true (predicts_of_not_searched fun candidates s' h => hsearched ⟨_, _, h⟩) ?_
    rintro _ _ place ⟨⟨candidates, s', h, _⟩, _, _⟩
    exact absurd ⟨candidates, s', h⟩ hsearched

/-- The data directory `/data` is a link to the directory `/elsewhere`. -/
def linkedData : Links.Tree :=
  { entries :=
      [(["data".toList], .link (PosixPath.root.join "elsewhere".toList)),
        (["elsewhere".toList], .directory)]
    workingDirectory := [] }

/-- Directories can be made, and the engine knows no profile. -/
def linkedGrounds : Grounds sampleSetting Unit where
  tree _ := linkedData
  answer
    | _, .ensureVaultParentDirectory root => ensureVaultParent linkedData (fun _ => .ok ()) root
    | _, r => sampleAnswer r
  after _ _ := ()
  place _ := Links.place_nil
  tree_after _ _ _ := rfl
  engine := rfl
  create _ _ := .ok ()
  create_after _ _ _ := rfl
  ensures _ _ := rfl

def linkedInit (dryRun : Bool) : InitProg VaultInit :=
  init sampleSetting sampleName none .processLocal .create none dryRun

/-- `init --create --dry-run` plans a vault that `init --create` refuses to make. -/
theorem dry_run_misses_link :
    Reports linkedGrounds.toSurroundings (linkedInit true) () "would_create"
      ∧ Refused linkedGrounds.toSurroundings (linkedInit false) ()
        (.unsafePath "vault root parent" "an ancestor is a symlink")
      ∧ ¬DryRunPredicts linkedGrounds.toSurroundings sampleSetting () sampleName none none
        .processLocal .create := by
  have hreports : Reports linkedGrounds.toSurroundings (linkedInit true) () "would_create" :=
    ⟨_, (), rfl, rfl⟩
  have hcalls : (calls linkedGrounds.env (linkedInit false) ()).filterMap changeOf
      = [.ensureVaultParentDirectory
        (((PosixPath.root.join "data".toList).join "vaults".toList).join sampleName)] := rfl
  have hrefused : Refused linkedGrounds.toSurroundings (linkedInit false) ()
      (.unsafePath "vault root parent" "an ancestor is a symlink") := by
    refine ⟨⟨(), rfl⟩, fun r hr hchange => ?_⟩
    obtain ⟨s', hcall⟩ := hr
    have hmem : r ∈ (calls linkedGrounds.env (linkedInit false) ()).filterMap changeOf :=
      List.mem_filterMap.mpr ⟨_, hcall, if_pos hchange⟩
    rw [hcalls] at hmem
    exact ⟨_, List.mem_singleton.mp hmem⟩
  refine ⟨hreports, hrefused, fun h => ?_⟩
  obtain ⟨root, createdAt, _, hmakes⟩ := h.predicts.creates.mp hreports
  obtain ⟨_, hother⟩ := hrefused.idle _ hmakes rfl
  cases hother

end Kaleidoscope.Manager
