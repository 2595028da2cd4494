import Kaleidoscope.Candidates

/-!
# The choice of a vault

`init` searches for the vaults that there are, and its policy `auto` takes the only one, refuses to
take one of several, and makes a new one where there is none.

    vault_candidates_exact     the candidates, and the first thing that `init` changes
-/

namespace Kaleidoscope.Manager

open Prog Disk Discovery

/-! ## Statement -/

section

variable (setting : Setting)

/-- The child directories of the directory of a vault. -/
def childrenIn (t : Links.Tree) (vaults : PosixPath) : List PosixPath :=
  match fileAnswer t (.readDir vaults) with
  | .error _ => []
  | .ok entries =>
    let children := (entries.filter fun entry => entry.2 == .directory).map fun entry =>
      vaults.join entry.1
    children.mergeSort fun a b => (compare a b).isLE

/-- The offers of a search: the explicit root alone, or else the roots of other registered
profiles, the default root, the project and the directories beside the default root. -/
def Searches (t : Links.Tree) (profile : Text) : Option PosixPath → List Offer → Prop
  | some path, offers => offers = [⟨.explicitRoot, none, path⟩]
  | none, offers => ∃ (registered : List (Text × PosixPath)) (defaultRoot : PosixPath) (project : Option PosixPath),
    defaultVaultRoot setting profile = .ok defaultRoot
      ∧ (∀ entry ∈ registered, entry.1 ≠ profile)
      ∧ offers = registered.map (fun entry => ⟨.registeredProfile, some entry.1, entry.2⟩)
        ++ [⟨.defaultRoot, none, defaultRoot⟩]
        ++ project.toList.map (fun path => ⟨.projectLocal, none, path.join ".kaleidoscope".toList⟩)
        ++ (defaultRoot.parent.elim [] (childrenIn t)).map
          fun child => ⟨.userVaultDirectory, none, child⟩

variable {σ : Type} (w : Surroundings σ)

/-- `init` gets as far as the choice between the candidates of its search. -/
structure Searched (s : σ) (profile : Text) (root project : Option PosixPath)
    (candidates : List FoundVault) (s' : σ) : Prop where
  name : validateProfileName profile = .ok ()
  absolute : (root.any fun path => !path.absolute) = false
  /-- there is no such profile yet, and the search ends -/
  search : ∃ s₁, run w.env (reuseExistingProfile setting profile root false) s = some (.ok none, s₁)
    ∧ run w.env (discover setting profile root project) s₁ = some (.ok candidates, s')

end

/-- What a call may change. -/
def changeOf {σ : Type} : σ × InitEvent → Option Request
  | (_, .request r) => if changes r then some r else none
  | (_, .file _) => none

/-- The first request of a run that may change something. -/
def firstChange {σ : Type} (calls : List (σ × InitEvent)) : Option Request :=
  calls.findSome? changeOf

/-- The run goes on to make a vault: the directories above it come first where they are missing. -/
def Makes (profile : Text) (target : PosixPath) (durability : Durability) (change : Option Request) :
    Prop :=
  change = some (.ensureVaultParentDirectory target)
    ∨ ∃ createdAt, change = some (.initProfile profile target createdAt durability)

/-- What a run of `init` does about the candidates. -/
structure Chooses {σ : Type} (profile : Text) (target : Result PosixPath) (durability : Durability)
    (candidates : List FoundVault) (change : Option Request)
    (ended : Option (Result VaultInit × σ)) : Prop where
  adopts : (∃ found, change = some (.profileImport profile found durability))
    ↔ candidates.length = 1
  adopted : ∀ found, candidates = [found] →
    change = some (.profileImport profile found.root durability)
  asks : (change = none ∧ ∃ message s', ended = some (.error (.ambiguousVault message), s'))
    ↔ 2 ≤ candidates.length
  makes : (∃ root, target = .ok root ∧ Makes profile root durability change) ↔ candidates = []

/-! ## Quiet programs -/

section

variable {σ α β : Type} {w : Surroundings σ} {s s' : σ}

/-- A program that only asks leaves the files as they are. -/
theorem run_quiet {p : InitProg α} (hp : Only Quiet p) (w : Surroundings σ) (s : σ) :
    ∃ r s', run w.env p s = some (r, s') ∧ w.tree s' = w.tree s := by
  have hstep : ∀ s e, Quiet e → w.tree (w.env s e).2 = w.tree s := by
    intro s e he
    cases e with
    | file call => rfl
    | request r => exact w.tree_after s r he
  exact yields_of_only (F := fun a b => w.tree b = w.tree a) (fun _ => rfl)
    (fun _ _ _ h h' => h'.trans h) hstep hp s

theorem tree_of_quiet {p : InitProg α} {r : Result α} (hp : Only Quiet p)
    (hrun : run w.env p s = some (r, s')) : w.tree s' = w.tree s := by
  obtain ⟨r', s'', hrun', htree⟩ := run_quiet hp w s
  rw [hrun] at hrun'
  cases hrun'
  exact htree

theorem firstChange_of_quiet {p : InitProg α} (hp : Only Quiet p) (s : σ) :
    firstChange (calls w.env p s) = none := by
  refine List.findSome?_eq_none_iff.mpr fun call hcall => ?_
  have hquiet := (run_of_only hp s).2 call hcall
  obtain ⟨s₀, e⟩ := call
  cases e with
  | file call => rfl
  | request r =>
    have hr : changes r = false := hquiet
    show (if changes r then some r else none) = none
    rw [hr]
    rfl

theorem firstChange_bind {p : InitProg α} {f : α → InitProg β} {a : α}
    (hp : firstChange (calls w.env p s) = none) (hrun : run w.env p s = some (.ok a, s')) :
    firstChange (calls w.env (p >>= f) s) = firstChange (calls w.env (f a) s') := by
  unfold firstChange at hp ⊢
  rw [calls_bind_ok hrun, List.findSome?_append, hp, Option.none_or]

/-! ## The search -/

variable {setting : Setting} {offers : List Offer} {set : CandidateSet} {profile : Text}

theorem offerChildren_eq (children : List PosixPath) (set : CandidateSet) :
    offerChildren setting children set
      = offerAll setting (children.map fun child => ⟨.userVaultDirectory, none, child⟩) set := by
  induction children generalizing set with
  | nil => rfl
  | cons child rest ih =>
    rw [offerChildren, List.map_cons, offerAll]
    congr 1
    exact funext fun set => ih set

theorem run_childDirectories {directory : PosixPath} :
    run w.env (childDirectories directory) s
      = some (.ok (childrenIn (w.tree s) directory), s) := by
  unfold childDirectories childrenIn
  rw [run_fileCall]
  cases fileAnswer (w.tree s) (.readDir directory) <;> rfl

theorem run_offerVaults {defaultRoot : PosixPath} (h : Collected setting (w.tree s) offers set) :
    ∃ set', run w.env (offerVaults setting defaultRoot set) s = some (.ok set', s)
      ∧ Collected setting (w.tree s) (offers ++ (defaultRoot.parent.elim []
        (childrenIn (w.tree s))).map fun child => ⟨.userVaultDirectory, none, child⟩) set' := by
  unfold offerVaults
  cases defaultRoot.parent with
  | none =>
    refine ⟨set, rfl, ?_⟩
    rw [Option.elim_none, List.map_nil, List.append_nil]
    exact h
  | some vaults =>
    dsimp only
    rw [run_bind_ok run_childDirectories, offerChildren_eq]
    exact run_offerAll_from _ h

theorem run_offerProject {project : Option PosixPath} (h : Collected setting (w.tree s) offers set) :
    ∃ (set' : CandidateSet) (s' : σ) (found : Option PosixPath),
      run w.env (offerProject setting project set) s = some (.ok set', s')
      ∧ w.tree s' = w.tree s
      ∧ Collected setting (w.tree s) (offers ++ (Option.toList found).map
        fun path => ⟨.projectLocal, none, path.join ".kaleidoscope".toList⟩) set' := by
  unfold offerProject
  obtain ⟨answer, s₁, hrun, htree⟩ := run_quiet (@projectRoot_quiet setting project) w s
  rw [run_bind_ok (run_attempt hrun)]
  cases answer with
  | error x =>
    refine ⟨set, s₁, none, rfl, htree, ?_⟩
    rw [Option.toList_none, List.map_nil, List.append_nil]
    exact h
  | ok path =>
    rw [← htree] at h
    obtain ⟨set', hoffer, hset'⟩ :=
      run_offer h ⟨.projectLocal, none, path.join ".kaleidoscope".toList⟩
    rw [htree] at hset'
    exact ⟨set', s₁, some path, hoffer, htree, hset'⟩

theorem run_offerRegistered (names : List Text) : ∀ {s : σ} {offers : List Offer}
    {set : CandidateSet}, Collected setting (w.tree s) offers set →
    ∃ (set' : CandidateSet) (s' : σ) (registered : List (Text × PosixPath)),
      run w.env (offerRegistered setting profile names set) s = some (.ok set', s')
      ∧ w.tree s' = w.tree s ∧ (∀ entry ∈ registered, entry.1 ≠ profile)
      ∧ Collected setting (w.tree s) (offers ++ registered.map
        fun entry => ⟨.registeredProfile, some entry.1, entry.2⟩) set' := by
  induction names with
  | nil =>
    intro s offers set h
    refine ⟨set, s, [], rfl, rfl, fun _ hentry => absurd hentry List.not_mem_nil, ?_⟩
    rw [List.map_nil, List.append_nil]
    exact h
  | cons name rest ih =>
    intro s offers set h
    rw [offerRegistered]
    by_cases hname : name = profile
    · rw [if_pos hname]
      exact ih h
    · rw [if_neg hname]
      obtain ⟨answer, s₁, hrun, htree⟩ := run_quiet (@profileShow_quiet name) w s
      rw [run_bind_ok (run_attempt hrun)]
      rw [← htree] at h ⊢
      cases answer with
      | error x => exact ih h
      | ok other =>
        obtain ⟨set₁, hoffer, hset₁⟩ := run_offer h ⟨.registeredProfile, some name, other.root⟩
        obtain ⟨set', s', registered, hrest, htree', hnames, hset'⟩ := ih hset₁
        refine ⟨set', s', (name, other.root) :: registered, ?_, htree', ?_, ?_⟩
        · dsimp only
          rw [run_bind_ok hoffer, hrest]
        · intro entry hentry
          rcases List.mem_cons.mp hentry with rfl | hentry
          · exact hname
          · exact hnames entry hentry
        · rwa [List.append_assoc] at hset'

theorem run_offerProfiles (h : Collected setting (w.tree s) offers set) :
    ∃ (set' : CandidateSet) (s' : σ) (registered : List (Text × PosixPath)),
      run w.env (offerProfiles setting profile set) s = some (.ok set', s')
      ∧ w.tree s' = w.tree s ∧ (∀ entry ∈ registered, entry.1 ≠ profile)
      ∧ Collected setting (w.tree s) (offers ++ registered.map
        fun entry => ⟨.registeredProfile, some entry.1, entry.2⟩) set' := by
  unfold offerProfiles
  obtain ⟨answer, s₁, hrun, htree⟩ := run_quiet profileList_quiet w s
  rw [run_bind_ok (run_attempt hrun)]
  cases answer with
  | error x =>
    refine ⟨set, s₁, [], rfl, htree, fun _ hentry => absurd hentry List.not_mem_nil, ?_⟩
    rw [List.map_nil, List.append_nil]
    exact h
  | ok list =>
    rw [← htree] at h ⊢
    exact run_offerRegistered list.profiles h

/-- The candidates of `init` are the found vaults of the offers of its search. -/
theorem run_discover {root project : Option PosixPath} {candidates : List FoundVault}
    (h : run w.env (discover setting profile root project) s = some (.ok candidates, s')) :
    ∃ offers, Searches setting (w.tree s) profile root offers
      ∧ Exact setting (w.tree s) offers candidates := by
  cases root with
  | some path =>
    obtain ⟨set, hoffer, hset⟩ := run_offer (@collected_new setting (w.tree s))
      ⟨.explicitRoot, none, path⟩
    have hrun : run w.env (discover setting profile (some path) project) s
        = some (.ok set.found, s) := by
      rw [discover, run_bind_ok hoffer]
      rfl
    rw [hrun] at h
    cases h
    exact ⟨_, rfl, hset.exact⟩
  | none =>
    obtain ⟨set₁, s₁, registered, hrun₁, htree₁, hnames, hset₁⟩ :=
      @run_offerProfiles σ w s setting [] .new profile collected_new
    unfold discover at h
    rw [run_bind_ok hrun₁] at h
    cases hdefault : defaultVaultRoot setting profile with
    | error x =>
      rw [hdefault] at h
      cases h
    | ok defaultRoot =>
      rw [hdefault] at h
      rw [← htree₁] at hset₁
      obtain ⟨set₂, hrun₂, hset₂⟩ := run_offer hset₁ ⟨.defaultRoot, none, defaultRoot⟩
      obtain ⟨set₃, s₃, found, hrun₃, htree₃, hset₃⟩ := @run_offerProject _ w _ _ _ _ project hset₂
      rw [← htree₃] at hset₃
      obtain ⟨set₄, hrun₄, hset₄⟩ := @run_offerVaults _ w _ _ _ _ defaultRoot hset₃
      have hrest : run w.env (do
          let set ← set₁.offer setting .defaultRoot none defaultRoot
          let set ← offerProject setting project set
          let set ← offerVaults setting defaultRoot set
          return set.found) s₁ = some (.ok set₄.found, s₃) := by
        rw [run_bind_ok hrun₂, run_bind_ok hrun₃, run_bind_ok hrun₄]
        rfl
      have hlast := h.symm.trans hrest
      cases hlast
      rw [htree₃, htree₁] at hset₄
      exact ⟨_, ⟨registered, defaultRoot, found, hdefault, hnames, rfl⟩, hset₄.exact⟩

/-! ## The choice -/

/-- A vault under one name is one under its canonical name. -/
theorem Holds.canonical {t : Links.Tree} (hplace : Links.Place t t.workingDirectory) {root : PosixPath}
    (h : Holds setting t root) :
    ∃ canonical, t.canonicalize root = some canonical ∧ Holds setting t canonical := by
  obtain ⟨hdir, bytes, hfile, hmanifest⟩ := holds_iff.mp h
  obtain ⟨names, hnames, hdirectory⟩ := Links.resolve_of_lstat hdir
  have hcanonical : t.canonicalize root = some (Links.canonicalPath names) := by
    unfold Links.Tree.canonicalize
    rw [hnames]
    rfl
  obtain ⟨_, hresolve, hplaced, hpath⟩ := (Links.canonicalize_eq_some hplace).mp hcanonical
  rw [hnames] at hresolve
  cases hresolve
  refine ⟨_, hcanonical, holds_iff.mpr ⟨?_, bytes, ?_, hmanifest⟩⟩
  · rw [Links.lstat_canonicalPath hplaced]
    unfold Links.Tree.isDirectory at hdirectory
    split at hdirectory
    · assumption
    · cases hdirectory
  · rw [Links.lstat_join, hnames] at hfile
    rw [Links.lstat_join, Links.resolve_canonicalPath hplaced]
    exact hfile

/-- Where the search has found nothing, there is no vault at the root that is made. -/
theorem target_free {root : Option PosixPath} {target : PosixPath}
    (hsearch : Searches setting (w.tree s) profile root offers)
    (hexact : Exact setting (w.tree s) offers [])
    (htarget : targetRoot setting profile root = .ok target) : ¬Holds setting (w.tree s) target := by
  intro hholds
  obtain ⟨canonical, hcanonical, hvault⟩ := hholds.canonical (w.place s)
  have hoffered : ∃ o ∈ offers, o.path = target := by
    cases root with
    | some path =>
      obtain rfl := Except.ok.inj htarget
      have hoffers : offers = [⟨.explicitRoot, none, path⟩] := hsearch
      rw [hoffers]
      exact ⟨_, List.mem_cons_self, rfl⟩
    | none =>
      obtain ⟨registered, defaultRoot, project, hdefault, -, rfl⟩ := hsearch
      have htarget' : defaultVaultRoot setting profile = .ok target := htarget
      rw [hdefault] at htarget'
      cases htarget'
      refine ⟨⟨.defaultRoot, none, target⟩, ?_, rfl⟩
      simp
  obtain ⟨o, ho, rfl⟩ := hoffered
  obtain ⟨v, hv, _⟩ := hexact.complete o ho canonical hcanonical hvault
  cases hv

section

variable {durability : Durability}

theorem firstChange_request {r : Request} {f : r.Answer → InitProg α} (h : changes r = true) :
    firstChange (calls w.env (request r >>= f) s) = some r := by
  have hchange : changeOf (s, InitEvent.request r) = some r := if_pos h
  show ((s, InitEvent.request r) :: _).findSome? changeOf = some r
  rw [List.findSome?_cons, hchange]

/-- Adopting starts with the import of the vault. -/
theorem firstChange_adopt (hname : validateProfileName profile = .ok ()) (found : FoundVault) :
    firstChange (calls w.env (adopt setting profile found durability) s)
      = some (.profileImport profile found.root durability) := by
  unfold adopt profileImport
  rw [hname]
  exact firstChange_request rfl

/-- Making starts with the directories above the vault, or with the vault. -/
theorem firstChange_create {target : PosixPath} {usesDefaultRoot : Bool}
    (hname : validateProfileName profile = .ok ()) (hfree : ¬Holds setting (w.tree s) target) :
    Makes profile target durability
      (firstChange (calls w.env (create setting profile target durability usesDefaultRoot) s)) := by
  have hprobe : run w.env (refuseVault setting target) s = some (.ok (), s) := by
    unfold refuseVault
    rw [run_bind_ok (run_probe_none fun h => hfree h.2)]
    rfl
  unfold create
  rw [firstChange_bind (firstChange_of_quiet refuseVault_quiet s) hprobe]
  unfold ensureDefaultParent runIf
  split
  next =>
    exact .inl (firstChange_request rfl)
  next =>
    refine .inr ⟨w.answer s .now, ?_⟩
    have hnow : run w.env (request .now) s = some (.ok (w.answer s .now), w.after s .now) := rfl
    show firstChange (calls w.env (request .now >>= fun createdAt => do
      let initialized ← initProfile setting profile target createdAt durability
      reportCreated setting profile usesDefaultRoot initialized) s) = _
    rw [firstChange_bind (firstChange_of_quiet (request_quiet rfl) s) hnow]
    unfold initProfile
    rw [hname]
    exact firstChange_request rfl

end

/-- Where there is no profile yet, nothing has changed. -/
theorem reuse_none {root : Option PosixPath} {dryRun : Bool}
    (h : run w.env (reuseExistingProfile setting profile root dryRun) s = some (.ok none, s')) :
    firstChange (calls w.env (reuseExistingProfile setting profile root dryRun) s) = none
      ∧ w.tree s' = w.tree s := by
  obtain ⟨answer, s₁, hrun, htree⟩ := run_quiet (@profileShow_quiet profile) w s
  have hattempt : run w.env (attempt (profileShow profile) : InitProg (Result Profile)) s
      = some (.ok answer, s₁) := run_attempt hrun
  have hquiet := firstChange_of_quiet (w := w) (only_attempt (@profileShow_quiet profile)) s
  unfold reuseExistingProfile at h ⊢
  rw [run_bind_ok hattempt] at h
  rw [firstChange_bind hquiet hattempt]
  cases answer with
  | error x =>
    cases h
    exact ⟨rfl, htree⟩
  | ok existing =>
    dsimp only at h
    rcases run_bind_cases h with ⟨x, _, hr⟩ | ⟨_, s₂, _, h₂⟩
    · cases hr
    · rcases run_bind_cases h₂ with ⟨x, _, hr⟩ | ⟨candidate, s₃, _, h₃⟩
      · cases hr
      · rcases run_bind_cases h₃ with ⟨x, _, hr⟩ | ⟨launch, s₄, _, h₄⟩
        · cases hr
        · cases h₄

/-- Up to the choice nothing changes. -/
theorem init_search {root project : Option PosixPath} {candidates : List FoundVault}
    {durability : Durability} {policy : VaultPolicy}
    (h : Searched setting w s profile root project candidates s') :
    run w.env (init setting profile root durability policy project false) s
        = run w.env (applyPolicy setting profile root durability false policy candidates) s'
      ∧ firstChange (calls w.env (init setting profile root durability policy project false) s)
        = firstChange (calls w.env
          (applyPolicy setting profile root durability false policy candidates) s')
      ∧ (∃ offers, Searches setting (w.tree s) profile root offers
        ∧ Exact setting (w.tree s) offers candidates)
      ∧ w.tree s' = w.tree s := by
  obtain ⟨hname, habsolute, s₁, hreuse, hdiscover⟩ := h
  obtain ⟨hquiet, htree₁⟩ := reuse_none hreuse
  have htree := tree_of_quiet (@discover_quiet setting profile root project) hdiscover
  have hoffers := run_discover hdiscover
  rw [htree₁] at hoffers htree
  have hsearch := firstChange_of_quiet (w := w) (@discover_quiet setting profile root project) s₁
  unfold init failIf rejectIf
  rw [hname, if_neg (by rw [habsolute]; decide)]
  refine ⟨?_, ?_, hoffers, htree⟩
  · show run w.env (reuseExistingProfile setting profile root false >>= _) s = _
    rw [run_bind_ok hreuse]
    exact run_bind_ok hdiscover
  · show firstChange (calls w.env (reuseExistingProfile setting profile root false >>= _) s) = _
    rw [firstChange_bind hquiet hreuse]
    exact firstChange_bind hsearch hdiscover

theorem Makes.not_import {target found : PosixPath} {durability : Durability} {change : Option Request}
    (h : Makes profile target durability change) :
    change ≠ some (.profileImport profile found durability) := by
  rcases h with rfl | ⟨createdAt, rfl⟩
  · nofun
  · nofun

theorem Makes.not_none {target : PosixPath} {durability : Durability} {change : Option Request}
    (h : Makes profile target durability change) : change ≠ none := by
  rcases h with rfl | ⟨createdAt, rfl⟩
  · nofun
  · nofun

/-- `auto` chooses by the number of the candidates. -/
theorem init_chooses {root project : Option PosixPath} {candidates : List FoundVault}
    {durability : Durability} (h : Searched setting w s profile root project candidates s') :
    Chooses profile (targetRoot setting profile root) durability candidates
      (firstChange (calls w.env (init setting profile root durability .auto project false) s))
      (run w.env (init setting profile root durability .auto project false) s) := by
  obtain ⟨hrun, hchange, ⟨offers, hsearch, hexact⟩, htree⟩ := @init_search _ _ _ _ _ _ _ _ _
    durability .auto h
  rw [hrun, hchange]
  match candidates with
  | [] =>
    have htarget : ∃ target, targetRoot setting profile root = .ok target := by
      cases root with
      | some path => exact ⟨path, rfl⟩
      | none =>
        obtain ⟨_, defaultRoot, _, hdefault, _⟩ := hsearch
        exact ⟨defaultRoot, hdefault⟩
    obtain ⟨target, htarget⟩ := htarget
    have hfree := target_free hsearch hexact htarget
    rw [← htree] at hfree
    have hmakes : Makes profile target durability (firstChange (calls w.env
        (applyPolicy setting profile root durability false .auto []) s')) := by
      unfold applyPolicy createOrPreview
      rw [htarget]
      exact firstChange_create h.name hfree
    constructor
    · refine iff_of_false ?_ (by simp)
      rintro ⟨found, hfound⟩
      exact hmakes.not_import hfound
    · nofun
    · refine iff_of_false ?_ (by simp)
      rintro ⟨hnone, _⟩
      exact hmakes.not_none hnone
    · exact iff_of_true ⟨target, htarget, hmakes⟩ rfl
  | [found] =>
    have hadopts : firstChange (calls w.env
        (applyPolicy setting profile root durability false .auto [found]) s')
        = some (.profileImport profile found.root durability) := firstChange_adopt h.name found
    rw [hadopts]
    constructor
    · exact iff_of_true ⟨found.root, rfl⟩ rfl
    · rintro found' hfound
      cases hfound
      rfl
    · refine iff_of_false ?_ (by simp)
      rintro ⟨hnone, _⟩
      cases hnone
    · refine iff_of_false ?_ (by simp)
      rintro ⟨target, _, hmakes⟩
      exact hmakes.not_import rfl
  | first :: second :: rest =>
    have hquiet : firstChange (calls w.env
        (applyPolicy setting profile root durability false .auto (first :: second :: rest)) s')
        = none := rfl
    rw [hquiet]
    constructor
    · refine iff_of_false ?_ (by simp)
      rintro ⟨found, hfound⟩
      cases hfound
    · nofun
    · exact iff_of_true ⟨rfl, _, s', rfl⟩ (by simp)
    · refine iff_of_false ?_ (by simp)
      rintro ⟨target, _, hmakes⟩
      exact hmakes.not_none rfl

end

/-! ## Top-level theorem -/

theorem Exact.distinct {setting : Setting} {t : Links.Tree} {offers : List Offer}
    {found : List FoundVault} (h : Exact setting t offers found) : (found.map (·.root)).Nodup := by
  refine List.pairwise_map.mpr (h.ordered.imp fun {u v} hlt hsame => ?_)
  rw [hsame] at hlt
  exact Nat.lt_irrefl _ hlt

/-- Any offers leave the vaults among them, each once, in the order of the first offers; and by
what the offers of its search leave, `init` adopts, asks or makes a vault. -/
theorem vault_candidates_exact (setting : Setting) {σ : Type} (w : Surroundings σ) (s : σ) :
    (∀ offers, ∃ set, run w.env (offerAll setting offers .new) s = some (.ok set, s)
      ∧ Exact setting (w.tree s) offers set.found ∧ (set.found.map (·.root)).Nodup)
    ∧ ∀ profile root project durability candidates s',
      Searched setting w s profile root project candidates s' →
      (∃ offers, Searches setting (w.tree s) profile root offers
        ∧ Exact setting (w.tree s) offers candidates)
      ∧ Chooses profile (targetRoot setting profile root) durability candidates
        (firstChange (calls w.env (init setting profile root durability .auto project false) s))
        (run w.env (init setting profile root durability .auto project false) s) := by
  constructor
  · intro offers
    obtain ⟨set, hrun, hexact⟩ := @run_offerAll setting σ w s offers
    exact ⟨set, hrun, hexact, hexact.distinct⟩
  · intro profile root project durability candidates s' h
    exact ⟨(@init_search _ _ _ _ _ _ _ _ _ durability .auto h).2.2.1, init_chooses h⟩

/-- The file tree with a vault at `/vault` and the link `/link` to it. -/
def sampleSurroundings : Surroundings Unit where
  tree _ := sampleTree
  answer _ := sampleAnswer
  after _ _ := ()
  place _ := Links.place_nil
  tree_after _ _ _ := rfl

def sampleFound : FoundVault :=
  { rule := .explicitRoot, detail := none, root := PosixPath.root.join "vault".toList, workspaces := 0 }

/-- `init --root /link` adopts the vault that the link leads to. -/
theorem vault_candidates_link :
    firstChange (calls sampleSurroundings.env
        (init sampleSetting sampleName (some linkRoot) .durableLocal .auto none false) ())
      = some (.profileImport sampleName (PosixPath.root.join "vault".toList) .durableLocal) := by
  have hsearched : Searched sampleSetting sampleSurroundings () sampleName (some linkRoot) none
      [sampleFound] () :=
    { name := by decide +kernel
      absolute := by decide
      search := ⟨(), rfl, rfl⟩ }
  exact ((vault_candidates_exact sampleSetting sampleSurroundings ()).2 sampleName (some linkRoot)
    none .durableLocal [sampleFound] () hsearched).2.adopted sampleFound rfl

end Kaleidoscope.Manager
