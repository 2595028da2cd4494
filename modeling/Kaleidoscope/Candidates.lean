import Kaleidoscope.Manager

/-!
# The candidates of a search

Any number of offers, made to an empty set one after the other in a file system that stays as it
is.  A path is looked at under its canonical name, so the aliases of a root count once; the path
itself stands in where there is no canonical name, and it hides no vault.

    run_offerAll     the found vaults are those that were offered, each once, under its first offer
-/

namespace Kaleidoscope.Manager

open Prog Disk Discovery

/-! ## Algorithm -/

/-- A path that a rule of the search offers. -/
structure Offer where
  rule : DiscoveryRule
  detail : Option Text
  path : PosixPath

def offerAll (setting : Setting) : List Offer → CandidateSet → InitProg CandidateSet
  | [], set => return set
  | o :: rest, set => do
    let set ← set.offer setting o.rule o.detail o.path
    offerAll setting rest set

/-! ## What a search meets -/

/-- A file system and an engine.  What only asks leaves the files as they are. -/
structure Surroundings (σ : Type) where
  tree : σ → Links.Tree
  answer : σ → (r : Request) → r.Answer
  after : σ → Request → σ
  place : ∀ s, Links.Place (tree s) (tree s).workingDirectory
  tree_after : ∀ s r, changes r = false → tree (after s r) = tree s

def fileAnswer (t : Links.Tree) (call : FileCall) : Except IoKind call.Value :=
  match look t call with
  | none => .error .notFound
  | some value => .ok value

def Surroundings.env {σ : Type} (w : Surroundings σ) (s : σ) : (e : InitEvent) → e.Answer × σ
  | .file call => (fileAnswer (w.tree s) call, s)
  | .request r => (w.answer s r, w.after s r)

/-! ## Statement -/

section

variable (setting : Setting) (t : Links.Tree)

/-- A vault that may be offered to the engine: neither the root nor its manifest is a link, and the
manifest is not too long. -/
def Holds (root : PosixPath) : Prop := isVault setting t root = true ∧ isPlain t root = true

/-- Whether an offer is of a root. -/
def reaches (root : PosixPath) (o : Offer) : Bool := t.canonicalize o.path == some root

/-- The found vaults of the offers. -/
structure Exact (offers : List Offer) (found : List FoundVault) : Prop where
  vaults : ∀ v ∈ found, t.canonicalize v.root = some v.root ∧ Holds setting t v.root
  /-- each under the first rule that offered it -/
  first : ∀ v ∈ found, ∃ o, offers.find? (reaches t v.root) = some o ∧ v.rule = o.rule
    ∧ v.detail = o.detail
  /-- pairwise distinct, in the order of their first offers -/
  ordered : found.Pairwise fun u v =>
    offers.findIdx (reaches t u.root) < offers.findIdx (reaches t v.root)
  /-- every offered root that is a vault -/
  complete : ∀ o ∈ offers, ∀ root, t.canonicalize o.path = some root → Holds setting t root →
    ∃ v ∈ found, v.root = root

end

/-! ## The probe -/

section

variable {setting : Setting} {t : Links.Tree} {root : PosixPath}

theorem holds_iff : Holds setting t root ↔ t.lstat root = some .directory
    ∧ ∃ bytes, t.lstat (root.join manifestName) = some (.file bytes)
      ∧ bytes.size ≤ maxManifestBytes ∧ isRootManifest setting bytes = true := by
  unfold Holds isVault isPlain
  simp only [Bool.and_eq_true, Bool.not_eq_true']
  constructor
  · rintro ⟨⟨hdir, hmanifest⟩, ⟨hroot, hlink⟩, hsize⟩
    rw [← Links.lstat_of_stat hroot] at hdir
    unfold Links.Tree.read at hmanifest hsize
    rw [← Links.lstat_of_stat hlink] at hmanifest hsize
    constructor
    · cases hentry : t.lstat root with
      | none => simp [hentry] at hdir
      | some entry => cases entry <;> simp [hentry, fileType] at hdir ⊢
    · cases hentry : t.lstat (root.join manifestName) with
      | none => simp [hentry] at hmanifest
      | some entry =>
        cases entry with
        | file bytes =>
          rw [hentry] at hmanifest hsize
          exact ⟨bytes, rfl, by simpa using hsize, hmanifest⟩
        | directory => simp [hentry] at hmanifest
        | link target => simp [hentry] at hmanifest
        | special => simp [hentry] at hmanifest
  · rintro ⟨hdir, bytes, hfile, hsize, hmanifest⟩
    have hstat := Links.lstat_of_stat (p := root) (t := t) (by rw [hdir]; rfl)
    have hread := Links.lstat_of_stat (p := root.join manifestName) (t := t) (by rw [hfile]; rfl)
    unfold Links.Tree.read
    rw [← hstat, ← hread, hdir, hfile]
    refine ⟨⟨rfl, ?_⟩, ⟨rfl, rfl⟩, ?_⟩
    · simpa using hmanifest
    · simpa using hsize

/-- The number of workspaces that the probe counts. -/
def workspacesIn (t : Links.Tree) (root : PosixPath) : Nat :=
  match fileAnswer t (.readDir (root.join "workspaces".toList)) with
  | .error _ => 0
  | .ok entries =>
    (entries.filter fun entry =>
      "wsp_".toList.isPrefixOf entry.1 && entry.2 == .directory).length

variable {σ : Type} {w : Surroundings σ} {s : σ}

theorem run_fileCall {α : Type} {call : FileCall}
    {f : Except IoKind call.Value → InitProg α} :
    run w.env (fileCall call >>= f) s = run w.env (f (fileAnswer (w.tree s) call)) s := rfl

theorem run_countWorkspaces :
    run w.env (countWorkspaces root) s = some (.ok (workspacesIn (w.tree s) root), s) := by
  unfold countWorkspaces workspacesIn
  rw [run_fileCall]
  cases fileAnswer (w.tree s) (.readDir (root.join "workspaces".toList)) <;> rfl

theorem fileAnswer_eq_ok {call : FileCall} {value : call.Value} :
    fileAnswer t call = .ok value ↔ look t call = some value := by
  unfold fileAnswer
  cases look t call with
  | none => exact iff_of_false nofun nofun
  | some found => rw [Except.ok.injEq, Option.some.injEq]

theorem lstatAnswer_eq_ok {path : PosixPath} {metadata : Metadata} :
    fileAnswer t (.symlinkMetadata path) = .ok metadata
      ↔ ∃ entry, t.lstat path = some entry ∧ metadata = ⟨fileType entry, byteLength entry, 0⟩ := by
  rw [fileAnswer_eq_ok]
  unfold look
  rw [Option.map_eq_some_iff]
  simp only [eq_comm]

theorem readAnswer {path : PosixPath} {bytes : Bytes} (h : t.lstat path = some (.file bytes)) :
    fileAnswer t (.read path) = .ok bytes := by
  refine (@fileAnswer_eq_ok t (.read path) bytes).mpr ?_
  show t.read path = some bytes
  unfold Links.Tree.read
  rw [← Links.lstat_of_stat (by rw [h]; rfl), h]

theorem canonicalAnswer_some {path canonical : PosixPath} (h : t.canonicalize path = some canonical) :
    fileAnswer t (.canonicalize path) = .ok canonical :=
  (@fileAnswer_eq_ok t (.canonicalize path) canonical).mpr h

theorem canonicalAnswer_none {path : PosixPath} (h : t.canonicalize path = none) :
    fileAnswer t (.canonicalize path) = .error .notFound := by
  have hlook : look t (.canonicalize path) = none := h
  unfold fileAnswer
  rw [hlook]

/-- The probe takes the vaults. -/
theorem run_probe_holds (habsolute : root.absolute = true) (h : Holds setting (w.tree s) root) :
    run w.env (probe setting root) s
      = some (.ok (.vault root (workspacesIn (w.tree s) root)), s) := by
  obtain ⟨hdir, bytes, hfile, hsize, hmanifest⟩ := holds_iff.mp h
  have hroot := lstatAnswer_eq_ok.mpr ⟨_, hdir, rfl⟩
  have hlstat := lstatAnswer_eq_ok.mpr ⟨_, hfile, rfl⟩
  have hread := readAnswer hfile
  unfold probe
  rw [if_pos habsolute, run_fileCall, hroot]
  dsimp only
  rw [if_pos (show fileType .directory = .directory from rfl), probeManifest, run_fileCall, hlstat]
  dsimp only
  rw [if_pos ⟨rfl, hsize⟩, readManifest, run_fileCall, hread]
  dsimp only
  rw [if_pos hmanifest, run_bind_ok run_countWorkspaces]
  rfl

/-- The probe takes nothing else. -/
theorem run_probe_none (h : ¬(root.absolute = true ∧ Holds setting (w.tree s) root)) :
    run w.env (probe setting root) s = some (.ok .notAVault, s) := by
  unfold probe
  split
  next habsolute =>
    replace h : ¬Holds setting (w.tree s) root := fun hholds => h ⟨habsolute, hholds⟩
    rw [holds_iff] at h
    rw [run_fileCall]
    cases hroot : fileAnswer (w.tree s) (.symlinkMetadata root) with
    | error kind => rfl
    | ok metadata =>
      obtain ⟨entry, hentry, rfl⟩ := lstatAnswer_eq_ok.mp hroot
      dsimp only
      split
      next hdir =>
        have hrootDir : (w.tree s).lstat root = some .directory := by
          cases entry <;> simp [fileType] at hdir
          exact hentry
        rw [probeManifest, run_fileCall]
        cases hmeta : fileAnswer (w.tree s) (.symlinkMetadata (root.join manifestName)) with
        | error kind => rfl
        | ok metadata =>
          obtain ⟨file, hfile, rfl⟩ := lstatAnswer_eq_ok.mp hmeta
          dsimp only
          split
          next hplain =>
            obtain ⟨htype, hsize⟩ := hplain
            cases file with
            | file bytes =>
              rw [readManifest, run_fileCall, readAnswer hfile]
              dsimp only
              split
              next hmanifest => exact absurd ⟨hrootDir, bytes, hfile, hsize, hmanifest⟩ h
              next => rfl
            | directory => cases htype
            | link target => cases htype
            | special => cases htype
          next => rfl
      next => rfl
  next => rfl

/-! ## One offer -/

/-- The name under which a path is looked at. -/
def keyOf (t : Links.Tree) (path : PosixPath) : PosixPath := (t.canonicalize path).getD path

theorem run_canonicalizeOr {path : PosixPath} :
    run w.env (canonicalizeOr path) s = some (.ok (keyOf (w.tree s) path), s) := by
  unfold canonicalizeOr keyOf
  rw [run_fileCall]
  cases h : (w.tree s).canonicalize path with
  | none => rw [canonicalAnswer_none h]; rfl
  | some canonical => rw [canonicalAnswer_some h]; rfl

/-- What the offers so far have left. -/
structure Collected (setting : Setting) (t : Links.Tree) (offers : List Offer) (set : CandidateSet) :
    Prop where
  seen : ∀ path, path ∈ set.seen ↔ ∃ o ∈ offers, (keyOf t o.path).normalized = path
  exact : Exact setting t offers set.found

section

variable {offers : List Offer} {found : List FoundVault} {o : Offer}

/-- What was offered first stays first. -/
theorem find?_reaches_snoc {o' : Offer} (h : offers.find? (reaches t root) = some o') :
    (offers ++ [o]).find? (reaches t root) = some o' := by
  rw [List.find?_append, h]
  rfl

theorem findIdx_reaches_snoc {o' : Offer} (h : offers.find? (reaches t root) = some o') :
    (offers ++ [o]).findIdx (reaches t root) = offers.findIdx (reaches t root)
      ∧ offers.findIdx (reaches t root) < offers.length := by
  have hlt : offers.findIdx (reaches t root) < offers.length :=
    List.findIdx_lt_length_of_exists
      ⟨o', List.mem_of_find?_eq_some h, List.find?_some h⟩
  exact ⟨by rw [List.findIdx_append, if_pos hlt], hlt⟩

theorem Exact.ordered_snoc (h : Exact setting t offers found) :
    found.Pairwise fun u v => (offers ++ [o]).findIdx (reaches t u.root)
      < (offers ++ [o]).findIdx (reaches t v.root) := by
  refine h.ordered.imp_of_mem fun {u v} hu hv hlt => ?_
  obtain ⟨_, hfirst, _⟩ := h.first u hu
  obtain ⟨_, hsecond, _⟩ := h.first v hv
  rw [(findIdx_reaches_snoc hfirst).1, (findIdx_reaches_snoc hsecond).1]
  exact hlt

/-- An offer that adds nothing: no vault, or one that was found. -/
theorem Exact.skip (h : Exact setting t offers found)
    (hcovered : ∀ root, t.canonicalize o.path = some root → Holds setting t root →
      ∃ v ∈ found, v.root = root) : Exact setting t (offers ++ [o]) found where
  vaults := h.vaults
  first v hv := by
    obtain ⟨o', hfirst, hrule⟩ := h.first v hv
    exact ⟨o', find?_reaches_snoc hfirst, hrule⟩
  ordered := h.ordered_snoc
  complete o' ho' root hroot hholds := by
    rcases List.mem_append.mp ho' with ho' | ho'
    · exact h.complete o' ho' root hroot hholds
    · obtain rfl := List.mem_singleton.mp ho'
      exact hcovered root hroot hholds

/-- The first offer of a vault. -/
theorem Exact.add (h : Exact setting t offers found) {workspaces : Nat}
    (hcanonical : t.canonicalize root = some root) (hroot : t.canonicalize o.path = some root)
    (hholds : Holds setting t root) (hnew : ∀ o' ∈ offers, t.canonicalize o'.path ≠ some root) :
    Exact setting t (offers ++ [o]) (found ++ [⟨o.rule, o.detail, root, workspaces⟩]) := by
  have hnone : offers.find? (reaches t root) = none :=
    List.find?_eq_none.mpr fun o' ho' hreaches => hnew o' ho' (eq_of_beq hreaches)
  have hself : reaches t root o = true := beq_iff_eq.mpr hroot
  constructor
  · intro v hv
    rcases List.mem_append.mp hv with hv | hv
    · exact h.vaults v hv
    · obtain rfl := List.mem_singleton.mp hv
      exact ⟨hcanonical, hholds⟩
  · intro v hv
    rcases List.mem_append.mp hv with hv | hv
    · obtain ⟨o', hfirst, hrule⟩ := h.first v hv
      exact ⟨o', find?_reaches_snoc hfirst, hrule⟩
    · obtain rfl := List.mem_singleton.mp hv
      refine ⟨o, ?_, rfl, rfl⟩
      rw [List.find?_append, hnone, Option.none_or, List.find?_cons_of_pos hself]
  · refine List.pairwise_append.mpr ⟨h.ordered_snoc, List.pairwise_singleton _ _, ?_⟩
    intro u hu v hv
    obtain rfl := List.mem_singleton.mp hv
    obtain ⟨_, hfirst, _⟩ := h.first u hu
    obtain ⟨hkept, hlt⟩ := @findIdx_reaches_snoc t u.root offers o _ hfirst
    have hlast : offers.length ≤ (offers ++ [o]).findIdx (reaches t root) := by
      rw [List.findIdx_append, List.findIdx_eq_length_of_false]
      · rw [if_neg (Nat.lt_irrefl _)]
        omega
      · intro o' ho'
        exact Bool.eq_false_iff.mpr (List.find?_eq_none.mp hnone o' ho')
    rw [hkept]
    exact Nat.lt_of_lt_of_le hlt hlast
  · intro o' ho' root' hroot' hholds'
    rcases List.mem_append.mp ho' with ho' | ho'
    · obtain ⟨v, hv, hvroot⟩ := h.complete o' ho' root' hroot' hholds'
      exact ⟨v, List.mem_append_left _ hv, hvroot⟩
    · obtain rfl := List.mem_singleton.mp ho'
      rw [hroot] at hroot'
      exact ⟨_, List.mem_append_right _ List.mem_cons_self, Option.some.inj hroot'⟩

end

theorem keyOf_of_canonical {path : PosixPath} (h : t.canonicalize path = some root) :
    keyOf t path = root := by
  unfold keyOf
  rw [h]
  rfl

/-- A path where nothing can be resolved is no vault. -/
theorem canonicalize_of_holds {path : PosixPath} (h : Holds setting t (keyOf t path)) :
    t.canonicalize path = some (keyOf t path) := by
  cases hcanonical : t.canonicalize path with
  | some root => rw [keyOf_of_canonical hcanonical]
  | none =>
    unfold keyOf at h
    rw [hcanonical] at h
    obtain ⟨names, hnames, _⟩ := Links.resolve_of_lstat (holds_iff.mp h).1
    rw [Option.getD_none] at hnames
    unfold Links.Tree.canonicalize at hcanonical
    rw [hnames] at hcanonical
    cases hcanonical

/-- What is looked at under the name of a vault is the vault. -/
theorem canonicalize_of_key (hplace : Links.Place t t.workingDirectory) {path path' : PosixPath}
    (hroot : t.canonicalize path = some root) (hholds : Holds setting t root)
    (hkey : (keyOf t path').normalized = root.normalized) : t.canonicalize path' = some root := by
  obtain ⟨names, hresolve, hnames, rfl⟩ := (Links.canonicalize_eq_some hplace).mp hroot
  rw [Links.normalized_canonicalPath] at hkey
  cases hcanonical : t.canonicalize path' with
  | some root' =>
    obtain ⟨names', _, _, rfl⟩ := (Links.canonicalize_eq_some hplace).mp hcanonical
    rw [keyOf_of_canonical hcanonical, Links.normalized_canonicalPath] at hkey
    rw [hkey]
  | none =>
    have hdir : t.isDirectory names = true := by
      have hlstat := (holds_iff.mp hholds).1
      rw [Links.lstat_canonicalPath hnames] at hlstat
      unfold Links.Tree.isDirectory
      rw [hlstat]
    unfold keyOf at hkey
    rw [hcanonical] at hkey
    have hresolve' := Links.resolve_of_normalized hnames hdir hkey
    rw [Option.getD_none] at hresolve'
    unfold Links.Tree.canonicalize at hcanonical
    rw [hresolve'] at hcanonical
    cases hcanonical

theorem exists_mem_snoc {offers : List Offer} {o : Offer} {P : Offer → Prop} :
    (∃ o' ∈ offers ++ [o], P o') ↔ (∃ o' ∈ offers, P o') ∨ P o := by
  constructor
  · rintro ⟨o', ho', hP⟩
    rcases List.mem_append.mp ho' with ho' | ho'
    · exact .inl ⟨o', ho', hP⟩
    · obtain rfl := List.mem_singleton.mp ho'
      exact .inr hP
  · rintro (⟨o', ho', hP⟩ | hP)
    · exact ⟨o', List.mem_append_left _ ho', hP⟩
    · exact ⟨o, List.mem_append_right _ List.mem_cons_self, hP⟩

theorem run_offer {offers : List Offer} {set : CandidateSet}
    (h : Collected setting (w.tree s) offers set) (o : Offer) :
    ∃ set', run w.env (set.offer setting o.rule o.detail o.path) s = some (.ok set', s)
      ∧ Collected setting (w.tree s) (offers ++ [o]) set' := by
  have hplace := w.place s
  unfold CandidateSet.offer
  rw [run_bind_ok run_canonicalizeOr]
  by_cases hseen : (keyOf (w.tree s) o.path).normalized ∈ set.seen
  · rw [if_pos hseen]
    obtain ⟨o', ho', hkey⟩ := (h.seen _).mp hseen
    refine ⟨set, rfl, fun path => ?_, h.exact.skip fun root hroot hholds => ?_⟩
    · rw [h.seen, exists_mem_snoc, or_iff_left_of_imp]
      exact fun hpath => ⟨o', ho', hkey.trans hpath⟩
    · rw [keyOf_of_canonical hroot] at hkey
      exact h.exact.complete o' ho' root (canonicalize_of_key hplace hroot hholds hkey) hholds
  · rw [if_neg hseen]
    have hinsert : ∀ path, path ∈ set.seen.insert (keyOf (w.tree s) o.path).normalized
        ↔ ∃ o' ∈ offers ++ [o], (keyOf (w.tree s) o'.path).normalized = path := by
      intro path
      rw [BTreeSet.mem_insert, h.seen, exists_mem_snoc, or_comm, @eq_comm _ path]
    by_cases hvault : (keyOf (w.tree s) o.path).absolute = true
        ∧ Holds setting (w.tree s) (keyOf (w.tree s) o.path)
    · obtain ⟨habsolute, hholds⟩ := hvault
      have hroot := canonicalize_of_holds hholds
      have hcanonical := Links.canonicalize_canonical hplace hroot
      rw [run_bind_ok (run_probe_holds habsolute hholds)]
      refine ⟨_, rfl, hinsert, h.exact.add hcanonical hroot hholds fun o' ho' hsame => ?_⟩
      refine hseen ((h.seen _).mpr ⟨o', ho', ?_⟩)
      rw [keyOf_of_canonical hsame]
    · rw [run_bind_ok (run_probe_none hvault)]
      refine ⟨_, rfl, hinsert, h.exact.skip fun root hroot hholds => absurd ?_ hvault⟩
      rw [keyOf_of_canonical hroot]
      obtain ⟨names, _, _, rfl⟩ := (Links.canonicalize_eq_some hplace).mp hroot
      exact ⟨rfl, hholds⟩

/-! ## All offers -/

theorem collected_new : Collected setting t [] .new where
  seen path := by
    constructor
    · intro h
      cases h
    · rintro ⟨o, ho, _⟩
      cases ho
  exact :=
    { vaults := fun _ hv => nomatch hv
      first := fun _ hv => nomatch hv
      ordered := List.Pairwise.nil
      complete := fun _ ho => nomatch ho }

theorem run_offerAll_from (more : List Offer) : ∀ {offers : List Offer} {set : CandidateSet},
    Collected setting (w.tree s) offers set →
    ∃ set', run w.env (offerAll setting more set) s = some (.ok set', s)
      ∧ Collected setting (w.tree s) (offers ++ more) set' := by
  induction more with
  | nil =>
    intro offers set h
    rw [List.append_nil]
    exact ⟨set, rfl, h⟩
  | cons o more ih =>
    intro offers set h
    obtain ⟨set', hrun, hset'⟩ := run_offer h o
    obtain ⟨set'', hrun', hset''⟩ := ih hset'
    refine ⟨set'', ?_, ?_⟩
    · rw [offerAll, run_bind_ok hrun, hrun']
    · rwa [List.append_assoc] at hset''

/-- The found vaults are those that were offered, each once, under its first offer. -/
theorem run_offerAll (offers : List Offer) :
    ∃ set, run w.env (offerAll setting offers .new) s = some (.ok set, s)
      ∧ Exact setting (w.tree s) offers set.found := by
  obtain ⟨set, hrun, hset⟩ := @run_offerAll_from setting σ w s offers [] .new collected_new
  exact ⟨set, hrun, hset.exact⟩

end

end Kaleidoscope.Manager
