import Kaleidoscope.Lib.Path

/-!
# File trees with symbolic links

The entries of a tree under the names that lead to them from the root, and paths resolved in it
name by name: `.`, `..` and links are followed on the way, up to a number of links.  A path is
read as it is written, and a separator at its end counts as a `.`.

    resolve_join     a last name that is no link adds itself to what comes before
    lstat_of_stat    a path whose own name is no link is seen alike with and without following
    canonicalize_canonical    what `canonicalize` returns is its own canonical path
-/

namespace Links

inductive Entry where
  | directory
  | file (bytes : Bytes)
  | link (target : PosixPath)
  /-- a device, a socket or a pipe -/
  | special

/-- The entries of a file system by their names from the root, and the working directory. -/
structure Tree where
  entries : List (List Text × Entry)
  workingDirectory : List Text

/-- The number of links that one resolution follows. -/
def maxLinks : Nat := 40

namespace Tree

variable (t : Tree)

def get : List Text → Option Entry
  | [] => some .directory
  | names => t.entries.lookup names

def isDirectory (names : List Text) : Bool :=
  match t.get names with
  | some .directory => true
  | _ => false

/-- Follow the components from a directory; `onLink` goes on behind a link. -/
def walkWith (onLink : List Text → List Component → Option (List Text)) :
    List Text → List Component → Option (List Text)
  | dir, [] => some dir
  | dir, .curDir :: rest => if t.isDirectory dir then walkWith onLink dir rest else none
  | dir, .parentDir :: rest =>
    if t.isDirectory dir then walkWith onLink dir.dropLast rest else none
  | dir, .normal name :: rest =>
    if t.isDirectory dir then
      match t.get (dir ++ [name]) with
      | none => none
      | some (.link target) =>
        onLink (if target.absolute then [] else dir) (target.components ++ rest)
      | some _ => walkWith onLink (dir ++ [name]) rest
    else none

/-- Follow the components and at most so many links. -/
def walk : Nat → List Text → List Component → Option (List Text)
  | 0 => t.walkWith fun _ _ => none
  | links + 1 => t.walkWith (walk links)

/-- Where a path leads, links followed to the end. -/
def resolve (p : PosixPath) : Option (List Text) :=
  t.walk maxLinks (if p.absolute then [] else t.workingDirectory) p.components

def stat (p : PosixPath) : Option Entry := (t.resolve p).bind t.get

/-- The entry that a name stands for in the directory above; a link stands for itself. -/
def lstatIn (dir : List Text) (name : Text) : Option Entry :=
  if t.isDirectory dir then t.get (dir ++ [name]) else none

/-- The entry at a path; where its last component is a name, a link there is not followed. -/
def lstat (p : PosixPath) : Option Entry :=
  match p.fileName, p.parent with
  | some name, some parent => (t.resolve parent).bind fun dir => t.lstatIn dir name
  | _, _ => t.stat p

def canonicalize (p : PosixPath) : Option PosixPath :=
  (t.resolve p).map fun names => ⟨true, names.map .normal⟩

def read (p : PosixPath) : Option Bytes :=
  match t.stat p with
  | some (.file bytes) => some bytes
  | _ => none

/-- The names in a directory, each with what it stands for. -/
def readDir (p : PosixPath) : Option (List (Text × Entry)) :=
  match t.resolve p with
  | none => none
  | some dir =>
    if t.isDirectory dir then
      some (t.entries.filterMap fun entry =>
        match entry.1.getLast? with
        | some name => if entry.1 = dir ++ [name] then some (name, entry.2) else none
        | none => none)
    else none

end Tree

def Entry.isLink : Entry → Bool
  | .link _ => true
  | _ => false

/-! ## Lemmas -/

section

variable {t : Tree} {name : Text}

/-- One more name behind a directory, when it is no link. -/
def behind (t : Tree) (name : Text) (dir : List Text) : Option (List Text) :=
  (t.lstatIn dir name).map fun _ => dir ++ [name]

/-- Whether the name is a link in the directory. -/
def LinkIn (t : Tree) (name : Text) (dir : List Text) : Prop :=
  (t.lstatIn dir name).any Entry.isLink = true

theorem walkWith_name {onLink : List Text → List Component → Option (List Text)} {dir : List Text}
    (h : ¬LinkIn t name dir) : t.walkWith onLink dir [.normal name] = behind t name dir := by
  unfold LinkIn Tree.lstatIn at h
  unfold behind Tree.lstatIn
  rw [Tree.walkWith]
  by_cases hdir : t.isDirectory dir
  · rw [if_pos hdir] at h ⊢
    cases hget : t.get (dir ++ [name]) with
    | none => simp [hdir]
    | some entry =>
      cases entry with
      | link target =>
        rw [hget] at h
        exact absurd rfl h
      | directory => simp [hdir, Tree.walkWith]
      | file bytes => simp [hdir, Tree.walkWith]
      | special => simp [hdir, Tree.walkWith]
  · simp [hdir]

theorem walkWith_append {onLink : List Text → List Component → Option (List Text)}
    (hlink : ∀ dir comps, (∀ d, onLink dir comps = some d → ¬LinkIn t name d) →
      onLink dir (comps ++ [.normal name]) = (onLink dir comps).bind (behind t name))
    (comps : List Component) (dir : List Text)
    (h : ∀ d, t.walkWith onLink dir comps = some d → ¬LinkIn t name d) :
    t.walkWith onLink dir (comps ++ [.normal name])
      = (t.walkWith onLink dir comps).bind (behind t name) := by
  induction comps generalizing dir with
  | nil =>
    rw [List.nil_append, walkWith_name (h dir rfl)]
    rfl
  | cons c rest ih =>
    rw [List.cons_append]
    by_cases hdir : t.isDirectory dir
    · cases c with
      | curDir =>
        simp only [Tree.walkWith, hdir, if_true] at h ⊢
        exact ih dir h
      | parentDir =>
        simp only [Tree.walkWith, hdir, if_true] at h ⊢
        exact ih dir.dropLast h
      | normal next =>
        simp only [Tree.walkWith, hdir, if_true] at h ⊢
        cases hget : t.get (dir ++ [next]) with
        | none => rfl
        | some entry =>
          rw [hget] at h
          cases entry with
          | link target =>
            simp only at h ⊢
            rw [← List.append_assoc]
            exact hlink _ _ h
          | directory => exact ih _ h
          | file bytes => exact ih _ h
          | special => exact ih _ h
    · cases c <;> simp [Tree.walkWith, hdir]

theorem walk_append (links : Nat) (comps : List Component) (dir : List Text)
    (h : ∀ d, t.walk links dir comps = some d → ¬LinkIn t name d) :
    t.walk links dir (comps ++ [.normal name])
      = (t.walk links dir comps).bind (behind t name) := by
  induction links generalizing comps dir with
  | zero => exact walkWith_append (fun _ _ _ => rfl) comps dir h
  | succ links ih => exact walkWith_append (fun dir comps => ih comps dir) comps dir h

theorem resolve_join {p : PosixPath} (h : ∀ d, t.resolve p = some d → ¬LinkIn t name d) :
    t.resolve (p.join name) = (t.resolve p).bind (behind t name) :=
  walk_append maxLinks p.components _ h

theorem lstat_join (p : PosixPath) :
    t.lstat (p.join name) = (t.resolve p).bind fun dir => t.lstatIn dir name := by
  unfold Tree.lstat
  simp [PosixPath.fileName, PosixPath.join, PosixPath.parent]

/-- A path whose own name is no link is seen alike with and without following links. -/
theorem lstat_of_stat {p : PosixPath} (h : (t.lstat p).any Entry.isLink = false) :
    t.lstat p = t.stat p := by
  cases hname : p.fileName with
  | none => simp [Tree.lstat, hname]
  | some name =>
    cases hparent : p.parent with
    | none => simp [Tree.lstat, hname, hparent]
    | some parent =>
      obtain rfl := PosixPath.eq_join hname hparent
      rw [lstat_join] at h ⊢
      have hplain : ∀ d, t.resolve parent = some d → ¬LinkIn t name d := by
        intro d hd
        rw [hd] at h
        unfold LinkIn
        rw [Option.bind_some] at h
        simp [h]
      unfold Tree.stat
      rw [resolve_join hplain]
      cases hd : t.resolve parent with
      | none => rfl
      | some dir =>
        rw [Option.bind_some, Option.bind_some]
        unfold behind
        cases hentry : t.lstatIn dir name with
        | none => rfl
        | some entry =>
          unfold Tree.lstatIn at hentry
          split at hentry
          · exact hentry.symm
          · cases hentry

/-! ## Canonical paths -/

/-- A name that is reached through directories only, no link among the names. -/
def Place (t : Tree) (names : List Text) : Prop :=
  ∀ before name rest, names = before ++ name :: rest →
    t.isDirectory before = true ∧ ∃ entry, t.get (before ++ [name]) = some entry
      ∧ entry.isLink = false

def canonicalPath (names : List Text) : PosixPath := ⟨true, names.map .normal⟩

theorem place_nil : Place t [] := by
  intro before name rest h
  cases before <;> cases h

theorem Place.dropLast {names : List Text} (h : Place t names) : Place t names.dropLast := by
  intro before next rest hnames
  have hne : names ≠ [] := by
    rintro rfl
    cases before <;> cases hnames
  refine h before next (rest ++ [names.getLast hne]) ?_
  conv_lhs => rw [← List.dropLast_append_getLast hne, hnames]
  simp

theorem Place.snoc {dir : List Text} {entry : Entry} (h : Place t dir)
    (hdir : t.isDirectory dir = true) (hget : t.get (dir ++ [name]) = some entry)
    (hlink : entry.isLink = false) : Place t (dir ++ [name]) := by
  intro before next rest hnames
  rcases List.eq_nil_or_concat rest with rfl | ⟨rest, last, rfl⟩
  · obtain ⟨rfl, hnext⟩ := List.append_inj' hnames rfl
    cases hnext
    exact ⟨hdir, entry, hget, hlink⟩
  · rw [List.concat_eq_append, ← List.cons_append, ← List.append_assoc] at hnames
    exact h before next rest (List.append_inj' hnames rfl).1

theorem walkWith_place {onLink : List Text → List Component → Option (List Text)}
    (honLink : ∀ dir comps names, Place t dir → onLink dir comps = some names → Place t names)
    (comps : List Component) : ∀ {dir names : List Text}, Place t dir →
    t.walkWith onLink dir comps = some names → Place t names := by
  induction comps with
  | nil =>
    intro dir names hplace h
    cases h
    exact hplace
  | cons c rest ih =>
    intro dir names hplace h
    by_cases hdir : t.isDirectory dir = true
    · cases c with
      | curDir =>
        rw [Tree.walkWith, if_pos hdir] at h
        exact ih hplace h
      | parentDir =>
        rw [Tree.walkWith, if_pos hdir] at h
        exact ih hplace.dropLast h
      | normal next =>
        rw [Tree.walkWith, if_pos hdir] at h
        cases hget : t.get (dir ++ [next]) with
        | none =>
          rw [hget] at h
          cases h
        | some entry =>
          rw [hget] at h
          cases entry with
          | link target =>
            refine honLink _ _ _ ?_ h
            split
            · exact place_nil
            · exact hplace
          | directory => exact ih (hplace.snoc hdir hget rfl) h
          | file bytes => exact ih (hplace.snoc hdir hget rfl) h
          | special => exact ih (hplace.snoc hdir hget rfl) h
    · cases c <;> simp [Tree.walkWith, hdir] at h

theorem walk_place (links : Nat) : ∀ {comps : List Component} {dir names : List Text},
    Place t dir → t.walk links dir comps = some names → Place t names := by
  induction links with
  | zero =>
    intro comps dir names hplace h
    exact walkWith_place (fun _ _ _ _ h => by cases h) comps hplace h
  | succ links ih =>
    intro comps dir names hplace h
    exact walkWith_place (fun _ _ _ hplace h => ih hplace h) comps hplace h

/-- The names of a place lead to it, with any number of `.` between them if it is a directory. -/
theorem walkWith_of_place {onLink : List Text → List Component → Option (List Text)}
    (comps : List Component) : ∀ {before rest : List Text}, Place t (before ++ rest) →
    comps.filter (· ≠ .curDir) = rest.map .normal →
    (.curDir ∈ comps → t.isDirectory (before ++ rest) = true) →
    t.walkWith onLink before comps = some (before ++ rest) := by
  induction comps with
  | nil =>
    intro before rest _ hnames _
    obtain rfl := List.map_eq_nil_iff.mp hnames.symm
    rw [List.append_nil]
    rfl
  | cons c comps ih =>
    intro before rest hplace hnames hdir
    cases c with
    | curDir =>
      have hbefore : t.isDirectory before = true := by
        cases rest with
        | nil => simpa using hdir List.mem_cons_self
        | cons next rest => exact (hplace before next rest rfl).1
      rw [Tree.walkWith, if_pos hbefore]
      exact ih hplace (by simpa using hnames) fun _ => hdir List.mem_cons_self
    | parentDir =>
      cases rest with
      | nil => simp at hnames
      | cons next rest => simp at hnames
    | normal next =>
      cases rest with
      | nil => simp at hnames
      | cons next' rest =>
        have hcons : Component.normal next = .normal next'
            ∧ comps.filter (· ≠ .curDir) = rest.map .normal := by simpa using hnames
        obtain ⟨hnext, hrest⟩ := hcons
        cases hnext
        obtain ⟨hbefore, entry, hget, hlink⟩ := hplace before next rest rfl
        have hwalk := @ih (before ++ [next]) rest (by simpa using hplace) hrest
          (fun h => by simpa using hdir (List.mem_cons_of_mem _ h))
        rw [Tree.walkWith, if_pos hbefore, hget]
        cases entry with
        | link target => cases hlink
        | directory => simpa using hwalk
        | file bytes => simpa using hwalk
        | special => simpa using hwalk

theorem walk_of_place {links : Nat} {comps : List Component} {names : List Text}
    (hplace : Place t names) (hnames : comps.filter (· ≠ .curDir) = names.map .normal)
    (hdir : .curDir ∈ comps → t.isDirectory names = true) :
    t.walk links [] comps = some names := by
  cases links with
  | zero => exact @walkWith_of_place t _ comps [] names hplace hnames hdir
  | succ links => exact @walkWith_of_place t _ comps [] names hplace hnames hdir

theorem resolve_canonicalPath {names : List Text} (hplace : Place t names) :
    t.resolve (canonicalPath names) = some names := by
  refine walk_of_place hplace ?_ ?_
  · exact List.filter_eq_self.mpr fun c hc => by
      obtain ⟨next, _, rfl⟩ := List.mem_map.mp hc
      simp
  · intro h
    obtain ⟨next, _, hnext⟩ := List.mem_map.mp h
    cases hnext

section

variable (hcwd : Place t t.workingDirectory)

include hcwd

theorem resolve_place {p : PosixPath} {names : List Text} (h : t.resolve p = some names) :
    Place t names := by
  refine walk_place maxLinks ?_ h
  split
  · exact place_nil
  · exact hcwd

theorem canonicalize_eq_some {p q : PosixPath} :
    t.canonicalize p = some q
      ↔ ∃ names, t.resolve p = some names ∧ Place t names ∧ q = canonicalPath names := by
  unfold Tree.canonicalize
  rw [Option.map_eq_some_iff]
  constructor
  · rintro ⟨names, hnames, rfl⟩
    exact ⟨names, hnames, resolve_place hcwd hnames, rfl⟩
  · rintro ⟨names, hnames, _, rfl⟩
    exact ⟨names, hnames, rfl⟩

/-- What `canonicalize` returns is its own canonical path. -/
theorem canonicalize_canonical {p q : PosixPath} (h : t.canonicalize p = some q) :
    t.canonicalize q = some q := by
  obtain ⟨names, _, hplace, rfl⟩ := (canonicalize_eq_some hcwd).mp h
  exact (canonicalize_eq_some hcwd).mpr ⟨names, resolve_canonicalPath hplace, hplace, rfl⟩

end

theorem normalized_canonicalPath {names : List Text} :
    (canonicalPath names).normalized = canonicalPath names := by
  unfold PosixPath.normalized canonicalPath
  dsimp only
  congr 1
  refine List.filter_eq_self.mpr fun c hc => ?_
  obtain ⟨next, _, rfl⟩ := List.mem_map.mp hc
  simp

/-- A directory has one canonical path under all the spellings that compare alike. -/
theorem resolve_of_normalized {p : PosixPath} {names : List Text} (hplace : Place t names)
    (hdir : t.isDirectory names = true) (h : p.normalized = canonicalPath names) :
    t.resolve p = some names := by
  obtain ⟨absolute, comps⟩ := p
  cases absolute with
  | true =>
    have hcomps : comps.filter (· ≠ .curDir) = names.map .normal := by
      have := congrArg PosixPath.components h
      exact this
    exact walk_of_place hplace hcomps fun _ => hdir
  | false =>
    have habsolute := congrArg PosixPath.absolute h
    unfold PosixPath.normalized at habsolute
    cases comps with
    | nil => cases habsolute
    | cons c comps => cases c <;> cases habsolute

theorem resolve_of_lstat {p : PosixPath} (h : t.lstat p = some .directory) :
    ∃ names, t.resolve p = some names ∧ t.isDirectory names = true := by
  have hstat : t.stat p = some .directory := by
    rw [← lstat_of_stat (by rw [h]; rfl), h]
  obtain ⟨names, hnames, hget⟩ := Option.bind_eq_some_iff.mp hstat
  refine ⟨names, hnames, ?_⟩
  unfold Tree.isDirectory
  rw [hget]

theorem lstat_canonicalPath {names : List Text} (hplace : Place t names) :
    t.lstat (canonicalPath names) = t.get names := by
  have hstat : t.stat (canonicalPath names) = t.get names := by
    unfold Tree.stat
    rw [resolve_canonicalPath hplace, Option.bind_some]
  rcases List.eq_nil_or_concat names with rfl | ⟨before, last, rfl⟩
  · exact hstat
  · rw [List.concat_eq_append] at hplace ⊢
    obtain ⟨hdir, entry, hget, hlink⟩ := hplace before last [] rfl
    have hbefore : Place t before := by
      have := hplace.dropLast
      rwa [List.dropLast_concat] at this
    have hjoin : canonicalPath (before ++ [last]) = (canonicalPath before).join last := by
      unfold canonicalPath PosixPath.join
      rw [List.map_append]
      rfl
    rw [hjoin, lstat_join, resolve_canonicalPath hbefore, Option.bind_some, Tree.lstatIn,
      if_pos hdir]

end

end Links
