import Kaleidoscope.Lib.Text

/-!
# Paths

A path as its components, which is how two paths are compared.  Names are text.

    withSuffix_inj               paths beside one file are told apart by their suffix
    length_lt_of_mem_ancestors   a directory above a path is a shorter path
-/

inductive Component where
  | curDir
  | parentDir
  | normal (name : Text)
  deriving DecidableEq, Ord

def Component.text : Component → Text
  | .curDir => ".".toList
  | .parentDir => "..".toList
  | .normal name => name

/-- A path: whether it starts at the root, and the components after that. -/
structure PosixPath where
  absolute : Bool
  components : List Component
  deriving DecidableEq, Ord

namespace PosixPath

def root : PosixPath := ⟨true, []⟩

/-- Whether a component is `.` or `..`. -/
def hasTraversal (p : PosixPath) : Bool := p.components.any fun c => c == .curDir || c == .parentDir

def fileName (p : PosixPath) : Option Text :=
  match p.components.getLast? with
  | some (.normal name) => some name
  | _ => none

/-- The path as it is compared: a `.` counts at the start of a relative path only. -/
def normalized (p : PosixPath) : PosixPath :=
  match p.absolute, p.components with
  | false, .curDir :: rest => ⟨false, .curDir :: rest.filter (· ≠ .curDir)⟩
  | absolute, components => ⟨absolute, components.filter (· ≠ .curDir)⟩

/-- The path as text. -/
def display (p : PosixPath) : Text :=
  (if p.absolute then ['/'] else []) ++ ['/'].intercalate (p.components.map Component.text)

/-- The path without its last component; a root has no parent. -/
def parent (p : PosixPath) : Option PosixPath :=
  if p.components = [] then none else some { p with components := p.components.dropLast }

def join (p : PosixPath) (name : Text) : PosixPath :=
  { p with components := p.components ++ [.normal name] }

/-- The paths that extend `base` by one more of the components each. -/
def prefixes (base : PosixPath) : List Component → List PosixPath
  | [] => []
  | c :: rest =>
    let next : PosixPath := { base with components := base.components ++ [c] }
    next :: prefixes next rest

/-- The directories above a path, outermost first, without the root. -/
def ancestors (p : PosixPath) : List PosixPath :=
  prefixes { p with components := [] } p.components.dropLast

/-- The path beside `p` whose name has the suffix appended. -/
def withSuffix (p : PosixPath) (suffix : Text) : Option PosixPath :=
  match p.fileName, p.parent with
  | some name, some parent => some (parent.join (name ++ suffix))
  | _, _ => none

/-! ## Lemmas -/

@[simp] theorem parent_join (p : PosixPath) (name : Text) : (p.join name).parent = some p := by
  simp [join, parent]

theorem ancestors_join (p : PosixPath) (name name' : Text) :
    (p.join name).ancestors = (p.join name').ancestors := by
  simp [ancestors, join]

theorem join_inj {p q : PosixPath} {name name' : Text} :
    p.join name = q.join name' ↔ p = q ∧ name = name' := by
  cases p
  cases q
  simp [join]
  tauto

theorem length_parent {p q : PosixPath} (h : p.parent = some q) :
    q.components.length + 1 = p.components.length := by
  unfold parent at h
  split at h
  next => cases h
  next hne =>
    cases h
    have hpos := List.length_pos_of_ne_nil hne
    simp only [List.length_dropLast]
    omega

theorem length_prefixes {base p : PosixPath} {rest : List Component} (h : p ∈ prefixes base rest) :
    p.components.length ≤ base.components.length + rest.length := by
  induction rest generalizing base with
  | nil => cases h
  | cons c rest ih =>
    rcases List.mem_cons.mp h with rfl | h
    · simp
    · have hle := ih h
      simp only [List.length_append, List.length_cons, List.length_nil] at hle ⊢
      omega

theorem length_lt_of_mem_prefixes {base p : PosixPath} {rest : List Component}
    (h : p ∈ prefixes base rest) : base.components.length < p.components.length := by
  induction rest generalizing base with
  | nil => cases h
  | cons c rest ih =>
    rcases List.mem_cons.mp h with rfl | h
    · simp
    · have hlt := ih h
      simp only [List.length_append, List.length_cons, List.length_nil] at hlt
      omega

/-- Each directory above a path is longer than those before it. -/
theorem prefixes_sorted (base : PosixPath) (rest : List Component) :
    (prefixes base rest).Pairwise fun p q => p.components.length < q.components.length := by
  induction rest generalizing base with
  | nil => exact .nil
  | cons c rest ih => exact .cons (fun q hq => length_lt_of_mem_prefixes hq) (ih _)

theorem ancestors_reverse_sorted (p : PosixPath) :
    p.ancestors.reverse.Pairwise fun a b => b.components.length < a.components.length :=
  List.pairwise_reverse.mpr (prefixes_sorted _ _)

theorem parent_next (base : PosixPath) (c : Component) :
    PosixPath.parent { base with components := base.components ++ [c] } = some base := by
  simp [PosixPath.parent]

/-- A directory above a path is a shorter path. -/
theorem length_lt_of_mem_ancestors {p q : PosixPath} (h : q ∈ p.ancestors) :
    q.components.length < p.components.length := by
  have hle := length_prefixes h
  cases hp : p.components with
  | nil =>
    rw [ancestors, hp] at h
    cases h
  | cons c rest =>
    simp only [hp, List.length_nil, List.length_dropLast, List.length_cons] at hle ⊢
    omega

theorem mem_prefixes_last {base : PosixPath} {rest : List Component} (h : rest ≠ []) :
    { base with components := base.components ++ rest } ∈ prefixes base rest := by
  induction rest generalizing base with
  | nil => exact absurd rfl h
  | cons c rest ih =>
    cases rest with
    | nil => simp [prefixes]
    | cons c' rest =>
      have hmem := @ih { base with components := base.components ++ [c] } (by simp)
      simp only [List.append_assoc, List.singleton_append] at hmem
      exact List.mem_cons_of_mem _ hmem

/-- The parent is the last of the directories above, unless it is the root. -/
theorem parent_mem_ancestors {p parent : PosixPath} (h : p.parent = some parent)
    (hne : parent.components ≠ []) : parent ∈ p.ancestors := by
  unfold PosixPath.parent at h
  split at h
  next => cases h
  next =>
    cases h
    have hmem := @mem_prefixes_last { p with components := [] } p.components.dropLast hne
    simp only [List.nil_append] at hmem
    exact hmem

theorem withSuffix_eq_some {p q : PosixPath} {suffix : Text} :
    p.withSuffix suffix = some q ↔
      ∃ name parent, p.fileName = some name ∧ p.parent = some parent
        ∧ q = parent.join (name ++ suffix) := by
  unfold withSuffix
  cases p.fileName <;> cases p.parent <;> simp [eq_comm]

theorem eq_join {p parent : PosixPath} {name : Text} (hname : p.fileName = some name)
    (hparent : p.parent = some parent) : p = parent.join name := by
  obtain ⟨absolute, components⟩ := p
  unfold fileName at hname
  unfold PosixPath.parent at hparent
  split at hparent
  next => cases hparent
  next hne =>
    cases hparent
    split at hname
    next n hlast =>
      cases hname
      have hl : components.getLast hne = .normal name := by
        rw [List.getLast?_eq_some_getLast hne] at hlast
        exact Option.some.inj hlast
      have happ := List.dropLast_append_getLast hne
      rw [hl] at happ
      simp [join, happ]
    next => cases hname

theorem parent_withSuffix {p q : PosixPath} {suffix : Text} (h : p.withSuffix suffix = some q) :
    q.parent = p.parent := by
  obtain ⟨name, parent, _, hparent, rfl⟩ := withSuffix_eq_some.mp h
  rw [parent_join, hparent]

theorem ancestors_withSuffix {p q : PosixPath} {suffix : Text} (h : p.withSuffix suffix = some q) :
    q.ancestors = p.ancestors := by
  obtain ⟨name, parent, hname, hparent, rfl⟩ := withSuffix_eq_some.mp h
  rw [eq_join hname hparent]
  exact ancestors_join _ _ _

theorem withSuffix_inj {p q : PosixPath} {suffix suffix' : Text} (h : p.withSuffix suffix = some q)
    (h' : p.withSuffix suffix' = some q) : suffix = suffix' := by
  obtain ⟨name, parent, hname, hparent, rfl⟩ := withSuffix_eq_some.mp h
  obtain ⟨name', parent', hname', _, heq⟩ := withSuffix_eq_some.mp h'
  rw [hname] at hname'
  cases hname'
  exact List.append_cancel_left (join_inj.mp heq).2

/-- A path with a suffix is another path. -/
theorem withSuffix_ne {p q : PosixPath} {suffix : Text} (h : p.withSuffix suffix = some q)
    (hne : suffix ≠ []) : q ≠ p := by
  obtain ⟨name, parent, hname, hparent, rfl⟩ := withSuffix_eq_some.mp h
  rw [eq_join hname hparent]
  intro heq
  have happ := (join_inj.mp heq).2
  exact hne (by simpa using happ)

/-- Paths beside each other are as long as each other. -/
theorem length_withSuffix {p q : PosixPath} {suffix : Text} (h : p.withSuffix suffix = some q) :
    q.components.length = p.components.length := by
  obtain ⟨name, parent, hname, hparent, rfl⟩ := withSuffix_eq_some.mp h
  rw [eq_join hname hparent]
  simp [join]

end PosixPath
