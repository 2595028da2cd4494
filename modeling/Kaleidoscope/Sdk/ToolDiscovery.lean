import Kaleidoscope.Lib.Prog
import Kaleidoscope.Sdk.Descriptor

/-!
# The discovery of the tools

A session asks the server for pages of tools until a page has no cursor, and takes exactly the
expected ones.  Python walks the pages itself, without a bound; TypeScript leaves the walk to its
client, and gives it one.

    assertExactTools_ends     the walk ends with the first page that has no cursor, or a bad tool
    tool_discovery_iff         when Python stops, and what either SDK accepts
-/

namespace Kaleidoscope.Sdk

open Unicode (Points)
open JsonReader (ofText JsonValue)

/-! ## Algorithm -/

/-- A tool as the server publishes it. -/
structure PublishedTool where
  name : Points
  description : Option Points
  /-- `inputSchema`, or else `input_schema` -/
  inputSchema : Option JsonValue

/-- A page of `list_tools`. -/
structure ToolPage where
  tools : List PublishedTool
  /-- `next_cursor`, or else `nextCursor` -/
  nextCursor : Option Points

structure ToolDefinition where
  name : Points
  description : Points
  inputSchema : JsonValue

/-- The `ProtocolError` of a discovery. -/
inductive DiscoveryError where
  /-- `MCP tool ... published no input schema` -/
  | noSchema (name : Points)
  /-- `MCP discovery must publish exactly ...; got ...` -/
  | notExact (names : List Points)
  deriving DecidableEq

/-- `_definition_of` -/
def definitionOf (tool : PublishedTool) : Except DiscoveryError ToolDefinition :=
  match tool.inputSchema with
  | some (.object members) => .ok ⟨tool.name, tool.description.getD [], .object members⟩
  | _ => .error (.noSchema tool.name)

/-- Whether the server says that there are more pages; an empty cursor is none. -/
def ToolPage.hasMore (page : ToolPage) : Bool := page.nextCursor.any fun cursor => !cursor.isEmpty

/-- The loop of `_assert_exact_tools` over the replies of the server, from reply `k` on: what was
discovered, or nothing where it goes on after `fuel` pages. -/
def readPages (pages : Nat → ToolPage) : (fuel k : Nat) → (discovered : List ToolDefinition) →
    Option (Except DiscoveryError (List ToolDefinition))
  | 0, _, _ => none
  | fuel + 1, k, discovered =>
    match (pages k).tools.mapM definitionOf with
    | .error e => some (.error e)
    | .ok definitions =>
      if (pages k).hasMore then readPages pages fuel (k + 1) (discovered ++ definitions)
      else some (.ok (discovered ++ definitions))

/-- No name comes twice, and the names are those that are expected. -/
def isExactly (names : List Points) : Bool :=
  names.Nodup && names.all (· ∈ expectedTools) && expectedTools.all (· ∈ names)

/-- The tools in the order of the engine, not of the pages; of one name the last. -/
def inExpectedOrder (discovered : List ToolDefinition) : List ToolDefinition :=
  expectedTools.filterMap fun name => discovered.reverse.find? fun tool => tool.name == name

/-- `_assert_exact_tools`, as far as `fuel` pages. -/
def assertExactTools (pages : Nat → ToolPage) (fuel : Nat) :
    Option (Except DiscoveryError (List ToolDefinition)) :=
  (readPages pages fuel 0 []).map fun read => do
    let discovered ← read
    let names := discovered.map (·.name)
    if !isExactly names then .error (.notExact names)
    else .ok (inExpectedOrder discovered)

/-- The MCP client of TypeScript: how many pages its `listTools` asks for, with the option
`listMaxPages`, and the tools that it returns. -/
abbrev ListTools := (maxPages : Nat) → (Nat → ToolPage) → Nat × Option (List PublishedTool)

def listMaxPages : Nat := 4

/-- The same members, as many. -/
def sameSet (left right : List Points) : Bool :=
  left.length == right.length && left.all (· ∈ right)

/-- The discovery in `connect`: how many pages are asked for, and whether the tools are taken. -/
def discoverTools (listTools : ListTools) (pages : Nat → ToolPage) : Nat × Bool :=
  let (requests, tools) := listTools listMaxPages pages
  (requests, tools.any fun tools =>
    let names := tools.map (·.name)
    names.Nodup && sameSet names expectedTools)

/-! ## Statement -/

/-- A page after which no other is asked for. -/
def ToolPage.Last (page : ToolPage) : Prop :=
  page.hasMore = false ∨ ∃ tool ∈ page.tools, ∀ members, tool.inputSchema ≠ some (.object members)

/-- The names of all tools of the first pages. -/
def namesUpTo (pages : Nat → ToolPage) (n : Nat) : List Points :=
  (List.range n).flatMap fun k => (pages k).tools.map (·.name)

/-- The expected tools, each once. -/
def Exactly (names : List Points) : Prop := names.Nodup ∧ ∀ name, name ∈ names ↔ name ∈ expectedTools

/-- Python stops after some number of pages. -/
def Ends (pages : Nat → ToolPage) : Prop := ∃ n, assertExactTools pages n ≠ none

/-- What Python accepts: the tools of all pages up to the first without a cursor. -/
def AcceptsExactly (pages : Nat → ToolPage) : Prop :=
  ∀ n tools, assertExactTools pages n = some (.ok tools) →
    ∃ k, (pages k).hasMore = false ∧ (∀ j < k, (pages j).hasMore = true)
      ∧ Exactly (namesUpTo pages (k + 1))

/-- TypeScript asks for at most four pages, and accepts what Python does of those. -/
def BoundsPages (listTools : ListTools) (pages : Nat → ToolPage) : Prop :=
  (discoverTools listTools pages).1 ≤ 4
    ∧ ((discoverTools listTools pages).2 = true →
      Exactly (namesUpTo pages (discoverTools listTools pages).1))

/-- What the client of TypeScript documents: it asks for no more pages than it is told, and returns
the tools of those that it asked for. -/
structure ListTools.Documented (listTools : ListTools) : Prop where
  bounded : ∀ maxPages pages, (listTools maxPages pages).1 ≤ maxPages
  aggregated : ∀ maxPages pages tools, (listTools maxPages pages).2 = some tools →
    tools = (List.range (listTools maxPages pages).1).flatMap fun k => (pages k).tools

/-! ## Lemmas -/

theorem definitionOf_name {tool : PublishedTool} {definition : ToolDefinition}
    (h : definitionOf tool = .ok definition) : definition.name = tool.name := by
  unfold definitionOf at h
  split at h
  · rw [← Except.ok.inj h]
  · cases h

theorem mapM_definitionOf_names : ∀ {tools : List PublishedTool} {definitions : List ToolDefinition},
    tools.mapM definitionOf = .ok definitions →
    definitions.map (·.name) = tools.map (·.name) := by
  intro tools
  induction tools with
  | nil =>
    intro definitions h
    cases h
    rfl
  | cons tool tools ih =>
    intro definitions h
    rw [List.mapM_cons] at h
    obtain ⟨definition, hdefinition, h⟩ := except_bind_eq_ok.mp h
    obtain ⟨rest, hrest, h⟩ := except_bind_eq_ok.mp h
    obtain rfl := Except.ok.inj h
    rw [List.map_cons, List.map_cons, definitionOf_name hdefinition, ih hrest]

theorem mapM_definitionOf_error {tools : List PublishedTool} :
    (∃ e, tools.mapM definitionOf = .error e)
      ↔ ∃ tool ∈ tools, ∀ members, tool.inputSchema ≠ some (.object members) := by
  induction tools with
  | nil =>
    constructor
    · rintro ⟨e, he⟩
      cases he
    · rintro ⟨tool, htool, -⟩
      cases htool
  | cons tool tools ih =>
    rw [List.mapM_cons]
    cases hdefinition : definitionOf tool with
    | error e =>
      refine iff_of_true ⟨e, rfl⟩ ⟨tool, List.mem_cons_self, fun members hschema => ?_⟩
      unfold definitionOf at hdefinition
      rw [hschema] at hdefinition
      cases hdefinition
    | ok definition =>
      have hgood : ¬∀ members, tool.inputSchema ≠ some (.object members) := by
        intro hbad
        unfold definitionOf at hdefinition
        split at hdefinition
        next members hschema => exact hbad members hschema
        next => cases hdefinition
      rw [List.exists_mem_cons_iff, or_iff_right hgood, ← ih]
      cases tools.mapM definitionOf with
      | error e => exact iff_of_true ⟨e, rfl⟩ ⟨e, rfl⟩
      | ok rest =>
        refine iff_of_false ?_ ?_
        · rintro ⟨e, he⟩
          cases he
        · rintro ⟨e, he⟩
          cases he

section

variable {pages : Nat → ToolPage}

/-- A page that is not the last hands its tools on. -/
theorem readPages_step {fuel k : Nat} {discovered : List ToolDefinition}
    (h : ¬(pages k).Last) : ∃ definitions, (pages k).tools.mapM definitionOf = .ok definitions
      ∧ readPages pages (fuel + 1) k discovered
        = readPages pages fuel (k + 1) (discovered ++ definitions) := by
  unfold ToolPage.Last at h
  rw [not_or, Bool.not_eq_false, ← mapM_definitionOf_error] at h
  obtain ⟨hmore, hgood⟩ := h
  rw [readPages]
  cases hread : (pages k).tools.mapM definitionOf with
  | error e => exact absurd ⟨e, hread⟩ hgood
  | ok definitions =>
    refine ⟨definitions, rfl, ?_⟩
    dsimp only
    rw [if_pos hmore]

/-- The last page ends the walk. -/
theorem readPages_last {fuel k : Nat} {discovered : List ToolDefinition} (h : (pages k).Last) :
    readPages pages (fuel + 1) k discovered ≠ none := by
  rw [readPages]
  cases hread : (pages k).tools.mapM definitionOf with
  | error e => exact Option.some_ne_none _
  | ok definitions =>
    dsimp only
    rcases h with hmore | hbad
    · rw [hmore]
      exact Option.some_ne_none _
    · obtain ⟨e, he⟩ := mapM_definitionOf_error.mpr hbad
      rw [hread] at he
      cases he

/-- The walk reads as many pages as there are up to the first that is the last. -/
theorem readPages_eq_none_iff (fuel : Nat) : ∀ (k : Nat) (discovered : List ToolDefinition),
    readPages pages fuel k discovered = none ↔ ∀ j < fuel, ¬(pages (k + j)).Last := by
  induction fuel with
  | zero =>
    intro k discovered
    exact iff_of_true rfl fun j hj => absurd hj (Nat.not_lt_zero j)
  | succ fuel ih =>
    intro k discovered
    by_cases hlast : (pages k).Last
    · exact iff_of_false (readPages_last hlast) fun h => h 0 (Nat.succ_pos fuel) hlast
    · obtain ⟨definitions, -, hstep⟩ := @readPages_step pages fuel k discovered hlast
      rw [hstep, ih]
      constructor
      · intro h j hj
        cases j with
        | zero => exact hlast
        | succ j =>
          rw [show k + (j + 1) = k + 1 + j by omega]
          exact h j (by omega)
      · intro h j hj
        rw [show k + 1 + j = k + (j + 1) by omega]
        exact h (j + 1) (by omega)

/-- Python stops if and only if some page is the last. -/
theorem assertExactTools_ends : Ends pages ↔ ∃ k, (pages k).Last := by
  have hnone : ∀ n, assertExactTools pages n = none ↔ ∀ j < n, ¬(pages j).Last := by
    intro n
    unfold assertExactTools
    rw [Option.map_eq_none_iff, readPages_eq_none_iff]
    simp only [Nat.zero_add]
  constructor
  · rintro ⟨n, hn⟩
    rw [Ne, hnone] at hn
    by_contra hnever
    exact hn fun j _ hlast => hnever ⟨j, hlast⟩
  · rintro ⟨k, hlast⟩
    refine ⟨k + 1, fun h => (hnone _).mp h k (Nat.lt_succ_self k) hlast⟩

theorem isExactly_iff {names : List Points} : isExactly names = true ↔ Exactly names := by
  unfold isExactly Exactly
  rw [Bool.and_eq_true, Bool.and_eq_true, decide_eq_true_iff, List.all_eq_true, List.all_eq_true,
    and_assoc]
  refine and_congr_right fun _ => ?_
  constructor
  · rintro ⟨hsub, hsup⟩ name
    exact ⟨fun h => of_decide_eq_true (hsub name h), fun h => of_decide_eq_true (hsup name h)⟩
  · intro h
    exact ⟨fun name hname => decide_eq_true ((h name).mp hname),
      fun name hname => decide_eq_true ((h name).mpr hname)⟩

/-- What a walk that ends has discovered. -/
theorem readPages_names (fuel : Nat) : ∀ {k : Nat} {discovered tools : List ToolDefinition},
    readPages pages fuel k discovered = some (.ok tools) →
    ∃ n, (pages (k + n)).hasMore = false ∧ (∀ j < n, (pages (k + j)).hasMore = true)
      ∧ tools.map (·.name) = discovered.map (·.name)
        ++ (List.range (n + 1)).flatMap fun j => (pages (k + j)).tools.map (·.name) := by
  induction fuel with
  | zero =>
    intro k discovered tools h
    cases h
  | succ fuel ih =>
    intro k discovered tools h
    rw [readPages] at h
    cases hread : (pages k).tools.mapM definitionOf with
    | error e =>
      rw [hread] at h
      cases h
    | ok definitions =>
      rw [hread] at h
      dsimp only at h
      have hnames := mapM_definitionOf_names hread
      cases hmore : (pages k).hasMore with
      | false =>
        rw [hmore] at h
        obtain rfl := Except.ok.inj (Option.some.inj h)
        refine ⟨0, hmore, fun j hj => absurd hj (Nat.not_lt_zero j), ?_⟩
        rw [List.map_append, hnames]
        simp
      | true =>
        rw [hmore, if_pos rfl] at h
        obtain ⟨n, hlast, hbefore, htools⟩ := ih h
        refine ⟨n + 1, ?_, fun j hj => ?_, ?_⟩
        · rw [show k + (n + 1) = k + 1 + n by omega]
          exact hlast
        · cases j with
          | zero => exact hmore
          | succ j =>
            rw [show k + (j + 1) = k + 1 + j by omega]
            exact hbefore j (by omega)
        · rw [htools, List.map_append, hnames, List.range_succ_eq_map (n := n + 1),
            List.flatMap_cons, List.flatMap_map, List.append_assoc]
          congr 2
          refine List.flatMap_congr fun j _ => ?_
          rw [show k + 1 + j = k + (j + 1) by omega]

theorem assertExactTools_accepts : AcceptsExactly pages := by
  intro n tools h
  unfold assertExactTools at h
  obtain ⟨read, hread, h⟩ := Option.map_eq_some_iff.mp h
  obtain ⟨discovered, hdiscovered, hchecked⟩ := except_bind_eq_ok.mp h
  subst hdiscovered
  dsimp only at hchecked
  obtain ⟨k, hlast, hbefore, hnames⟩ := readPages_names n hread
  split at hchecked
  next => cases hchecked
  next hexact =>
    rw [Bool.not_eq_true, Bool.not_eq_false'] at hexact
    have hexactly := isExactly_iff.mp hexact
    rw [hnames] at hexactly
    simp only [Nat.zero_add] at hlast hbefore hexactly
    exact ⟨k, hlast, hbefore, hexactly⟩

theorem sameSet_exactly {names : List Points} (hnodup : names.Nodup)
    (hsame : sameSet names expectedTools = true) : Exactly names := by
  unfold sameSet at hsame
  rw [Bool.and_eq_true, beq_iff_eq, List.all_eq_true] at hsame
  obtain ⟨hlength, hall⟩ := hsame
  have hsub : names ⊆ expectedTools := fun name hname => of_decide_eq_true (hall name hname)
  have hperm : names.Perm expectedTools :=
    (List.subperm_of_subset hnodup hsub).perm_of_length_le (Nat.le_of_eq hlength.symm)
  exact ⟨hnodup, fun name => hperm.mem_iff⟩

theorem discoverTools_bounds {listTools : ListTools} (hclient : listTools.Documented) :
    BoundsPages listTools pages := by
  refine ⟨hclient.bounded listMaxPages pages, fun haccepted => ?_⟩
  obtain ⟨tools, htools, hexact⟩ := (Option.any_eq_true _ _).mp haccepted
  rw [Bool.and_eq_true, decide_eq_true_iff] at hexact
  have hnames : tools.map (·.name) = namesUpTo pages (listTools listMaxPages pages).1 := by
    rw [hclient.aggregated listMaxPages pages tools htools, List.map_flatMap]
    rfl
  rw [hnames] at hexact
  exact sameSet_exactly hexact.1 hexact.2

end

/-! ## Top-level theorem -/

/-- Python bounds nothing: it stops only where a page of the server is the last, while TypeScript
stops on every server.  What either accepts is exact. -/
theorem tool_discovery_iff {listTools : ListTools} (hclient : listTools.Documented)
    (pages : Nat → ToolPage) :
    (Ends pages ∧ AcceptsExactly pages ∧ BoundsPages listTools pages) ↔ ∃ k, (pages k).Last := by
  rw [← assertExactTools_ends]
  exact and_iff_left ⟨assertExactTools_accepts, discoverTools_bounds hclient⟩

/-- A client that walks the pages while there are more, and gives up behind `maxPages`. -/
def walkPages (pages : Nat → ToolPage) : (maxPages k : Nat) → Nat × Option (List PublishedTool)
  | 0, k => (k, none)
  | maxPages + 1, k =>
    if (pages k).hasMore then walkPages pages maxPages (k + 1)
    else (k + 1, some ((List.range (k + 1)).flatMap fun j => (pages j).tools))

theorem walkPages_spec (pages : Nat → ToolPage) (maxPages : Nat) : ∀ k,
    (walkPages pages maxPages k).1 ≤ k + maxPages ∧ ∀ tools,
      (walkPages pages maxPages k).2 = some tools →
      tools = (List.range (walkPages pages maxPages k).1).flatMap fun j => (pages j).tools := by
  induction maxPages with
  | zero =>
    intro k
    exact ⟨Nat.le_refl k, fun tools h => nomatch h⟩
  | succ maxPages ih =>
    intro k
    rw [walkPages]
    split
    next =>
      obtain ⟨hle, htools⟩ := ih (k + 1)
      exact ⟨by omega, htools⟩
    next =>
      refine ⟨by omega, fun tools h => ?_⟩
      exact (Option.some.inj h).symm

theorem walkPages_documented :
    ListTools.Documented fun maxPages pages => walkPages pages maxPages 0 where
  bounded maxPages pages := by
    have h := (walkPages_spec pages maxPages 0).1
    omega
  aggregated maxPages pages tools h := (walkPages_spec pages maxPages 0).2 tools h

/-- One page without a cursor. -/
theorem tool_discovery_one_page :
    (Ends (fun _ => ⟨[], none⟩) ∧ AcceptsExactly (fun _ => ⟨[], none⟩)
      ∧ BoundsPages (fun maxPages pages => walkPages pages maxPages 0) fun _ => ⟨[], none⟩)
      ↔ ∃ _ : Nat, ToolPage.Last ⟨[], none⟩ :=
  tool_discovery_iff walkPages_documented fun _ => ⟨[], none⟩

/-- A server whose every page has the cursor `next`. -/
def endless : Nat → ToolPage := fun _ => ⟨[], some (ofText "next")⟩

theorem tool_discovery_endless : ¬Ends endless := by
  rw [assertExactTools_ends]
  rintro ⟨k, hmore | ⟨tool, htool, -⟩⟩
  · have hcursor : (endless 0).hasMore = true := by decide +kernel
    rw [show (endless k).hasMore = true from hcursor] at hmore
    cases hmore
  · cases htool

end Kaleidoscope.Sdk
