import Kaleidoscope.Sdk.NullSchema
import Mathlib.Data.Set.Basic

/-!
# Nulls that no caller gave

`_without_synthesised_nulls` of the Python SDK against the rule that it is to follow: a null goes
from the arguments where, and only where, a schema that stands at its property refuses it.

    null_pruning_iff    the SDK follows the rule exactly where, at every null of the arguments,
                        the marks of the SDK's subschema say what the schemas there admit
-/

namespace Kaleidoscope.Sdk.Nulls

open Unicode (Points)
open JsonReader (ofText JsonValue)

abbrev Arguments := List (Points × JsonValue)

/-! ## Algorithm -/

/-- `properties.get(name)`, of the schema that the references lead to -/
def propertySchema (root schema : JsonValue) (name : Points) : JsonValue :=
  ((field "properties" (resolved root schema)).member? name).getD .null

def itemSchema (root schema : JsonValue) : JsonValue := field "items" (resolved root schema)

mutual

/-- `_pruned` -/
def pruned (root : JsonValue) (fuel : Nat) (schema : JsonValue) : JsonValue → Option JsonValue
  | .object members => (prunedMembers root fuel schema members).map .object
  | .array items => (prunedItems root fuel (itemSchema root schema) items).map .array
  | value => some value

/-- `_without_synthesised_nulls`, from one argument on -/
def prunedMembers (root : JsonValue) (fuel : Nat) (schema : JsonValue) : Arguments → Option Arguments
  | [] => some []
  | (name, value) :: members => do
    let sub := propertySchema root schema name
    let keeps ← if isNull value then schemaAdmitsNull root fuel sub else some true
    if !keeps then prunedMembers root fuel schema members
    else do
      let value ← pruned root fuel sub value
      let rest ← prunedMembers root fuel schema members
      return (name, value) :: rest

def prunedItems (root : JsonValue) (fuel : Nat) (item : JsonValue) : List JsonValue → Option (List JsonValue)
  | [] => some []
  | value :: items => do
    let value ← pruned root fuel item value
    let rest ← prunedItems root fuel item items
    return value :: rest

end

section

open Classical

/-- What applies to every instance that a schema applies to.  A branch of `anyOf` or `oneOf`
does not: it stands for the instances that it accepts. -/
inductive Applies (root : JsonValue) : JsonValue → JsonValue → Prop
  | here (schema : JsonValue) : Applies root schema schema
  | ref {schema next last : JsonValue} (h : referenced root schema = some next)
      (hnext : Applies root next last) : Applies root schema last
  | allOf {schema next last : JsonValue} (h : next ∈ listed (field "allOf" schema))
      (hnext : Applies root next last) : Applies root schema last

/-- The schemas that stand at a property of an instance under some schemas. -/
def propertiesAt (root : JsonValue) (schemas : Set JsonValue) (name : Points) : Set JsonValue :=
  {sub | ∃ schema ∈ schemas, ∃ applied, Applies root schema applied
    ∧ (field "properties" applied).member? name = some sub}

def itemsAt (root : JsonValue) (schemas : Set JsonValue) : Set JsonValue :=
  {sub | ∃ schema ∈ schemas, ∃ applied, Applies root schema applied
    ∧ applied.member? (ofText "items") = some sub}

/-- One of the schemas does not admit `null`. -/
def Refused (root : JsonValue) (schemas : Set JsonValue) : Prop :=
  ∃ schema ∈ schemas, ¬Admits root schema

mutual

/-- The rule: a null at a property goes if it is refused there, and all else stays. -/
noncomputable def intended (root : JsonValue) (schemas : Set JsonValue) : JsonValue → JsonValue
  | .object members => .object (intendedMembers root schemas members)
  | .array items => .array (intendedItems root (itemsAt root schemas) items)
  | value => value

noncomputable def intendedMembers (root : JsonValue) (schemas : Set JsonValue) : Arguments → Arguments
  | [] => []
  | (name, value) :: members =>
    if isNull value = true ∧ Refused root (propertiesAt root schemas name) then
      intendedMembers root schemas members
    else
      (name, intended root (propertiesAt root schemas name) value)
        :: intendedMembers root schemas members

noncomputable def intendedItems (root : JsonValue) (schemas : Set JsonValue) : List JsonValue → List JsonValue
  | [] => []
  | value :: items => intended root schemas value :: intendedItems root schemas items

end

end

/-- A null at a property somewhere in an argument: the subschema that the SDK takes for it, and
the schemas that stand there. -/
inductive NullAt (root : JsonValue) : JsonValue → Set JsonValue → JsonValue → JsonValue → Set JsonValue → Prop
  | here {schema : JsonValue} {schemas : Set JsonValue} {members : Arguments} {name : Points}
      (h : (name, .null) ∈ members) :
      NullAt root schema schemas (.object members) (propertySchema root schema name)
        (propertiesAt root schemas name)
  | member {schema sub value : JsonValue} {schemas subs : Set JsonValue} {members : Arguments}
      {name : Points} (h : (name, value) ∈ members)
      (hvalue : NullAt root (propertySchema root schema name) (propertiesAt root schemas name)
        value sub subs) :
      NullAt root schema schemas (.object members) sub subs
  | item {schema sub value : JsonValue} {schemas subs : Set JsonValue} {items : List JsonValue}
      (h : value ∈ items)
      (hvalue : NullAt root (itemSchema root schema) (itemsAt root schemas) value sub subs) :
      NullAt root schema schemas (.array items) sub subs

/-- The marks of a subschema say what the schemas admit. -/
def Agrees (root sub : JsonValue) (subs : Set JsonValue) : Prop :=
  (Marked root sub ∧ ¬Refused root subs) ∨ (Unmarked root sub ∧ Refused root subs)

def AllAgree (root schema : JsonValue) (schemas : Set JsonValue) (value : JsonValue) : Prop :=
  ∀ sub subs, NullAt root schema schemas value sub subs → Agrees root sub subs

/-! ## Lemmas -/

variable {root : JsonValue}

theorem isNull_iff {value : JsonValue} : isNull value = true ↔ value = .null := by
  cases value <;> simp [isNull]

/-- Neither an object nor an array. -/
def isLeaf : JsonValue → Bool
  | .object _ => false
  | .array _ => false
  | _ => true

theorem pruned_leaf {fuel : Nat} {schema value : JsonValue} (h : isLeaf value = true) :
    pruned root fuel schema value = some value := by
  cases value <;> simp_all [isLeaf, pruned]

theorem intended_leaf {schemas : Set JsonValue} {value : JsonValue} (h : isLeaf value = true) :
    intended root schemas value = value := by
  cases value <;> simp_all [isLeaf, intended]

theorem isNull_intended (schemas : Set JsonValue) (value : JsonValue) :
    isNull (intended root schemas value) = isNull value := by
  cases value with
  | object members => rw [intended]; rfl
  | array items => rw [intended]; rfl
  | null => rw [intended_leaf rfl]
  | bool => rw [intended_leaf rfl]
  | number => rw [intended_leaf rfl]
  | string => rw [intended_leaf rfl]

theorem isNull_pruned {fuel : Nat} {schema value value' : JsonValue}
    (h : pruned root fuel schema value = some value') : isNull value' = isNull value := by
  cases value with
  | object members =>
    rw [pruned] at h
    obtain ⟨_, _, rfl⟩ := Option.map_eq_some_iff.mp h
    rfl
  | array items =>
    rw [pruned] at h
    obtain ⟨_, _, rfl⟩ := Option.map_eq_some_iff.mp h
    rfl
  | null => rw [pruned_leaf rfl] at h; cases h; rfl
  | bool => rw [pruned_leaf rfl] at h; cases h; rfl
  | number => rw [pruned_leaf rfl] at h; cases h; rfl
  | string => rw [pruned_leaf rfl] at h; cases h; rfl

/-! ### One argument -/

/-- The first argument is a null that goes, or it stays with what it is pruned to. -/
theorem prunedMembers_cons_iff {fuel : Nat} {schema value : JsonValue} {name : Points}
    {members kept : Arguments} :
    prunedMembers root fuel schema ((name, value) :: members) = some kept
      ↔ (isNull value = true
          ∧ schemaAdmitsNull root fuel (propertySchema root schema name) = some false
          ∧ prunedMembers root fuel schema members = some kept)
        ∨ ((isNull value = true →
            schemaAdmitsNull root fuel (propertySchema root schema name) = some true)
          ∧ ∃ value' rest, pruned root fuel (propertySchema root schema name) value = some value'
            ∧ prunedMembers root fuel schema members = some rest
            ∧ (name, value') :: rest = kept) := by
  rw [prunedMembers]
  cases hnull : isNull value with
  | false => simp [Option.bind_eq_some_iff]
  | true =>
    cases hwalk : schemaAdmitsNull root fuel (propertySchema root schema name) with
    | none => simp
    | some v => cases v <;> simp [Option.bind_eq_some_iff]

theorem prunedItems_cons_iff {fuel : Nat} {item value : JsonValue} {items kept : List JsonValue} :
    prunedItems root fuel item (value :: items) = some kept
      ↔ ∃ value' rest, pruned root fuel item value = some value'
          ∧ prunedItems root fuel item items = some rest ∧ value' :: rest = kept := by
  rw [prunedItems]
  simp [Option.bind_eq_some_iff]

theorem intendedMembers_keep {schemas : Set JsonValue} {name : Points} {value : JsonValue}
    (members : Arguments)
    (h : ¬(isNull value = true ∧ Refused root (propertiesAt root schemas name))) :
    intendedMembers root schemas ((name, value) :: members)
      = (name, intended root (propertiesAt root schemas name) value)
          :: intendedMembers root schemas members := by
  rw [intendedMembers, if_neg h]

theorem intendedMembers_drop {schemas : Set JsonValue} {name : Points} (members : Arguments)
    (h : Refused root (propertiesAt root schemas name)) :
    intendedMembers root schemas ((name, .null) :: members)
      = intendedMembers root schemas members := by
  rw [intendedMembers, if_pos ⟨rfl, h⟩]

/-! ### No null is left where one was to go -/

theorem intendedMembers_not_null {schemas : Set JsonValue} {name : Points}
    (h : Refused root (propertiesAt root schemas name)) (members : Arguments) :
    (name, JsonValue.null) ∉ intendedMembers root schemas members := by
  induction members with
  | nil => rw [intendedMembers]; simp
  | cons member members ih =>
    obtain ⟨other, value⟩ := member
    by_cases hdrop : isNull value = true ∧ Refused root (propertiesAt root schemas other)
    · rw [intendedMembers, if_pos hdrop]
      exact ih
    · rw [intendedMembers_keep _ hdrop]
      intro hmem
      rcases List.mem_cons.mp hmem with heq | hmem
      · obtain ⟨rfl, hvalue⟩ := Prod.mk.inj heq
        refine hdrop ⟨?_, h⟩
        have hnull := @isNull_intended root (propertiesAt root schemas name) value
        rw [← hvalue] at hnull
        exact hnull.symm
      · exact ih hmem

theorem prunedMembers_not_null {fuel : Nat} {schema : JsonValue} {name : Points}
    (h : schemaAdmitsNull root fuel (propertySchema root schema name) = some false)
    (members : Arguments) :
    ∀ kept, prunedMembers root fuel schema members = some kept → (name, JsonValue.null) ∉ kept := by
  induction members with
  | nil =>
    intro kept hkept
    rw [prunedMembers] at hkept
    cases hkept
    simp
  | cons member members ih =>
    obtain ⟨other, value⟩ := member
    intro kept hkept
    rcases prunedMembers_cons_iff.mp hkept with
      ⟨_, _, hkept⟩ | ⟨hkeep, value', rest, hvalue, hrest, rfl⟩
    · exact ih kept hkept
    · intro hmem
      rcases List.mem_cons.mp hmem with heq | hmem
      · obtain ⟨rfl, rfl⟩ := Prod.mk.inj heq
        rw [hkeep (isNull_pruned hvalue).symm] at h
        cases h
      · exact ih rest hrest hmem

/-! ### More fuel -/

mutual

theorem pruned_mono {n m : Nat} (hle : n ≤ m) (schema : JsonValue) :
    ∀ value value' : JsonValue, pruned root n schema value = some value' →
      pruned root m schema value = some value'
  | .object members, value', h => by
    rw [pruned] at h ⊢
    obtain ⟨kept, hkept, rfl⟩ := Option.map_eq_some_iff.mp h
    rw [prunedMembers_mono hle schema members kept hkept]
    rfl
  | .array items, value', h => by
    rw [pruned] at h ⊢
    obtain ⟨kept, hkept, rfl⟩ := Option.map_eq_some_iff.mp h
    rw [prunedItems_mono hle _ items kept hkept]
    rfl
  | .null, value', h => by rw [pruned_leaf rfl] at h ⊢; exact h
  | .bool _, value', h => by rw [pruned_leaf rfl] at h ⊢; exact h
  | .number _, value', h => by rw [pruned_leaf rfl] at h ⊢; exact h
  | .string _, value', h => by rw [pruned_leaf rfl] at h ⊢; exact h

theorem prunedMembers_mono {n m : Nat} (hle : n ≤ m) (schema : JsonValue) :
    ∀ members kept : Arguments, prunedMembers root n schema members = some kept →
      prunedMembers root m schema members = some kept
  | [], kept, h => by rw [prunedMembers] at h ⊢; exact h
  | (name, value) :: members, kept, h => by
    rcases prunedMembers_cons_iff.mp h with
      ⟨hnull, hwalk, hkept⟩ | ⟨hkeep, value', rest, hvalue, hrest, rfl⟩
    · exact prunedMembers_cons_iff.mpr (.inl ⟨hnull, schemaAdmitsNull_mono hle hwalk,
        prunedMembers_mono hle schema members kept hkept⟩)
    · exact prunedMembers_cons_iff.mpr (.inr ⟨fun h => schemaAdmitsNull_mono hle (hkeep h),
        value', rest, pruned_mono hle _ value value' hvalue,
        prunedMembers_mono hle schema members rest hrest, rfl⟩)

theorem prunedItems_mono {n m : Nat} (hle : n ≤ m) (item : JsonValue) :
    ∀ items kept : List JsonValue, prunedItems root n item items = some kept →
      prunedItems root m item items = some kept
  | [], kept, h => by rw [prunedItems] at h ⊢; exact h
  | value :: items, kept, h => by
    obtain ⟨value', rest, hvalue, hrest, rfl⟩ := prunedItems_cons_iff.mp h
    exact prunedItems_cons_iff.mpr ⟨value', rest, pruned_mono hle item value value' hvalue,
      prunedItems_mono hle item items rest hrest, rfl⟩

end

/-! ### The nulls of an argument -/

theorem allAgree_leaf {schema value : JsonValue} {schemas : Set JsonValue} (h : isLeaf value = true) :
    AllAgree root schema schemas value := by
  intro sub subs hnull
  cases hnull with
  | here => cases h
  | member => cases h
  | item => cases h

theorem allAgree_array {schema : JsonValue} {schemas : Set JsonValue} {items : List JsonValue} :
    AllAgree root schema schemas (.array items)
      ↔ ∀ value ∈ items,
          AllAgree root (itemSchema root schema) (itemsAt root schemas) value := by
  constructor
  · intro h value hvalue sub subs hnull
    exact h sub subs (.item hvalue hnull)
  · intro h sub subs hnull
    cases hnull with
    | item hvalue hnull => exact h _ hvalue sub subs hnull

theorem allAgree_nil {schema : JsonValue} {schemas : Set JsonValue} :
    AllAgree root schema schemas (.object []) := by
  intro sub subs hnull
  cases hnull with
  | here h => exact absurd h List.not_mem_nil
  | member h _ => exact absurd h List.not_mem_nil

theorem allAgree_cons {schema value : JsonValue} {schemas : Set JsonValue} {name : Points}
    {members : Arguments} :
    AllAgree root schema schemas (.object ((name, value) :: members))
      ↔ (isNull value = true →
          Agrees root (propertySchema root schema name) (propertiesAt root schemas name))
        ∧ AllAgree root (propertySchema root schema name) (propertiesAt root schemas name) value
        ∧ AllAgree root schema schemas (.object members) := by
  constructor
  · intro h
    refine ⟨fun hnull => ?_, fun sub subs hsub => ?_, fun sub subs hsub => ?_⟩
    · rw [isNull_iff] at hnull
      exact h _ _ (.here (by rw [hnull]; exact List.mem_cons_self))
    · exact h sub subs (.member List.mem_cons_self hsub)
    · cases hsub with
      | here hmem => exact h _ _ (.here (List.mem_cons_of_mem _ hmem))
      | member hmem hsub => exact h sub subs (.member (List.mem_cons_of_mem _ hmem) hsub)
  · rintro ⟨hnull, hvalue, hrest⟩ sub subs hsub
    cases hsub with
    | here hmem =>
      rcases List.mem_cons.mp hmem with heq | hmem
      · obtain ⟨rfl, rfl⟩ := Prod.mk.inj heq
        exact hnull rfl
      · exact hrest _ _ (.here hmem)
    | member hmem hsub =>
      rcases List.mem_cons.mp hmem with heq | hmem
      · obtain ⟨rfl, rfl⟩ := Prod.mk.inj heq
        exact hvalue sub subs hsub
      · exact hrest sub subs (.member hmem hsub)

/-! ## The rule is followed where the marks say what is admitted -/

mutual

theorem pruned_iff (schema : JsonValue) (schemas : Set JsonValue) :
    ∀ value : JsonValue, (∃ fuel, pruned root fuel schema value = some (intended root schemas value))
      ↔ AllAgree root schema schemas value
  | .object members => by
    rw [← prunedMembers_iff schema schemas members, intended]
    simp only [pruned, Option.map_eq_some_iff, JsonValue.object.injEq, exists_eq_right]
  | .array items => by
    rw [allAgree_array, ← prunedItems_iff (itemSchema root schema) (itemsAt root schemas) items,
      intended]
    simp only [pruned, Option.map_eq_some_iff, JsonValue.array.injEq, exists_eq_right]
  | .null => ⟨fun _ => allAgree_leaf rfl, fun _ => ⟨0, by rw [pruned_leaf rfl, intended_leaf rfl]⟩⟩
  | .bool _ =>
    ⟨fun _ => allAgree_leaf rfl, fun _ => ⟨0, by rw [pruned_leaf rfl, intended_leaf rfl]⟩⟩
  | .number _ =>
    ⟨fun _ => allAgree_leaf rfl, fun _ => ⟨0, by rw [pruned_leaf rfl, intended_leaf rfl]⟩⟩
  | .string _ =>
    ⟨fun _ => allAgree_leaf rfl, fun _ => ⟨0, by rw [pruned_leaf rfl, intended_leaf rfl]⟩⟩

theorem prunedMembers_iff (schema : JsonValue) (schemas : Set JsonValue) :
    ∀ members : Arguments,
      (∃ fuel, prunedMembers root fuel schema members
        = some (intendedMembers root schemas members))
      ↔ AllAgree root schema schemas (.object members)
  | [] => ⟨fun _ => allAgree_nil, fun _ => ⟨0, by rw [prunedMembers, intendedMembers]⟩⟩
  | (name, value) :: members => by
    have hhead := pruned_iff (propertySchema root schema name) (propertiesAt root schemas name)
      value
    have htail := prunedMembers_iff schema schemas members
    rw [allAgree_cons, ← hhead, ← htail]
    constructor
    · rintro ⟨fuel, h⟩
      rcases prunedMembers_cons_iff.mp h with
        ⟨hnull, hwalk, hkept⟩ | ⟨hkeep, value', rest, hvalue, hrest, hkept⟩
      · -- a null that the walk drops: the rule cannot have kept it
        have hleaf : isLeaf value = true := by rw [isNull_iff.mp hnull]; rfl
        have hrefused : Refused root (propertiesAt root schemas name) := by
          by_contra hadmitted
          rw [intendedMembers_keep _ fun hc => hadmitted hc.2] at hkept
          refine prunedMembers_not_null hwalk members _ hkept ?_
          rw [isNull_iff.mp hnull, intended_leaf rfl]
          exact List.mem_cons_self
        rw [isNull_iff.mp hnull, intendedMembers_drop _ hrefused] at hkept
        refine ⟨fun _ => .inr ⟨schemaAdmitsNull_sound.2 hwalk, hrefused⟩,
          ⟨0, by rw [pruned_leaf hleaf, intended_leaf hleaf]⟩, ⟨fuel, hkept⟩⟩
      · by_cases hdrop : isNull value = true ∧ Refused root (propertiesAt root schemas name)
        · -- a null that the walk keeps: the rule cannot have dropped it
          have hmem := intendedMembers_not_null hdrop.2 ((name, value) :: members)
          rw [← hkept, isNull_iff.mp ((isNull_pruned hvalue).trans hdrop.1)] at hmem
          exact absurd List.mem_cons_self hmem
        · rw [intendedMembers_keep _ hdrop] at hkept
          obtain ⟨hentry, htail⟩ := List.cons.inj hkept
          rw [(Prod.mk.inj hentry).2] at hvalue
          rw [htail] at hrest
          refine ⟨fun hnull => .inl ⟨schemaAdmitsNull_sound.1 (hkeep hnull), fun hc => ?_⟩,
            ⟨fuel, hvalue⟩, ⟨fuel, hrest⟩⟩
          exact hdrop ⟨hnull, hc⟩
    · rintro ⟨hagrees, ⟨n, hvalue⟩, ⟨m, hrest⟩⟩
      by_cases hdrop : isNull value = true ∧ Refused root (propertiesAt root schemas name)
      · -- the marks say that the null is to go
        have hunmarked : Unmarked root (propertySchema root schema name) := by
          rcases hagrees hdrop.1 with ⟨_, hadmitted⟩ | ⟨hunmarked, _⟩
          · exact absurd hdrop.2 hadmitted
          · exact hunmarked
        obtain ⟨k, hwalk⟩ := hunmarked.ends
        refine ⟨max k m, ?_⟩
        rw [intendedMembers, if_pos hdrop]
        exact prunedMembers_cons_iff.mpr (.inl ⟨hdrop.1,
          schemaAdmitsNull_mono (Nat.le_max_left k m) hwalk,
          prunedMembers_mono (Nat.le_max_right k m) schema members _ hrest⟩)
      · have hkeep : ∃ k, isNull value = true →
            schemaAdmitsNull root k (propertySchema root schema name) = some true := by
          by_cases hnull : isNull value = true
          · rcases hagrees hnull with ⟨hmarked, _⟩ | ⟨_, hrefused⟩
            · obtain ⟨k, hwalk⟩ := hmarked.ends
              exact ⟨k, fun _ => hwalk⟩
            · exact absurd ⟨hnull, hrefused⟩ hdrop
          · exact ⟨0, fun h => absurd h hnull⟩
        obtain ⟨k, hkeep⟩ := hkeep
        refine ⟨max k (max n m), ?_⟩
        rw [intendedMembers_keep _ hdrop]
        refine prunedMembers_cons_iff.mpr (.inr ⟨fun hnull => ?_, _, _, ?_, ?_, rfl⟩)
        · exact schemaAdmitsNull_mono (Nat.le_max_left _ _) (hkeep hnull)
        · exact pruned_mono (by omega) _ value _ hvalue
        · exact prunedMembers_mono (by omega) schema members _ hrest

theorem prunedItems_iff (item : JsonValue) (schemas : Set JsonValue) :
    ∀ items : List JsonValue,
      (∃ fuel, prunedItems root fuel item items = some (intendedItems root schemas items))
      ↔ ∀ value ∈ items, AllAgree root item schemas value
  | [] => ⟨fun _ _ h => absurd h List.not_mem_nil,
      fun _ => ⟨0, by rw [prunedItems, intendedItems]⟩⟩
  | value :: items => by
    rw [List.forall_mem_cons, ← pruned_iff item schemas value,
      ← prunedItems_iff item schemas items, intendedItems]
    constructor
    · rintro ⟨fuel, h⟩
      obtain ⟨value', rest, hvalue, hrest, hkept⟩ := prunedItems_cons_iff.mp h
      obtain ⟨hhead, htail⟩ := List.cons.inj hkept
      rw [hhead] at hvalue
      rw [htail] at hrest
      exact ⟨⟨fuel, hvalue⟩, ⟨fuel, hrest⟩⟩
    · rintro ⟨⟨n, hvalue⟩, ⟨m, hrest⟩⟩
      refine ⟨max n m, prunedItems_cons_iff.mpr ⟨_, _, ?_, ?_, rfl⟩⟩
      · exact pruned_mono (Nat.le_max_left n m) item value _ hvalue
      · exact prunedItems_mono (Nat.le_max_right n m) item items _ hrest

end

end Kaleidoscope.Sdk.Nulls
