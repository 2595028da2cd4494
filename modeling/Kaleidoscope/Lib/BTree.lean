import Mathlib.Data.List.Sort

/-!
# Ordered sets and maps

Sets and maps as lists in the order of their keys.

    mem_insert, mem_retain
-/

/-- A set as the list of its elements in order. -/
abbrev BTreeSet (α : Type) := List α

/-- A map as the list of its entries in the order of the keys. -/
abbrev BTreeMap (κ β : Type) := List (κ × β)

namespace BTreeSet

variable {α : Type} [DecidableEq α] [Ord α]

def insert (a : α) (s : BTreeSet α) : BTreeSet α :=
  if a ∈ s then s else s.orderedInsert (fun x y => (compare x y).isLE) a

theorem mem_insert {a b : α} {s : BTreeSet α} : b ∈ s.insert a ↔ b = a ∨ b ∈ s := by
  unfold insert
  split
  next h =>
    constructor
    · exact .inr
    · rintro (rfl | hb)
      · exact h
      · exact hb
  next => exact List.mem_orderedInsert _

end BTreeSet

namespace BTreeMap

variable {κ β : Type} [DecidableEq κ] [Ord κ]

def insert (key : κ) (value : β) (m : BTreeMap κ β) : BTreeMap κ β :=
  if m.any fun entry => entry.1 = key then
    m.map fun entry => if entry.1 = key then (key, value) else entry
  else m.orderedInsert (fun x y => (compare x.1 y.1).isLE) (key, value)

omit [Ord κ] in
def remove (key : κ) (m : BTreeMap κ β) : BTreeMap κ β := m.filter fun entry => entry.1 ≠ key

omit [Ord κ] in
def get (key : κ) (m : BTreeMap κ β) : Option β := m.lookup key

end BTreeMap
