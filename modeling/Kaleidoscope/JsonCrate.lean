import Kaleidoscope.JsonSpan

/-!
# The JSON crate

What the planners do to JSON documents between reading and writing them, and what the crate
makes of a document that it wrote: the same one, but for floating-point numbers, which it reads
with its fast algorithm.

    same_trans        `==` is transitive
    same_mapFloats    how floating-point numbers read does not matter to a value without any
-/

namespace Kaleidoscope

/-! ## Maps -/

namespace Members

/-- `Map::insert`: in the place of the key, or at the end. -/
def set (key : Text) (value : Value) : Members → Members
  | [] => [(key, value)]
  | m :: ms => if m.1 = key then (key, value) :: ms else m :: set key value ms

/-- `Map::remove`, where the map preserves order: the last member takes the place. -/
def swapRemove (key : Text) : Members → Members
  | [] => []
  | m :: ms =>
    if m.1 = key then
      match ms.getLast? with
      | some last => last :: ms.dropLast
      | none => []
    else m :: swapRemove key ms

theorem keys_set (key : Text) (value : Value) (ms : Members) :
    (set key value ms).map Prod.fst
      = if key ∈ ms.map Prod.fst then ms.map Prod.fst else ms.map Prod.fst ++ [key] := by
  induction ms with
  | nil => rfl
  | cons m ms ih =>
    unfold set
    by_cases hm : m.1 = key
    · simp [hm]
    · rw [if_neg hm, List.map_cons, ih, List.map_cons]
      simp only [List.mem_cons, Ne.symm hm, false_or]
      split <;> rfl

theorem nodup_set {key : Text} {value : Value} {ms : Members} (h : (ms.map Prod.fst).Nodup) :
    ((set key value ms).map Prod.fst).Nodup := by
  rw [keys_set]
  split
  · exact h
  next hkey =>
    refine List.nodup_append.mpr ⟨h, List.nodup_singleton key, fun a ha b hb => ?_⟩
    rw [List.mem_singleton.mp hb]
    rintro rfl
    exact hkey ha

theorem lookup_set_self (key : Text) (value : Value) (ms : Members) :
    (set key value ms).lookup key = some value := by
  induction ms with
  | nil => simp [set]
  | cons m ms ih =>
    unfold set
    by_cases hm : m.1 = key
    · rw [if_pos hm, List.lookup_cons_self]
    · rw [if_neg hm, List.lookup_cons, beq_eq_false_iff_ne.mpr (Ne.symm hm)]
      exact ih

theorem lookup_set_ne {key other : Text} (h : other ≠ key) (value : Value) (ms : Members) :
    (set key value ms).lookup other = ms.lookup other := by
  induction ms with
  | nil => simp [set, List.lookup_cons, beq_eq_false_iff_ne.mpr h]
  | cons m ms ih =>
    unfold set
    by_cases hm : m.1 = key
    · rw [if_pos hm, List.lookup_cons, List.lookup_cons, hm, beq_eq_false_iff_ne.mpr h]
    · rw [if_neg hm, List.lookup_cons, List.lookup_cons, ih]

theorem mem_of_mem_set {key : Text} {value : Value} {ms : Members} {m : Text × Value}
    (h : m ∈ set key value ms) : m = (key, value) ∨ m ∈ ms := by
  induction ms with
  | nil => exact .inl (List.mem_singleton.mp h)
  | cons n ms ih =>
    unfold set at h
    split at h
    · rcases List.mem_cons.mp h with rfl | h
      · exact .inl rfl
      · exact .inr (List.mem_cons_of_mem _ h)
    · rcases List.mem_cons.mp h with rfl | h
      · exact .inr List.mem_cons_self
      · exact (ih h).imp_right (List.mem_cons_of_mem _)

/-- The members that are left are the others, in another order. -/
theorem swapRemove_perm (key : Text) (ms : Members) :
    (swapRemove key ms).Perm (ms.eraseP fun m => decide (m.1 = key)) := by
  induction ms with
  | nil => exact .nil
  | cons m ms ih =>
    unfold swapRemove
    by_cases hm : m.1 = key
    · rw [if_pos hm, List.eraseP_cons_of_pos (by simpa using hm)]
      cases hlast : ms.getLast? with
      | none =>
        rw [List.getLast?_eq_none_iff.mp hlast]
      | some last =>
        obtain ⟨front, hfront⟩ := List.getLast?_eq_some_iff.mp hlast
        subst hfront
        rw [List.dropLast_concat]
        exact (List.perm_append_singleton last front).symm
    · rw [if_neg hm, List.eraseP_cons_of_neg (by simpa using hm)]
      exact ih.cons m

theorem mem_of_mem_swapRemove {key : Text} {ms : Members} {m : Text × Value}
    (h : m ∈ swapRemove key ms) : m ∈ ms :=
  List.mem_of_mem_eraseP ((swapRemove_perm key ms).mem_iff.mp h)

theorem nodup_swapRemove (key : Text) {ms : Members} (h : (ms.map Prod.fst).Nodup) :
    ((swapRemove key ms).map Prod.fst).Nodup :=
  ((swapRemove_perm key ms).map Prod.fst).nodup_iff.mpr
    (h.sublist (List.eraseP_sublist.map Prod.fst))

theorem lookup_perm {ms ns : Members} (h : ms.Perm ns) (hnodup : (ms.map Prod.fst).Nodup)
    (key : Text) : ms.lookup key = ns.lookup key := by
  have hnodup' := ((h.map Prod.fst).nodup_iff).mp hnodup
  cases hlookup : ns.lookup key with
  | none =>
    rw [lookup_eq_none] at hlookup ⊢
    rwa [(h.map Prod.fst).mem_iff]
  | some v => exact lookup_of_mem hnodup (h.mem_iff.mpr (mem_of_lookup hlookup))

theorem lookup_swapRemove_self {key : Text} {ms : Members} (h : (ms.map Prod.fst).Nodup) :
    (swapRemove key ms).lookup key = none := by
  rw [lookup_perm (swapRemove_perm key ms) (nodup_swapRemove key h)]
  induction ms with
  | nil => rfl
  | cons m ms ih =>
    rw [List.map_cons, List.nodup_cons] at h
    by_cases hm : m.1 = key
    · rw [List.eraseP_cons_of_pos (by simpa using hm), lookup_eq_none, ← hm]
      exact h.1
    · rw [List.eraseP_cons_of_neg (by simpa using hm), List.lookup_cons,
        beq_eq_false_iff_ne.mpr (Ne.symm hm)]
      exact ih h.2

theorem lookup_swapRemove_ne {key other : Text} {ms : Members} (h : (ms.map Prod.fst).Nodup)
    (hne : other ≠ key) : (swapRemove key ms).lookup other = ms.lookup other := by
  rw [lookup_perm (swapRemove_perm key ms) (nodup_swapRemove key h)]
  induction ms with
  | nil => rfl
  | cons m ms ih =>
    rw [List.map_cons, List.nodup_cons] at h
    by_cases hm : m.1 = key
    · rw [List.eraseP_cons_of_pos (by simpa using hm), List.lookup_cons, hm,
        beq_eq_false_iff_ne.mpr hne]
    · rw [List.eraseP_cons_of_neg (by simpa using hm), List.lookup_cons, List.lookup_cons, ih h.2]

end Members

/-! ## Values -/

/-- An unsigned or a negative integer of 64 bits, or a floating-point number. -/
def Number.isMachine : Number → Bool
  | .posInt n => decide (n < 2 ^ 64)
  | .negInt n => decide (0 < n ∧ n ≤ 2 ^ 63)
  | .float _ => true

namespace Value

/-- `Value::get` with a key. -/
def get (key : Text) : Value → Option Value
  | object members => members.lookup key
  | _ => none

def asArray : Value → Option (List Value)
  | array items => some items
  | _ => none

def asStr : Value → Option Text
  | string s => some s
  | _ => none

def isObject : Value → Bool
  | object _ => true
  | _ => false

/-- `is_object` and empty. -/
def isEmptyObject : Value → Bool
  | object [] => true
  | _ => false

/-- What the crate can hold: no more than so many arrays and objects are open at once, and
integers are of 64 bits. -/
inductive Within : Nat → Value → Prop
  | null {n : Nat} : Within n null
  | bool {n : Nat} (b : Bool) : Within n (bool b)
  | number {n : Nat} {k : Number} : k.isMachine = true → Within n (number k)
  | string {n : Nat} (s : Text) : Within n (string s)
  | array {n : Nat} {items : List Value} : (∀ v ∈ items, Within n v) → Within (n + 1) (array items)
  | object {n : Nat} {members : Members} : (∀ m ∈ members, Within n m.2) →
      Within (n + 1) (object members)

theorem Within.mono {n m : Nat} {v : Value} (h : Within n v) (hle : n ≤ m) : Within m v := by
  induction h generalizing m with
  | null => exact .null
  | bool b => exact .bool b
  | number hk => exact .number hk
  | string s => exact .string s
  | array _ ih =>
    obtain ⟨m, rfl⟩ := Nat.exists_eq_add_of_le' (Nat.le_of_add_left_le hle)
    exact .array fun v hv => ih v hv (by omega)
  | object _ ih =>
    obtain ⟨m, rfl⟩ := Nat.exists_eq_add_of_le' (Nat.le_of_add_left_le hle)
    exact .object fun k hk => ih k hk (by omega)

/-- There is no floating-point number in it. -/
inductive FloatFree : Value → Prop
  | null : FloatFree null
  | bool (b : Bool) : FloatFree (bool b)
  | posInt (n : Nat) : FloatFree (number (.posInt n))
  | negInt (n : Nat) : FloatFree (number (.negInt n))
  | string (s : Text) : FloatFree (string s)
  | array {items : List Value} : (∀ v ∈ items, FloatFree v) → FloatFree (array items)
  | object {members : Members} : (∀ m ∈ members, FloatFree m.2) → FloatFree (object members)

end Value

/-- The number with another floating-point number in its place, if it is one. -/
def Number.mapFloat (f : UInt64 → UInt64) : Number → Number
  | .float bits => .float (f bits)
  | n => n

namespace Value

mutual

def mapFloats (f : UInt64 → UInt64) : Value → Value
  | null => null
  | bool b => bool b
  | number n => number (n.mapFloat f)
  | string s => string s
  | array items => array (mapItems f items)
  | object members => object (mapMembers f members)

def mapItems (f : UInt64 → UInt64) : List Value → List Value
  | [] => []
  | v :: vs => mapFloats f v :: mapItems f vs

def mapMembers (f : UInt64 → UInt64) : Members → Members
  | [] => []
  | (k, v) :: ms => (k, mapFloats f v) :: mapMembers f ms

end

section

variable {f : UInt64 → UInt64}

theorem mapItems_eq (vs : List Value) : mapItems f vs = vs.map (mapFloats f) := by
  induction vs with
  | nil => rfl
  | cons v vs ih => rw [mapItems, ih, List.map_cons]

theorem mapMembers_eq (ms : Members) :
    mapMembers f ms = ms.map fun m => (m.1, mapFloats f m.2) := by
  induction ms with
  | nil => rfl
  | cons m ms ih => rw [mapMembers, ih, List.map_cons]

@[simp] theorem mapFloats_array (vs : List Value) :
    mapFloats f (array vs) = array (vs.map (mapFloats f)) := by
  rw [mapFloats, mapItems_eq]

@[simp] theorem mapFloats_object (ms : Members) :
    mapFloats f (object ms) = object (ms.map fun m => (m.1, mapFloats f m.2)) := by
  rw [mapFloats, mapMembers_eq]

theorem lookup_mapMembers (key : Text) (ms : Members) :
    (ms.map fun m => (m.1, mapFloats f m.2)).lookup key = (ms.lookup key).map (mapFloats f) := by
  induction ms with
  | nil => rfl
  | cons m ms ih =>
    rw [List.map_cons, List.lookup_cons, List.lookup_cons, ih]
    split <;> rfl

@[simp] theorem get_mapFloats (key : Text) (v : Value) :
    (v.mapFloats f).get key = (v.get key).map (mapFloats f) := by
  cases v with
  | object ms =>
    rw [mapFloats_object]
    exact lookup_mapMembers key ms
  | _ => rfl

@[simp] theorem asArray_mapFloats (v : Value) :
    (v.mapFloats f).asArray = v.asArray.map (List.map (mapFloats f)) := by
  cases v with
  | array vs =>
    rw [mapFloats_array]
    rfl
  | _ => rfl

@[simp] theorem asStr_mapFloats (v : Value) : (v.mapFloats f).asStr = v.asStr := by
  cases v <;> rfl

@[simp] theorem isObject_mapFloats (v : Value) : (v.mapFloats f).isObject = v.isObject := by
  cases v <;> rfl

theorem mapFloats_floatFree {v : Value} (h : v.FloatFree) : v.mapFloats f = v := by
  induction h with
  | null => rfl
  | bool b => rfl
  | posInt n => rfl
  | negInt n => rfl
  | string s => rfl
  | array _ ih =>
    rw [mapFloats_array, List.map_congr_left ih, List.map_id']
  | object _ ih =>
    rw [mapFloats_object, List.map_congr_left fun m hm => by rw [ih m hm], List.map_id']

end

/-- How floating-point numbers read does not matter to a value without any. -/
theorem same_mapFloats {f : UInt64 → UInt64} {v w : Value} (h : w.FloatFree) :
    same (v.mapFloats f) w = same v w := by
  rw [Bool.eq_iff_iff]
  induction h generalizing v with
  | null => cases v <;> simp [mapFloats, same]
  | bool b => cases v <;> simp [mapFloats, same]
  | posInt n =>
    cases v with
    | number k => cases k <;> simp [mapFloats, Number.mapFloat, same, Number.same]
    | _ => simp [mapFloats, same]
  | negInt n =>
    cases v with
    | number k => cases k <;> simp [mapFloats, Number.mapFloat, same, Number.same]
    | _ => simp [mapFloats, same]
  | string s => cases v <;> simp [mapFloats, same]
  | @array ws _ ih =>
    cases v with
    | array vs =>
      rw [mapFloats_array, same_array, same_array, List.forall₂_map_left_iff]
      simp only [List.forall₂_iff_get]
      refine and_congr_right fun _ => ?_
      exact forall_congr' fun i => forall₂_congr fun _ hw => ih _ (List.get_mem ws ⟨i, hw⟩)
    | _ => simp [mapFloats, same]
  | @object ws _ ih =>
    cases v with
    | object vs =>
      rw [mapFloats_object, same_object, same_object, List.length_map, List.forall_mem_map]
      refine and_congr_right fun _ => forall₂_congr fun m _ => exists_congr fun w => ?_
      exact and_congr_right fun hw => ih _ (Members.mem_of_lookup hw)
    | _ => simp [mapFloats, same]

theorem same_refl {v : Value} (h : v.Distinct) : same v v = true := by
  induction h with
  | null => simp [same]
  | bool b => simp [same]
  | number n =>
    rw [same]
    exact Number.same_refl n
  | string s => simp [same]
  | @array vs _ ih =>
    rw [same_array]
    exact List.forall₂_same.mpr ih
  | object hkeys _ ih =>
    rw [same_object]
    exact ⟨rfl, fun m hm => ⟨m.2, Members.lookup_of_mem hkeys hm, ih m hm⟩⟩

end Value

theorem Number.same_trans {a b c : Number} (hab : same a b = true) (hbc : same b c = true) :
    same a c = true := by
  cases a with
  | posInt n =>
    cases b with
    | posInt m => rwa [beq_iff_eq.mp hab]
    | _ => cases hab
  | negInt n =>
    cases b with
    | negInt m => rwa [beq_iff_eq.mp hab]
    | _ => cases hab
  | float x =>
    cases b with
    | float y =>
      cases c with
      | float z =>
        simp only [same, Bool.or_eq_true, Bool.and_eq_true, beq_iff_eq] at *
        rcases hab with rfl | ⟨hx, hy⟩
        · exact hbc
        · rcases hbc with rfl | ⟨-, hz⟩
          · exact .inr ⟨hx, hy⟩
          · exact .inr ⟨hx, hz⟩
      | _ => cases hbc
    | _ => cases hab

namespace Value

theorem same_trans {u v w : Value} (huv : same u v = true) (hvw : same v w = true) :
    same u w = true := by
  match u, v, w with
  | null, v, w =>
    cases v <;> simp_all [same]
  | bool a, v, w =>
    cases v <;> simp_all [same]
  | string a, v, w =>
    cases v <;> simp_all [same]
  | number a, v, w =>
    cases v with
    | number b =>
      cases w with
      | number c =>
        rw [same] at *
        exact Number.same_trans huv hvw
      | _ => simp [same] at hvw
    | _ => simp [same] at huv
  | array a, v, w =>
    obtain ⟨b, rfl⟩ := array_of_same huv
    obtain ⟨c, rfl⟩ := array_of_same hvw
    rw [same_array] at *
    rw [List.forall₂_iff_get] at *
    obtain ⟨hab, hall⟩ := huv
    obtain ⟨hbc, hall'⟩ := hvw
    refine ⟨hab.trans hbc, fun i ha hc => ?_⟩
    have hb : i < b.length := by omega
    have := List.sizeOf_get a ⟨i, ha⟩
    exact same_trans (hall i ha hb) (hall' i hb hc)
  | object a, v, w =>
    obtain ⟨b, rfl⟩ := object_of_same huv
    obtain ⟨c, rfl⟩ := object_of_same hvw
    rw [same_object] at *
    obtain ⟨hab, hall⟩ := huv
    obtain ⟨hbc, hall'⟩ := hvw
    refine ⟨hab.trans hbc, fun m hm => ?_⟩
    obtain ⟨x, hx, hmx⟩ := hall m hm
    obtain ⟨y, hy, hxy⟩ := hall' _ (Members.mem_of_lookup hx)
    have hlt := List.sizeOf_lt_of_mem hm
    have hsnd : sizeOf m.2 < sizeOf m := by
      cases m
      simp only [Prod.mk.sizeOf_spec]
      omega
    exact ⟨y, hy, same_trans hmx hxy⟩
termination_by u
decreasing_by
  · simp only [array.sizeOf_spec]
    omega
  · simp only [object.sizeOf_spec]
    omega

/-! ## Parts of values that are equal -/

theorem get_same {v w : Value} (hv : v.Distinct) (h : same v w = true) (key : Text) :
    v.get key = none ∧ w.get key = none
      ∨ ∃ x y, v.get key = some x ∧ w.get key = some y ∧ x.Distinct ∧ same x y = true := by
  cases v with
  | object a =>
    obtain ⟨b, rfl⟩ := object_of_same h
    obtain ⟨hlength, hall⟩ := same_object.mp h
    cases hv with
    | object hnodup hmembers =>
      cases hlookup : a.lookup key with
      | none =>
        refine .inl ⟨hlookup, ?_⟩
        rw [Members.lookup_eq_none] at hlookup
        have hsub : ∀ k ∈ a.map Prod.fst, k ∈ b.map Prod.fst := by
          intro k hk
          obtain ⟨m, hm, rfl⟩ := List.mem_map.mp hk
          obtain ⟨y, hy, -⟩ := hall m hm
          exact List.mem_map.mpr ⟨_, Members.mem_of_lookup hy, rfl⟩
        exact Members.lookup_eq_none.mpr fun hk =>
          hlookup (Members.keys_subset hnodup hlength hsub key hk)
      | some x =>
        have hm := Members.mem_of_lookup hlookup
        obtain ⟨y, hy, hxy⟩ := hall _ hm
        exact .inr ⟨x, y, hlookup, hy, hmembers _ hm, hxy⟩
  | _ =>
    cases w with
    | object b => simp [same] at h
    | _ => exact .inl ⟨rfl, rfl⟩

theorem asArray_same {v w : Value} (h : same v w = true) :
    v.asArray = none ∧ w.asArray = none
      ∨ ∃ a b, v.asArray = some a ∧ w.asArray = some b
        ∧ List.Forall₂ (fun x y => same x y = true) a b := by
  cases v with
  | array a =>
    obtain ⟨b, rfl⟩ := array_of_same h
    exact .inr ⟨a, b, rfl, rfl, same_array.mp h⟩
  | _ =>
    cases w with
    | array b => simp [same] at h
    | _ => exact .inl ⟨rfl, rfl⟩

theorem asStr_same {v w : Value} (h : same v w = true) : w.asStr = v.asStr := by
  cases v with
  | string s =>
    cases w with
    | string t =>
      simp only [same, beq_iff_eq] at h
      rw [h]
    | _ => simp [same] at h
  | _ =>
    cases w with
    | string t => simp [same] at h
    | _ => rfl

end Value

/-! ## The crate -/

/-- How deep the crate lets arrays and objects nest. -/
def recursionLimit : Nat := 127

structure JsonCrate where
  serde : JsonSpan.Serde
  toVec : Value → List UInt8
  toVecPretty : Value → List UInt8
  /-- what a floating-point number reads as, once it is written -/
  reread : UInt64 → UInt64

def isAsciiWhitespace (b : UInt8) : Bool :=
  b == 0x20 || b == 0x09 || b == 0x0A || b == 0x0C || b == 0x0D

namespace JsonCrate

variable (json : JsonCrate)

def fromSlice (bytes : Bytes) : Option Value := json.serde.fromStr bytes.data.toList

/-- A document as the manager writes it, with a newline at its end. -/
def encode (document : Value) : Bytes := ⟨(json.toVecPretty document ++ [0x0A]).toArray⟩

structure Lawful : Prop where
  blank : ∀ text : JsonSpan.Str, text.all isAsciiWhitespace = true →
    json.serde.fromStr text = none
  wellFormed : ∀ text v, json.serde.fromStr text = some v → v.Distinct ∧ v.Within recursionLimit
  reads : ∀ v : Value, v.Distinct → v.Within recursionLimit →
    json.serde.fromStr (json.toVecPretty v ++ [0x0A]) = some (v.mapFloats json.reread)

end JsonCrate

end Kaleidoscope
