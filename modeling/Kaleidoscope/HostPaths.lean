import Kaleidoscope.Hosts

/-!
# Members at the end of a path

What setting and removing a member leaves at its own path, and at the paths that part from it.
-/

namespace Kaleidoscope.Hosts

/-- A value that can be written and read again, where it may nest so deep. -/
structure Sound (n : Nat) (v : Value) : Prop where
  distinct : v.Distinct
  within : v.Within n

theorem Sound.lookup {n : Nat} {members : Members} {key : Text} {v : Value}
    (h : Sound (n + 1) (.object members)) (hv : members.lookup key = some v) : Sound n v := by
  obtain ⟨hdistinct, hwithin⟩ := h
  cases hdistinct with
  | object _ hmembers =>
    cases hwithin with
    | object hwithin =>
      exact ⟨hmembers _ (Members.mem_of_lookup hv), hwithin _ (Members.mem_of_lookup hv)⟩

theorem Sound.nodup {n : Nat} {members : Members} (h : Sound n (.object members)) :
    (members.map Prod.fst).Nodup := by
  cases h.distinct with
  | object hnodup _ => exact hnodup

theorem Sound.set {n : Nat} {members : Members} {key : Text} {v : Value}
    (h : Sound (n + 1) (.object members)) (hv : Sound n v) :
    Sound (n + 1) (.object (Members.set key v members)) := by
  have hnodup := h.nodup
  obtain ⟨hdistinct, hwithin⟩ := h
  cases hdistinct with
  | object _ hmembers =>
    cases hwithin with
    | object hwithin =>
      refine ⟨.object (Members.nodup_set hnodup) fun m hm => ?_, .object fun m hm => ?_⟩
      · rcases Members.mem_of_mem_set hm with rfl | hm
        · exact hv.distinct
        · exact hmembers m hm
      · rcases Members.mem_of_mem_set hm with rfl | hm
        · exact hv.within
        · exact hwithin m hm

theorem Sound.swapRemove {n : Nat} {members : Members} {key : Text}
    (h : Sound (n + 1) (.object members)) :
    Sound (n + 1) (.object (Members.swapRemove key members)) := by
  have hnodup := h.nodup
  obtain ⟨hdistinct, hwithin⟩ := h
  cases hdistinct with
  | object _ hmembers =>
    cases hwithin with
    | object hwithin =>
      exact ⟨.object (Members.nodup_swapRemove key hnodup)
          fun m hm => hmembers m (Members.mem_of_mem_swapRemove hm),
        .object fun m hm => hwithin m (Members.mem_of_mem_swapRemove hm)⟩

theorem sound_empty (n : Nat) : Sound (n + 1) (.object []) :=
  ⟨.object List.nodup_nil nofun, .object nofun⟩

section

variable {member v v' : Value} {key : Text} {path : List Text}

/-! ## Setting -/

theorem setJsonPath_cons (h : setJsonPath member (key :: path) v = .ok v') :
    ∃ members inner, v = .object members ∧ v' = .object (Members.set key inner members)
      ∧ (path = [] ∧ inner = member
        ∨ setJsonPath member path ((members.lookup key).getD (.object [])) = .ok inner) := by
  cases v with
  | object members =>
    cases path with
    | nil =>
      rw [setJsonPath] at h
      cases h
      exact ⟨members, member, rfl, rfl, .inl ⟨rfl, rfl⟩⟩
    | cons next path =>
      rw [setJsonPath] at h
      · obtain ⟨inner, hinner, h⟩ := except_bind_eq_ok.mp h
        cases h
        exact ⟨members, inner, rfl, rfl, .inr hinner⟩
      · simp
  | _ =>
    cases path with
    | nil =>
      rw [setJsonPath] at h
      · cases h
      · simp
    | cons next path =>
      rw [setJsonPath] at h
      · cases h
      · simp
      · simp
      · intro members hmembers
        cases hmembers

theorem get_set (key : Text) (inner : Value) (members : Members) :
    (Value.object (Members.set key inner members)).get key = some inner :=
  Members.lookup_set_self key inner members

/-- The member that was set is there. -/
theorem getJsonPath_set (h : setJsonPath member path v = .ok v') :
    getJsonPath path v' = some member := by
  induction path generalizing v v' with
  | nil => cases h
  | cons key path ih =>
    obtain ⟨members, inner, rfl, rfl, ⟨rfl, rfl⟩ | hinner⟩ := setJsonPath_cons h
    · rw [getJsonPath, get_set]
      rfl
    · rw [getJsonPath, get_set, Option.bind_some]
      exact ih hinner

/-- A path that parts from the one that was set leads where it did. -/
theorem getJsonPath_set_apart {front : List Text} {other : Text} {rest : List Text}
    (hne : other ≠ key) (h : setJsonPath member (front ++ key :: path) v = .ok v') :
    getJsonPath (front ++ other :: rest) v' = getJsonPath (front ++ other :: rest) v := by
  induction front generalizing v v' with
  | nil =>
    obtain ⟨members, inner, rfl, rfl, -⟩ := setJsonPath_cons h
    show ((Members.set key inner members).lookup other).bind _ = (members.lookup other).bind _
    rw [Members.lookup_set_ne hne]
  | cons step front ih =>
    rw [List.cons_append] at h
    obtain ⟨members, inner, rfl, rfl, ⟨hnil, -⟩ | hinner⟩ := setJsonPath_cons h
    · exact absurd hnil (by simp)
    · rw [List.cons_append, getJsonPath, get_set, Option.bind_some, ih hinner, getJsonPath]
      cases hlookup : members.lookup step with
      | none =>
        rw [show (Value.object members).get step = none from hlookup]
        cases front with
        | nil => rfl
        | cons _ _ => rfl
      | some found => rw [show (Value.object members).get step = some found from hlookup]; rfl

theorem sound_set {n : Nat} (hmember : Sound n member) (hv : Sound (n + path.length) v)
    (h : setJsonPath member path v = .ok v') : Sound (n + path.length) v' := by
  induction path generalizing v v' with
  | nil => cases h
  | cons key path ih =>
    obtain ⟨members, inner, rfl, rfl, hinner⟩ := setJsonPath_cons h
    have hv : Sound (n + path.length + 1) (.object members) := hv
    refine hv.set ?_
    rcases hinner with ⟨rfl, rfl⟩ | hinner
    · exact hmember
    · refine ih ?_ hinner
      cases hlookup : members.lookup key with
      | none =>
        cases path with
        | nil => cases hinner
        | cons _ _ => exact sound_empty _
      | some found => exact hv.lookup hlookup

/-! ## Removing -/

theorem removeJsonPath_cons (h : removeJsonPath (key :: path) v = .ok v') :
    ∃ members, v = .object members
      ∧ (path = [] ∧ v' = .object (Members.swapRemove key members)
        ∨ ∃ found inner, members.lookup key = some found ∧ removeJsonPath path found = .ok inner
          ∧ v' = .object (Members.set key inner members)) := by
  cases v with
  | object members =>
    refine ⟨members, rfl, ?_⟩
    cases path with
    | nil =>
      rw [removeJsonPath] at h
      obtain ⟨_, -, h⟩ := except_bind_eq_ok.mp h
      cases h
      exact .inl ⟨rfl, rfl⟩
    | cons next path =>
      rw [removeJsonPath] at h
      · cases hlookup : members.lookup key with
        | none =>
          rw [hlookup] at h
          cases h
        | some found =>
          rw [hlookup] at h
          obtain ⟨inner, hinner, h⟩ := except_bind_eq_ok.mp h
          cases h
          exact .inr ⟨found, inner, rfl, hinner, rfl⟩
      · simp
  | _ =>
    rw [removeJsonPath] at h
    · cases h
    · simp
    · simp

/-- The member that was removed is gone. -/
theorem getJsonPath_remove {n : Nat} (hv : Sound (n + path.length) v)
    (h : removeJsonPath path v = .ok v') : getJsonPath path v' = none := by
  induction path generalizing v v' with
  | nil => cases h
  | cons key path ih =>
    obtain ⟨members, rfl, ⟨rfl, rfl⟩ | ⟨found, inner, hfound, hinner, rfl⟩⟩ :=
      removeJsonPath_cons h
    · rw [getJsonPath]
      show ((Members.swapRemove key members).lookup key).bind _ = none
      rw [Members.lookup_swapRemove_self hv.nodup]
      rfl
    · rw [getJsonPath, get_set, Option.bind_some]
      have hv : Sound (n + path.length + 1) (.object members) := hv
      exact ih (hv.lookup hfound) hinner

/-- A path that parts from the one that was removed leads where it did. -/
theorem getJsonPath_remove_apart {n : Nat} {front : List Text} {other : Text} {rest : List Text}
    (hne : other ≠ key) (hv : Sound (n + (front ++ key :: path).length) v)
    (h : removeJsonPath (front ++ key :: path) v = .ok v') :
    getJsonPath (front ++ other :: rest) v' = getJsonPath (front ++ other :: rest) v := by
  induction front generalizing v v' with
  | nil =>
    obtain ⟨members, rfl, ⟨rfl, rfl⟩ | ⟨found, inner, -, -, rfl⟩⟩ := removeJsonPath_cons h
    · show ((Members.swapRemove key members).lookup other).bind _ = (members.lookup other).bind _
      rw [Members.lookup_swapRemove_ne hv.nodup hne]
    · show ((Members.set key inner members).lookup other).bind _ = (members.lookup other).bind _
      rw [Members.lookup_set_ne hne]
  | cons step front ih =>
    rw [List.cons_append] at h
    obtain ⟨members, rfl, ⟨hnil, -⟩ | ⟨found, inner, hfound, hinner, rfl⟩⟩ :=
      removeJsonPath_cons h
    · exact absurd hnil (by simp)
    · have hv : Sound (n + (front ++ key :: path).length + 1) (.object members) := hv
      rw [List.cons_append, getJsonPath, get_set, Option.bind_some, ih (hv.lookup hfound) hinner,
        getJsonPath, show (Value.object members).get step = some found from hfound]
      rfl

theorem sound_remove {n : Nat} (hv : Sound (n + path.length) v)
    (h : removeJsonPath path v = .ok v') : Sound (n + path.length) v' := by
  induction path generalizing v v' with
  | nil => cases h
  | cons key path ih =>
    have hv : Sound (n + path.length + 1) v := hv
    obtain ⟨members, rfl, ⟨rfl, rfl⟩ | ⟨found, inner, hfound, hinner, rfl⟩⟩ :=
      removeJsonPath_cons h
    · exact hv.swapRemove
    · exact hv.set (ih (hv.lookup hfound) hinner)

/-! ## Values that are equal -/

theorem getJsonPath_mapFloats (f : UInt64 → UInt64) (path : List Text) (v : Value) :
    getJsonPath path (v.mapFloats f) = (getJsonPath path v).map (Value.mapFloats f) := by
  induction path generalizing v with
  | nil => rfl
  | cons key path ih =>
    rw [getJsonPath, getJsonPath, Value.get_mapFloats]
    cases v.get key with
    | none => rfl
    | some inner => exact ih inner

/-- Equal values have members at the same paths. -/
theorem getJsonPath_same {w : Value} (hv : v.Distinct) (h : Value.same v w = true) :
    (getJsonPath path v).isSome = (getJsonPath path w).isSome := by
  induction path generalizing v w with
  | nil => rfl
  | cons key path ih =>
    rw [getJsonPath, getJsonPath]
    rcases Value.get_same hv h key with ⟨hx, hy⟩ | ⟨x, y, hx, hy, hdistinct, hxy⟩
    · rw [hx, hy, Option.bind_none]
    · rw [hx, hy]
      exact ih hdistinct hxy

end

end Kaleidoscope.Hosts
