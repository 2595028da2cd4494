import Mathlib.Data.List.Basic
import Mathlib.Data.List.TakeWhile

/-!
# Maximal runs

The runs of the elements of a list that a predicate takes, cut at every element that it does not.

    mem_split_iff    the runs are the stretches that cannot be made longer, at their places
-/

namespace Runs

variable {α : Type} (p : α → Bool)

/-- The runs before, between and after the elements that `p` does not take, the empty ones
included. -/
def split : List α → List (List α)
  | [] => [[]]
  | a :: l =>
    if p a then
      match split l with
      | run :: runs => (a :: run) :: runs
      | [] => [[a]]
    else [] :: split l

/-- A stretch of taken elements with none before and none after it. -/
structure Maximal (before run after : List α) : Prop where
  taken : ∀ a ∈ run, p a = true
  before : ∀ a, before.getLast? = some a → p a = false
  after : ∀ a, after.head? = some a → p a = false

variable {p}

theorem split_eq (l : List α) :
    split p l = l.takeWhile p :: match l.dropWhile p with
      | [] => []
      | _ :: rest => split p rest := by
  induction l with
  | nil => rfl
  | cons a l ih =>
    rw [split]
    by_cases ha : p a = true
    · rw [if_pos ha, ih, List.takeWhile_cons_of_pos ha, List.dropWhile_cons_of_pos ha]
    · rw [if_neg ha, List.takeWhile_cons_of_neg ha, List.dropWhile_cons_of_neg ha]

theorem head_dropWhile {l : List α} {a : α} (h : (l.dropWhile p).head? = some a) : p a = false := by
  have := List.head?_dropWhile_not p l
  rw [h] at this
  simpa using this

/-- The first run. -/
theorem maximal_takeWhile (l : List α) : Maximal p [] (l.takeWhile p) (l.dropWhile p) where
  taken _ ha := List.mem_takeWhile_imp ha
  before a h := by cases h
  after _ h := head_dropWhile h

theorem Maximal.takeWhile_eq {run after : List α} (h : Maximal p [] run after) :
    (run ++ after).takeWhile p = run := by
  rw [List.takeWhile_append_of_pos h.taken]
  cases after with
  | nil => rw [List.takeWhile_nil, List.append_nil]
  | cons a after =>
    rw [List.takeWhile_cons_of_neg (by rw [h.after a rfl]; exact Bool.false_ne_true),
      List.append_nil]

/-- What is before a run, if anything, holds the element that ends the first run. -/
theorem dropWhile_of_last {before : List α} {last : α} (hlast : before.getLast? = some last)
    (h : p last = false) (l : List α) :
    ∃ a rest, (before ++ l).dropWhile p = a :: (rest ++ l) ∧ p a = false
      ∧ ∀ b, rest.getLast? = some b → p b = false := by
  induction before with
  | nil => cases hlast
  | cons a before ih =>
    by_cases ha : p a = true
    · rw [List.cons_append, List.dropWhile_cons_of_pos ha]
      cases before with
      | nil =>
        have hsame : a = last := by simpa using hlast
        rw [hsame, h] at ha
        cases ha
      | cons b before => exact ih (by rw [← hlast, List.getLast?_cons_cons])
    · rw [List.cons_append, List.dropWhile_cons_of_neg ha]
      refine ⟨a, before, rfl, by simpa using ha, fun b hb => ?_⟩
      cases before with
      | nil => cases hb
      | cons c before =>
        rw [List.getLast?_cons_cons, hb] at hlast
        cases hlast
        exact h

theorem mem_split_of_maximal (n : Nat) : ∀ {before run after : List α},
    (before ++ run ++ after).length ≤ n → Maximal p before run after →
      run ∈ split p (before ++ run ++ after) := by
  induction n with
  | zero =>
    intro before run after hn _
    have hnil : before ++ run ++ after = [] := List.length_eq_zero_iff.mp (by omega)
    have hrun : run = [] := (List.append_eq_nil_iff.mp (List.append_eq_nil_iff.mp hnil).1).2
    rw [hnil, hrun]
    exact List.mem_cons_self
  | succ n ih =>
    intro before run after hn h
    rw [split_eq]
    cases hlast : before.getLast? with
    | none =>
      rw [List.getLast?_eq_none_iff] at hlast
      subst hlast
      rw [List.nil_append, h.takeWhile_eq]
      exact List.mem_cons_self
    | some last =>
      obtain ⟨a, rest, hdrop, -, hrest⟩ :=
        dropWhile_of_last hlast (h.before last hlast) (run ++ after)
      rw [List.append_assoc, hdrop]
      refine List.mem_cons_of_mem _ ?_
      rw [← List.append_assoc]
      refine ih ?_ ⟨h.taken, hrest, h.after⟩
      have hlength := List.length_dropWhile_le p (before ++ (run ++ after))
      rw [hdrop] at hlength
      simp only [List.length_cons, List.length_append] at hlength hn ⊢
      omega

theorem maximal_of_mem_split (n : Nat) : ∀ {l run : List α}, l.length ≤ n → run ∈ split p l →
    ∃ before after, l = before ++ run ++ after ∧ Maximal p before run after := by
  induction n with
  | zero =>
    intro l run hn h
    have hnil : l = [] := List.length_eq_zero_iff.mp (by omega)
    subst hnil
    rw [split, List.mem_singleton] at h
    subst h
    exact ⟨[], [], rfl, maximal_takeWhile []⟩
  | succ n ih =>
    intro l run hn h
    rw [split_eq] at h
    rcases List.mem_cons.mp h with rfl | h
    · exact ⟨[], l.dropWhile p, (List.takeWhile_append_dropWhile).symm, maximal_takeWhile l⟩
    · cases hdrop : l.dropWhile p with
      | nil =>
        rw [hdrop] at h
        exact absurd h List.not_mem_nil
      | cons a rest =>
        rw [hdrop] at h
        have hlength := List.length_dropWhile_le p l
        rw [hdrop, List.length_cons] at hlength
        obtain ⟨before, after, hrest, hmax⟩ := ih (by omega) h
        refine ⟨l.takeWhile p ++ a :: before, after, ?_, hmax.taken, fun b hb => ?_, hmax.after⟩
        · conv => lhs; rw [← @List.takeWhile_append_dropWhile _ p l, hdrop, hrest]
          simp
        · rw [List.getLast?_append_cons] at hb
          cases before with
          | nil =>
            cases hb
            exact head_dropWhile (by rw [hdrop]; rfl)
          | cons c before =>
            rw [List.getLast?_cons_cons] at hb
            exact hmax.before b hb

theorem mem_split_iff {l run : List α} :
    run ∈ split p l
      ↔ ∃ before after, l = before ++ run ++ after ∧ Maximal p before run after := by
  constructor
  · exact maximal_of_mem_split l.length (Nat.le_refl _)
  · rintro ⟨before, after, rfl, h⟩
    exact mem_split_of_maximal _ (Nat.le_refl _) h

end Runs
