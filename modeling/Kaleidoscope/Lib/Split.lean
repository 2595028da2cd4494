import Mathlib.Data.List.Basic
import Kaleidoscope.Lib.Text

/-!
# Pieces between separators

    intercalate_split    the pieces with the separators between them are the text
    split_cons           a piece in front of a separator
    split_three          a text of three pieces
-/

namespace Text

variable {sep : Char} {t : Text}

theorem split_ne_nil (sep : Char) (t : Text) : split sep t ≠ [] := by
  cases t with
  | nil => exact List.cons_ne_nil _ _
  | cons c t =>
    rw [split]
    split
    · exact List.cons_ne_nil _ _
    · split
      · exact List.cons_ne_nil _ _
      · exact List.cons_ne_nil _ _

theorem split_cons_of_ne {c : Char} (hc : c ≠ sep) {piece : Text} {pieces : List Text}
    (h : split sep t = piece :: pieces) : split sep (c :: t) = (c :: piece) :: pieces := by
  rw [split, if_neg hc, h]

/-- The pieces with the separators between them are the text. -/
theorem intercalate_split (sep : Char) (t : Text) : [sep].intercalate (split sep t) = t := by
  induction t with
  | nil => rfl
  | cons c t ih =>
    obtain ⟨piece, pieces, hsplit⟩ := List.exists_cons_of_ne_nil (split_ne_nil sep t)
    rw [hsplit] at ih
    by_cases hc : c = sep
    · rw [split, if_pos hc, hsplit, List.intercalate_cons_cons, ih, hc]
      rfl
    · rw [split_cons_of_ne hc hsplit]
      cases pieces with
      | nil =>
        rw [List.intercalate_singleton] at ih ⊢
        rw [ih]
      | cons next pieces =>
        rw [List.intercalate_cons_cons] at ih ⊢
        rw [← ih]
        rfl

theorem notMem_split {piece : Text} (h : piece ∈ split sep t) : sep ∉ piece := by
  induction t generalizing piece with
  | nil =>
    rw [split, List.mem_singleton] at h
    subst h
    exact List.not_mem_nil
  | cons c t ih =>
    obtain ⟨first, pieces, hsplit⟩ := List.exists_cons_of_ne_nil (split_ne_nil sep t)
    rw [hsplit] at ih
    by_cases hc : c = sep
    · rw [split, if_pos hc, hsplit] at h
      rcases List.mem_cons.mp h with rfl | h
      · exact List.not_mem_nil
      · exact ih h
    · rw [split_cons_of_ne hc hsplit] at h
      rcases List.mem_cons.mp h with rfl | h
      · rw [List.mem_cons, not_or]
        exact ⟨fun heq => hc heq.symm, ih List.mem_cons_self⟩
      · exact ih (List.mem_cons_of_mem _ h)

/-- A text of three pieces. -/
theorem split_three {a b c : Text} (h : split sep t = [a, b, c]) :
    t = a ++ sep :: b ++ sep :: c ∧ sep ∉ a ∧ sep ∉ b ∧ sep ∉ c := by
  have hjoin := intercalate_split sep t
  have hfree : ∀ piece ∈ [a, b, c], sep ∉ piece := fun piece hp => notMem_split (h ▸ hp)
  rw [h, List.intercalate_cons_cons, List.intercalate_cons_cons,
    List.intercalate_singleton] at hjoin
  refine ⟨?_, hfree a (by simp), hfree b (by simp), hfree c (by simp)⟩
  rw [← hjoin]
  simp

end Text
