import Kaleidoscope.Lib.Runs
import Kaleidoscope.Lib.Text
import Mathlib.Data.List.Dedup

/-!
# Candidate extraction of the poison scan

`candidate_tokens` of `poison_scan.py`: what a table of digests is looked up with.

    candidateTokens_iff    the candidates are the aligned pieces of the text of a length that a
                           table entry can have
-/

namespace Kaleidoscope.PoisonScan

/-! ## Algorithm -/

def isSeparator (c : Char) : Bool := c == '_' || c == '.' || c == ':' || c == '/' || c == '-'

/-- The character class of `_CHUNK`. -/
def isTokenChar (c : Char) : Bool := Text.isAsciiAlphanumeric c || isSeparator c

def minCandidate : Nat := 5
def maxCandidate : Nat := 48

/-- `_CHUNK.finditer`: the runs of at least two characters. -/
def chunks (text : Text) : List Text :=
  (Runs.split isTokenChar text).filter fun chunk => 2 ≤ chunk.length

/-- What the loop over the characters of a piece appends, from an index on. -/
def separatorBounds : (index : Nat) → Text → List Nat
  | _, [] => []
  | index, c :: piece =>
    if isSeparator c then index :: (index + 1) :: separatorBounds (index + 1) piece
    else separatorBounds (index + 1) piece

/-- `sorted(set(bounds))` -/
def bounds (piece : Text) : List Nat :=
  (0 :: (separatorBounds 0 piece ++ [piece.length])).dedup.mergeSort

/-- `piece[start:stop].lower()` -/
def folded (piece : Text) (start stop : Nat) : Text :=
  ((piece.drop start).take (stop - start)).map Char.toLower

/-- The inner loop, which ends at the first width that is too large. -/
def candidatesFrom (piece : Text) (start : Nat) : List Nat → List Text
  | [] => []
  | stop :: bounds =>
    if maxCandidate < stop - start then []
    else if minCandidate ≤ stop - start then
      folded piece start stop :: candidatesFrom piece start bounds
    else candidatesFrom piece start bounds

/-- The outer loop. -/
def candidatesOver (piece : Text) : List Nat → List Text
  | [] => []
  | start :: bounds => candidatesFrom piece start bounds ++ candidatesOver piece bounds

def candidatesOf (piece : Text) : List Text :=
  if piece.length < minCandidate then [] else candidatesOver piece (bounds piece)

/-- `candidate_tokens`: the elements that are added to the set. -/
def candidateTokens (text : Text) : List Text := (chunks text).flatMap candidatesOf

/-! ## Statement -/

/-- A place at a separator or just after one. -/
def BesideSeparator (front back : Text) : Prop :=
  (∃ c, back.head? = some c ∧ isSeparator c = true)
    ∨ ∃ c, front.getLast? = some c ∧ isSeparator c = true

/-- A piece of a chunk that starts at the chunk's start, at a separator or just after one, and
ends at the chunk's end, at a separator or just after one. -/
structure Aligned (front piece back : Text) : Prop where
  starts : front = [] ∨ BesideSeparator front (piece ++ back)
  ends : back = [] ∨ BesideSeparator (front ++ piece) back

/-- A candidate: a folded piece of a maximal chunk of the text. -/
def IsCandidate (text needle : Text) : Prop :=
  ∃ before chunk after, text = before ++ chunk ++ after
    ∧ Runs.Maximal isTokenChar before chunk after
    ∧ ∃ front piece back, chunk = front ++ piece ++ back ∧ Aligned front piece back
      ∧ 5 ≤ piece.length ∧ piece.length ≤ 48 ∧ needle = piece.map Char.toLower

/-! ## Bounds -/

theorem mem_separatorBounds {piece : Text} {index k : Nat} :
    k ∈ separatorBounds index piece
      ↔ ∃ i c, piece[i]? = some c ∧ isSeparator c = true ∧ (k = index + i ∨ k = index + i + 1) := by
  induction piece generalizing index with
  | nil => simp [separatorBounds]
  | cons a piece ih =>
    have hshift : (∃ i c, (a :: piece)[i]? = some c ∧ isSeparator c = true
          ∧ (k = index + i ∨ k = index + i + 1))
        ↔ (isSeparator a = true ∧ (k = index ∨ k = index + 1))
          ∨ k ∈ separatorBounds (index + 1) piece := by
      rw [ih]
      constructor
      · rintro ⟨i, c, hc, hsep, hk⟩
        cases i with
        | zero =>
          cases hc
          exact .inl ⟨hsep, hk⟩
        | succ i =>
          exact .inr ⟨i, c, by simpa using hc, hsep, by omega⟩
      · rintro (⟨hsep, hk⟩ | ⟨i, c, hc, hsep, hk⟩)
        · exact ⟨0, a, rfl, hsep, hk⟩
        · exact ⟨i + 1, c, by simpa using hc, hsep, by omega⟩
    rw [hshift, separatorBounds]
    by_cases hsep : isSeparator a = true
    · rw [if_pos hsep, List.mem_cons, List.mem_cons]
      simp only [hsep, true_and, or_assoc]
    · rw [if_neg hsep]
      simp only [hsep, Bool.false_eq_true, false_and, false_or]

theorem mem_bounds {piece : Text} {k : Nat} :
    k ∈ bounds piece
      ↔ k = 0 ∨ k = piece.length
        ∨ ∃ i c, piece[i]? = some c ∧ isSeparator c = true ∧ (k = i ∨ k = i + 1) := by
  unfold bounds
  rw [(List.mergeSort_perm _ _).mem_iff, List.mem_dedup, List.mem_cons, List.mem_append,
    List.mem_singleton, mem_separatorBounds]
  simp only [Nat.zero_add]
  rw [or_comm (b := k = piece.length)]

theorem bounds_sorted (piece : Text) : (bounds piece).Pairwise (· < ·) := by
  have hle : (bounds piece).Pairwise (· ≤ ·) := List.pairwise_mergeSort' (· ≤ ·) _
  have hnodup : (bounds piece).Nodup :=
    (List.mergeSort_perm _ _).nodup_iff.mpr (List.nodup_dedup _)
  exact (hle.and hnodup).imp fun h => Nat.lt_of_le_of_ne h.1 h.2

/-- A place in a piece is a bound if it is at an end of the piece or beside a separator. -/
theorem mem_bounds_iff {front back : Text} :
    front.length ∈ bounds (front ++ back)
      ↔ front = [] ∨ back = [] ∨ BesideSeparator front back := by
  have hbehind : (∃ c, back.head? = some c ∧ isSeparator c = true)
      ↔ ∃ c, (front ++ back)[front.length]? = some c ∧ isSeparator c = true := by
    rw [List.getElem?_append_right (Nat.le_refl _), Nat.sub_self, List.head?_eq_getElem?]
  have hlast : (∃ c, front.getLast? = some c ∧ isSeparator c = true)
      ↔ ∃ i c, (front ++ back)[i]? = some c ∧ isSeparator c = true ∧ front.length = i + 1 := by
    constructor
    · rintro ⟨c, hc, hsep⟩
      obtain ⟨init, rfl⟩ := List.getLast?_eq_some_iff.mp hc
      refine ⟨init.length, c, ?_, hsep, by simp⟩
      rw [List.append_assoc, List.getElem?_append_right (Nat.le_refl _), Nat.sub_self]
      rfl
    · rintro ⟨i, c, hc, hsep, hlength⟩
      rw [List.getElem?_append_left (by omega)] at hc
      exact ⟨c, by rw [List.getLast?_eq_getElem?, hlength]; exact hc, hsep⟩
  rw [mem_bounds, List.length_eq_zero_iff, List.length_append, BesideSeparator, hbehind, hlast]
  refine or_congr Iff.rfl (or_congr ?_ ?_)
  · rw [← List.length_eq_zero_iff]
    omega
  · constructor
    · rintro ⟨i, c, hc, hsep, rfl | hk⟩
      · exact .inl ⟨c, hc, hsep⟩
      · exact .inr ⟨i, c, hc, hsep, hk⟩
    · rintro (⟨c, hc, hsep⟩ | ⟨i, c, hc, hsep, hk⟩)
      · exact ⟨_, c, hc, hsep, .inl rfl⟩
      · exact ⟨i, c, hc, hsep, .inr hk⟩

theorem bounds_le {piece : Text} {k : Nat} (h : k ∈ bounds piece) : k ≤ piece.length := by
  rcases mem_bounds.mp h with rfl | rfl | ⟨i, c, hc, -, hk⟩
  · exact Nat.zero_le _
  · exact Nat.le_refl _
  · have := (List.getElem?_eq_some_iff.mp hc).1
    omega

/-! ## The loops -/

/-- The inner loop stops early, but what it leaves out is too long. -/
theorem mem_candidatesFrom {piece needle : Text} {start : Nat} {bounds : List Nat}
    (hsorted : bounds.Pairwise (· < ·)) :
    needle ∈ candidatesFrom piece start bounds
      ↔ ∃ stop ∈ bounds, minCandidate ≤ stop - start ∧ stop - start ≤ maxCandidate
          ∧ needle = folded piece start stop := by
  induction bounds with
  | nil => simp [candidatesFrom]
  | cons stop bounds ih =>
    obtain ⟨hstop, hsorted⟩ := List.pairwise_cons.mp hsorted
    rw [candidatesFrom]
    by_cases hlong : maxCandidate < stop - start
    · rw [if_pos hlong]
      refine ⟨fun h => absurd h List.not_mem_nil, ?_⟩
      rintro ⟨other, hother, -, hwidth, -⟩
      rcases List.mem_cons.mp hother with rfl | hother
      · omega
      · have := hstop other hother
        omega
    · rw [if_neg hlong, List.exists_mem_cons_iff, ← ih hsorted]
      by_cases hshort : minCandidate ≤ stop - start
      · rw [if_pos hshort, List.mem_cons]
        exact or_congr ⟨fun h => ⟨hshort, by omega, h⟩, fun h => h.2.2⟩ Iff.rfl
      · rw [if_neg hshort]
        exact ⟨.inr, fun h => h.resolve_left fun hc => hshort hc.1⟩

theorem mem_candidatesOver {piece needle : Text} {bounds : List Nat}
    (hsorted : bounds.Pairwise (· < ·)) :
    needle ∈ candidatesOver piece bounds
      ↔ ∃ start ∈ bounds, ∃ stop ∈ bounds, minCandidate ≤ stop - start
          ∧ stop - start ≤ maxCandidate ∧ needle = folded piece start stop := by
  induction bounds with
  | nil => simp [candidatesOver]
  | cons first bounds ih =>
    obtain ⟨hfirst, hsorted⟩ := List.pairwise_cons.mp hsorted
    rw [candidatesOver, List.mem_append, mem_candidatesFrom hsorted, ih hsorted]
    constructor
    · rintro (⟨stop, hstop, h⟩ | ⟨start, hstart, stop, hstop, h⟩)
      · exact ⟨first, List.mem_cons_self, stop, List.mem_cons_of_mem _ hstop, h⟩
      · exact ⟨start, List.mem_cons_of_mem _ hstart, stop, List.mem_cons_of_mem _ hstop, h⟩
    · rintro ⟨start, hstart, stop, hstop, hmin, h⟩
      have hmin' : 5 ≤ stop - start := hmin
      rcases List.mem_cons.mp hstart with rfl | hlater
      · rcases List.mem_cons.mp hstop with rfl | hstop
        · omega
        · exact .inl ⟨stop, hstop, hmin, h⟩
      · rcases List.mem_cons.mp hstop with rfl | hstop
        · -- the first bound comes before every other
          have := hfirst start hlater
          omega
        · exact .inr ⟨start, hlater, stop, hstop, hmin, h⟩

/-! ## Pieces -/

theorem aligned_iff {front piece back : Text} (hpiece : piece ≠ []) :
    Aligned front piece back
      ↔ front.length ∈ bounds (front ++ piece ++ back)
        ∧ (front ++ piece).length ∈ bounds (front ++ piece ++ back) := by
  have hstart : front.length ∈ bounds (front ++ (piece ++ back))
      ↔ front = [] ∨ piece ++ back = [] ∨ BesideSeparator front (piece ++ back) := mem_bounds_iff
  have hstop : (front ++ piece).length ∈ bounds (front ++ piece ++ back)
      ↔ front ++ piece = [] ∨ back = [] ∨ BesideSeparator (front ++ piece) back := mem_bounds_iff
  rw [hstop, List.append_assoc, hstart]
  constructor
  · intro h
    exact ⟨h.starts.imp_right .inr, .inr h.ends⟩
  · rintro ⟨hfirst, hlast⟩
    refine ⟨hfirst.imp_right fun h => h.resolve_left fun hnil => ?_,
      hlast.resolve_left fun hnil => ?_⟩
    · exact hpiece (List.append_eq_nil_iff.mp hnil).2
    · exact hpiece (List.append_eq_nil_iff.mp hnil).1

theorem mem_candidatesOf {chunk needle : Text} :
    needle ∈ candidatesOf chunk
      ↔ ∃ front piece back, chunk = front ++ piece ++ back ∧ Aligned front piece back
          ∧ 5 ≤ piece.length ∧ piece.length ≤ 48 ∧ needle = piece.map Char.toLower := by
  have hover : needle ∈ candidatesOver chunk (bounds chunk)
      ↔ ∃ front piece back, chunk = front ++ piece ++ back ∧ Aligned front piece back
          ∧ 5 ≤ piece.length ∧ piece.length ≤ 48 ∧ needle = piece.map Char.toLower := by
    rw [mem_candidatesOver (bounds_sorted chunk)]
    constructor
    · rintro ⟨start, hstart, stop, hstop, hmin, hmax, rfl⟩
      have hmin' : 5 ≤ stop - start := hmin
      have hle := bounds_le hstop
      have hcut : chunk = chunk.take start ++ (chunk.drop start).take (stop - start)
          ++ chunk.drop stop := by
        rw [← List.take_add, Nat.add_sub_cancel' (by omega), List.take_append_drop]
      have hlength : ((chunk.drop start).take (stop - start)).length = stop - start := by
        simp only [List.length_take, List.length_drop]
        omega
      have hfront : (chunk.take start).length = start := by
        rw [List.length_take]
        omega
      refine ⟨_, _, _, hcut, ?_, by rw [hlength]; exact hmin, by rw [hlength]; exact hmax, rfl⟩
      rw [aligned_iff (fun hnil => by rw [hnil] at hlength; simp at hlength; omega), ← hcut,
        List.length_append, hfront, hlength, Nat.add_sub_cancel' (by omega)]
      exact ⟨hstart, hstop⟩
    · rintro ⟨front, piece, back, rfl, haligned, hmin, hmax, rfl⟩
      have hpiece : piece ≠ [] := by
        rintro rfl
        exact absurd hmin (by decide)
      obtain ⟨hstart, hstop⟩ := (aligned_iff hpiece).mp haligned
      have hwidth : (front ++ piece).length - front.length = piece.length := by
        rw [List.length_append, Nat.add_sub_cancel_left]
      refine ⟨_, hstart, _, hstop, by rw [hwidth]; exact hmin, by rw [hwidth]; exact hmax, ?_⟩
      unfold folded
      rw [hwidth, List.append_assoc, List.drop_left, List.take_left]
  unfold candidatesOf
  by_cases hshort : chunk.length < minCandidate
  · rw [if_pos hshort]
    refine ⟨fun h => absurd h List.not_mem_nil, ?_⟩
    rintro ⟨front, piece, back, rfl, -, hmin, -⟩
    have hshort' : (front ++ piece ++ back).length < 5 := hshort
    simp only [List.length_append] at hshort'
    omega
  · rw [if_neg hshort]
    exact hover

/-! ## Top theorem -/

/-- The candidates of a text are exactly its aligned pieces of 5 to 48 characters. -/
theorem candidateTokens_iff (text needle : Text) :
    needle ∈ candidateTokens text ↔ IsCandidate text needle := by
  unfold candidateTokens chunks IsCandidate
  rw [List.mem_flatMap]
  constructor
  · rintro ⟨chunk, hchunk, hneedle⟩
    obtain ⟨before, after, htext, hmax⟩ := Runs.mem_split_iff.mp (List.mem_filter.mp hchunk).1
    exact ⟨before, chunk, after, htext, hmax, mem_candidatesOf.mp hneedle⟩
  · rintro ⟨before, chunk, after, htext, hmax, h⟩
    refine ⟨chunk, List.mem_filter.mpr ⟨Runs.mem_split_iff.mpr ⟨before, after, htext, hmax⟩, ?_⟩,
      mem_candidatesOf.mpr h⟩
    obtain ⟨front, piece, back, rfl, -, hmin, -⟩ := h
    simp only [List.length_append, decide_eq_true_eq]
    omega

end Kaleidoscope.PoisonScan
