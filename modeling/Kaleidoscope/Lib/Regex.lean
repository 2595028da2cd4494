import Mathlib.Data.List.Basic
import Mathlib.Data.List.TakeWhile
import Mathlib.Data.Nat.Find

/-!
# Backtracking patterns

A pattern is a sequence of pieces.  A match tries the lengths of a repeated class in the order its
quantifier gives, and keeps the first that lets the rest of the pattern match; the groups of the
match are the texts of the captured repetitions.

    matchAt_greedy     a greedy class whose characters the rest cannot begin with takes all of them
    matchAt_lazy       a lazy class ends before the first place where the rest matches
    findAll_eq_every   matches that hold no beginning of another are all matches of the text
-/

namespace Regex

variable {α : Type} [DecidableEq α]

inductive Piece (α : Type) where
  | word (w : List α)
  /-- `^` without the multiline flag -/
  | start
  /-- `$`, for what may follow it -/
  | finish (ends : List α → Bool)
  | many (p : α → Bool) (least : Nat) (most : Option Nat) (greedy captured : Bool)

/-- The groups of a match, and the text after it. -/
abbrev Match (α : Type) := List (List α) × List α

/-- The lengths of a repetition, in the order they are tried. -/
def lengths (greedy : Bool) (least most : Nat) : List Nat :=
  let upward := (List.range (most + 1)).filter (least ≤ ·)
  if greedy then upward.reverse else upward

/-- How many characters of a class stand at the start of a text, up to a bound. -/
def reach (p : α → Bool) (most : Option Nat) (t : List α) : Nat :=
  match most with
  | none => (t.takeWhile p).length
  | some n => min (t.takeWhile p).length n

def capture (captured : Bool) (text : List α) (m : Match α) : Match α :=
  if captured then (text :: m.1, m.2) else m

/-- The match of a pattern at the start of `t`, which begins at `pos` in the text. -/
def matchAt : List (Piece α) → (pos : Nat) → (t : List α) → Option (Match α)
  | [], _, t => some ([], t)
  | .word w :: rest, pos, t =>
    if w <+: t then matchAt rest (pos + w.length) (t.drop w.length) else none
  | .start :: rest, pos, t => if pos = 0 then matchAt rest pos t else none
  | .finish ends :: rest, pos, t => if ends t then matchAt rest pos t else none
  | .many p least most greedy captured :: rest, pos, t =>
    (lengths greedy least (reach p most t)).findSome? fun n =>
      (matchAt rest (pos + n) (t.drop n)).map (capture captured (t.take n))

/-- The leftmost match. -/
def search (ps : List (Piece α)) : (pos : Nat) → List α → Option (Match α)
  | pos, [] => matchAt ps pos []
  | pos, c :: t =>
    match matchAt ps pos (c :: t) with
    | some m => some m
    | none => search ps (pos + 1) t

/-- A match of all of a text. -/
def fullmatch (ps : List (Piece α)) (t : List α) : Option (Match α) :=
  matchAt (ps ++ [.finish List.isEmpty]) 0 t

/-- The groups of all matches from left to right, each behind the one before; no match is empty.
`skip` characters of the last match are still to be passed over. -/
def findFrom (ps : List (Piece α)) : (skip pos : Nat) → List α → List (List (List α))
  | _, _, [] => []
  | skip + 1, pos, _ :: t => findFrom ps skip (pos + 1) t
  | 0, pos, c :: t =>
    match matchAt ps pos (c :: t) with
    | some (groups, rest) => groups :: findFrom ps (t.length - rest.length) (pos + 1) t
    | none => findFrom ps 0 (pos + 1) t

def findAll (ps : List (Piece α)) (t : List α) : List (List (List α)) := findFrom ps 0 0 t

/-- The groups of the matches that begin anywhere in a text. -/
def every (ps : List (Piece α)) : (pos : Nat) → List α → List (List (List α))
  | _, [] => []
  | pos, c :: t => ((matchAt ps pos (c :: t)).map (·.1)).toList ++ every ps (pos + 1) t

/-! ## Lemmas -/

theorem mem_lengths {greedy : Bool} {least most n : Nat} :
    n ∈ lengths greedy least most ↔ least ≤ n ∧ n ≤ most := by
  have hup : n ∈ (List.range (most + 1)).filter (least ≤ ·) ↔ least ≤ n ∧ n ≤ most := by
    rw [List.mem_filter, List.mem_range, decide_eq_true_iff]
    omega
  unfold lengths
  cases greedy with
  | false => exact hup
  | true => exact List.mem_reverse.trans hup

theorem reach_le {β : Type} (p : β → Bool) (most : Option Nat) (t : List β) :
    reach p most t ≤ (t.takeWhile p).length := by
  unfold reach
  cases most with
  | none => exact Nat.le_refl _
  | some n => exact Nat.min_le_left _ _

variable {ps : List (Piece α)} {pos : Nat} {t : List α}

@[simp] theorem matchAt_nil : matchAt ([] : List (Piece α)) pos t = some ([], t) := rfl

theorem matchAt_word (w : List α) (t : List α) :
    matchAt (.word w :: ps) pos (w ++ t) = matchAt ps (pos + w.length) t := by
  rw [matchAt, if_pos (List.prefix_append w t), List.drop_left]

theorem matchAt_word_none {w : List α} (h : ¬w <+: t) : matchAt (.word w :: ps) pos t = none := by
  rw [matchAt, if_neg h]

theorem matchAt_many_isSome {p : α → Bool} {least : Nat} {most : Option Nat}
    {greedy captured : Bool} :
    (matchAt (.many p least most greedy captured :: ps) pos t).isSome = true
      ↔ ∃ n, least ≤ n ∧ n ≤ reach p most t ∧ (matchAt ps (pos + n) (t.drop n)).isSome = true := by
  rw [matchAt, List.findSome?_isSome_iff]
  constructor
  · rintro ⟨n, hn, hsome⟩
    rw [Option.isSome_map] at hsome
    exact ⟨n, (mem_lengths.mp hn).1, (mem_lengths.mp hn).2, hsome⟩
  · rintro ⟨n, hleast, hmost, hsome⟩
    refine ⟨n, mem_lengths.mpr ⟨hleast, hmost⟩, ?_⟩
    rw [Option.isSome_map]
    exact hsome

/-- What comes first in a list that is split where the search succeeds. -/
theorem findSome?_split {β γ : Type} {f : β → Option γ} {before after : List β} {b : β} {c : γ}
    (hnone : ∀ x ∈ before, f x = none) (hsome : f b = some c) :
    (before ++ b :: after).findSome? f = some c := by
  rw [List.findSome?_append, List.findSome?_eq_none_iff.mpr hnone, Option.none_or,
    List.findSome?_cons, hsome]

/-- A greedy class takes all its characters where the rest of the pattern cannot begin with one
of them. -/
theorem matchAt_greedy {p : α → Bool} {captured : Bool}
    (hrest : ∀ n < (t.takeWhile p).length, matchAt ps (pos + n) (t.drop n) = none)
    (hone : t.takeWhile p ≠ []) :
    matchAt (.many p 1 none true captured :: ps) pos t
      = (matchAt ps (pos + (t.takeWhile p).length) (t.dropWhile p)).map
          (capture captured (t.takeWhile p)) := by
  have hpos : 0 < (t.takeWhile p).length := List.length_pos_iff.mpr hone
  have htake : t.take (t.takeWhile p).length = t.takeWhile p := by
    conv => lhs; arg 2; rw [← List.takeWhile_append_dropWhile (p := p) (l := t)]
    exact List.take_left
  have hdrop : t.drop (t.takeWhile p).length = t.dropWhile p := by
    conv => lhs; arg 2; rw [← List.takeWhile_append_dropWhile (p := p) (l := t)]
    exact List.drop_left
  have hlengths : lengths true 1 (reach p none t)
      = (t.takeWhile p).length
        :: ((List.range (t.takeWhile p).length).filter (1 ≤ ·)).reverse := by
    unfold lengths reach
    rw [if_pos rfl, List.range_succ, List.filter_append, List.reverse_append,
      List.filter_singleton, decide_eq_true (Nat.succ_le_of_lt hpos)]
    rfl
  rw [matchAt, hlengths, List.findSome?_cons, htake, hdrop]
  cases hm : matchAt ps (pos + (t.takeWhile p).length) (t.dropWhile p) with
  | some m => rfl
  | none =>
    refine List.findSome?_eq_none_iff.mpr fun n hn => ?_
    have hlt : n < (t.takeWhile p).length :=
      List.mem_range.mp (List.mem_of_mem_filter (List.mem_reverse.mp hn))
    rw [hrest n hlt]
    rfl

theorem matchAt_greedy_none {p : α → Bool} {captured : Bool} (hone : t.takeWhile p = []) :
    matchAt (.many p 1 none true captured :: ps) pos t = none := by
  have hlengths : lengths true 1 (reach p none t) = [] := by
    unfold lengths reach
    simp [hone]
  rw [matchAt, hlengths]
  rfl

/-- A lazy class ends before the first place where the rest of the pattern matches. -/
theorem matchAt_lazy {p : α → Bool} {captured : Bool} {n : Nat} {m : Match α}
    (hreach : n ≤ (t.takeWhile p).length)
    (hfirst : ∀ k < n, matchAt ps (pos + k) (t.drop k) = none)
    (hmatch : matchAt ps (pos + n) (t.drop n) = some m) :
    matchAt (.many p 0 none false captured :: ps) pos t
      = some (capture captured (t.take n) m) := by
  have hlengths : lengths false 0 (reach p none t)
      = List.range n ++ n :: (List.range ((t.takeWhile p).length - n)).map (n + 1 + ·) := by
    have hsum : (t.takeWhile p).length + 1 = n + 1 + ((t.takeWhile p).length - n) := by omega
    unfold lengths reach
    rw [if_neg (by simp), List.filter_eq_self.mpr (by simp), hsum, List.range_add,
      List.range_succ, List.append_assoc]
    rfl
  rw [matchAt, hlengths]
  refine findSome?_split (fun k hk => ?_) ?_
  · rw [hfirst k (List.mem_range.mp hk)]
    rfl
  · rw [hmatch]
    rfl

theorem matchAt_lazy_none {p : α → Bool} {captured : Bool}
    (hrest : ∀ k ≤ (t.takeWhile p).length, matchAt ps (pos + k) (t.drop k) = none) :
    matchAt (.many p 0 none false captured :: ps) pos t = none := by
  rw [matchAt]
  refine List.findSome?_eq_none_iff.mpr fun k hk => ?_
  rw [hrest k (mem_lengths.mp hk).2]
  rfl

theorem matchAt_word_eq_some {w : List α} {m : Match α} :
    matchAt (.word w :: ps) pos t = some m
      ↔ ∃ rest, t = w ++ rest ∧ matchAt ps (pos + w.length) rest = some m := by
  constructor
  · intro h
    by_cases hw : w <+: t
    · obtain ⟨rest, rfl⟩ := hw
      rw [matchAt_word] at h
      exact ⟨rest, rfl, h⟩
    · rw [matchAt_word_none hw] at h
      cases h
  · rintro ⟨rest, rfl, h⟩
    rw [matchAt_word]
    exact h

theorem takeWhile_append_of_head {β : Type} {p : β → Bool} {run rest : List β}
    (hrun : ∀ x ∈ run, p x = true) (hrest : ∀ x ∈ rest.head?, p x = false) :
    (run ++ rest).takeWhile p = run ∧ (run ++ rest).dropWhile p = rest := by
  rw [List.takeWhile_append_of_pos hrun, List.dropWhile_append_of_pos hrun]
  cases rest with
  | nil => exact ⟨List.append_nil run, rfl⟩
  | cons x rest =>
    have hx := hrest x rfl
    rw [List.takeWhile_cons_of_neg (by simp [hx]), List.dropWhile_cons_of_neg (by simp [hx])]
    exact ⟨List.append_nil run, rfl⟩

/-- A captured run of a class before a word that begins with no character of it. -/
theorem matchAt_run_eq_some {p : α → Bool} {c : α} {w : List α} (hc : p c = false) {m : Match α} :
    matchAt (.many p 1 none true true :: .word (c :: w) :: ps) pos t = some m
      ↔ ∃ run rest groups, t = run ++ (c :: w) ++ rest ∧ run ≠ [] ∧ (∀ x ∈ run, p x = true)
        ∧ matchAt ps (pos + run.length + (c :: w).length) rest = some (groups, m.2)
        ∧ m.1 = run :: groups := by
  have hrest : ∀ n < (t.takeWhile p).length,
      matchAt (.word (c :: w) :: ps) (pos + n) (t.drop n) = none := by
    intro n hn
    refine matchAt_word_none fun hword => ?_
    obtain ⟨rest, hrest⟩ := hword
    have hget : (t.takeWhile p)[n]? = some c := by
      have hsplit : t[n]? = some c := by
        rw [← List.head?_drop, ← hrest]
        rfl
      rw [← List.takeWhile_append_dropWhile (p := p) (l := t),
        List.getElem?_append_left hn] at hsplit
      exact hsplit
    have := List.mem_takeWhile_imp (List.mem_of_getElem? hget)
    rw [hc] at this
    cases this
  constructor
  · intro h
    by_cases hone : t.takeWhile p = []
    · rw [matchAt_greedy_none hone] at h
      cases h
    · rw [matchAt_greedy hrest hone] at h
      obtain ⟨⟨groups, after⟩, hm, rfl⟩ := Option.map_eq_some_iff.mp h
      obtain ⟨rest, hdrop, hm⟩ := matchAt_word_eq_some.mp hm
      refine ⟨t.takeWhile p, rest, groups, ?_, hone, fun x hx => List.mem_takeWhile_imp hx, hm, rfl⟩
      rw [List.append_assoc, ← hdrop, List.takeWhile_append_dropWhile]
  · rintro ⟨run, rest, groups, rfl, hne, hrun, hm, hgroups⟩
    rw [List.append_assoc] at hrest ⊢
    have hhead : ∀ x ∈ (c :: w ++ rest).head?, p x = false := by
      rintro x ⟨⟩
      exact hc
    obtain ⟨htake, hdrop⟩ := takeWhile_append_of_head hrun hhead
    rw [matchAt_greedy hrest (by rw [htake]; exact hne), htake, hdrop]
    refine Option.map_eq_some_iff.mpr ⟨(groups, m.2), matchAt_word_eq_some.mpr ⟨rest, rfl, hm⟩, ?_⟩
    show (run :: groups, m.2) = m
    rw [← hgroups]

/-- A captured lazy class before a word that ends the pattern. -/
theorem matchAt_until_eq_some {p : α → Bool} {w : List α} {m : Match α} :
    matchAt [.many p 0 none false true, .word w] pos t = some m
      ↔ ∃ body, t = body ++ w ++ m.2 ∧ (∀ x ∈ body, p x = true)
        ∧ (∀ k < body.length, ¬w <+: t.drop k) ∧ m.1 = [body] := by
  have hword : ∀ {k : Nat}, matchAt [.word w] (pos + k) (t.drop k) = none ↔ ¬w <+: t.drop k := by
    intro k
    rw [matchAt]
    split
    next h => simp [h]
    next h => simp [h]
  constructor
  · intro h
    by_cases hfound : ∃ k, k ≤ (t.takeWhile p).length ∧ w <+: t.drop k
    · obtain ⟨hreach, hhere⟩ := Nat.find_spec hfound
      have hfirst : ∀ k < Nat.find hfound, ¬w <+: t.drop k := fun k hk hw =>
        Nat.find_min hfound hk ⟨by omega, hw⟩
      obtain ⟨rest, hrest⟩ := hhere
      have hm : matchAt [.word w] (pos + Nat.find hfound) (t.drop (Nat.find hfound))
          = some ([], rest) := by
        rw [← hrest, matchAt_word]
        rfl
      rw [matchAt_lazy hreach (fun k hk => hword.mpr (hfirst k hk)) hm] at h
      obtain rfl := Option.some.inj h
      have htake : t.take (Nat.find hfound) <+: t.takeWhile p := by
        refine List.prefix_of_prefix_length_le (List.take_prefix _ _) (List.takeWhile_prefix p) ?_
        rw [List.length_take]
        omega
      refine ⟨t.take (Nat.find hfound), ?_, fun x hx => ?_, fun k hk => ?_, rfl⟩
      · show t = t.take _ ++ w ++ rest
        rw [List.append_assoc, hrest, List.take_append_drop]
      · exact List.mem_takeWhile_imp (htake.subset hx)
      · rw [List.length_take] at hk
        exact hfirst k (by omega)
    · rw [matchAt_lazy_none fun k hk => hword.mpr fun hw => hfound ⟨k, hk, hw⟩] at h
      cases h
  · rintro ⟨body, ht, hbody, hfirst, hgroups⟩
    have hreach : body.length ≤ (t.takeWhile p).length := by
      rw [ht, List.append_assoc, List.takeWhile_append_of_pos hbody, List.length_append]
      omega
    have hdrop : t.drop body.length = w ++ m.2 := by
      conv => lhs; rw [ht, List.append_assoc, List.drop_left]
    have hm : matchAt [.word w] (pos + body.length) (t.drop body.length) = some ([], m.2) := by
      rw [hdrop, matchAt_word]
      rfl
    rw [matchAt_lazy hreach (fun k hk => hword.mpr (hfirst k hk)) hm]
    have htake : t.take body.length = body := by
      conv => lhs; rw [ht, List.append_assoc, List.take_left]
    rw [htake]
    show some ([body], m.2) = some m
    rw [← hgroups]

/-- A pattern that begins with `^` is found at the start or nowhere. -/
theorem search_start (t : List α) : search (.start :: ps) 0 t = matchAt ps 0 t := by
  have hlater : ∀ (t : List α) (pos : Nat), 0 < pos → search (.start :: ps) pos t = none := by
    intro t
    induction t with
    | nil =>
      intro pos hpos
      rw [search, matchAt, if_neg (by omega)]
    | cons c t ih =>
      intro pos hpos
      rw [search, matchAt, if_neg (by omega)]
      exact ih (pos + 1) (by omega)
  cases t with
  | nil =>
    rw [search, matchAt, if_pos rfl]
  | cons c t =>
    rw [search, matchAt, if_pos rfl]
    cases hm : matchAt ps 0 (c :: t) with
    | some m => rfl
    | none => exact hlater t 1 (by omega)

/-- Where no match begins inside another, the matches from left to right are all there are. -/
theorem findAll_eq_every
    (hinside : ∀ pos c t groups rest, matchAt ps pos (c :: t) = some (groups, rest) →
      ∀ k < t.length - rest.length, matchAt ps (pos + 1 + k) (t.drop k) = none) (t : List α) :
    findAll ps t = every ps 0 t := by
  have hgen : ∀ (t : List α) (skip pos : Nat),
      (∀ k < skip, matchAt ps (pos + k) (t.drop k) = none) →
      findFrom ps skip pos t = every ps pos t := by
    intro t
    induction t with
    | nil =>
      intro skip pos _
      cases skip <;> rfl
    | cons c t ih =>
      intro skip pos hskip
      cases skip with
      | succ skip =>
        have hhere := hskip 0 (by omega)
        simp only [Nat.add_zero, List.drop_zero] at hhere
        rw [findFrom, every, hhere]
        refine ih skip (pos + 1) fun k hk => ?_
        have hnext := hskip (k + 1) (by omega)
        rw [List.drop_succ_cons] at hnext
        rw [show pos + 1 + k = pos + (k + 1) by omega]
        exact hnext
      | zero =>
        rw [findFrom, every]
        cases hm : matchAt ps pos (c :: t) with
        | none => exact ih 0 (pos + 1) (by omega)
        | some m =>
          obtain ⟨groups, rest⟩ := m
          rw [Option.map_some, Option.toList_some, List.singleton_append]
          exact congrArg _ (ih _ (pos + 1) (hinside pos c t groups rest hm))
  exact hgen t 0 0 (by omega)

end Regex
