import Kaleidoscope.Lib.Text

/-!
# Replacing every match of a pattern

A pattern says, for a text, whether a match begins there: what replaces it and how long it is.
`replaceAll` scans from left to right and goes on after each match, as `re.sub` and a global
`String.replace` do.  No match is empty.

    replaceAll_append       a text is replaced in two parts: the second begins where the last match
                            of the first ends
    replaceAll_inert        a part in which no match begins stays
    dropWhile_replaceAll    a scan whose matches hold no separator starts anew at a separator
-/

namespace Scan

/-- What replaces the match at the start of a text, and the length of the match. -/
abbrev Pattern := Text → Option (Text × Nat)

variable (m : Pattern)

/-- `skip` characters of the last match are still to be passed over. -/
def replaceFrom : (skip : Nat) → Text → Text
  | _, [] => []
  | skip + 1, _ :: t => replaceFrom skip t
  | 0, c :: t =>
    match m (c :: t) with
    | some (replacement, length) => replacement ++ replaceFrom (length - 1) t
    | none => c :: replaceFrom 0 t

def replaceAll (t : Text) : Text := replaceFrom m 0 t

/-- Whether the last match of the scan reaches the end of the text. -/
def endsInMatch : (skip : Nat) → Text → Bool
  | _, [] => false
  | skip + 1, _ :: t => endsInMatch skip t
  | 0, c :: t =>
    match m (c :: t) with
    | some (_, length) => length == t.length + 1 || endsInMatch (length - 1) t
    | none => endsInMatch 0 t

variable {m}

theorem replaceFrom_some {c : Char} {t r : Text} {n : Nat} (h : m (c :: t) = some (r, n)) :
    replaceFrom m 0 (c :: t) = r ++ replaceFrom m (n - 1) t := by
  simp [replaceFrom, h]

theorem replaceFrom_none {c : Char} {t : Text} (h : m (c :: t) = none) :
    replaceFrom m 0 (c :: t) = c :: replaceFrom m 0 t := by
  simp [replaceFrom, h]

theorem endsInMatch_some {c : Char} {t r : Text} {n : Nat} (h : m (c :: t) = some (r, n)) :
    endsInMatch m 0 (c :: t) = (n == t.length + 1 || endsInMatch m (n - 1) t) := by
  simp [endsInMatch, h]

theorem endsInMatch_none {c : Char} {t : Text} (h : m (c :: t) = none) :
    endsInMatch m 0 (c :: t) = endsInMatch m 0 t := by
  simp [endsInMatch, h]

theorem replaceFrom_drop (t : Text) :
    ∀ {skip : Nat}, replaceFrom m skip t = replaceAll m (t.drop skip) := by
  induction t with
  | nil =>
    intro skip
    cases skip <;> rfl
  | cons c t ih =>
    intro skip
    cases skip with
    | zero => rfl
    | succ skip => exact ih

/-- A match at the start of a text. -/
theorem replaceAll_match {t r : Text} {n : Nat} (h : m t = some (r, n)) (hne : t ≠ [])
    (hn : 0 < n) : replaceAll m t = r ++ replaceAll m (t.drop n) := by
  cases t with
  | nil => exact absurd rfl hne
  | cons c t =>
    obtain ⟨n, rfl⟩ : ∃ k, n = k + 1 := ⟨n - 1, by omega⟩
    show replaceFrom m 0 (c :: t) = _
    rw [replaceFrom_some h, Nat.add_sub_cancel, replaceFrom_drop]
    rfl

/-- How a pattern that was tried on the end of a text goes on in `z`: a match that reaches the
end takes `more` characters of it, and the other places are as they were. -/
structure Extends (m : Pattern) (z : Text) (more : Nat) (u : Text) : Prop where
  none : m u = none → m (u ++ z) = none
  inside : ∀ {r n}, m u = some (r, n) → n < u.length → m (u ++ z) = some (r, n)
  reaches : ∀ {r n}, m u = some (r, n) → n = u.length → m (u ++ z) = some (r, n + more)
  bound : ∀ {r n}, m u = some (r, n) → n ≤ u.length

theorem replaceFrom_append {z : Text} {more : Nat} (x : Text) :
    ∀ {skip : Nat}, skip ≤ x.length → (∀ u, u ≠ [] → u <:+ x → Extends m z more u) →
      replaceFrom m skip (x ++ z)
        = replaceFrom m skip x
          ++ replaceAll m (if endsInMatch m skip x then z.drop more else z) := by
  induction x with
  | nil =>
    intro skip hskip _
    have hzero : skip = 0 := by simpa using hskip
    subst hzero
    rfl
  | cons c x ih =>
    intro skip hskip hext
    have hsuffix : ∀ u, u ≠ [] → u <:+ x → Extends m z more u := fun u hne hu =>
      hext u hne (hu.trans (List.suffix_cons c x))
    cases skip with
    | succ skip =>
      have hle : skip ≤ x.length := by simpa using hskip
      exact ih hle hsuffix
    | zero =>
      have he := hext (c :: x) (by simp) (List.suffix_refl _)
      rw [List.cons_append]
      cases hm : m (c :: x) with
      | none =>
        have hmz := he.none hm
        rw [List.cons_append] at hmz
        rw [replaceFrom_none hm, replaceFrom_none hmz, endsInMatch_none hm,
          ih (Nat.zero_le _) hsuffix, List.cons_append]
      | some found =>
        obtain ⟨r, n⟩ := found
        have hbound := he.bound hm
        rw [List.length_cons] at hbound
        by_cases hn : n = x.length + 1
        · have hends : endsInMatch m 0 (c :: x) = true := by simp [endsInMatch_some hm, hn]
          have hx : x.drop (n - 1) = [] := by
            rw [List.drop_eq_nil_iff]
            omega
          have hz : (x ++ z).drop (n + more - 1) = z.drop more := by
            rw [List.drop_append, List.drop_eq_nil_of_le (by omega), List.nil_append]
            congr 1
            omega
          have hmz := he.reaches hm hn
          rw [List.cons_append] at hmz
          rw [replaceFrom_some hm, replaceFrom_some hmz, hends, if_pos rfl,
            replaceFrom_drop, replaceFrom_drop, hx, hz]
          simp [replaceAll, replaceFrom]
        · have hends : endsInMatch m 0 (c :: x) = endsInMatch m (n - 1) x := by
            simp [endsInMatch_some hm, hn]
          have hlt : n < (c :: x).length := by
            rw [List.length_cons]
            omega
          have hmz := he.inside hm hlt
          rw [List.cons_append] at hmz
          rw [replaceFrom_some hm, replaceFrom_some hmz, hends,
            ih (by omega) hsuffix, List.append_assoc]

/-- A text is replaced in two parts: the second begins where the last match of the first ends. -/
theorem replaceAll_append {x z : Text} {more : Nat}
    (hext : ∀ u, u ≠ [] → u <:+ x → Extends m z more u) :
    replaceAll m (x ++ z)
      = replaceAll m x ++ replaceAll m (if endsInMatch m 0 x then z.drop more else z) :=
  replaceFrom_append x (Nat.zero_le _) hext

/-- Where the last match reaches the end, the result ends with what replaces it. -/
theorem replaceFrom_of_endsInMatch (x : Text) :
    ∀ {skip : Nat}, endsInMatch m skip x = true →
      ∃ t r n front, m t = some (r, n) ∧ replaceFrom m skip x = front ++ r := by
  induction x with
  | nil =>
    intro skip h
    cases skip <;> cases h
  | cons c x ih =>
    intro skip h
    cases skip with
    | succ skip => exact ih h
    | zero =>
      cases hm : m (c :: x) with
      | none =>
        rw [endsInMatch_none hm] at h
        obtain ⟨t, r, n, front, ht, hfront⟩ := ih h
        exact ⟨t, r, n, c :: front, ht, by rw [replaceFrom_none hm, hfront, List.cons_append]⟩
      | some found =>
        obtain ⟨r, n⟩ := found
        rw [endsInMatch_some hm] at h
        rw [replaceFrom_some hm]
        by_cases hn : n = x.length + 1
        · refine ⟨c :: x, r, n, [], hm, ?_⟩
          rw [replaceFrom_drop, List.drop_eq_nil_of_le (by omega)]
          simp [replaceAll, replaceFrom]
        · have hends : endsInMatch m (n - 1) x = true := by simpa [hn] using h
          obtain ⟨t, r', n', front, ht, hfront⟩ := ih hends
          exact ⟨t, r', n', r ++ front, ht, by rw [hfront, List.append_assoc]⟩

/-- The first of several patterns that matches. -/
theorem extends_findSome {α : Type} {patterns : List α} {m : α → Pattern} {z u : Text}
    {more : Nat} (h : ∀ a ∈ patterns, Extends (m a) z more u) :
    Extends (fun t => patterns.findSome? fun a => m a t) z more u := by
  induction patterns with
  | nil => exact ⟨fun _ => rfl, fun h => (nomatch h), fun h => (nomatch h), fun h => (nomatch h)⟩
  | cons a patterns ih =>
    have ha := h a (by simp)
    have hrest := ih fun b hb => h b (by simp [hb])
    cases hm : m a u with
    | none =>
      have hz := ha.none hm
      have hu : (a :: patterns).findSome? (fun a => m a u) = patterns.findSome? fun a => m a u := by
        simp [hm]
      have huz : (a :: patterns).findSome? (fun a => m a (u ++ z))
          = patterns.findSome? fun a => m a (u ++ z) := by
        simp [hz]
      constructor
      · intro h
        rw [huz]
        exact hrest.none (hu ▸ h)
      · intro r n h hn
        rw [huz]
        exact hrest.inside (hu ▸ h) hn
      · intro r n h hn
        rw [huz]
        exact hrest.reaches (hu ▸ h) hn
      · intro r n h
        exact hrest.bound (hu ▸ h)
    | some found =>
      have hu : (a :: patterns).findSome? (fun a => m a u) = some found := by
        simp [hm]
      have huz : ∀ {found'}, m a (u ++ z) = some found' →
          (a :: patterns).findSome? (fun a => m a (u ++ z)) = some found' := by
        intro found' h
        simp [h]
      constructor
      · intro h
        rw [hu] at h
        cases h
      · intro r n h hn
        rw [hu] at h
        cases h
        exact huz (ha.inside hm hn)
      · intro r n h hn
        rw [hu] at h
        cases h
        exact huz (ha.reaches hm hn)
      · intro r n h
        rw [hu] at h
        cases h
        exact ha.bound hm

/-- A part in which no match begins stays. -/
theorem replaceAll_inert {x z : Text} (h : ∀ u, u ≠ [] → u <:+ x → m (u ++ z) = none) :
    replaceAll m (x ++ z) = x ++ replaceAll m z := by
  induction x with
  | nil => rfl
  | cons c x ih =>
    have hhead := h (c :: x) (by simp) (List.suffix_refl _)
    rw [List.cons_append] at hhead
    have hrest := ih fun u hne hu => h u hne (hu.trans (List.suffix_cons c x))
    show replaceFrom m 0 (c :: (x ++ z)) = _
    rw [replaceFrom_none hhead, List.cons_append]
    exact congrArg (c :: ·) hrest

/-- The matches and the replacements of a pattern hold only characters of `p`. -/
def StaysIn (m : Pattern) (p : Char → Bool) : Prop :=
  ∀ {t r n}, m t = some (r, n) → (∀ c ∈ r, p c = true) ∧ 0 < n ∧ ∀ c ∈ t.take n, p c = true

theorem dropWhile_replaceFrom {p : Char → Bool} (hm : StaysIn m p) (t : Text) :
    ∀ {skip : Nat}, (∀ c ∈ t.take skip, p c = true) →
      (replaceFrom m skip t).dropWhile p = replaceAll m (t.dropWhile p) := by
  induction t with
  | nil =>
    intro skip _
    cases skip <;> rfl
  | cons c t ih =>
    intro skip hskip
    cases skip with
    | succ skip =>
      rw [List.take_succ_cons] at hskip
      rw [List.dropWhile_cons_of_pos (hskip c (by simp))]
      exact ih fun d hd => hskip d (by simp [hd])
    | zero =>
      cases hfound : m (c :: t) with
      | none =>
        rw [replaceFrom_none hfound]
        by_cases hc : p c = true
        · rw [List.dropWhile_cons_of_pos hc, List.dropWhile_cons_of_pos hc]
          exact ih fun d hd => by simp at hd
        · rw [List.dropWhile_cons_of_neg hc, List.dropWhile_cons_of_neg hc]
          exact (replaceFrom_none hfound).symm
      | some found =>
        obtain ⟨r, n⟩ := found
        obtain ⟨hr, hpos, htake⟩ := hm hfound
        obtain ⟨n, rfl⟩ : ∃ k, n = k + 1 := ⟨n - 1, by omega⟩
        rw [List.take_succ_cons] at htake
        rw [replaceFrom_some hfound, List.dropWhile_append_of_pos hr,
          List.dropWhile_cons_of_pos (htake c (by simp)), Nat.add_sub_cancel]
        exact ih fun d hd => htake d (by simp [hd])

/-- A scan whose matches hold no separator starts anew at a separator. -/
theorem dropWhile_replaceAll {p : Char → Bool} (hm : StaysIn m p) (t : Text) :
    (replaceAll m t).dropWhile p = replaceAll m (t.dropWhile p) :=
  dropWhile_replaceFrom hm t fun c hc => by simp at hc

end Scan
