import Kaleidoscope.Lib.Text

/-!
# Finding a text in another

Matches are found from the left, and the next one is looked for where the last one ends.

    two_le_matchIndices   two occurrences apart from each other are two matches
    matchIndices_single   a text that begins with one that is found once, is found once
    matchIndices_append   the matches of two texts that no match crosses from one into the other
    find_append           a text that begins with a marker is found behind one without markers
-/

namespace Text

/-- The places of the matches; `skip` characters still belong to the last one. -/
def matchIndicesFrom (pat : Text) : (skip pos : Nat) → Text → List Nat
  | _, _, [] => []
  | skip + 1, pos, _ :: t => matchIndicesFrom pat skip (pos + 1) t
  | 0, pos, c :: t =>
    if pat.isPrefixOf (c :: t) then pos :: matchIndicesFrom pat (pat.length - 1) (pos + 1) t
    else matchIndicesFrom pat 0 (pos + 1) t

/-- `match_indices`, of a pattern that is not empty. -/
def matchIndices (pat t : Text) : List Nat := matchIndicesFrom pat 0 0 t

def find (pat t : Text) : Option Nat := (matchIndices pat t).head?

/-- `replacen(_, _, 1)` -/
def replaceFirst (pat new t : Text) : Text :=
  match find pat t with
  | some i => t.take i ++ new ++ t.drop (i + pat.length)
  | none => t

section

variable {pat block t : Text}

theorem matchIndicesFrom_mem {skip pos i : Nat} (h : i ∈ matchIndicesFrom pat skip pos t) :
    pos + skip ≤ i ∧ pat <+: t.drop (i - pos) := by
  induction t generalizing skip pos with
  | nil => simp [matchIndicesFrom] at h
  | cons c t ih =>
    have hdrop : ∀ {j}, pos + 1 ≤ j → (c :: t).drop (j - pos) = t.drop (j - (pos + 1)) := by
      intro j hj
      rw [show j - pos = j - (pos + 1) + 1 by omega, List.drop_succ_cons]
    cases skip with
    | succ skip =>
      rw [matchIndicesFrom] at h
      obtain ⟨hle, hat⟩ := ih h
      rw [hdrop (by omega)]
      exact ⟨by omega, hat⟩
    | zero =>
      rw [matchIndicesFrom] at h
      split at h
      next hhere =>
        rcases List.mem_cons.mp h with rfl | h
        · rw [Nat.sub_self]
          exact ⟨Nat.le_refl _, List.isPrefixOf_iff_prefix.mp hhere⟩
        · obtain ⟨hle, hat⟩ := ih h
          rw [hdrop (by omega)]
          exact ⟨by omega, hat⟩
      next =>
        obtain ⟨hle, hat⟩ := ih h
        rw [hdrop (by omega)]
        exact ⟨by omega, hat⟩

/-- An occurrence is found, or one before it. -/
theorem exists_matchIndicesFrom (hne : pat ≠ []) {skip pos k : Nat} (hskip : skip ≤ k)
    (hat : pat <+: t.drop k) : ∃ i ∈ matchIndicesFrom pat skip pos t, i ≤ pos + k := by
  induction t generalizing skip pos k with
  | nil =>
    rw [List.drop_nil] at hat
    exact absurd (List.prefix_nil.mp hat) hne
  | cons c t ih =>
    have hlater : ∀ {skip'}, skip' + 1 ≤ k →
        ∃ i ∈ matchIndicesFrom pat skip' (pos + 1) t, i ≤ pos + k := by
      intro skip' hle
      obtain ⟨k, rfl⟩ := Nat.exists_eq_add_of_le' (Nat.le_of_add_left_le hle)
      rw [List.drop_succ_cons] at hat
      obtain ⟨i, hi, hik⟩ := @ih skip' (pos + 1) k (by omega) hat
      exact ⟨i, hi, by omega⟩
    cases skip with
    | succ skip =>
      rw [matchIndicesFrom]
      exact hlater hskip
    | zero =>
      rw [matchIndicesFrom]
      split
      · exact ⟨pos, List.mem_cons_self, by omega⟩
      next hhere =>
        refine hlater (Nat.pos_of_ne_zero ?_)
        rintro rfl
        exact hhere (List.isPrefixOf_iff_prefix.mpr hat)

theorem two_le_matchIndicesFrom (hne : pat ≠ []) {skip pos j k : Nat} (hskip : skip ≤ j)
    (hj : pat <+: t.drop j) (hjk : j + pat.length ≤ k) (hk : pat <+: t.drop k) :
    2 ≤ (matchIndicesFrom pat skip pos t).length := by
  induction t generalizing skip pos j k with
  | nil =>
    rw [List.drop_nil] at hj
    exact absurd (List.prefix_nil.mp hj) hne
  | cons c t ih =>
    have hlength := List.length_pos_of_ne_nil hne
    have hlater : ∀ {skip'}, skip' + 1 ≤ j →
        2 ≤ (matchIndicesFrom pat skip' (pos + 1) t).length := by
      intro skip' hle
      obtain ⟨j, rfl⟩ := Nat.exists_eq_add_of_le' (Nat.le_of_add_left_le hle)
      obtain ⟨k, rfl⟩ : ∃ k', k = k' + 1 := ⟨k - 1, by omega⟩
      rw [List.drop_succ_cons] at hj hk
      exact ih (by omega) hj (by omega) hk
    cases skip with
    | succ skip =>
      rw [matchIndicesFrom]
      exact hlater hskip
    | zero =>
      rw [matchIndicesFrom]
      split
      · -- the next match is looked for where this one ends, which is before the second one
        obtain ⟨k, rfl⟩ : ∃ k', k = k' + 1 := ⟨k - 1, by omega⟩
        rw [List.drop_succ_cons] at hk
        obtain ⟨i, hi, -⟩ := @exists_matchIndicesFrom pat t hne (pat.length - 1) (pos + 1) k
          (by omega) hk
        have := List.length_pos_of_mem hi
        rw [List.length_cons]
        omega
      next hhere =>
        refine hlater (Nat.pos_of_ne_zero ?_)
        rintro rfl
        exact hhere (List.isPrefixOf_iff_prefix.mpr hj)

theorem matchIndicesFrom_pairwise (hne : pat ≠ []) (skip pos : Nat) (t : Text) :
    (matchIndicesFrom pat skip pos t).Pairwise fun i j => i + pat.length ≤ j := by
  induction t generalizing skip pos with
  | nil => simp [matchIndicesFrom]
  | cons c t ih =>
    cases skip with
    | succ skip =>
      rw [matchIndicesFrom]
      exact ih _ _
    | zero =>
      rw [matchIndicesFrom]
      split
      · refine List.pairwise_cons.mpr ⟨fun j hj => ?_, ih _ _⟩
        have hlength := List.length_pos_of_ne_nil hne
        have := (matchIndicesFrom_mem hj).1
        omega
      · exact ih _ _

theorem prefix_of_mem {i : Nat} (h : i ∈ matchIndices pat t) : pat <+: t.drop i :=
  (matchIndicesFrom_mem h).2

theorem two_le_matchIndices (hne : pat ≠ []) {j k : Nat} (hj : pat <+: t.drop j)
    (hjk : j + pat.length ≤ k) (hk : pat <+: t.drop k) : 2 ≤ (matchIndices pat t).length :=
  two_le_matchIndicesFrom hne (Nat.zero_le j) hj hjk hk

theorem length_pos_matchIndices (hne : pat ≠ []) {k : Nat} (hk : pat <+: t.drop k) :
    0 < (matchIndices pat t).length := by
  obtain ⟨i, hi, -⟩ := @exists_matchIndicesFrom pat t hne 0 0 k (Nat.zero_le k) hk
  exact List.length_pos_of_mem hi

/-- A text that begins with one that is found once, is found once where it occurs. -/
theorem matchIndices_single (hne : pat ≠ []) (hbegins : pat <+: block)
    (hone : (matchIndices pat t).length = 1) {k : Nat} (hk : block <+: t.drop k) :
    (matchIndices block t).length = 1 := by
  have hblock : block ≠ [] := by
    rintro rfl
    exact hne (List.prefix_nil.mp hbegins)
  have hpos := length_pos_matchIndices hblock hk
  have hpairwise := matchIndicesFrom_pairwise hblock 0 0 t
  by_contra hnot
  match hindices : matchIndices block t with
  | [] =>
    rw [hindices] at hpos
    cases hpos
  | [_] =>
    rw [hindices] at hnot
    exact hnot rfl
  | i :: j :: rest =>
    have hi : i ∈ matchIndices block t := by simp [hindices]
    have hj : j ∈ matchIndices block t := by simp [hindices]
    unfold matchIndices at hindices
    rw [hindices] at hpairwise
    have hapart := (List.pairwise_cons.mp hpairwise).1 j List.mem_cons_self
    have hlength := hbegins.length_le
    have := two_le_matchIndices hne (hbegins.trans (prefix_of_mem hi)) (by omega)
      (hbegins.trans (prefix_of_mem hj))
    omega

theorem contains_iff : contains t pat = true ↔ ∃ k, pat <+: t.drop k := by
  induction t with
  | nil =>
    simp [contains, List.isEmpty_iff]
  | cons c t ih =>
    rw [contains, Bool.or_eq_true, ih, List.isPrefixOf_iff_prefix]
    constructor
    · rintro (h | ⟨k, hk⟩)
      · exact ⟨0, h⟩
      · exact ⟨k + 1, hk⟩
    · rintro ⟨k, hk⟩
      cases k with
      | zero => exact .inl hk
      | succ k => exact .inr ⟨k, hk⟩

/-- What is found once does not occur again after its place. -/
theorem not_contains_after (hne : pat ≠ []) (hone : (matchIndices pat t).length = 1) {i : Nat}
    (hi : find pat t = some i) : contains (t.drop (i + pat.length)) pat = false := by
  rw [Bool.eq_false_iff]
  intro hcontains
  obtain ⟨k, hk⟩ := contains_iff.mp hcontains
  rw [List.drop_drop] at hk
  have := two_le_matchIndices hne (prefix_of_mem (List.mem_of_mem_head? hi)) (by omega) hk
  omega

/-! ## Texts behind each other -/

/-- A match that begins in the first text and ends in the second. -/
def Crosses (pat a b : Text) : Prop :=
  ∃ p q, pat = p ++ q ∧ p ≠ [] ∧ q ≠ [] ∧ p <:+ a ∧ q <+: b

theorem Crosses.cons {c : Char} {a b : Text} (h : Crosses pat a b) : Crosses pat (c :: a) b := by
  obtain ⟨p, q, hpat, hp, hq, hsuffix, hfirst⟩ := h
  exact ⟨p, q, hpat, hp, hq, hsuffix.trans (List.suffix_cons c a), hfirst⟩

/-- A match at the start of both ends in the first, or crosses. -/
theorem prefix_append_iff {a b : Text} (ha : a ≠ []) (hcross : ¬Crosses pat a b) :
    pat <+: a ++ b ↔ pat <+: a := by
  constructor
  · intro h
    rcases List.prefix_or_prefix_of_prefix h (List.prefix_append a b) with h' | ⟨q, rfl⟩
    · exact h'
    · by_cases hq : q = []
      · rw [hq, List.append_nil]
      · exact absurd ⟨a, q, rfl, ha, hq, List.suffix_refl a, (List.prefix_append_right_inj a).mp h⟩
          hcross
  · exact fun h => h.trans (List.prefix_append a b)

theorem matchIndicesFrom_append {skip pos : Nat} {a b : Text} (hskip : skip ≤ a.length)
    (hcross : ¬Crosses pat a b) :
    matchIndicesFrom pat skip pos (a ++ b)
      = matchIndicesFrom pat skip pos a ++ matchIndicesFrom pat 0 (pos + a.length) b := by
  induction a generalizing skip pos with
  | nil =>
    obtain rfl : skip = 0 := Nat.le_zero.mp hskip
    rfl
  | cons c a ih =>
    have hrest : ¬Crosses pat a b := fun h => hcross h.cons
    have hpos : pos + (c :: a).length = pos + 1 + a.length := by
      rw [List.length_cons]
      omega
    rw [List.length_cons] at hskip
    cases skip with
    | succ skip =>
      rw [List.cons_append, matchIndicesFrom, matchIndicesFrom, ih (by omega) hrest, hpos]
    | zero =>
      rw [List.cons_append, matchIndicesFrom, matchIndicesFrom, hpos]
      by_cases hhere : pat <+: c :: a
      · have hlength := hhere.length_le
        rw [List.length_cons] at hlength
        have hboth : pat <+: c :: (a ++ b) := hhere.trans (List.prefix_append (c :: a) b)
        rw [if_pos (List.isPrefixOf_iff_prefix.mpr hhere),
          if_pos (List.isPrefixOf_iff_prefix.mpr hboth), ih (by omega) hrest, List.cons_append]
      · have hnot : ¬pat <+: c :: (a ++ b) := fun h =>
          hhere ((prefix_append_iff (List.cons_ne_nil c a) hcross).mp h)
        rw [if_neg fun h => hhere (List.isPrefixOf_iff_prefix.mp h),
          if_neg fun h => hnot (List.isPrefixOf_iff_prefix.mp h), ih (Nat.zero_le _) hrest]

theorem matchIndicesFrom_add (skip pos n : Nat) (t : Text) :
    matchIndicesFrom pat skip (n + pos) t = (matchIndicesFrom pat skip pos t).map (n + ·) := by
  induction t generalizing skip pos with
  | nil => simp [matchIndicesFrom]
  | cons c t ih =>
    cases skip with
    | succ skip =>
      rw [matchIndicesFrom, matchIndicesFrom]
      exact ih skip (pos + 1)
    | zero =>
      rw [matchIndicesFrom, matchIndicesFrom]
      split
      · rw [List.map_cons]
        exact congrArg _ (ih _ (pos + 1))
      · exact ih 0 (pos + 1)

theorem matchIndices_append {a b : Text} (hcross : ¬Crosses pat a b) :
    matchIndices pat (a ++ b)
      = matchIndices pat a ++ (matchIndices pat b).map (a.length + ·) := by
  unfold matchIndices
  rw [matchIndicesFrom_append (Nat.zero_le _) hcross, Nat.zero_add,
    ← matchIndicesFrom_add, Nat.add_zero]

/-- A text in which a marker does not occur. -/
abbrev Free (marker t : Text) : Prop := contains t marker = false

theorem matchIndices_eq_nil (hne : pat ≠ []) : matchIndices pat t = [] ↔ Free pat t := by
  rw [Free, Bool.eq_false_iff, Ne, contains_iff]
  constructor
  · rintro h ⟨k, hk⟩
    have := length_pos_matchIndices hne hk
    rw [h] at this
    cases this
  · intro h
    by_contra hnil
    obtain ⟨i, hi⟩ := List.exists_mem_of_ne_nil _ hnil
    exact h ⟨i, prefix_of_mem hi⟩

theorem Free.left {marker a b : Text} (h : Free marker (a ++ b)) : Free marker a := by
  rw [Free, Bool.eq_false_iff, Ne, contains_iff] at *
  rintro ⟨k, hk⟩
  by_cases hle : k ≤ a.length
  · exact h ⟨k, by rw [List.drop_append_of_le_length hle]; exact hk.trans (List.prefix_append _ b)⟩
  · rw [List.drop_eq_nil_of_le (by omega)] at hk
    exact h ⟨k, (List.prefix_nil.mp hk) ▸ List.nil_prefix⟩

theorem Free.right {marker a b : Text} (h : Free marker (a ++ b)) : Free marker b := by
  rw [Free, Bool.eq_false_iff, Ne, contains_iff] at *
  rintro ⟨k, hk⟩
  refine h ⟨a.length + k, ?_⟩
  rw [← List.drop_drop, List.drop_left]
  exact hk

theorem Free.append {a b : Text} (hne : pat ≠ []) (ha : Free pat a) (hb : Free pat b)
    (hcross : ¬Crosses pat a b) : Free pat (a ++ b) := by
  rw [← matchIndices_eq_nil hne] at *
  rw [matchIndices_append hcross, ha, hb]
  rfl

/-- A marker does not cross into characters that it does not hold. -/
theorem not_crosses_of_notMem {a b : Text} (h : ∀ c ∈ b.head?, c ∉ pat) : ¬Crosses pat a b := by
  rintro ⟨p, q, rfl, -, hq, -, hqb⟩
  obtain ⟨c, q, rfl⟩ := List.exists_cons_of_ne_nil hq
  obtain ⟨rest, rfl⟩ := hqb
  exact h c rfl (List.mem_append_right _ List.mem_cons_self)

/-- No end of the marker is the start of another one: it cannot cross into itself. -/
def Unbordered (marker : Text) : Prop :=
  ∀ k < marker.length, 0 < k → ¬marker.drop k <+: marker

/-- A marker does not cross into a text that begins with it. -/
theorem not_crosses_of_begins {marker a b : Text} (hunbordered : Unbordered marker)
    (hbegins : marker <+: b) : ¬Crosses marker a b := by
  rintro ⟨p, q, hmarker, hp, hq, -, hqb⟩
  have hlength : p.length < marker.length := by
    have := List.length_pos_of_ne_nil hq
    rw [hmarker, List.length_append]
    omega
  have hdrop : marker.drop p.length = q := by rw [hmarker, List.drop_left]
  refine hunbordered p.length hlength (List.length_pos_of_ne_nil hp) ?_
  rw [hdrop]
  refine List.prefix_of_prefix_length_le hqb hbegins ?_
  rw [hmarker, List.length_append]
  omega

/-- A text that begins with a marker does not occur earlier than behind one without it. -/
theorem find_append {marker head block rest : Text} (hne : marker ≠ [])
    (hunbordered : Unbordered marker) (hbegins : marker <+: block) (hfree : Free marker head) :
    find block (head ++ block ++ rest) = some head.length := by
  have hblock : block ≠ [] := by
    rintro rfl
    exact hne (List.prefix_nil.mp hbegins)
  have hhere : block <+: (head ++ block ++ rest).drop head.length := by
    rw [List.append_assoc, List.drop_left]
    exact List.prefix_append block rest
  have hearlier : ∀ i ∈ matchIndices block (head ++ block ++ rest), head.length ≤ i := by
    intro i hi
    by_contra hlt
    have hat := hbegins.trans (prefix_of_mem hi)
    rw [List.append_assoc, List.drop_append_of_le_length (by omega)] at hat
    have hcross := @not_crosses_of_begins marker (head.drop i) (block ++ rest) hunbordered
      (hbegins.trans (List.prefix_append block rest))
    have hhead : head.drop i ≠ [] := by
      intro hnil
      have := congrArg List.length hnil
      rw [List.length_drop, List.length_nil] at this
      omega
    have hin := (prefix_append_iff hhead hcross).mp hat
    rw [Free, Bool.eq_false_iff, Ne, contains_iff] at hfree
    exact hfree ⟨i, hin⟩
  obtain ⟨j, hj, hle⟩ := @exists_matchIndicesFrom block (head ++ block ++ rest) hblock 0 0 head.length
    (Nat.zero_le _) hhere
  have hpairwise := matchIndicesFrom_pairwise hblock 0 0 (head ++ block ++ rest)
  unfold find
  cases hindices : matchIndices block (head ++ block ++ rest) with
  | nil =>
    unfold matchIndices at hindices
    rw [hindices] at hj
    cases hj
  | cons i indices =>
    have hi := hearlier i (by rw [hindices]; exact List.mem_cons_self)
    unfold matchIndices at hindices
    rw [hindices] at hj hpairwise
    rw [List.head?_cons]
    congr 1
    rcases List.mem_cons.mp hj with rfl | hj
    · omega
    · have := (List.pairwise_cons.mp hpairwise).1 j hj
      omega

/-- A text that holds a marker does not occur in one without it. -/
theorem Free.of_begins {marker block : Text} (h : Free marker t) (hbegins : marker <+: block) :
    Free block t := by
  rw [Free, Bool.eq_false_iff, Ne, contains_iff] at *
  rintro ⟨k, hk⟩
  exact h ⟨k, hbegins.trans hk⟩

/-- Where a marker is found once, it is found at the one place where it occurs. -/
theorem matchIndices_eq_singleton (hne : pat ≠ []) (hunbordered : Unbordered pat)
    (hone : (matchIndices pat t).length = 1) {k : Nat} (hk : pat <+: t.drop k) :
    matchIndices pat t = [k] := by
  obtain ⟨j, hj⟩ := List.length_eq_one_iff.mp hone
  have hat : pat <+: t.drop j := prefix_of_mem (hj ▸ List.mem_singleton_self j)
  obtain ⟨i, hi, hle⟩ := @exists_matchIndicesFrom pat t hne 0 0 k (Nat.zero_le k) hk
  have hij : i = j := List.mem_singleton.mp (hj ▸ hi)
  have hfar : ¬j + pat.length ≤ k := by
    intro hfar
    have := two_le_matchIndices hne hat hfar hk
    omega
  rw [hj]
  by_cases hjk : j = k
  · rw [hjk]
  -- two occurrences that overlap would be a border
  refine absurd (?_ : pat.drop (k - j) <+: pat) (hunbordered (k - j) (by omega) (by omega))
  have hdrop : pat.drop (k - j) <+: t.drop k := by
    have := hat.drop (k - j)
    rwa [List.drop_drop, show j + (k - j) = k by omega] at this
  refine List.prefix_of_prefix_length_le hdrop hk ?_
  rw [List.length_drop]
  omega

/-- A marker is not found in a text without one of its characters. -/
theorem Free.of_notMem {c : Char} (hc : c ∈ pat) (hnot : c ∉ t) : Free pat t := by
  rw [Free, Bool.eq_false_iff, Ne, contains_iff]
  rintro ⟨k, hk⟩
  exact hnot (List.mem_of_mem_drop (hk.subset hc))

/-- A marker does not cross into a text without its last character. -/
theorem not_crosses_of_last {a b : Text} (h : ∀ c ∈ pat.getLast?, c ∉ b) : ¬Crosses pat a b := by
  rintro ⟨p, q, rfl, -, hq, -, hqb⟩
  have hlast : q.getLast hq ∈ (p ++ q).getLast? := by
    rw [List.getLast?_append_of_ne_nil _ hq, List.getLast?_eq_getLast_of_ne_nil hq]
    rfl
  exact h _ hlast (hqb.subset (List.getLast_mem hq))

/-! ## Slices -/

/-- The first `n` bytes, unless they end within a character. -/
def takeBytes : Nat → Text → Option Text
  | 0, _ => some []
  | _ + 1, [] => none
  | n + 1, c :: t =>
    if c.utf8Size ≤ n + 1 then (takeBytes (n + 1 - c.utf8Size) t).map (c :: ·) else none

/-- The last `n` bytes, unless they begin within a character. -/
def lastBytes (n : Nat) (t : Text) : Option Text := (takeBytes n t.reverse).map List.reverse

/-- Whether the bytes before the end are the separator; nothing where they begin within a
character. -/
def endsBefore (separator t : Text) : Option Bool :=
  if byteLen t < byteLen separator then some false
  else (lastBytes (byteLen separator) t).map (· == separator)

@[simp] theorem byteLen_nil : byteLen [] = 0 := rfl

@[simp] theorem byteLen_cons (c : Char) (t : Text) : byteLen (c :: t) = c.utf8Size + byteLen t := by
  simp [byteLen]

@[simp] theorem byteLen_append (t u : Text) : byteLen (t ++ u) = byteLen t + byteLen u := by
  simp [byteLen]

theorem byteLen_reverse (t : Text) : byteLen t.reverse = byteLen t := by
  unfold byteLen
  rw [List.map_reverse, List.sum_reverse]

theorem takeBytes_eq_some {n : Nat} {t s : Text} :
    takeBytes n t = some s ↔ s <+: t ∧ byteLen s = n := by
  induction t generalizing n s with
  | nil =>
    cases n with
    | zero =>
      rw [takeBytes, Option.some.injEq, List.prefix_nil]
      constructor
      · rintro rfl
        exact ⟨rfl, rfl⟩
      · exact fun h => h.1.symm
    | succ n =>
      rw [takeBytes, List.prefix_nil]
      constructor
      · intro h
        cases h
      · rintro ⟨rfl, h⟩
        cases h
  | cons c t ih =>
    have hpos := c.utf8Size_pos
    cases n with
    | zero =>
      rw [takeBytes, Option.some.injEq]
      constructor
      · rintro rfl
        exact ⟨List.nil_prefix, rfl⟩
      · rintro ⟨-, h⟩
        cases s with
        | nil => rfl
        | cons d s =>
          have := d.utf8Size_pos
          rw [byteLen_cons] at h
          omega
    | succ n =>
      rw [takeBytes]
      split
      next hle =>
        rw [Option.map_eq_some_iff]
        constructor
        · rintro ⟨u, hu, rfl⟩
          obtain ⟨hfirst, hlength⟩ := ih.mp hu
          refine ⟨(List.prefix_cons_inj c).mpr hfirst, ?_⟩
          rw [byteLen_cons]
          omega
        · rintro ⟨hfirst, hlength⟩
          cases s with
          | nil => cases hlength
          | cons d s =>
            obtain ⟨rfl, hrest⟩ := List.cons_prefix_cons.mp hfirst
            rw [byteLen_cons] at hlength
            exact ⟨s, ih.mpr ⟨hrest, by omega⟩, rfl⟩
      next hlt =>
        constructor
        · intro h
          cases h
        · rintro ⟨hfirst, hlength⟩
          cases s with
          | nil => cases hlength
          | cons d s =>
            obtain ⟨rfl, -⟩ := List.cons_prefix_cons.mp hfirst
            rw [byteLen_cons] at hlength
            omega

theorem lastBytes_eq_some {n : Nat} {s : Text} :
    lastBytes n t = some s ↔ s <:+ t ∧ byteLen s = n := by
  unfold lastBytes
  rw [Option.map_eq_some_iff]
  constructor
  · rintro ⟨u, hu, rfl⟩
    obtain ⟨hfirst, hlength⟩ := takeBytes_eq_some.mp hu
    exact ⟨List.reverse_prefix.mp (by rwa [List.reverse_reverse]), (byteLen_reverse u).trans hlength⟩
  · rintro ⟨hsuffix, hlength⟩
    refine ⟨s.reverse, takeBytes_eq_some.mpr ⟨List.reverse_prefix.mpr hsuffix, ?_⟩,
      List.reverse_reverse s⟩
    rw [byteLen_reverse, hlength]

theorem endsBefore_eq_true {separator : Text} :
    endsBefore separator t = some true ↔ separator <:+ t := by
  unfold endsBefore
  split
  next hlt =>
    constructor
    · intro h
      cases h
    · rintro ⟨u, rfl⟩
      rw [byteLen_append] at hlt
      omega
  next =>
    rw [Option.map_eq_some_iff]
    constructor
    · rintro ⟨s, hs, hsame⟩
      rw [← eq_of_beq hsame]
      exact (lastBytes_eq_some.mp hs).1
    · intro h
      exact ⟨separator, lastBytes_eq_some.mpr ⟨h, rfl⟩, by simp⟩

end

end Text
