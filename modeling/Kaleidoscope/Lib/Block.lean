import Kaleidoscope.Lib.Find

/-!
# A block between two markers

A block runs from one marker to the line end behind another.  It is found where each marker is
there once; the texts around it then hold neither.

    findBlock_around   a block between texts without markers is found
    findBlock_split    what is found lies between such texts
-/

namespace Text

/-- From the start marker to the end marker, with the newline after it; nothing where a marker is
missing or is there twice. -/
def findBlock (start stop text : Text) : Option (Option Text) :=
  match matchIndices start text, matchIndices stop text with
  | [], [] => some none
  | [i], [j] =>
    if i < j then
      let after := j + stop.length
      let after := if text[after]? = some '\n' then after + 1 else after
      some (some ((text.take after).drop i))
    else none
  | _, _ => none

/-- Two markers that are not taken for each other, nor for a part of what is between them. -/
structure Markers (start stop : Text) : Prop where
  startNe : start ≠ []
  stopNe : stop ≠ []
  startUnbordered : Unbordered start
  stopUnbordered : Unbordered stop
  short : stop.length ≤ start.length
  /-- no end of the end marker is the start of a block -/
  outside : ∀ k < stop.length, ¬stop.drop k <+: start
  /-- no start of a marker is the end of a block -/
  inside : ∀ marker ∈ [start, stop], ∀ k < marker.length, 0 < k →
    ¬marker.take k <:+ stop ++ ['\n'] ∧ ¬stop ++ ['\n'] <:+ marker.take k
  /-- the end marker does not begin within the start marker -/
  apart : ∀ k < start.length, 0 < k → ¬start.drop k <+: stop ∧ ¬stop <+: start.drop k
  last : ∀ marker ∈ [start, stop], ∃ c ∈ marker.getLast?, c ≠ '\n'

/-- A text without markers. -/
structure Clear (start stop text : Text) : Prop where
  start : Free start text
  stop : Free stop text

/-- A text with one marker at each end. -/
structure IsBlock (start stop block : Text) : Prop where
  begins : start <+: block
  ends : stop ++ ['\n'] <:+ block
  startOnce : (matchIndices start block).length = 1
  stopOnce : (matchIndices stop block).length = 1

section

variable {start stop block before after text : Text}

/-! ## Around a block -/

theorem not_crosses_before (hm : Markers start stop) (hbegins : start <+: block) (rest : Text) :
    ¬Crosses stop before (block ++ rest) := by
  rintro ⟨p, q, hmarker, hp, hq, -, hqb⟩
  have hlength := congrArg List.length hmarker
  rw [List.length_append] at hlength
  have hpos := List.length_pos_of_ne_nil hp
  have hposq := List.length_pos_of_ne_nil hq
  have hshort := hm.short
  refine hm.outside p.length (by omega) ?_
  rw [hmarker, List.drop_left]
  exact List.prefix_of_prefix_length_le hqb (hbegins.trans (List.prefix_append _ _)) (by omega)

theorem not_crosses_behind {marker : Text} (hm : Markers start stop)
    (hmarker : marker ∈ [start, stop]) (hends : stop ++ ['\n'] <:+ block) :
    ¬Crosses marker block after := by
  rintro ⟨p, q, rfl, hp, hq, hpb, -⟩
  have hposq := List.length_pos_of_ne_nil hq
  obtain ⟨hfirst, hlast⟩ := hm.inside _ hmarker p.length (by rw [List.length_append]; omega)
    (List.length_pos_of_ne_nil hp)
  rw [List.take_left] at hfirst hlast
  rcases List.suffix_or_suffix_of_suffix hpb hends with h | h
  · exact hfirst h
  · exact hlast h

/-- A marker is found within a block only. -/
theorem matchIndices_within {marker : Text} (hne : marker ≠ []) (hbefore : Free marker before)
    (hafter : Free marker after) (hfirst : ¬Crosses marker before (block ++ after))
    (hlast : ¬Crosses marker block after) :
    matchIndices marker (before ++ block ++ after)
      = (matchIndices marker block).map (before.length + ·) := by
  rw [List.append_assoc, matchIndices_append hfirst, matchIndices_append hlast,
    (matchIndices_eq_nil hne).mpr hbefore, (matchIndices_eq_nil hne).mpr hafter, List.map_nil,
    List.append_nil, List.nil_append]

theorem matchIndices_start (hm : Markers start stop) (hbegins : start <+: block)
    (hends : stop ++ ['\n'] <:+ block) (hbefore : Free start before) (hafter : Free start after) :
    matchIndices start (before ++ block ++ after)
      = (matchIndices start block).map (before.length + ·) :=
  matchIndices_within hm.startNe hbefore hafter
    (not_crosses_of_begins hm.startUnbordered (hbegins.trans (List.prefix_append _ _)))
    (not_crosses_behind hm (by simp) hends)

theorem matchIndices_stop (hm : Markers start stop) (hbegins : start <+: block)
    (hends : stop ++ ['\n'] <:+ block) (hbefore : Free stop before) (hafter : Free stop after) :
    matchIndices stop (before ++ block ++ after)
      = (matchIndices stop block).map (before.length + ·) :=
  matchIndices_within hm.stopNe hbefore hafter (not_crosses_before hm hbegins after)
    (not_crosses_behind hm (by simp) hends)

theorem IsBlock.length_lt (hm : Markers start stop) (h : IsBlock start stop block) :
    stop.length + 1 < block.length := by
  obtain ⟨head, hhead⟩ := h.ends
  have hlength := congrArg List.length hhead
  simp only [List.length_append, List.length_singleton] at hlength
  by_contra hnot
  -- otherwise the block begins with both markers
  have hnil : head = [] := List.eq_nil_of_length_eq_zero (by omega)
  rw [hnil, List.nil_append] at hhead
  refine hm.outside 0 (List.length_pos_of_ne_nil hm.stopNe) ?_
  rw [List.drop_zero]
  refine List.prefix_of_prefix_length_le ?_ h.begins hm.short
  rw [← hhead]
  exact List.prefix_append _ _

theorem findBlock_around (hm : Markers start stop) (h : IsBlock start stop block)
    (hbefore : Clear start stop before) (hafter : Clear start stop after) :
    findBlock start stop (before ++ block ++ after) = some (some block) := by
  have hlong := h.length_lt hm
  obtain ⟨head, hhead⟩ := h.ends
  have hlength := congrArg List.length hhead
  simp only [List.length_append, List.length_singleton] at hlength
  have hstart := matchIndices_start hm h.begins h.ends hbefore.start hafter.start
  rw [@matchIndices_eq_singleton start block hm.startNe hm.startUnbordered h.startOnce 0 h.begins]
    at hstart
  have hstop := matchIndices_stop hm h.begins h.ends hbefore.stop hafter.stop
  rw [@matchIndices_eq_singleton stop block hm.stopNe hm.stopUnbordered h.stopOnce head.length
    (by rw [← hhead, List.drop_left]; exact List.prefix_append _ _)] at hstop
  have hnewline : (before ++ block ++ after)[before.length + head.length + stop.length]?
      = some '\n' := by
    rw [← hhead, show before.length + head.length + stop.length
      = (before ++ head ++ stop).length by simp [Nat.add_assoc]]
    simp
  unfold findBlock
  rw [hstart, hstop]
  simp only [List.map_cons, List.map_nil, Nat.add_zero]
  rw [if_pos (by omega), if_pos hnewline]
  have hend : before.length + head.length + stop.length + 1 = (before ++ block).length := by
    rw [List.length_append]
    omega
  rw [hend, List.take_left, List.drop_left]

/-- A text that begins and ends as a block does is found as one only where it is one. -/
theorem isBlock_of_found (hm : Markers start stop) (hbegins : start <+: block)
    (hends : stop ++ ['\n'] <:+ block) (hbefore : Clear start stop before)
    (hafter : Clear start stop after) {found : Text}
    (h : findBlock start stop (before ++ block ++ after) = some (some found)) :
    IsBlock start stop block := by
  unfold findBlock at h
  rw [matchIndices_start hm hbegins hends hbefore.start hafter.start,
    matchIndices_stop hm hbegins hends hbefore.stop hafter.stop] at h
  split at h
  · cases h
  next i j hi hj =>
    have hstart := congrArg List.length hi
    have hstop := congrArg List.length hj
    rw [List.length_map] at hstart hstop
    exact ⟨hbegins, hends, hstart, hstop⟩
  · cases h

/-! ## What is found -/

theorem findBlock_eq_none (hm : Markers start stop) :
    findBlock start stop text = some none ↔ Clear start stop text := by
  unfold findBlock
  constructor
  · intro h
    split at h
    next hstart hstop =>
      exact ⟨(matchIndices_eq_nil hm.startNe).mp hstart, (matchIndices_eq_nil hm.stopNe).mp hstop⟩
    · split at h <;> cases h
    · cases h
  · intro h
    rw [(matchIndices_eq_nil hm.startNe).mpr h.start, (matchIndices_eq_nil hm.stopNe).mpr h.stop]

/-- Before the only place of a marker there is none. -/
theorem free_take {marker : Text} (hne : marker ≠ []) {i k : Nat}
    (hone : (matchIndices marker text).length = 1) (hi : marker <+: text.drop i) (hle : k ≤ i) :
    Free marker (text.take k) := by
  rw [Free, Bool.eq_false_iff, Ne, contains_iff]
  rintro ⟨m, hm⟩
  have hlength := hm.length_le
  rw [List.length_drop, List.length_take] at hlength
  have hpos := List.length_pos_of_ne_nil hne
  have hat : marker <+: text.drop m := hm.trans ((List.take_prefix k text).drop m)
  have := two_le_matchIndices hne hat (k := i) (by omega) hi
  omega

/-- Nor behind it. -/
theorem free_drop {marker : Text} (hne : marker ≠ []) {i k : Nat}
    (hone : (matchIndices marker text).length = 1) (hi : marker <+: text.drop i)
    (hle : i + marker.length ≤ k) : Free marker (text.drop k) := by
  rw [Free, Bool.eq_false_iff, Ne, contains_iff]
  rintro ⟨m, hm⟩
  rw [List.drop_drop] at hm
  have := two_le_matchIndices hne hi (k := k + m) (by omega) hm
  omega

theorem findBlock_split (hm : Markers start stop)
    (h : findBlock start stop text = some (some block)) :
    ∃ before after, text = before ++ block ++ after ∧ start <+: block
      ∧ Clear start stop before ∧ Clear start stop after := by
  unfold findBlock at h
  split at h
  · cases h
  next i j hstart hstop =>
    obtain ⟨hlt, h⟩ := Option.ite_none_right_eq_some.mp h
    have hi : start <+: text.drop i := prefix_of_mem (hstart ▸ List.mem_singleton_self i)
    have hj : stop <+: text.drop j := prefix_of_mem (hstop ▸ List.mem_singleton_self j)
    have hone := congrArg List.length hstart
    have hone' := congrArg List.length hstop
    -- the end marker begins behind the start marker
    have hfar : i + start.length ≤ j := by
      by_contra hnear
      have hover : start.drop (j - i) <+: text.drop j := by
        have := hi.drop (j - i)
        rwa [List.drop_drop, show i + (j - i) = j by omega] at this
      obtain ⟨hno, hno'⟩ := hm.apart (j - i) (by omega) (by omega)
      rcases List.prefix_or_prefix_of_prefix hover hj with hpre | hpre
      · exact hno hpre
      · exact hno' hpre
    have hlength := hj.length_le
    rw [List.length_drop] at hlength
    have hposStop := List.length_pos_of_ne_nil hm.stopNe
    obtain ⟨stopAt, hstopAt, hge, hle⟩ : ∃ n, (if text[j + stop.length]? = some '\n'
        then j + stop.length + 1 else j + stop.length) = n ∧ j + stop.length ≤ n
        ∧ n ≤ text.length := by
      refine ⟨_, rfl, ?_, ?_⟩
      · split <;> omega
      · split
        next hnewline =>
          obtain ⟨hin, -⟩ := List.getElem?_eq_some_iff.mp hnewline
          omega
        next => omega
    simp only [hstopAt] at h
    obtain rfl : (text.take stopAt).drop i = block := Option.some.inj (Option.some.inj h)
    refine ⟨text.take i, text.drop stopAt, ?_, ?_, ⟨?_, ?_⟩, ?_, ?_⟩
    · have htake : text.take i = (text.take stopAt).take i := by
        rw [List.take_take, show min i stopAt = i by omega]
      rw [htake, List.take_append_drop, List.take_append_drop]
    · refine List.prefix_of_prefix_length_le hi ((List.take_prefix stopAt text).drop i) ?_
      rw [List.length_drop, List.length_take]
      omega
    · exact free_take hm.startNe hone hi (Nat.le_refl i)
    · exact free_take hm.stopNe hone' hj (Nat.le_of_lt hlt)
    · exact free_drop hm.startNe hone hi (by omega)
    · exact free_drop hm.stopNe hone' hj hge
  · cases h

/-! ## Occurrences that overlap -/

theorem exists_matchIndicesFrom_over {pat : Text} (hne : pat ≠ []) {skip pos k : Nat}
    (hskip : skip ≤ k) (hat : pat <+: text.drop k) :
    ∃ i ∈ matchIndicesFrom pat skip pos text, i ≤ pos + k ∧ pos + k < i + pat.length := by
  have hlength := List.length_pos_of_ne_nil hne
  induction text generalizing skip pos k with
  | nil =>
    rw [List.drop_nil] at hat
    exact absurd (List.prefix_nil.mp hat) hne
  | cons c text ih =>
    have hlater : ∀ {skip'}, skip' + 1 ≤ k → ∃ i ∈ matchIndicesFrom pat skip' (pos + 1) text,
        i ≤ pos + k ∧ pos + k < i + pat.length := by
      intro skip' hle
      obtain ⟨k, rfl⟩ := Nat.exists_eq_add_of_le' (Nat.le_of_add_left_le hle)
      rw [List.drop_succ_cons] at hat
      obtain ⟨i, hi, hle', hlt⟩ := @ih skip' (pos + 1) k (by omega) hat
      exact ⟨i, hi, by omega, by omega⟩
    cases skip with
    | succ skip =>
      rw [matchIndicesFrom]
      exact hlater hskip
    | zero =>
      rw [matchIndicesFrom]
      split
      · -- the match here covers the place, or ends before it
        by_cases hover : k < pat.length
        · exact ⟨pos, List.mem_cons_self, by omega, by omega⟩
        · obtain ⟨i, hi, hbounds⟩ := @hlater (pat.length - 1) (by omega)
          exact ⟨i, List.mem_cons_of_mem _ hi, hbounds⟩
      next hhere =>
        refine hlater (Nat.pos_of_ne_zero ?_)
        rintro rfl
        exact hhere (List.isPrefixOf_iff_prefix.mpr hat)

/-- Every occurrence is covered by a match. -/
theorem exists_match_over {pat : Text} (hne : pat ≠ []) {k : Nat} (hat : pat <+: text.drop k) :
    ∃ i ∈ matchIndices pat text, i ≤ k ∧ k < i + pat.length := by
  obtain ⟨i, hi, hle, hlt⟩ :=
    @exists_matchIndicesFrom_over text pat hne 0 0 k (Nat.zero_le k) hat
  exact ⟨i, hi, by omega, by omega⟩

/-- Before every match there is none. -/
theorem free_before {pat : Text} (hne : pat ≠ []) {k : Nat}
    (h : ∀ i ∈ matchIndices pat text, k ≤ i) : Free pat (text.take k) := by
  rw [Free, Bool.eq_false_iff, Ne, contains_iff]
  rintro ⟨m, hm⟩
  have hlength := hm.length_le
  rw [List.length_drop, List.length_take] at hlength
  have hpos := List.length_pos_of_ne_nil hne
  obtain ⟨i, hi, hle, -⟩ := exists_match_over hne (hm.trans ((List.take_prefix k text).drop m))
  have := h i hi
  omega

/-- Nor behind the end of every match. -/
theorem free_behind {pat : Text} (hne : pat ≠ []) {k : Nat}
    (h : ∀ i ∈ matchIndices pat text, i + pat.length ≤ k) : Free pat (text.drop k) := by
  rw [Free, Bool.eq_false_iff, Ne, contains_iff]
  rintro ⟨m, hm⟩
  rw [List.drop_drop] at hm
  obtain ⟨i, hi, -, hlt⟩ := exists_match_over hne hm
  have := h i hi
  omega

/-! ## Putting a block -/

/-- Newlines bring no marker. -/
theorem Clear.separated (hm : Markers start stop) (h : Clear start stop text) {separator : Text}
    (hnewlines : ∀ c ∈ separator, c = '\n') : Clear start stop (text ++ separator) := by
  have hmarker : ∀ marker ∈ [start, stop], marker ≠ [] → Free marker text →
      Free marker (text ++ separator) := by
    intro marker hmarker hne htext
    obtain ⟨c, hc, hcne⟩ := hm.last marker hmarker
    have hnot : c ∉ separator := fun h => hcne (hnewlines c h)
    refine htext.append hne (.of_notMem (List.mem_of_getLast? hc) hnot)
      (not_crosses_of_last fun d hd => ?_)
    rw [Option.mem_def.mp hc] at hd
    cases hd
    exact hnot
  exact ⟨hmarker _ (by simp) hm.startNe h.start, hmarker _ (by simp) hm.stopNe h.stop⟩

theorem clear_nil (hm : Markers start stop) : Clear start stop [] := by
  obtain ⟨c, hc, -⟩ := hm.last start (by simp)
  obtain ⟨d, hd, -⟩ := hm.last stop (by simp)
  exact ⟨.of_notMem (List.mem_of_getLast? hc) (by simp),
    .of_notMem (List.mem_of_getLast? hd) (by simp)⟩

/-- The block that begins with a marker is replaced where it is. -/
theorem replaceFirst_block (hm : Markers start stop) (hbegins : start <+: block)
    (hbefore : Free start before) (new : Text) :
    replaceFirst block new (before ++ block ++ after) = before ++ new ++ after := by
  unfold replaceFirst
  rw [find_append hm.startNe hm.startUnbordered hbegins hbefore]
  show List.take _ _ ++ new ++ List.drop _ _ = _
  rw [← List.length_append, List.drop_left, List.append_assoc before block, List.take_left]

end

end Text
