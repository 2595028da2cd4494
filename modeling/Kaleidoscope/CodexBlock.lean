import Kaleidoscope.HostCodex

/-!
# Putting the Codex block in and taking it out

An install puts a separator before the block, and does not say which; a removal looks at the text
before the block to find it again.

    remove_install_iff   when a removal gives back the text, with what the user put around the block
-/

namespace Kaleidoscope.Hosts

/-- What an install puts between the text and the block. -/
def separatorOf (text : Text) : Text :=
  if text.isEmpty || ['\n', '\n'].isSuffixOf text then []
  else if ['\n'].isSuffixOf text then ['\n']
  else ['\n', '\n']

theorem installCodexBlock_new (text desired : Text) :
    installCodexBlock text none desired = .ok (text ++ separatorOf text ++ desired) := rfl

theorem markerStart_unbordered : Text.Unbordered markerStart := by
  intro k hlt
  revert k
  unfold markerStart
  rw [String.toList_ofList]
  decide +kernel

theorem markerStart_ne : markerStart ≠ [] := by
  unfold markerStart
  rw [String.toList_ofList]
  exact List.cons_ne_nil _ _

/-! ## Taking it out -/

/-- A removal of a block behind a text without markers. -/
theorem removeCodexBlock_eq {before block after : Text} (hblock : markerStart <+: block)
    (hbefore : Text.Free markerStart before) (hafter : Text.Free markerStart after) :
    removeCodexBlock (before ++ block ++ after) block true
      = match Text.endsBefore ['\n', '\n'] before with
        | none => .error .panicked
        | some true => .ok (before.dropLast ++ after)
        | some false => .ok (before ++ after) := by
  have hfind := @Text.find_append _ _ block after markerStart_ne markerStart_unbordered hblock hbefore
  have hrest : (before ++ block ++ after).drop (before.length + block.length) = after := by
    rw [← List.length_append, List.drop_left]
  have hhead : (before ++ block ++ after).take before.length = before := by
    rw [List.append_assoc, List.take_left]
  have hfree : Text.contains after block = false := hafter.of_begins hblock
  unfold removeCodexBlock
  rw [hfind]
  simp only [hrest, hhead, hfree, if_true]
  cases Text.endsBefore ['\n', '\n'] before with
  | none => rfl
  | some blankLine => cases blankLine <;> rfl

/-- The removal gives back a text and what is behind the block exactly where it takes what is
between them. -/
theorem removeCodexBlock_eq_ok {before block after wanted : Text} (hblock : markerStart <+: block)
    (hbefore : Text.Free markerStart before) (hafter : Text.Free markerStart after) :
    removeCodexBlock (before ++ block ++ after) block true = .ok (wanted ++ after)
      ↔ (['\n', '\n'] <:+ before ∧ before = wanted ++ ['\n'])
        ∨ Text.endsBefore ['\n', '\n'] before = some false ∧ before = wanted := by
  rw [removeCodexBlock_eq hblock hbefore hafter]
  cases hends : Text.endsBefore ['\n', '\n'] before with
  | none =>
    have hnot : ¬['\n', '\n'] <:+ before := by
      rw [← Text.endsBefore_eq_true, hends]
      simp
    simp [hnot]
  | some blankLine =>
    cases blankLine with
    | true =>
      obtain ⟨start, rfl⟩ := Text.endsBefore_eq_true.mp hends
      have hlast : (start ++ ['\n', '\n']).dropLast = start ++ ['\n'] := by
        rw [List.dropLast_append_of_ne_nil (by simp)]
        rfl
      have hsplit : start ++ ['\n', '\n'] = start ++ ['\n'] ++ ['\n'] := by simp
      simp only [hlast, Except.ok.injEq, List.append_left_inj, Option.some.injEq, reduceCtorEq,
        false_and, or_false, List.suffix_append, true_and]
      rw [hsplit, List.append_left_inj]
    | false =>
      have hnot : ¬['\n', '\n'] <:+ before := by
        rw [← Text.endsBefore_eq_true, hends]
        simp
      simp [hnot]

/-! ## The separator -/

theorem separatorOf_cases (text : Text) :
    separatorOf text = [] ∧ (text = [] ∨ ['\n', '\n'] <:+ text)
      ∨ separatorOf text = ['\n'] ∧ ['\n'] <:+ text ∧ ¬['\n', '\n'] <:+ text
      ∨ separatorOf text = ['\n', '\n'] ∧ text ≠ [] ∧ ¬['\n'] <:+ text := by
  unfold separatorOf
  split
  next h =>
    rw [Bool.or_eq_true, List.isEmpty_iff, List.isSuffixOf_iff_suffix] at h
    exact .inl ⟨rfl, h⟩
  next h =>
    rw [Bool.or_eq_true, List.isEmpty_iff, List.isSuffixOf_iff_suffix, not_or] at h
    split
    next hone => exact .inr (.inl ⟨rfl, List.isSuffixOf_iff_suffix.mp hone, h.2⟩)
    next hone =>
      exact .inr (.inr ⟨rfl, h.1, fun hend => hone (List.isSuffixOf_iff_suffix.mpr hend)⟩)

theorem newline_suffix {t : Text} : ['\n', '\n'] <:+ t ++ ['\n'] ↔ ['\n'] <:+ t := by
  constructor
  · rintro ⟨u, hu⟩
    refine ⟨u, (List.append_left_inj ['\n']).mp ?_⟩
    rw [← hu]
    simp
  · rintro ⟨u, rfl⟩
    exact ⟨u, by simp⟩

/-- When a removal takes what the install put before the block, and nothing of the user's:
nothing was put there, and no blank line is there now; or one newline was, and it is still the
second of two. -/
inductive Undone (text above inserted left : Text) : Prop where
  | nothing (put : separatorOf text = [])
      (here : Text.endsBefore ['\n', '\n'] (above ++ inserted) = some false)
  | newline (put : separatorOf text = ['\n']) (here : ['\n'] <:+ above ++ inserted)
      (within : left ++ inserted = inserted ++ left)

/-- What the user wrote above the separator, within it and below the block is given back exactly
where the separator is undone. -/
theorem removeCodexBlock_edited_iff {text above inserted left right block below : Text}
    (hblock : markerStart <+: block) (hseparator : left ++ right = separatorOf text)
    (hbefore : Text.Free markerStart (above ++ left ++ inserted ++ right))
    (hbelow : Text.Free markerStart below) :
    removeCodexBlock (above ++ left ++ inserted ++ right ++ block ++ below) block true
        = .ok (above ++ inserted ++ below)
      ↔ Undone text above inserted left := by
  rw [removeCodexBlock_eq_ok hblock hbefore hbelow]
  have hswap : above ++ left ++ inserted ++ right = above ++ inserted ++ (left ++ right)
      ↔ left ++ inserted = inserted ++ left := by
    rw [show above ++ left ++ inserted ++ right = above ++ (left ++ inserted) ++ right by simp,
      show above ++ inserted ++ (left ++ right) = above ++ (inserted ++ left) ++ right by simp,
      List.append_left_inj, List.append_right_inj]
  rw [hseparator] at hswap
  constructor
  · rintro (⟨htwo, htaken⟩ | ⟨hfalse, hkept⟩)
    · have hput : separatorOf text = ['\n'] := by
        have hlength := congrArg List.length htaken
        have hsum := congrArg List.length hseparator
        simp only [List.length_append, List.length_singleton] at hlength hsum
        rcases separatorOf_cases text with ⟨hput, -⟩ | ⟨hput, -⟩ | ⟨hput, -⟩
        · rw [hput, List.length_nil] at hsum
          omega
        · exact hput
        · rw [hput] at hsum
          simp only [List.length_cons, List.length_nil] at hsum
          omega
      rw [htaken, newline_suffix] at htwo
      exact .newline hput htwo (hswap.mp (by rw [hput]; exact htaken))
    · have hput : separatorOf text = [] := by
        have hlength := congrArg List.length hkept
        have hsum := congrArg List.length hseparator
        simp only [List.length_append] at hlength hsum
        exact List.eq_nil_of_length_eq_zero (by omega)
      rw [hkept] at hfalse
      exact .nothing hput hfalse
  · intro h
    cases h with
    | nothing hput hhere =>
      obtain ⟨rfl, rfl⟩ := List.append_eq_nil_iff.mp (hseparator.trans hput)
      rw [List.append_nil, List.append_nil]
      exact .inr ⟨hhere, rfl⟩
    | newline hput hhere hwithin =>
      have htaken := hswap.mpr hwithin
      rw [hput] at htaken
      exact .inl ⟨htaken ▸ newline_suffix.mpr hhere, htaken⟩

/-- Without edits, the text is given back exactly where it is empty or ends with one newline. -/
theorem removeCodexBlock_installed_iff {text block : Text} (hblock : markerStart <+: block)
    (hfree : Text.Free markerStart (text ++ separatorOf text)) :
    removeCodexBlock (text ++ separatorOf text ++ block) block true = .ok text
      ↔ text = [] ∨ ['\n'] <:+ text ∧ ¬['\n', '\n'] <:+ text := by
  have hedited := @removeCodexBlock_edited_iff text text [] [] (separatorOf text) block [] hblock rfl
    (by simpa using hfree) rfl
  simp only [List.append_nil] at hedited
  rw [hedited]
  constructor
  · intro h
    cases h with
    | nothing hput hhere =>
      rw [List.append_nil] at hhere
      rcases separatorOf_cases text with ⟨-, hempty | htwo⟩ | ⟨hput', -⟩ | ⟨hput', -⟩
      · exact .inl hempty
      · rw [Text.endsBefore_eq_true.mpr htwo] at hhere
        cases hhere
      · rw [hput] at hput'
        cases hput'
      · rw [hput] at hput'
        cases hput'
    | newline hput =>
      rcases separatorOf_cases text with ⟨hput', -⟩ | ⟨-, hone⟩ | ⟨hput', -⟩
      · rw [hput] at hput'
        cases hput'
      · exact .inr hone
      · rw [hput] at hput'
        cases hput'
  · rintro (rfl | hone)
    · exact .nothing rfl rfl
    · rcases separatorOf_cases text with ⟨-, hempty | htwo⟩ | ⟨hput, -⟩ | ⟨-, -, hnot⟩
      · rw [hempty] at hone
        exact absurd hone.1 (by decide)
      · exact absurd htwo hone.2
      · exact .newline hput (by simpa using hone.1) rfl
      · exact absurd hone.1 hnot

theorem free_separatorOf {text : Text} (hfree : Text.Free markerStart text) :
    Text.Free markerStart (text ++ separatorOf text) := by
  have hcases : separatorOf text = [] ∨ separatorOf text = ['\n'] ∨ separatorOf text = ['\n', '\n'] := by
    rcases separatorOf_cases text with h | h | h
    · exact .inl h.1
    · exact .inr (.inl h.1)
    · exact .inr (.inr h.1)
  refine hfree.append markerStart_ne ?_ (Text.not_crosses_of_notMem ?_)
  · rcases hcases with h | h | h <;> rw [h] <;> decide
  · rcases hcases with h | h | h <;> rw [h] <;> decide

/-! ## Top theorem -/

/-- A removal after an install gives back the text exactly where it is empty or ends with one
newline; and with what the user wrote around the block, exactly where the separator is undone. -/
theorem remove_install_iff {text block : Text} (hfree : Text.Free markerStart text)
    (hblock : markerStart <+: block) :
    (∀ installed, installCodexBlock text none block = .ok installed →
        (removeCodexBlock installed block true = .ok text
          ↔ text = [] ∨ ['\n'] <:+ text ∧ ¬['\n', '\n'] <:+ text))
      ∧ ∀ above left inserted right below, left ++ right = separatorOf text →
        Text.Free markerStart (above ++ left ++ inserted ++ right) →
        Text.Free markerStart below →
        (removeCodexBlock (above ++ left ++ inserted ++ right ++ block ++ below) block true
            = .ok (above ++ inserted ++ below)
          ↔ Undone text above inserted left) := by
  refine ⟨fun installed hinstalled => ?_, fun _ _ _ _ _ hseparator hbefore hbelow =>
    removeCodexBlock_edited_iff hblock hseparator hbefore hbelow⟩
  rw [installCodexBlock_new] at hinstalled
  cases hinstalled
  exact removeCodexBlock_installed_iff hblock (free_separatorOf hfree)

namespace CodexSample

/-- A block with nothing between its markers. -/
def block : Text := markerStart ++ ['\n'] ++ markerEnd ++ ['\n']

end CodexSample

section

open CodexSample

theorem remove_install_newline :
    removeCodexBlock ("model = 1\n\n".toList ++ block) block true = .ok "model = 1\n".toList :=
  ((@remove_install_iff "model = 1\n".toList block (by decide)
    ⟨['\n'] ++ markerEnd ++ ['\n'], by decide⟩).1 _ (by decide +kernel)).mpr
    (.inr ⟨⟨"model = 1".toList, by decide⟩, by decide⟩)

/-- A text without a newline at its end comes back with one. -/
theorem remove_install_noNewline :
    installCodexBlock "model = 1".toList none block = .ok ("model = 1\n\n".toList ++ block)
      ∧ removeCodexBlock ("model = 1\n\n".toList ++ block) block true
        = .ok "model = 1\n".toList
      ∧ ¬ ∀ text installed, Text.Free markerStart text →
        installCodexBlock text none block = .ok installed →
        removeCodexBlock installed block true = .ok text := by
  have hinstalled : installCodexBlock "model = 1".toList none block
      = .ok ("model = 1\n\n".toList ++ block) := by decide +kernel
  have hremoved : removeCodexBlock ("model = 1\n\n".toList ++ block) block true
      = .ok "model = 1\n".toList := by decide +kernel
  refine ⟨hinstalled, hremoved, fun h => ?_⟩
  have := h _ _ (by decide) hinstalled
  rw [hremoved] at this
  revert this
  decide

end

end Kaleidoscope.Hosts
