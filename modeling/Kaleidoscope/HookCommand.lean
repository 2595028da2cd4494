import Kaleidoscope.Hooks
import Kaleidoscope.Lib.Shell

/-!
# The command line of the session-start hook

The harness gives the command of an element to a shell, and the element holds the manager's
path as it is.

    words_ownedEntry    the shell reads the five words exactly where the path is a word of its own
-/

namespace Kaleidoscope.Hooks

/-- The words that the session-start hook is meant to be run with. -/
def hookWords (manager profile : Text) : List Text :=
  [manager, "hook".toList, "session-start".toList, "--profile".toList, profile]

/-- What a shell reads in the command of an element. -/
def commandWords (entry : Value) : Option (List Text) := (ownedCommand entry).bind Shell.words

theorem ownedCommand_ownedEntry (manager profile : Text) :
    ownedCommand (ownedEntry manager profile)
      = some (manager ++ " hook session-start --profile ".toList ++ profile) := rfl

/-! ## The profile -/

theorem isPlain_of_isAscii {n : Nat} : n < 128 →
    (Text.isAsciiAlphanumeric (Char.ofNat n) || Char.ofNat n == '.' || Char.ofNat n == '_'
      || Char.ofNat n == '-') = true → Shell.isPlain (Char.ofNat n) = true := by
  revert n
  decide +kernel

theorem isLeading_of_isAscii {n : Nat} : n < 128 →
    Text.isAsciiAlphanumeric (Char.ofNat n) = true → Shell.isLeading (Char.ofNat n) = false := by
  revert n
  decide +kernel

theorem word_of_validateProfileName {profile : Text}
    (h : validateProfileName profile = .ok ()) : Shell.Word profile := by
  unfold validateProfileName at h
  have h := rejectIf_eq_ok.mp h
  simp only [Bool.or_eq_true, Bool.not_eq_true', not_or, Bool.not_eq_false] at h
  obtain ⟨⟨⟨⟨⟨hne, -⟩, hascii⟩, hfirst⟩, -⟩, hall⟩ := h
  have hlt : ∀ c ∈ profile, c.toNat < 128 := fun c hc =>
    of_decide_eq_true (List.all_eq_true.mp hascii c hc)
  refine ⟨by simpa using hne, fun c hc => ?_, fun c hc => ?_⟩
  · have := isPlain_of_isAscii (hlt c hc)
    rw [Char.ofNat_toNat] at this
    exact this (List.all_eq_true.mp hall c hc)
  · have := isLeading_of_isAscii (hlt c (List.mem_of_mem_head? hc))
    rw [Char.ofNat_toNat] at this
    rw [Option.mem_def.mp hc, Option.any_some] at hfirst
    exact this hfirst

/-! ## The command -/

/-- The shell reads the words that are meant exactly where the manager's path is plain text. -/
theorem words_ownedEntry {manager profile : Text}
    (hprofile : validateProfileName profile = .ok ()) :
    commandWords (ownedEntry manager profile) = some (hookWords manager profile)
      ↔ Shell.Word manager := by
  have hline : manager ++ " hook session-start --profile ".toList ++ profile
      = manager ++ Shell.spaced
          ["hook".toList, "session-start".toList, "--profile".toList, profile] := by
    simp [Shell.spaced]
  have hfixed : ∀ w ∈ ["hook".toList, "session-start".toList, "--profile".toList], Shell.Word w := by
    intro w hw
    refine ⟨?_, ?_, ?_⟩ <;> revert w <;> decide
  rw [commandWords, ownedCommand_ownedEntry, Option.bind_some, hline]
  apply Shell.words_spaced_iff (hfixed _ (by decide))
  intro w hw
  rcases List.mem_cons.mp hw with rfl | hw
  · exact hfixed _ (by decide)
  · rcases List.mem_cons.mp hw with rfl | hw
    · exact hfixed _ (by decide)
    · rw [List.mem_singleton.mp hw]
      exact word_of_validateProfileName hprofile

theorem words_ownedEntry_plain :
    commandWords (ownedEntry "/usr/local/bin/kaleidoscope".toList "work".toList)
      = some (hookWords "/usr/local/bin/kaleidoscope".toList "work".toList) :=
  (words_ownedEntry (by decide)).mpr ⟨by decide, by decide, by decide⟩

/-- A blank in the path ends the first word early. -/
theorem words_ownedEntry_blank :
    validateProfileName "work".toList = .ok ()
      ∧ commandWords (ownedEntry "/opt/my tools/kaleidoscope".toList "work".toList)
        = some ["/opt/my".toList, "tools/kaleidoscope".toList, "hook".toList,
          "session-start".toList, "--profile".toList, "work".toList]
      ∧ ¬ ∀ manager profile, validateProfileName profile = .ok () →
        commandWords (ownedEntry manager profile) = some (hookWords manager profile) := by
  have hvalid : validateProfileName "work".toList = .ok () := by decide
  have hwords : commandWords (ownedEntry "/opt/my tools/kaleidoscope".toList "work".toList)
      = some ["/opt/my".toList, "tools/kaleidoscope".toList, "hook".toList,
        "session-start".toList, "--profile".toList, "work".toList] := by decide +kernel
  refine ⟨hvalid, hwords, fun h => ?_⟩
  have := h "/opt/my tools/kaleidoscope".toList "work".toList hvalid
  rw [hwords] at this
  revert this
  decide +kernel

end Kaleidoscope.Hooks
