import Kaleidoscope.Error
import Kaleidoscope.Lib.Regex
import Kaleidoscope.Sdk.Launch

/-!
# The names of profiles

The manager checks a name byte by byte; the SDKs match a pattern, Python on code points with a `$`
that a line feed may follow, TypeScript on UTF-16 units.

    accepts_python        Python takes the names of `isProfileName`
    accepts_typescript    so does TypeScript
    profile_names_agree   the manager takes those of them that end in a letter or a digit
-/

namespace Kaleidoscope.Sdk

open Unicode (Points)
open Regex (Piece)
open Launch.LaunchDescriptor (points)

/-- `^[A-Za-z0-9][A-Za-z0-9._-]{0,63}$` -/
def profilePattern (finish : Piece Nat) : List (Piece Nat) :=
  [.start, .many isAlphanumeric 1 (some 1) true false, .many isProfileChar 0 (some 63) true false,
    finish]

/-- `$` of Python: at the end, or before a line feed at the end. -/
def dollarPython : Piece Nat := .finish fun rest => rest == [] || rest == [0x0A]

/-- `$` of JavaScript: at the end. -/
def dollarTypescript : Piece Nat := .finish List.isEmpty

/-- `_PROFILE_RE.fullmatch(value) is not None` -/
def acceptsPython (s : Points) : Bool := (Regex.fullmatch (profilePattern dollarPython) s).isSome

/-- `PROFILE.test(value)` -/
def acceptsTypescript (s : Points) : Bool :=
  (Regex.search (profilePattern dollarTypescript) 0 (Unicode.utf16 s)).isSome

/-! ## The two patterns -/

theorem matchAt_finish {ends : Points → Bool} {rest : List (Piece Nat)} {pos : Nat} {t : Points} :
    (Regex.matchAt (.finish ends :: rest) pos t).isSome
      = (ends t && (Regex.matchAt rest pos t).isSome) := by
  rw [Regex.matchAt]
  split
  next h => rw [h, Bool.true_and]
  next h => simp [h]

/-- A class, and up to 63 characters of another that reach the end. -/
theorem matchAt_profile {tail : List (Piece Nat)} {s : Points}
    (htail : ∀ {pos : Nat} {t : Points}, (Regex.matchAt tail pos t).isSome = true ↔ t = []) :
    (Regex.matchAt (.many isAlphanumeric 1 (some 1) true false
        :: .many isProfileChar 0 (some 63) true false :: tail) 0 s).isSome = isProfileName s := by
  rw [Bool.eq_iff_iff, Regex.matchAt_many_isSome]
  constructor
  · rintro ⟨n, hleast, hmost, hrest⟩
    obtain ⟨m, -, hreach, hend⟩ := Regex.matchAt_many_isSome.mp hrest
    obtain rfl : n = 1 := by
      have : n ≤ 1 := hmost.trans (Nat.min_le_right _ _)
      omega
    have hnil := htail.mp hend
    cases s with
    | nil => simp [Regex.reach] at hmost
    | cons first rest =>
      have hfirst : isAlphanumeric first = true := by
        by_contra hnot
        simp [Regex.reach, hnot] at hmost
      rw [List.drop_one, List.tail_cons] at hnil hreach
      have hlen : rest.length ≤ m := List.drop_eq_nil_iff.mp hnil
      have hmost : m ≤ 63 := hreach.trans (Nat.min_le_right _ _)
      have htake : m ≤ (rest.takeWhile isProfileChar).length :=
        hreach.trans (Regex.reach_le _ _ _)
      have hall : rest.takeWhile isProfileChar = rest :=
        (List.takeWhile_prefix isProfileChar).eq_of_length_le (by omega)
      show (isAlphanumeric first && decide (rest.length ≤ 63) && rest.all isProfileChar) = true
      rw [hfirst, decide_eq_true (show rest.length ≤ 63 by omega), Bool.true_and, Bool.true_and,
        List.all_eq_true]
      exact List.takeWhile_eq_self_iff.mp hall
  · intro h
    cases s with
    | nil => cases h
    | cons first rest =>
      unfold isProfileName at h
      simp only [Bool.and_eq_true, decide_eq_true_eq, List.all_eq_true] at h
      obtain ⟨⟨hfirst, hlen⟩, hall⟩ := h
      have hself : rest.takeWhile isProfileChar = rest := List.takeWhile_eq_self_iff.mpr hall
      refine ⟨1, Nat.le_refl 1, ?_, ?_⟩
      · simp [Regex.reach, hfirst]
      · rw [List.drop_one, List.tail_cons]
        refine Regex.matchAt_many_isSome.mpr ⟨rest.length, Nat.zero_le _, ?_, ?_⟩
        · simp [Regex.reach, hself, hlen]
        · exact htail.mpr (List.drop_length)

theorem accepts_python (s : Points) : acceptsPython s = isProfileName s := by
  unfold acceptsPython Regex.fullmatch profilePattern
  rw [List.cons_append, Regex.matchAt, if_pos rfl]
  refine matchAt_profile fun {pos t} => ?_
  show (Regex.matchAt [dollarPython, .finish List.isEmpty] pos t).isSome = true ↔ t = []
  unfold dollarPython
  rw [matchAt_finish, matchAt_finish]
  cases t with
  | nil => simp
  | cons c t => simp

theorem accepts_units (s : Points) :
    (Regex.search (profilePattern dollarTypescript) 0 s).isSome = isProfileName s := by
  unfold profilePattern
  rw [Regex.search_start]
  refine matchAt_profile fun {pos t} => ?_
  unfold dollarTypescript
  rw [matchAt_finish]
  cases t with
  | nil => simp
  | cons c t => simp

/-! ## Units -/

theorem lt_of_isProfileChar {c : Nat} (h : isProfileChar c = true) : c < 0x80 := by
  unfold isProfileChar isAlphanumeric at h
  simp only [Bool.or_eq_true, Bool.and_eq_true, decide_eq_true_eq, beq_iff_eq] at h
  omega

/-- Characters of names are one unit each. -/
theorem utf16_of_names {s : Points} (h : ∀ c ∈ s, isProfileChar c = true) :
    Unicode.utf16 s = s := by
  induction s with
  | nil => rfl
  | cons c s ih =>
    have hc := lt_of_isProfileChar (h c List.mem_cons_self)
    have hs := ih fun d hd => h d (List.mem_cons_of_mem c hd)
    unfold Unicode.utf16 at hs ⊢
    rw [List.flatMap_cons, if_pos (by omega), hs]
    rfl

/-- Units that are characters of names are those of such characters. -/
theorem names_of_utf16 {s : Points} (h : ∀ c ∈ Unicode.utf16 s, isProfileChar c = true) :
    ∀ c ∈ s, isProfileChar c = true := by
  intro c hc
  by_cases hsmall : c < 0x10000
  · exact h c (List.mem_flatMap.mpr ⟨c, hc, by rw [if_pos hsmall]; exact List.mem_singleton.mpr rfl⟩)
  · have hunit : 0xD800 + (c - 0x10000) / 0x400 ∈ Unicode.utf16 s :=
      List.mem_flatMap.mpr ⟨c, hc, by rw [if_neg hsmall]; exact List.mem_cons_self⟩
    have := lt_of_isProfileChar (h _ hunit)
    omega

theorem accepts_typescript (s : Points) : acceptsTypescript s = isProfileName s := by
  unfold acceptsTypescript
  rw [accepts_units, Bool.eq_iff_iff]
  constructor
  · intro h
    have hs := names_of_utf16 (isProfileChar_of_name h)
    rwa [utf16_of_names hs] at h
  · intro h
    rwa [utf16_of_names (isProfileChar_of_name h)]

/-! ## The manager -/

theorem isAlphanumeric_toNat (c : Char) : isAlphanumeric c.toNat = Text.isAsciiAlphanumeric c := by
  unfold isAlphanumeric Text.isAsciiAlphanumeric
  simp only [Char.le_def, UInt32.le_iff_toNat_le]
  exact Bool.or_right_comm _ _ _

theorem isProfileChar_iff (c : Char) :
    isProfileChar c.toNat = true
      ↔ ((Text.isAsciiAlphanumeric c = true ∨ (c == '.') = true) ∨ (c == '_') = true)
        ∨ (c == '-') = true := by
  have heq : ∀ d : Char, (c.toNat == d.toNat) = (c == d) := by
    intro d
    rw [Bool.eq_iff_iff, beq_iff_eq, beq_iff_eq]
    exact ⟨Char.toNat_inj.mp, fun h => h ▸ rfl⟩
  unfold isProfileChar
  rw [isAlphanumeric_toNat, ← heq '.', ← heq '_', ← heq '-', Bool.or_eq_true, Bool.or_eq_true,
    Bool.or_eq_true]
  rfl

/-- A name ends in a letter or a digit. -/
def EndsAlphanumeric (s : Text) : Prop := s.getLast?.any Text.isAsciiAlphanumeric = true

/-- The names that the manager takes. -/
theorem validateProfileName_eq_ok {s : Text} :
    Kaleidoscope.validateProfileName s = .ok ()
      ↔ isProfileName (points s) = true ∧ EndsAlphanumeric s := by
  unfold Kaleidoscope.validateProfileName EndsAlphanumeric
  rw [rejectIf_eq_ok]
  cases s with
  | nil => simp [isProfileName, points]
  | cons first rest =>
    have hname : isProfileName (points (first :: rest)) = true
        ↔ Text.isAsciiAlphanumeric first = true ∧ rest.length ≤ 63
          ∧ ∀ c ∈ rest, isProfileChar c.toNat = true := by
      show (isAlphanumeric first.toNat && decide ((points rest).length ≤ 63)
        && (points rest).all isProfileChar) = true ↔ _
      rw [isAlphanumeric_toNat, Bool.and_eq_true, Bool.and_eq_true, decide_eq_true_iff, and_assoc]
      unfold points
      rw [List.length_map, List.all_map, List.all_eq_true]
      rfl
    rw [hname, List.head?_cons, Option.any_some]
    simp only [List.isEmpty_cons, Bool.false_or, Bool.or_eq_true, decide_eq_true_eq,
      Bool.not_eq_true', not_or, Bool.not_eq_false, List.all_eq_true, List.mem_cons]
    constructor
    · rintro ⟨⟨⟨⟨hlen, hascii⟩, hfirst⟩, hlast⟩, hall⟩
      have hrest := fun c hc => (isProfileChar_iff c).mpr (hall c (.inr hc))
      rw [Text.byteLen_of_isAscii hascii, List.length_cons] at hlen
      exact ⟨⟨hfirst, by omega, hrest⟩, hlast⟩
    · rintro ⟨⟨hfirst, hlen, hrest⟩, hlast⟩
      have hchars : ∀ c ∈ first :: rest, isProfileChar c.toNat = true := by
        intro c hc
        rcases List.mem_cons.mp hc with rfl | hc
        · exact (isProfileChar_iff c).mpr (.inl (.inl (.inl hfirst)))
        · exact hrest c hc
      have hascii : Text.isAscii (first :: rest) = true :=
        List.all_eq_true.mpr fun c hc => decide_eq_true (lt_of_isProfileChar (hchars c hc))
      refine ⟨⟨⟨⟨?_, hascii⟩, hfirst⟩, hlast⟩, fun c hc => ?_⟩
      · rw [Text.byteLen_of_isAscii hascii, List.length_cons]
        omega
      · exact (isProfileChar_iff c).mp (hchars c (List.mem_cons.mpr hc))

/-! ## The three languages -/

/-- The SDKs take the same names, and the manager those of them that end in a letter or a digit:
both SDKs can address each profile that the manager creates. -/
theorem profile_names_agree :
    (∀ s : Points, acceptsPython s = acceptsTypescript s)
      ∧ ∀ s : Text, Kaleidoscope.validateProfileName s = .ok ()
        ↔ acceptsPython (points s) = true ∧ EndsAlphanumeric s := by
  refine ⟨fun s => ?_, fun s => ?_⟩
  · rw [accepts_python, accepts_typescript]
  · rw [accepts_python]
    exact validateProfileName_eq_ok

/-- The SDKs take a name that ends in a dot. -/
theorem profile_names_differ :
    ¬∀ s : Text, (Kaleidoscope.validateProfileName s = .ok () ↔ acceptsPython (points s) = true)
      ∧ (acceptsPython (points s) = true ↔ acceptsTypescript (points s) = true) := by
  intro h
  have hpython : acceptsPython (points ['a', '.']) = true := by
    decide +kernel
  have hok := (h ['a', '.']).1.mpr hpython
  revert hok
  decide +kernel

end Kaleidoscope.Sdk
