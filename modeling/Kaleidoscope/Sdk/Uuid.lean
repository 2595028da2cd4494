import Mathlib.Data.List.TakeWhile
import Kaleidoscope.Sdk.Payload

/-!
# Reading a UUID

Python takes a UUID in many spellings, TypeScript in the one with four hyphens.

    uuidPython_of_shaped    that one spelling means the same to both
-/

namespace Kaleidoscope.Sdk

open Unicode (Points)
open JsonReader (ofText hexDigit)

/-! ## Python's integers -/

/-- What the character database says of the characters beyond ASCII. -/
structure CharacterTable where
  isSpace : Nat → Bool
  decimal : Nat → Option Nat

/-- Spaces and decimal digits of any script as those of ASCII. -/
def toAscii (table : CharacterTable) : Points → Points
  | [] => []
  | c :: rest =>
    if c < 0x7F then c :: toAscii table rest
    else if table.isSpace c then 0x20 :: toAscii table rest
    else match table.decimal c with
      | some d => (0x30 + d) :: toAscii table rest
      | none => [0x3F]

def isAsciiSpace (c : Nat) : Bool := c == 0x20 || (0x09 ≤ c && c ≤ 0x0D)

def isHexDigit (c : Nat) : Bool := (hexDigit c).isSome

def readSign : Points → Bool × Points
  | 0x2D :: rest => (true, rest)
  | 0x2B :: rest => (false, rest)
  | t => (false, t)

/-- `0x`, which an underscore may follow -/
def dropPrefix : Points → Points
  | 0x30 :: 0x78 :: 0x5F :: rest => rest
  | 0x30 :: 0x78 :: rest => rest
  | 0x30 :: 0x58 :: 0x5F :: rest => rest
  | 0x30 :: 0x58 :: rest => rest
  | t => t

/-- Digits with single underscores between them. -/
def isSeparated : Points → Bool
  | [] => false
  | 0x5F :: _ => false
  | [_] => true
  | _ :: 0x5F :: rest => isSeparated rest
  | _ :: rest => isSeparated rest

def ofHexDigits (digits : List Nat) : Nat := digits.foldl (fun n d => n * 16 + d) 0

/-- `int(text, 16)` -/
def intHex (table : CharacterTable) (text : Points) : Option Int :=
  let (negative, unsigned) := readSign ((toAscii table text).dropWhile isAsciiSpace)
  let digits := (dropPrefix unsigned).takeWhile fun c => isHexDigit c || c == 0x5F
  let rest := (dropPrefix unsigned).dropWhile fun c => isHexDigit c || c == 0x5F
  if isSeparated digits = true ∧ rest.all isAsciiSpace = true then
    let n : Int := ofHexDigits (digits.filterMap hexDigit)
    some (if negative then -n else n)
  else none

/-! ## The two readers -/

/-- `text.replace(word, "")`; `skip` characters belong to an occurrence of the word. -/
def removeAll (word : Points) : (skip : Nat) → Points → Points
  | _, [] => []
  | skip + 1, _ :: rest => removeAll word skip rest
  | 0, c :: rest =>
    if word.isPrefixOf (c :: rest) then removeAll word (word.length - 1) rest
    else c :: removeAll word 0 rest

def isBrace (c : Nat) : Bool := c == 0x7B || c == 0x7D

/-- `text.strip("\x7b\x7d")` -/
def stripBraces (text : Points) : Points :=
  ((text.dropWhile isBrace).reverse.dropWhile isBrace).reverse

/-- Where digits and hyphens stand. -/
def uuidTemplate : List Bool :=
  (ofText "xxxxxxxx-xxxx-xxxx-xxxx-xxxxxxxxxxxx").map fun c => c != 0x2D

def fill : List Bool → Points → Points
  | true :: template, c :: digits => c :: fill template digits
  | false :: template, digits => 0x2D :: fill template digits
  | _, _ => []

/-- `str(uuid)` -/
def formatUuid (n : Nat) : Points :=
  fill uuidTemplate ((List.range 32).map fun i => hexPoint (n / 16 ^ (31 - i) % 16))

/-- `_uuid` -/
def uuidPython (table : CharacterTable) (text : Points) : Option Points :=
  let bare := removeAll (ofText "uuid:") 0 (removeAll (ofText "urn:") 0 text)
  let hex := (stripBraces bare).filter (· ≠ 0x2D)
  if hex.length = 32 then
    match intHex table hex with
    | some n => if 0 ≤ n ∧ n < 2 ^ 128 then some (formatUuid n.toNat) else none
    | none => none
  else none

def isShaped : List Bool → Points → Bool
  | [], [] => true
  | true :: template, c :: rest => isHexDigit c && isShaped template rest
  | false :: template, c :: rest => c == 0x2D && isShaped template rest
  | _, _ => false

/-- `/^[0-9a-f]{8}-[0-9a-f]{4}-[0-9a-f]{4}-[0-9a-f]{4}-[0-9a-f]{12}$/iu` -/
def isUuid (text : Points) : Bool := isShaped uuidTemplate text

def lower (c : Nat) : Nat := if 0x41 ≤ c ∧ c ≤ 0x5A then c + 0x20 else c

/-- `uuid` -/
def uuid (text : Points) : Option Points := if isUuid text then some (text.map lower) else none

/-! ## Lemmas -/

theorem removeAll_absent {word text : Points} {c : Nat} (hc : c ∈ word) (htext : c ∉ text) :
    removeAll word 0 text = text := by
  induction text with
  | nil => rfl
  | cons d rest ih =>
    rw [removeAll, if_neg, ih fun hrest => htext (by simp [hrest])]
    intro hdropped
    exact htext ((List.isPrefixOf_iff_prefix.mp hdropped).mem hc)

/-- The digits of a number that was read from as many. -/
theorem digits_ofHexDigits {digits : List Nat} (h : ∀ d ∈ digits, d < 16) :
    (List.range digits.length).map
      (fun i => ofHexDigits digits / 16 ^ (digits.length - 1 - i) % 16) = digits := by
  induction digits using List.reverseRecOn with
  | nil => rfl
  | append_singleton digits d ih =>
    have hd := h d (by simp)
    have hvalue : ofHexDigits (digits ++ [d]) = ofHexDigits digits * 16 + d := by
      simp [ofHexDigits]
    rw [List.length_append, List.length_singleton, List.range_succ, List.map_append, hvalue]
    congr 1
    · refine Eq.trans ?_ (ih fun e he => h e (by simp [he]))
      apply List.map_congr_left
      intro i hi
      have hlt := List.mem_range.mp hi
      have hpower : (16 : Nat) ^ (digits.length + 1 - 1 - i)
          = 16 * 16 ^ (digits.length - 1 - i) := by
        rw [← Nat.pow_succ']
        congr 1
        omega
      rw [hpower, ← Nat.div_div_eq_div_mul]
      congr 2
      omega
    · simp
      omega

theorem ofHexDigits_lt {digits : List Nat} (h : ∀ d ∈ digits, d < 16) :
    ofHexDigits digits < 16 ^ digits.length := by
  induction digits using List.reverseRecOn with
  | nil => decide
  | append_singleton digits d ih =>
    have hd := h d (by simp)
    have hlt := ih fun e he => h e (by simp [he])
    have hvalue : ofHexDigits (digits ++ [d]) = ofHexDigits digits * 16 + d := by
      simp [ofHexDigits]
    rw [hvalue, List.length_append, List.length_singleton, Nat.pow_succ]
    omega

theorem isHexDigit_lt {c : Nat} (h : isHexDigit c = true) : c < 0x67 ∧ 0x30 ≤ c := by
  unfold isHexDigit hexDigit JsonReader.isDigit at h
  split at h
  next hdigit =>
    simp only [Bool.and_eq_true, decide_eq_true_eq] at hdigit
    omega
  split at h
  next => omega
  split at h
  next => omega
  cases h

/-- A character that is a digit in both languages. -/
theorem isHexDigit_spec {c : Nat} (h : isHexDigit c = true) :
    ∃ d < 16, hexDigit c = some d ∧ hexPoint d = lower c := by
  have hall : ∀ c < 0x67, isHexDigit c = true →
      ∃ d < 16, hexDigit c = some d ∧ hexPoint d = lower c := by decide
  exact hall c (isHexDigit_lt h).1 h

theorem isHexDigit_ne {c e : Nat} (h : isHexDigit c = true) (he : isHexDigit e = false) :
    c ≠ e := by
  rintro rfl
  rw [h] at he
  cases he

/-- Hexadecimal digits and hyphens. -/
def IsHex (text : Points) : Prop := ∀ c ∈ text, isHexDigit c = true

theorem toAscii_hex {table : CharacterTable} {text : Points} (h : IsHex text) :
    toAscii table text = text := by
  induction text with
  | nil => rfl
  | cons c rest ih =>
    have hlt := (isHexDigit_lt (h c (by simp))).1
    rw [toAscii, if_pos (by omega), ih fun c hc => h c (by simp [hc])]

theorem isSeparated_hex {text : Points} (hne : text ≠ []) (h : IsHex text) :
    isSeparated text = true := by
  induction text with
  | nil => exact absurd rfl hne
  | cons c rest ih =>
    have hc := h c (by simp)
    have hrest : IsHex rest := fun c hc => h c (by simp [hc])
    have hunderscore := isHexDigit_ne hc (show isHexDigit 0x5F = false by decide)
    cases rest with
    | nil =>
      unfold isSeparated
      split
      next heq => cases heq
      next heq => exact absurd (List.cons.inj heq).1 hunderscore
      next => rfl
      next heq => cases heq
      next hsingle _ heq => exact absurd (List.cons.inj heq).2.symm hsingle
    | cons d rest =>
      have hd := isHexDigit_ne (hrest d (by simp)) (show isHexDigit 0x5F = false by decide)
      rw [isSeparated.eq_def]
      split
      next heq => cases heq
      next heq => exact absurd (List.cons.inj heq).1 hunderscore
      next heq => cases heq
      next heq => exact absurd (List.cons.inj (List.cons.inj heq).2).1 hd
      next heq =>
        obtain ⟨-, rfl⟩ := List.cons.inj heq
        exact ih (by simp) hrest

theorem intHex_hex {table : CharacterTable} {text : Points} (hlength : 2 ≤ text.length)
    (h : IsHex text) :
    intHex table text = some (ofHexDigits (text.filterMap hexDigit) : Int) := by
  obtain ⟨c, d, rest, rfl⟩ : ∃ c d rest, text = c :: d :: rest := by
    cases text with
    | nil => simp at hlength
    | cons c text =>
      cases text with
      | nil => simp at hlength
      | cons d rest => exact ⟨c, d, rest, rfl⟩
  have hc := h c (by simp)
  have hd := h d (by simp)
  have hspace : (c :: d :: rest).dropWhile isAsciiSpace = c :: d :: rest := by
    refine List.dropWhile_cons_of_neg ?_
    have := (isHexDigit_lt hc).2
    simp [isAsciiSpace]
    omega
  have hsign : readSign (c :: d :: rest) = (false, c :: d :: rest) := by
    unfold readSign
    split
    next heq => exact absurd (List.cons.inj heq).1 (isHexDigit_ne hc (by decide))
    next heq => exact absurd (List.cons.inj heq).1 (isHexDigit_ne hc (by decide))
    next => rfl
  have hdropped : dropPrefix (c :: d :: rest) = c :: d :: rest := by
    unfold dropPrefix
    split
    next heq =>
      exact absurd (List.cons.inj (List.cons.inj heq).2).1 (isHexDigit_ne hd (by decide))
    next heq =>
      exact absurd (List.cons.inj (List.cons.inj heq).2).1 (isHexDigit_ne hd (by decide))
    next heq =>
      exact absurd (List.cons.inj (List.cons.inj heq).2).1 (isHexDigit_ne hd (by decide))
    next heq =>
      exact absurd (List.cons.inj (List.cons.inj heq).2).1 (isHexDigit_ne hd (by decide))
    next => rfl
  have hall : ∀ x ∈ c :: d :: rest, (isHexDigit x || x == 0x5F) = true := fun x hx => by
    rw [h x hx, Bool.true_or]
  unfold intHex
  rw [toAscii_hex h, hspace, hsign]
  simp only [hdropped, List.takeWhile_eq_self_iff.mpr hall, List.dropWhile_eq_nil_iff.mpr hall]
  rw [if_pos ⟨isSeparated_hex (by simp) h, rfl⟩]
  simp

theorem isShaped_mem {template : List Bool} {text : Points} (h : isShaped template text = true) :
    ∀ c ∈ text, isHexDigit c = true ∨ c = 0x2D := by
  fun_induction isShaped template text with
  | case1 => simp
  | case2 template c rest ih =>
    rw [Bool.and_eq_true] at h
    intro d hd
    rcases List.mem_cons.mp hd with rfl | hd
    · exact .inl h.1
    · exact ih h.2 d hd
  | case3 template c rest ih =>
    rw [Bool.and_eq_true, beq_iff_eq] at h
    intro d hd
    rcases List.mem_cons.mp hd with rfl | hd
    · exact .inr h.1
    · exact ih h.2 d hd
  | case4 => cases h

/-- The hyphens are taken out and put back. -/
theorem fill_shaped {template : List Bool} {text : Points} (h : isShaped template text = true) :
    (text.filter (· ≠ 0x2D)).length = template.count true
      ∧ fill template ((text.filter (· ≠ 0x2D)).map lower) = text.map lower := by
  fun_induction isShaped template text with
  | case1 => exact ⟨rfl, rfl⟩
  | case2 template c rest ih =>
    rw [Bool.and_eq_true] at h
    obtain ⟨hlength, hfill⟩ := ih h.2
    have hne := isHexDigit_ne h.1 (show isHexDigit 0x2D = false by decide)
    rw [List.filter_cons_of_pos (by simpa using hne)]
    constructor
    · rw [List.length_cons, hlength, List.count_cons_self]
    · rw [List.map_cons, fill, hfill, List.map_cons]
  | case3 template c rest ih =>
    rw [Bool.and_eq_true, beq_iff_eq] at h
    obtain ⟨hc, hrest⟩ := h
    subst hc
    obtain ⟨hlength, hfill⟩ := ih hrest
    rw [List.filter_cons_of_neg (by simp)]
    refine ⟨by simpa using hlength, ?_⟩
    rw [fill, hfill, List.map_cons]
    rfl
  | case4 => cases h

/-- A UUID with four hyphens means the same to both languages. -/
theorem uuidPython_of_shaped {table : CharacterTable} {text : Points} (h : isUuid text = true) :
    uuidPython table text = some (text.map lower) := by
  have hmem := isShaped_mem h
  obtain ⟨hlength, hfill⟩ := fill_shaped h
  have habsent : ∀ c, isHexDigit c = false → c ≠ 0x2D → c ∉ text := by
    intro c hc hhyphen hmemc
    rcases hmem c hmemc with hdigit | rfl
    · rw [hdigit] at hc
      cases hc
    · exact hhyphen rfl
  have hbare : removeAll (ofText "uuid:") 0 (removeAll (ofText "urn:") 0 text) = text := by
    have hcolon := habsent 0x3A (by decide) (by decide)
    rw [removeAll_absent (show 0x3A ∈ ofText "urn:" by decide) hcolon,
      removeAll_absent (show 0x3A ∈ ofText "uuid:" by decide) hcolon]
  have hbrace : ∀ c ∈ text, isBrace c = false := by
    intro c hc
    by_contra hbrace
    simp only [isBrace, Bool.not_eq_false, Bool.or_eq_true, beq_iff_eq] at hbrace
    rcases hbrace with rfl | rfl
    · exact habsent _ (by decide) (by decide) hc
    · exact habsent _ (by decide) (by decide) hc
  have hstrip : stripBraces text = text := by
    have hdrop : ∀ t : Points, (∀ c ∈ t, isBrace c = false) → t.dropWhile isBrace = t := by
      intro t ht
      cases t with
      | nil => rfl
      | cons c rest => exact List.dropWhile_cons_of_neg (by simp [ht c (by simp)])
    unfold stripBraces
    rw [hdrop text hbrace, hdrop text.reverse fun c hc => hbrace c (List.mem_reverse.mp hc),
      List.reverse_reverse]
  have hhex : IsHex (text.filter (· ≠ 0x2D)) := by
    intro c hc
    obtain ⟨hc, hhyphen⟩ := List.mem_filter.mp hc
    exact (hmem c hc).resolve_right (by simpa using hhyphen)
  have hcount : (text.filter (· ≠ 0x2D)).length = 32 := hlength.trans (by decide)
  generalize hdigits : text.filter (· ≠ 0x2D) = hex at hhex hcount hfill
  have hvalues : ∀ d ∈ hex.filterMap hexDigit, d < 16 := by
    intro d hd
    obtain ⟨c, hc, hcd⟩ := List.mem_filterMap.mp hd
    obtain ⟨e, he, hce, -⟩ := isHexDigit_spec (hhex c hc)
    rw [hcd] at hce
    cases hce
    exact he
  have hsame : (hex.filterMap hexDigit).length = 32
      ∧ (hex.filterMap hexDigit).map hexPoint = hex.map lower := by
    rw [← hcount]
    clear hdigits hcount hfill hvalues
    induction hex with
    | nil => exact ⟨rfl, rfl⟩
    | cons c rest ih =>
      obtain ⟨d, -, hcd, hpoint⟩ := isHexDigit_spec (hhex c (by simp))
      obtain ⟨hlength, hmap⟩ := ih fun c hc => hhex c (by simp [hc])
      rw [List.filterMap_cons_some hcd]
      exact ⟨by simp [hlength], by rw [List.map_cons, List.map_cons, hpoint, hmap]⟩
  have hlt := ofHexDigits_lt hvalues
  rw [hsame.1] at hlt
  unfold uuidPython
  simp only [hbare, hstrip, hdigits]
  rw [if_pos hcount, intHex_hex (by omega) hhex]
  simp only
  rw [if_pos ⟨Int.natCast_nonneg _, by norm_num at hlt ⊢; exact_mod_cast hlt⟩]
  have hformat := digits_ofHexDigits hvalues
  rw [hsame.1] at hformat
  unfold formatUuid
  rw [Int.toNat_natCast, ← hfill, ← hsame.2]
  congr 2
  refine Eq.trans ?_ (congrArg (List.map hexPoint) hformat)
  rw [List.map_map]
  rfl

end Kaleidoscope.Sdk
