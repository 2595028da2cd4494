import Mathlib.Data.Int.Log
import Mathlib.Data.Rat.Floor
import Kaleidoscope.Lib.Encoding

/-!
# Reading JSON

The grammar of RFC 8259 over code points, and the value a text stands for.  A dialect says which
constants outside the grammar it takes, what it makes of a number, and how deep it goes.

    read_ne_outOfFuel    the bound that makes the recursion structural is never met
-/

namespace JsonReader

open Unicode (Points)

/-! ## Values -/

inductive JsonNumber where
  | finite (q : ℚ)
  /-- a number of a type that has no integers, where the language has two types -/
  | float (q : ℚ)
  | infinite (negative : Bool)
  | nan
  deriving DecidableEq

/-- An object is a map: its members are kept in the order of their keys. -/
inductive JsonValue where
  | null
  | bool (b : Bool)
  | number (n : JsonNumber)
  | string (points : Points)
  | array (items : List JsonValue)
  | object (members : List (Points × JsonValue))

namespace JsonValue

/-- The last of several members of one key stays. -/
def insert (key : Points) (value : JsonValue) : List (Points × JsonValue) → List (Points × JsonValue)
  | [] => [(key, value)]
  | (k, v) :: rest =>
    if key = k then (key, value) :: rest
    else if Unicode.lt key k then (key, value) :: (k, v) :: rest
    else (k, v) :: insert key value rest

def member? (key : Points) : JsonValue → Option JsonValue
  | object members => (members.find? fun m => m.1 == key).map (·.2)
  | _ => none

mutual

def mapNumbers (f : JsonNumber → JsonNumber) : JsonValue → JsonValue
  | .null => .null
  | .bool b => .bool b
  | .number n => .number (f n)
  | .string points => .string points
  | .array items => .array (mapItems f items)
  | .object members => .object (mapMembers f members)

def mapItems (f : JsonNumber → JsonNumber) : List JsonValue → List JsonValue
  | [] => []
  | item :: items => mapNumbers f item :: mapItems f items

def mapMembers (f : JsonNumber → JsonNumber) : List (Points × JsonValue) → List (Points × JsonValue)
  | [] => []
  | (key, value) :: members => (key, mapNumbers f value) :: mapMembers f members

end

end JsonValue

/-! ## Numbers -/

/-- A number as it is written. -/
structure Literal where
  negative : Bool
  whole : List Nat
  fraction : List Nat
  exponent : Option Int

namespace Literal

def isInteger (l : Literal) : Bool := l.fraction.isEmpty && l.exponent.isNone

/-- The number the digits stand for. -/
def ofDigits (digits : List Nat) : Nat := digits.foldl (fun n d => n * 10 + d) 0

def magnitude (l : Literal) : ℚ :=
  ofDigits (l.whole ++ l.fraction) * (10 : ℚ) ^ (l.exponent.getD 0 - l.fraction.length)

def value (l : Literal) : ℚ := if l.negative then -l.magnitude else l.magnitude

end Literal

def roundHalfEven (q : ℚ) : Int :=
  let below := ⌊q⌋
  if q - below < 1 / 2 ∨ (q - below = 1 / 2 ∧ below % 2 = 0) then below else below + 1

/-- The nearest binary64 number: 53 significant bits, the last of them worth `2 ^ -1074` or
more. -/
def nearestDouble (q : ℚ) : JsonNumber :=
  if q = 0 then .finite 0
  else
    let last : ℚ := 2 ^ max (Int.log 2 |q| - 52) (-1074)
    let rounded := roundHalfEven (|q| / last) * last
    if 2 ^ 1024 ≤ rounded then .infinite (q < 0)
    else .finite (if q < 0 then -rounded else rounded)

/-! ## Reader -/

inductive Rejection where
  | malformed
  /-- arrays and objects nest deeper than the reader goes -/
  | tooDeep
  /-- an integer has more digits than the reader converts -/
  | tooLong
  | outOfFuel
  deriving DecidableEq

structure Dialect where
  /-- `NaN`, `Infinity` and `-Infinity` are numbers -/
  constants : Bool
  number : Literal → Except Rejection JsonNumber
  /-- how deep arrays and objects may nest -/
  depth : Option Nat

def point (c : Char) : Nat := c.toNat

def ofText (s : String) : Points := s.toList.map point

def isSpace (n : Nat) : Bool := n == 0x20 || n == 0x09 || n == 0x0A || n == 0x0D

def skipSpace (t : Points) : Points := t.dropWhile isSpace

def isDigit (n : Nat) : Bool := 0x30 ≤ n && n ≤ 0x39

/-- The digits at the start of a text, as numbers, and what comes after them. -/
def digits (t : Points) : List Nat × Points :=
  ((t.takeWhile isDigit).map (· - 0x30), t.dropWhile isDigit)

/-- The text after a word at its start. -/
def stripWord (word t : Points) : Option Points :=
  if word.isPrefixOf t then some (t.drop word.length) else none

/-- A sign, if one follows; a plus sign only in an exponent. -/
def readSign (plus : Bool) : Points → Bool × Points
  | 0x2D :: rest => (true, rest)
  | 0x2B :: rest => (false, if plus then rest else 0x2B :: rest)
  | t => (false, t)

/-- The digits before the point: a zero stands alone. -/
def readWhole : Points → List Nat × Points
  | 0x30 :: rest => ([0], rest)
  | t => digits t

/-- A fraction, if one follows. -/
def readFraction : Points → List Nat × Points
  | 0x2E :: rest => if (digits rest).1 = [] then ([], 0x2E :: rest) else digits rest
  | t => ([], t)

/-- An exponent, if one follows. -/
def readExponent : Points → Option Int × Points
  | [] => (none, [])
  | e :: rest =>
    let (negative, unsigned) := readSign true rest
    let (exponent, after) := digits unsigned
    if (e = 0x65 ∨ e = 0x45) ∧ exponent ≠ [] then
      let n : Int := Literal.ofDigits exponent
      (some (if negative then -n else n), after)
    else (none, e :: rest)

/-- A number at the start of a text. -/
def readLiteral (t : Points) : Option (Literal × Points) :=
  let (negative, unsigned) := readSign false t
  let (whole, afterWhole) := readWhole unsigned
  let (fraction, afterFraction) := readFraction afterWhole
  let (exponent, rest) := readExponent afterFraction
  if whole = [] then none else some (⟨negative, whole, fraction, exponent⟩, rest)

def hexDigit (n : Nat) : Option Nat :=
  if isDigit n then some (n - 0x30)
  else if 0x61 ≤ n ∧ n ≤ 0x66 then some (n - 0x57)
  else if 0x41 ≤ n ∧ n ≤ 0x46 then some (n - 0x37)
  else none

def hexUnit (a b c d : Nat) : Option Nat := do
  let a ← hexDigit a
  let b ← hexDigit b
  let c ← hexDigit c
  let d ← hexDigit d
  return a * 4096 + b * 256 + c * 16 + d

/-- The character after a backslash that is not `u`. -/
def simpleEscape (n : Nat) : Option Nat :=
  if n = 0x22 ∨ n = 0x5C ∨ n = 0x2F then some n
  else if n = 0x62 then some 0x08
  else if n = 0x66 then some 0x0C
  else if n = 0x6E then some 0x0A
  else if n = 0x72 then some 0x0D
  else if n = 0x74 then some 0x09
  else none

/-- A string after its opening quote.  `read` holds the code points so far, the last first; it
begins with `high` where that came from the escape just before. -/
def readString (high : Option Nat) (read : Points) : Points → Option (Points × Points)
  | [] => none
  | 0x22 :: rest => some (read.reverse, rest)
  | 0x5C :: 0x75 :: a :: b :: c :: d :: rest =>
    match hexUnit a b c d with
    | none => none
    | some unit =>
      match high with
      | some h =>
        if Unicode.isLowSurrogate unit then
          readString none (Unicode.joinSurrogates h unit :: read.drop 1) rest
        else
          readString (if Unicode.isHighSurrogate unit then some unit else none) (unit :: read) rest
      | none =>
        readString (if Unicode.isHighSurrogate unit then some unit else none) (unit :: read) rest
  | 0x5C :: n :: rest =>
    match simpleEscape n with
    | none => none
    | some c => readString none (c :: read) rest
  | n :: rest => if n < 0x20 ∨ n = 0x5C then none else readString none (n :: read) rest

section

variable (d : Dialect)

/-- A word or a number at the start of a text. -/
def readScalar (t : Points) : Except Rejection (JsonValue × Points) :=
  match stripWord (ofText "null") t, stripWord (ofText "true") t, stripWord (ofText "false") t with
  | some rest, _, _ => .ok (.null, rest)
  | _, some rest, _ => .ok (.bool true, rest)
  | _, _, some rest => .ok (.bool false, rest)
  | none, none, none =>
    match readLiteral t with
    | some (literal, rest) => (d.number literal).map fun n => (.number n, rest)
    | none =>
      if d.constants then
        match stripWord (ofText "NaN") t, stripWord (ofText "Infinity") t,
            stripWord (ofText "-Infinity") t with
        | some rest, _, _ => .ok (.number .nan, rest)
        | _, some rest, _ => .ok (.number (.infinite false), rest)
        | _, _, some rest => .ok (.number (.infinite true), rest)
        | none, none, none => .error .malformed
      else .error .malformed

def isPast (depth : Nat) : Bool := d.depth.any fun limit => decide (limit < depth)

mutual

/-- A value at the start of a text, inside `depth` arrays and objects. -/
def readValue : (fuel depth : Nat) → Points → Except Rejection (JsonValue × Points)
  | 0, _, _ => .error .outOfFuel
  | fuel + 1, depth, t =>
    match t with
    | 0x22 :: rest =>
      match readString none [] rest with
      | some (s, rest) => .ok (.string s, rest)
      | none => .error .malformed
    | 0x5B :: rest =>
      if isPast d (depth + 1) then .error .tooDeep
      else match skipSpace rest with
        | 0x5D :: rest => .ok (.array [], rest)
        | rest => readItems fuel (depth + 1) [] rest
    | 0x7B :: rest =>
      if isPast d (depth + 1) then .error .tooDeep
      else match skipSpace rest with
        | 0x7D :: rest => .ok (.object [], rest)
        | rest => readMembers fuel (depth + 1) [] rest
    | t => readScalar d t

/-- The items of an array, from the first character of one of them. -/
def readItems : (fuel depth : Nat) → List JsonValue → Points → Except Rejection (JsonValue × Points)
  | 0, _, _, _ => .error .outOfFuel
  | fuel + 1, depth, items, t =>
    match readValue fuel depth t with
    | .error e => .error e
    | .ok (item, rest) =>
      match skipSpace rest with
      | 0x2C :: rest => readItems fuel depth (item :: items) (skipSpace rest)
      | 0x5D :: rest => .ok (.array (item :: items).reverse, rest)
      | _ => .error .malformed

/-- The members of an object, from the quote of a key. -/
def readMembers :
    (fuel depth : Nat) → List (Points × JsonValue) → Points → Except Rejection (JsonValue × Points)
  | 0, _, _, _ => .error .outOfFuel
  | fuel + 1, depth, members, t =>
    match t with
    | 0x22 :: rest =>
      match readString none [] rest with
      | none => .error .malformed
      | some (key, rest) =>
        match skipSpace rest with
        | 0x3A :: rest =>
          match readValue fuel depth (skipSpace rest) with
          | .error e => .error e
          | .ok (value, rest) =>
            match skipSpace rest with
            | 0x2C :: rest => readMembers fuel depth (JsonValue.insert key value members) (skipSpace rest)
            | 0x7D :: rest => .ok (.object (JsonValue.insert key value members), rest)
            | _ => .error .malformed
        | _ => .error .malformed
    | _ => .error .malformed

end

/-- How the numbers of another dialect follow from those of this one. -/
structure Dialect.Yields (e : Dialect) (f : JsonNumber → JsonNumber) : Prop where
  number : ∀ {l : Literal} {n m : JsonNumber}, d.number l = .ok n → e.number l = .ok m → m = f n
  constants : e.constants = false

/-- The value of a text: one value and white space. -/
def read (t : Points) : Except Rejection JsonValue :=
  match readValue d (2 * t.length + 2) 0 (skipSpace t) with
  | .error e => .error e
  | .ok (value, rest) => if skipSpace rest = [] then .ok value else .error .malformed

end

/-! ## Lemmas -/

theorem skipSpace_length (t : Points) : (skipSpace t).length ≤ t.length :=
  (List.dropWhile_suffix isSpace).length_le

theorem stripWord_length {word t rest : Points} (hword : word ≠ [])
    (h : stripWord word t = some rest) : rest.length < t.length := by
  unfold stripWord at h
  by_cases hprefix : word.isPrefixOf t = true
  · rw [if_pos hprefix] at h
    have hle := (List.isPrefixOf_iff_prefix.mp hprefix).length_le
    have hpos := List.length_pos_iff.mpr hword
    rw [← Option.some.inj h, List.length_drop]
    omega
  · rw [if_neg hprefix] at h
    cases h

theorem digits_length (t : Points) : (digits t).1.length + (digits t).2.length = t.length := by
  unfold digits
  rw [List.length_map, ← List.length_append, List.takeWhile_append_dropWhile]

theorem readSign_length (plus : Bool) (t : Points) :
    (readSign plus t).2.length ≤ t.length := by
  unfold readSign
  split
  · exact Nat.le_succ _
  · cases plus with
    | false => exact le_refl _
    | true => exact Nat.le_succ _
  · exact le_refl _

theorem readWhole_length (t : Points) :
    (readWhole t).2.length + (readWhole t).1.length = t.length := by
  unfold readWhole
  split
  · rfl
  · rw [Nat.add_comm]
    exact digits_length _

theorem readFraction_length (t : Points) : (readFraction t).2.length ≤ t.length := by
  unfold readFraction
  split
  next rest =>
    have hdigits := digits_length rest
    split
    · exact le_refl _
    · rw [List.length_cons]
      omega
  next => exact le_refl _

theorem readExponent_length (t : Points) : (readExponent t).2.length ≤ t.length := by
  cases t with
  | nil => exact le_refl _
  | cons e rest =>
    have hsign := readSign_length true rest
    have hdigits := digits_length (readSign true rest).2
    simp only [readExponent]
    split
    · show (digits (readSign true rest).2).2.length ≤ rest.length + 1
      omega
    · exact le_refl _

theorem readLiteral_length {t rest : Points} {l : Literal}
    (h : readLiteral t = some (l, rest)) : rest.length < t.length := by
  have hsign := readSign_length false t
  have hwhole := readWhole_length (readSign false t).2
  have hfraction := readFraction_length (readWhole (readSign false t).2).2
  have hexponent := readExponent_length (readFraction (readWhole (readSign false t).2).2).2
  simp only [readLiteral, Option.ite_none_left_eq_some, Option.some.injEq, Prod.mk.injEq] at h
  obtain ⟨hne, -, rfl⟩ := h
  have hpos := List.length_pos_iff.mpr hne
  omega

theorem readString_raw {n : Nat} (hge : 0x20 ≤ n) (hquote : n ≠ 0x22) (hslash : n ≠ 0x5C)
    (high : Option Nat) (read t : Points) :
    readString high read (n :: t) = readString none (n :: read) t := by
  rw [readString.eq_def]
  split
  next heq => cases heq
  next heq => exact absurd (List.cons.inj heq).1 hquote
  next heq => exact absurd (List.cons.inj heq).1 hslash
  next heq => exact absurd (List.cons.inj heq).1 hslash
  next heq =>
    obtain ⟨rfl, rfl⟩ := List.cons.inj heq
    rw [if_neg (by omega)]

theorem readString_simple {e c : Nat} (h : simpleEscape e = some c) (high : Option Nat)
    (read t : Points) :
    readString high read (0x5C :: e :: t) = readString none (c :: read) t := by
  have hunit : e ≠ 0x75 := by
    rintro rfl
    cases h
  rw [readString.eq_def]
  split
  next heq => cases heq
  next heq => exact absurd (List.cons.inj heq).1 (by decide)
  next heq => exact absurd (List.cons.inj (List.cons.inj heq).2).1 hunit
  next heq =>
    obtain ⟨rfl, rfl⟩ := List.cons.inj (List.cons.inj heq).2
    rw [h]
  next hne heq =>
    obtain ⟨rfl, rfl⟩ := List.cons.inj heq
    exact absurd rfl (hne e t rfl)

theorem readString_unit {a b c d unit : Nat} (h : hexUnit a b c d = some unit) {high : Option Nat}
    (hhigh : high.isSome = true → Unicode.isLowSurrogate unit = false) (read t : Points) :
    readString high read (0x5C :: 0x75 :: a :: b :: c :: d :: t)
      = readString (if Unicode.isHighSurrogate unit then some unit else none) (unit :: read) t := by
  rw [readString.eq_def]
  simp only [h]
  cases high with
  | none => rfl
  | some first =>
    simp only [hhigh rfl, Bool.false_eq_true, if_false]

theorem readString_length {high : Option Nat} {read t s rest : Points}
    (h : readString high read t = some (s, rest)) : rest.length < t.length := by
  fun_induction readString high read t with
  | case1 => cases h
  | case2 =>
    cases h
    exact Nat.lt_succ_self _
  | case3 => cases h
  | case4 _ _ _ _ _ _ _ _ _ _ ih =>
    have hlt := ih h
    simp only [List.length_cons]
    omega
  | case5 _ _ _ _ _ _ _ _ _ _ ih =>
    have hlt := ih h
    simp only [List.length_cons]
    omega
  | case6 _ _ _ _ _ _ _ _ ih =>
    have hlt := ih h
    simp only [List.length_cons]
    omega
  | case7 => cases h
  | case8 _ _ _ _ _ _ _ ih =>
    have hlt := ih h
    simp only [List.length_cons]
    omega
  | case9 => cases h
  | case10 _ _ _ _ _ _ _ _ ih =>
    have hlt := ih h
    simp only [List.length_cons]
    omega

section

variable {d : Dialect}

theorem readScalar_length {t rest : Points} {v : JsonValue} (h : readScalar d t = .ok (v, rest)) :
    rest.length < t.length := by
  have hword : ∀ {word : String} {rest : Points}, ofText word ≠ [] →
      stripWord (ofText word) t = some rest → rest.length < t.length := fun hne hstrip =>
    stripWord_length hne hstrip
  unfold readScalar at h
  split at h
  next hstrip =>
    cases h
    exact hword (by decide) hstrip
  next hstrip _ =>
    cases h
    exact hword (by decide) hstrip
  next hstrip _ _ =>
    cases h
    exact hword (by decide) hstrip
  next =>
    split at h
    next l after hliteral =>
      cases hn : d.number l with
      | error e =>
        rw [hn] at h
        cases h
      | ok n =>
        rw [hn] at h
        cases h
        exact readLiteral_length hliteral
    next =>
      split at h
      · split at h
        next hstrip =>
          cases h
          exact hword (by decide) hstrip
        next hstrip _ =>
          cases h
          exact hword (by decide) hstrip
        next hstrip _ _ =>
          cases h
          exact hword (by decide) hstrip
        next => cases h
      · cases h

/-- What each reader of a value leaves is shorter than what it was given. -/
theorem read_shorter (fuel : Nat) :
    (∀ {depth : Nat} {t rest : Points} {v : JsonValue},
        readValue d fuel depth t = .ok (v, rest) → rest.length < t.length)
      ∧ (∀ {depth : Nat} {items : List JsonValue} {t rest : Points} {v : JsonValue},
        readItems d fuel depth items t = .ok (v, rest) → rest.length < t.length)
      ∧ ∀ {depth : Nat} {members : List (Points × JsonValue)} {t rest : Points} {v : JsonValue},
        readMembers d fuel depth members t = .ok (v, rest) → rest.length < t.length := by
  induction fuel with
  | zero =>
    refine ⟨fun h => ?_, fun h => ?_, fun h => ?_⟩
    · cases h
    · cases h
    · cases h
  | succ fuel ih =>
    obtain ⟨hvalue, hitems, hmembers⟩ := ih
    refine ⟨fun {depth t rest v} h => ?_, fun {depth items t rest v} h => ?_,
      fun {depth members t rest v} h => ?_⟩
    · simp only [readValue] at h
      split at h
      next after =>
        split at h
        next s after' hs =>
          cases h
          have hlt := readString_length hs
          rw [List.length_cons]
          omega
        next => cases h
      next after =>
        have hspace := skipSpace_length after
        split at h
        next => cases h
        next =>
          split at h
          next rest' heq =>
            cases h
            rw [heq] at hspace
            simp only [List.length_cons] at hspace ⊢
            omega
          next =>
            have hlt := hitems h
            rw [List.length_cons]
            omega
      next after =>
        have hspace := skipSpace_length after
        split at h
        next => cases h
        next =>
          split at h
          next rest' heq =>
            cases h
            rw [heq] at hspace
            simp only [List.length_cons] at hspace ⊢
            omega
          next =>
            have hlt := hmembers h
            rw [List.length_cons]
            omega
      next => exact readScalar_length h
    · simp only [readItems] at h
      split at h
      next => cases h
      next item after hitem =>
        have hlt := hvalue hitem
        have hspace := skipSpace_length after
        split at h
        next rest' heq =>
          have hnext := hitems h
          have hspace' := skipSpace_length rest'
          rw [heq, List.length_cons] at hspace
          omega
        next rest' heq =>
          cases h
          rw [heq, List.length_cons] at hspace
          omega
        next => cases h
    · simp only [readMembers] at h
      split at h
      next after =>
        split at h
        next => cases h
        next key afterKey hkey =>
          have hlt := readString_length hkey
          have hspace := skipSpace_length afterKey
          rw [List.length_cons]
          split at h
          next afterColon heq =>
            rw [heq, List.length_cons] at hspace
            have hcolon := skipSpace_length afterColon
            split at h
            next => cases h
            next value afterValue hv =>
              have hshort := hvalue hv
              have hend := skipSpace_length afterValue
              split at h
              next rest' heq' =>
                have hnext := hmembers h
                have hspace' := skipSpace_length rest'
                rw [heq', List.length_cons] at hend
                omega
              next rest' heq' =>
                cases h
                rw [heq', List.length_cons] at hend
                omega
              next => cases h
          next => cases h
      next => cases h

/-- A dialect's own reading of a number never runs out of fuel. -/
def Dialect.Converts (d : Dialect) : Prop := ∀ l, d.number l ≠ .error .outOfFuel

theorem readScalar_ne_outOfFuel (hd : d.Converts) (t : Points) :
    readScalar d t ≠ .error .outOfFuel := by
  intro h
  unfold readScalar at h
  split at h
  next => cases h
  next => cases h
  next => cases h
  next =>
    split at h
    next l rest _ =>
      cases hn : d.number l with
      | error e =>
        rw [hn] at h
        cases h
        exact hd l hn
      | ok n =>
        rw [hn] at h
        cases h
    next =>
      split at h
      · split at h
        all_goals cases h
      · cases h

/-- Two calls for each character are enough. -/
theorem read_fueled (hd : d.Converts) (fuel : Nat) :
    (∀ {depth : Nat} {t : Points}, 2 * t.length + 1 ≤ fuel →
        readValue d fuel depth t ≠ .error .outOfFuel)
      ∧ (∀ {depth : Nat} {items : List JsonValue} {t : Points}, 2 * t.length + 2 ≤ fuel →
        readItems d fuel depth items t ≠ .error .outOfFuel)
      ∧ ∀ {depth : Nat} {members : List (Points × JsonValue)} {t : Points}, 2 * t.length + 2 ≤ fuel →
        readMembers d fuel depth members t ≠ .error .outOfFuel := by
  induction fuel with
  | zero =>
    refine ⟨fun h => ?_, fun h => ?_, fun h => ?_⟩
    · omega
    · omega
    · omega
  | succ fuel ih =>
    obtain ⟨hvalue, hitems, hmembers⟩ := ih
    refine ⟨fun {depth t} hfuel h => ?_, fun {depth items t} hfuel h => ?_,
      fun {depth members t} hfuel h => ?_⟩
    · simp only [readValue] at h
      split at h
      next =>
        split at h
        all_goals cases h
      next after =>
        have hspace := skipSpace_length after
        rw [List.length_cons] at hfuel
        split at h
        next => cases h
        next =>
          split at h
          next => cases h
          next => exact hitems (by omega) h
      next after =>
        have hspace := skipSpace_length after
        rw [List.length_cons] at hfuel
        split at h
        next => cases h
        next =>
          split at h
          next => cases h
          next => exact hmembers (by omega) h
      next => exact readScalar_ne_outOfFuel hd _ h
    · simp only [readItems] at h
      split at h
      next e he =>
        cases h
        exact hvalue (by omega) he
      next item after hitem =>
        have hlt := (read_shorter fuel).1 hitem
        have hspace := skipSpace_length after
        split at h
        next rest' heq =>
          have hspace' := skipSpace_length rest'
          rw [heq, List.length_cons] at hspace
          exact hitems (by omega) h
        next => cases h
        next => cases h
    · simp only [readMembers] at h
      split at h
      next after =>
        rw [List.length_cons] at hfuel
        split at h
        next => cases h
        next key afterKey hkey =>
          have hlt := readString_length hkey
          have hspace := skipSpace_length afterKey
          split at h
          next afterColon heq =>
            rw [heq, List.length_cons] at hspace
            have hcolon := skipSpace_length afterColon
            split at h
            next e he =>
              cases h
              exact hvalue (by omega) he
            next value afterValue hv =>
              have hshort := (read_shorter fuel).1 hv
              have hend := skipSpace_length afterValue
              split at h
              next rest' heq' =>
                have hspace' := skipSpace_length rest'
                rw [heq', List.length_cons] at hend
                exact hmembers (by omega) h
              next => cases h
              next => cases h
          next => cases h
      next => cases h

/-- The bound that makes the recursion structural is never met. -/
theorem read_ne_outOfFuel (hd : d.Converts) (t : Points) : read d t ≠ .error .outOfFuel := by
  intro h
  have hspace := skipSpace_length t
  unfold read at h
  split at h
  next e he =>
    cases h
    exact (read_fueled hd _).1 (by omega) he
  next =>
    split at h
    all_goals cases h

/-! ## Two dialects -/

theorem mapItems_append (f : JsonNumber → JsonNumber) (items items' : List JsonValue) :
    JsonValue.mapItems f (items ++ items') = JsonValue.mapItems f items ++ JsonValue.mapItems f items' := by
  induction items with
  | nil => rfl
  | cons item items ih => simp [JsonValue.mapItems, ih]

theorem mapItems_reverse (f : JsonNumber → JsonNumber) (items : List JsonValue) :
    JsonValue.mapItems f items.reverse = (JsonValue.mapItems f items).reverse := by
  induction items with
  | nil => rfl
  | cons item items ih => simp [JsonValue.mapItems, mapItems_append, ih]

theorem mapMembers_insert (f : JsonNumber → JsonNumber) (key : Points) (value : JsonValue)
    (members : List (Points × JsonValue)) :
    JsonValue.mapMembers f (JsonValue.insert key value members)
      = JsonValue.insert key (value.mapNumbers f) (JsonValue.mapMembers f members) := by
  induction members with
  | nil => rfl
  | cons m members ih =>
    obtain ⟨k, v⟩ := m
    simp only [JsonValue.insert, JsonValue.mapMembers]
    split
    · rfl
    split
    · rfl
    · simp only [JsonValue.mapMembers, ih]

variable {e : Dialect} {f : JsonNumber → JsonNumber}

theorem readScalar_yields (h : d.Yields e f) {t r r' : Points} {v v' : JsonValue}
    (hd : readScalar d t = .ok (v, r)) (he : readScalar e t = .ok (v', r')) :
    v' = v.mapNumbers f ∧ r' = r := by
  unfold readScalar at hd he
  rw [h.constants] at he
  generalize stripWord (ofText "null") t = null, stripWord (ofText "true") t = yes,
    stripWord (ofText "false") t = no at hd he
  rcases null with - | rest
  · rcases yes with - | rest
    · rcases no with - | rest
      · cases hl : readLiteral t with
        | none =>
          rw [hl] at he
          cases he
        | some literal =>
          obtain ⟨l, rest⟩ := literal
          simp only [hl] at hd he
          cases hn : d.number l with
          | error x =>
            rw [hn] at hd
            cases hd
          | ok n =>
            cases hm : e.number l with
            | error x =>
              rw [hm] at he
              cases he
            | ok m =>
              rw [hn] at hd
              rw [hm] at he
              cases hd
              cases he
              exact ⟨by rw [h.number hn hm, JsonValue.mapNumbers], rfl⟩
      · cases hd
        cases he
        exact ⟨rfl, rfl⟩
    · cases hd
      cases he
      exact ⟨rfl, rfl⟩
  · cases hd
    cases he
    exact ⟨rfl, rfl⟩

/-- What two dialects read from one text has the same shape. -/
theorem read_yields_fueled (h : d.Yields e f) (fuel : Nat) :
    (∀ {depth depth' : Nat} {t r r' : Points} {v v' : JsonValue},
        readValue d fuel depth t = .ok (v, r) → readValue e fuel depth' t = .ok (v', r') →
        v' = v.mapNumbers f ∧ r' = r)
      ∧ (∀ {depth depth' : Nat} {items : List JsonValue} {t r r' : Points} {v v' : JsonValue},
        readItems d fuel depth items t = .ok (v, r) →
        readItems e fuel depth' (JsonValue.mapItems f items) t = .ok (v', r') →
        v' = v.mapNumbers f ∧ r' = r)
      ∧ ∀ {depth depth' : Nat} {members : List (Points × JsonValue)} {t r r' : Points} {v v' : JsonValue},
        readMembers d fuel depth members t = .ok (v, r) →
        readMembers e fuel depth' (JsonValue.mapMembers f members) t = .ok (v', r') →
        v' = v.mapNumbers f ∧ r' = r := by
  induction fuel with
  | zero => exact ⟨nofun, nofun, nofun⟩
  | succ fuel ih =>
    obtain ⟨hvalue, hitems, hmembers⟩ := ih
    refine ⟨fun {depth depth' t r r' v v'} hd he => ?_,
      fun {depth depth' items t r r' v v'} hd he => ?_,
      fun {depth depth' members t r r' v v'} hd he => ?_⟩
    · simp only [readValue] at hd he
      split at hd
      next after =>
        cases hs : readString none [] after with
        | none =>
          rw [hs] at hd
          cases hd
        | some s =>
          simp only [hs] at hd he
          cases hd
          cases he
          exact ⟨rfl, rfl⟩
      next after =>
        simp only at he
        split at hd
        next => cases hd
        next =>
          split at he
          next => cases he
          next =>
            split at hd
            next heq =>
              simp only [heq] at he
              cases hd
              cases he
              exact ⟨rfl, rfl⟩
            next hne =>
              split at he
              next heq => exact absurd heq (hne _)
              next => exact hitems hd he
      next after =>
        simp only at he
        split at hd
        next => cases hd
        next =>
          split at he
          next => cases he
          next =>
            split at hd
            next heq =>
              simp only [heq] at he
              cases hd
              cases he
              exact ⟨rfl, rfl⟩
            next hne =>
              split at he
              next heq => exact absurd heq (hne _)
              next => exact hmembers hd he
      next hquote hbracket hbrace =>
        split at he
        next => exact absurd rfl (hquote _)
        next => exact absurd rfl (hbracket _)
        next => exact absurd rfl (hbrace _)
        next => exact readScalar_yields h hd he
    · simp only [readItems] at hd he
      cases hv : readValue d fuel depth t with
      | error x =>
        rw [hv] at hd
        cases hd
      | ok read =>
        cases hv' : readValue e fuel depth' t with
        | error x =>
          rw [hv'] at he
          cases he
        | ok read' =>
          obtain ⟨hitem, hrest⟩ := hvalue hv hv'
          obtain ⟨item, rest⟩ := read
          obtain ⟨item', rest'⟩ := read'
          simp only at hitem hrest
          subst hitem hrest
          simp only [hv] at hd
          simp only [hv'] at he
          split at hd
          next after heq =>
            simp only [heq] at he
            exact hitems hd he
          next after heq =>
            simp only [heq] at he
            cases hd
            cases he
            refine ⟨?_, rfl⟩
            rw [JsonValue.mapNumbers, mapItems_reverse]
            rfl
          next => cases hd
    · simp only [readMembers] at hd he
      split at hd
      next after =>
        cases hs : readString none [] after with
        | none =>
          rw [hs] at hd
          cases hd
        | some s =>
          obtain ⟨key, afterKey⟩ := s
          simp only [hs] at hd he
          split at hd
          next afterColon hcolon =>
            simp only [hcolon] at he
            cases hv : readValue d fuel depth (skipSpace afterColon) with
            | error x =>
              rw [hv] at hd
              cases hd
            | ok read =>
              cases hv' : readValue e fuel depth' (skipSpace afterColon) with
              | error x =>
                rw [hv'] at he
                cases he
              | ok read' =>
                obtain ⟨hvalue', hrest⟩ := hvalue hv hv'
                obtain ⟨value, rest⟩ := read
                obtain ⟨value', rest'⟩ := read'
                simp only at hvalue' hrest
                subst hvalue' hrest
                simp only [hv] at hd
                simp only [hv', ← mapMembers_insert] at he
                split at hd
                next after heq =>
                  simp only [heq] at he
                  exact hmembers hd he
                next after heq =>
                  simp only [heq] at he
                  cases hd
                  cases he
                  exact ⟨by rw [JsonValue.mapNumbers], rfl⟩
                next => cases hd
          next => cases hd
      next => cases hd

/-- What two dialects read from one text has the same shape. -/
theorem read_yields (h : d.Yields e f) {t : Points} {v v' : JsonValue} (hd : read d t = .ok v)
    (he : read e t = .ok v') : v' = v.mapNumbers f := by
  unfold read at hd he
  split at hd
  next => cases hd
  next value rest hvalue =>
    split at he
    next => cases he
    next value' rest' hvalue' =>
      obtain ⟨hmap, rfl⟩ := (read_yields_fueled h _).1 hvalue hvalue'
      split at hd
      next hend =>
        rw [if_pos hend] at he
        cases hd
        cases he
        exact hmap
      next => cases hd

/-! ## A dialect with limits -/

end

end JsonReader
