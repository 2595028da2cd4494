import Mathlib.Data.List.Sort
import Kaleidoscope.Lib.JsonReader

/-!
# Request payloads

The bytes each SDK writes to a child for one argument value.  Python sorts the members of every
object by code points and writes ASCII; TypeScript sorts them by UTF-16 units, builds an object in
which array indices come first, and writes the characters themselves.

    payloadPython_eq_iff    for which arguments the two SDKs write the same bytes
-/

namespace Kaleidoscope.Sdk

open Unicode (Points)
open JsonReader (ofText)

/-! ## Arguments -/

/-- An integer that a binary64 number holds exactly, as do its neighbours. -/
abbrev SafeInt := { i : Int // i.natAbs < 2 ^ 53 }

/-- The digits of the shortest decimal that reads back as a number. -/
structure Shortest where
  digits : List Nat
  ne_nil : digits ≠ []
  lt : ∀ d ∈ digits, d < 10
  head : digits.head? ≠ some 0
  last : digits.getLast? ≠ some 0

/-- A finite binary64 number: zero, or `0.d₁d₂…dₖ` times ten to the `point`. -/
inductive Double where
  | zero (negative : Bool)
  | nonzero (negative : Bool) (shortest : Shortest) (point : Int)

/-- A JSON value that a caller hands over.  An integral number of Python's `float` stays one. -/
inductive Argument where
  | null
  | bool (b : Bool)
  | int (i : SafeInt)
  | float (x : Double)
  | string (s : Points)
  | array (items : List Argument)
  | object (members : List (Points × Argument))

/-! ## Numbers -/

def decimal (n : Nat) : Points := (Nat.toDigits 10 n).map JsonReader.point

def sign (negative : Bool) : Points := if negative then ofText "-" else []

def formatInt (i : SafeInt) : Points := sign (decide (i.val < 0)) ++ decimal i.val.natAbs

def digitPoints (digits : List Nat) : Points := digits.map (0x30 + ·)

def zeros (n : Nat) : Points := List.replicate n 0x30

/-- The digits before and after a point that stands among them or before them. -/
def pointed (digits : List Nat) (point : Int) : Points :=
  if 0 < point then
    digitPoints (digits.take point.toNat) ++ ofText "." ++ digitPoints (digits.drop point.toNat)
  else ofText "0." ++ zeros (-point).toNat ++ digitPoints digits

/-- The digits with a point after the first, as before an exponent. -/
def mantissa (digits : List Nat) : Points :=
  if digits.length = 1 then digitPoints digits
  else digitPoints (digits.take 1) ++ ofText "." ++ digitPoints (digits.drop 1)

/-- `float.__repr__`: an exponent has two digits or more, and an integral number ends in `.0`. -/
def reprFloat : Double → Points
  | .zero negative => sign negative ++ ofText "0.0"
  | .nonzero negative s point =>
    sign negative ++
      if point ≤ -4 ∨ 16 < point then
        let exponent := point - 1
        mantissa s.digits ++ ofText "e" ++ (if exponent < 0 then ofText "-" else ofText "+")
          ++ (if exponent.natAbs < 10 then ofText "0" else []) ++ decimal exponent.natAbs
      else if s.digits.length ≤ point then
        digitPoints s.digits ++ zeros (point - s.digits.length).toNat ++ ofText ".0"
      else pointed s.digits point

/-- `Number::toString` -/
def numberToString : Double → Points
  | .zero _ => ofText "0"
  | .nonzero negative s point =>
    sign negative ++
      if s.digits.length ≤ point ∧ point ≤ 21 then
        digitPoints s.digits ++ zeros (point - s.digits.length).toNat
      else if -6 < point ∧ point ≤ 21 then pointed s.digits point
      else
        let exponent := point - 1
        mantissa s.digits ++ ofText "e" ++ (if exponent < 0 then ofText "-" else ofText "+")
          ++ decimal exponent.natAbs

/-! ## Strings -/

def hexPoint (d : Nat) : Nat := if d < 10 then 0x30 + d else 0x57 + d

/-- `\uXXXX`, in lower case -/
def escapeUnit (n : Nat) : Points :=
  [0x5C, 0x75, hexPoint (n / 4096 % 16), hexPoint (n / 256 % 16), hexPoint (n / 16 % 16),
    hexPoint (n % 16)]

/-- The escapes of one character that both languages have. -/
def shortEscape (c : Nat) : Option Points :=
  if c = 0x22 ∨ c = 0x5C then some [0x5C, c]
  else if c = 0x08 then some (ofText "\\b")
  else if c = 0x0C then some (ofText "\\f")
  else if c = 0x0A then some (ofText "\\n")
  else if c = 0x0D then some (ofText "\\r")
  else if c = 0x09 then some (ofText "\\t")
  else none

/-- A character as `ensure_ascii` writes it. -/
def escapePython (c : Nat) : Points :=
  match shortEscape c with
  | some escape => escape
  | none =>
    if 0x20 ≤ c ∧ c ≤ 0x7E then [c] else (Unicode.utf16 [c]).flatMap escapeUnit

/-- A character as `QuoteJSONString` writes it. -/
def escapeTypescript (c : Nat) : Points :=
  match shortEscape c with
  | some escape => escape
  | none => if c < 0x20 ∨ Unicode.isSurrogate c then escapeUnit c else [c]

def quotePython (s : Points) : Points := 0x22 :: (s.flatMap escapePython ++ [0x22])

/-- A string of this language has no surrogates next to each other that could be joined. -/
def quoteTypescript (s : Points) : Points :=
  0x22 :: ((Unicode.joinPairs s).flatMap escapeTypescript ++ [0x22])

/-! ## Objects -/

section

variable {α : Type}

/-- `sort_keys`: by code points. -/
def sortPython (members : List (Points × α)) : List (Points × α) :=
  members.insertionSort fun a b => Unicode.lt b.1 a.1 = false

/-- `Object.keys(value).sort()`: by UTF-16 units. -/
def sortTypescript (members : List (Points × α)) : List (Points × α) :=
  members.insertionSort fun a b => Unicode.lt (Unicode.utf16 b.1) (Unicode.utf16 a.1) = false

/-- The array index that a property key stands for. -/
def arrayIndex (key : Points) : Option Nat :=
  if key = ofText "0" then some 0
  else if key ≠ [] ∧ key.all JsonReader.isDigit ∧ key.head? ≠ some 0x30 then
    let n := JsonReader.Literal.ofDigits (key.map (· - 0x30))
    if n < 4294967295 then some n else none
  else none

/-- The properties of an object in the order they are listed: array indices first. -/
def fromEntries (members : List (Points × α)) : List (Points × α) :=
  (members.filter fun m => (arrayIndex m.1).isSome).insertionSort
      (fun a b => (arrayIndex a.1).getD 0 ≤ (arrayIndex b.1).getD 0)
    ++ members.filter fun m => !(arrayIndex m.1).isSome

end

/-! ## Encoders -/

def commaSeparated (parts : List Points) : Points := (ofText ",").intercalate parts

mutual

/-- `json.dumps(arguments, sort_keys=True, separators=(",", ":"))` -/
def dumps : Argument → Points
  | .null => ofText "null"
  | .bool b => if b then ofText "true" else ofText "false"
  | .int i => formatInt i
  | .float x => reprFloat x
  | .string s => quotePython s
  | .array items => ofText "[" ++ commaSeparated (dumpsItems items) ++ ofText "]"
  | .object members =>
    ofText "\x7b"
      ++ commaSeparated ((sortPython (dumpsMembers members)).map fun m =>
          quotePython m.1 ++ ofText ":" ++ m.2)
      ++ ofText "\x7d"

def dumpsItems : List Argument → List Points
  | [] => []
  | item :: items => dumps item :: dumpsItems items

def dumpsMembers : List (Points × Argument) → List (Points × Points)
  | [] => []
  | (key, value) :: members => (key, dumps value) :: dumpsMembers members

end

mutual

/-- `sortJson` -/
def sortJson : Argument → Argument
  | .array items => .array (sortItems items)
  | .object members => .object (fromEntries (sortTypescript (sortMembers members)))
  | value => value

def sortItems : List Argument → List Argument
  | [] => []
  | item :: items => sortJson item :: sortItems items

def sortMembers : List (Points × Argument) → List (Points × Argument)
  | [] => []
  | (key, value) :: members => (key, sortJson value) :: sortMembers members

end

mutual

/-- `JSON.stringify` -/
def stringify : Argument → Points
  | .null => ofText "null"
  | .bool b => if b then ofText "true" else ofText "false"
  | .int i => formatInt i
  | .float x => numberToString x
  | .string s => quoteTypescript s
  | .array items => ofText "[" ++ commaSeparated (stringifyItems items) ++ ofText "]"
  | .object members =>
    ofText "\x7b"
      ++ commaSeparated ((stringifyMembers members).map fun m =>
          quoteTypescript m.1 ++ ofText ":" ++ m.2)
      ++ ofText "\x7d"

def stringifyItems : List Argument → List Points
  | [] => []
  | item :: items => stringify item :: stringifyItems items

def stringifyMembers : List (Points × Argument) → List (Points × Points)
  | [] => []
  | (key, value) :: members => (key, stringify value) :: stringifyMembers members

end

/-- What Python's `_call` writes to the child. -/
def payloadPython (arguments : Argument) : List UInt8 := Unicode.encodeUtf8 (dumps arguments)

/-- `encodePayload` -/
def encodePayload (arguments : Argument) : List UInt8 :=
  Unicode.encodeUtf8 (stringify (sortJson arguments))

/-! ## Statement -/

/-- No object has two members of one key. -/
inductive WellFormed : Argument → Prop
  | null : WellFormed .null
  | bool (b : Bool) : WellFormed (.bool b)
  | int (i : SafeInt) : WellFormed (.int i)
  | float (x : Double) : WellFormed (.float x)
  | string (s : Points) : WellFormed (.string s)
  | array {items : List Argument} (hitems : ∀ item ∈ items, WellFormed item) :
    WellFormed (.array items)
  | object {members : List (Points × Argument)} (hkeys : (members.map Prod.fst).Nodup)
    (hvalues : ∀ m ∈ members, WellFormed m.2) : WellFormed (.object members)

/-- ASCII but the delete character, or a surrogate. -/
def isPlain (c : Nat) : Bool := c ≤ 0x7E || Unicode.isSurrogate c

/-- A text that both SDKs quote alike: plain characters, and no two surrogates that join. -/
def PlainText (s : Points) : Prop := (∀ c ∈ s, isPlain c = true) ∧ Unicode.joinPairs s = s

/-- A number that both SDKs write alike: not integral and neither large nor small, or so small or
large that both write an exponent of two digits or more. -/
def SameDouble : Double → Prop
  | .zero _ => False
  | .nonzero _ s point =>
    (-4 < point ∧ point ≤ 16 ∧ point < s.digits.length) ∨ point ≤ -9 ∨ 22 ≤ point

/-- An argument whose strings and keys are plain, whose numbers are written alike, and in whose
objects array indices first is the order of the code points. -/
inductive Alike : Argument → Prop
  | null : Alike .null
  | bool (b : Bool) : Alike (.bool b)
  | int (i : SafeInt) : Alike (.int i)
  | float {x : Double} (hx : SameDouble x) : Alike (.float x)
  | string {s : Points} (hs : PlainText s) : Alike (.string s)
  | array {items : List Argument} (hitems : ∀ item ∈ items, Alike item) : Alike (.array items)
  | object {members : List (Points × Argument)} (hkeys : ∀ m ∈ members, PlainText m.1)
    (horder : (fromEntries (sortTypescript members)).map Prod.fst
      = (sortPython members).map Prod.fst)
    (hvalues : ∀ m ∈ members, Alike m.2) : Alike (.object members)

/-! ## Lemmas -/

namespace Argument

/-- Induction over an argument: the items of an array and the values of an object are smaller. -/
theorem inductionOn {motive : Argument → Prop} (null : motive .null)
    (bool : ∀ b, motive (.bool b)) (int : ∀ i, motive (.int i)) (float : ∀ x, motive (.float x))
    (string : ∀ s, motive (.string s))
    (array : ∀ items, (∀ item ∈ items, motive item) → motive (.array items))
    (object : ∀ members, (∀ m ∈ members, motive m.2) → motive (.object members)) :
    ∀ a, motive a
  | .null => null
  | .bool b => bool b
  | .int i => int i
  | .float x => float x
  | .string s => string s
  | .array items => array items fun item _hitem =>
    inductionOn null bool int float string array object item
  | .object members => object members fun m _hm =>
    inductionOn null bool int float string array object m.2
termination_by a => sizeOf a
decreasing_by
  · have hlt := List.sizeOf_lt_of_mem _hitem
    simp only [Argument.array.sizeOf_spec]
    omega
  · have hlt := List.sizeOf_lt_of_mem _hm
    have hpair : sizeOf m = 1 + sizeOf m.1 + sizeOf m.2 := by
      cases m
      rfl
    simp only [Argument.object.sizeOf_spec]
    omega

end Argument

theorem dumpsItems_eq (items : List Argument) : dumpsItems items = items.map dumps := by
  induction items with
  | nil => simp [dumpsItems]
  | cons item items ih => simp [dumpsItems, ih]

theorem dumpsMembers_eq (members : List (Points × Argument)) :
    dumpsMembers members = members.map fun m => (m.1, dumps m.2) := by
  induction members with
  | nil => simp [dumpsMembers]
  | cons m members ih => simp [dumpsMembers, ih]

theorem sortItems_eq (items : List Argument) : sortItems items = items.map sortJson := by
  induction items with
  | nil => simp [sortItems]
  | cons item items ih => simp [sortItems, ih]

theorem sortMembers_eq (members : List (Points × Argument)) :
    sortMembers members = members.map fun m => (m.1, sortJson m.2) := by
  induction members with
  | nil => simp [sortMembers]
  | cons m members ih => simp [sortMembers, ih]

theorem stringifyItems_eq (items : List Argument) :
    stringifyItems items = items.map stringify := by
  induction items with
  | nil => simp [stringifyItems]
  | cons item items ih => simp [stringifyItems, ih]

theorem stringifyMembers_eq (members : List (Points × Argument)) :
    stringifyMembers members = members.map fun m => (m.1, stringify m.2) := by
  induction members with
  | nil => simp [stringifyMembers]
  | cons m members ih => simp [stringifyMembers, ih]

section

variable {α β : Type} (f : α → β)

theorem sortPython_map (members : List (Points × α)) :
    sortPython (members.map fun m => (m.1, f m.2))
      = (sortPython members).map fun m => (m.1, f m.2) := by
  unfold sortPython
  rw [List.map_insertionSort _ fun a b : Points × β => Unicode.lt b.1 a.1 = false]
  exact fun _ _ _ _ => Iff.rfl

theorem sortTypescript_map (members : List (Points × α)) :
    sortTypescript (members.map fun m => (m.1, f m.2))
      = (sortTypescript members).map fun m => (m.1, f m.2) := by
  unfold sortTypescript
  rw [List.map_insertionSort _ fun a b : Points × β =>
    Unicode.lt (Unicode.utf16 b.1) (Unicode.utf16 a.1) = false]
  exact fun _ _ _ _ => Iff.rfl

theorem fromEntries_map (members : List (Points × α)) :
    fromEntries (members.map fun m => (m.1, f m.2))
      = (fromEntries members).map fun m => (m.1, f m.2) := by
  unfold fromEntries
  rw [List.map_append, List.filter_map, List.filter_map]
  congr 1
  rw [List.map_insertionSort _ fun a b : Points × β =>
    (arrayIndex a.1).getD 0 ≤ (arrayIndex b.1).getD 0]
  · rfl
  · exact fun _ _ _ _ => Iff.rfl

theorem sortPython_perm (members : List (Points × α)) : (sortPython members).Perm members :=
  List.perm_insertionSort _ _

theorem fromEntries_perm (members : List (Points × α)) :
    (fromEntries (sortTypescript members)).Perm members := by
  have hsplit := List.filter_append_perm (fun m : Points × α => (arrayIndex m.1).isSome)
    (sortTypescript members)
  refine ((List.Perm.append_right _ (List.perm_insertionSort _ _)).trans hsplit).trans ?_
  exact List.perm_insertionSort _ _

end

/-- The text of an object in the order of Python. -/
theorem dumps_object (members : List (Points × Argument)) :
    dumps (.object members) = ofText "\x7b"
      ++ commaSeparated ((sortPython members).map fun m =>
          quotePython m.1 ++ ofText ":" ++ dumps m.2)
      ++ ofText "\x7d" := by
  rw [dumps, dumpsMembers_eq, sortPython_map, List.map_map]
  rfl

/-- The text of an object in the order of TypeScript. -/
theorem stringify_object (members : List (Points × Argument)) :
    stringify (sortJson (.object members)) = ofText "\x7b"
      ++ commaSeparated ((fromEntries (sortTypescript members)).map fun m =>
          quoteTypescript m.1 ++ ofText ":" ++ stringify (sortJson m.2))
      ++ ofText "\x7d" := by
  rw [sortJson, stringify, stringifyMembers_eq, sortMembers_eq, sortTypescript_map,
    fromEntries_map, List.map_map, List.map_map]
  rfl

theorem dumps_array (items : List Argument) :
    dumps (.array items) = ofText "[" ++ commaSeparated (items.map dumps) ++ ofText "]" := by
  rw [dumps, dumpsItems_eq]

theorem stringify_array (items : List Argument) :
    stringify (sortJson (.array items))
      = ofText "[" ++ commaSeparated (items.map fun item => stringify (sortJson item))
        ++ ofText "]" := by
  rw [sortJson, stringify, stringifyItems_eq, sortItems_eq, List.map_map]
  rfl

/-! ## Strings -/

theorem isPlain_cases {c : Nat} (h : isPlain c = true) :
    c ≤ 0x7E ∨ (0xD800 ≤ c ∧ c ≤ 0xDFFF ∧ Unicode.isSurrogate c = true) := by
  unfold isPlain at h
  rcases Bool.or_eq_true _ _ ▸ h with h | h
  · exact .inl (of_decide_eq_true h)
  · have hbounds : 0xD800 ≤ c ∧ c ≤ 0xDFFF := by
      unfold Unicode.isSurrogate Unicode.isHighSurrogate Unicode.isLowSurrogate at h
      simp only [Bool.or_eq_true, Bool.and_eq_true, decide_eq_true_eq] at h
      omega
    exact .inr ⟨hbounds.1, hbounds.2, h⟩

theorem not_surrogate_of_le {c : Nat} (h : c ≤ 0x7E) : Unicode.isSurrogate c = false := by
  unfold Unicode.isSurrogate Unicode.isHighSurrogate Unicode.isLowSurrogate
  simp only [Bool.or_eq_false_iff, Bool.and_eq_false_iff, decide_eq_false_iff_not]
  omega

theorem utf16_unit {c : Nat} (h : c < 0x10000) :
    (Unicode.utf16 [c]).flatMap escapeUnit = escapeUnit c := by
  simp [Unicode.utf16, h]

/-- How a plain character is written: by a short escape, as itself, or by its unit. -/
theorem escapePython_plain {c : Nat} (h : isPlain c = true) :
    (∃ e, e ≠ 0x75 ∧ escapePython c = [0x5C, e] ∧ JsonReader.simpleEscape e = some c)
      ∨ (escapePython c = [c] ∧ 0x20 ≤ c ∧ c ≤ 0x7E ∧ c ≠ 0x22 ∧ c ≠ 0x5C)
      ∨ escapePython c = escapeUnit c ∧ c < 0x10000 := by
  by_cases hshort : c = 0x22 ∨ c = 0x5C ∨ c = 0x08 ∨ c = 0x0C ∨ c = 0x0A ∨ c = 0x0D ∨ c = 0x09
  · refine .inl ?_
    rcases hshort with rfl | rfl | rfl | rfl | rfl | rfl | rfl
    · exact ⟨0x22, by decide, by decide, by decide⟩
    · exact ⟨0x5C, by decide, by decide, by decide⟩
    · exact ⟨0x62, by decide, by decide, by decide⟩
    · exact ⟨0x66, by decide, by decide, by decide⟩
    · exact ⟨0x6E, by decide, by decide, by decide⟩
    · exact ⟨0x72, by decide, by decide, by decide⟩
    · exact ⟨0x74, by decide, by decide, by decide⟩
  · have hnone : shortEscape c = none := by
      simp only [not_or] at hshort
      simp [shortEscape, hshort]
    have hpython : escapePython c
        = if 0x20 ≤ c ∧ c ≤ 0x7E then [c] else (Unicode.utf16 [c]).flatMap escapeUnit := by
      unfold escapePython
      rw [hnone]
    rw [hpython]
    by_cases hraw : 0x20 ≤ c ∧ c ≤ 0x7E
    · rw [if_pos hraw]
      exact .inr (.inl ⟨rfl, hraw.1, hraw.2, by omega, by omega⟩)
    · have hlt : c < 0x10000 := by
        rcases isPlain_cases h with hle | ⟨-, hle, -⟩ <;> omega
      rw [if_neg hraw, utf16_unit hlt]
      exact .inr (.inr ⟨rfl, hlt⟩)

theorem escapeTypescript_plain {c : Nat} (h : isPlain c = true) :
    escapeTypescript c = escapePython c := by
  unfold escapeTypescript escapePython
  cases shortEscape c with
  | some escape => rfl
  | none =>
    simp only
    rcases isPlain_cases h with hle | ⟨hge, hle, hsurrogate⟩
    · rw [not_surrogate_of_le hle]
      by_cases hraw : 0x20 ≤ c
      · rw [if_neg (by simp; omega), if_pos ⟨hraw, hle⟩]
      · rw [if_pos (by simp; omega), if_neg (by omega), utf16_unit (by omega)]
    · rw [if_pos (.inr hsurrogate), if_neg (by omega), utf16_unit (by omega)]

/-- Plain texts are quoted alike. -/
theorem quote_plain {s : Points} (h : PlainText s) : quoteTypescript s = quotePython s := by
  unfold quoteTypescript quotePython
  rw [h.2]
  congr 2
  have hall := h.1
  clear h
  induction s with
  | nil => rfl
  | cons c s ih =>
    rw [List.flatMap_cons, List.flatMap_cons, escapeTypescript_plain (hall c (by simp)),
      ih fun c hc => hall c (by simp [hc])]

theorem hexDigit_hexPoint {d : Nat} (h : d < 16) :
    JsonReader.hexDigit (hexPoint d) = some d := by
  have hall : ∀ d < 16, JsonReader.hexDigit (hexPoint d) = some d := by decide
  exact hall d h

theorem hexUnit_escapeUnit {n : Nat} (h : n < 0x10000) :
    JsonReader.hexUnit (hexPoint (n / 4096 % 16)) (hexPoint (n / 256 % 16))
      (hexPoint (n / 16 % 16)) (hexPoint (n % 16)) = some n := by
  unfold JsonReader.hexUnit
  rw [hexDigit_hexPoint (Nat.mod_lt _ (by decide)), hexDigit_hexPoint (Nat.mod_lt _ (by decide)),
    hexDigit_hexPoint (Nat.mod_lt _ (by decide)), hexDigit_hexPoint (Nat.mod_lt _ (by decide))]
  simp only [Option.bind_eq_bind, Option.bind_some, pure, Option.some.injEq]
  omega

/-- A text without joinable surrogates: what holds of its tail, and of its second character. -/
theorem joinPairs_cons {c : Nat} {s : Points} (h : Unicode.joinPairs (c :: s) = c :: s) :
    Unicode.joinPairs s = s
      ∧ ∀ d, s.head? = some d → Unicode.isHighSurrogate c = true →
        Unicode.isLowSurrogate d = false := by
  cases s with
  | nil => exact ⟨rfl, fun d hd => by cases hd⟩
  | cons d s =>
    rw [Unicode.joinPairs] at h
    by_cases hpair : Unicode.isHighSurrogate c = true ∧ Unicode.isLowSurrogate d = true
    · rw [if_pos hpair] at h
      have hjoined := (List.cons.inj h).1
      have hhigh := hpair.1
      unfold Unicode.isHighSurrogate at hhigh
      unfold Unicode.joinSurrogates at hjoined
      simp only [Bool.and_eq_true, decide_eq_true_eq] at hhigh
      omega
    · rw [if_neg hpair] at h
      refine ⟨(List.cons.inj h).2, fun d' hd' hhigh => ?_⟩
      cases hd'
      by_contra hlow
      exact hpair ⟨hhigh, by simpa using hlow⟩

/-- A quoted plain text is read back, and what follows it is left. -/
theorem readString_quoted (s : Points) :
    ∀ {high : Option Nat} {read r : Points}, (∀ c ∈ s, isPlain c = true) →
      Unicode.joinPairs s = s →
      (∀ h d, high = some h → s.head? = some d → Unicode.isLowSurrogate d = false) →
      JsonReader.readString high read (s.flatMap escapePython ++ 0x22 :: r)
        = some (read.reverse ++ s, r) := by
  induction s with
  | nil =>
    intro high read r _ _ _
    simp [JsonReader.readString]
  | cons c s ih =>
    intro high read r hplain hjoin hhigh
    have hrest : ∀ c ∈ s, isPlain c = true := fun c hc => hplain c (by simp [hc])
    obtain ⟨hjoin', hnext⟩ := joinPairs_cons hjoin
    have hread : ∀ {high' : Option Nat},
        (∀ h d, high' = some h → s.head? = some d → Unicode.isLowSurrogate d = false) →
        JsonReader.readString high' (c :: read) (s.flatMap escapePython ++ 0x22 :: r)
          = some (read.reverse ++ c :: s, r) := fun h => by
      rw [ih hrest hjoin' h, List.reverse_cons, List.append_assoc, List.singleton_append]
    rw [List.flatMap_cons, List.append_assoc]
    rcases escapePython_plain (hplain c (by simp)) with
      ⟨e, he, hescape, hsimple⟩ | ⟨hescape, hge, hle, hquote, hslash⟩ | ⟨hescape, hlt⟩
    · rw [hescape, List.cons_append, List.singleton_append]
      rw [JsonReader.readString_simple hsimple]
      exact hread fun h d hnone => by cases hnone
    · rw [hescape, List.singleton_append, JsonReader.readString_raw hge hquote hslash]
      exact hread fun h d hnone => by cases hnone
    · have hlow : high.isSome = true → Unicode.isLowSurrogate c = false := fun hsome => by
        obtain ⟨h, heq⟩ := Option.isSome_iff_exists.mp hsome
        exact hhigh h c heq rfl
      rw [hescape]
      show JsonReader.readString high read (0x5C :: 0x75 :: hexPoint (c / 4096 % 16)
        :: hexPoint (c / 256 % 16) :: hexPoint (c / 16 % 16) :: hexPoint (c % 16)
        :: (s.flatMap escapePython ++ 0x22 :: r)) = _
      rw [JsonReader.readString_unit (hexUnit_escapeUnit hlt) hlow]
      refine hread fun h d heq hd => ?_
      by_cases hsurrogate : Unicode.isHighSurrogate c = true
      · exact hnext d hd hsurrogate
      · rw [if_neg hsurrogate] at heq
        cases heq

/-- A quoted plain text tells where it ends. -/
theorem quote_injective {s t : Points} (hs : PlainText s) (ht : PlainText t) {r r' : Points}
    (h : quotePython s ++ r = quotePython t ++ r') : s = t ∧ r = r' := by
  unfold quotePython at h
  simp only [List.cons_append, List.append_assoc, List.cons.injEq, true_and,
    List.nil_append] at h
  have hread := @readString_quoted s none [] r hs.1 hs.2 fun h d hnone => by cases hnone
  have hread' := @readString_quoted t none [] r' ht.1 ht.2 fun h d hnone => by cases hnone
  rw [h, hread'] at hread
  have hpair := Option.some.inj hread
  exact ⟨(Prod.mk.inj hpair).1.symm, (Prod.mk.inj hpair).2.symm⟩

/-! ## Numbers -/

/-- A character of a number. -/
def isNumberPoint (c : Nat) : Bool :=
  JsonReader.isDigit c || c == 0x2B || c == 0x2D || c == 0x2E || c == 0x65

def Numeric (t : Points) : Prop := ∀ c ∈ t, isNumberPoint c = true

theorem Numeric.append {t u : Points} (ht : Numeric t) (hu : Numeric u) : Numeric (t ++ u) := by
  intro c hc
  rcases List.mem_append.mp hc with hc | hc
  · exact ht c hc
  · exact hu c hc

theorem numeric_digits {digits : List Nat} (h : ∀ d ∈ digits, d < 10) :
    Numeric (digitPoints digits) := by
  intro c hc
  obtain ⟨d, hd, rfl⟩ := List.mem_map.mp hc
  have hall : ∀ d < 10, isNumberPoint (0x30 + d) = true := by decide
  exact hall d (h d hd)

theorem numeric_zeros (n : Nat) : Numeric (zeros n) := by
  intro c hc
  rw [(List.mem_replicate.mp hc).2]
  decide

theorem decimal_digit {n c : Nat} (h : c ∈ decimal n) : JsonReader.isDigit c = true := by
  obtain ⟨d, hd, rfl⟩ := List.mem_map.mp h
  have hdigit := Nat.isDigit_of_mem_toDigits (by decide) (by decide) hd
  unfold Char.isDigit at hdigit
  unfold JsonReader.isDigit JsonReader.point
  simp only [Bool.and_eq_true, decide_eq_true_eq] at hdigit ⊢
  exact ⟨UInt32.le_iff_toNat_le.mp hdigit.1, UInt32.le_iff_toNat_le.mp hdigit.2⟩

theorem numeric_decimal (n : Nat) : Numeric (decimal n) := by
  intro c hc
  unfold isNumberPoint
  rw [decimal_digit hc]
  rfl

theorem numeric_sign (negative : Bool) : Numeric (sign negative) := by
  unfold Numeric sign
  cases negative with
  | false => simp
  | true => decide

theorem numeric_text {t : Points} (h : (t.all isNumberPoint) = true) : Numeric t :=
  List.all_eq_true.mp h

theorem numeric_pointed {digits : List Nat} (h : ∀ d ∈ digits, d < 10) (point : Int) :
    Numeric (pointed digits point) := by
  unfold pointed
  split
  · exact ((numeric_digits fun d hd => h d (List.mem_of_mem_take hd)).append
      (numeric_text (by decide))).append (numeric_digits fun d hd => h d (List.mem_of_mem_drop hd))
  · exact ((numeric_text (by decide)).append (numeric_zeros _)).append (numeric_digits h)

theorem numeric_mantissa {digits : List Nat} (h : ∀ d ∈ digits, d < 10) :
    Numeric (mantissa digits) := by
  unfold mantissa
  split
  · exact numeric_digits h
  · exact ((numeric_digits fun d hd => h d (List.mem_of_mem_take hd)).append
      (numeric_text (by decide))).append (numeric_digits fun d hd => h d (List.mem_of_mem_drop hd))

theorem numeric_ite {c : Prop} [Decidable c] {t u : Points} (ht : Numeric t) (hu : Numeric u) :
    Numeric (if c then t else u) := by
  split
  · exact ht
  · exact hu

theorem numeric_reprFloat (x : Double) : Numeric (reprFloat x) := by
  cases x with
  | zero negative => exact (numeric_sign negative).append (numeric_text (by decide))
  | nonzero negative s point =>
    refine (numeric_sign negative).append (numeric_ite ?_ (numeric_ite ?_ ?_))
    · exact ((((numeric_mantissa s.lt).append (numeric_text (by decide))).append
        (numeric_ite (numeric_text (by decide)) (numeric_text (by decide)))).append
        (numeric_ite (numeric_text (by decide)) (numeric_text (by decide)))).append
        (numeric_decimal _)
    · exact ((numeric_digits s.lt).append (numeric_zeros _)).append (numeric_text (by decide))
    · exact numeric_pointed s.lt point

theorem numeric_numberToString (x : Double) : Numeric (numberToString x) := by
  cases x with
  | zero negative =>
    show Numeric (ofText "0")
    exact numeric_text (by decide)
  | nonzero negative s point =>
    refine (numeric_sign negative).append (numeric_ite ?_ (numeric_ite ?_ ?_))
    · exact (numeric_digits s.lt).append (numeric_zeros _)
    · exact numeric_pointed s.lt point
    · exact (((numeric_mantissa s.lt).append (numeric_text (by decide))).append
        (numeric_ite (numeric_text (by decide)) (numeric_text (by decide)))).append
        (numeric_decimal _)

/-- No exponent. -/
def Fixed (t : Points) : Prop := ∀ c ∈ t, c < 0x65

theorem Fixed.append {t u : Points} (ht : Fixed t) (hu : Fixed u) : Fixed (t ++ u) := by
  intro c hc
  rcases List.mem_append.mp hc with hc | hc
  · exact ht c hc
  · exact hu c hc

theorem fixed_digits {digits : List Nat} (h : ∀ d ∈ digits, d < 10) :
    Fixed (digitPoints digits) := by
  intro c hc
  obtain ⟨d, hd, rfl⟩ := List.mem_map.mp hc
  have hlt := h d hd
  omega

theorem fixed_zeros (n : Nat) : Fixed (zeros n) := by
  intro c hc
  rw [(List.mem_replicate.mp hc).2]
  decide

theorem fixed_text {t : Points} (h : (t.all fun c => decide (c < 0x65)) = true) : Fixed t :=
  fun c hc => of_decide_eq_true (List.all_eq_true.mp h c hc)

theorem fixed_pointed {digits : List Nat} (h : ∀ d ∈ digits, d < 10) (point : Int) :
    Fixed (pointed digits point) := by
  unfold pointed
  split
  · exact ((fixed_digits fun d hd => h d (List.mem_of_mem_take hd)).append
      (fixed_text (by decide))).append (fixed_digits fun d hd => h d (List.mem_of_mem_drop hd))
  · exact ((fixed_text (by decide)).append (fixed_zeros _)).append (fixed_digits h)

theorem ne_of_fixed {t u v : Points} (h : Fixed v) : t ++ ofText "e" ++ u ≠ v := by
  rintro rfl
  have hlt := h 0x65 (by simp [ofText, JsonReader.point])
  omega

/-- The numbers that both languages write alike. -/
theorem reprFloat_eq_iff (x : Double) : reprFloat x = numberToString x ↔ SameDouble x := by
  cases x with
  | zero negative =>
    refine iff_of_false (fun h => ?_) id
    cases negative with
    | false => revert h; decide
    | true => revert h; decide
  | nonzero negative s point =>
    have hpos : 0 < s.digits.length := List.length_pos_iff.mpr s.ne_nil
    unfold reprFloat numberToString SameDouble
    simp only [List.append_cancel_left_eq]
    by_cases hexp : point ≤ -4 ∨ 16 < point
    · rw [if_pos hexp]
      simp only [List.append_assoc]
      by_cases hint : s.digits.length ≤ point ∧ point ≤ 21
      · rw [if_pos hint]
        refine iff_of_false (fun h => ?_) (by omega)
        rw [← List.append_assoc] at h
        exact ne_of_fixed ((fixed_digits s.lt).append (fixed_zeros _)) h
      · rw [if_neg hint]
        by_cases hpoint : -6 < point ∧ point ≤ 21
        · rw [if_pos hpoint]
          refine iff_of_false (fun h => ?_) (by omega)
          rw [← List.append_assoc] at h
          exact ne_of_fixed (fixed_pointed s.lt point) h
        · rw [if_neg hpoint]
          simp only [List.append_cancel_left_eq]
          by_cases hlong : (point - 1).natAbs < 10
          · rw [if_pos hlong]
            refine iff_of_false (fun h => ?_) (by omega)
            have hlen := congrArg List.length h
            rw [List.length_append] at hlen
            have hone : (ofText "0").length = 1 := by decide
            omega
          · rw [if_neg hlong]
            exact iff_of_true rfl (by omega)
    · rw [if_neg hexp]
      by_cases hint : s.digits.length ≤ point
      · rw [if_pos hint, if_pos ⟨hint, by omega⟩]
        refine iff_of_false (fun h => ?_) (by omega)
        have hlen := congrArg List.length h
        rw [List.length_append] at hlen
        have htwo : (ofText ".0").length = 2 := by decide
        omega
      · rw [if_neg hint, if_neg (by omega), if_pos (by omega)]
        exact iff_of_true rfl (by omega)

/-! ## Agreement -/

/-- What follows a value: nothing, a comma or a closing bracket. -/
def Delimited (r : Points) : Prop :=
  ∀ c ∈ r.head?, c = 0x2C ∨ c = 0x5D ∨ c = 0x7D

theorem delimited_cons {c : Nat} (h : c = 0x2C ∨ c = 0x5D ∨ c = 0x7D) (r : Points) :
    Delimited (c :: r) := by
  intro c' hc'
  cases hc'
  exact h

/-- A number ends where what follows it begins. -/
theorem numeric_append {t u r r' : Points} (ht : Numeric t) (hu : Numeric u) (hr : Delimited r)
    (hr' : Delimited r') (h : t ++ r = u ++ r') : t = u ∧ r = r' := by
  have htake : ∀ {t r : Points}, Numeric t → Delimited r →
      (t ++ r).takeWhile isNumberPoint = t := by
    intro t r ht hr
    rw [List.takeWhile_append_of_pos ht]
    cases r with
    | nil => simp
    | cons c r =>
      have hc : isNumberPoint c = false := by
        rcases hr c rfl with rfl | rfl | rfl <;> decide
      simp [hc]
  have heq : t = u := by
    rw [← htake ht hr, h, htake hu hr']
  rw [heq] at h
  exact ⟨heq, List.append_cancel_left h⟩

/-- An argument whose texts agree wherever they stand is alike in both languages. -/
def Syncs (a : Argument) : Prop :=
  ∀ r r', Delimited r → Delimited r' → dumps a ++ r = stringify (sortJson a) ++ r' →
    Alike a ∧ r = r'

theorem commaSeparated_cons (t : Points) (ts : List Points) (r : Points) :
    commaSeparated (t :: ts) ++ r
      = t ++ if ts = [] then r else 0x2C :: (commaSeparated ts ++ r) := by
  cases ts with
  | nil => simp [commaSeparated, List.intercalate]
  | cons u ts =>
    rw [if_neg (by simp)]
    simp [commaSeparated, List.intercalate, ofText, JsonReader.point]

/-- The items of an array, one after the other. -/
theorem items_sync {items : List Argument} (h : ∀ item ∈ items, Syncs item) {r r' : Points}
    (heq : commaSeparated (items.map dumps) ++ 0x5D :: r
      = commaSeparated (items.map fun item => stringify (sortJson item)) ++ 0x5D :: r') :
    (∀ item ∈ items, Alike item) ∧ r = r' := by
  induction items with
  | nil =>
    refine ⟨fun _ hitem => (nomatch hitem), ?_⟩
    simpa [commaSeparated, List.intercalate] using heq
  | cons item items ih =>
    rw [List.map_cons, List.map_cons, commaSeparated_cons, commaSeparated_cons] at heq
    have hitem := h item (by simp)
    cases items with
    | nil =>
      obtain ⟨halike, hrest⟩ := hitem _ _ (delimited_cons (by decide) r)
        (delimited_cons (by decide) r') heq
      refine ⟨fun x hx => ?_, (List.cons.inj hrest).2⟩
      rw [List.mem_singleton.mp hx]
      exact halike
    | cons next items =>
      rw [if_neg (by simp), if_neg (by simp)] at heq
      obtain ⟨halike, hrest⟩ := hitem _ _ (delimited_cons (by decide) _)
        (delimited_cons (by decide) _) heq
      obtain ⟨hall, hr⟩ := ih (fun x hx => h x (by simp [hx])) (List.cons.inj hrest).2
      refine ⟨fun x hx => ?_, hr⟩
      rcases List.mem_cons.mp hx with rfl | hx
      · exact halike
      · exact hall x hx

def memberPython (m : Points × Argument) : Points :=
  quotePython m.1 ++ ofText ":" ++ dumps m.2

def memberTypescript (m : Points × Argument) : Points :=
  quoteTypescript m.1 ++ ofText ":" ++ stringify (sortJson m.2)

/-- The members of an object in two orders. -/
theorem members_sync {members : List (Points × Argument)} (hkeys : (members.map Prod.fst).Nodup)
    (hplain : ∀ m ∈ members, PlainText m.1) (h : ∀ m ∈ members, Syncs m.2)
    (python : List (Points × Argument)) :
    ∀ {typescript : List (Points × Argument)} {r r' : Points}, (∀ m ∈ python, m ∈ members) →
      (∀ m ∈ typescript, m ∈ members) →
      commaSeparated (python.map memberPython) ++ 0x7D :: r
        = commaSeparated (typescript.map memberTypescript) ++ 0x7D :: r' →
      typescript.map Prod.fst = python.map Prod.fst ∧ (∀ m ∈ python, Alike m.2) ∧ r = r' := by
  induction python with
  | nil =>
    intro typescript r r' _ _ heq
    cases typescript with
    | nil =>
      refine ⟨rfl, fun _ hm => (nomatch hm), ?_⟩
      simpa [commaSeparated, List.intercalate] using heq
    | cons t typescript =>
      rw [List.map_cons, commaSeparated_cons] at heq
      cases (List.cons.inj heq).1
  | cons p python ih =>
    intro typescript r r' hp ht heq
    cases typescript with
    | nil =>
      rw [List.map_cons, commaSeparated_cons] at heq
      cases (List.cons.inj heq).1
    | cons t typescript =>
      have hpmem := hp p (by simp)
      have htmem := ht t (by simp)
      rw [List.map_cons, List.map_cons, commaSeparated_cons, commaSeparated_cons, memberPython,
        memberTypescript, quote_plain (hplain t htmem), List.append_assoc, List.append_assoc,
        List.append_assoc, List.append_assoc] at heq
      obtain ⟨hkey, hafter⟩ := quote_injective (hplain p hpmem) (hplain t htmem) heq
      have hsame : p = t := List.inj_on_of_nodup_map hkeys hpmem htmem hkey
      subst hsame
      have hvalue := List.append_cancel_left hafter
      have hnext : ∀ {ts : List Points} {r : Points},
          Delimited (if ts = [] then 0x7D :: r else 0x2C :: (commaSeparated ts ++ 0x7D :: r)) := by
        intro ts r
        split
        · exact delimited_cons (by decide) _
        · exact delimited_cons (by decide) _
      obtain ⟨halike, hrest⟩ := h p hpmem _ _ hnext hnext hvalue
      have hmore : typescript.map Prod.fst = python.map Prod.fst ∧ (∀ m ∈ python, Alike m.2)
          ∧ r = r' := by
        cases python with
        | nil =>
          cases typescript with
          | nil =>
            refine ⟨rfl, fun _ hm => (nomatch hm), ?_⟩
            simpa using hrest
          | cons t typescript =>
            simp at hrest
        | cons p' python =>
          cases typescript with
          | nil => simp at hrest
          | cons t typescript =>
            rw [if_neg (by simp), if_neg (by simp)] at hrest
            exact ih (fun m hm => hp m (by simp [hm])) (fun m hm => ht m (by simp [hm]))
              (List.cons.inj hrest).2
      obtain ⟨horder, hall, hr⟩ := hmore
      refine ⟨by rw [List.map_cons, List.map_cons, horder], fun m hm => ?_, hr⟩
      rcases List.mem_cons.mp hm with rfl | hm
      · exact halike
      · exact hall m hm

/-- The strings and keys of an argument are plain. -/
inductive PlainStrings : Argument → Prop
  | null : PlainStrings .null
  | bool (b : Bool) : PlainStrings (.bool b)
  | int (i : SafeInt) : PlainStrings (.int i)
  | float (x : Double) : PlainStrings (.float x)
  | string {s : Points} (hs : PlainText s) : PlainStrings (.string s)
  | array {items : List Argument} (hitems : ∀ item ∈ items, PlainStrings item) :
    PlainStrings (.array items)
  | object {members : List (Points × Argument)} (hkeys : ∀ m ∈ members, PlainText m.1)
    (hvalues : ∀ m ∈ members, PlainStrings m.2) : PlainStrings (.object members)

theorem syncs_of_plain (a : Argument) : PlainStrings a → WellFormed a → Syncs a := by
  induction a using Argument.inductionOn with
  | null =>
    intro _ _ r r' _ _ heq
    exact ⟨.null, List.append_cancel_left heq⟩
  | bool b =>
    intro _ _ r r' _ _ heq
    exact ⟨.bool b, List.append_cancel_left heq⟩
  | int i =>
    intro _ _ r r' _ _ heq
    exact ⟨.int i, List.append_cancel_left heq⟩
  | float x =>
    intro _ _ r r' hr hr' heq
    obtain ⟨hx, hrest⟩ :=
      numeric_append (numeric_reprFloat x) (numeric_numberToString x) hr hr' heq
    exact ⟨.float ((reprFloat_eq_iff x).mp hx), hrest⟩
  | string s =>
    intro hplain _ r r' _ _ heq
    cases hplain with
    | string hs =>
      have hquote : quotePython s ++ r = quoteTypescript s ++ r' := heq
      rw [quote_plain hs] at hquote
      exact ⟨.string hs, List.append_cancel_left hquote⟩
  | array items ih =>
    intro hplain hwell r r' _ _ heq
    cases hplain with
    | array hitems =>
      cases hwell with
      | array hwell =>
        rw [dumps_array, stringify_array, List.append_assoc, List.append_assoc,
          List.append_assoc, List.append_assoc] at heq
        obtain ⟨hall, hrest⟩ := items_sync (fun item hitem => ih item hitem (hitems item hitem)
          (hwell item hitem)) (List.append_cancel_left heq)
        exact ⟨.array hall, hrest⟩
  | object members ih =>
    intro hplain hwell r r' _ _ heq
    cases hplain with
    | object hkeys hvalues =>
      cases hwell with
      | object hnodup hwell =>
        rw [dumps_object, stringify_object, List.append_assoc, List.append_assoc,
          List.append_assoc, List.append_assoc] at heq
        have hpython := sortPython_perm members
        have htypescript := fromEntries_perm members
        obtain ⟨horder, hall, hrest⟩ := members_sync hnodup hkeys
          (fun m hm => ih m hm (hvalues m hm) (hwell m hm)) (sortPython members)
          (fun m hm => hpython.mem_iff.mp hm) (fun m hm => htypescript.mem_iff.mp hm)
          (List.append_cancel_left heq)
        exact ⟨.object hkeys horder fun m hm => hall m (hpython.mem_iff.mpr hm), hrest⟩

/-- Printable ASCII. -/
def Printable (t : Points) : Prop := ∀ c ∈ t, c ≤ 0x7E

theorem printable_append {t u : Points} : Printable (t ++ u) ↔ Printable t ∧ Printable u := by
  unfold Printable
  constructor
  · intro h
    exact ⟨fun c hc => h c (by simp [hc]), fun c hc => h c (by simp [hc])⟩
  · intro h c hc
    rcases List.mem_append.mp hc with hc | hc
    · exact h.1 c hc
    · exact h.2 c hc

theorem printable_commaSeparated {ts : List Points} :
    Printable (commaSeparated ts) ↔ ∀ t ∈ ts, Printable t := by
  induction ts with
  | nil => simp [commaSeparated, List.intercalate, Printable]
  | cons t ts ih =>
    have hcons := commaSeparated_cons t ts []
    rw [List.append_nil] at hcons
    rw [hcons, printable_append]
    cases ts with
    | nil => simp [Printable]
    | cons u ts =>
      rw [if_neg (by simp), List.append_nil]
      have hcomma : ∀ v, Printable (0x2C :: v) ↔ Printable v := fun v => by simp [Printable]
      rw [hcomma, ih]
      exact List.forall_mem_cons.symm

theorem printable_numeric {t : Points} (h : Numeric t) : Printable t := by
  intro c hc
  have hpoint := h c hc
  unfold isNumberPoint JsonReader.isDigit at hpoint
  simp only [Bool.or_eq_true, Bool.and_eq_true, decide_eq_true_eq, beq_iff_eq] at hpoint
  omega

theorem hexPoint_le {d : Nat} (h : d < 16) : hexPoint d ≤ 0x7E := by
  unfold hexPoint
  split <;> omega

theorem printable_escapeUnit (n : Nat) : Printable (escapeUnit n) := by
  intro c hc
  simp only [escapeUnit, List.mem_cons, List.not_mem_nil, or_false] at hc
  rcases hc with rfl | rfl | rfl | rfl | rfl | rfl
  · decide
  · decide
  all_goals exact hexPoint_le (Nat.mod_lt _ (by decide))

theorem printable_shortEscape {c : Nat} {escape : Points} (h : shortEscape c = some escape) :
    Printable escape := by
  unfold shortEscape at h
  split at h
  next hc =>
    cases h
    intro d hd
    simp only [List.mem_cons, List.not_mem_nil, or_false] at hd
    omega
  next =>
    have htext : ∀ {t : Points}, (t.all fun c => decide (c ≤ 0x7E)) = true → Printable t :=
      fun h c hc => of_decide_eq_true (List.all_eq_true.mp h c hc)
    repeat' split at h
    all_goals first
      | cases h
        done
      | cases h
        exact htext (by decide)

theorem printable_quotePython (s : Points) : Printable (quotePython s) := by
  have hescape : ∀ c, Printable (escapePython c) := by
    intro c
    unfold escapePython
    cases hshort : shortEscape c with
    | some escape => exact printable_shortEscape hshort
    | none =>
      simp only
      split
      next h =>
        intro d hd
        rw [List.mem_singleton.mp hd]
        exact h.2
      next =>
        intro d hd
        obtain ⟨n, -, hn⟩ := List.mem_flatMap.mp hd
        exact printable_escapeUnit n d hn
  intro c hc
  unfold quotePython at hc
  simp only [List.mem_cons, List.mem_append, List.mem_flatMap, List.not_mem_nil, or_false] at hc
  rcases hc with rfl | ⟨d, -, hd⟩ | rfl
  · decide
  · exact hescape d c hd
  · decide

/-- Python writes ASCII without the delete character. -/
theorem printable_dumps (a : Argument) : Printable (dumps a) := by
  have htext : ∀ {t : Points}, (t.all fun c => decide (c ≤ 0x7E)) = true → Printable t :=
    fun h c hc => of_decide_eq_true (List.all_eq_true.mp h c hc)
  induction a using Argument.inductionOn with
  | null => exact htext (by decide)
  | bool b => cases b <;> exact htext (by decide)
  | int i =>
    exact printable_append.mpr ⟨printable_numeric (numeric_sign _),
      printable_numeric (numeric_decimal _)⟩
  | float x => exact printable_numeric (numeric_reprFloat x)
  | string s => exact printable_quotePython s
  | array items ih =>
    rw [dumps_array]
    refine printable_append.mpr ⟨printable_append.mpr ⟨htext (by decide), ?_⟩, htext (by decide)⟩
    refine printable_commaSeparated.mpr fun t ht => ?_
    obtain ⟨item, hitem, rfl⟩ := List.mem_map.mp ht
    exact ih item hitem
  | object members ih =>
    rw [dumps_object]
    refine printable_append.mpr ⟨printable_append.mpr ⟨htext (by decide), ?_⟩, htext (by decide)⟩
    refine printable_commaSeparated.mpr fun t ht => ?_
    obtain ⟨m, hm, rfl⟩ := List.mem_map.mp ht
    exact printable_append.mpr ⟨printable_append.mpr ⟨printable_quotePython m.1,
      htext (by decide)⟩, ih m ((sortPython_perm members).mem_iff.mp hm)⟩

/-- Joined surrogates make a character that is not plain. -/
theorem joinPairs_plain {s : Points} (h : ∀ c ∈ Unicode.joinPairs s, isPlain c = true) :
    Unicode.joinPairs s = s := by
  fun_induction Unicode.joinPairs s with
  | case1 => rfl
  | case2 => rfl
  | case3 high low rest hpair ih =>
    rcases isPlain_cases (h _ List.mem_cons_self) with hle | ⟨-, hle, -⟩
    all_goals
      unfold Unicode.joinSurrogates at hle
      omega
  | case4 high low rest hpair ih => rw [ih fun c hc => h c (by simp [hc])]

theorem plain_of_quoteTypescript {s : Points} (h : Printable (quoteTypescript s)) :
    PlainText s := by
  have hall : ∀ c ∈ Unicode.joinPairs s, isPlain c = true := by
    intro c hc
    by_contra hplain
    have hlarge : ¬ c ≤ 0x7E ∧ Unicode.isSurrogate c = false := by
      unfold isPlain at hplain
      simpa using hplain
    have hnone : shortEscape c = none := by
      unfold shortEscape
      repeat rw [if_neg (by omega)]
    have hescape : escapeTypescript c = [c] := by
      unfold escapeTypescript
      rw [hnone]
      simp only [hlarge.2, Bool.false_eq_true, or_false]
      rw [if_neg (by omega)]
    have hmem : c ∈ quoteTypescript s := by
      unfold quoteTypescript
      simp only [List.mem_cons, List.mem_append, List.mem_flatMap]
      refine .inr (.inl ⟨c, hc, ?_⟩)
      rw [hescape]
      exact List.mem_singleton_self c
    exact hlarge.1 (h c hmem)
  have hjoin := joinPairs_plain hall
  rw [hjoin] at hall
  exact ⟨hall, hjoin⟩

/-- Only plain strings are written in printable ASCII. -/
theorem plainStrings_of_printable (a : Argument) :
    Printable (stringify (sortJson a)) → PlainStrings a := by
  induction a using Argument.inductionOn with
  | null => exact fun _ => .null
  | bool b => exact fun _ => .bool b
  | int i => exact fun _ => .int i
  | float x => exact fun _ => .float x
  | string s => exact fun h => .string (plain_of_quoteTypescript h)
  | array items ih =>
    intro h
    rw [stringify_array, printable_append, printable_append, printable_commaSeparated] at h
    exact .array fun item hitem => ih item hitem (h.1.2 _ (List.mem_map.mpr ⟨item, hitem, rfl⟩))
  | object members ih =>
    intro h
    rw [stringify_object, printable_append, printable_append, printable_commaSeparated] at h
    have hmember : ∀ m ∈ members, Printable (quoteTypescript m.1)
        ∧ Printable (stringify (sortJson m.2)) := by
      intro m hm
      have htext := h.1.2 _
        (List.mem_map.mpr ⟨m, (fromEntries_perm members).mem_iff.mpr hm, rfl⟩)
      rw [printable_append, printable_append] at htext
      exact ⟨htext.1.1, htext.2⟩
    exact .object (fun m hm => plain_of_quoteTypescript (hmember m hm).1)
      fun m hm => ih m hm (hmember m hm).2

/-- Orders of the same members are equal where their keys are. -/
theorem eq_of_keys {α : Type} {members l l' : List (Points × α)}
    (hnodup : (members.map Prod.fst).Nodup) (hl : ∀ m ∈ l, m ∈ members)
    (hl' : ∀ m ∈ l', m ∈ members) (h : l.map Prod.fst = l'.map Prod.fst) : l = l' := by
  induction l generalizing l' with
  | nil =>
    cases l' with
    | nil => rfl
    | cons m l' => cases h
  | cons m l ih =>
    cases l' with
    | nil => cases h
    | cons m' l' =>
      obtain ⟨hkey, hrest⟩ := List.cons.inj h
      rw [List.inj_on_of_nodup_map hnodup (hl m (by simp)) (hl' m' (by simp)) hkey,
        ih (fun x hx => hl x (by simp [hx])) (fun x hx => hl' x (by simp [hx])) hrest]

theorem dumps_of_alike (a : Argument) :
    WellFormed a → Alike a → dumps a = stringify (sortJson a) := by
  induction a using Argument.inductionOn with
  | null => exact fun _ _ => rfl
  | bool b => exact fun _ _ => rfl
  | int i => exact fun _ _ => rfl
  | float x =>
    intro _ halike
    cases halike with
    | float hx => exact (reprFloat_eq_iff x).mpr hx
  | string s =>
    intro _ halike
    cases halike with
    | string hs => exact (quote_plain hs).symm
  | array items ih =>
    intro hwell halike
    cases hwell with
    | array hwell =>
      cases halike with
      | array hitems =>
        rw [dumps_array, stringify_array, List.map_congr_left fun item hitem =>
          ih item hitem (hwell item hitem) (hitems item hitem)]
  | object members ih =>
    intro hwell halike
    cases hwell with
    | object hnodup hwell =>
      cases halike with
      | object hkeys horder hvalues =>
        have hpython := sortPython_perm members
        have hsame : fromEntries (sortTypescript members) = sortPython members :=
          eq_of_keys hnodup (fun m hm => (fromEntries_perm members).mem_iff.mp hm)
            (fun m hm => hpython.mem_iff.mp hm) horder
        rw [dumps_object, stringify_object, hsame]
        congr 3
        refine List.map_congr_left fun m hm => ?_
        have hmem := hpython.mem_iff.mp hm
        rw [quote_plain (hkeys m hmem), ih m hmem (hwell m hmem) (hvalues m hmem)]

/-! ## Top theorem -/

/-- The SDKs write the same bytes exactly for the arguments that are alike in both languages. -/
theorem payloadPython_eq_iff (arguments : Argument) (h : WellFormed arguments) :
    payloadPython arguments = encodePayload arguments ↔ Alike arguments := by
  have hascii : ∀ c ∈ dumps arguments, c < 0x80 := fun c hc =>
    Nat.lt_of_le_of_lt (printable_dumps arguments c hc) (by decide)
  constructor
  · intro hpayload
    have htext : dumps arguments = stringify (sortJson arguments) :=
      Unicode.encodeUtf8_injective_ascii hascii hpayload
    have hprintable := printable_dumps arguments
    rw [htext] at hprintable
    have hsync := syncs_of_plain arguments (plainStrings_of_printable arguments hprintable) h
    have hnil : Delimited [] := fun c hc => (nomatch hc)
    exact (hsync [] [] hnil hnil (by rw [htext])).1
  · intro halike
    unfold payloadPython encodePayload
    rw [dumps_of_alike arguments h halike]

/-- `{"query": "fixture"}` -/
def fixture : Argument := .object [(ofText "query", .string (ofText "fixture"))]

theorem payloadPython_eq_iff_fixture :
    payloadPython fixture = encodePayload fixture ↔ Alike fixture :=
  payloadPython_eq_iff fixture (.object (by decide) fun m hm => by
    rw [List.mem_singleton.mp hm]
    exact .string _)

/-- A letter outside ASCII is escaped by one SDK and written by the other. -/
theorem accented_query_differs :
    payloadPython (.object [(ofText "query", .string [0xE9])])
      ≠ encodePayload (.object [(ofText "query", .string [0xE9])]) := by
  decide +kernel

end Kaleidoscope.Sdk
