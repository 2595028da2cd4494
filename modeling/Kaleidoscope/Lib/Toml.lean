import Kaleidoscope.Lib.JsonReader

/-!
# Reading TOML

The part of TOML 1.0 in which every expression stands on one line: comments, table headers, and
pairs of a key and a basic string, an integer in decimal, a boolean, an array or an inline table.
A document outside this part is not read.

    read_unlines      a document is read line by line
    readBasic_quoted  a string is read back when each of its characters was written readably,
    readBasic_refused and otherwise it is refused
-/

namespace Toml

open Unicode (Points)
open JsonReader (hexDigit hexUnit isDigit ofText stripWord)

/-! ## Values -/

inductive Value where
  | string (points : Points)
  | integer (i : Int)
  | boolean (b : Bool)
  | array (items : List Value)
  | table (members : List (Points × Value))

/-! ## Strings -/

/-- A character that stands for itself in a comment: all but surrogates and the control characters
other than the tab. -/
def isRaw (c : Nat) : Bool :=
  c == 0x09 || (0x20 ≤ c && c ≤ 0x7E) || (0x80 ≤ c && Unicode.isScalar c)

/-- The character after a backslash that is neither `u` nor `U`. -/
def simpleEscape (c : Nat) : Option Nat :=
  if c = 0x22 ∨ c = 0x5C then some c
  else if c = 0x62 then some 0x08
  else if c = 0x74 then some 0x09
  else if c = 0x6E then some 0x0A
  else if c = 0x66 then some 0x0C
  else if c = 0x72 then some 0x0D
  else none

/-- A basic string after its opening quote; `read` holds its characters so far, the last first. -/
def readBasic (read : Points) : Points → Option (Points × Points)
  | [] => none
  | 0x22 :: rest => some (read.reverse, rest)
  | 0x5C :: 0x75 :: a :: b :: c :: d :: rest =>
    match hexUnit a b c d with
    | some n => if Unicode.isScalar n then readBasic (n :: read) rest else none
    | none => none
  | 0x5C :: 0x55 :: a :: b :: c :: d :: e :: f :: g :: h :: rest =>
    match hexUnit a b c d, hexUnit e f g h with
    | some high, some low =>
      if Unicode.isScalar (high * 65536 + low) then readBasic ((high * 65536 + low) :: read) rest
      else none
    | _, _ => none
  | 0x5C :: e :: rest =>
    match simpleEscape e with
    | some c => readBasic (c :: read) rest
    | none => none
  | c :: rest => if isRaw c = true ∧ c ≠ 0x5C then readBasic (c :: read) rest else none

/-! ## Keys and values -/

def isBlank (c : Nat) : Bool := c == 0x20 || c == 0x09

def skipBlank (t : Points) : Points := t.dropWhile isBlank

/-- A character of a key that is not quoted. -/
def isBare (c : Nat) : Bool :=
  isDigit c || (0x41 ≤ c && c ≤ 0x5A) || (0x61 ≤ c && c ≤ 0x7A) || c == 0x2D || c == 0x5F

/-- A key at the start of a text. -/
def readKey : Points → Option (Points × Points)
  | 0x22 :: rest => readBasic [] rest
  | t => if t.takeWhile isBare = [] then none else some (t.takeWhile isBare, t.dropWhile isBare)

/-- A dotted key at the start of a text. -/
def readPath : (fuel : Nat) → Points → Option (List Points × Points)
  | 0, _ => none
  | fuel + 1, t =>
    match readKey t with
    | none => none
    | some (key, rest) =>
      match skipBlank rest with
      | 0x2E :: rest => (readPath fuel (skipBlank rest)).map fun r => (key :: r.1, r.2)
      | rest => some ([key], rest)

/-- The digits of an integer: a zero stands alone. -/
def readDigits (t : Points) : Option (Nat × Points) :=
  let (digits, rest) := JsonReader.digits t
  if digits = [] ∨ (digits.head? = some 0 ∧ digits.length ≠ 1) then none
  else some (JsonReader.Literal.ofDigits digits, rest)

def readInteger : Points → Option (Value × Points)
  | 0x2B :: rest => (readDigits rest).map fun r => (.integer r.1, r.2)
  | 0x2D :: rest => (readDigits rest).map fun r => (.integer (-r.1), r.2)
  | t => (readDigits t).map fun r => (.integer r.1, r.2)

/-- A word or a number at the start of a text. -/
def readScalar (t : Points) : Option (Value × Points) :=
  match stripWord (ofText "true") t, stripWord (ofText "false") t with
  | some rest, _ => some (.boolean true, rest)
  | _, some rest => some (.boolean false, rest)
  | none, none => readInteger t

mutual

/-- A value at the start of a text. -/
def readValue : (fuel : Nat) → Points → Option (Value × Points)
  | 0, _ => none
  | fuel + 1, t =>
    match t with
    | 0x22 :: rest => (readBasic [] rest).map fun r => (.string r.1, r.2)
    | 0x5B :: rest =>
      match skipBlank rest with
      | 0x5D :: rest => some (.array [], rest)
      | rest => readItems fuel [] rest
    | 0x7B :: rest =>
      match skipBlank rest with
      | 0x7D :: rest => some (.table [], rest)
      | rest => readMembers fuel [] rest
    | t => readScalar t

/-- The items of an array, from the first character of one of them. -/
def readItems : (fuel : Nat) → List Value → Points → Option (Value × Points)
  | 0, _, _ => none
  | fuel + 1, items, t =>
    match readValue fuel t with
    | none => none
    | some (item, rest) =>
      match skipBlank rest with
      | 0x2C :: rest =>
        match skipBlank rest with
        | 0x5D :: rest => some (.array (item :: items).reverse, rest)
        | rest => readItems fuel (item :: items) rest
      | 0x5D :: rest => some (.array (item :: items).reverse, rest)
      | _ => none

/-- The members of an inline table, from the first character of a key. -/
def readMembers : (fuel : Nat) → List (Points × Value) → Points → Option (Value × Points)
  | 0, _, _ => none
  | fuel + 1, members, t =>
    match readKey t with
    | none => none
    | some (key, rest) =>
      if members.any fun m => m.1 == key then none
      else match skipBlank rest with
        | 0x3D :: rest =>
          match readValue fuel (skipBlank rest) with
          | none => none
          | some (value, rest) =>
            match skipBlank rest with
            | 0x2C :: rest => readMembers fuel ((key, value) :: members) (skipBlank rest)
            | 0x7D :: rest => some (.table ((key, value) :: members).reverse, rest)
            | _ => none
        | _ => none

end

/-! ## Lines -/

inductive Line where
  | blank
  | header (path : List Points)
  | pair (key : Points) (value : Value)

/-- What may follow an expression on its line. -/
def endsLine (t : Points) : Bool :=
  match skipBlank t with
  | [] => true
  | c :: rest => c == 0x23 && rest.all isRaw

def readPair (t : Points) : Option Line :=
  match readKey t with
  | none => none
  | some (key, rest) =>
    match skipBlank rest with
    | 0x3D :: rest =>
      match readValue (rest.length + 1) (skipBlank rest) with
      | some (value, rest) => if endsLine rest then some (.pair key value) else none
      | none => none
    | _ => none

def readHeader (t : Points) : Option Line :=
  match readPath (t.length + 1) (skipBlank t) with
  | none => none
  | some (path, rest) =>
    match skipBlank rest with
    | 0x5D :: rest => if endsLine rest then some (.header path) else none
    | _ => none

def readLine (t : Points) : Option Line :=
  if endsLine t then some .blank
  else match skipBlank t with
    | 0x5B :: rest => readHeader rest
    | t => readPair t

/-- The lines of a text; a carriage return before the end of a line belongs to it. -/
def lines : Points → List Points
  | [] => [[]]
  | 0x0A :: rest => [] :: lines rest
  | 0x0D :: 0x0A :: rest => [] :: lines rest
  | c :: rest => (lines rest).modifyHead (c :: ·)

/-! ## Documents -/

/-- The tables that have a header, and the value at the end of each path. -/
structure Document where
  tables : List (List Points)
  pairs : List (List Points × Value)

namespace Document

def empty : Document := ⟨[], []⟩

def value? (document : Document) (path : List Points) : Option Value :=
  (document.pairs.find? fun p => p.1 == path).map (·.2)

/-- A table has one header, and lies inside no value. -/
def addHeader (document : Document) (path : List Points) : Option Document :=
  if document.tables.contains path ∨ (document.pairs.any fun p => p.1.isPrefixOf path) then none
  else some { document with tables := document.tables ++ [path] }

/-- A path has one value, and no table there or below. -/
def addPair (document : Document) (path : List Points) (value : Value) : Option Document :=
  if (document.pairs.any fun p => p.1 == path) ∨ (document.tables.any fun t => path.isPrefixOf t)
  then none
  else some { document with pairs := document.pairs ++ [(path, value)] }

end Document

/-- The document of some lines, from within the table `current`. -/
def assemble (document : Document) (current : List Points) : List Line → Option Document
  | [] => some document
  | .blank :: rest => assemble document current rest
  | .header path :: rest =>
    match document.addHeader path with
    | some document => assemble document path rest
    | none => none
  | .pair key value :: rest =>
    match document.addPair (current ++ [key]) value with
    | some document => assemble document current rest
    | none => none

def readLines (ls : List Points) : Option (List Line) := ls.mapM readLine

/-- The text of some lines, each ended by a line feed. -/
def unlines (ls : List Points) : Points := ls.flatMap (· ++ [0x0A])

/-- The document of a text. -/
def read (t : Points) : Option Document :=
  match readLines (lines t) with
  | some ls => assemble .empty [] ls
  | none => none

/-! ## Strings that were written -/

/-- How a writer puts each character into a basic string: the good ones can be read back, the
others cannot be read at all. -/
structure Escapes (escape : Nat → Points) (good : Nat → Bool) : Prop where
  reads : ∀ {c : Nat}, good c = true → ∀ read t : Points,
    readBasic read (escape c ++ t) = readBasic (c :: read) t
  refuses : ∀ {c : Nat}, good c = false → c ≤ 0x10FFFF → ∀ read t : Points,
    readBasic read (escape c ++ t) = none

def quoted (escape : Nat → Points) (s : Points) : Points :=
  0x22 :: (s.flatMap escape ++ [0x22])

section

attribute [local simp] readBasic

theorem readBasic_raw {c : Nat} (hraw : isRaw c = true) (hquote : c ≠ 0x22) (hslash : c ≠ 0x5C)
    (read t : Points) : readBasic read (c :: t) = readBasic (c :: read) t := by
  rw [readBasic.eq_def]
  split
  next heq => cases heq
  next heq => exact absurd (List.cons.inj heq).1 hquote
  next heq => exact absurd (List.cons.inj heq).1 hslash
  next heq => exact absurd (List.cons.inj heq).1 hslash
  next heq => exact absurd (List.cons.inj heq).1 hslash
  next heq =>
    obtain ⟨rfl, rfl⟩ := List.cons.inj heq
    rw [if_pos ⟨hraw, hslash⟩]

theorem readBasic_control {c : Nat} (hraw : isRaw c = false) (hquote : c ≠ 0x22)
    (hslash : c ≠ 0x5C) (read t : Points) : readBasic read (c :: t) = none := by
  rw [readBasic.eq_def]
  split
  next heq => cases heq
  next heq => exact absurd (List.cons.inj heq).1 hquote
  next heq => exact absurd (List.cons.inj heq).1 hslash
  next heq => exact absurd (List.cons.inj heq).1 hslash
  next heq => exact absurd (List.cons.inj heq).1 hslash
  next heq =>
    obtain ⟨rfl, rfl⟩ := List.cons.inj heq
    rw [if_neg (by simp [hraw])]

theorem readBasic_simple {e c : Nat} (h : simpleEscape e = some c) (read t : Points) :
    readBasic read (0x5C :: e :: t) = readBasic (c :: read) t := by
  have hunit : e ≠ 0x75 ∧ e ≠ 0x55 := by
    constructor
    · rintro rfl
      cases h
    · rintro rfl
      cases h
  rw [readBasic.eq_def]
  split
  next heq => cases heq
  next heq => exact absurd (List.cons.inj heq).1 (by decide)
  next heq => exact absurd (List.cons.inj (List.cons.inj heq).2).1 hunit.1
  next heq => exact absurd (List.cons.inj (List.cons.inj heq).2).1 hunit.2
  next heq =>
    obtain ⟨rfl, rfl⟩ := List.cons.inj (List.cons.inj heq).2
    rw [h]
  next hne heq =>
    obtain ⟨rfl, rfl⟩ := List.cons.inj heq
    exact absurd rfl (hne e t rfl)

theorem readBasic_unit {a b c d n : Nat} (h : hexUnit a b c d = some n) (read t : Points) :
    readBasic read (0x5C :: 0x75 :: a :: b :: c :: d :: t)
      = if Unicode.isScalar n then readBasic (n :: read) t else none := by
  simp [h]

end

section

variable {escape : Nat → Points} {good : Nat → Bool} (hescape : Escapes escape good)

include hescape

theorem readBasic_flatMap {s : Points} (hs : ∀ c ∈ s, good c = true) (read t : Points) :
    readBasic read (s.flatMap escape ++ 0x22 :: t) = some (read.reverse ++ s, t) := by
  induction s generalizing read with
  | nil =>
    rw [List.flatMap_nil, List.nil_append, readBasic, List.append_nil]
  | cons c s ih =>
    rw [List.flatMap_cons, List.append_assoc, hescape.reads (hs c (by simp)),
      ih fun c hc => hs c (by simp [hc])]
    simp

theorem readBasic_quoted {s : Points} (hs : ∀ c ∈ s, good c = true) (t : Points) :
    readBasic [] (s.flatMap escape ++ 0x22 :: t) = some (s, t) :=
  readBasic_flatMap hescape hs [] t

theorem readBasic_refused {s : Points} (hs : ∀ c ∈ s, c ≤ 0x10FFFF)
    (hbad : ∃ c ∈ s, good c = false) (read t : Points) :
    readBasic read (s.flatMap escape ++ t) = none := by
  induction s generalizing read with
  | nil =>
    obtain ⟨c, hc, -⟩ := hbad
    cases hc
  | cons c s ih =>
    rw [List.flatMap_cons, List.append_assoc]
    by_cases hgood : good c = true
    · rw [hescape.reads hgood]
      apply ih fun c hc => hs c (by simp [hc])
      obtain ⟨b, hb, hbad⟩ := hbad
      rcases List.mem_cons.mp hb with rfl | hb
      · rw [hgood] at hbad
        cases hbad
      · exact ⟨b, hb, hbad⟩
    · exact hescape.refuses (by simpa using hgood) (hs c (by simp)) read _

theorem readValue_quoted {s : Points} (hs : ∀ c ∈ s, good c = true) (fuel : Nat) (t : Points) :
    readValue (fuel + 1) (quoted escape s ++ t) = some (.string s, t) := by
  unfold quoted
  rw [List.cons_append, List.append_assoc, readValue, List.singleton_append,
    readBasic_quoted hescape hs]
  rfl

theorem readValue_refused {s : Points} (hs : ∀ c ∈ s, c ≤ 0x10FFFF)
    (hbad : ∃ c ∈ s, good c = false) (fuel : Nat) (t : Points) :
    readValue (fuel + 1) (quoted escape s ++ t) = none := by
  unfold quoted
  rw [List.cons_append, List.append_assoc, readValue, readBasic_refused hescape hs hbad]
  rfl

/-- The items of an array, as they are written one after the other. -/
def commaSeparated (escape : Nat → Points) (items : List Points) : Points :=
  (ofText ", ").intercalate (items.map (quoted escape))

omit hescape in
theorem commaSeparated_cons (s s' : Points) (items : List Points) :
    commaSeparated escape (s :: s' :: items)
      = quoted escape s ++ (0x2C :: 0x20 :: commaSeparated escape (s' :: items)) := by
  simp only [commaSeparated, List.map_cons, List.intercalate, List.intersperse_cons_cons,
    List.flatten_cons]
  rfl

omit hescape in
theorem commaSeparated_singleton (s : Points) :
    commaSeparated escape [s] = quoted escape s := by
  simp [commaSeparated, List.intercalate]

omit hescape in
theorem commaSeparated_quote (s : Points) (items : List Points) :
    ∃ rest, commaSeparated escape (s :: items) = 0x22 :: rest := by
  cases items with
  | nil => exact ⟨_, commaSeparated_singleton s⟩
  | cons s' items => exact ⟨_, commaSeparated_cons s s' items⟩

omit hescape in
theorem commaSeparated_length (s : Points) (items : List Points) :
    items.length ≤ (commaSeparated escape (s :: items)).length := by
  induction items generalizing s with
  | nil => exact Nat.zero_le _
  | cons s' items ih =>
    rw [commaSeparated_cons]
    have := ih s'
    simp only [List.length_cons, List.length_append]
    omega

theorem readItems_quoted {s : Points} {items : List Points}
    (h : ∀ i ∈ s :: items, ∀ c ∈ i, good c = true) {fuel : Nat} (hfuel : items.length + 2 ≤ fuel)
    (read : List Value) (t : Points) :
    readItems fuel read (commaSeparated escape (s :: items) ++ 0x5D :: t)
      = some (.array (read.reverse ++ (s :: items).map .string), t) := by
  obtain ⟨fuel, rfl⟩ : ∃ n, fuel = n + 2 := ⟨fuel - 2, by omega⟩
  induction items generalizing s fuel read with
  | nil =>
    rw [commaSeparated_singleton, readItems, readValue_quoted hescape (h s (by simp))]
    simp [skipBlank, isBlank]
  | cons s' items ih =>
    rw [List.length_cons] at hfuel
    obtain ⟨fuel, rfl⟩ : ∃ n, fuel = n + 1 := ⟨fuel - 1, by omega⟩
    have hnext := ih (fun i hi => h i (List.mem_cons_of_mem s hi)) (.string s :: read) fuel
      (by omega)
    obtain ⟨rest, hrest⟩ := @commaSeparated_quote escape s' items
    rw [hrest, List.cons_append] at hnext
    rw [commaSeparated_cons, hrest, List.append_assoc, readItems,
      readValue_quoted hescape (h s (by simp))]
    simpa [skipBlank, isBlank] using hnext

/-- An array of strings is read back. -/
theorem readValue_array {s : Points} {items : List Points}
    (h : ∀ i ∈ s :: items, ∀ c ∈ i, good c = true) {fuel : Nat} (hfuel : items.length + 3 ≤ fuel)
    (t : Points) :
    readValue fuel (0x5B :: (commaSeparated escape (s :: items) ++ 0x5D :: t))
      = some (.array ((s :: items).map .string), t) := by
  obtain ⟨fuel, rfl⟩ : ∃ n, fuel = n + 1 := ⟨fuel - 1, by omega⟩
  have hitems := readItems_quoted hescape h (show items.length + 2 ≤ fuel by omega) [] t
  obtain ⟨rest, hrest⟩ := @commaSeparated_quote escape s items
  rw [hrest, List.cons_append] at hitems ⊢
  rw [readValue]
  simpa [skipBlank, isBlank] using hitems

end

/-! ## Lines that were written -/

/-- A text without an end of line. -/
def OneLine (l : Points) : Prop := ∀ c ∈ l, c ≠ 0x0A ∧ c ≠ 0x0D

theorem lines_line {l : Points} (h : OneLine l) (t : Points) :
    lines (l ++ 0x0A :: t) = l :: lines t := by
  induction l with
  | nil => rw [List.nil_append, lines]
  | cons c l ih =>
    obtain ⟨hfeed, hreturn⟩ := h c (by simp)
    rw [List.cons_append, lines.eq_def]
    split
    next heq => cases heq
    next heq => exact absurd (List.cons.inj heq).1 hfeed
    next heq => exact absurd (List.cons.inj heq).1 hreturn
    next heq =>
      obtain ⟨rfl, rfl⟩ := List.cons.inj heq
      rw [ih fun c hc => h c (by simp [hc])]
      rfl

theorem lines_unlines {ls : List Points} (h : ∀ l ∈ ls, OneLine l) :
    lines (unlines ls) = ls ++ [[]] := by
  induction ls with
  | nil => rfl
  | cons l ls ih =>
    have hcons : unlines (l :: ls) = l ++ 0x0A :: unlines ls := by simp [unlines]
    rw [hcons, lines_line (h l (by simp)), ih fun l hl => h l (by simp [hl]), List.cons_append]

theorem assemble_blank (ls : List Line) (document : Document) (current : List Points) :
    assemble document current (ls ++ [.blank]) = assemble document current ls := by
  induction ls generalizing document current with
  | nil => rfl
  | cons l ls ih =>
    cases l with
    | blank => exact ih document current
    | header path =>
      simp only [List.cons_append, assemble]
      cases document.addHeader path with
      | none => rfl
      | some document => exact ih document path
    | pair key value =>
      simp only [List.cons_append, assemble]
      cases document.addPair (current ++ [key]) value with
      | none => rfl
      | some document => exact ih document current

theorem readLines_eq {ls : List Points} {parsed : List Line}
    (h : List.Forall₂ (fun l line => readLine l = some line) ls parsed) :
    readLines ls = some parsed := by
  unfold readLines
  induction h with
  | nil => rfl
  | cons hline _ ih =>
    rw [List.mapM_cons, hline, ih]
    rfl

theorem readLines_none {ls : List Points} {l : Points} (hl : l ∈ ls) (hline : readLine l = none) :
    readLines ls = none := by
  unfold readLines
  induction ls with
  | nil => cases hl
  | cons l' ls ih =>
    rw [List.mapM_cons]
    rcases List.mem_cons.mp hl with rfl | hl
    · rw [hline]
      rfl
    · rw [ih hl]
      cases readLine l' with
      | none => rfl
      | some line => rfl

/-- A document is read line by line. -/
theorem read_unlines {ls : List Points} (h : ∀ l ∈ ls, OneLine l) :
    read (unlines ls) = (readLines ls).bind (assemble .empty []) := by
  unfold read
  rw [lines_unlines h]
  unfold readLines
  rw [List.mapM_append]
  cases hls : ls.mapM readLine with
  | none => rfl
  | some read =>
    show assemble .empty [] (read ++ [.blank]) = assemble .empty [] read
    exact assemble_blank read .empty []

theorem readLine_blank {t : Points} (h : endsLine t = true) : readLine t = some .blank := if_pos h

theorem readLine_header {t : Points} (ht : skipBlank t = t) {path : List Points}
    (hpath : readPath (t.length + 1) t = some (path, [0x5D])) :
    readLine (0x5B :: t) = some (.header path) := by
  have hskip : skipBlank (0x5B :: t) = 0x5B :: t := List.dropWhile_cons_of_neg (by decide)
  unfold readLine endsLine
  rw [hskip]
  simp only [show ((0x5B : Nat) == 0x23) = false from rfl, Bool.false_and, Bool.false_eq_true,
    if_false]
  unfold readHeader
  rw [ht, hpath]
  rfl

theorem isBare_eq {c : Nat} (h : isBare c = true) :
    isBlank c = false ∧ c ≠ 0x23 ∧ c ≠ 0x5B ∧ c ≠ 0x22 := by
  unfold isBare isDigit at h
  unfold isBlank
  simp only [Bool.or_eq_true, Bool.and_eq_true, decide_eq_true_eq, beq_iff_eq] at h
  simp only [Bool.or_eq_false_iff, beq_eq_false_iff_ne]
  omega

theorem readKey_bare {key : Points} (hkey : key ≠ []) (hbare : ∀ c ∈ key, isBare c = true)
    {c : Nat} (hc : isBare c = false) (t : Points) :
    readKey (key ++ c :: t) = some (key, c :: t) := by
  have htake : (key ++ c :: t).takeWhile isBare = key := by
    rw [List.takeWhile_append_of_pos hbare, List.takeWhile_cons_of_neg (by simp [hc]),
      List.append_nil]
  have hdrop : (key ++ c :: t).dropWhile isBare = c :: t := by
    rw [List.dropWhile_append_of_pos hbare, List.dropWhile_cons_of_neg (by simp [hc])]
  obtain ⟨first, rest, rfl⟩ := List.exists_cons_of_ne_nil hkey
  rw [List.cons_append] at htake hdrop ⊢
  rw [readKey.eq_def]
  split
  next heq => exact absurd (List.cons.inj heq).1 (isBare_eq (hbare first (by simp))).2.2.2
  next => rw [htake, hdrop, if_neg hkey]

/-- A line with a key that needs no quotes is read as its value is. -/
theorem readLine_pair {key : Points} (hkey : key ≠ []) (hbare : ∀ c ∈ key, isBare c = true)
    {t : Points} (ht : skipBlank t = t) :
    readLine (key ++ ofText " = " ++ t)
      = match readValue (t.length + 2) t with
        | some (value, rest) => if endsLine rest then some (.pair key value) else none
        | none => none := by
  have htext : key ++ ofText " = " ++ t = key ++ 0x20 :: 0x3D :: 0x20 :: t := by
    rw [List.append_assoc]
    rfl
  have hpair : readPair (key ++ 0x20 :: 0x3D :: 0x20 :: t)
      = match readValue (t.length + 2) t with
        | some (value, rest) => if endsLine rest then some (.pair key value) else none
        | none => none := by
    have hspace : skipBlank (0x20 :: t) = t := by
      unfold skipBlank at ht ⊢
      rw [List.dropWhile_cons_of_pos (by decide), ht]
    have hequals : skipBlank (0x20 :: 0x3D :: 0x20 :: t) = 0x3D :: 0x20 :: t := by
      unfold skipBlank
      rw [List.dropWhile_cons_of_pos (by decide), List.dropWhile_cons_of_neg (by decide)]
    unfold readPair
    rw [readKey_bare hkey hbare (by decide)]
    simp only [hequals, hspace, List.length_cons]
  obtain ⟨first, rest, rfl⟩ := List.exists_cons_of_ne_nil hkey
  obtain ⟨hblank, hhash, hbracket, -⟩ := isBare_eq (hbare first (by simp))
  rw [htext, ← hpair, List.cons_append]
  have hskip : skipBlank (first :: (rest ++ 0x20 :: 0x3D :: 0x20 :: t))
      = first :: (rest ++ 0x20 :: 0x3D :: 0x20 :: t) :=
    List.dropWhile_cons_of_neg (by simp [hblank])
  unfold readLine endsLine
  rw [hskip]
  simp only [beq_eq_false_iff_ne.mpr hhash, Bool.false_and, Bool.false_eq_true, if_false]
  split
  next heq => exact absurd (List.cons.inj heq).1 hbracket
  next => rfl

theorem readLine_value {key : Points} (hkey : key ≠ []) (hbare : ∀ c ∈ key, isBare c = true)
    {t : Points} (ht : skipBlank t = t) {value : Value}
    (hvalue : readValue (t.length + 2) t = some (value, [])) :
    readLine (key ++ ofText " = " ++ t) = some (.pair key value) := by
  rw [readLine_pair hkey hbare ht, hvalue]
  rfl

theorem readLine_refused {key : Points} (hkey : key ≠ []) (hbare : ∀ c ∈ key, isBare c = true)
    {t : Points} (ht : skipBlank t = t) (hvalue : readValue (t.length + 2) t = none) :
    readLine (key ++ ofText " = " ++ t) = none := by
  rw [readLine_pair hkey hbare ht, hvalue]

end Toml
