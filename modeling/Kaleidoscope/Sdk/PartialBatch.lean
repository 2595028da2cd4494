import Kaleidoscope.Lib.Regex
import Kaleidoscope.Sdk.Uuid
import Kaleidoscope.Sdk.Native
import Kaleidoscope.Lib.Prog

/-!
# Batches written in part

The engine answers a batch that it wrote in part with `Not written | F of N items: item K
(items[I]), ... . `.  Both SDKs read the figures with patterns; Python counts with integers and
takes the digits of any script, TypeScript counts with doubles.

    figures_iff          the lines that a dialect reads figures from
    partial_batch_iff    for which texts both SDKs make the same, consistent report
-/

namespace Kaleidoscope.Sdk

open Unicode (Points)
open JsonReader (ofText JsonNumber Rejection Literal nearestDouble)
open Regex (Piece)

/-! ## Algorithm -/

/-- `PartialBatch` of both SDKs. -/
structure PartialBatch (ν : Type) where
  notWritten : List ν
  total : ν
  stored : ν
  deriving DecidableEq

/-- What the patterns read from a line: two numbers, and the text that names the items. -/
structure Figures where
  failed : Points
  total : Points
  items : Points

section

variable (digit dot : Nat → Bool)

/-- `Not written \| (\d+) of (\d+) items: (.*?)\. ` -/
def notWritten : List (Piece Nat) :=
  [.word (ofText "Not written | "), .many digit 1 none true true, .word (ofText " of "),
    .many digit 1 none true true, .word (ofText " items: "), .many dot 0 none false true,
    .word (ofText ". ")]

/-- `\(items\[(\d+)\]\)` -/
def itemIndex : List (Piece Nat) :=
  [.word (ofText "(items["), .many digit 1 none true true, .word (ofText "])")]

def figures (line : Points) : Option Figures :=
  match Regex.search (.start :: notWritten digit dot) 0 line with
  | some ([failed, total, items], _) => some ⟨failed, total, items⟩
  | _ => none

/-- The digits of the indexes, in order. -/
def marks (items : Points) : List Points :=
  (Regex.findAll (itemIndex digit) items).map fun groups => groups.headD []

end

/-- The text before the first line feed. -/
def firstLine (text : Points) : Points := text.takeWhile (· != 0x0A)

/-- `\d` of Python. -/
def isDecimal (table : CharacterTable) (c : Nat) : Bool :=
  JsonReader.isDigit c || (0x80 ≤ c && (table.decimal c).isSome)

/-- `.` of Python. -/
def dotPython (c : Nat) : Bool := c != 0x0A

/-- `.` of JavaScript: the units of a surrogate pair are not among the ends of lines, so that it
takes any other code point, as one unit or as two. -/
def dotTypescript (c : Nat) : Bool := c != 0x0A && c != 0x0D && c != 0x2028 && c != 0x2029

def figuresPython (table : CharacterTable) (text : Points) : Option Figures :=
  figures (isDecimal table) dotPython (firstLine text)

def figuresTypescript (text : Points) : Option Figures :=
  figures JsonReader.isDigit dotTypescript (firstLine text)

def decimalValue (table : CharacterTable) (c : Nat) : Nat :=
  if JsonReader.isDigit c then c - 0x30 else (table.decimal c).getD 0

/-- The number that digits of any script stand for. -/
def numeral (table : CharacterTable) (digits : Points) : Nat :=
  Literal.ofDigits (digits.map (decimalValue table))

/-- `int(digits)`, a `ValueError` where there are too many of them. -/
def intOf (table : CharacterTable) (limits : PythonLimits) (digits : Points) :
    Except Rejection Nat :=
  if 0 < limits.intDigits ∧ limits.intDigits < digits.length then .error .tooLong
  else .ok (numeral table digits)

/-- `partial_batch` -/
def partialBatchPython (table : CharacterTable) (limits : PythonLimits) (text : Points) :
    Except Rejection (Option (PartialBatch Nat)) :=
  match figuresPython table text with
  | none => .ok none
  | some figures => do
    let failed ← intOf table limits figures.failed
    let total ← intOf table limits figures.total
    let indexes ← (marks (isDecimal table) figures.items).mapM (intOf table limits)
    return if ¬(0 < failed ∧ failed < total) ∨ indexes.length ≠ failed then none
      else some ⟨indexes, total, total - failed⟩

/-- `<` of doubles -/
def doubleLess : JsonNumber → JsonNumber → Bool
  | .finite a, .finite b => a < b
  | .finite _, .infinite negative => !negative
  | .infinite negative, .finite _ => negative
  | .infinite negative, .infinite other => negative && !other
  | _, _ => false

/-- `-` of doubles -/
def doubleMinus : JsonNumber → JsonNumber → JsonNumber
  | .finite a, .finite b => nearestDouble (a - b)
  | .finite _, .infinite negative => .infinite !negative
  | .infinite negative, .finite _ => .infinite negative
  | .infinite negative, .infinite other => if negative = other then .nan else .infinite negative
  | _, _ => .nan

/-- `Number(digits)` -/
def numberOf (digits : Points) : JsonNumber := nearestDouble (Literal.ofDigits (digits.map (· - 0x30)))

/-- `partialBatch` -/
def partialBatchTypescript (text : Points) : Option (PartialBatch JsonNumber) :=
  match figuresTypescript text with
  | none => none
  | some figures =>
    let failed := numberOf figures.failed
    let total := numberOf figures.total
    let notWritten := (marks JsonReader.isDigit figures.items).map numberOf
    if ¬(doubleLess (.finite 0) failed ∧ doubleLess failed total)
        ∨ .finite notWritten.length ≠ failed then none
    else some ⟨notWritten, total, doubleMinus total failed⟩

/-! ## Statement -/

/-- A report of Python as one of TypeScript. -/
def PartialBatch.numbers (report : PartialBatch Nat) : PartialBatch JsonNumber where
  notWritten := report.notWritten.map fun n : Nat => .finite n
  total := .finite report.total
  stored := .finite report.stored

/-- What a report of `failed` items of `total` says. -/
structure ConsistentReport (failed total : Nat) (report : PartialBatch Nat) : Prop where
  distinct : report.notWritten.Nodup
  inside : ∀ i ∈ report.notWritten, i < report.total
  count : report.notWritten.length = failed
  size : report.total = total
  stored : report.stored = total - failed
  some : 0 < report.stored
  part : report.stored < report.total

/-- Both SDKs make the same of the text: no report, or one that says what the text does. -/
def Reported (table : CharacterTable) (limits : PythonLimits) (text : Points) : Prop :=
  ∃ report, partialBatchPython table limits text = .ok report
    ∧ partialBatchTypescript text = report.map PartialBatch.numbers
    ∧ ∀ r ∈ report, ∃ figures, figuresPython table text = some figures
      ∧ ConsistentReport (numeral table figures.failed) (numeral table figures.total) r

namespace Figures

variable (table : CharacterTable) (limits : PythonLimits) (f : Figures)

/-- Python converts a numeral of this length. -/
def Converts (digits : Points) : Prop :=
  ¬(0 < limits.intDigits ∧ limits.intDigits < digits.length)

/-- A number that a double holds. -/
def Exact (n : Nat) : Prop := nearestDouble n = .finite n

/-- Some of the items, but not all, are not written, and each of them is named. -/
def Fits : Prop :=
  0 < numeral table f.failed ∧ numeral table f.failed < numeral table f.total
    ∧ (marks (isDecimal table) f.items).length = numeral table f.failed

/-- The same, as doubles count. -/
def FitsDouble : Prop :=
  doubleLess (.finite 0) (numberOf f.failed) = true
    ∧ doubleLess (numberOf f.failed) (numberOf f.total) = true
    ∧ .finite (marks JsonReader.isDigit f.items).length = numberOf f.failed

/-- Every numeral is one that Python converts. -/
structure Short : Prop where
  failed : Converts limits f.failed
  total : Converts limits f.total
  marks : ∀ mark ∈ marks (isDecimal table) f.items, Converts limits mark

/-- ASCII digits, no end of a line among the items, numbers that doubles hold, and indexes that are
distinct and less than the total. -/
structure Clean : Prop where
  failedDigits : ∀ c ∈ f.failed, JsonReader.isDigit c = true
  totalDigits : ∀ c ∈ f.total, JsonReader.isDigit c = true
  line : ∀ c ∈ f.items, dotTypescript c = true
  markDigits : ∀ mark ∈ Sdk.marks (isDecimal table) f.items, ∀ c ∈ mark, JsonReader.isDigit c = true
  failedExact : Exact (numeral table f.failed)
  totalExact : Exact (numeral table f.total)
  storedExact : Exact (numeral table f.total - numeral table f.failed)
  markExact : ∀ mark ∈ Sdk.marks (isDecimal table) f.items, Exact (numeral table mark)
  distinct : ((Sdk.marks (isDecimal table) f.items).map (numeral table)).Nodup
  inside : ∀ mark ∈ Sdk.marks (isDecimal table) f.items, numeral table mark < numeral table f.total

end Figures

/-- Where Python reads figures, it converts them; where they fit, they are clean; and where they
do not, they do not fit as TypeScript reads them. -/
def PlainBatch (table : CharacterTable) (limits : PythonLimits) (text : Points) : Prop :=
  ∀ f, figuresPython table text = some f →
    f.Short table limits ∧ (f.Fits table → f.Clean table)
      ∧ (¬f.Fits table → ∀ g, figuresTypescript text = some g → ¬g.FitsDouble)

/-! ## The patterns -/

/-- The line that figures are read from: the text of the items ends at the first `. `. -/
structure Figures.Line (digit dot : Nat → Bool) (f : Figures) (line : Points) : Prop where
  failedSome : f.failed ≠ []
  failedDigits : ∀ c ∈ f.failed, digit c = true
  totalSome : f.total ≠ []
  totalDigits : ∀ c ∈ f.total, digit c = true
  items : ∀ c ∈ f.items, dot c = true
  text : ∃ tail, line = ofText "Not written | " ++ (f.failed ++ ofText " of " ++ (f.total
    ++ ofText " items: " ++ (f.items ++ ofText ". " ++ tail)))
    ∧ ∀ k < f.items.length, ¬ofText ". " <+: (f.items ++ ofText ". " ++ tail).drop k

theorem ofText_of : ofText " of " = 0x20 :: ofText "of " := by decide +kernel

theorem ofText_items : ofText " items: " = 0x20 :: ofText "items: " := by decide +kernel

section

variable {digit dot : Nat → Bool}

/-- What the pattern matches, with the text after the match. -/
theorem notWritten_iff (hspace : digit 0x20 = false) {line : Points} {m : Regex.Match Nat} :
    Regex.search (.start :: notWritten digit dot) 0 line = some m
      ↔ ∃ failed total items, m.1 = [failed, total, items] ∧ failed ≠ [] ∧ total ≠ []
        ∧ (∀ c ∈ failed, digit c = true) ∧ (∀ c ∈ total, digit c = true) ∧ (∀ c ∈ items, dot c = true)
        ∧ line = ofText "Not written | " ++ (failed ++ ofText " of " ++ (total
          ++ ofText " items: " ++ (items ++ ofText ". " ++ m.2)))
        ∧ ∀ k < items.length, ¬ofText ". " <+: (items ++ ofText ". " ++ m.2).drop k := by
  rw [Regex.search_start]
  unfold notWritten
  rw [Regex.matchAt_word_eq_some, ofText_of, ofText_items]
  constructor
  · rintro ⟨line, rfl, h⟩
    obtain ⟨failed, line, groups, rfl, hfailed, hfailedDigits, h, hgroups⟩ :=
      (Regex.matchAt_run_eq_some hspace).mp h
    obtain ⟨total, line, groups', rfl, htotal, htotalDigits, h, hgroups'⟩ :=
      (Regex.matchAt_run_eq_some hspace).mp h
    obtain ⟨items, hline, hitems, hfirst, hgroups''⟩ := Regex.matchAt_until_eq_some.mp h
    dsimp only at hgroups' hgroups'' hline
    subst hline
    rw [hgroups, hgroups', hgroups'']
    exact ⟨failed, total, items, rfl, hfailed, htotal, hfailedDigits, htotalDigits, hitems, rfl,
      hfirst⟩
  · rintro ⟨failed, total, items, hgroups, hfailed, htotal, hfailedDigits, htotalDigits, hitems,
      rfl, hfirst⟩
    refine ⟨_, rfl, (Regex.matchAt_run_eq_some hspace).mpr ⟨failed, _, [total, items], rfl, hfailed,
      hfailedDigits, ?_, hgroups⟩⟩
    refine (Regex.matchAt_run_eq_some hspace).mpr ⟨total, _, [items], rfl, htotal, htotalDigits, ?_,
      rfl⟩
    exact Regex.matchAt_until_eq_some.mpr ⟨items, rfl, hitems, hfirst, rfl⟩

/-- The lines that a dialect reads figures from. -/
theorem figures_iff (hspace : digit 0x20 = false) {line : Points} {f : Figures} :
    figures digit dot line = some f ↔ f.Line digit dot line := by
  constructor
  · intro h
    unfold figures at h
    split at h
    next failed total items tail hm =>
      obtain ⟨failed', total', items', hgroups, hfailed, htotal, hfailedDigits, htotalDigits, hitems,
        hline, hfirst⟩ := (notWritten_iff hspace).mp hm
      cases hgroups
      cases h
      exact ⟨hfailed, hfailedDigits, htotal, htotalDigits, hitems, tail, hline, hfirst⟩
    next => cases h
  · rintro ⟨hfailed, hfailedDigits, htotal, htotalDigits, hitems, tail, hline, hfirst⟩
    have hm : Regex.search (.start :: notWritten digit dot) 0 line
        = some ([f.failed, f.total, f.items], tail) :=
      (notWritten_iff hspace).mpr ⟨f.failed, f.total, f.items, rfl, hfailed, htotal, hfailedDigits,
        htotalDigits, hitems, hline, hfirst⟩
    unfold figures
    rw [hm]

end

theorem ofText_close : ofText "])" = 0x5D :: ofText ")" := by decide +kernel

theorem itemIndex_iff {digit : Nat → Bool} (hclose : digit 0x5D = false) {pos : Nat} {t : Points}
    {m : Regex.Match Nat} :
    Regex.matchAt (itemIndex digit) pos t = some m
      ↔ ∃ mark, m.1 = [mark] ∧ mark ≠ [] ∧ (∀ c ∈ mark, digit c = true)
        ∧ t = ofText "(items[" ++ (mark ++ ofText "])" ++ m.2) := by
  unfold itemIndex
  rw [Regex.matchAt_word_eq_some, ofText_close]
  constructor
  · rintro ⟨t, rfl, h⟩
    obtain ⟨mark, t, groups, rfl, hmark, hdigits, h, hgroups⟩ :=
      (Regex.matchAt_run_eq_some hclose).mp h
    obtain ⟨rfl, rfl⟩ := Prod.mk.inj (Option.some.inj h)
    exact ⟨mark, hgroups, hmark, hdigits, rfl⟩
  · rintro ⟨mark, hgroups, hmark, hdigits, rfl⟩
    exact ⟨_, rfl, (Regex.matchAt_run_eq_some hclose).mpr
      ⟨mark, m.2, [], rfl, hmark, hdigits, rfl, hgroups⟩⟩

/-- An index holds no other: a mark has one bracket of the kind it begins with. -/
theorem findAll_itemIndex {digit : Nat → Bool} (hclose : digit 0x5D = false)
    (hopen : digit 0x28 = false) (items : Points) :
    Regex.findAll (itemIndex digit) items = Regex.every (itemIndex digit) 0 items := by
  have hword : ofText "(items[" = 0x28 :: ofText "items[" := by
    decide +kernel
  refine Regex.findAll_eq_every (fun pos c t groups rest hm k hk => ?_) items
  obtain ⟨mark, -, -, hdigits, ht⟩ := (itemIndex_iff hclose).mp hm
  dsimp only at ht
  rw [hword, List.cons_append] at ht
  obtain ⟨rfl, rfl⟩ := List.cons.inj ht
  unfold itemIndex
  refine Regex.matchAt_word_none fun hprefix => ?_
  rw [hword] at hprefix
  have hbody : ofText "items[" ++ (mark ++ ofText "])" ++ rest)
      = (ofText "items[" ++ mark ++ ofText "])") ++ rest := by
    simp only [List.append_assoc]
  rw [hbody] at hk hprefix
  rw [List.length_append, Nat.add_sub_cancel] at hk
  have hget : ((ofText "items[" ++ mark ++ ofText "])") ++ rest)[k]? = some 0x28 := by
    obtain ⟨after, hafter⟩ := hprefix
    rw [← List.head?_drop, ← hafter]
    rfl
  rw [List.getElem?_append_left hk] at hget
  have hmem := List.mem_of_getElem? hget
  rw [List.mem_append, List.mem_append] at hmem
  rcases hmem with (hmem | hmem) | hmem
  · revert hmem
    decide +kernel
  · have := hdigits _ hmem
    rw [hopen] at this
    cases this
  · revert hmem
    decide +kernel

section

variable (table : CharacterTable)

theorem isDecimal_ascii {c : Nat} (h : c < 0x80) : isDecimal table c = JsonReader.isDigit c := by
  unfold isDecimal
  rw [decide_eq_false (show ¬0x80 ≤ c by omega), Bool.false_and, Bool.or_false]

theorem isDecimal_of_isDigit {c : Nat} (h : JsonReader.isDigit c = true) :
    isDecimal table c = true := by
  unfold isDecimal
  rw [h, Bool.true_or]

/-- The marks that TypeScript finds are those of Python's that are written in ASCII. -/
theorem itemIndex_ascii {pos : Nat} {t : Points} {m : Regex.Match Nat} :
    Regex.matchAt (itemIndex JsonReader.isDigit) pos t = some m
      ↔ Regex.matchAt (itemIndex (isDecimal table)) pos t = some m
        ∧ (m.1.headD []).all JsonReader.isDigit = true := by
  rw [itemIndex_iff rfl, itemIndex_iff (isDecimal_ascii table (by decide))]
  constructor
  · rintro ⟨mark, hgroups, hmark, hdigits, ht⟩
    refine ⟨⟨mark, hgroups, hmark, fun c hc => isDecimal_of_isDigit table (hdigits c hc), ht⟩, ?_⟩
    rw [hgroups]
    exact List.all_eq_true.mpr hdigits
  · rintro ⟨⟨mark, hgroups, hmark, -, ht⟩, hascii⟩
    rw [hgroups] at hascii
    exact ⟨mark, hgroups, hmark, List.all_eq_true.mp hascii, ht⟩

theorem marks_ascii (items : Points) :
    marks JsonReader.isDigit items
      = (marks (isDecimal table) items).filter fun mark => mark.all JsonReader.isDigit := by
  unfold marks
  rw [findAll_itemIndex rfl rfl, findAll_itemIndex (isDecimal_ascii table (by decide))
    (isDecimal_ascii table (by decide))]
  have hgen : ∀ (t : Points) (pos : Nat),
      (Regex.every (itemIndex JsonReader.isDigit) pos t).map (fun groups => groups.headD [])
        = ((Regex.every (itemIndex (isDecimal table)) pos t).map fun groups => groups.headD []).filter
          fun mark => mark.all JsonReader.isDigit := by
    intro t
    induction t with
    | nil =>
      intro pos
      rfl
    | cons c t ih =>
      intro pos
      unfold Regex.every
      rw [List.map_append, List.map_append, List.filter_append, ← ih]
      congr 1
      cases hpython : Regex.matchAt (itemIndex (isDecimal table)) pos (c :: t) with
      | none =>
        have hnone : Regex.matchAt (itemIndex JsonReader.isDigit) pos (c :: t) = none := by
          refine Option.eq_none_iff_forall_not_mem.mpr fun m hm => ?_
          have := ((itemIndex_ascii table).mp hm).1
          rw [hpython] at this
          cases this
        rw [hnone]
        rfl
      | some m =>
        by_cases hascii : (m.1.headD []).all JsonReader.isDigit = true
        · rw [(itemIndex_ascii table).mpr ⟨hpython, hascii⟩]
          refine (List.filter_eq_self.mpr fun mark hmark => ?_).symm
          rw [List.mem_singleton.mp hmark]
          exact hascii
        · have hnone : Regex.matchAt (itemIndex JsonReader.isDigit) pos (c :: t) = none := by
            refine Option.eq_none_iff_forall_not_mem.mpr fun m' hm => ?_
            obtain ⟨hboth, hascii'⟩ := (itemIndex_ascii table).mp hm
            rw [hpython] at hboth
            cases hboth
            exact hascii hascii'
          rw [hnone]
          refine (List.filter_eq_nil_iff.mpr fun mark hmark => ?_).symm
          rw [List.mem_singleton.mp hmark]
          exact hascii
  exact hgen items 0

/-- The lines that TypeScript reads figures from are those of Python's with ASCII numbers and with
no end of a line among the items. -/
theorem figuresTypescript_iff {text : Points} {f : Figures} :
    figuresTypescript text = some f
      ↔ figuresPython table text = some f ∧ (∀ c ∈ f.failed, JsonReader.isDigit c = true)
        ∧ (∀ c ∈ f.total, JsonReader.isDigit c = true) ∧ ∀ c ∈ f.items, dotTypescript c = true := by
  unfold figuresTypescript figuresPython
  rw [figures_iff rfl, figures_iff (isDecimal_ascii table (by decide))]
  constructor
  · intro h
    refine ⟨⟨h.failedSome, fun c hc => isDecimal_of_isDigit table (h.failedDigits c hc), h.totalSome,
      fun c hc => isDecimal_of_isDigit table (h.totalDigits c hc), fun c hc => ?_, h.text⟩,
      h.failedDigits, h.totalDigits, h.items⟩
    have hc := h.items c hc
    unfold dotTypescript at hc
    unfold dotPython
    simp only [Bool.and_eq_true] at hc
    exact hc.1.1.1
  · rintro ⟨h, hfailed, htotal, hitems⟩
    exact ⟨h.failedSome, hfailed, h.totalSome, htotal, hitems, h.text⟩

end

/-! ## Numbers -/

theorem numeral_ascii (table : CharacterTable) {digits : Points}
    (h : ∀ c ∈ digits, JsonReader.isDigit c = true) :
    numberOf digits = nearestDouble (numeral table digits : Nat) := by
  unfold numberOf numeral
  have hmap : digits.map (decimalValue table) = digits.map (· - 0x30) := by
    refine List.map_congr_left fun c hc => ?_
    unfold decimalValue
    rw [if_pos (h c hc)]
  rw [hmap]

theorem intOf_eq_ok {table : CharacterTable} {limits : PythonLimits} {digits : Points} {n : Nat} :
    intOf table limits digits = .ok n
      ↔ Figures.Converts limits digits ∧ n = numeral table digits := by
  unfold intOf Figures.Converts
  split
  next h =>
    constructor
    · intro hok
      cases hok
    · rintro ⟨hnot, -⟩
      exact absurd h hnot
  next h =>
    constructor
    · intro hok
      exact ⟨h, (Except.ok.inj hok).symm⟩
    · rintro ⟨-, rfl⟩
      rfl

theorem mapM_intOf_eq_ok {table : CharacterTable} {limits : PythonLimits} {texts : List Points} :
    ∀ {ns : List Nat}, texts.mapM (intOf table limits) = .ok ns
      ↔ (∀ digits ∈ texts, Figures.Converts limits digits) ∧ ns = texts.map (numeral table) := by
  induction texts with
  | nil =>
    intro ns
    constructor
    · intro h
      exact ⟨by simp, (Except.ok.inj h).symm⟩
    · rintro ⟨-, rfl⟩
      rfl
  | cons digits texts ih =>
    intro ns
    rw [List.mapM_cons]
    constructor
    · intro h
      obtain ⟨n, hn, h⟩ := except_bind_eq_ok.mp h
      obtain ⟨rest, hrest, h⟩ := except_bind_eq_ok.mp h
      obtain ⟨hconverts, rfl⟩ := intOf_eq_ok.mp hn
      obtain ⟨hall, rfl⟩ := ih.mp hrest
      exact ⟨List.forall_mem_cons.mpr ⟨hconverts, hall⟩, (Except.ok.inj h).symm⟩
    · rintro ⟨hall, rfl⟩
      obtain ⟨hconverts, hrest⟩ := List.forall_mem_cons.mp hall
      exact except_bind_eq_ok.mpr ⟨_, intOf_eq_ok.mpr ⟨hconverts, rfl⟩,
        except_bind_eq_ok.mpr ⟨_, ih.mpr ⟨hrest, rfl⟩, rfl⟩⟩

/-! ## Reports -/

section

variable {table : CharacterTable} {limits : PythonLimits} {text : Points}

/-- The report that figures that fit amount to. -/
def Figures.report (table : CharacterTable) (f : Figures) : PartialBatch Nat where
  notWritten := (marks (isDecimal table) f.items).map (numeral table)
  total := numeral table f.total
  stored := numeral table f.total - numeral table f.failed

theorem unfit_iff {a b c : Prop} : (¬(a ∧ b) ∨ ¬c) ↔ ¬(a ∧ b ∧ c) := by
  rw [← not_and_or, and_assoc]

theorem partialBatchPython_eq_ok {f : Figures} (hf : figuresPython table text = some f)
    {report : Option (PartialBatch Nat)} :
    partialBatchPython table limits text = .ok report
      ↔ f.Short table limits
        ∧ (f.Fits table ∧ report = some (f.report table) ∨ ¬f.Fits table ∧ report = none) := by
  unfold partialBatchPython
  rw [hf]
  constructor
  · intro h
    obtain ⟨failed, hfailed, h⟩ := except_bind_eq_ok.mp h
    obtain ⟨total, htotal, h⟩ := except_bind_eq_ok.mp h
    obtain ⟨indexes, hindexes, h⟩ := except_bind_eq_ok.mp h
    obtain ⟨hfailedLength, rfl⟩ := intOf_eq_ok.mp hfailed
    obtain ⟨htotalLength, rfl⟩ := intOf_eq_ok.mp htotal
    obtain ⟨hmarks, rfl⟩ := mapM_intOf_eq_ok.mp hindexes
    refine ⟨⟨hfailedLength, htotalLength, hmarks⟩, ?_⟩
    have h := Except.ok.inj h
    rw [List.length_map] at h
    by_cases hfits : f.Fits table
    · rw [if_neg fun hunfit => unfit_iff.mp hunfit hfits] at h
      exact .inl ⟨hfits, h.symm⟩
    · rw [if_pos (unfit_iff.mpr hfits)] at h
      exact .inr ⟨hfits, h.symm⟩
  · rintro ⟨⟨hfailed, htotal, hmarks⟩, h⟩
    refine except_bind_eq_ok.mpr ⟨_, intOf_eq_ok.mpr ⟨hfailed, rfl⟩,
      except_bind_eq_ok.mpr ⟨_, intOf_eq_ok.mpr ⟨htotal, rfl⟩,
        except_bind_eq_ok.mpr ⟨_, mapM_intOf_eq_ok.mpr ⟨hmarks, rfl⟩, ?_⟩⟩⟩
    rw [List.length_map]
    rcases h with ⟨hfits, rfl⟩ | ⟨hfits, rfl⟩
    · rw [if_neg fun hunfit => unfit_iff.mp hunfit hfits]
      rfl
    · rw [if_pos (unfit_iff.mpr hfits)]
      rfl

theorem partialBatchTypescript_eq {f : Figures} (hf : figuresTypescript text = some f) :
    (f.FitsDouble ∧ partialBatchTypescript text
        = some ⟨(marks JsonReader.isDigit f.items).map numberOf, numberOf f.total,
          doubleMinus (numberOf f.total) (numberOf f.failed)⟩)
      ∨ ¬f.FitsDouble ∧ partialBatchTypescript text = none := by
  unfold partialBatchTypescript
  rw [hf]
  dsimp only
  rw [List.length_map]
  by_cases hfits : f.FitsDouble
  · rw [if_neg fun hunfit => unfit_iff.mp hunfit hfits]
    exact .inl ⟨hfits, rfl⟩
  · exact .inr ⟨hfits, if_pos (unfit_iff.mpr hfits)⟩

/-- The figures of TypeScript, from Python's. -/
theorem fitsDouble_of_clean {f : Figures} (hfits : f.Fits table) (hclean : f.Clean table) :
    f.FitsDouble ∧ (marks JsonReader.isDigit f.items).map numberOf
        = (marks (isDecimal table) f.items).map (fun mark => .finite (numeral table mark : Nat))
      ∧ numberOf f.total = .finite (numeral table f.total : Nat)
      ∧ numberOf f.failed = .finite (numeral table f.failed : Nat) := by
  have hfailed : numberOf f.failed = .finite (numeral table f.failed : Nat) :=
    (numeral_ascii table hclean.failedDigits).trans hclean.failedExact
  have htotal : numberOf f.total = .finite (numeral table f.total : Nat) :=
    (numeral_ascii table hclean.totalDigits).trans hclean.totalExact
  have hmarks : marks JsonReader.isDigit f.items = marks (isDecimal table) f.items := by
    rw [marks_ascii table]
    exact List.filter_eq_self.mpr fun mark hmark =>
      List.all_eq_true.mpr (hclean.markDigits mark hmark)
  refine ⟨⟨?_, ?_, ?_⟩, ?_, htotal, hfailed⟩
  · rw [hfailed]
    exact decide_eq_true (Nat.cast_pos.mpr hfits.1)
  · rw [hfailed, htotal]
    exact decide_eq_true (Nat.cast_lt.mpr hfits.2.1)
  · rw [hfailed, hmarks, hfits.2.2]
  · rw [hmarks]
    refine List.map_congr_left fun mark hmark => ?_
    rw [numeral_ascii table (hclean.markDigits mark hmark)]
    exact hclean.markExact mark hmark

/-- Figures that both SDKs report alike, and consistently, are clean. -/
theorem clean_of_reported {f : Figures} (hfits : f.Fits table)
    (htypescript : partialBatchTypescript text = some (f.report table).numbers)
    (hf : figuresPython table text = some f)
    (hconsistent : ConsistentReport (numeral table f.failed) (numeral table f.total) (f.report table)) :
    f.Clean table := by
  cases hg : figuresTypescript text with
  | none =>
    unfold partialBatchTypescript at htypescript
    rw [hg] at htypescript
    cases htypescript
  | some g =>
    obtain ⟨hpython, hfailed, htotal, hitems⟩ := (figuresTypescript_iff table).mp hg
    obtain rfl : f = g := Option.some.inj (hf.symm.trans hpython)
    rcases partialBatchTypescript_eq hg with ⟨hdouble, heq⟩ | ⟨-, hnone⟩
    · rw [htypescript] at heq
      obtain ⟨hmarks, hsize, hstored⟩ := PartialBatch.mk.inj (Option.some.inj heq)
      have hlength : (marks JsonReader.isDigit f.items).length
          = (marks (isDecimal table) f.items).length := by
        have := congrArg List.length hmarks
        simp only [List.length_map] at this
        exact this.symm.trans (List.length_map _)
      rw [marks_ascii table] at hlength hmarks
      have hall := List.length_filter_eq_length_iff.mp hlength
      rw [List.filter_eq_self.mpr hall] at hmarks
      have hdigits : ∀ mark ∈ marks (isDecimal table) f.items, ∀ c ∈ mark,
          JsonReader.isDigit c = true := fun mark hmark => List.all_eq_true.mp (hall mark hmark)
      have hfailedExact : numberOf f.failed = .finite (numeral table f.failed : Nat) := by
        rw [← hdouble.2.2, marks_ascii table, List.filter_eq_self.mpr hall, hfits.2.2]
      have htotalExact : numberOf f.total = .finite (numeral table f.total : Nat) := hsize.symm
      refine {
        failedDigits := hfailed
        totalDigits := htotal
        line := hitems
        markDigits := hdigits
        failedExact := (numeral_ascii table hfailed).symm.trans hfailedExact
        totalExact := (numeral_ascii table htotal).symm.trans htotalExact
        storedExact := ?_
        markExact := fun mark hmark => ?_
        distinct := hconsistent.distinct
        inside := fun mark hmark => hconsistent.inside _ (List.mem_map_of_mem hmark) }
      · rw [hfailedExact, htotalExact] at hstored
        unfold Figures.Exact
        rw [Nat.cast_sub hfits.2.1.le]
        have hstored : JsonNumber.finite ((numeral table f.total - numeral table f.failed : Nat) : ℚ)
          = nearestDouble ((numeral table f.total : ℚ) - (numeral table f.failed : ℚ)) := hstored
        rw [← hstored, Nat.cast_sub hfits.2.1.le]
      · have hmap := List.map_inj_left.mp
          ((List.map_map.symm.trans hmarks : (marks (isDecimal table) f.items).map
            ((fun n : Nat => JsonNumber.finite (n : ℚ)) ∘ numeral table) = _)) mark hmark
        unfold Figures.Exact
        rw [← numeral_ascii table (hdigits mark hmark)]
        exact hmap.symm
    · rw [htypescript] at hnone
      cases hnone

/-- For which texts both SDKs make the same report, or none, and the report is consistent. -/
theorem partial_batch_iff (table : CharacterTable) (limits : PythonLimits) (text : Points) :
    Reported table limits text ↔ PlainBatch table limits text := by
  constructor
  · rintro ⟨report, hpython, htypescript, hconsistent⟩ f hf
    obtain ⟨hshort, hreport⟩ := (partialBatchPython_eq_ok hf).mp hpython
    refine ⟨hshort, fun hfits => ?_, fun hfits g hg hdouble => ?_⟩
    · rcases hreport with ⟨-, rfl⟩ | ⟨hnot, -⟩
      · obtain ⟨f', hf', hconsistent⟩ := hconsistent _ rfl
        obtain rfl : f = f' := Option.some.inj (hf.symm.trans hf')
        exact clean_of_reported hfits htypescript hf hconsistent
      · exact absurd hfits hnot
    · rcases hreport with ⟨hfits', -⟩ | ⟨-, rfl⟩
      · exact hfits hfits'
      · rcases partialBatchTypescript_eq hg with ⟨-, heq⟩ | ⟨hnot, -⟩
        · rw [htypescript] at heq
          cases heq
        · exact hnot hdouble
  · intro hplain
    cases hf : figuresPython table text with
    | none =>
      have hg : figuresTypescript text = none := by
        refine Option.eq_none_iff_forall_not_mem.mpr fun g hg => ?_
        have := ((figuresTypescript_iff table).mp hg).1
        rw [hf] at this
        cases this
      refine ⟨none, ?_, ?_, by simp⟩
      · unfold partialBatchPython
        rw [hf]
      · unfold partialBatchTypescript
        rw [hg]
        rfl
    | some f =>
      obtain ⟨hshort, hclean, hnone⟩ := hplain f hf
      by_cases hfits : f.Fits table
      · have hclean := hclean hfits
        obtain ⟨hdouble, hmarks, htotal, hfailed⟩ := fitsDouble_of_clean hfits hclean
        have hg : figuresTypescript text = some f := (figuresTypescript_iff table).mpr
          ⟨hf, hclean.failedDigits, hclean.totalDigits, hclean.line⟩
        refine ⟨some (f.report table),
          (partialBatchPython_eq_ok hf).mpr ⟨hshort, .inl ⟨hfits, rfl⟩⟩, ?_, ?_⟩
        · rcases partialBatchTypescript_eq hg with ⟨-, heq⟩ | ⟨hnot, -⟩
          · have hstored : doubleMinus (numberOf f.total) (numberOf f.failed)
                = .finite (numeral table f.total - numeral table f.failed : Nat) := by
              rw [htotal, hfailed]
              show nearestDouble ((numeral table f.total : ℚ) - (numeral table f.failed : ℚ)) = _
              rw [← Nat.cast_sub hfits.2.1.le]
              exact hclean.storedExact
            rw [heq, hmarks, hstored, htotal]
            unfold Figures.report PartialBatch.numbers
            rw [Option.map_some, List.map_map]
            rfl
          · exact absurd hdouble hnot
        · rintro r ⟨⟩
          refine ⟨f, hf, {
            distinct := hclean.distinct
            inside := ?_
            count := ?_
            size := rfl
            stored := rfl
            some := Nat.sub_pos_of_lt hfits.2.1
            part := Nat.sub_lt (hfits.1.trans hfits.2.1) hfits.1 }⟩
          · rintro i hi
            obtain ⟨mark, hmark, rfl⟩ := List.mem_map.mp hi
            exact hclean.inside mark hmark
          · unfold Figures.report
            rw [List.length_map]
            exact hfits.2.2
      · refine ⟨none, (partialBatchPython_eq_ok hf).mpr ⟨hshort, .inr ⟨hfits, rfl⟩⟩, ?_, by simp⟩
        cases hg : figuresTypescript text with
        | none =>
          unfold partialBatchTypescript
          rw [hg]
          rfl
        | some g =>
          rcases partialBatchTypescript_eq hg with ⟨hdouble, -⟩ | ⟨-, heq⟩
          · exact absurd hdouble (hnone hfits g hg)
          · exact heq

end

/-- A character database without digits beyond ASCII. -/
def asciiOnly : CharacterTable where
  isSpace _ := false
  decimal _ := none

/-- A report whose text of the items holds a carriage return. -/
def returned : Points := ofText "Not written | 1 of 2 items: item 2 (items[1]),\r. "

/-- Python reports the item, TypeScript does not take the text for a report. -/
theorem partial_batch_differs :
    ¬∀ (table : CharacterTable) (limits : PythonLimits) (text : Points),
      Reported table limits text := by
  intro h
  obtain ⟨report, hpython, htypescript, -⟩ := h asciiOnly ⟨1000, 4300⟩ returned
  have hread : (partialBatchPython asciiOnly ⟨1000, 4300⟩ returned).toOption
      = some (some ⟨[1], 2, 1⟩) := by
    decide +kernel
  have hnone : partialBatchTypescript returned = none := by
    decide +kernel
  rw [hpython] at hread
  obtain rfl := Option.some.inj hread
  rw [hnone] at htypescript
  cases htypescript

end Kaleidoscope.Sdk
