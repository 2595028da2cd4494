import Mathlib.Data.List.Basic

/-!
# JSON texts, with their layout

A JSON text as a tree that keeps every byte of it: the white space, how each string and number is
spelled.  What the tree stands for is read through a `Meaning`, which says what the strings,
the numbers and the groups of them are.

    read_text         a reader that takes every text of the grammar to the value it stands for
    read_object       what is read as an object ends with its closing brace
    Cut.excised       leaving out an entry and one comma leaves a text of the grammar
-/

namespace JsonText

abbrev Bytes := List UInt8

/-! ## Bytes -/

def isSpace (b : UInt8) : Bool := b == 0x20 || b == 0x09 || b == 0x0A || b == 0x0D

def isDigit (b : UInt8) : Bool := 0x30 ≤ b && b ≤ 0x39

/-- A byte of a number after its first. -/
def isNumeric (b : UInt8) : Bool :=
  isDigit b || b == 0x2B || b == 0x2D || b == 0x2E || b == 0x45 || b == 0x65

/-- The first byte of a value. -/
def isFirst (b : UInt8) : Bool :=
  isDigit b || b == 0x2D || b == 0x22 || b == 0x5B || b == 0x7B || b == 0x6E || b == 0x74
    || b == 0x66

def Blank (t : Bytes) : Prop := ∀ b ∈ t, isSpace b = true

/-- What follows the opening quote of a string: its characters and the closing quote. -/
inductive Closes : Bytes → Prop
  | close : Closes [0x22]
  | plain {b : UInt8} {t : Bytes} : b ≠ 0x22 → b ≠ 0x5C → Closes t → Closes (b :: t)
  | escape {b : UInt8} {t : Bytes} : Closes t → Closes (0x5C :: b :: t)

def IsLiteral (t : Bytes) : Prop := ∃ body, t = 0x22 :: body ∧ Closes body

def IsToken (t : Bytes) : Prop :=
  ∃ b rest, t = b :: rest ∧ (isDigit b || b == 0x2D) = true ∧ ∀ c ∈ rest, isNumeric c = true

/-! ## Trees -/

inductive Kind where
  | array
  | object
  deriving DecidableEq

def Kind.opener : Kind → UInt8
  | .array => 0x5B
  | .object => 0x7B

def Kind.closer : Kind → UInt8
  | .array => 0x5D
  | .object => 0x7D

/-- A member's key, with the white space before and after its colon. -/
structure Key where
  literal : Bytes
  gap : Bytes
  lead : Bytes

/-- A member of an object, or an item of an array (no key), and the white space around it. -/
structure Entry (α : Type) where
  before : Bytes
  key : Option Key
  node : α
  after : Bytes

inductive Node where
  | null
  | bool (b : Bool)
  | number (token : Bytes)
  | string (literal : Bytes)
  | group (kind : Kind) (blank : Bytes) (entries : List (Entry Node))

def Key.text (k : Key) : Bytes := k.literal ++ (k.gap ++ 0x3A :: k.lead)

def headText : Option Key → Bytes
  | none => []
  | some k => k.text

def boolText : Bool → Bytes
  | true => [0x74, 0x72, 0x75, 0x65]
  | false => [0x66, 0x61, 0x6C, 0x73, 0x65]

mutual

def Node.text : Node → Bytes
  | .null => [0x6E, 0x75, 0x6C, 0x6C]
  | .bool b => boolText b
  | .number token => token
  | .string literal => literal
  | .group kind blank entries =>
    kind.opener :: (blank ++ (entriesText entries ++ [kind.closer]))

def entriesText : List (Entry Node) → Bytes
  | [] => []
  | e :: es => entryText e ++ (if es.isEmpty then [] else 0x2C :: entriesText es)

def entryText : Entry Node → Bytes
  | ⟨before, key, node, after⟩ => before ++ (headText key ++ (node.text ++ after))

end

mutual

/-- How many groups are inside one another. -/
def Node.depth : Node → Nat
  | .group _ _ entries => entriesDepth entries + 1
  | _ => 0

def entriesDepth : List (Entry Node) → Nat
  | [] => 0
  | e :: es => max (entryDepth e) (entriesDepth es)

def entryDepth : Entry Node → Nat
  | ⟨_, _, node, _⟩ => node.depth

end

/-! ## Meaning -/

/-- What the leaves of a text and the groups of them stand for. -/
structure Meaning (κ α : Type) where
  null : α
  bool : Bool → α
  number : Bytes → Option α
  /-- what a string literal spells, as a key and as a value -/
  key : Bytes → Option κ
  string : κ → α
  array : List α → α
  object : List (κ × α) → α

section

variable {κ α : Type} [Inhabited κ] (m : Meaning κ α)

def Meaning.name : Option Key → κ
  | none => default
  | some k => (m.key k.literal).getD default

mutual

def Node.value : Node → α
  | .null => m.null
  | .bool b => m.bool b
  | .number token => (m.number token).getD m.null
  | .string literal => m.string ((m.key literal).getD default)
  | .group .array _ entries => m.array (entriesValue entries)
  | .group .object _ entries => m.object (entriesMembers entries)

def entriesValue : List (Entry Node) → List α
  | [] => []
  | e :: es => entryValue e :: entriesValue es

def entriesMembers : List (Entry Node) → List (κ × α)
  | [] => []
  | e :: es => (m.name e.key, entryValue e) :: entriesMembers es

def entryValue : Entry Node → α
  | ⟨_, _, node, _⟩ => node.value

end

def Entry.name (e : Entry Node) : κ := m.name e.key

/-- A key is spelled by a literal the meaning knows. -/
structure Key.Valid (k : Key) : Prop where
  literal : IsLiteral k.literal
  known : (m.key k.literal).isSome = true
  gap : Blank k.gap
  lead : Blank k.lead

/-- White space stands around an entry, and it has a key in an object only. -/
structure Entry.Valid (kind : Kind) (e : Entry Node) : Prop where
  before : Blank e.before
  after : Blank e.after
  array : kind = .array → e.key = none
  object : kind = .object → ∃ k, e.key = some k ∧ k.Valid m

/-- A text of the grammar: its leaves mean something and no object has a key twice. -/
inductive Node.Valid : Node → Prop
  | null : Node.Valid .null
  | bool (b : Bool) : Node.Valid (.bool b)
  | number {token : Bytes} : IsToken token → (m.number token).isSome = true →
      Node.Valid (.number token)
  | string {literal : Bytes} : IsLiteral literal → (m.key literal).isSome = true →
      Node.Valid (.string literal)
  | group {kind : Kind} {blank : Bytes} {entries : List (Entry Node)} : Blank blank →
      (∀ e ∈ entries, e.Valid m kind) →
      (kind = .object → (entries.map (Entry.name m)).Nodup) →
      (∀ e ∈ entries, Node.Valid e.node) → Node.Valid (.group kind blank entries)

/-- A whole text: one value and white space around it. -/
structure Document where
  lead : Bytes
  root : Node
  trail : Bytes
  blank_lead : Blank lead
  blank_trail : Blank trail
  valid : root.Valid m

end

namespace Document

variable {κ α : Type} [Inhabited κ] {m : Meaning κ α}

def text (d : Document m) : Bytes := d.lead ++ (d.root.text ++ d.trail)

def value (d : Document m) : α := d.root.value m

def depth (d : Document m) : Nat := d.root.depth

end Document

/-! ## Reader -/

def skipSpace (t : Bytes) : Bytes := t.dropWhile isSpace

/-- The rest of a string literal, its closing quote included, and what comes after it. -/
def splitLiteral : Bytes → Option (Bytes × Bytes)
  | [] => none
  | 0x22 :: rest => some ([0x22], rest)
  | 0x5C :: b :: rest => (splitLiteral rest).map fun s => (0x5C :: b :: s.1, s.2)
  | b :: rest => (splitLiteral rest).map fun s => (b :: s.1, s.2)

section

variable {κ α : Type} [Inhabited κ] (m : Meaning κ α)

/-- A key and its colon before a member; nothing before an item of an array. -/
def readKey : Kind → Bytes → Option (κ × Bytes)
  | .array, t => some (default, t)
  | .object, 0x22 :: t => do
    let (body, t) ← splitLiteral t
    let k ← m.key (0x22 :: body)
    match skipSpace t with
    | 0x3A :: t => some (k, skipSpace t)
    | _ => none
  | .object, _ => none

mutual

/-- A value at the start of a text. -/
def readNode : (fuel : Nat) → Bytes → Option (α × Bytes)
  | 0, _ => none
  | fuel + 1, t =>
    match t with
    | 0x6E :: 0x75 :: 0x6C :: 0x6C :: t => some (m.null, t)
    | 0x74 :: 0x72 :: 0x75 :: 0x65 :: t => some (m.bool true, t)
    | 0x66 :: 0x61 :: 0x6C :: 0x73 :: 0x65 :: t => some (m.bool false, t)
    | 0x22 :: t => do
      let (body, t) ← splitLiteral t
      let k ← m.key (0x22 :: body)
      some (m.string k, t)
    | 0x5B :: t => (readGroup fuel .array (skipSpace t)).map fun r => (m.array (r.1.map (·.2)), r.2)
    | 0x7B :: t => (readGroup fuel .object (skipSpace t)).map fun r => (m.object r.1, r.2)
    | t => (m.number (t.takeWhile isNumeric)).map fun n => (n, t.dropWhile isNumeric)

/-- What is inside a group, after the white space that follows its opening bracket. -/
def readGroup : (fuel : Nat) → Kind → Bytes → Option (List (κ × α) × Bytes)
  | 0, _, _ => none
  | fuel + 1, kind, t =>
    match t with
    | [] => none
    | b :: rest => if b = kind.closer then some ([], rest) else readEntries fuel kind t

/-- The entries of a group from the first byte of one of them. -/
def readEntries : (fuel : Nat) → Kind → Bytes → Option (List (κ × α) × Bytes)
  | 0, _, _ => none
  | fuel + 1, kind, t => do
    let (k, t) ← readKey m kind t
    let (v, t) ← readNode fuel t
    match skipSpace t with
    | [] => none
    | b :: rest =>
      if b = 0x2C then
        (readEntries fuel kind (skipSpace rest)).map fun r => ((k, v) :: r.1, r.2)
      else if b = kind.closer then some ([(k, v)], rest)
      else none

end

/-- The value of a text: one value and white space. -/
def read (t : Bytes) : Option α := do
  let (v, rest) ← readNode m (2 * t.length) (skipSpace t)
  if skipSpace rest = [] then some v else none

end

/-! ## Layout lemmas -/

theorem skipSpace_blank {w : Bytes} (hw : Blank w) (t : Bytes) :
    skipSpace (w ++ t) = skipSpace t :=
  List.dropWhile_append_of_pos hw

theorem skipSpace_all {w : Bytes} (hw : Blank w) : skipSpace w = [] := by
  have h := skipSpace_blank hw []
  rwa [List.append_nil] at h

/-- What holds of all 256 bytes. -/
theorem all_bytes (p : UInt8 → Bool) (h : ∀ n < 256, p n.toUInt8 = true) (b : UInt8) :
    p b = true := by
  have hb := h b.toNat b.toNat_lt
  rwa [show b.toNat.toUInt8 = b by simp] at hb

/-- The first byte of a value is not white space and does not end a value. -/
theorem isFirst_ends {b : UInt8} (h : isFirst b = true) :
    isSpace b = false ∧ b ≠ 0x2C ∧ b ≠ 0x5D ∧ b ≠ 0x7D ∧ b < 0x80 := by
  have hb := all_bytes
    (fun b => !isFirst b || (!isSpace b && b != 0x2C && b != 0x5D && b != 0x7D && b < 0x80))
    (by decide +kernel) b
  simp only [h, Bool.not_true, Bool.false_or, Bool.and_eq_true, Bool.not_eq_true', bne_iff_ne,
    decide_eq_true_eq] at hb
  tauto

theorem isSpace_ends {b : UInt8} (h : isSpace b = true) : isNumeric b = false ∧ b < 0x80 := by
  have hb := all_bytes (fun b => !isSpace b || (!isNumeric b && b < 0x80)) (by decide +kernel) b
  simpa only [h, Bool.not_true, Bool.false_or, Bool.and_eq_true, Bool.not_eq_true',
    decide_eq_true_eq] using hb

/-- The first byte of a number opens nothing else. -/
theorem isToken_first {b : UInt8} (h : (isDigit b || b == 0x2D) = true) :
    isFirst b = true ∧ isNumeric b = true ∧ b ≠ 0x6E ∧ b ≠ 0x74 ∧ b ≠ 0x66 ∧ b ≠ 0x22 ∧ b ≠ 0x5B
      ∧ b ≠ 0x7B := by
  have hb := all_bytes
    (fun b => !(isDigit b || b == 0x2D) || (isFirst b && isNumeric b && b != 0x6E && b != 0x74
      && b != 0x66 && b != 0x22 && b != 0x5B && b != 0x7B)) (by decide +kernel) b
  simp only [h, Bool.not_true, Bool.false_or, Bool.and_eq_true, bne_iff_ne] at hb
  tauto

theorem closer_ne_first {b : UInt8} (h : isFirst b = true) (kind : Kind) : b ≠ kind.closer := by
  obtain ⟨-, -, hbracket, hbrace, -⟩ := isFirst_ends h
  cases kind with
  | array => exact hbracket
  | object => exact hbrace

theorem skipSpace_first {b : UInt8} (h : isFirst b = true) (t : Bytes) :
    skipSpace (b :: t) = b :: t :=
  List.dropWhile_cons_of_neg (by rw [(isFirst_ends h).1]; exact Bool.false_ne_true)

/-! ## Entries -/

def Entry.text (e : Entry Node) : Bytes :=
  e.before ++ (headText e.key ++ (e.node.text ++ e.after))

theorem entryText_eq (e : Entry Node) : entryText e = e.text := by
  cases e
  rw [entryText]
  rfl

/-- Entries with a comma after each. -/
def leading (es : List (Entry Node)) : Bytes := es.flatMap fun e => e.text ++ [0x2C]

/-- Entries with a comma before each. -/
def trailing (es : List (Entry Node)) : Bytes := es.flatMap fun e => 0x2C :: e.text

theorem leading_cons (e : Entry Node) (es : List (Entry Node)) :
    leading (e :: es) = e.text ++ 0x2C :: leading es := by
  rw [leading, List.flatMap_cons, List.append_assoc]
  rfl

theorem leading_append (es fs : List (Entry Node)) : leading (es ++ fs) = leading es ++ leading fs :=
  List.flatMap_append

theorem trailing_cons (e : Entry Node) (es : List (Entry Node)) :
    trailing (e :: es) = 0x2C :: (e.text ++ trailing es) := rfl

theorem entriesText_cons (e : Entry Node) (es : List (Entry Node)) :
    entriesText (e :: es) = e.text ++ trailing es := by
  induction es generalizing e with
  | nil => rw [entriesText, entryText_eq]; rfl
  | cons f es ih =>
    rw [entriesText, entryText_eq, List.isEmpty_cons, if_neg Bool.false_ne_true, ih f,
      trailing_cons]

theorem entriesText_append (l : List (Entry Node)) (e : Entry Node) (r : List (Entry Node)) :
    entriesText (l ++ e :: r) = leading l ++ (e.text ++ trailing r) := by
  induction l with
  | nil => exact entriesText_cons e r
  | cons f l ih =>
    have hne : (l ++ e :: r).isEmpty = false := by
      rw [List.isEmpty_eq_false_iff]
      exact List.append_ne_nil_of_right_ne_nil l (List.cons_ne_nil e r)
    rw [List.cons_append, entriesText, entryText_eq, hne, if_neg Bool.false_ne_true, ih,
      leading_cons, List.append_assoc, List.cons_append]

section

variable {κ α : Type} [Inhabited κ] {m : Meaning κ α}

theorem entryValue_eq (e : Entry Node) : entryValue m e = e.node.value m := by
  cases e
  rw [entryValue]

theorem entriesValue_eq (es : List (Entry Node)) :
    entriesValue m es = es.map fun e => e.node.value m := by
  induction es with
  | nil => rfl
  | cons e es ih => rw [entriesValue, List.map_cons, ih, entryValue_eq]

theorem entriesMembers_eq (es : List (Entry Node)) :
    entriesMembers m es = es.map fun e => (e.name m, e.node.value m) := by
  induction es with
  | nil => rfl
  | cons e es ih => rw [entriesMembers, List.map_cons, ih, entryValue_eq]; rfl

theorem value_array (blank : Bytes) (es : List (Entry Node)) :
    (Node.group .array blank es).value m = m.array (es.map fun e => e.node.value m) := by
  rw [Node.value, entriesValue_eq]

theorem value_object (blank : Bytes) (es : List (Entry Node)) :
    (Node.group .object blank es).value m
      = m.object (es.map fun e => (e.name m, e.node.value m)) := by
  rw [Node.value, entriesMembers_eq]

/-- A value starts with a byte that only values start with. -/
theorem Node.Valid.first {n : Node} (h : n.Valid m) :
    ∃ b t, n.text = b :: t ∧ isFirst b = true := by
  cases h with
  | null => exact ⟨_, _, rfl, by decide⟩
  | bool b => cases b with
    | true => exact ⟨_, _, rfl, by decide⟩
    | false => exact ⟨_, _, rfl, by decide⟩
  | number htoken _ =>
    obtain ⟨b, rest, rfl, hb, -⟩ := htoken
    exact ⟨b, rest, rfl, (isToken_first hb).1⟩
  | string hliteral _ =>
    obtain ⟨body, rfl, -⟩ := hliteral
    exact ⟨_, _, rfl, by decide⟩
  | @group kind _ _ _ _ _ _ => cases kind with
    | array => exact ⟨_, _, rfl, by decide⟩
    | object => exact ⟨_, _, rfl, by decide⟩

/-- So does an entry after its white space: a key starts with a quote. -/
theorem Entry.Valid.first {kind : Kind} {e : Entry Node} (h : e.Valid m kind)
    (hnode : e.node.Valid m) :
    ∃ b t, headText e.key ++ e.node.text = b :: t ∧ isFirst b = true := by
  cases kind with
  | array =>
    rw [h.array rfl]
    exact hnode.first
  | object =>
    obtain ⟨k, hk, hvalid⟩ := h.object rfl
    obtain ⟨body, hbody, -⟩ := hvalid.literal
    rw [hk]
    refine ⟨0x22, body ++ (k.gap ++ 0x3A :: k.lead) ++ e.node.text, ?_, by decide⟩
    rw [headText, Key.text, hbody]
    rfl

end

/-! ## What the reader reads -/

/-- What comes after a value does not continue it. -/
def Ends (t : Bytes) : Prop := ∀ b rest, t = b :: rest → isNumeric b = false

theorem ends_blank {w t : Bytes} (hw : Blank w) (ht : Ends t) : Ends (w ++ t) := by
  cases w with
  | nil => exact ht
  | cons b w =>
    intro c rest h
    rw [List.cons_append] at h
    rw [← (List.cons.inj h).1]
    exact (isSpace_ends (hw b List.mem_cons_self)).1

theorem ends_comma (t : Bytes) : Ends (0x2C :: t) := by
  intro b rest h
  rw [← (List.cons.inj h).1]
  rfl

theorem ends_closer (kind : Kind) (t : Bytes) : Ends (kind.closer :: t) := by
  intro b rest h
  rw [← (List.cons.inj h).1]
  cases kind with
  | array => rfl
  | object => rfl

theorem splitLiteral_closes {body : Bytes} (h : Closes body) (t : Bytes) :
    splitLiteral (body ++ t) = some (body, t) := by
  induction h with
  | close => rfl
  | @plain b body hquote hslash _ ih =>
    rw [List.cons_append, splitLiteral.eq_def]
    split
    next heq => cases heq
    next heq => exact absurd (List.cons.inj heq).1 hquote
    next heq => exact absurd (List.cons.inj heq).1 hslash
    next heq =>
      obtain ⟨rfl, rfl⟩ := List.cons.inj heq
      rw [ih]
      rfl
  | escape _ ih =>
    rw [List.cons_append, List.cons_append, splitLiteral, ih]
    rfl

section

variable {κ α : Type} [Inhabited κ] {m : Meaning κ α}

/-- White space before an entry is passed, and nothing more. -/
theorem skipSpace_entry {kind : Kind} {e : Entry Node} (he : e.Valid m kind)
    (hnode : e.node.Valid m) (t : Bytes) :
    skipSpace (e.text ++ t) = headText e.key ++ (e.node.text ++ (e.after ++ t)) := by
  obtain ⟨b, rest, hfirst, hb⟩ := he.first hnode
  rw [Entry.text, List.append_assoc, skipSpace_blank he.before]
  simp only [List.append_assoc]
  rw [← List.append_assoc (headText e.key), hfirst, List.cons_append]
  exact skipSpace_first hb _

theorem readKey_text {kind : Kind} {e : Entry Node} (he : e.Valid m kind)
    (hnode : e.node.Valid m) (t : Bytes) :
    readKey m kind (headText e.key ++ (e.node.text ++ t)) = some (e.name m, e.node.text ++ t) := by
  cases kind with
  | array =>
    have hnone := he.array rfl
    rw [hnone, Entry.name, hnone]
    rfl
  | object =>
    obtain ⟨k, hk, hvalid⟩ := he.object rfl
    obtain ⟨body, hbody, hcloses⟩ := hvalid.literal
    obtain ⟨name, hname⟩ := Option.isSome_iff_exists.mp hvalid.known
    obtain ⟨b, rest, hfirst, hb⟩ := hnode.first
    have hvalue : e.name m = name := by
      rw [Entry.name, hk, Meaning.name, hname]
      rfl
    have hcolon : skipSpace (k.gap ++ 0x3A :: (k.lead ++ (e.node.text ++ t)))
        = 0x3A :: (k.lead ++ (e.node.text ++ t)) := by
      rw [skipSpace_blank hvalid.gap]
      rfl
    have hlead : skipSpace (k.lead ++ (e.node.text ++ t)) = e.node.text ++ t := by
      rw [skipSpace_blank hvalid.lead, hfirst, List.cons_append]
      exact skipSpace_first hb _
    rw [hbody] at hname
    rw [hvalue, hk, headText, Key.text, hbody]
    simp only [List.cons_append, List.append_assoc, readKey, splitLiteral_closes hcloses,
      Option.bind_eq_bind, Option.bind_some, hname, hcolon, hlead]

theorem Node.Valid.length_pos {n : Node} (h : n.Valid m) : 0 < n.text.length := by
  obtain ⟨b, t, htext, -⟩ := h.first
  rw [htext]
  exact Nat.succ_pos _

theorem text_length_le (e : Entry Node) :
    e.before.length + e.node.text.length ≤ e.text.length := by
  rw [Entry.text]
  simp only [List.length_append]
  omega

/-- Entries read one after the other, if each of their values is read. -/
theorem readEntries_text {kind : Kind} (e : Entry Node) (es : List (Entry Node))
    (hvalid : ∀ f ∈ e :: es, f.Valid m kind) (hnodes : ∀ f ∈ e :: es, f.node.Valid m)
    (ih : ∀ f ∈ e :: es, ∀ (fuel : Nat) (t : Bytes), 2 * f.node.text.length ≤ fuel → Ends t →
      readNode m fuel (f.node.text ++ t) = some (f.node.value m, t))
    (fuel : Nat) (t : Bytes) (hfuel : 2 * (entriesText (e :: es)).length + 1 ≤ fuel) :
    readEntries m fuel kind (skipSpace (entriesText (e :: es) ++ kind.closer :: t))
      = some ((e :: es).map fun f => (f.name m, f.node.value m), t) := by
  induction es generalizing e fuel with
  | nil =>
    obtain ⟨fuel, rfl⟩ : ∃ k, fuel = k + 1 := ⟨fuel - 1, by omega⟩
    have he := hvalid e List.mem_cons_self
    have hnode := hnodes e List.mem_cons_self
    have hlength := text_length_le e
    have hends := ends_blank he.after (ends_closer kind t)
    have hcomma : kind.closer ≠ 0x2C := by cases kind <;> decide
    have hclose : skipSpace (e.after ++ kind.closer :: t) = kind.closer :: t := by
      rw [skipSpace_blank he.after]
      cases kind <;> rfl
    rw [entriesText_cons, trailing, List.flatMap_nil, List.append_nil] at hfuel ⊢
    rw [skipSpace_entry he hnode, readEntries, readKey_text he hnode]
    simp only [Option.bind_eq_bind, Option.bind_some]
    rw [ih e List.mem_cons_self fuel _ (by omega) hends]
    simp only [Option.bind_some, hclose, if_neg hcomma, if_true]
    rfl
  | cons f es ihes =>
    obtain ⟨fuel, rfl⟩ : ∃ k, fuel = k + 1 := ⟨fuel - 1, by omega⟩
    have he := hvalid e List.mem_cons_self
    have hnode := hnodes e List.mem_cons_self
    have hlength := text_length_le e
    have hsplit : entriesText (e :: f :: es) = e.text ++ 0x2C :: entriesText (f :: es) := by
      rw [entriesText_cons, trailing_cons, entriesText_cons]
    have hends : Ends (e.after ++ 0x2C :: (entriesText (f :: es) ++ kind.closer :: t)) :=
      ends_blank he.after (ends_comma _)
    have hcomma : skipSpace (e.after ++ 0x2C :: (entriesText (f :: es) ++ kind.closer :: t))
        = 0x2C :: (entriesText (f :: es) ++ kind.closer :: t) := by
      rw [skipSpace_blank he.after]
      rfl
    rw [hsplit, List.length_append, List.length_cons] at hfuel
    have hrest := ihes f (fun g hg => hvalid g (List.mem_cons_of_mem _ hg))
      (fun g hg => hnodes g (List.mem_cons_of_mem _ hg))
      (fun g hg => ih g (List.mem_cons_of_mem _ hg)) fuel (by omega)
    rw [hsplit, List.append_assoc, List.cons_append, skipSpace_entry he hnode, readEntries,
      readKey_text he hnode]
    simp only [Option.bind_eq_bind, Option.bind_some]
    rw [ih e List.mem_cons_self fuel _ (by omega) hends]
    simp only [Option.bind_some, hcomma, if_true, hrest]
    rfl

theorem readGroup_text {kind : Kind} {blank : Bytes} {es : List (Entry Node)} (hblank : Blank blank)
    (hvalid : ∀ f ∈ es, f.Valid m kind) (hnodes : ∀ f ∈ es, f.node.Valid m)
    (ih : ∀ f ∈ es, ∀ (fuel : Nat) (t : Bytes), 2 * f.node.text.length ≤ fuel → Ends t →
      readNode m fuel (f.node.text ++ t) = some (f.node.value m, t))
    (fuel : Nat) (t : Bytes) (hfuel : 2 * (entriesText es).length + 2 ≤ fuel) :
    readGroup m fuel kind (skipSpace (blank ++ (entriesText es ++ kind.closer :: t)))
      = some (es.map fun f => (f.name m, f.node.value m), t) := by
  obtain ⟨fuel, rfl⟩ : ∃ k, fuel = k + 1 := ⟨fuel - 1, by omega⟩
  rw [skipSpace_blank hblank]
  cases es with
  | nil =>
    have hclose : skipSpace (kind.closer :: t) = kind.closer :: t := by cases kind <;> rfl
    rw [entriesText, List.nil_append, hclose, readGroup]
    simp only [if_true, List.map_nil]
  | cons e es =>
    have hread := readEntries_text e es hvalid hnodes ih fuel t (by omega)
    have he := hvalid e List.mem_cons_self
    have hnode := hnodes e List.mem_cons_self
    obtain ⟨b, rest, hfirst, hb⟩ := he.first hnode
    have hstart : ∃ u, skipSpace (entriesText (e :: es) ++ kind.closer :: t) = b :: u := by
      rw [entriesText_cons, List.append_assoc, skipSpace_entry he hnode,
        ← List.append_assoc (headText e.key), hfirst]
      exact ⟨_, rfl⟩
    obtain ⟨u, hu⟩ := hstart
    rw [hu] at hread ⊢
    rw [readGroup, if_neg (closer_ne_first hb kind)]
    exact hread

/-- The digits of a number are read to their end. -/
theorem takeWhile_token {token t : Bytes} (htoken : IsToken token) (ht : Ends t) :
    (token ++ t).takeWhile isNumeric = token ∧ (token ++ t).dropWhile isNumeric = t := by
  obtain ⟨b, rest, rfl, hb, hrest⟩ := htoken
  have hall : ∀ c ∈ b :: rest, isNumeric c = true :=
    List.forall_mem_cons.mpr ⟨(isToken_first hb).2.1, hrest⟩
  rw [List.takeWhile_append_of_pos hall, List.dropWhile_append_of_pos hall]
  cases t with
  | nil => exact ⟨List.append_nil _, rfl⟩
  | cons c t =>
    have hc := ht c t rfl
    rw [List.takeWhile_cons_of_neg (by rw [hc]; exact Bool.false_ne_true),
      List.dropWhile_cons_of_neg (by rw [hc]; exact Bool.false_ne_true)]
    exact ⟨List.append_nil _, rfl⟩

theorem readNode_token {token : Bytes} (htoken : IsToken token) (fuel : Nat) {t : Bytes}
    (ht : Ends t) :
    readNode m (fuel + 1) (token ++ t) = (m.number token).map fun n => (n, t) := by
  obtain ⟨htake, hdrop⟩ := takeWhile_token htoken ht
  obtain ⟨b, rest, rfl, hb, -⟩ := htoken
  obtain ⟨-, -, hn, ht, hf, hquote, hbracket, hbrace⟩ := isToken_first hb
  rw [readNode, htake, hdrop]
  all_goals intro _ heq
  · exact hn (List.cons.inj heq).1
  · exact ht (List.cons.inj heq).1
  · exact hf (List.cons.inj heq).1
  · exact hquote (List.cons.inj heq).1
  · exact hbracket (List.cons.inj heq).1
  · exact hbrace (List.cons.inj heq).1

theorem readNode_text {n : Node} (h : n.Valid m) :
    ∀ (fuel : Nat) (t : Bytes), 2 * n.text.length ≤ fuel → Ends t →
      readNode m fuel (n.text ++ t) = some (n.value m, t) := by
  induction h with
  | null =>
    intro fuel t hfuel _
    obtain ⟨fuel, rfl⟩ : ∃ k, fuel = k + 1 := ⟨fuel - 1, by simp [Node.text] at hfuel; omega⟩
    rfl
  | bool b =>
    intro fuel t hfuel _
    have hpos : 0 < (Node.bool b).text.length := (Node.Valid.bool (m := m) b).length_pos
    obtain ⟨fuel, rfl⟩ : ∃ k, fuel = k + 1 := ⟨fuel - 1, by omega⟩
    cases b with
    | true => rfl
    | false => rfl
  | @number token htoken hknown =>
    intro fuel t hfuel ht
    have hpos := (Node.Valid.number (m := m) htoken hknown).length_pos
    obtain ⟨fuel, rfl⟩ : ∃ k, fuel = k + 1 := ⟨fuel - 1, by omega⟩
    obtain ⟨v, hv⟩ := Option.isSome_iff_exists.mp hknown
    rw [Node.text, readNode_token htoken fuel ht, Node.value, hv]
    rfl
  | @string literal hliteral hknown =>
    intro fuel t hfuel ht
    have hpos := (Node.Valid.string (m := m) hliteral hknown).length_pos
    obtain ⟨fuel, rfl⟩ : ∃ k, fuel = k + 1 := ⟨fuel - 1, by omega⟩
    obtain ⟨body, rfl, hcloses⟩ := hliteral
    obtain ⟨k, hk⟩ := Option.isSome_iff_exists.mp hknown
    rw [Node.text, Node.value, List.cons_append, readNode]
    simp only [splitLiteral_closes hcloses, Option.bind_eq_bind, Option.bind_some, hk,
      Option.getD_some]
  | @group kind blank es hblank hvalid hkeys hnodes ih =>
    intro fuel t hfuel ht
    have hpos := (Node.Valid.group hblank hvalid hkeys hnodes).length_pos
    obtain ⟨fuel, rfl⟩ : ∃ k, fuel = k + 1 := ⟨fuel - 1, by omega⟩
    have hinside : (Node.group kind blank es).text ++ t
        = kind.opener :: (blank ++ (entriesText es ++ kind.closer :: t)) := by
      rw [Node.text, List.cons_append, List.append_assoc, List.append_assoc]
      rfl
    have hlength : 2 * (entriesText es).length + 2 ≤ fuel := by
      rw [Node.text] at hfuel
      simp only [List.length_cons, List.length_append, List.length_nil] at hfuel
      omega
    have hgroup := readGroup_text hblank hvalid hnodes ih fuel t hlength
    rw [hinside]
    cases kind with
    | array =>
      rw [show Kind.opener .array = 0x5B from rfl, readNode, hgroup, value_array, Option.map_some,
        List.map_map]
      rfl
    | object =>
      rw [show Kind.opener .object = 0x7B from rfl, readNode, hgroup, value_object]
      rfl

/-- The reader takes every text of the grammar to its value. -/
theorem read_text (d : Document m) : read m d.text = some d.value := by
  obtain ⟨b, rest, hfirst, hb⟩ := d.valid.first
  have hlead : skipSpace d.text = d.root.text ++ d.trail := by
    rw [Document.text, skipSpace_blank d.blank_lead, hfirst, List.cons_append]
    exact skipSpace_first hb _
  have hends : Ends d.trail := by
    have h := ends_blank d.blank_trail (t := []) (by intro b rest h; cases h)
    rwa [List.append_nil] at h
  have hnode := readNode_text d.valid (2 * d.text.length) d.trail
    (by rw [Document.text]; simp only [List.length_append]; omega) hends
  rw [read, hlead, hnode]
  simp only [Option.bind_eq_bind, Option.bind_some, skipSpace_all d.blank_trail, if_true]
  rfl

end

/-! ## Leaving an entry out -/

/-- What stands before the value of an entry in its group, and after it. -/
def preText (kind : Kind) (blank : Bytes) (l : List (Entry Node)) (e : Entry Node) : Bytes :=
  kind.opener :: (blank ++ (leading l ++ (e.before ++ headText e.key)))

def postText (kind : Kind) (e : Entry Node) (r : List (Entry Node)) : Bytes :=
  e.after ++ (trailing r ++ [kind.closer])

theorem group_text (kind : Kind) (blank : Bytes) (l : List (Entry Node)) (e : Entry Node)
    (r : List (Entry Node)) :
    (Node.group kind blank (l ++ e :: r)).text
      = preText kind blank l e ++ (e.node.text ++ postText kind e r) := by
  rw [Node.text, entriesText_append, Entry.text, preText, postText]
  simp only [List.append_assoc, List.cons_append]

/-- An entry and what goes with it: what is left before it in the brackets, what is taken out,
what is left after it, and the group without it. -/
inductive Cut (kind : Kind) (blank : Bytes) :
    List (Entry Node) → Entry Node → List (Entry Node) → Bytes → Bytes → Bytes → Node → Prop
  /-- nothing else is in the group -/
  | sole (e : Entry Node) : Cut kind blank [] e [] [] (blank ++ e.text) [] (.group kind [] [])
  /-- the comma after the entry goes with it -/
  | next (l : List (Entry Node)) (e f : Entry Node) (r : List (Entry Node)) :
    Cut kind blank l e (f :: r) (blank ++ (leading l ++ e.before))
      (headText e.key ++ (e.node.text ++ (e.after ++ 0x2C :: f.before)))
      (headText f.key ++ (f.node.text ++ (f.after ++ trailing r)))
      (.group kind blank (l ++ { f with before := e.before } :: r))
  /-- the comma before the last entry goes with it -/
  | last (l : List (Entry Node)) (p e : Entry Node) :
    Cut kind blank (l ++ [p]) e [] (blank ++ (leading l ++ p.text))
      (0x2C :: (e.before ++ (headText e.key ++ e.node.text))) e.after
      (.group kind blank (l ++ [{ p with after := p.after ++ e.after }]))

/-- Taken out: an entry, at most one comma beside it, and white space. -/
def Adjoins (e : Entry Node) (removed : Bytes) : Prop :=
  ∃ w₁ w₂ w₃, Blank w₁ ∧ Blank w₂ ∧ Blank w₃ ∧
    (removed = w₁ ++ (headText e.key ++ e.node.text) ++ w₂
      ∨ removed = w₁ ++ (headText e.key ++ e.node.text) ++ (w₂ ++ 0x2C :: w₃)
      ∨ removed = w₁ ++ 0x2C :: w₂ ++ (headText e.key ++ e.node.text) ++ w₃)

theorem Cut.exists (kind : Kind) (blank : Bytes) (l : List (Entry Node)) (e : Entry Node)
    (r : List (Entry Node)) : ∃ left removed right g, Cut kind blank l e r left removed right g := by
  cases r with
  | cons f r => exact ⟨_, _, _, _, .next l e f r⟩
  | nil =>
    rcases List.eq_nil_or_concat l with rfl | ⟨l, p, rfl⟩
    · exact ⟨_, _, _, _, .sole e⟩
    · rw [List.concat_eq_append]
      exact ⟨_, _, _, _, .last l p e⟩

theorem blank_nil : Blank [] := by
  intro b hb
  cases hb

theorem blank_append {v w : Bytes} (hv : Blank v) (hw : Blank w) : Blank (v ++ w) := by
  intro b hb
  exact (List.mem_append.mp hb).elim (hv b) (hw b)

section

variable {κ α : Type} {m : Meaning κ α} {kind : Kind} {blank : Bytes}
  {l r : List (Entry Node)} {e : Entry Node} {left removed right : Bytes} {g : Node}

theorem Cut.text (h : Cut kind blank l e r left removed right g) :
    (Node.group kind blank (l ++ e :: r)).text
      = kind.opener :: (left ++ (removed ++ (right ++ [kind.closer]))) := by
  rw [Node.text, entriesText_append]
  cases h with
  | sole =>
    simp only [leading, trailing, List.flatMap_nil, List.nil_append, List.append_nil,
      List.append_assoc]
  | next =>
    rw [trailing_cons, Entry.text, Entry.text]
    simp only [List.append_assoc, List.cons_append]
  | last =>
    rw [leading_append, leading_cons]
    simp only [Entry.text, leading, trailing, List.flatMap_nil, List.append_assoc,
      List.cons_append, List.nil_append, List.append_nil]

theorem Cut.excised (h : Cut kind blank l e r left removed right g) :
    g.text = kind.opener :: (left ++ (right ++ [kind.closer])) := by
  cases h with
  | sole => rw [Node.text, entriesText]
  | next =>
    rw [Node.text, entriesText_append, Entry.text]
    simp only [List.append_assoc]
  | last =>
    rw [Node.text, entriesText_append, Entry.text, Entry.text, trailing, List.flatMap_nil]
    simp only [List.append_assoc, List.nil_append]

theorem Cut.adjoins (h : Cut kind blank l e r left removed right g) (hblank : Blank blank)
    (hvalid : ∀ f ∈ l ++ e :: r, f.Valid m kind) : Adjoins e removed := by
  have he := hvalid e (by simp)
  cases h with
  | sole =>
    refine ⟨blank ++ e.before, e.after, [], blank_append hblank he.before, he.after, blank_nil,
      .inl ?_⟩
    rw [Entry.text]
    simp only [List.append_assoc]
  | next _ _ f _ =>
    have hf := hvalid f (by simp)
    refine ⟨[], e.after, f.before, blank_nil, he.after, hf.before, .inr (.inl ?_)⟩
    simp only [List.append_assoc, List.nil_append]
  | last =>
    refine ⟨[], e.before, [], blank_nil, he.before, blank_nil, .inr (.inr ?_)⟩
    simp only [List.nil_append, List.append_nil, List.cons_append]

end

section

variable {κ α : Type} [Inhabited κ] {m : Meaning κ α} {kind : Kind} {blank : Bytes}
  {l r : List (Entry Node)} {e : Entry Node} {left removed right : Bytes} {g : Node}

/-- What the entries of a group are called and stand for. -/
def pairs (m : Meaning κ α) (es : List (Entry Node)) : List (κ × α) :=
  es.map fun e => (e.name m, e.node.value m)

/-- The entries left are the others. -/
theorem Cut.others (h : Cut kind blank l e r left removed right g) :
    ∃ blank' es, g = .group kind blank' es ∧ pairs m es = pairs m (l ++ r) := by
  cases h with
  | sole => exact ⟨_, _, rfl, rfl⟩
  | next =>
    refine ⟨_, _, rfl, ?_⟩
    simp only [pairs, List.map_append, List.map_cons]
    rfl
  | last =>
    refine ⟨_, _, rfl, ?_⟩
    simp only [pairs, List.map_append, List.map_cons, List.append_nil]
    rfl

theorem entryDepth_eq (e : Entry Node) : entryDepth e = e.node.depth := by
  cases e
  rw [entryDepth]

theorem depth_le_entriesDepth {es : List (Entry Node)} {f : Entry Node} (hf : f ∈ es) :
    f.node.depth ≤ entriesDepth es := by
  induction es with
  | nil => cases hf
  | cons a es ih =>
    rw [entriesDepth, entryDepth_eq]
    rcases List.mem_cons.mp hf with rfl | hf
    · exact Nat.le_max_left _ _
    · exact Nat.le_trans (ih hf) (Nat.le_max_right _ _)

theorem entriesDepth_le {es : List (Entry Node)} {n : Nat} (h : ∀ f ∈ es, f.node.depth ≤ n) :
    entriesDepth es ≤ n := by
  induction es with
  | nil => exact Nat.zero_le n
  | cons a es ih =>
    rw [entriesDepth, entryDepth_eq]
    exact Nat.max_le.mpr ⟨h a List.mem_cons_self, ih fun f hf => h f (List.mem_cons_of_mem _ hf)⟩

/-- What is left is as the grammar has it and no deeper. -/
theorem Cut.valid (h : Cut kind blank l e r left removed right g)
    (hgroup : (Node.group kind blank (l ++ e :: r)).Valid m) :
    g.Valid m ∧ g.depth ≤ (Node.group kind blank (l ++ e :: r)).depth := by
  cases hgroup with
  | group hblank hvalid hkeys hnodes =>
    have he := hvalid e (by simp)
    have hdepth : ∀ f ∈ l ++ e :: r, f.node.depth ≤ entriesDepth (l ++ e :: r) := by
      intro f hf
      exact depth_le_entriesDepth hf
    have hnames : kind = .object → ((l ++ r).map (Entry.name m)).Nodup := by
      intro hk
      have hsub : (l ++ r).Sublist (l ++ e :: r) := List.Sublist.append_left (List.sublist_cons_self e r) l
      exact (hsub.map (Entry.name m)).nodup (hkeys hk)
    cases h with
    | sole =>
      refine ⟨.group blank_nil (by simp) (by simp) (by simp), ?_⟩
      rw [Node.depth, Node.depth, entriesDepth]
      omega
    | next _ _ f r =>
      have hf := hvalid f (by simp)
      have hall : ∀ a ∈ l ++ { f with before := e.before } :: r,
          a.Valid m kind ∧ a.node.Valid m ∧ a.node.depth ≤ entriesDepth (l ++ e :: f :: r) := by
        intro a ha
        rcases List.mem_append.mp ha with ha | ha
        · exact ⟨hvalid a (by simp [ha]), hnodes a (by simp [ha]), hdepth a (by simp [ha])⟩
        · rcases List.mem_cons.mp ha with rfl | ha
          · exact ⟨⟨he.before, hf.after, hf.array, hf.object⟩, hnodes f (by simp),
              hdepth f (by simp)⟩
          · exact ⟨hvalid a (by simp [ha]), hnodes a (by simp [ha]), hdepth a (by simp [ha])⟩
      refine ⟨.group hblank (fun a ha => (hall a ha).1) (fun hk => ?_)
        (fun a ha => (hall a ha).2.1), ?_⟩
      · have hn := hnames hk
        rwa [List.map_append, List.map_cons] at hn ⊢
      · rw [Node.depth, Node.depth]
        exact Nat.add_le_add_right (entriesDepth_le fun a ha => (hall a ha).2.2) 1
    | last l p =>
      have hp := hvalid p (by simp)
      have hall : ∀ a ∈ l ++ [{ p with after := p.after ++ e.after }],
          a.Valid m kind ∧ a.node.Valid m
            ∧ a.node.depth ≤ entriesDepth (l ++ [p] ++ [e]) := by
        intro a ha
        rcases List.mem_append.mp ha with ha | ha
        · exact ⟨hvalid a (by simp [ha]), hnodes a (by simp [ha]), hdepth a (by simp [ha])⟩
        · rw [List.mem_singleton.mp ha]
          exact ⟨⟨hp.before, blank_append hp.after he.after, hp.array, hp.object⟩,
            hnodes p (by simp), hdepth p (by simp)⟩
      refine ⟨.group hblank (fun a ha => (hall a ha).1) (fun hk => ?_)
        (fun a ha => (hall a ha).2.1), ?_⟩
      · have hn := hnames hk
        rw [List.append_nil, List.map_append] at hn
        rw [List.map_append]
        exact hn
      · rw [Node.depth, Node.depth]
        exact Nat.add_le_add_right (entriesDepth_le fun a ha => (hall a ha).2.2) 1

/-! ## Changing what is inside -/

theorem replace_text (kind : Kind) (blank : Bytes) (l : List (Entry Node)) (e : Entry Node)
    (r : List (Entry Node)) (n : Node) :
    (Node.group kind blank (l ++ { e with node := n } :: r)).text
      = preText kind blank l e ++ (n.text ++ postText kind e r) :=
  group_text kind blank l { e with node := n } r

/-- A value in a group may stand for another. -/
theorem replace_valid {n : Node} (hgroup : (Node.group kind blank (l ++ e :: r)).Valid m)
    (hn : n.Valid m) (hdepth : n.depth ≤ e.node.depth) :
    (Node.group kind blank (l ++ { e with node := n } :: r)).Valid m
      ∧ (Node.group kind blank (l ++ { e with node := n } :: r)).depth
        ≤ (Node.group kind blank (l ++ e :: r)).depth := by
  cases hgroup with
  | group hblank hvalid hkeys hnodes =>
    have he := hvalid e (by simp)
    have hall : ∀ a ∈ l ++ { e with node := n } :: r,
        a.Valid m kind ∧ a.node.Valid m ∧ a.node.depth ≤ entriesDepth (l ++ e :: r) := by
      intro a ha
      rcases List.mem_append.mp ha with ha | ha
      · exact ⟨hvalid a (by simp [ha]), hnodes a (by simp [ha]),
          depth_le_entriesDepth (by simp [ha])⟩
      · rcases List.mem_cons.mp ha with rfl | ha
        · exact ⟨⟨he.before, he.after, he.array, he.object⟩, hn,
            Nat.le_trans hdepth (depth_le_entriesDepth (by simp))⟩
        · exact ⟨hvalid a (by simp [ha]), hnodes a (by simp [ha]),
            depth_le_entriesDepth (by simp [ha])⟩
    refine ⟨.group hblank (fun a ha => (hall a ha).1) (fun hk => ?_)
      (fun a ha => (hall a ha).2.1), ?_⟩
    · have hnames := hkeys hk
      rwa [List.map_append, List.map_cons] at hnames ⊢
    · rw [Node.depth, Node.depth]
      exact Nat.add_le_add_right (entriesDepth_le fun a ha => (hall a ha).2.2) 1

/-! ## Places -/

inductive Step (κ : Type) where
  | key (k : κ)
  | index (i : Nat)

/-- A step leads to the member of its key, or to the item of its place. -/
def Leads (m : Meaning κ α) (kind : Kind) (l : List (Entry Node)) (e : Entry Node) :
    Step κ → Prop
  | .key k => kind = .object ∧ e.name m = k
  | .index i => kind = .array ∧ l.length = i

/-- Where a path leads: the value there, and the text before and after it. -/
inductive Node.At (m : Meaning κ α) : Node → List (Step κ) → Bytes → Node → Bytes → Prop
  | here (n : Node) : Node.At m n [] [] n []
  | step {kind : Kind} {blank : Bytes} {l r : List (Entry Node)} {e : Entry Node} {s : Step κ}
    {path : List (Step κ)} {pre post : Bytes} {n : Node} : Leads m kind l e s →
      Node.At m e.node path pre n post →
      Node.At m (.group kind blank (l ++ e :: r)) (s :: path) (preText kind blank l e ++ pre) n
        (post ++ postText kind e r)

theorem Node.At.text {n inner : Node} {path : List (Step κ)} {pre post : Bytes}
    (h : n.At m path pre inner post) : n.text = pre ++ (inner.text ++ post) := by
  induction h with
  | here n => rw [List.nil_append, List.append_nil]
  | step _ _ ih =>
    rw [group_text, ih]
    simp only [List.append_assoc]

end

/-! ## What a reader leaves -/

theorem skipSpace_suffix (t : Bytes) : skipSpace t <:+ t := List.dropWhile_suffix _

theorem splitLiteral_suffix {t body rest : Bytes} (h : splitLiteral t = some (body, rest)) :
    rest <:+ t := by
  induction t using splitLiteral.induct generalizing body with
  | case1 => cases h
  | case2 t =>
    rw [splitLiteral] at h
    cases h
    exact List.suffix_cons _ _
  | case3 b t ih =>
    rw [splitLiteral] at h
    obtain ⟨s, hs, hpair⟩ := Option.map_eq_some_iff.mp h
    cases hpair
    exact ((ih hs).trans (List.suffix_cons _ _)).trans (List.suffix_cons _ _)
  | case4 b t _ _ ih =>
    rw [splitLiteral] at h
    · obtain ⟨s, hs, hpair⟩ := Option.map_eq_some_iff.mp h
      cases hpair
      exact (ih hs).trans (List.suffix_cons _ _)
    · assumption
    · assumption

section

variable {κ α : Type} [Inhabited κ] {m : Meaning κ α}

theorem readKey_suffix {kind : Kind} {t rest : Bytes} {k : κ}
    (h : readKey m kind t = some (k, rest)) : rest <:+ t := by
  unfold readKey at h
  split at h
  · cases h
    exact List.suffix_refl t
  next t =>
    obtain ⟨⟨body, t'⟩, hbody, h⟩ := Option.bind_eq_some_iff.mp h
    obtain ⟨k', -, h⟩ := Option.bind_eq_some_iff.mp h
    split at h
    next t'' hcolon =>
      cases h
      have hspace := skipSpace_suffix t'
      rw [hcolon] at hspace
      exact (((skipSpace_suffix t'').trans (List.suffix_cons _ _)).trans hspace).trans
        ((splitLiteral_suffix hbody).trans (List.suffix_cons _ _))
    · cases h
  · cases h

/-- How a value is read: it is a group, or the rest of the text comes after it. -/
theorem readNode_cases {fuel : Nat} {t rest : Bytes} {v : α}
    (h : readNode m (fuel + 1) t = some (v, rest)) :
    (∃ r t', v = m.object r ∧ readGroup m fuel .object (skipSpace t') = some (r, rest)
        ∧ t = 0x7B :: t')
      ∨ (∃ r t', v = m.array (r.map (·.2))
        ∧ readGroup m fuel .array (skipSpace t') = some (r, rest) ∧ t = 0x5B :: t')
      ∨ (v = m.null ∨ (∃ b, v = m.bool b) ∨ (∃ k, v = m.string k)
          ∨ ∃ token, m.number token = some v) ∧ rest <:+ t := by
  unfold readNode at h
  split at h
  · cases h
    exact .inr (.inr ⟨.inl rfl, ⟨[0x6E, 0x75, 0x6C, 0x6C], rfl⟩⟩)
  · cases h
    exact .inr (.inr ⟨.inr (.inl ⟨true, rfl⟩), ⟨[0x74, 0x72, 0x75, 0x65], rfl⟩⟩)
  · cases h
    exact .inr (.inr ⟨.inr (.inl ⟨false, rfl⟩), ⟨[0x66, 0x61, 0x6C, 0x73, 0x65], rfl⟩⟩)
  next t =>
    obtain ⟨⟨body, t'⟩, hbody, h⟩ := Option.bind_eq_some_iff.mp h
    obtain ⟨k, -, h⟩ := Option.bind_eq_some_iff.mp h
    cases h
    exact .inr (.inr ⟨.inr (.inr (.inl ⟨k, rfl⟩)),
      (splitLiteral_suffix hbody).trans (List.suffix_cons _ _)⟩)
  next t =>
    obtain ⟨r, hr, hpair⟩ := Option.map_eq_some_iff.mp h
    cases hpair
    exact .inr (.inl ⟨r.1, t, rfl, hr, rfl⟩)
  next t =>
    obtain ⟨r, hr, hpair⟩ := Option.map_eq_some_iff.mp h
    cases hpair
    exact .inl ⟨r.1, t, rfl, hr, rfl⟩
  · obtain ⟨n, hn, hpair⟩ := Option.map_eq_some_iff.mp h
    cases hpair
    exact .inr (.inr ⟨.inr (.inr (.inr ⟨_, hn⟩)), List.dropWhile_suffix _⟩)

/-- A value ends where the rest begins, and a group with its closing bracket. -/
theorem reads_suffix (fuel : Nat) :
    (∀ t v rest, readNode m fuel t = some (v, rest) → rest <:+ t)
      ∧ (∀ kind t r rest, readGroup m fuel kind t = some (r, rest) → kind.closer :: rest <:+ t)
      ∧ ∀ kind t r rest, readEntries m fuel kind t = some (r, rest) → kind.closer :: rest <:+ t := by
  induction fuel with
  | zero =>
    refine ⟨fun t v rest h => ?_, fun kind t r rest h => ?_, fun kind t r rest h => ?_⟩
    · rw [readNode] at h
      cases h
    · rw [readGroup] at h
      cases h
    · rw [readEntries] at h
      cases h
  | succ fuel ih =>
    obtain ⟨ihNode, ihGroup, ihEntries⟩ := ih
    refine ⟨fun t v rest h => ?_, fun kind t r rest h => ?_, fun kind t r rest h => ?_⟩
    · have hgroup : ∀ kind t' r, readGroup m fuel kind (skipSpace t') = some (r, rest) →
          rest <:+ t' := fun kind t' r hr =>
        ((List.suffix_cons _ _).trans (ihGroup _ _ _ _ hr)).trans (skipSpace_suffix t')
      rcases readNode_cases h with ⟨r, t', -, hr, rfl⟩ | ⟨r, t', -, hr, rfl⟩ | ⟨-, hrest⟩
      · exact (hgroup _ _ _ hr).trans (List.suffix_cons _ _)
      · exact (hgroup _ _ _ hr).trans (List.suffix_cons _ _)
      · exact hrest
    · unfold readGroup at h
      split at h
      · cases h
      next b t =>
        split at h
        next hcloser =>
          cases h
          exact hcloser ▸ List.suffix_refl _
        · exact ihEntries _ _ _ _ h
    · rw [readEntries] at h
      obtain ⟨⟨k, t'⟩, hkey, h⟩ := Option.bind_eq_some_iff.mp h
      obtain ⟨⟨v, t''⟩, hnode, h⟩ := Option.bind_eq_some_iff.mp h
      have htail := ((skipSpace_suffix t'').trans (ihNode _ _ _ hnode)).trans (readKey_suffix hkey)
      simp only at h
      split at h
      · cases h
      next b t''' hspace =>
        rw [hspace] at htail
        split at h
        next =>
          obtain ⟨s, hs, hpair⟩ := Option.map_eq_some_iff.mp h
          cases hpair
          exact (((ihEntries _ _ _ _ hs).trans (skipSpace_suffix _)).trans
            (List.suffix_cons _ _)).trans htail
        next =>
          split at h
          next hcloser =>
            cases h
            rwa [hcloser] at htail
          · cases h
/-- The text of an object ends with its closing brace. -/
theorem read_object {t : Bytes} {v : α} (h : read m t = some v) :
    (v = m.null ∨ (∃ b, v = m.bool b) ∨ (∃ k, v = m.string k) ∨ (∃ token, m.number token = some v)
        ∨ ∃ vs, v = m.array vs)
      ∨ ∃ rest, 0x7D :: rest <:+ t ∧ skipSpace rest = [] := by
  obtain ⟨⟨v', rest⟩, hnode, h⟩ := Option.bind_eq_some_iff.mp h
  obtain ⟨hblank, h⟩ : skipSpace rest = [] ∧ v' = v := by
    simp only at h
    split at h
    next hblank => exact ⟨hblank, Option.some.inj h⟩
    next => cases h
  subst h
  cases hfuel : 2 * t.length with
  | zero =>
    rw [hfuel, readNode] at hnode
    cases hnode
  | succ fuel =>
    rw [hfuel] at hnode
    rcases readNode_cases hnode with ⟨r, t', -, hr, ht'⟩ | ⟨r, t', hv, -, -⟩ | ⟨hv, -⟩
    · have hcloser := ((reads_suffix fuel).2.1 _ _ _ _ hr).trans (skipSpace_suffix t')
      have hopen := skipSpace_suffix t
      rw [ht'] at hopen
      exact .inr ⟨rest, (hcloser.trans (List.suffix_cons _ _)).trans hopen, hblank⟩
    · exact .inl (.inr (.inr (.inr (.inr ⟨_, hv⟩))))
    · rcases hv with hv | hv | hv | hv
      · exact .inl (.inl hv)
      · exact .inl (.inr (.inl hv))
      · exact .inl (.inr (.inr (.inl hv)))
      · exact .inl (.inr (.inr (.inr (.inl hv))))

end

end JsonText
