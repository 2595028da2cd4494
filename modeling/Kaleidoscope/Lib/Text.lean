import Mathlib.Data.List.Basic
import Mathlib.Data.UInt

/-!
# Text

Text is the list of its characters, so that it can be taken apart by pattern matching and
compared by evaluation.  Lengths are in UTF-8 bytes where the programs count bytes.
-/

/-- Text as the list of its characters. -/
abbrev Text := List Char

abbrev Bytes := ByteArray

theorem toList_data_inj {a b : Bytes} : a.data.toList = b.data.toList ↔ a = b := by
  cases a
  cases b
  simp

/-- Bytes are compared as lists, so that each of them is read once. -/
instance decidableEqBytes : DecidableEq Bytes := fun _ _ => decidable_of_iff _ toList_data_inj

namespace Text

/-- What is said of the elements of a list is decided from the list, also where the type of the
elements is finite. -/
instance (priority := high) decidableForallMem {α : Type} {p : α → Prop} [DecidablePred p]
    (l : List α) : Decidable (∀ a, a ∈ l → p a) := List.decidableBAll p l

instance (priority := high) decidableForallMemOption {α : Type} {p : α → Prop} [DecidablePred p]
    (o : Option α) : Decidable (∀ a, a ∈ o → p a) := Option.decidableForallMem o

instance (priority := high) decidableExistsMemOption {α : Type} {p : α → Prop} [DecidablePred p]
    (o : Option α) : Decidable (∃ a, a ∈ o ∧ p a) := Option.decidableExistsMem o

/-- The length in UTF-8 bytes. -/
def byteLen (t : Text) : Nat := (t.map Char.utf8Size).sum

/-- The UTF-8 bytes of a text. -/
def utf8 (t : Text) : ByteArray := (String.ofList t).toByteArray

/-- The bytes of an ASCII text. -/
def asciiBytes (t : Text) : Bytes := ⟨(t.map fun c => UInt8.ofNat c.toNat).toArray⟩

def isAsciiChar (c : Char) : Bool := c.toNat < 128

def isAscii (t : Text) : Bool := t.all isAsciiChar

/-- ASCII space, tab, line feed, form feed or carriage return. -/
def isAsciiWhitespace (c : Char) : Bool :=
  c == ' ' || c == '\t' || c == '\n' || c == '\x0c' || c == '\r'

def isAsciiAlphanumeric (c : Char) : Bool :=
  ('0' ≤ c && c ≤ '9') || ('a' ≤ c && c ≤ 'z') || ('A' ≤ c && c ≤ 'Z')

/-- The control characters (general category Cc). -/
def isControl (c : Char) : Bool := c.toNat < 32 || (127 ≤ c.toNat && c.toNat < 160)

/-- The characters with the property White_Space. -/
def isWhitespace (c : Char) : Bool :=
  let n := c.toNat
  (9 ≤ n && n ≤ 13) || n == 0x20 || n == 0x85 || n == 0xA0 || n == 0x1680
    || (0x2000 ≤ n && n ≤ 0x200A) || n == 0x2028 || n == 0x2029 || n == 0x202F || n == 0x205F
    || n == 0x3000

/-- The text without white space at its ends. -/
def trim (t : Text) : Text := ((t.dropWhile isWhitespace).reverse.dropWhile isWhitespace).reverse

/-- The text without `pre` at its start. -/
def stripPrefix : Text → Text → Option Text
  | [], t => some t
  | _ :: _, [] => none
  | c :: pre, d :: t => if c = d then stripPrefix pre t else none

/-- The text without `suf` at its end. -/
def stripSuffix (suf t : Text) : Option Text :=
  (stripPrefix suf.reverse t.reverse).map List.reverse

/-- Whether `pat` occurs in the text. -/
def contains (t pat : Text) : Bool :=
  match t with
  | [] => pat.isEmpty
  | _ :: rest => pat.isPrefixOf t || contains rest pat

/-- The pieces between the separators; one more than there are separators. -/
def split (sep : Char) : Text → List Text
  | [] => [[]]
  | c :: rest =>
    if c = sep then [] :: split sep rest
    else match split sep rest with
      | [] => [[c]]
      | piece :: pieces => (c :: piece) :: pieces

/-- The text without the trailing copies of one character. -/
def trimEndMatches (c : Char) (t : Text) : Text :=
  (t.reverse.dropWhile (· == c)).reverse

/-! ## Lemmas -/

theorem stripPrefix_append (pre t : Text) : stripPrefix pre (pre ++ t) = some t := by
  induction pre with
  | nil => rfl
  | cons c pre ih =>
    rw [List.cons_append, stripPrefix, if_pos rfl]
    exact ih

theorem stripPrefix_eq_some {pre t rest : Text} :
    stripPrefix pre t = some rest ↔ t = pre ++ rest := by
  constructor
  · intro h
    induction pre generalizing t with
    | nil =>
      cases h
      rfl
    | cons c pre ih =>
      cases t with
      | nil => cases h
      | cons d t =>
        rw [stripPrefix] at h
        split at h
        next hc =>
          rw [hc, ih h]
          rfl
        next => cases h
  · rintro rfl
    exact stripPrefix_append pre rest

theorem stripSuffix_append (t suf : Text) : stripSuffix suf (t ++ suf) = some t := by
  unfold stripSuffix
  rw [List.reverse_append, stripPrefix_append]
  simp

theorem stripSuffix_eq_some {suf t rest : Text} :
    stripSuffix suf t = some rest ↔ t = rest ++ suf := by
  constructor
  · intro h
    obtain ⟨u, hu, rfl⟩ := Option.map_eq_some_iff.mp h
    have ht := stripPrefix_eq_some.mp hu
    rw [← List.reverse_reverse t, ht, List.reverse_append, List.reverse_reverse]
  · rintro rfl
    exact stripSuffix_append rest suf

theorem byteLen_of_isAscii {t : Text} (h : isAscii t = true) : byteLen t = t.length := by
  induction t with
  | nil => rfl
  | cons c t ih =>
    obtain ⟨hc, ht⟩ := Bool.and_eq_true _ _ ▸ h
    have hsize : c.utf8Size = 1 := by
      have hlt : c.toNat < 128 := of_decide_eq_true hc
      rw [Char.utf8Size]
      have hle : c.val ≤ 0x7F := by
        rw [UInt32.le_iff_toNat_le]
        show c.toNat ≤ 127
        omega
      simp [hle]
    have hrest := ih ht
    unfold byteLen at hrest ⊢
    rw [List.map_cons, List.sum_cons, hsize, hrest, List.length_cons]
    omega

end Text
