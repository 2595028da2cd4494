import Mathlib.Data.Nat.Digits.Defs
import Mathlib.Tactic.IntervalCases
import Kaleidoscope.JsonCrate
import Kaleidoscope.Lib.Utf8

/-!
# Writing JSON

The compact and the indented text of a value, and a reader for them: together a crate that keeps
to the laws.  Floating-point numbers it does not tell apart.

    crate_lawful    it reads what it wrote
-/

namespace Kaleidoscope.JsonWriter

open JsonSpan (Str)
open JsonText (Node Entry Key Kind Meaning Document isDigit)

/-! ## Numbers -/

def decimal (n : Nat) : Str :=
  if n = 0 then [0x30] else ((Nat.digits 10 n).reverse).map fun d => UInt8.ofNat (0x30 + d)

def natOf (t : Str) : Nat := Nat.ofDigits 10 (t.reverse.map fun b => b.toNat - 0x30)

def writeNumber : Number → Str
  | .posInt n => decimal n
  | .negInt n => 0x2D :: decimal n
  | .float _ => [0x30, 0x2E, 0x30]

/-- Integers of 64 bits; everything else is the floating-point zero. -/
def readNumber : Str → Option Number
  | [] => none
  | 0x2D :: digits =>
    if digits.all isDigit ∧ 0 < natOf digits ∧ natOf digits ≤ 2 ^ 63 then
      some (.negInt (natOf digits))
    else some (.float 0)
  | digits =>
    if digits.all isDigit ∧ natOf digits < 2 ^ 64 then some (.posInt (natOf digits))
    else some (.float 0)

theorem toNat_digit {d : Nat} (h : d < 10) : (UInt8.ofNat (0x30 + d)).toNat = 0x30 + d := by
  rw [UInt8.toNat_ofNat']
  omega

theorem decimal_digits (n : Nat) : (decimal n).all isDigit = true := by
  unfold decimal
  split
  · rfl
  · rw [List.all_map, List.all_reverse, List.all_eq_true]
    intro d hd
    have hlt : d < 10 := Nat.digits_lt_base (by omega) hd
    have hnat := toNat_digit hlt
    simp only [Function.comp, isDigit, Bool.and_eq_true, decide_eq_true_eq, UInt8.le_iff_toNat_le]
    rw [hnat]
    exact ⟨by show 48 ≤ _; omega, by show _ ≤ 57; omega⟩

theorem decimal_ne_nil (n : Nat) : decimal n ≠ [] := by
  unfold decimal
  split
  next => exact List.cons_ne_nil _ _
  next hn =>
    rw [Ne, List.map_eq_nil_iff, List.reverse_eq_nil_iff]
    exact Nat.digits_ne_nil_iff_ne_zero.mpr hn

theorem natOf_decimal (n : Nat) : natOf (decimal n) = n := by
  unfold natOf decimal
  split
  next hn =>
    subst hn
    rfl
  next hn =>
    rw [← List.map_reverse, List.reverse_reverse, List.map_map]
    have hid : (Nat.digits 10 n).map ((fun b : UInt8 => b.toNat - 0x30)
        ∘ fun d => UInt8.ofNat (0x30 + d)) = Nat.digits 10 n := by
      conv_rhs => rw [← List.map_id (Nat.digits 10 n)]
      refine List.map_congr_left fun d hd => ?_
      have hlt : d < 10 := Nat.digits_lt_base (by omega) hd
      simp only [Function.comp, id_eq]
      rw [toNat_digit hlt]
      omega
    rw [hid]
    exact Nat.ofDigits_digits 10 n

theorem first_digit {b : UInt8} {t : Str} (h : (b :: t).all isDigit = true) : b ≠ 0x2D := by
  rintro rfl
  cases h

/-- A number of 64 bits reads as itself. -/
theorem readNumber_write {n : Number} (h : n.isMachine = true) :
    readNumber (writeNumber n) = some (n.mapFloat fun _ => 0) := by
  cases n with
  | float bits => rfl
  | negInt n =>
    have hn := of_decide_eq_true h
    show (if (decimal n).all isDigit ∧ 0 < natOf (decimal n) ∧ natOf (decimal n) ≤ 2 ^ 63 then _
      else _) = _
    rw [natOf_decimal, if_pos ⟨decimal_digits n, hn⟩]
    rfl
  | posInt n =>
    have hn := of_decide_eq_true h
    have hdigits := decimal_digits n
    have hnat := natOf_decimal n
    show readNumber (decimal n) = _
    cases hd : decimal n with
    | nil => exact absurd hd (decimal_ne_nil n)
    | cons b t =>
      rw [hd] at hdigits hnat
      have hb := first_digit hdigits
      unfold readNumber
      split
      next h => cases h
      next h =>
        cases h
        exact absurd rfl hb
      next =>
        rw [hnat, if_pos ⟨hdigits, hn⟩]
        rfl

theorem token_number (n : Number) : JsonText.IsToken (writeNumber n) := by
  have hnumeric : ∀ t : Str, t.all isDigit = true → ∀ c ∈ t, JsonText.isNumeric c = true := by
    intro t ht c hc
    unfold JsonText.isNumeric
    rw [List.all_eq_true.mp ht c hc]
    rfl
  cases n with
  | float bits => exact ⟨0x30, [0x2E, 0x30], rfl, rfl, by decide⟩
  | negInt n => exact ⟨0x2D, decimal n, rfl, rfl, hnumeric _ (decimal_digits n)⟩
  | posInt n =>
    have hdigits := decimal_digits n
    show JsonText.IsToken (decimal n)
    cases hd : decimal n with
    | nil => exact absurd hd (decimal_ne_nil n)
    | cons b t =>
      rw [hd, List.all_cons, Bool.and_eq_true] at hdigits
      exact ⟨b, t, rfl, by rw [hdigits.1]; rfl, hnumeric t hdigits.2⟩

/-! ## Strings -/

def hexChar (d : Nat) : Char := if d < 10 then Char.ofNat (0x30 + d) else Char.ofNat (0x57 + d)

def hexValue (c : Char) : Option Nat :=
  if '0' ≤ c ∧ c ≤ '9' then some (c.toNat - 0x30)
  else if 'a' ≤ c ∧ c ≤ 'f' then some (c.toNat - 0x57)
  else if 'A' ≤ c ∧ c ≤ 'F' then some (c.toNat - 0x37)
  else none

def escape (c : Char) : Text :=
  if c = '"' ∨ c = '\\' then ['\\', c]
  else if c.toNat = 0x08 then ['\\', 'b']
  else if c.toNat = 0x09 then ['\\', 't']
  else if c.toNat = 0x0A then ['\\', 'n']
  else if c.toNat = 0x0C then ['\\', 'f']
  else if c.toNat = 0x0D then ['\\', 'r']
  else if c.toNat < 0x20 then
    ['\\', 'u', '0', '0', hexChar (c.toNat / 16), hexChar (c.toNat % 16)]
  else [c]

def simpleEscape (c : Char) : Option Char :=
  if c = '"' ∨ c = '\\' ∨ c = '/' then some c
  else if c = 'b' then some (Char.ofNat 0x08)
  else if c = 't' then some (Char.ofNat 0x09)
  else if c = 'n' then some (Char.ofNat 0x0A)
  else if c = 'f' then some (Char.ofNat 0x0C)
  else if c = 'r' then some (Char.ofNat 0x0D)
  else none

/-- The character of four hexadecimal digits, unless it is half of a pair. -/
def unitChar (a b c d : Char) : Option Char := do
  let n := (((← hexValue a) * 16 + (← hexValue b)) * 16 + (← hexValue c)) * 16 + (← hexValue d)
  if n.isValidChar then some (Char.ofNat n) else none

def unescape : Text → Option Text
  | [] => some []
  | '\\' :: 'u' :: a :: b :: c :: d :: t => do
    let char ← unitChar a b c d
    (unescape t).map (char :: ·)
  | '\\' :: e :: t => do
    let char ← simpleEscape e
    (unescape t).map (char :: ·)
  | c :: t => if c = '\\' ∨ c = '"' ∨ c.toNat < 0x20 then none else (unescape t).map (c :: ·)

def quote (s : Text) : Str := 0x22 :: (Utf8.encode (s.flatMap escape) ++ [0x22])

/-- The text that a literal spells. -/
def readString (literal : Str) : Option Text := (Utf8.decode literal.tail.dropLast).bind unescape

theorem eq_of_toNat {c d : Char} (h : c.toNat = d.toNat) : c = d := by
  rw [← Char.ofNat_toNat c, h, Char.ofNat_toNat]

theorem unescape_escape (c : Char) (t : Text) :
    unescape (escape c ++ t) = (unescape t).map (c :: ·) := by
  unfold escape
  by_cases hquote : c = '"' ∨ c = '\\'
  · rw [if_pos hquote]
    rcases hquote with rfl | rfl <;> rfl
  rw [if_neg hquote]
  by_cases hcontrol : c.toNat < 0x20
  · have hc : c = Char.ofNat c.toNat := (Char.ofNat_toNat c).symm
    generalize c.toNat = n at hcontrol hc
    subst hc
    interval_cases n <;> rfl
  · rw [if_neg (by omega), if_neg (by omega), if_neg (by omega), if_neg (by omega),
      if_neg (by omega), if_neg hcontrol]
    rw [not_or] at hquote
    show unescape (c :: t) = _
    rw [unescape]
    · rw [if_neg]
      rw [not_or, not_or]
      exact ⟨hquote.2, hquote.1, hcontrol⟩
    · rintro _ _ _ _ _ rfl _
      exact hquote.2 rfl
    · rintro _ _ rfl _
      exact hquote.2 rfl

theorem unescape_flatMap (s : Text) : unescape (s.flatMap escape) = some s := by
  induction s with
  | nil => rfl
  | cons c s ih => rw [List.flatMap_cons, unescape_escape, ih, Option.map_some]

theorem readString_quote (s : Text) : readString (quote s) = some s := by
  unfold readString quote
  rw [List.tail_cons, List.dropLast_concat, Utf8.decode_iff.mpr rfl, Option.bind_some,
    unescape_flatMap]

/-- The bytes of a character: itself, or none that is ASCII. -/
theorem mem_encodePoint {n : Nat} (hn : n < 0x110000) {b : UInt8}
    (h : b ∈ Unicode.encodeUtf8Point n) : n < 0x80 ∧ b.toNat = n ∨ 0x80 ≤ b.toNat := by
  unfold Unicode.encodeUtf8Point at h
  split at h
  next hone =>
    rw [List.mem_singleton] at h
    subst h
    exact .inl ⟨hone, Utf8.toNat_ofNat (by omega)⟩
  next hone =>
    right
    split at h
    · simp only [List.mem_cons, List.not_mem_nil, or_false] at h
      rcases h with rfl | rfl <;> rw [Utf8.toNat_ofNat (by omega)] <;> omega
    · split at h
      · simp only [List.mem_cons, List.not_mem_nil, or_false] at h
        rcases h with rfl | rfl | rfl <;> rw [Utf8.toNat_ofNat (by omega)] <;> omega
      · simp only [List.mem_cons, List.not_mem_nil, or_false] at h
        rcases h with rfl | rfl | rfl | rfl <;> rw [Utf8.toNat_ofNat (by omega)] <;> omega

theorem closes_plain {w t : Str} (hw : ∀ b ∈ w, b ≠ 0x22 ∧ b ≠ 0x5C) (ht : JsonText.Closes t) :
    JsonText.Closes (w ++ t) := by
  induction w with
  | nil => exact ht
  | cons b w ih =>
    rw [List.forall_mem_cons] at hw
    exact .plain hw.1.1 hw.1.2 (ih hw.2)

theorem closes_escape (c : Char) {t : Str} (ht : JsonText.Closes t) :
    JsonText.Closes (Utf8.encode (escape c) ++ t) := by
  unfold escape
  by_cases hquote : c = '"' ∨ c = '\\'
  · rw [if_pos hquote]
    rcases hquote with rfl | rfl <;> exact .escape ht
  rw [if_neg hquote]
  by_cases hcontrol : c.toNat < 0x20
  · have hc : c = Char.ofNat c.toNat := (Char.ofNat_toNat c).symm
    generalize c.toNat = n at hcontrol hc
    subst hc
    have hplain : ∀ w : Str, (w.all fun b => b != 0x22 && b != 0x5C) = true →
        JsonText.Closes (w ++ t) := by
      intro w hw
      refine closes_plain (fun b hb => ?_) ht
      simpa using List.all_eq_true.mp hw b hb
    interval_cases n <;> first | exact .escape ht | exact .escape (hplain _ (by decide +kernel))
  · rw [if_neg (by omega), if_neg (by omega), if_neg (by omega), if_neg (by omega),
      if_neg (by omega), if_neg hcontrol]
    refine closes_plain (fun b hb => ?_) ht
    rw [Utf8.encode, List.flatMap_singleton] at hb
    have hvalid := Utf8.char_valid c
    have hne : ∀ d : Char, d.toNat < 0x80 → c ≠ d → b ≠ UInt8.ofNat d.toNat := by
      rintro d hd hcd rfl
      have hnat : (UInt8.ofNat d.toNat).toNat = d.toNat := Utf8.toNat_ofNat (by omega)
      rcases mem_encodePoint (by omega) hb with ⟨-, hb⟩ | hb
      · exact hcd (eq_of_toNat (hb.symm.trans hnat))
      · omega
    rw [not_or] at hquote
    exact ⟨hne '"' (by decide) hquote.1, hne '\\' (by decide) hquote.2⟩

theorem literal_quote (s : Text) : JsonText.IsLiteral (quote s) := by
  refine ⟨_, rfl, ?_⟩
  induction s with
  | nil => exact .close
  | cons c s ih =>
    rw [List.flatMap_cons, Utf8.encode, List.flatMap_append, List.append_assoc]
    exact closes_escape c ih

/-! ## Values -/

/-- The white space before an entry at a depth, and after a colon. -/
structure Layout where
  line : Nat → Str
  space : Str

def compact : Layout where
  line := fun _ => []
  space := []

def indented : Layout where
  line := fun depth => 0x0A :: List.replicate (2 * depth) 0x20
  space := [0x20]

def Layout.Blank (layout : Layout) : Prop :=
  (∀ depth, JsonText.Blank (layout.line depth)) ∧ JsonText.Blank layout.space

section

variable (layout : Layout)

def Layout.last (depth : Nat) (isLast : Bool) : Str := if isLast then layout.line depth else []

mutual

def node (depth : Nat) : Value → Node
  | .null => .null
  | .bool b => .bool b
  | .number n => .number (writeNumber n)
  | .string s => .string (quote s)
  | .array items => .group .array [] (itemEntries depth items)
  | .object members => .group .object [] (memberEntries depth members)

def itemEntries (depth : Nat) : List Value → List (Entry Node)
  | [] => []
  | v :: vs =>
    ⟨layout.line (depth + 1), none, node (depth + 1) v, layout.last depth vs.isEmpty⟩
      :: itemEntries depth vs

def memberEntries (depth : Nat) : Members → List (Entry Node)
  | [] => []
  | (k, v) :: ms =>
    ⟨layout.line (depth + 1), some ⟨quote k, [], layout.space⟩, node (depth + 1) v,
      layout.last depth ms.isEmpty⟩ :: memberEntries depth ms

end

end

def meaning : Meaning Text Value :=
  JsonSpan.Serde.meaning ⟨readNumber, readString, fun _ => none⟩

section

variable {layout : Layout}

theorem name_member (before after : Str) (k : Text) (n : Node) :
    Entry.name meaning ⟨before, some ⟨quote k, [], layout.space⟩, n, after⟩ = k := by
  show (readString (quote k)).getD default = k
  rw [readString_quote]
  rfl

theorem names_members (depth : Nat) (ms : Members) :
    (memberEntries layout depth ms).map (Entry.name meaning) = ms.map Prod.fst := by
  induction ms with
  | nil => rfl
  | cons m ms ih =>
    rw [memberEntries, List.map_cons, List.map_cons, ih, name_member]

theorem mem_items {depth : Nat} {vs : List Value} {e : Entry Node}
    (h : e ∈ itemEntries layout depth vs) :
    ∃ v ∈ vs, ∃ isLast, e
      = ⟨layout.line (depth + 1), none, node layout (depth + 1) v, layout.last depth isLast⟩ := by
  induction vs with
  | nil => cases h
  | cons v vs ih =>
    rw [itemEntries] at h
    rcases List.mem_cons.mp h with rfl | h
    · exact ⟨v, List.mem_cons_self, _, rfl⟩
    · obtain ⟨w, hw, he⟩ := ih h
      exact ⟨w, List.mem_cons_of_mem _ hw, he⟩

theorem mem_members {depth : Nat} {ms : Members} {e : Entry Node}
    (h : e ∈ memberEntries layout depth ms) :
    ∃ m ∈ ms, ∃ isLast, e = ⟨layout.line (depth + 1), some ⟨quote m.1, [], layout.space⟩,
      node layout (depth + 1) m.2, layout.last depth isLast⟩ := by
  induction ms with
  | nil => cases h
  | cons m ms ih =>
    rw [memberEntries] at h
    rcases List.mem_cons.mp h with rfl | h
    · exact ⟨m, List.mem_cons_self, _, rfl⟩
    · obtain ⟨w, hw, he⟩ := ih h
      exact ⟨w, List.mem_cons_of_mem _ hw, he⟩

theorem blank_last (h : layout.Blank) (depth : Nat) (isLast : Bool) :
    JsonText.Blank (layout.last depth isLast) := by
  unfold Layout.last
  split
  · exact h.1 depth
  · exact JsonText.blank_nil

theorem node_valid (h : layout.Blank) {v : Value} {limit : Nat} (hdistinct : v.Distinct)
    (hwithin : v.Within limit) (depth : Nat) : (node layout depth v).Valid meaning := by
  induction hwithin generalizing depth with
  | null => exact .null
  | bool b => exact .bool b
  | @number _ n hn =>
    refine .number (token_number n) ?_
    show ((readNumber (writeNumber n)).map Value.number).isSome = true
    rw [readNumber_write hn]
    rfl
  | string s =>
    refine .string (literal_quote s) ?_
    show (readString (quote s)).isSome = true
    rw [readString_quote]
    rfl
  | @array _ vs _ ih =>
    cases hdistinct with
    | array hvs =>
      rw [node]
      refine .group JsonText.blank_nil (fun e he => ?_) nofun fun e he => ?_
      · obtain ⟨v, hv, isLast, rfl⟩ := mem_items he
        exact ⟨h.1 _, blank_last h _ _, fun _ => rfl, nofun⟩
      · obtain ⟨v, hv, isLast, rfl⟩ := mem_items he
        exact ih v hv (hvs v hv) (depth + 1)
  | @object _ ms _ ih =>
    cases hdistinct with
    | object hkeys hms =>
      rw [node]
      refine .group JsonText.blank_nil (fun e he => ?_) (fun _ => ?_) fun e he => ?_
      · obtain ⟨m, hm, isLast, rfl⟩ := mem_members he
        refine ⟨h.1 _, blank_last h _ _, nofun, fun _ => ⟨_, rfl, literal_quote _, ?_,
          JsonText.blank_nil, h.2⟩⟩
        show (readString (quote m.1)).isSome = true
        rw [readString_quote]
        rfl
      · rw [names_members]
        exact hkeys
      · obtain ⟨m, hm, isLast, rfl⟩ := mem_members he
        exact ih m hm (hms m hm) (depth + 1)

theorem node_value {v : Value} {limit : Nat} (hwithin : v.Within limit) (depth : Nat) :
    (node layout depth v).value meaning = v.mapFloats fun _ => 0 := by
  induction hwithin generalizing depth with
  | null => rfl
  | bool b => rfl
  | @number _ n hn =>
    show ((readNumber (writeNumber n)).map Value.number).getD .null = _
    rw [readNumber_write hn]
    rfl
  | string s =>
    show Value.string ((readString (quote s)).getD default) = _
    rw [readString_quote]
    rfl
  | @array _ vs hvs ih =>
    clear hvs
    rw [node, JsonText.value_array, Value.mapFloats_array]
    show Value.array _ = _
    congr 1
    induction vs with
    | nil => rfl
    | cons v vs ihs =>
      rw [List.forall_mem_cons] at ih
      rw [itemEntries, List.map_cons, List.map_cons, ih.1 (depth + 1), ihs ih.2]
  | @object _ ms hms ih =>
    clear hms
    rw [node, JsonText.value_object, Value.mapFloats_object]
    show Value.object _ = _
    congr 1
    induction ms with
    | nil => rfl
    | cons m ms ihs =>
      rw [List.forall_mem_cons] at ih
      rw [memberEntries, List.map_cons, List.map_cons, ih.1 (depth + 1), ihs ih.2, name_member]

end

/-! ## What the crate holds -/

mutual

/-- Whether the crate can hold a value whose objects are maps. -/
def fits (limit : Nat) : Value → Bool
  | .null => true
  | .bool _ => true
  | .number n => n.isMachine
  | .string _ => true
  | .array items =>
    match limit with
    | 0 => false
    | limit + 1 => fitsItems limit items
  | .object members =>
    match limit with
    | 0 => false
    | limit + 1 => decide (members.map Prod.fst).Nodup && fitsMembers limit members

def fitsItems (limit : Nat) : List Value → Bool
  | [] => true
  | v :: vs => fits limit v && fitsItems limit vs

def fitsMembers (limit : Nat) : Members → Bool
  | [] => true
  | (_, v) :: ms => fits limit v && fitsMembers limit ms

end

theorem fitsItems_eq (limit : Nat) (vs : List Value) : fitsItems limit vs = vs.all (fits limit) := by
  induction vs with
  | nil => rfl
  | cons v vs ih => rw [fitsItems, List.all_cons, ih]

theorem fitsMembers_eq (limit : Nat) (ms : Members) :
    fitsMembers limit ms = ms.all fun m => fits limit m.2 := by
  induction ms with
  | nil => rfl
  | cons m ms ih => rw [fitsMembers, List.all_cons, ih]

theorem fits_sound (limit : Nat) (v : Value) (h : fits limit v = true) :
    v.Distinct ∧ v.Within limit := by
  match v with
  | .null => exact ⟨.null, .null⟩
  | .bool b => exact ⟨.bool b, .bool b⟩
  | .number n => exact ⟨.number n, .number (by simpa [fits] using h)⟩
  | .string s => exact ⟨.string s, .string s⟩
  | .array vs =>
    match limit with
    | 0 => simp [fits] at h
    | limit + 1 =>
      rw [fits, fitsItems_eq, List.all_eq_true] at h
      have hall : ∀ w ∈ vs, w.Distinct ∧ w.Within limit := fun w hw => by
        have := List.sizeOf_lt_of_mem hw
        exact fits_sound limit w (h w hw)
      exact ⟨.array fun w hw => (hall w hw).1, .array fun w hw => (hall w hw).2⟩
  | .object ms =>
    match limit with
    | 0 => simp [fits] at h
    | limit + 1 =>
      rw [fits, fitsMembers_eq, Bool.and_eq_true, decide_eq_true_eq, List.all_eq_true] at h
      have hall : ∀ m ∈ ms, m.2.Distinct ∧ m.2.Within limit := fun m hm => by
        have hlt := List.sizeOf_lt_of_mem hm
        have hsnd : sizeOf m.2 < sizeOf m := by
          cases m
          simp only [Prod.mk.sizeOf_spec]
          omega
        exact fits_sound limit m.2 (h.2 m hm)
      exact ⟨.object h.1 fun m hm => (hall m hm).1, .object fun m hm => (hall m hm).2⟩
termination_by v
decreasing_by
  · simp only [Value.array.sizeOf_spec]
    omega
  · simp only [Value.object.sizeOf_spec]
    omega

theorem fits_mapFloats {f : UInt64 → UInt64} {limit : Nat} {v : Value} (hdistinct : v.Distinct)
    (hwithin : v.Within limit) : fits limit (v.mapFloats f) = true := by
  induction hwithin with
  | null => rfl
  | bool b => rfl
  | @number _ n hn =>
    cases n with
    | float bits => rfl
    | posInt n => exact hn
    | negInt n => exact hn
  | string s => rfl
  | array _ ih =>
    cases hdistinct with
    | array hvs =>
      rw [Value.mapFloats_array, fits, fitsItems_eq, List.all_map, List.all_eq_true]
      exact fun v hv => ih v hv (hvs v hv)
  | object _ ih =>
    cases hdistinct with
    | object hkeys hms =>
      rw [Value.mapFloats_object, fits, fitsMembers_eq, List.all_map, List.map_map, Bool.and_eq_true,
        decide_eq_true_eq, List.all_eq_true]
      exact ⟨hkeys, fun m hm => ih m hm (hms m hm)⟩

/-! ## The crate -/

def fromStr (text : Str) : Option Value :=
  (JsonText.read meaning text).filter fun v => fits recursionLimit v

def write (layout : Layout) (v : Value) : Str := (node layout 0 v).text

def crate : JsonCrate where
  serde := ⟨readNumber, readString, fromStr⟩
  toVec := write compact
  toVecPretty := write indented
  reread := fun _ => 0

theorem indented_blank : indented.Blank := by
  refine ⟨fun depth b hb => ?_, fun b hb => ?_⟩
  · rcases List.mem_cons.mp hb with rfl | hb
    · rfl
    · rw [List.eq_of_mem_replicate hb]
      rfl
  · rw [List.mem_singleton.mp hb]
    rfl

/-- Nothing can be read where white space ends the text or a form feed follows. -/
theorem readNode_none (fuel : Nat) {t : Str} (h : t = [] ∨ ∃ rest, t = 0x0C :: rest) :
    JsonText.readNode meaning fuel t = none := by
  cases fuel with
  | zero => rfl
  | succ fuel => rcases h with rfl | ⟨rest, rfl⟩ <;> rfl

theorem fromStr_blank {text : Str} (h : text.all isAsciiWhitespace = true) :
    fromStr text = none := by
  have hstart : JsonText.skipSpace text = []
      ∨ ∃ rest, JsonText.skipSpace text = 0x0C :: rest := by
    induction text with
    | nil => exact .inl rfl
    | cons b text ih =>
      rw [List.all_cons, Bool.and_eq_true] at h
      unfold JsonText.skipSpace at ih ⊢
      by_cases hb : JsonText.isSpace b = true
      · rw [List.dropWhile_cons_of_pos hb]
        exact ih h.2
      · rw [List.dropWhile_cons_of_neg hb]
        right
        have hspace := h.1
        simp only [isAsciiWhitespace, JsonText.isSpace, Bool.or_eq_true, beq_iff_eq] at hspace hb
        rcases hspace with (((hb' | hb') | hb') | hb') | hb'
        · exact absurd (.inl (.inl (.inl hb'))) hb
        · exact absurd (.inl (.inl (.inr hb'))) hb
        · exact absurd (.inl (.inr hb')) hb
        · exact ⟨text, by rw [hb']⟩
        · exact absurd (.inr hb') hb
  unfold fromStr JsonText.read
  rw [readNode_none _ hstart]
  rfl

/-- It reads what it wrote. -/
theorem crate_lawful : crate.Lawful where
  blank _ h := fromStr_blank h
  wellFormed text v h := by
    obtain ⟨-, hfits⟩ := Option.filter_eq_some_iff.mp h
    exact fits_sound _ v hfits
  reads v hdistinct hwithin := by
    let document : Document meaning :=
      { lead := []
        root := node indented 0 v
        trail := [0x0A]
        blank_lead := JsonText.blank_nil
        blank_trail := fun b hb => by rw [List.mem_singleton.mp hb]; rfl
        valid := node_valid indented_blank hdistinct hwithin 0 }
    have hread : JsonText.read meaning (write indented v ++ [0x0A])
        = some (v.mapFloats fun _ => 0) := by
      rw [← @node_value indented v _ hwithin 0]
      exact JsonText.read_text document
    show (JsonText.read meaning (write indented v ++ [0x0A])).filter _ = _
    rw [hread, Option.filter_eq_some_iff]
    exact ⟨rfl, fits_mapFloats hdistinct hwithin⟩

end Kaleidoscope.JsonWriter
