import Kaleidoscope.JsonWriter
import Mathlib.Data.List.TakeWhile

/-!
# JSON on one line

The compact text of a value, as text.

    newline_display      it is one line
    fromStr_display      it is read back
    fromStr_object_last  a text that does not end with a brace is no object
-/

namespace Kaleidoscope.JsonWriter

open JsonSpan (Str)
open JsonText (Entry Node)

/-- `to_string`, and `Display` of a value. -/
def display (v : Value) : Text := (Utf8.decode (write compact v)).getD []

/-! ## One line -/

/-- The bytes of a text without a newline. -/
def OneLine (b : Str) : Prop := ∃ t, Utf8.encode t = b ∧ '\n' ∉ t

theorem OneLine.nil : OneLine [] := ⟨[], rfl, List.not_mem_nil⟩

theorem OneLine.append {a b : Str} (ha : OneLine a) (hb : OneLine b) : OneLine (a ++ b) := by
  obtain ⟨s, rfl, hs⟩ := ha
  obtain ⟨t, rfl, ht⟩ := hb
  refine ⟨s ++ t, List.flatMap_append, ?_⟩
  rw [List.mem_append, not_or]
  exact ⟨hs, ht⟩

theorem OneLine.ascii {b : UInt8} (hlt : b.toNat < 0x80) (hne : b ≠ 0x0A) : OneLine [b] := by
  have hnat : (Char.ofNat b.toNat).toNat = b.toNat := by
    have hvalid : ∀ n < 0x80, (Char.ofNat n).toNat = n := by decide
    exact hvalid _ hlt
  refine ⟨[Char.ofNat b.toNat], ?_, ?_⟩
  · rw [Utf8.encode, List.flatMap_singleton, hnat, Unicode.encodeUtf8Point_ascii hlt,
      UInt8.ofNat_toNat]
  · rw [List.mem_singleton]
    intro h
    rw [← h] at hnat
    exact hne (UInt8.toNat_inj.mp hnat.symm)

theorem OneLine.cons {b : UInt8} {t : Str} (hlt : b.toNat < 0x80) (hne : b ≠ 0x0A)
    (ht : OneLine t) : OneLine (b :: t) :=
  (OneLine.ascii hlt hne).append ht

theorem oneLine_digits {t : Str} (h : t.all JsonText.isDigit = true) : OneLine t := by
  induction t with
  | nil => exact .nil
  | cons b t ih =>
    rw [List.all_cons, Bool.and_eq_true] at h
    have hdigit := h.1
    simp only [JsonText.isDigit, Bool.and_eq_true, decide_eq_true_eq,
      UInt8.le_iff_toNat_le] at hdigit
    have hhigh : b.toNat ≤ 57 := hdigit.2
    refine .cons (by omega) ?_ (ih h.2)
    rintro rfl
    have hlow : 48 ≤ (0x0A : UInt8).toNat := hdigit.1
    revert hlow
    decide

theorem oneLine_number (n : Number) : OneLine (writeNumber n) := by
  cases n with
  | posInt n => exact oneLine_digits (decimal_digits n)
  | negInt n => exact .cons (by decide) (by decide) (oneLine_digits (decimal_digits n))
  | float bits => exact ⟨"0.0".toList, by rw [writeNumber]; decide, by decide⟩

theorem newline_escape (c : Char) : '\n' ∉ escape c := by
  unfold escape
  by_cases hquote : c = '"' ∨ c = '\\'
  · rw [if_pos hquote]
    rcases hquote with rfl | rfl <;> decide
  rw [if_neg hquote]
  by_cases hcontrol : c.toNat < 0x20
  · have hc : c = Char.ofNat c.toNat := (Char.ofNat_toNat c).symm
    generalize c.toNat = n at hcontrol hc
    subst hc
    interval_cases n <;> decide
  · rw [if_neg (by omega), if_neg (by omega), if_neg (by omega), if_neg (by omega),
      if_neg (by omega), if_neg hcontrol, List.mem_singleton]
    rintro rfl
    exact hcontrol (by decide)

theorem oneLine_quote (s : Text) : OneLine (quote s) := by
  refine .cons (by decide) (by decide)
    (.append ⟨s.flatMap escape, rfl, ?_⟩ (.ascii (by decide) (by decide)))
  rw [List.mem_flatMap]
  rintro ⟨c, -, hc⟩
  exact newline_escape c hc

theorem compact_last (depth : Nat) (isLast : Bool) : compact.last depth isLast = [] := by
  cases isLast <;> rfl

mutual

theorem oneLine_node (depth : Nat) : (v : Value) → OneLine (node compact depth v).text
  | .null => ⟨"null".toList, by rw [node, Node.text]; decide, by decide⟩
  | .bool false => ⟨"false".toList, by rw [node, Node.text]; decide, by decide⟩
  | .bool true => ⟨"true".toList, by rw [node, Node.text]; decide, by decide⟩
  | .number n => by
    rw [node, Node.text]
    exact oneLine_number n
  | .string s => by
    rw [node, Node.text]
    exact oneLine_quote s
  | .array items => by
    rw [node, Node.text]
    exact .cons (by decide) (by decide)
      ((oneLine_items depth items).append (.ascii (by decide) (by decide)))
  | .object members => by
    rw [node, Node.text]
    exact .cons (by decide) (by decide)
      ((oneLine_members depth members).append (.ascii (by decide) (by decide)))

theorem oneLine_items (depth : Nat) :
    (vs : List Value) → OneLine (JsonText.entriesText (itemEntries compact depth vs))
  | [] => .nil
  | v :: vs => by
    rw [itemEntries, JsonText.entriesText, compact_last, JsonText.entryText]
    refine .append (.append .nil (.append .nil (.append (oneLine_node (depth + 1) v) .nil))) ?_
    split
    · exact .nil
    · exact .cons (by decide) (by decide) (oneLine_items depth vs)

theorem oneLine_members (depth : Nat) :
    (ms : Members) → OneLine (JsonText.entriesText (memberEntries compact depth ms))
  | [] => .nil
  | (k, v) :: ms => by
    rw [memberEntries, JsonText.entriesText, compact_last, JsonText.entryText]
    refine .append (.append .nil (.append ?_ (.append (oneLine_node (depth + 1) v) .nil))) ?_
    · exact (oneLine_quote k).append (.cons (by decide) (by decide) .nil)
    · split
      · exact .nil
      · exact .cons (by decide) (by decide) (oneLine_members depth ms)

end

theorem encode_display (v : Value) : Utf8.encode (display v) = write compact v := by
  obtain ⟨t, ht, -⟩ := oneLine_node 0 v
  unfold display write
  rw [Utf8.decode_iff.mpr ht]
  exact ht

theorem newline_display (v : Value) : '\n' ∉ display v := by
  obtain ⟨t, ht, hline⟩ := oneLine_node 0 v
  unfold display write
  rw [Utf8.decode_iff.mpr ht]
  exact hline

/-! ## The text of an object -/

mutual

/-- The compact text of a value is the same at every depth. -/
theorem node_compact (d e : Nat) : (v : Value) → node compact d v = node compact e v
  | .null => by rw [node, node]
  | .bool b => by rw [node, node]
  | .number n => by rw [node, node]
  | .string s => by rw [node, node]
  | .array vs => by rw [node, node, items_compact d e vs]
  | .object ms => by rw [node, node, members_compact d e ms]

theorem items_compact (d e : Nat) :
    (vs : List Value) → itemEntries compact d vs = itemEntries compact e vs
  | [] => by rw [itemEntries, itemEntries]
  | v :: vs => by
    rw [itemEntries, itemEntries, node_compact (d + 1) (e + 1) v, items_compact d e vs,
      compact_last, compact_last]
    rfl

theorem members_compact (d e : Nat) :
    (ms : Members) → memberEntries compact d ms = memberEntries compact e ms
  | [] => by rw [memberEntries, memberEntries]
  | (_, v) :: ms => by
    rw [memberEntries, memberEntries, node_compact (d + 1) (e + 1) v, members_compact d e ms,
      compact_last, compact_last]
    rfl

end

/-- What stands between the braces of an object. -/
def membersText (ms : Members) : Str := JsonText.entriesText (memberEntries compact 0 ms)

theorem write_object (ms : Members) :
    write compact (.object ms) = 0x7B :: (membersText ms ++ [0x7D]) := by
  unfold write
  rw [node, JsonText.Node.text]
  rfl

theorem write_string (s : Text) : write compact (.string s) = quote s := by
  unfold write
  rw [node, JsonText.Node.text]

theorem membersText_nil : membersText [] = [] := rfl

theorem membersText_cons (k : Text) (v : Value) (ms : Members) :
    membersText ((k, v) :: ms)
      = quote k ++ 0x3A :: (write compact v ++ if ms.isEmpty then [] else 0x2C :: membersText ms) := by
  have hempty : (memberEntries compact 0 ms).isEmpty = ms.isEmpty := by
    cases ms with
    | nil => rfl
    | cons m ms => rfl
  unfold membersText
  rw [memberEntries, JsonText.entriesText, JsonText.entryText, compact_last, hempty,
    node_compact (0 + 1) 0 v]
  simp [JsonText.headText, JsonText.Key.text, compact, write]

/-- The text of a member's value is part of the object's. -/
theorem length_write_member {ms : Members} {k : Text} {v : Value} (h : (k, v) ∈ ms) :
    (write compact v).length ≤ (membersText ms).length := by
  induction ms with
  | nil => cases h
  | cons m ms ih =>
    obtain ⟨key, w⟩ := m
    rw [membersText_cons]
    simp only [List.length_append, List.length_cons]
    rcases List.mem_cons.mp h with hm | hm
    · cases hm
      omega
    · have hms := ih hm
      rw [if_neg (by simpa using List.ne_nil_of_mem hm), List.length_cons]
      omega

/-! ## Reading -/

theorem compact_blank : compact.Blank :=
  ⟨fun _ => JsonText.blank_nil, JsonText.blank_nil⟩

/-- A value without floating-point numbers is read back. -/
theorem fromStr_display {v : Value} (hdistinct : v.Distinct) (hwithin : v.Within recursionLimit)
    (hfree : v.FloatFree) : fromStr (Utf8.encode (display v)) = some v := by
  let document : JsonText.Document meaning :=
    { lead := []
      root := node compact 0 v
      trail := []
      blank_lead := JsonText.blank_nil
      blank_trail := JsonText.blank_nil
      valid := node_valid compact_blank hdistinct hwithin 0 }
  have hread : JsonText.read meaning (write compact v) = some v := by
    have hvalue := @node_value compact v _ hwithin 0
    rw [Value.mapFloats_floatFree hfree] at hvalue
    have htext := JsonText.read_text document
    rw [show document.text = write compact v from List.append_nil _] at htext
    rw [htext]
    exact congrArg some hvalue
  have hfits := @fits_mapFloats (fun _ => 0) recursionLimit v hdistinct hwithin
  rw [Value.mapFloats_floatFree hfree] at hfits
  rw [encode_display]
  unfold fromStr
  rw [hread, Option.filter_eq_some_iff]
  exact ⟨rfl, hfits⟩

/-- A text whose last byte is neither a closing brace nor white space is no object. -/
theorem fromStr_object_last {t : Str} {members : Members} {b : UInt8}
    (h : fromStr t = some (.object members)) (hlast : t.getLast? = some b) :
    b = 0x7D ∨ JsonText.isSpace b = true := by
  obtain ⟨hread, -⟩ := Option.filter_eq_some_iff.mp h
  rcases JsonText.read_object hread with hv | ⟨rest, hend, hblank⟩
  · rcases hv with hv | ⟨_, hv⟩ | ⟨_, hv⟩ | ⟨token, hv⟩ | ⟨_, hv⟩
    · cases hv
    · cases hv
    · cases hv
    · obtain ⟨n, -, hn⟩ := Option.map_eq_some_iff.mp hv
      cases hn
    · cases hv
  · obtain ⟨head, rfl⟩ := hend
    rw [List.getLast?_append_of_ne_nil _ (List.cons_ne_nil _ _)] at hlast
    cases rest with
    | nil =>
      cases hlast
      exact .inl rfl
    | cons c rest =>
      right
      rw [List.getLast?_cons_cons] at hlast
      have hmem := List.mem_of_getLast? hlast
      exact (List.dropWhile_eq_nil_iff.mp hblank) b hmem

end Kaleidoscope.JsonWriter
