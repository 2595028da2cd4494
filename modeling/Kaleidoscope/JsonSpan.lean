import Kaleidoscope.Value
import Kaleidoscope.Lib.JsonText

/-!
# Removing one node from a JSON document

`excise` finds which node the caller removed, scans the text for it and cuts it out with one
comma, and keeps the result only if it reads as the caller's document.

    excise_exact    it never gives up on a text of the grammar, and cuts out that node alone
-/

namespace Kaleidoscope.JsonSpan

open JsonText (Kind Key Entry Node Meaning Document isSpace)

/-- The bytes of a text. -/
abbrev Str := JsonText.Bytes

/-- One step of the path to the removed node. -/
abbrev Segment := JsonText.Step Text

/-- What the JSON crate reads: a number, a string literal, a whole text. -/
structure Serde where
  number : Str → Option Number
  string : Str → Option Text
  fromStr : Str → Option Value

def Serde.meaning (serde : Serde) : Meaning Text Value where
  null := .null
  bool := .bool
  number token := (serde.number token).map .number
  key := serde.string
  string := .string
  array := .array
  object := .object

/-- The crate reads each text of the grammar, up to its recursion limit, as what it stands for. -/
def Serde.Reads (serde : Serde) (limit : Nat) : Prop :=
  ∀ d : Document serde.meaning, d.depth ≤ limit → serde.fromStr d.text = some d.value

/-! ## Which node is gone -/

theorem sizeOf_lookup_lt {ms : Members} {k : Text} {v : Value} (h : ms.lookup k = some v) :
    sizeOf v < sizeOf (Value.object ms) := by
  have hmem := List.sizeOf_lt_of_mem (Members.mem_of_lookup h)
  simp only [Prod.mk.sizeOf_spec, Value.object.sizeOf_spec] at hmem ⊢
  omega

theorem sizeOf_getElem?_lt {vs : List Value} {i : Nat} {v : Value} (h : vs[i]? = some v) :
    sizeOf v < sizeOf (Value.array vs) := by
  have hmem := List.sizeOf_lt_of_mem (List.mem_of_getElem? h)
  simp only [Value.array.sizeOf_spec]
  omega

/-- Whether the items at a place differ. -/
def differAt (b a : List Value) (index : Nat) : Bool :=
  match b[index]?, a[index]? with
  | some v, some w => !Value.same v w
  | _, _ => false

/-- The members of an object that have another value in the second one. -/
def changedMembers (b a : Members) : Members :=
  b.filter fun m => (a.lookup m.1).any fun other => !Value.same other m.2

/-- Which single node `after` is missing. -/
def removalPath : Value → Value → Option (List Segment)
  | .object b, .object a =>
    if a.any fun m => (b.lookup m.1).isNone then none
    else
      match b.filter (fun m => (a.lookup m.1).isNone), changedMembers b a with
      | [gone], [] => some [.key gone.1]
      | [], [changed] =>
        match _hb : b.lookup changed.1, a.lookup changed.1 with
        | some v, some w => (removalPath v w).map (.key changed.1 :: ·)
        | _, _ => none
      | _, _ => none
  | .array b, .array a =>
    if b.length = a.length then
      match (List.range b.length).filter (differAt b a) with
      | [index] =>
        match _hb : b[index]?, a[index]? with
        | some v, some w => (removalPath v w).map (.index index :: ·)
        | _, _ => none
      | _ => none
    else if b.length ≠ a.length + 1 then none
    else
      (List.range b.length).findSome? fun index =>
        if Value.sameItems (b.eraseIdx index) a then some [.index index] else none
  | _, _ => none
termination_by before => before
decreasing_by
  · exact sizeOf_lookup_lt _hb
  · exact sizeOf_getElem?_lt _hb

/-! ## Scanner -/

def isContinuation (b : UInt8) : Bool := 0x80 ≤ b && b < 0xC0

def isCharBoundary (text : Str) (i : Nat) : Bool :=
  match text[i]? with
  | none => i == text.length
  | some b => i == 0 || !isContinuation b

/-- `text.get(start..stop)`. -/
def slice (text : Str) (start stop : Nat) : Option Str :=
  if start ≤ stop ∧ isCharBoundary text start = true ∧ isCharBoundary text stop = true then
    some ((text.take stop).drop start)
  else none

/-- The cursor and the bytes from there. -/
structure Scanner where
  position : Nat
  rest : Str

namespace Scanner

def spaceFrom : Nat → Str → Scanner
  | n, [] => ⟨n, []⟩
  | n, b :: t => if isSpace b then spaceFrom (n + 1) t else ⟨n, b :: t⟩

def space (s : Scanner) : Scanner := spaceFrom s.position s.rest

def peek (s : Scanner) : Option UInt8 := s.rest.head?

def bump (s : Scanner) : Scanner := ⟨s.position + 1, s.rest.tail⟩

def eat (b : UInt8) (s : Scanner) : Option Scanner := if s.peek = some b then some s.bump else none

/-- What follows the opening quote, up to the closing one. -/
def stringFrom : Nat → Str → Option Scanner
  | _, [] => none
  | n, 0x22 :: t => some ⟨n + 1, t⟩
  | n, 0x5C :: _ :: t => stringFrom (n + 2) t
  | n, _ :: t => stringFrom (n + 1) t

/-- Advance past a string literal. -/
def string (s : Scanner) : Option Scanner :=
  (s.eat 0x22).bind fun s => stringFrom s.position s.rest

def endsWord (b : UInt8) : Bool := isSpace b || b == 0x2C || b == 0x7D || b == 0x5D

def wordFrom : Nat → Str → Scanner
  | n, [] => ⟨n, []⟩
  | n, b :: t => if endsWord b then ⟨n, b :: t⟩ else wordFrom (n + 1) t

theorem spaceFrom_length (n : Nat) (t : Str) : (spaceFrom n t).rest.length ≤ t.length := by
  induction t generalizing n with
  | nil => exact Nat.le_refl _
  | cons b t ih =>
    rw [spaceFrom]
    split
    · exact Nat.le_succ_of_le (ih (n + 1))
    · exact Nat.le_refl _

theorem space_length (s : Scanner) : s.space.rest.length ≤ s.rest.length :=
  spaceFrom_length s.position s.rest

theorem bump_length {s : Scanner} {b : UInt8} (h : s.peek = some b) :
    s.bump.rest.length < s.rest.length := by
  obtain ⟨n, t⟩ := s
  cases t with
  | nil => cases h
  | cons c t => exact Nat.lt_succ_self _

theorem eat_eq_some {b : UInt8} {s s' : Scanner} (h : s.eat b = some s') :
    s.peek = some b ∧ s' = s.bump := by
  rw [eat, Option.ite_none_right_eq_some] at h
  exact ⟨h.1, (Option.some.inj h.2).symm⟩

theorem stringFrom_length {n : Nat} {t : Str} {s : Scanner} (h : stringFrom n t = some s) :
    s.rest.length < t.length := by
  fun_induction stringFrom n t with
  | case1 => cases h
  | case2 =>
    cases h
    exact Nat.lt_succ_self _
  | case3 _ _ _ ih =>
    have hlt := ih h
    simp only [List.length_cons]
    omega
  | case4 _ _ _ _ _ ih =>
    have hlt := ih h
    rw [List.length_cons]
    omega

theorem string_length {s s' : Scanner} (h : s.string = some s') :
    s'.rest.length < s.rest.length := by
  obtain ⟨s₁, heat, hfrom⟩ := Option.bind_eq_some_iff.mp h
  obtain ⟨hpeek, rfl⟩ := eat_eq_some heat
  have hbump := bump_length hpeek
  have hlt := stringFrom_length hfrom
  omega

theorem wordFrom_length (n : Nat) (t : Str) : (wordFrom n t).rest.length ≤ t.length := by
  induction t generalizing n with
  | nil => exact Nat.le_refl _
  | cons b t ih =>
    rw [wordFrom]
    split
    · exact Nat.le_refl _
    · exact Nat.le_succ_of_le (ih (n + 1))

/-- Past the brackets that are open; only those of one kind are counted. -/
def nested (opener closer : UInt8) (depth : Nat) (s : Scanner) : Option Scanner :=
  if depth = 0 then some s
  else
    match _h : s.peek with
    | none => none
    | some b =>
      if b = 0x22 then
        match _hs : s.string with
        | none => none
        | some s' => nested opener closer depth s'
      else if b = opener then nested opener closer (depth + 1) s.bump
      else if b = closer then nested opener closer (depth - 1) s.bump
      else nested opener closer depth s.bump
termination_by s.rest.length
decreasing_by
  · exact string_length _hs
  · exact bump_length _h
  · exact bump_length _h
  · exact bump_length _h

/-- Advance past any value. -/
def value (s : Scanner) : Option Scanner :=
  match s.space.peek with
  | none => none
  | some b =>
    if b = 0x22 then s.space.string
    else if b = 0x7B ∨ b = 0x5B then
      nested b (if b = 0x7B then 0x7D else 0x5D) 1 s.space.bump
    else some (wordFrom s.space.position s.space.rest)

theorem nested_length {opener closer : UInt8} {depth : Nat} {s s' : Scanner}
    (h : nested opener closer depth s = some s') : s'.rest.length ≤ s.rest.length := by
  fun_induction nested opener closer depth s with
  | case1 =>
    cases h
    exact Nat.le_refl _
  | case2 => cases h
  | case3 => cases h
  | case4 =>
    rename_i hs _ ih
    exact Nat.le_trans (ih h) (Nat.le_of_lt (string_length hs))
  | case5 =>
    rename_i hpeek _ ih
    exact Nat.le_trans (ih h) (Nat.le_of_lt (bump_length hpeek))
  | case6 =>
    rename_i hpeek _ _ ih
    exact Nat.le_trans (ih h) (Nat.le_of_lt (bump_length hpeek))
  | case7 =>
    rename_i hpeek _ _ _ ih
    exact Nat.le_trans (ih h) (Nat.le_of_lt (bump_length hpeek))

theorem value_length {s s' : Scanner} (h : s.value = some s') :
    s'.rest.length ≤ s.rest.length := by
  have hspace := space_length s
  rw [value] at h
  split at h
  next => cases h
  next b hpeek =>
    have hbump := bump_length hpeek
    split at h
    · have hlt := string_length h
      omega
    · split at h
      · have hle := nested_length h
        omega
      · cases h
        have hle := wordFrom_length s.space.position s.space.rest
        omega

end Scanner

/-! ## Where the node sits -/

/-- Where the addressed entry starts and ends, and where its value starts. -/
structure Found where
  start : Nat
  stop : Nat
  valueStart : Nat

/-- The same, with the enclosing brackets and how many entries are between them. -/
structure Hit where
  start : Nat
  stop : Nat
  valueStart : Nat
  opening : Nat
  close : Nat
  count : Nat

def containerOf : Segment → Kind
  | .key _ => .object
  | .index _ => .array

section

variable (serde : Serde) (text : Str)

/-- Past the key of an entry and its colon, and whether the entry is the addressed one. -/
def head (segment : Segment) (count : Nat) (s : Scanner) : Option (Bool × Scanner) :=
  match segment with
  | .key wanted => do
    let after ← s.string
    let colon ← after.space.eat 0x3A
    let literal ← slice text s.position after.position
    let key ← serde.string literal
    return (decide (key = wanted), colon)
  | .index wanted => some (decide (count = wanted), s)

theorem head_length {segment : Segment} {count : Nat} {s s' : Scanner} {isMatch : Bool}
    (h : head serde text segment count s = some (isMatch, s')) :
    s'.rest.length ≤ s.rest.length := by
  cases segment with
  | key wanted =>
    simp only [head, Option.bind_eq_bind, Option.bind_eq_some_iff, Option.pure_def,
      Option.some.injEq, Prod.mk.injEq] at h
    obtain ⟨after, hstring, colon, heat, _, _, _, _, _, rfl⟩ := h
    obtain ⟨hpeek, rfl⟩ := Scanner.eat_eq_some heat
    have hafter := Scanner.string_length hstring
    have hspace := after.space_length
    have hbump := Scanner.bump_length hpeek
    omega
  | index wanted =>
    simp only [head, Option.some.injEq, Prod.mk.injEq] at h
    rw [h.2]

/-- The entries from the cursor on: the addressed one, where the container closes, and how many
there are. -/
def entries (segment : Segment) (count : Nat) (found : Option Found) (s : Scanner) :
    Option (Option Found × Nat × Nat) :=
  match s.space.peek with
  | none => none
  | some b =>
    if b = (containerOf segment).closer then some (found, s.space.position, count)
    else
      match _hhead : head serde text segment count s.space with
      | none => none
      | some (isMatch, s₁) =>
        match _hvalue : s₁.space.value with
        | none => none
        | some s₂ =>
          let found := if isMatch && found.isNone then
            some ⟨s.space.position, s₂.position, s₁.space.position⟩ else found
          match _hpeek : s₂.space.peek with
          | none => none
          | some b =>
            if b = 0x2C then entries segment (count + 1) found s₂.space.bump
            else if b = (containerOf segment).closer then
              some (found, s₂.space.position, count + 1)
            else none
termination_by s.rest.length
decreasing_by
  have hspace := s.space_length
  have hhead := head_length serde text _hhead
  have hspace₁ := s₁.space_length
  have hvalue := Scanner.value_length _hvalue
  have hspace₂ := s₂.space_length
  have hbump := Scanner.bump_length _hpeek
  omega

/-- Walk the container at the cursor. -/
def enter (segment : Segment) (s : Scanner) : Option Hit := do
  let inside ← s.space.eat (containerOf segment).opener
  let (found, close, count) ← entries serde text segment 0 none inside
  let found ← found
  return { start := found.start, stop := found.stop, valueStart := found.valueStart,
           opening := s.space.position, close, count }

/-- Down the path, to its last segment. -/
def locate : List Segment → Scanner → Option Hit
  | [], _ => none
  | [segment], s => enter serde text segment s
  | segment :: path, s => do
    let hit ← enter serde text segment s
    locate path ⟨hit.valueStart, text.drop hit.valueStart⟩

def spaceAt (i : Nat) : Bool := text[i]?.any isSpace

/-- Forward over white space, not past `close`. -/
def forward (close cursor : Nat) : Nat :=
  if cursor < close ∧ spaceAt text cursor = true then forward close (cursor + 1) else cursor
termination_by close - cursor

/-- Back over white space, not past `floor`. -/
def backward (floor : Nat) : Nat → Nat
  | 0 => 0
  | n + 1 => if floor < n + 1 ∧ spaceAt text n = true then backward floor n else n + 1

/-- The bytes to delete for an entry, comma and orphaned indentation included. -/
def spanAround (hit : Hit) : Option (Nat × Nat) :=
  if hit.count = 1 then some (hit.opening + 1, hit.close)
  else
    let cursor := forward text hit.close hit.stop
    if text[cursor]? = some 0x2C then some (hit.start, forward text hit.close (cursor + 1))
    else
      let start := backward text (hit.opening + 1) hit.start
      if start = 0 then none
      else if text[start - 1]? = some 0x2C then some (start - 1, hit.stop)
      else none

def spanOf (path : List Segment) : Option (Nat × Nat) :=
  (locate serde text path ⟨0, text⟩).bind (spanAround text)

/-- The text minus the one node that `before` holds and `after` does not. -/
def excise (before after : Value) : Option Str :=
  if Value.same before after = true then none
  else do
    let path ← removalPath before after
    let (start, stop) ← spanOf serde text path
    let left ← slice text 0 start
    let right ← slice text stop text.length
    let out := left ++ right
    let reparsed ← serde.fromStr out
    if Value.same reparsed after = true then some out else none

end

/-! ## The removed node -/

/-- A value without one member of an object or one item of an array, and the path to it. -/
inductive Removes : List Segment → Value → Value → Prop
  | member (l : Members) (m : Text × Value) (r : Members) :
    Removes [.key m.1] (.object (l ++ m :: r)) (.object (l ++ r))
  | element (l : List Value) (v : Value) (r : List Value) :
    Removes [.index l.length] (.array (l ++ v :: r)) (.array (l ++ r))
  | inMember {path : List Segment} {v w : Value} (l : Members) (k : Text) (r : Members) :
    Removes path v w →
      Removes (.key k :: path) (.object (l ++ (k, v) :: r)) (.object (l ++ (k, w) :: r))
  | inElement {path : List Segment} {v w : Value} (l r : List Value) : Removes path v w →
      Removes (.index l.length :: path) (.array (l ++ v :: r)) (.array (l ++ w :: r))

abbrev Same (v w : Value) : Prop := Value.same v w = true

/-- Lists alike item by item are alike around each item. -/
theorem forall₂_split {l r a : List Value} {v : Value} (h : List.Forall₂ Same (l ++ v :: r) a) :
    ∃ a₁ x a₂, a = a₁ ++ x :: a₂ ∧ List.Forall₂ Same l a₁ ∧ Same v x
      ∧ List.Forall₂ Same r a₂ := by
  induction l generalizing a with
  | nil =>
    cases h with
    | cons hv hr => exact ⟨[], _, _, rfl, .nil, hv, hr⟩
  | cons u l ih =>
    cases h with
    | cons hu h =>
      obtain ⟨a₁, x, a₂, rfl, hl, hv, hr⟩ := ih h
      exact ⟨_ :: a₁, x, a₂, rfl, .cons hu hl, hv, hr⟩

theorem forall₂_join {l r a₁ a₂ : List Value} {v x : Value} (hl : List.Forall₂ Same l a₁)
    (hv : Same v x) (hr : List.Forall₂ Same r a₂) :
    List.Forall₂ Same (l ++ v :: r) (a₁ ++ x :: a₂) :=
  List.rel_append hl (.cons hv hr)

/-- What a value without one node is equal to, the whole value is not. -/
theorem removes_ne {path : List Segment} {b g a : Value} (h : Removes path b g)
    (hb : b.Distinct) (hga : Same g a) : ¬Same b a ∧ ¬Same a b := by
  induction h generalizing a with
  | member l m r =>
    obtain ⟨a, rfl⟩ := Value.object_of_same hga
    have hlength := (Value.same_object.mp hga).1
    refine ⟨fun hba => ?_, fun hab => ?_⟩
    · have hle := (Value.same_object.mp hba).1
      simp only [List.length_append, List.length_cons] at hlength hle
      omega
    · have hle := (Value.same_object.mp hab).1
      simp only [List.length_append, List.length_cons] at hlength hle
      omega
  | element l v r =>
    obtain ⟨a, rfl⟩ := Value.array_of_same hga
    have hlength := (Value.same_array.mp hga).length_eq
    refine ⟨fun hba => ?_, fun hab => ?_⟩
    · have hle := (Value.same_array.mp hba).length_eq
      simp only [List.length_append, List.length_cons] at hlength hle
      omega
    · have hle := (Value.same_array.mp hab).length_eq
      simp only [List.length_append, List.length_cons] at hlength hle
      omega
  | @inMember path v w l k r _ ih =>
    obtain ⟨a, rfl⟩ := Value.object_of_same hga
    obtain ⟨x, hx, hwx⟩ := (Value.same_object.mp hga).2 (k, w) (by simp)
    cases hb with
    | object hkeys hmembers =>
      have hne := ih (hmembers (k, v) (by simp)) hwx
      refine ⟨fun hba => ?_, fun hab => ?_⟩
      · obtain ⟨y, hy, hvy⟩ := (Value.same_object.mp hba).2 (k, v) (by simp)
        rw [Option.some.inj (hy.symm.trans hx)] at hvy
        exact hne.1 hvy
      · obtain ⟨y, hy, hxy⟩ := (Value.same_object.mp hab).2 (k, x) (Members.mem_of_lookup hx)
        have hv := Members.lookup_of_mem hkeys (k := k) (v := v) (by simp)
        rw [Option.some.inj (hy.symm.trans hv)] at hxy
        exact hne.2 hxy
  | @inElement path v w l r _ ih =>
    obtain ⟨a, rfl⟩ := Value.array_of_same hga
    obtain ⟨a₁, x, a₂, rfl, hl, hwx, hr⟩ := forall₂_split (Value.same_array.mp hga)
    cases hb with
    | array hitems =>
      have hne := ih (hitems v (by simp)) hwx
      refine ⟨fun hba => ?_, fun hab => ?_⟩
      · obtain ⟨c₁, y, c₂, heq, hl', hvy, -⟩ := forall₂_split (Value.same_array.mp hba)
        have hlengths := List.append_inj heq (by rw [← hl.length_eq, hl'.length_eq])
        rw [(List.cons.inj hlengths.2).1] at hne
        exact hne.1 hvy
      · obtain ⟨c₁, y, c₂, heq, hl', hxy, -⟩ := forall₂_split (Value.same_array.mp hab)
        have hlengths := List.append_inj heq (by rw [hl.length_eq, hl'.length_eq])
        rw [(List.cons.inj hlengths.2).1] at hne
        exact hne.2 hxy

theorem differAt_same {b a : List Value} (h : List.Forall₂ Same b a) (i : Nat) :
    differAt b a i = false := by
  induction h generalizing i with
  | nil => rfl
  | cons hv _ ih =>
    cases i with
    | zero => rw [differAt, List.getElem?_cons_zero, List.getElem?_cons_zero]; simpa using hv
    | succ i => exact ih i

/-- Lists alike but for one item differ nowhere else. -/
theorem differAt_other {l r a₁ a₂ : List Value} {v x : Value} (hl : List.Forall₂ Same l a₁)
    (hr : List.Forall₂ Same r a₂) {j : Nat} (hj : j ≠ l.length) :
    differAt (l ++ v :: r) (a₁ ++ x :: a₂) j = false := by
  have hlength := hl.length_eq
  by_cases hlt : j < l.length
  · rw [differAt, List.getElem?_append_left hlt, List.getElem?_append_left (by omega)]
    exact differAt_same hl j
  · obtain ⟨k, rfl⟩ : ∃ k, j = l.length + (k + 1) := ⟨j - l.length - 1, by omega⟩
    rw [differAt, List.getElem?_append_right (by omega), List.getElem?_append_right (by omega),
      hlength, Nat.add_sub_cancel_left, List.getElem?_cons_succ, List.getElem?_cons_succ]
    exact differAt_same hr k

theorem filter_range_singleton {p : Nat → Bool} {n i : Nat} (hi : i < n) (hp : p i = true)
    (hother : ∀ j, j ≠ i → p j = false) : (List.range n).filter p = [i] := by
  obtain ⟨k, rfl⟩ : ∃ k, n = i + (k + 1) := ⟨n - i - 1, by omega⟩
  have hbefore : (List.range i).filter p = [] := by
    rw [List.filter_eq_nil_iff]
    intro j hj
    rw [hother j (by have := List.mem_range.mp hj; omega)]
    exact Bool.false_ne_true
  rw [List.range_add, List.filter_append, hbefore, List.nil_append, List.range_succ_eq_map,
    List.map_cons, Nat.add_zero, List.filter_cons_of_pos hp, List.map_map]
  congr 1
  rw [List.filter_eq_nil_iff]
  intro j hj
  obtain ⟨k, -, rfl⟩ := List.mem_map.mp hj
  rw [hother _ (by simp only [Function.comp_apply]; omega)]
  exact Bool.false_ne_true

/-- Objects alike have the same keys. -/
theorem lookup_isSome_iff {g a : Members} (hga : Same (.object g) (.object a))
    (hg : (g.map Prod.fst).Nodup) (k : Text) :
    (a.lookup k).isSome = true ↔ k ∈ g.map Prod.fst := by
  obtain ⟨hlength, hall⟩ := Value.same_object.mp hga
  have hsub : ∀ k ∈ g.map Prod.fst, k ∈ a.map Prod.fst := by
    intro k hk
    obtain ⟨m, hm, rfl⟩ := List.mem_map.mp hk
    obtain ⟨w, hw, -⟩ := hall m hm
    exact List.mem_map.mpr ⟨_, Members.mem_of_lookup hw, rfl⟩
  have hmem : (a.lookup k).isSome = true ↔ k ∈ a.map Prod.fst := by
    rw [← not_iff_not, Bool.not_eq_true, Option.isSome_eq_false_iff, Option.isNone_iff_eq_none,
      Members.lookup_eq_none]
  rw [hmem]
  exact ⟨Members.keys_subset hg hlength hsub k, hsub k⟩

theorem any_missing {b a : Members} (h : ∀ m ∈ a, m.1 ∈ b.map Prod.fst) :
    (a.any fun m => (b.lookup m.1).isNone) = false := by
  rw [List.any_eq_false]
  intro m hm hnone
  exact Members.lookup_eq_none.mp (Option.isNone_iff_eq_none.mp hnone) (h m hm)

/-- A member that stays what it was is not among the changed ones. -/
theorem changed_eq_false {b g a : Members} (hga : Same (.object g) (.object a))
    (hb : ∀ m ∈ b, m.2.Distinct) (ha : (Value.object a).Distinct) {m : Text × Value}
    (hm : m ∈ b) (hg : m ∈ g) :
    ((a.lookup m.1).any fun other => !Value.same other m.2) = false := by
  obtain ⟨w, hw, hsame⟩ := (Value.same_object.mp hga).2 m hg
  cases ha with
  | object _ hmembers =>
    have hw' := hmembers _ (Members.mem_of_lookup hw)
    rw [hw, Option.any_some, Value.same_symm (hb m hm) hw' hsame]
    rfl

theorem nodup_without {l r : Members} {m : Text × Value}
    (h : ((l ++ m :: r).map Prod.fst).Nodup) :
    ((l ++ r).map Prod.fst).Nodup ∧ m.1 ∉ (l ++ r).map Prod.fst := by
  have hperm : ((l ++ m :: r).map Prod.fst).Perm (m.1 :: (l ++ r).map Prod.fst) := by
    rw [← List.map_cons]
    exact List.perm_middle.map Prod.fst
  have hcons := List.nodup_cons.mp (hperm.nodup_iff.mp h)
  exact ⟨hcons.2, hcons.1⟩

theorem filter_singleton {α : Type} {p : α → Bool} {l r : List α} {m : α} (hm : p m = true)
    (h : ∀ x ∈ l ++ r, p x = false) : (l ++ m :: r).filter p = [m] := by
  have hl : l.filter p = [] :=
    List.filter_eq_nil_iff.mpr fun x hx => by simp [h x (by simp [hx])]
  have hr : r.filter p = [] :=
    List.filter_eq_nil_iff.mpr fun x hx => by simp [h x (by simp [hx])]
  rw [List.filter_append, List.filter_cons_of_pos hm, hl, hr]
  rfl

theorem lookup_of_member {a : Members} {m : Text × Value} (h : m ∈ a) :
    (a.lookup m.1).isSome = true := by
  rw [Option.isSome_iff_ne_none, ne_eq, Members.lookup_eq_none]
  exact not_not_intro (List.mem_map_of_mem h)

theorem removalPath_member {b a : Members} {m : Text × Value}
    (hany : (a.any fun m => (b.lookup m.1).isNone) = false)
    (hremoved : b.filter (fun m => (a.lookup m.1).isNone) = [m])
    (hchanged : changedMembers b a = []) :
    removalPath (.object b) (.object a) = some [.key m.1] := by
  rw [removalPath, hany, if_neg Bool.false_ne_true, hremoved, hchanged]

theorem removalPath_inMember {b a : Members} {k : Text} {v w x : Value}
    (hany : (a.any fun m => (b.lookup m.1).isNone) = false)
    (hremoved : b.filter (fun m => (a.lookup m.1).isNone) = [])
    (hchanged : changedMembers b a = [(k, x)]) (hv : b.lookup k = some v)
    (hw : a.lookup k = some w) :
    removalPath (.object b) (.object a) = (removalPath v w).map (.key k :: ·) := by
  rw [removalPath, hany, if_neg Bool.false_ne_true, hremoved, hchanged]
  dsimp only
  split
  next v' w' hv' hw' =>
    rw [Option.some.inj (hv.symm.trans hv'), Option.some.inj (hw.symm.trans hw')]
  next hno => exact absurd hw (hno v w hv)

theorem removalPath_inElement {b a : List Value} {i : Nat} {v w : Value}
    (hlength : b.length = a.length)
    (hfilter : (List.range b.length).filter (differAt b a) = [i]) (hv : b[i]? = some v)
    (hw : a[i]? = some w) :
    removalPath (.array b) (.array a) = (removalPath v w).map (.index i :: ·) := by
  rw [removalPath, if_pos hlength, hfilter]
  dsimp only
  split
  next v' w' hv' hw' =>
    rw [Option.some.inj (hv.symm.trans hv'), Option.some.inj (hw.symm.trans hw')]
  next hno => exact absurd hw (hno v w hv)

/-- The path of the removed node is found: the node there is gone from something equal. -/
theorem removalPath_finds {path : List Segment} {b g a : Value} (h : Removes path b g)
    (hb : b.Distinct) (ha : a.Distinct) (hga : Same g a) :
    ∃ path' g', removalPath b a = some path' ∧ Removes path' b g' ∧ Same g' a := by
  induction h generalizing a with
  | member l m r =>
    obtain ⟨a, rfl⟩ := Value.object_of_same hga
    cases hb with
    | object hkeys hmembers =>
      obtain ⟨hnodup, hgone⟩ := nodup_without hkeys
      have hlookup := lookup_isSome_iff hga hnodup
      have hsubset : ∀ x ∈ a, x.1 ∈ (l ++ m :: r).map Prod.fst := by
        intro x hx
        have hmem := (hlookup x.1).mp (lookup_of_member hx)
        simp only [List.map_append, List.map_cons, List.mem_append, List.mem_cons] at hmem ⊢
        tauto
      have hstays : ∀ x ∈ l ++ r, (a.lookup x.1).isNone = false := by
        intro x hx
        rw [Option.isNone_eq_false_iff]
        exact (hlookup x.1).mpr (List.mem_map_of_mem hx)
      have hnone : (a.lookup m.1).isNone = true := by
        rw [← Bool.not_eq_false, Option.isNone_eq_false_iff, hlookup]
        exact hgone
      have hremoved : (l ++ m :: r).filter (fun x => (a.lookup x.1).isNone) = [m] :=
        filter_singleton hnone hstays
      have hchanged : changedMembers (l ++ m :: r) a = [] := by
        rw [changedMembers, List.filter_eq_nil_iff]
        intro x hx
        rw [Bool.not_eq_true]
        rcases List.mem_append.mp hx with hl | hr
        · exact changed_eq_false hga hmembers ha hx (by simp [hl])
        · rcases List.mem_cons.mp hr with rfl | hr
          · rw [Option.isNone_iff_eq_none.mp hnone]
            rfl
          · exact changed_eq_false hga hmembers ha hx (by simp [hr])
      refine ⟨[.key m.1], _, ?_, .member l m r, hga⟩
      exact removalPath_member (any_missing hsubset) hremoved hchanged
  | @inMember path v w l k r _ ih =>
    obtain ⟨a, rfl⟩ := Value.object_of_same hga
    cases hb with
    | object hkeys hmembers =>
      have hv : v.Distinct := hmembers (k, v) (by simp)
      have hkeys' : ((l ++ (k, w) :: r).map Prod.fst).Nodup := by simpa using hkeys
      have hlookup := lookup_isSome_iff hga hkeys'
      have hsamekeys : (l ++ (k, w) :: r).map Prod.fst = (l ++ (k, v) :: r).map Prod.fst := by simp
      have hsubset : ∀ x ∈ a, x.1 ∈ (l ++ (k, v) :: r).map Prod.fst := by
        intro x hx
        rw [← hsamekeys]
        exact (hlookup x.1).mp (lookup_of_member hx)
      have hremoved : (l ++ (k, v) :: r).filter (fun x => (a.lookup x.1).isNone) = [] := by
        rw [List.filter_eq_nil_iff]
        intro x hx
        rw [Bool.not_eq_true, Option.isNone_eq_false_iff, hlookup, hsamekeys]
        exact List.mem_map_of_mem hx
      obtain ⟨x, hx, hwx⟩ := (Value.same_object.mp hga).2 (k, w) (by simp)
      have hdiffer : Value.same x v = false := by
        have hinner := ‹Removes path v w›
        rw [Bool.eq_false_iff]
        exact (removes_ne hinner hv hwx).2
      have hkv : ((a.lookup k).any fun other => !Value.same other v) = true := by
        rw [hx, Option.any_some, hdiffer]
        rfl
      have hsame : ∀ y ∈ l ++ r, ((a.lookup y.1).any fun other => !Value.same other y.2) = false := by
        intro y hy
        refine changed_eq_false hga hmembers ha ?_ ?_
        · simp only [List.mem_append, List.mem_cons] at hy ⊢
          tauto
        · simp only [List.mem_append, List.mem_cons] at hy ⊢
          tauto
      have hchanged : changedMembers (l ++ (k, v) :: r) a = [(k, v)] :=
        filter_singleton hkv hsame
      have hxd : x.Distinct := by
        cases ha with
        | object _ hm => exact hm _ (Members.mem_of_lookup hx)
      obtain ⟨path', g', hpath, hremoves, hg'⟩ := ih hv hxd hwx
      refine ⟨.key k :: path', _, ?_, .inMember l k r hremoves, ?_⟩
      · have hvk := Members.lookup_of_mem hkeys (k := k) (v := v) (by simp)
        rw [removalPath_inMember (any_missing hsubset) hremoved hchanged hvk hx, hpath]
        rfl
      · obtain ⟨hlength, hall⟩ := Value.same_object.mp hga
        refine Value.same_object.mpr ⟨by simpa using hlength, fun y hy => ?_⟩
        rcases List.mem_append.mp hy with hl | hr
        · exact hall y (by simp [hl])
        · rcases List.mem_cons.mp hr with rfl | hr
          · exact ⟨x, hx, hg'⟩
          · exact hall y (by simp [hr])
  | element l v r =>
    obtain ⟨a, rfl⟩ := Value.array_of_same hga
    have hlength := (Value.same_array.mp hga).length_eq
    have herase : (l ++ v :: r).eraseIdx l.length = l ++ r := by
      rw [List.eraseIdx_append_of_length_le (Nat.le_refl _), Nat.sub_self, List.eraseIdx_cons_zero]
    have hfits : Value.sameItems ((l ++ v :: r).eraseIdx l.length) a = true := by
      rw [herase]
      exact Value.sameItems_iff.mpr (Value.same_array.mp hga)
    -- some place fits; the first that does is taken, which need not be the one removed
    obtain ⟨path', hfind⟩ : ∃ path', (List.range (l ++ v :: r).length).findSome? (fun index =>
        if Value.sameItems ((l ++ v :: r).eraseIdx index) a = true then
          some [(.index index : Segment)] else none) = some path' := by
      rw [← Option.isSome_iff_exists, List.findSome?_isSome_iff]
      exact ⟨l.length, by simp, by rw [if_pos hfits]; rfl⟩
    obtain ⟨index, hindex, hpath⟩ := List.exists_of_findSome?_eq_some hfind
    rw [Option.ite_none_right_eq_some, Option.some.injEq] at hpath
    obtain ⟨hsame, rfl⟩ := hpath
    have hlt : index < (l ++ v :: r).length := List.mem_range.mp hindex
    refine ⟨[.index index], .array ((l ++ v :: r).eraseIdx index), ?_, ?_, ?_⟩
    · rw [List.length_append] at hlength
      rw [removalPath, if_neg (by simp; omega), if_neg (by simp; omega)]
      exact hfind
    · have hitems : l ++ v :: r = (l ++ v :: r).take index
          ++ (l ++ v :: r)[index] :: (l ++ v :: r).drop (index + 1) := by
        rw [List.cons_getElem_drop_succ, List.take_append_drop]
      have hremoves := Removes.element ((l ++ v :: r).take index) (l ++ v :: r)[index]
        ((l ++ v :: r).drop (index + 1))
      rw [← hitems, List.length_take, Nat.min_eq_left (Nat.le_of_lt hlt)] at hremoves
      rw [List.eraseIdx_eq_take_drop_succ]
      exact hremoves
    · exact Value.same_array.mpr (Value.sameItems_iff.mp hsame)
  | @inElement path v w l r hinner ih =>
    obtain ⟨a, rfl⟩ := Value.array_of_same hga
    obtain ⟨a₁, x, a₂, rfl, hl, hwx, hr⟩ := forall₂_split (Value.same_array.mp hga)
    cases hb with
    | array hitems =>
      have hv : v.Distinct := hitems v (by simp)
      have hxd : x.Distinct := by
        cases ha with
        | array hm => exact hm x (by simp)
      have hlength : (l ++ v :: r).length = (a₁ ++ x :: a₂).length := by
        simp [hl.length_eq, hr.length_eq]
      have hv? : (l ++ v :: r)[l.length]? = some v := by simp
      have hx? : (a₁ ++ x :: a₂)[l.length]? = some x := by rw [hl.length_eq]; simp
      have hdiffer : differAt (l ++ v :: r) (a₁ ++ x :: a₂) l.length = true := by
        rw [differAt, hv?, hx?]
        simpa using (removes_ne hinner hv hwx).1
      have hfilter : (List.range (l ++ v :: r).length).filter
          (differAt (l ++ v :: r) (a₁ ++ x :: a₂)) = [l.length] := by
        exact filter_range_singleton (by simp) hdiffer fun j hj => differAt_other hl hr hj
      obtain ⟨path', g', hpath, hremoves, hg'⟩ := ih hv hxd hwx
      refine ⟨.index l.length :: path', _, ?_, .inElement l r hremoves, ?_⟩
      · rw [removalPath_inElement hlength hfilter hv? hx?, hpath]
        rfl
      · exact Value.same_array.mpr (forall₂_join hl hg' hr)

/-! ## What the scanner passes -/

namespace Scanner

theorem space_blank {w : Str} (hw : JsonText.Blank w) (n : Nat) (t : Str) :
    (⟨n, w ++ t⟩ : Scanner).space = (⟨n + w.length, t⟩ : Scanner).space := by
  show spaceFrom n (w ++ t) = spaceFrom (n + w.length) t
  induction w generalizing n with
  | nil => rfl
  | cons b w ih =>
    rw [List.cons_append, spaceFrom, if_pos (hw b List.mem_cons_self),
      ih (fun c hc => hw c (List.mem_cons_of_mem _ hc)), List.length_cons]
    congr 1
    omega

theorem space_first {b : UInt8} (hb : isSpace b = false) (n : Nat) (t : Str) :
    (⟨n, b :: t⟩ : Scanner).space = ⟨n, b :: t⟩ := by
  show spaceFrom n (b :: t) = _
  rw [spaceFrom, hb, if_neg Bool.false_ne_true]

theorem stringFrom_closes {body : Str} (h : JsonText.Closes body) (n : Nat) (t : Str) :
    stringFrom n (body ++ t) = some ⟨n + body.length, t⟩ := by
  induction h generalizing n with
  | close => rfl
  | @plain b body hquote hslash _ ih =>
    rw [List.cons_append, stringFrom.eq_def]
    split
    next heq => cases heq
    next heq => exact absurd (List.cons.inj heq).1 hquote
    next heq => exact absurd (List.cons.inj heq).1 hslash
    next heq =>
      obtain ⟨rfl, rfl⟩ := List.cons.inj heq
      rw [ih, List.length_cons, Nat.add_right_comm, Nat.add_assoc]
  | escape _ ih =>
    rw [List.cons_append, List.cons_append, stringFrom, ih, List.length_cons, List.length_cons]
    congr 2
    omega

theorem string_literal {t : Str} (h : JsonText.IsLiteral t) (n : Nat) (rest : Str) :
    (⟨n, t ++ rest⟩ : Scanner).string = some ⟨n + t.length, rest⟩ := by
  obtain ⟨body, rfl, hcloses⟩ := h
  show stringFrom (n + 1) (body ++ rest) = _
  rw [stringFrom_closes hcloses, List.length_cons]
  congr 2
  omega

/-- A word ends where the text does, or at one of the bytes that end one. -/
def Delimits (t : Str) : Prop := ∀ b rest, t = b :: rest → endsWord b = true

theorem wordFrom_word {w : Str} (hw : ∀ b ∈ w, endsWord b = false) {t : Str} (ht : Delimits t)
    (n : Nat) : wordFrom n (w ++ t) = ⟨n + w.length, t⟩ := by
  induction w generalizing n with
  | nil =>
    cases t with
    | nil => rfl
    | cons b t =>
      show wordFrom n (b :: t) = _
      rw [wordFrom, if_pos (ht b t rfl)]
      rfl
  | cons b w ih =>
    rw [List.cons_append, wordFrom, if_neg (by rw [hw b List.mem_cons_self]; exact Bool.false_ne_true),
      ih (fun c hc => hw c (List.mem_cons_of_mem _ hc)), List.length_cons]
    congr 1
    omega

theorem delimits_blank {w t : Str} (hw : JsonText.Blank w) (ht : Delimits t) :
    Delimits (w ++ t) := by
  cases w with
  | nil => exact ht
  | cons b w =>
    intro c rest h
    rw [← (List.cons.inj h).1, endsWord, hw b List.mem_cons_self]
    rfl

theorem delimits_comma (t : Str) : Delimits (0x2C :: t) := by
  intro b rest h
  rw [← (List.cons.inj h).1]
  rfl

theorem delimits_closer (kind : Kind) (t : Str) : Delimits (kind.closer :: t) := by
  intro b rest h
  rw [← (List.cons.inj h).1]
  cases kind with
  | array => rfl
  | object => rfl

/-- A byte that neither opens nor closes anything. -/
def isPlain (b : UInt8) : Bool :=
  b != 0x22 && b != 0x5B && b != 0x5D && b != 0x7B && b != 0x7D

theorem isPlain_of_isSpace {b : UInt8} (h : isSpace b = true) : isPlain b = true := by
  have hb := JsonText.all_bytes (fun b => !isSpace b || isPlain b) (by decide +kernel) b
  simpa only [h, Bool.not_true, Bool.false_or] using hb

theorem isNumeric_class {b : UInt8} (h : JsonText.isNumeric b = true) :
    isPlain b = true ∧ endsWord b = false := by
  have hb := JsonText.all_bytes
    (fun b => !JsonText.isNumeric b || (isPlain b && !endsWord b)) (by decide +kernel) b
  simpa only [h, Bool.not_true, Bool.false_or, Bool.and_eq_true, Bool.not_eq_true'] using hb

theorem token_class {t : Str} (h : JsonText.IsToken t) :
    ∀ b ∈ t, isPlain b = true ∧ endsWord b = false := by
  obtain ⟨b, rest, rfl, hb, hrest⟩ := h
  intro c hc
  rcases List.mem_cons.mp hc with rfl | hc
  · exact isNumeric_class (JsonText.isToken_first hb).2.1
  · exact isNumeric_class (hrest c hc)

section

variable {kind : Kind} {depth : Nat}

theorem nested_plain {w : Str} (hw : ∀ b ∈ w, isPlain b = true) (hdepth : depth ≠ 0) (n : Nat)
    (t : Str) :
    nested kind.opener kind.closer depth ⟨n, w ++ t⟩
      = nested kind.opener kind.closer depth ⟨n + w.length, t⟩ := by
  induction w generalizing n with
  | nil => rfl
  | cons b w ih =>
    have hb := hw b List.mem_cons_self
    simp only [isPlain, Bool.and_eq_true, bne_iff_ne] at hb
    have hopener : b ≠ kind.opener := by cases kind <;> simp only [Kind.opener] <;> tauto
    have hcloser : b ≠ kind.closer := by cases kind <;> simp only [Kind.closer] <;> tauto
    rw [List.cons_append, nested, if_neg hdepth]
    split
    next hpeek => cases hpeek
    next c hpeek =>
      obtain rfl : b = c := Option.some.inj hpeek
      rw [if_neg (by tauto), if_neg hopener, if_neg hcloser]
      have hrest := ih (fun c hc => hw c (List.mem_cons_of_mem _ hc)) (n + 1)
      rw [List.length_cons, show n + (w.length + 1) = n + 1 + w.length by omega, ← hrest]
      rfl

theorem nested_literal {w : Str} (hw : JsonText.IsLiteral w) (hdepth : depth ≠ 0) (n : Nat)
    (t : Str) :
    nested kind.opener kind.closer depth ⟨n, w ++ t⟩
      = nested kind.opener kind.closer depth ⟨n + w.length, t⟩ := by
  have hstring := string_literal hw n t
  rw [nested, if_neg hdepth]
  split
  next hpeek =>
    obtain ⟨body, rfl, -⟩ := hw
    cases hpeek
  next c hpeek =>
    have hquote : c = 0x22 := by
      obtain ⟨body, rfl, -⟩ := hw
      exact (Option.some.inj hpeek).symm
    rw [if_pos hquote]
    split
    next hnone => rw [hstring] at hnone; cases hnone
    next s' hs =>
      rw [hstring] at hs
      rw [Option.some.inj hs]

theorem nested_opener (hdepth : depth ≠ 0) (n : Nat) (t : Str) :
    nested kind.opener kind.closer depth ⟨n, kind.opener :: t⟩
      = nested kind.opener kind.closer (depth + 1) ⟨n + 1, t⟩ := by
  have hquote : kind.opener ≠ 0x22 := by cases kind <;> decide
  rw [nested, if_neg hdepth]
  split
  next hpeek => cases hpeek
  next c hpeek =>
    obtain rfl : kind.opener = c := Option.some.inj hpeek
    rw [if_neg hquote, if_pos rfl]
    rfl

theorem nested_closer (hdepth : depth ≠ 0) (n : Nat) (t : Str) :
    nested kind.opener kind.closer depth ⟨n, kind.closer :: t⟩
      = nested kind.opener kind.closer (depth - 1) ⟨n + 1, t⟩ := by
  have hquote : kind.closer ≠ 0x22 := by cases kind <;> decide
  have hopener : kind.closer ≠ kind.opener := by cases kind <;> decide
  rw [nested, if_neg hdepth]
  split
  next hpeek => cases hpeek
  next c hpeek =>
    obtain rfl : kind.closer = c := Option.some.inj hpeek
    rw [if_neg hquote, if_neg hopener, if_pos rfl]
    rfl

theorem nested_other {kind' : Kind} (h : kind' ≠ kind) {b : UInt8}
    (hb : b = kind'.opener ∨ b = kind'.closer) (hdepth : depth ≠ 0) (n : Nat) (t : Str) :
    nested kind.opener kind.closer depth ⟨n, b :: t⟩
      = nested kind.opener kind.closer depth ⟨n + 1, t⟩ := by
  have hclass : b ≠ 0x22 ∧ b ≠ kind.opener ∧ b ≠ kind.closer := by
    rcases hb with rfl | rfl
    · cases kind <;> cases kind' <;> first | exact absurd rfl h | decide
    · cases kind <;> cases kind' <;> first | exact absurd rfl h | decide
  rw [nested, if_neg hdepth]
  split
  next hpeek => cases hpeek
  next c hpeek =>
    obtain rfl : b = c := Option.some.inj hpeek
    rw [if_neg hclass.1, if_neg hclass.2.1, if_neg hclass.2.2]
    rfl

end

section

variable {m : Meaning Text Value} {kind : Kind} {depth : Nat}

/-- The count of brackets of one kind is back where it was after `w`. -/
def Passes (kind : Kind) (w : Str) : Prop :=
  ∀ (depth n : Nat) (t : Str), depth ≠ 0 →
    nested kind.opener kind.closer depth ⟨n, w ++ t⟩
      = nested kind.opener kind.closer depth ⟨n + w.length, t⟩

theorem passes_append {v w : Str} (hv : Passes kind v) (hw : Passes kind w) :
    Passes kind (v ++ w) := by
  intro depth n t hdepth
  rw [List.append_assoc, hv depth n _ hdepth, hw depth _ t hdepth, List.length_append,
    Nat.add_assoc]

theorem passes_plain {w : Str} (hw : ∀ b ∈ w, isPlain b = true) : Passes kind w :=
  fun _ n t hdepth => nested_plain hw hdepth n t

theorem passes_blank {w : Str} (hw : JsonText.Blank w) : Passes kind w :=
  passes_plain fun b hb => isPlain_of_isSpace (hw b hb)

theorem passes_literal {w : Str} (hw : JsonText.IsLiteral w) : Passes kind w :=
  fun _ n t hdepth => nested_literal hw hdepth n t

theorem passes_head {kind' : Kind} {e : Entry Node} (he : e.Valid m kind') :
    Passes kind (JsonText.headText e.key) := by
  cases kind' with
  | array =>
    rw [he.array rfl]
    exact passes_plain (by simp [JsonText.headText])
  | object =>
    obtain ⟨k, hk, hvalid⟩ := he.object rfl
    have hcolon : Passes kind ([0x3A] ++ k.lead) :=
      passes_append (passes_plain (by decide)) (passes_blank hvalid.lead)
    rw [hk]
    exact passes_append (passes_literal hvalid.literal) (passes_append (passes_blank hvalid.gap) hcolon)

theorem passes_entry {kind' : Kind} {e : Entry Node} (he : e.Valid m kind')
    (hnode : Passes kind e.node.text) : Passes kind e.text :=
  passes_append (passes_blank he.before)
    (passes_append (passes_head he) (passes_append hnode (passes_blank he.after)))

theorem passes_trailing {es : List (Entry Node)} (h : ∀ e ∈ es, Passes kind e.text) :
    Passes kind (JsonText.trailing es) := by
  induction es with
  | nil => exact passes_plain (by simp [JsonText.trailing])
  | cons e es ih =>
    rw [List.forall_mem_cons] at h
    exact passes_append (v := [0x2C]) (passes_plain (by decide)) (passes_append h.1 (ih h.2))

theorem passes_entries {es : List (Entry Node)} (h : ∀ e ∈ es, Passes kind e.text) :
    Passes kind (JsonText.entriesText es) := by
  cases es with
  | nil => exact passes_plain (by simp [JsonText.entriesText])
  | cons e es =>
    rw [List.forall_mem_cons] at h
    rw [JsonText.entriesText_cons]
    exact passes_append h.1 (passes_trailing h.2)

/-- A bracket of the kind opened and closed again leaves the count where it was. -/
theorem passes_brackets {kind' : Kind} {w : Str} (hw : Passes kind w) :
    Passes kind (kind'.opener :: (w ++ [kind'.closer])) := by
  intro depth n t hdepth
  have hlength : n + (kind'.opener :: (w ++ [kind'.closer])).length = n + 1 + w.length + 1 := by
    simp only [List.length_cons, List.length_append, List.length_nil]
    omega
  rw [hlength, List.cons_append, List.append_assoc, List.singleton_append]
  by_cases hkind : kind' = kind
  · subst hkind
    rw [nested_opener hdepth, hw _ _ _ (Nat.succ_ne_zero depth),
      nested_closer (Nat.succ_ne_zero depth)]
    rfl
  · rw [nested_other hkind (.inl rfl) hdepth, hw _ _ _ hdepth,
      nested_other hkind (.inr rfl) hdepth]

theorem passes_node {n : Node} (h : n.Valid m) : Passes kind n.text := by
  induction h with
  | null => exact passes_plain (by decide)
  | bool b => cases b with
    | true => exact passes_plain (by decide)
    | false => exact passes_plain (by decide)
  | number htoken _ => exact passes_plain fun b hb => (token_class htoken b hb).1
  | string hliteral _ => exact passes_literal hliteral
  | group hblank hvalid _ _ ih =>
    have hinside := passes_append (@passes_blank kind _ hblank)
      (passes_entries fun e he => passes_entry (hvalid e he) (ih e he))
    rw [Node.text, ← List.append_assoc]
    exact passes_brackets hinside

theorem value_word {w : Str} {b : UInt8} {u : Str} (hfirst : w = b :: u)
    (hb : JsonText.isFirst b = true ∧ b ≠ 0x22 ∧ b ≠ 0x7B ∧ b ≠ 0x5B)
    (hw : ∀ c ∈ w, endsWord c = false) {t : Str} (ht : Delimits t) (n : Nat) :
    (⟨n, w ++ t⟩ : Scanner).value = some ⟨n + w.length, t⟩ := by
  have hspace : (⟨n, w ++ t⟩ : Scanner).space = ⟨n, w ++ t⟩ := by
    rw [hfirst]
    exact space_first (JsonText.isFirst_ends hb.1).1 n _
  have hpeek : (⟨n, w ++ t⟩ : Scanner).peek = some b := by
    rw [hfirst]
    rfl
  rw [value, hspace, hpeek]
  dsimp only
  rw [if_neg hb.2.1, if_neg (by tauto), wordFrom_word hw ht]

/-- Any value of the grammar is passed, and nothing after it. -/
theorem value_node {node : Node} (h : node.Valid m) {t : Str} (ht : Delimits t) (n : Nat) :
    (⟨n, node.text ++ t⟩ : Scanner).value = some ⟨n + node.text.length, t⟩ := by
  cases h with
  | null => exact value_word (b := 0x6E) rfl (by decide) (by decide) ht n
  | bool b => cases b with
    | true => exact value_word (b := 0x74) rfl (by decide) (by decide) ht n
    | false => exact value_word (b := 0x66) rfl (by decide) (by decide) ht n
  | number htoken _ =>
    obtain ⟨b, rest, htext, hb, -⟩ := id htoken
    obtain ⟨hfirst, -, -, -, -, hquote, hbracket, hbrace⟩ := JsonText.isToken_first hb
    exact value_word htext ⟨hfirst, hquote, hbrace, hbracket⟩
      (fun c hc => (token_class htoken c hc).2) ht n
  | @string literal hliteral _ =>
    have hstring := string_literal hliteral n t
    have hspace : (⟨n, literal ++ t⟩ : Scanner).space = ⟨n, literal ++ t⟩ := by
      obtain ⟨body, rfl, -⟩ := hliteral
      exact space_first (by decide) n _
    have hpeek : (⟨n, literal ++ t⟩ : Scanner).peek = some 0x22 := by
      obtain ⟨body, rfl, -⟩ := hliteral
      rfl
    rw [Node.text, value, hspace, hpeek]
    exact hstring
  | @group kind blank es hblank hvalid hkeys hnodes =>
    have hinside : Passes kind (blank ++ JsonText.entriesText es) :=
      passes_append (passes_blank hblank)
        (passes_entries fun e he => passes_entry (hvalid e he) (passes_node (hnodes e he)))
    have htext : (Node.group kind blank es).text ++ t
        = kind.opener :: ((blank ++ JsonText.entriesText es) ++ kind.closer :: t) := by
      rw [Node.text]
      simp only [List.cons_append, List.append_assoc, List.nil_append]
    have hlength : (Node.group kind blank es).text.length
        = (blank ++ JsonText.entriesText es).length + 2 := by
      rw [Node.text]
      simp only [List.length_cons, List.length_append, List.length_nil]
      omega
    have hnested : nested kind.opener kind.closer 1
        ⟨n + 1, (blank ++ JsonText.entriesText es) ++ kind.closer :: t⟩
        = some ⟨n + (Node.group kind blank es).text.length, t⟩ := by
      rw [hinside 1 (n + 1) _ Nat.one_ne_zero, nested_closer Nat.one_ne_zero, nested, if_pos rfl,
        hlength]
      congr 2
      omega
    rw [htext, value]
    cases kind with
    | array =>
      rw [space_first (by decide)]
      exact hnested
    | object =>
      rw [space_first (by decide)]
      exact hnested

end

end Scanner

/-! ## Where the scanner finds an entry -/

/-- A text that a character starts, or that is at its end. -/
def Starts (t : Str) : Prop := ∀ b rest, t = b :: rest → b < 0x80

theorem starts_blank {w t : Str} (hw : JsonText.Blank w) (ht : Starts t) : Starts (w ++ t) := by
  cases w with
  | nil => exact ht
  | cons b w =>
    intro c rest h
    rw [← (List.cons.inj h).1]
    exact (JsonText.isSpace_ends (hw b List.mem_cons_self)).2

theorem starts_first {t : Str} (h : ∃ b u, t = b :: u ∧ JsonText.isFirst b = true) (v : Str) :
    Starts (t ++ v) := by
  obtain ⟨b, u, rfl, hb⟩ := h
  intro c rest heq
  rw [← (List.cons.inj heq).1]
  exact (JsonText.isFirst_ends hb).2.2.2.2

theorem starts_ascii {b : UInt8} (hb : b < 0x80) (t : Str) : Starts (b :: t) := by
  intro c rest h
  rwa [← (List.cons.inj h).1]

theorem isCharBoundary_append (A : Str) {t : Str} (ht : Starts t) :
    isCharBoundary (A ++ t) A.length = true := by
  rw [isCharBoundary, List.getElem?_append_right (Nat.le_refl _), Nat.sub_self]
  cases t with
  | nil => simp
  | cons b t =>
    have hb : isContinuation b = false := by
      have hlt := ht b t rfl
      rw [isContinuation, Bool.and_eq_false_iff, decide_eq_false_iff_not]
      exact .inl (by rw [UInt8.not_le]; exact hlt)
    rw [List.getElem?_cons_zero]
    simp [hb]

theorem slice_middle {A B C : Str} (hB : Starts (B ++ C)) (hC : Starts C) :
    slice (A ++ (B ++ C)) A.length (A.length + B.length) = some B := by
  have hstop : isCharBoundary (A ++ (B ++ C)) (A.length + B.length) = true := by
    have h := isCharBoundary_append (A ++ B) hC
    rwa [List.length_append, List.append_assoc] at h
  rw [slice, if_pos ⟨Nat.le_add_right _ _, isCharBoundary_append A hB, hstop⟩,
    List.take_length_add_append, List.take_left, List.drop_left]

section

variable {serde : Serde} {text : Str}

/-- Whether an entry is the addressed one, if `count` entries are before it. -/
def isAddressed (serde : Serde) (segment : Segment) (count : Nat) (e : Entry Node) : Bool :=
  match segment with
  | .key wanted => decide (e.name serde.meaning = wanted)
  | .index wanted => decide (count = wanted)

theorem head_entry {segment : Segment} {e : Entry Node}
    (he : e.Valid serde.meaning (containerOf segment)) (hnode : e.node.Valid serde.meaning)
    (count : Nat) (P t : Str)
    (htext : text = P ++ (JsonText.headText e.key ++ (e.node.text ++ t))) :
    ∃ s₁, head serde text segment count
        ⟨P.length, JsonText.headText e.key ++ (e.node.text ++ t)⟩
        = some (isAddressed serde segment count e, s₁)
      ∧ s₁.space = ⟨P.length + (JsonText.headText e.key).length, e.node.text ++ t⟩ := by
  obtain ⟨b, u, hfirst, hb⟩ := hnode.first
  have hspace : ∀ n, (⟨n, e.node.text ++ t⟩ : Scanner).space = ⟨n, e.node.text ++ t⟩ := by
    intro n
    rw [hfirst, List.cons_append]
    exact Scanner.space_first (JsonText.isFirst_ends hb).1 n _
  cases segment with
  | index wanted =>
    refine ⟨_, rfl, ?_⟩
    rw [he.array rfl, JsonText.headText, List.nil_append]
    exact hspace _
  | key wanted =>
    obtain ⟨k, hk, hvalid⟩ := he.object rfl
    obtain ⟨name, hname⟩ := Option.isSome_iff_exists.mp hvalid.known
    have hvalue : e.name serde.meaning = name := by
      rw [Entry.name, hk, Meaning.name, hname]
      rfl
    have hhead : JsonText.headText e.key ++ (e.node.text ++ t)
        = k.literal ++ (k.gap ++ 0x3A :: (k.lead ++ (e.node.text ++ t))) := by
      rw [hk, JsonText.headText, Key.text]
      simp only [List.append_assoc, List.cons_append]
    have hlength : (JsonText.headText e.key).length
        = k.literal.length + k.gap.length + 1 + k.lead.length := by
      rw [hk, JsonText.headText, Key.text]
      simp only [List.length_append, List.length_cons]
      omega
    have hrest : Starts (k.gap ++ 0x3A :: (k.lead ++ (e.node.text ++ t))) :=
      starts_blank hvalid.gap (starts_ascii (by decide) _)
    have hliteral : Starts (k.literal ++ (k.gap ++ 0x3A :: (k.lead ++ (e.node.text ++ t)))) := by
      obtain ⟨body, hbody, -⟩ := hvalid.literal
      rw [hbody]
      exact starts_ascii (by decide) _
    have hslice : slice text P.length (P.length + k.literal.length) = some k.literal := by
      rw [htext, hhead]
      exact slice_middle hliteral hrest
    have hcolon : ((⟨P.length + k.literal.length,
          k.gap ++ 0x3A :: (k.lead ++ (e.node.text ++ t))⟩ : Scanner).space.eat 0x3A)
        = some ⟨P.length + k.literal.length + k.gap.length + 1, k.lead ++ (e.node.text ++ t)⟩ := by
      rw [Scanner.space_blank hvalid.gap, Scanner.space_first (by decide)]
      rfl
    refine ⟨⟨P.length + k.literal.length + k.gap.length + 1, k.lead ++ (e.node.text ++ t)⟩, ?_, ?_⟩
    · rw [hhead, head, Scanner.string_literal hvalid.literal]
      simp only [Option.bind_eq_bind, Option.bind_some, hcolon, hslice]
      rw [show serde.string k.literal = some name from hname, isAddressed, hvalue]
      rfl
    · rw [Scanner.space_blank hvalid.lead, hspace, hlength]
      congr 1
      omega

theorem entries_blank {segment : Segment} {w : Str} (hw : JsonText.Blank w) (count : Nat)
    (found : Option Found) (n : Nat) (t : Str) :
    entries serde text segment count found ⟨n, w ++ t⟩
      = entries serde text segment count found ⟨n + w.length, t⟩ := by
  have hspace := Scanner.space_blank hw n t
  rw [entries, entries, hspace]

/-- Where an entry that starts at `n`, white space included, is. -/
def placeOf (n : Nat) (e : Entry Node) : Found where
  start := n + e.before.length
  stop := n + e.before.length + (JsonText.headText e.key).length + e.node.text.length
  valueStart := n + e.before.length + (JsonText.headText e.key).length

def foundAfter (serde : Serde) (segment : Segment) (count : Nat) (found : Option Found) (n : Nat)
    (e : Entry Node) : Option Found :=
  if isAddressed serde segment count e && found.isNone then some (placeOf n e) else found

/-- One entry, and the byte after it. -/
theorem entries_step {segment : Segment} {e : Entry Node}
    (he : e.Valid serde.meaning (containerOf segment)) (hnode : e.node.Valid serde.meaning)
    (count : Nat) (found : Option Found) (P t : Str) {b : UInt8} (hb : isSpace b = false)
    (hends : Scanner.endsWord b = true) (htext : text = P ++ (e.text ++ b :: t)) :
    entries serde text segment count found ⟨P.length, e.text ++ b :: t⟩
      = if b = 0x2C then
          entries serde text segment (count + 1) (foundAfter serde segment count found P.length e)
            ⟨P.length + e.text.length + 1, t⟩
        else if b = (containerOf segment).closer then
          some (foundAfter serde segment count found P.length e, P.length + e.text.length, count + 1)
        else none := by
  have hsplit : e.text ++ b :: t
      = e.before ++ (JsonText.headText e.key ++ (e.node.text ++ (e.after ++ b :: t))) := by
    rw [Entry.text]
    simp only [List.append_assoc]
  have hlength : e.text.length = e.before.length + (JsonText.headText e.key).length
      + e.node.text.length + e.after.length := by
    rw [Entry.text]
    simp only [List.length_append]
    omega
  obtain ⟨c, u, hfirst, hc⟩ := he.first hnode
  have hspace : ∀ n, (⟨n, JsonText.headText e.key ++ (e.node.text ++ (e.after ++ b :: t))⟩ :
      Scanner).space = ⟨n, JsonText.headText e.key ++ (e.node.text ++ (e.after ++ b :: t))⟩ := by
    intro n
    rw [← List.append_assoc, hfirst, List.cons_append]
    exact Scanner.space_first (JsonText.isFirst_ends hc).1 n _
  have hpeek : ∀ n, (⟨n, JsonText.headText e.key ++ (e.node.text ++ (e.after ++ b :: t))⟩ :
      Scanner).peek = some c := by
    intro n
    rw [← List.append_assoc, hfirst]
    rfl
  have hdelimits : Scanner.Delimits (e.after ++ b :: t) := by
    refine Scanner.delimits_blank he.after ?_
    intro d rest heq
    rwa [← (List.cons.inj heq).1]
  have hhead := @head_entry serde text _ _ he hnode count (P ++ e.before) (e.after ++ b :: t)
    (by rw [htext, hsplit, List.append_assoc])
  rw [List.length_append] at hhead
  obtain ⟨s₁, hhead, hs₁⟩ := hhead
  have hvalue := Scanner.value_node hnode hdelimits
    (P.length + e.before.length + (JsonText.headText e.key).length)
  have hafter : ∀ n, (⟨n, e.after ++ b :: t⟩ : Scanner).space = ⟨n + e.after.length, b :: t⟩ := by
    intro n
    rw [Scanner.space_blank he.after, Scanner.space_first hb]
  have hstop : P.length + e.text.length = P.length + e.before.length
      + (JsonText.headText e.key).length + e.node.text.length + e.after.length := by omega
  rw [hsplit, entries_blank he.before, entries, hspace, hpeek]
  dsimp only
  rw [if_neg (JsonText.closer_ne_first hc _)]
  split
  next hnone =>
    rw [hhead] at hnone
    cases hnone
  next isMatch s₁' hhead' =>
    rw [hhead] at hhead'
    simp only [Option.some.injEq, Prod.mk.injEq] at hhead'
    obtain ⟨rfl, rfl⟩ := hhead'
    split
    next hnone =>
      rw [hs₁, hvalue] at hnone
      cases hnone
    next s₂ hvalue' =>
      rw [hs₁, hvalue] at hvalue'
      obtain rfl := Option.some.inj hvalue'
      split
      next hnone =>
        rw [hafter] at hnone
        cases hnone
      next d hd =>
        rw [hafter] at hd
        obtain rfl : b = d := Option.some.inj hd
        rw [hafter, hs₁, hstop]
        rfl

/-- The entries before the addressed one. -/
theorem entries_leading {segment : Segment} {l : List (Entry Node)}
    (hvalid : ∀ e ∈ l, e.Valid serde.meaning (containerOf segment))
    (hnodes : ∀ e ∈ l, e.node.Valid serde.meaning) (count : Nat)
    (hother : ∀ i e, l[i]? = some e → isAddressed serde segment (count + i) e = false)
    (P t : Str) (htext : text = P ++ (JsonText.leading l ++ t)) :
    entries serde text segment count none ⟨P.length, JsonText.leading l ++ t⟩
      = entries serde text segment (count + l.length) none
        ⟨P.length + (JsonText.leading l).length, t⟩ := by
  induction l generalizing count P with
  | nil => rfl
  | cons e l ih =>
    rw [List.forall_mem_cons] at hvalid hnodes
    have hsplit : JsonText.leading (e :: l) ++ t
        = e.text ++ 0x2C :: (JsonText.leading l ++ t) := by
      rw [JsonText.leading_cons, List.append_assoc, List.cons_append]
    have hfound : foundAfter serde segment count none P.length e = none := by
      rw [foundAfter, show isAddressed serde segment count e = false from hother 0 e rfl]
      rfl
    have hnext := ih hvalid.2 hnodes.2 (count + 1)
      (fun i f hf => by
        rw [Nat.add_assoc, Nat.add_comm 1 i]
        exact hother (i + 1) f hf)
      (P ++ (e.text ++ [0x2C])) (by rw [htext, hsplit]; simp only [List.append_assoc,
        List.singleton_append])
    rw [hsplit, entries_step hvalid.1 hnodes.1 count none P _ (by decide) (by decide)
      (by rw [htext, hsplit]), if_pos rfl, hfound]
    rw [show P.length + e.text.length + 1 = (P ++ (e.text ++ [0x2C])).length by
      simp only [List.length_append, List.length_cons, List.length_nil]; omega, hnext]
    congr 1
    · rw [List.length_cons]
      omega
    · congr 1
      rw [JsonText.leading_cons]
      simp only [List.length_append, List.length_cons, List.length_nil]
      omega

/-- The addressed entry and those after it. -/
theorem entries_rest {segment : Segment} {e : Entry Node} {r : List (Entry Node)}
    (hvalid : ∀ f ∈ e :: r, f.Valid serde.meaning (containerOf segment))
    (hnodes : ∀ f ∈ e :: r, f.node.Valid serde.meaning) (count : Nat) (found : Option Found)
    (place : Found) (P t : Str)
    (hfound : foundAfter serde segment count found P.length e = some place)
    (htext : text
      = P ++ (e.text ++ (JsonText.trailing r ++ (containerOf segment).closer :: t))) :
    entries serde text segment count found
        ⟨P.length, e.text ++ (JsonText.trailing r ++ (containerOf segment).closer :: t)⟩
      = some (some place, P.length + e.text.length + (JsonText.trailing r).length,
          count + 1 + r.length) := by
  induction r generalizing e count found P with
  | nil =>
    have hspace : isSpace (containerOf segment).closer = false := by
      cases containerOf segment <;> rfl
    have hends : Scanner.endsWord (containerOf segment).closer = true := by
      cases containerOf segment <;> rfl
    have hcomma : (containerOf segment).closer ≠ 0x2C := by
      cases containerOf segment <;> decide
    rw [show JsonText.trailing ([] : List (Entry Node)) = [] from rfl, List.nil_append] at htext ⊢
    rw [entries_step (hvalid e List.mem_cons_self) (hnodes e List.mem_cons_self) count found P _
      hspace hends htext, if_neg hcomma, if_pos rfl, hfound]
    rfl
  | cons f r ih =>
    have hsplit : JsonText.trailing (f :: r) ++ (containerOf segment).closer :: t
        = 0x2C :: (f.text ++ (JsonText.trailing r ++ (containerOf segment).closer :: t)) := by
      rw [JsonText.trailing_cons, List.cons_append, List.append_assoc]
    have hkept : foundAfter serde segment (count + 1) (some place)
        (P ++ (e.text ++ [0x2C])).length f = some place := by
      rw [foundAfter, Option.isNone_some, Bool.and_false, if_neg Bool.false_ne_true]
    have hnext := ih (fun g hg => hvalid g (List.mem_cons_of_mem _ hg))
      (fun g hg => hnodes g (List.mem_cons_of_mem _ hg)) (count + 1) (some place)
      (P ++ (e.text ++ [0x2C])) hkept
      (by rw [htext, hsplit]; simp only [List.append_assoc, List.singleton_append])
    rw [hsplit] at htext ⊢
    rw [entries_step (hvalid e List.mem_cons_self) (hnodes e List.mem_cons_self) count found P _
      (by decide) (by decide) htext, if_pos rfl, hfound]
    rw [show P.length + e.text.length + 1 = (P ++ (e.text ++ [0x2C])).length by
      simp only [List.length_append, List.length_cons, List.length_nil]; omega, hnext,
      JsonText.trailing_cons]
    simp only [List.length_append, List.length_cons, List.length_nil, Option.some.injEq,
      Prod.mk.injEq, true_and]
    constructor
    · omega
    · omega

/-- The step leads to that entry and to none before it. -/
theorem isAddressed_of_leads {kind : Kind} {l : List (Entry Node)} {e : Entry Node}
    {r : List (Entry Node)} {segment : Segment}
    (h : JsonText.Leads serde.meaning kind l e segment)
    (hkeys : kind = .object → ((l ++ e :: r).map (Entry.name serde.meaning)).Nodup) :
    containerOf segment = kind ∧ isAddressed serde segment l.length e = true
      ∧ ∀ i f, l[i]? = some f → isAddressed serde segment i f = false := by
  cases segment with
  | key k =>
    obtain ⟨rfl, hname⟩ := h
    refine ⟨rfl, decide_eq_true hname, fun i f hf => decide_eq_false fun hfk => ?_⟩
    have hnodup := hkeys rfl
    rw [List.map_append, List.map_cons] at hnodup
    have hdisjoint := List.disjoint_of_nodup_append hnodup
    refine hdisjoint (List.mem_map_of_mem (List.mem_of_getElem? hf)) ?_
    rw [hfk, ← hname]
    exact List.mem_cons_self
  | index i =>
    obtain ⟨rfl, hlength⟩ := h
    refine ⟨rfl, decide_eq_true hlength, fun j f hf => decide_eq_false fun hj => ?_⟩
    have hlt := List.getElem?_eq_some_iff.mp hf
    obtain ⟨hlt, -⟩ := hlt
    omega

/-- Where an entry of a group that starts at `n` is. -/
def hitAt (n : Nat) (blank : Str) (l : List (Entry Node)) (e : Entry Node)
    (r : List (Entry Node)) : Hit where
  opening := n
  start := n + 1 + blank.length + (JsonText.leading l).length + e.before.length
  valueStart := n + 1 + blank.length + (JsonText.leading l).length + e.before.length
    + (JsonText.headText e.key).length
  stop := n + 1 + blank.length + (JsonText.leading l).length + e.before.length
    + (JsonText.headText e.key).length + e.node.text.length
  close := n + 1 + blank.length + (JsonText.leading l).length + e.text.length
    + (JsonText.trailing r).length
  count := l.length + 1 + r.length

theorem enter_group {kind : Kind} {blank : Str} {l r : List (Entry Node)} {e : Entry Node}
    {segment : Segment} (hgroup : (Node.group kind blank (l ++ e :: r)).Valid serde.meaning)
    (hleads : JsonText.Leads serde.meaning kind l e segment) {w : Str}
    (hw : JsonText.Blank w) (P t : Str)
    (htext : text = P ++ (w ++ ((Node.group kind blank (l ++ e :: r)).text ++ t))) :
    enter serde text segment ⟨P.length, w ++ ((Node.group kind blank (l ++ e :: r)).text ++ t)⟩
      = some (hitAt (P.length + w.length) blank l e r) := by
  cases hgroup with
  | group hblank hvalid hkeys hnodes =>
    obtain ⟨rfl, hmatch, hothers⟩ := isAddressed_of_leads hleads hkeys
    have hsplit : (Node.group (containerOf segment) blank (l ++ e :: r)).text ++ t
        = (containerOf segment).opener :: (blank ++ (JsonText.leading l ++ (e.text
          ++ (JsonText.trailing r ++ (containerOf segment).closer :: t)))) := by
      rw [Node.text, JsonText.entriesText_append]
      simp only [List.cons_append, List.append_assoc, List.nil_append]
    have hopener : isSpace (containerOf segment).opener = false := by
      cases containerOf segment <;> rfl
    have hspace : (⟨P.length, w ++ ((Node.group (containerOf segment) blank (l ++ e :: r)).text
        ++ t)⟩ : Scanner).space = ⟨P.length + w.length, (containerOf segment).opener :: (blank
          ++ (JsonText.leading l ++ (e.text
            ++ (JsonText.trailing r ++ (containerOf segment).closer :: t))))⟩ := by
      rw [Scanner.space_blank hw, hsplit, Scanner.space_first hopener]
    have heat : (⟨P.length + w.length, (containerOf segment).opener :: (blank
          ++ (JsonText.leading l ++ (e.text
            ++ (JsonText.trailing r ++ (containerOf segment).closer :: t))))⟩ : Scanner).eat
          (containerOf segment).opener
        = some ⟨P.length + w.length + 1, blank ++ (JsonText.leading l ++ (e.text
            ++ (JsonText.trailing r ++ (containerOf segment).closer :: t)))⟩ := by
      rw [Scanner.eat]
      exact if_pos rfl
    have hfound : foundAfter serde segment l.length none
        (P ++ (w ++ ((containerOf segment).opener :: (blank ++ JsonText.leading l)))).length e
        = some (placeOf (P ++ (w ++ ((containerOf segment).opener
          :: (blank ++ JsonText.leading l)))).length e) := by
      rw [foundAfter, hmatch]
      rfl
    have hl := @entries_leading serde text segment l
      (fun f hf => hvalid f (by simp [hf])) (fun f hf => hnodes f (by simp [hf])) 0
      (fun i f hf => by rw [Nat.zero_add]; exact hothers i f hf)
      (P ++ (w ++ ((containerOf segment).opener :: blank)))
      (e.text ++ (JsonText.trailing r ++ (containerOf segment).closer :: t))
      (by rw [htext, hsplit]; simp only [List.append_assoc, List.cons_append])
    have hr := @entries_rest serde text segment e r
      (fun f hf => hvalid f (by simp at hf ⊢; tauto)) (fun f hf => hnodes f (by simp at hf ⊢; tauto))
      l.length none _ (P ++ (w ++ ((containerOf segment).opener
        :: (blank ++ JsonText.leading l)))) t hfound
      (by rw [htext, hsplit]; simp only [List.append_assoc, List.cons_append])
    have hblankLength : P.length + w.length + 1 + blank.length
        = (P ++ (w ++ ((containerOf segment).opener :: blank))).length := by
      simp only [List.length_append, List.length_cons]
      omega
    have hleadingLength : (P ++ (w ++ ((containerOf segment).opener :: blank))).length
          + (JsonText.leading l).length
        = (P ++ (w ++ ((containerOf segment).opener
          :: (blank ++ JsonText.leading l)))).length := by
      simp only [List.length_append, List.length_cons]
      omega
    have hentries := (entries_blank hblank 0 none (P.length + w.length + 1)
      (JsonText.leading l ++ (e.text ++ (JsonText.trailing r
        ++ (containerOf segment).closer :: t)))).trans
      ((congrArg (fun n => entries serde text segment 0 none ⟨n, JsonText.leading l ++ (e.text
        ++ (JsonText.trailing r ++ (containerOf segment).closer :: t))⟩) hblankLength).trans hl)
    rw [Nat.zero_add, hleadingLength, hr] at hentries
    rw [enter, hspace, heat]
    simp only [Option.bind_eq_bind, Option.bind_some, hentries, Option.pure_def, Option.some.injEq]
    rw [hitAt, placeOf]
    simp only [List.length_append, List.length_cons, Hit.mk.injEq]
    refine ⟨?_, ?_, ?_, trivial, ?_, trivial⟩
    · omega
    · omega
    · omega
    · omega

theorem locate_cons {segment next : Segment} {path : List Segment} {s : Scanner} :
    locate serde text (segment :: next :: path) s
      = (enter serde text segment s).bind fun hit =>
          locate serde text (next :: path) ⟨hit.valueStart, text.drop hit.valueStart⟩ := rfl

/-- Down the path to the entry that its last segment addresses. -/
theorem locate_at {n g : Node} {path : List Segment} {pre post : Str}
    (hat : n.At serde.meaning path pre g post) {kind : Kind} {blank : Str}
    {l r : List (Entry Node)} {e : Entry Node} {segment : Segment}
    (hg : g = .group kind blank (l ++ e :: r)) (hn : n.Valid serde.meaning)
    (hleads : JsonText.Leads serde.meaning kind l e segment) {w : Str} (hw : JsonText.Blank w)
    (P t : Str) (htext : text = P ++ (w ++ (n.text ++ t))) :
    locate serde text (path ++ [segment]) ⟨P.length, w ++ (n.text ++ t)⟩
      = some (hitAt (P.length + w.length + pre.length) blank l e r) := by
  induction hat generalizing w P t with
  | here n =>
    subst hg
    exact enter_group hn hleads hw P t htext
  | @step kind' blank' l' r' e' s' path pre' post' n hleads' hat ih =>
    have hsplit : (Node.group kind' blank' (l' ++ e' :: r')).text ++ t
        = JsonText.preText kind' blank' l' e'
          ++ (e'.node.text ++ (JsonText.postText kind' e' r' ++ t)) := by
      rw [JsonText.group_text]
      simp only [List.append_assoc]
    have henter := enter_group hn hleads' hw P t htext
    have hnode : e'.node.Valid serde.meaning := by
      cases hn with
      | group _ _ _ hnodes => exact hnodes e' (by simp)
    have hvalueStart : (hitAt (P.length + w.length) blank' l' e' r').valueStart
        = (P ++ (w ++ JsonText.preText kind' blank' l' e')).length := by
      rw [hitAt, JsonText.preText]
      simp only [List.length_append, List.length_cons]
      omega
    have hdrop : text.drop (P ++ (w ++ JsonText.preText kind' blank' l' e')).length
        = [] ++ (e'.node.text ++ (JsonText.postText kind' e' r' ++ t)) := by
      have hcut : text = (P ++ (w ++ JsonText.preText kind' blank' l' e'))
          ++ (e'.node.text ++ (JsonText.postText kind' e' r' ++ t)) := by
        rw [htext, hsplit]
        simp only [List.append_assoc]
      rw [hcut, List.drop_left, List.nil_append]
    have hnext := ih hg hnode JsonText.blank_nil (P ++ (w ++ JsonText.preText kind' blank' l' e'))
      (JsonText.postText kind' e' r' ++ t)
      (by rw [htext, hsplit]; simp only [List.append_assoc, List.nil_append])
    obtain ⟨next, rest, hpath⟩ : ∃ next rest, path ++ [segment] = next :: rest := by
      cases path with
      | nil => exact ⟨_, _, rfl⟩
      | cons a path => exact ⟨_, _, rfl⟩
    rw [List.cons_append, hpath, locate_cons, henter, Option.bind_some, hvalueStart, hdrop, ← hpath,
      hnext]
    congr 2
    simp only [List.length_append, List.length_nil]
    omega

/-! ## The span -/

theorem spaceAt_append (X : Str) (b : UInt8) (t : Str) :
    spaceAt (X ++ b :: t) X.length = isSpace b := by
  rw [spaceAt, List.getElem?_append_right (Nat.le_refl _), Nat.sub_self, List.getElem?_cons_zero]
  rfl

theorem forward_blank {w : Str} (hw : JsonText.Blank w) {b : UInt8} (hb : isSpace b = false)
    (X t : Str) {close : Nat} (hclose : X.length + w.length ≤ close) :
    forward (X ++ (w ++ b :: t)) close X.length = X.length + w.length := by
  induction w generalizing X with
  | nil =>
    rw [forward, List.nil_append, spaceAt_append, hb, if_neg (by simp)]
    rfl
  | cons c w ih =>
    have hnext := ih (fun d hd => hw d (List.mem_cons_of_mem _ hd)) (X ++ [c])
      (by simp only [List.length_append, List.length_cons, List.length_nil] at hclose ⊢; omega)
    rw [List.length_cons] at hclose
    rw [forward, List.cons_append, spaceAt_append, if_pos ⟨by omega, hw c List.mem_cons_self⟩]
    rw [List.append_assoc, List.singleton_append, List.length_append, List.length_singleton] at hnext
    rw [hnext, List.length_cons]
    omega

theorem backward_blank {w : Str} (hw : JsonText.Blank w) {b : UInt8} (hb : isSpace b = false)
    (X t : Str) {floor : Nat} (hfloor : floor ≤ X.length + 1) :
    backward (X ++ b :: (w ++ t)) floor (X.length + 1 + w.length) = X.length + 1 := by
  induction w using List.reverseRecOn generalizing t with
  | nil =>
    rw [List.length_nil, Nat.add_zero, backward, List.nil_append, spaceAt_append, hb,
      if_neg (by simp)]
  | append_singleton w c ih =>
    have hnext := ih (fun d hd => hw d (by simp [hd])) (c :: t)
    have hspace : spaceAt (X ++ b :: (w ++ [c] ++ t)) (X.length + 1 + w.length) = true := by
      have hsplit : X ++ b :: (w ++ [c] ++ t) = (X ++ b :: w) ++ c :: t := by simp
      have hlength : X.length + 1 + w.length = (X ++ b :: w).length := by
        simp only [List.length_append, List.length_cons]
        omega
      rw [hsplit, hlength, spaceAt_append]
      exact hw c (by simp)
    rw [List.length_append, List.length_singleton, ← Nat.add_assoc, backward,
      if_pos ⟨by omega, hspace⟩, List.append_assoc, List.singleton_append]
    exact hnext

theorem getElem?_middle (X : Str) (b : UInt8) (t : Str) : (X ++ b :: t)[X.length]? = some b := by
  rw [List.getElem?_append_right (Nat.le_refl _), Nat.sub_self, List.getElem?_cons_zero]

/-- What goes with the entry, by what stands beside it. -/
theorem spanAround_cut {kind : Kind} {blank : Str} {l r : List (Entry Node)} {e : Entry Node}
    {left removed right : Str} {g : Node}
    (hcut : JsonText.Cut kind blank l e r left removed right g)
    (hvalid : ∀ f ∈ l ++ e :: r, f.Valid serde.meaning kind)
    (hnodes : ∀ f ∈ l ++ e :: r, f.node.Valid serde.meaning) (A B : Str)
    (htext : text = A ++ ((Node.group kind blank (l ++ e :: r)).text ++ B)) :
    spanAround text (hitAt A.length blank l e r)
      = some (A.length + 1 + left.length, A.length + 1 + left.length + removed.length) := by
  have he := hvalid e (by simp)
  rw [hcut.text] at htext
  cases hcut with
  | sole =>
    rw [spanAround, if_pos (show (hitAt A.length blank [] e []).count = 1 from rfl)]
    simp only [hitAt, JsonText.leading, JsonText.trailing, List.flatMap_nil, List.length_nil,
      List.length_append]
    congr 2
    omega
  | next _ _ f r =>
    have hf := hvalid f (by simp)
    obtain ⟨b, u, hfirst, hb⟩ := hf.first (hnodes f (by simp))
    have hu : JsonText.headText f.key ++ (f.node.text ++ (f.after ++ (JsonText.trailing r
        ++ kind.closer :: B))) = b :: (u ++ (f.after ++ (JsonText.trailing r
        ++ kind.closer :: B))) := by
      rw [← List.append_assoc, hfirst, List.cons_append]
    -- the entry ends where `X` does; then its white space, the comma, and the next entry's
    generalize hX : A ++ (kind.opener :: (blank ++ (JsonText.leading l ++ (e.before
        ++ (JsonText.headText e.key ++ e.node.text))))) = X
    generalize hY : u ++ (f.after ++ (JsonText.trailing r ++ kind.closer :: B)) = Y at hu
    have hsplit : text = X ++ (e.after ++ 0x2C :: (f.before ++ b :: Y)) := by
      rw [htext, ← hX]
      simp only [List.append_assoc, List.cons_append, List.nil_append, hu]
    have hsplit' : text = (X ++ (e.after ++ [0x2C])) ++ (f.before ++ b :: Y) := by
      rw [hsplit]
      simp only [List.append_assoc, List.singleton_append]
    have hstop : (hitAt A.length blank l e (f :: r)).stop = X.length := by
      rw [← hX]
      simp only [hitAt, List.length_append, List.length_cons]
      omega
    have hclose : X.length + e.after.length + 1 + f.before.length
        ≤ (hitAt A.length blank l e (f :: r)).close := by
      rw [← hX]
      simp only [hitAt, JsonText.trailing_cons, Entry.text, List.length_append, List.length_cons]
      omega
    have hcursor : forward text (hitAt A.length blank l e (f :: r)).close X.length
        = X.length + e.after.length := by
      rw [hsplit]
      exact forward_blank he.after (by decide) X _ (by omega)
    have hcomma : text[X.length + e.after.length]? = some 0x2C := by
      rw [hsplit, ← List.append_assoc, ← List.length_append]
      exact getElem?_middle _ _ _
    have hnext : forward text (hitAt A.length blank l e (f :: r)).close
        (X.length + e.after.length + 1) = X.length + e.after.length + 1 + f.before.length := by
      have hlength : (X ++ (e.after ++ [0x2C])).length = X.length + e.after.length + 1 := by
        simp only [List.length_append, List.length_cons, List.length_nil]
        omega
      have h := @forward_blank _ hf.before _ (JsonText.isFirst_ends hb).1 (X ++ (e.after ++ [0x2C])) Y
        (hitAt A.length blank l e (f :: r)).close (by omega)
      rwa [← hsplit', hlength] at h
    have hcount : (hitAt A.length blank l e (f :: r)).count ≠ 1 := by
      simp only [hitAt, List.length_cons]
      omega
    rw [spanAround, if_neg hcount, hstop]
    simp only [hcursor, hcomma, if_true, hnext, Option.some.injEq, Prod.mk.injEq]
    rw [← hX]
    simp only [hitAt, List.length_append, List.length_cons]
    constructor
    · omega
    · omega
  | last l p =>
    -- the entry ends where `X` does, and the comma before it where `Z` does
    generalize hZ : A ++ (kind.opener :: (blank ++ (JsonText.leading l ++ p.text))) = Z
    have hsplit : text = Z ++ 0x2C :: (e.before ++ (JsonText.headText e.key ++ (e.node.text
        ++ (e.after ++ kind.closer :: B)))) := by
      rw [htext, ← hZ]
      simp only [List.append_assoc, List.cons_append, List.nil_append]
    have hleading : (JsonText.leading (l ++ [p])).length
        = (JsonText.leading l).length + p.text.length + 1 := by
      rw [JsonText.leading_append, JsonText.leading_cons]
      simp only [JsonText.leading, List.flatMap_nil, List.length_append, List.length_cons,
        List.length_nil]
      omega
    have hZlength : Z.length = A.length + 1 + blank.length + (JsonText.leading l).length
        + p.text.length := by
      rw [← hZ]
      simp only [List.length_append, List.length_cons]
      omega
    have hstart : (hitAt A.length blank (l ++ [p]) e []).start = Z.length + 1 + e.before.length := by
      simp only [hitAt, hleading]
      omega
    have hstop : (hitAt A.length blank (l ++ [p]) e []).stop
        = (Z ++ 0x2C :: (e.before ++ (JsonText.headText e.key ++ e.node.text))).length := by
      simp only [hitAt, hleading, List.length_append, List.length_cons]
      omega
    have hclose : (hitAt A.length blank (l ++ [p]) e []).close
        = (hitAt A.length blank (l ++ [p]) e []).stop + e.after.length := by
      simp only [hitAt, hleading, JsonText.trailing, List.flatMap_nil, List.length_nil, Entry.text,
        List.length_append]
      omega
    have hspace : isSpace kind.closer = false := by cases kind <;> rfl
    have hsplit' : text = (Z ++ 0x2C :: (e.before ++ (JsonText.headText e.key ++ e.node.text)))
        ++ (e.after ++ kind.closer :: B) := by
      rw [hsplit]
      simp only [List.append_assoc, List.cons_append]
    have hcursor : forward text (hitAt A.length blank (l ++ [p]) e []).close
        (hitAt A.length blank (l ++ [p]) e []).stop
        = (hitAt A.length blank (l ++ [p]) e []).stop + e.after.length := by
      rw [hclose, hstop]
      nth_rewrite 1 [hsplit']
      exact forward_blank he.after hspace _ B (Nat.le_refl _)
    have hcloser : text[(hitAt A.length blank (l ++ [p]) e []).stop + e.after.length]?
        = some kind.closer := by
      rw [hsplit', ← List.append_assoc, hstop, ← List.length_append]
      exact getElem?_middle _ _ _
    have hne : ¬some kind.closer = some (0x2C : UInt8) := by cases kind <;> decide
    have hback : backward text ((hitAt A.length blank (l ++ [p]) e []).opening + 1)
        (Z.length + 1 + e.before.length) = Z.length + 1 := by
      rw [hsplit]
      refine backward_blank he.before (by decide) Z _ ?_
      simp only [hitAt]
      omega
    have hcomma : text[Z.length]? = some 0x2C := by
      rw [hsplit]
      exact getElem?_middle _ _ _
    have hcount : (hitAt A.length blank (l ++ [p]) e []).count ≠ 1 := by
      simp only [hitAt, List.length_append, List.length_singleton]
      omega
    rw [spanAround, if_neg hcount]
    simp only [hcursor, hcloser, if_neg hne, hstart, hback, Nat.add_sub_cancel, hcomma, if_true]
    rw [if_neg (Nat.succ_ne_zero _), hstop]
    simp only [List.length_append, List.length_cons, Option.some.injEq, Prod.mk.injEq, hZlength]
    constructor
    · omega
    · omega

/-- Both ends of the deleted range are between two characters. -/
theorem cut_starts {kind : Kind} {blank : Str} {l r : List (Entry Node)} {e : Entry Node}
    {left removed right : Str} {g : Node}
    (hcut : JsonText.Cut kind blank l e r left removed right g) (hblank : JsonText.Blank blank)
    (hvalid : ∀ f ∈ l ++ e :: r, f.Valid serde.meaning kind)
    (hnodes : ∀ f ∈ l ++ e :: r, f.node.Valid serde.meaning) (t u : Str) :
    Starts (removed ++ t) ∧ Starts (right ++ kind.closer :: u) := by
  have he := hvalid e (by simp)
  have hentry : ∀ {f : Entry Node} (v : Str), f ∈ l ++ e :: r →
      Starts (JsonText.headText f.key ++ (f.node.text ++ v)) := by
    intro f v hf
    rw [← List.append_assoc]
    exact starts_first ((hvalid f hf).first (hnodes f hf)) v
  have hcloser : Starts (kind.closer :: u) := starts_ascii (by cases kind <;> decide) u
  cases hcut with
  | sole =>
    refine ⟨?_, hcloser⟩
    rw [Entry.text]
    simp only [List.append_assoc]
    exact starts_blank hblank (starts_blank he.before (hentry _ (by simp)))
  | next _ _ f r =>
    simp only [List.append_assoc]
    exact ⟨hentry _ (by simp), hentry _ (by simp)⟩
  | last l p => exact ⟨starts_ascii (by decide) _, starts_blank he.after hcloser⟩

end

/-! ## The text without the node -/

section

variable {serde : Serde}

theorem object_inv {n : Node} {ms : Members} (h : n.value serde.meaning = .object ms) :
    ∃ blank es, n = .group .object blank es ∧ JsonText.pairs serde.meaning es = ms := by
  cases n with
  | null => cases h
  | bool b => cases h
  | string literal => cases h
  | number token =>
    rw [Node.value] at h
    cases hnumber : serde.number token with
    | none => simp [Serde.meaning, hnumber] at h
    | some x => simp [Serde.meaning, hnumber] at h
  | group kind blank es =>
    cases kind with
    | array =>
      rw [JsonText.value_array] at h
      cases h
    | object =>
      rw [JsonText.value_object] at h
      exact ⟨blank, es, rfl, Value.object.inj h⟩

theorem array_inv {n : Node} {vs : List Value} (h : n.value serde.meaning = .array vs) :
    ∃ blank es, n = .group .array blank es
      ∧ (JsonText.pairs serde.meaning es).map Prod.snd = vs := by
  cases n with
  | null => cases h
  | bool b => cases h
  | string literal => cases h
  | number token =>
    rw [Node.value] at h
    cases hnumber : serde.number token with
    | none => simp [Serde.meaning, hnumber] at h
    | some x => simp [Serde.meaning, hnumber] at h
  | group kind blank es =>
    cases kind with
    | array =>
      rw [JsonText.value_array] at h
      refine ⟨blank, es, rfl, ?_⟩
      rw [JsonText.pairs, List.map_map]
      exact Value.array.inj h
    | object =>
      rw [JsonText.value_object] at h
      cases h

theorem value_group_object (blank : Str) (es : List (Entry Node)) :
    (Node.group .object blank es).value serde.meaning
      = .object (JsonText.pairs serde.meaning es) :=
  JsonText.value_object blank es

theorem value_group_array (blank : Str) (es : List (Entry Node)) :
    (Node.group .array blank es).value serde.meaning
      = .array ((JsonText.pairs serde.meaning es).map Prod.snd) := by
  rw [JsonText.value_array, JsonText.pairs, List.map_map]
  rfl

theorem distinct_of_valid {n : Node} (h : n.Valid serde.meaning) :
    (n.value serde.meaning).Distinct := by
  induction h with
  | null => exact .null
  | bool b => exact .bool b
  | @number token _ hknown =>
    obtain ⟨v, hv⟩ := Option.isSome_iff_exists.mp hknown
    obtain ⟨x, -, rfl⟩ := Option.map_eq_some_iff.mp hv
    rw [Node.value, hv]
    exact .number x
  | string _ _ => exact .string _
  | @group kind blank es _ _ hkeys _ ih =>
    cases kind with
    | array =>
      rw [value_group_array]
      refine .array fun v hv => ?_
      simp only [JsonText.pairs, List.map_map, List.mem_map, Function.comp_apply] at hv
      obtain ⟨e, he, rfl⟩ := hv
      exact ih e he
    | object =>
      rw [value_group_object]
      refine .object ?_ fun v hv => ?_
      · rw [JsonText.pairs, List.map_map]
        exact hkeys rfl
      · simp only [JsonText.pairs, List.mem_map] at hv
        obtain ⟨e, he, rfl⟩ := hv
        exact ih e he

/-- Where the removed node is in the tree, and the tree without it. -/
structure Without (serde : Serde) (path : List Segment) (n : Node) (v : Value) where
  front : List Segment
  segment : Segment
  kind : Kind
  blank : Str
  l : List (Entry Node)
  e : Entry Node
  r : List (Entry Node)
  pre : Str
  post : Str
  left : Str
  removed : Str
  right : Str
  group : Node
  rest : Node
  path_eq : path = front ++ [segment]
  at_group : n.At serde.meaning front pre (.group kind blank (l ++ e :: r)) post
  leads : JsonText.Leads serde.meaning kind l e segment
  cut : JsonText.Cut kind blank l e r left removed right group
  group_valid : (Node.group kind blank (l ++ e :: r)).Valid serde.meaning
  rest_valid : rest.Valid serde.meaning
  rest_depth : rest.depth ≤ n.depth
  rest_value : rest.value serde.meaning = v
  rest_text : rest.text = pre ++ (group.text ++ post)

/-- One entry left out of a group. -/
theorem without_here {kind : Kind} {blank : Str} {l r : List (Entry Node)} {e : Entry Node}
    {segment : Segment} {v : Value}
    (hgroup : (Node.group kind blank (l ++ e :: r)).Valid serde.meaning)
    (hleads : JsonText.Leads serde.meaning kind l e segment)
    (hvalue : ∀ blank' es, JsonText.pairs serde.meaning es = JsonText.pairs serde.meaning (l ++ r) →
      (Node.group kind blank' es).value serde.meaning = v) :
    Nonempty (Without serde [segment] (.group kind blank (l ++ e :: r)) v) := by
  obtain ⟨left, removed, right, g, hcut⟩ := JsonText.Cut.exists kind blank l e r
  obtain ⟨hvalid, hdepth⟩ := hcut.valid hgroup
  obtain ⟨blank', es, rfl, hpairs⟩ := hcut.others (m := serde.meaning)
  exact ⟨{ front := [], segment, kind, blank, l, e, r, pre := [], post := [], left, removed, right,
           group := .group kind blank' es, rest := .group kind blank' es
           path_eq := rfl, at_group := .here _, leads := hleads, cut := hcut, group_valid := hgroup
           rest_valid := hvalid, rest_depth := hdepth, rest_value := hvalue blank' es hpairs
           rest_text := by rw [List.nil_append, List.append_nil] }⟩

/-- An entry whose value has a node less. -/
theorem without_inside {kind : Kind} {blank : Str} {l r : List (Entry Node)} {e : Entry Node}
    {segment : Segment} {path : List Segment} {v w : Value}
    (hgroup : (Node.group kind blank (l ++ e :: r)).Valid serde.meaning)
    (hleads : JsonText.Leads serde.meaning kind l e segment)
    (h : Without serde path e.node w)
    (hvalue : ∀ n, n.value serde.meaning = w →
      (Node.group kind blank (l ++ { e with node := n } :: r)).value serde.meaning = v) :
    Nonempty (Without serde (segment :: path) (.group kind blank (l ++ e :: r)) v) := by
  obtain ⟨hvalid, hdepth⟩ := JsonText.replace_valid hgroup h.rest_valid h.rest_depth
  exact ⟨{ h with
           front := segment :: h.front
           pre := JsonText.preText kind blank l e ++ h.pre
           post := h.post ++ JsonText.postText kind e r
           rest := .group kind blank (l ++ { e with node := h.rest } :: r)
           path_eq := congrArg (segment :: ·) h.path_eq
           at_group := .step hleads h.at_group
           rest_valid := hvalid
           rest_depth := hdepth
           rest_value := hvalue h.rest h.rest_value
           rest_text := by
             rw [JsonText.replace_text, h.rest_text]
             simp only [List.append_assoc] }⟩

/-- Whatever node a value loses, its text can lose. -/
theorem without_of_removes {path : List Segment} {b v : Value} (h : Removes path b v) {n : Node}
    (hn : n.Valid serde.meaning) (hb : n.value serde.meaning = b) :
    Nonempty (Without serde path n v) := by
  induction h generalizing n with
  | member l m r =>
    obtain ⟨blank, es, rfl, hpairs⟩ := object_inv hb
    obtain ⟨el, er', rfl, rfl, her⟩ := List.map_eq_append_iff.mp hpairs
    obtain ⟨e, er, rfl, rfl, rfl⟩ := List.map_eq_cons_iff.mp her
    refine without_here hn ⟨rfl, rfl⟩ fun blank' es hes => ?_
    rw [value_group_object, hes, JsonText.pairs, List.map_append]
  | element l v r =>
    obtain ⟨blank, es, rfl, hpairs⟩ := array_inv hb
    rw [JsonText.pairs, List.map_map] at hpairs
    obtain ⟨el, er', rfl, rfl, her⟩ := List.map_eq_append_iff.mp hpairs
    obtain ⟨e, er, rfl, rfl, rfl⟩ := List.map_eq_cons_iff.mp her
    refine without_here hn ⟨rfl, (List.length_map _).symm⟩ fun blank' es hes => ?_
    rw [value_group_array, hes, JsonText.pairs, List.map_map, List.map_append]
  | @inMember path v w l k r _ ih =>
    obtain ⟨blank, es, rfl, hpairs⟩ := object_inv hb
    obtain ⟨el, er', rfl, rfl, her⟩ := List.map_eq_append_iff.mp hpairs
    obtain ⟨e, er, rfl, hpair, rfl⟩ := List.map_eq_cons_iff.mp her
    obtain ⟨hname, hvalue⟩ := Prod.mk.inj hpair
    have hnode : e.node.Valid serde.meaning := by
      cases hn with
      | group _ _ _ hnodes => exact hnodes e (by simp)
    obtain ⟨inner⟩ := ih hnode hvalue
    refine without_inside hn ⟨rfl, hname⟩ inner fun n hn => ?_
    rw [value_group_object, JsonText.pairs, List.map_append, List.map_cons, ← hname, ← hn]
    rfl
  | @inElement path v w l r _ ih =>
    obtain ⟨blank, es, rfl, hpairs⟩ := array_inv hb
    rw [JsonText.pairs, List.map_map] at hpairs
    obtain ⟨el, er', rfl, rfl, her⟩ := List.map_eq_append_iff.mp hpairs
    obtain ⟨e, er, rfl, hvalue, rfl⟩ := List.map_eq_cons_iff.mp her
    have hnode : e.node.Valid serde.meaning := by
      cases hn with
      | group _ _ _ hnodes => exact hnodes e (by simp)
    obtain ⟨inner⟩ := ih hnode hvalue
    refine without_inside hn ⟨rfl, (List.length_map _).symm⟩ inner fun n hn => ?_
    rw [value_group_array, JsonText.pairs, List.map_map, List.map_append, List.map_cons, ← hn]
    rfl

/-- `out` is the text of `d` without one entry of one group: the deleted range is between the
brackets of that group and is the entry, at most one comma beside it, and white space. -/
def LeavesOut (d : Document serde.meaning) (out : Str) (v : Value) : Prop :=
  ∃ (front : List Segment) (segment : Segment) (kind : Kind) (blank : Str)
    (l : List (Entry Node)) (e : Entry Node) (r : List (Entry Node))
    (pre post left removed right : Str),
    Removes (front ++ [segment]) d.value v
      ∧ d.root.At serde.meaning front pre (.group kind blank (l ++ e :: r)) post
      ∧ JsonText.Leads serde.meaning kind l e segment
      ∧ (Node.group kind blank (l ++ e :: r)).text
          = kind.opener :: (left ++ (removed ++ (right ++ [kind.closer])))
      ∧ JsonText.Adjoins e removed
      ∧ d.text = d.lead ++ (pre ++ kind.opener :: left) ++ removed
          ++ (right ++ kind.closer :: (post ++ d.trail))
      ∧ out = d.lead ++ (pre ++ kind.opener :: left) ++ (right ++ kind.closer :: (post ++ d.trail))

/-- Cutting the span out of a text leaves the text of the tree without the entry. -/
theorem excise_cuts {limit : Nat} (hreads : serde.Reads limit) {d : Document serde.meaning}
    (hdepth : d.depth ≤ limit) {path : List Segment} {v after : Value}
    (w : Without serde path d.root v)
    (hne : ¬Same d.value after) (hpath : removalPath d.value after = some path)
    (hafter : Same v after) :
    excise serde d.text d.value after
        = some (d.lead ++ (w.pre ++ w.kind.opener :: w.left)
          ++ (w.right ++ w.kind.closer :: (w.post ++ d.trail)))
      ∧ serde.fromStr (d.lead ++ (w.pre ++ w.kind.opener :: w.left)
          ++ (w.right ++ w.kind.closer :: (w.post ++ d.trail))) = some v := by
  obtain ⟨hblank, hvalid, hnodes⟩ : JsonText.Blank w.blank
      ∧ (∀ f ∈ w.l ++ w.e :: w.r, f.Valid serde.meaning w.kind)
      ∧ ∀ f ∈ w.l ++ w.e :: w.r, f.node.Valid serde.meaning := by
    cases w.group_valid with
    | group hblank hvalid _ hnodes => exact ⟨hblank, hvalid, hnodes⟩
  have htext : d.text = (d.lead ++ w.pre) ++ ((Node.group w.kind w.blank (w.l ++ w.e :: w.r)).text
      ++ (w.post ++ d.trail)) := by
    rw [Document.text, w.at_group.text]
    simp only [List.append_assoc]
  have hsplit : d.text = d.lead ++ (w.pre ++ w.kind.opener :: w.left) ++ (w.removed
      ++ (w.right ++ w.kind.closer :: (w.post ++ d.trail))) := by
    rw [htext, w.cut.text]
    simp only [List.append_assoc, List.cons_append, List.nil_append]
  have hlocate : locate serde d.text path ⟨0, d.text⟩
      = some (hitAt (d.lead ++ w.pre).length w.blank w.l w.e w.r) := by
    have h := @locate_at serde d.text _ _ _ _ _ w.at_group _ _ _ _ _ _ rfl d.valid w.leads _
      d.blank_lead [] d.trail rfl
    rw [List.length_nil, Nat.zero_add, ← List.length_append] at h
    exact (congrArg (locate serde d.text · ⟨0, d.text⟩) w.path_eq).trans h
  have hspan : spanOf serde d.text path = some ((d.lead ++ (w.pre ++ w.kind.opener :: w.left)).length,
      (d.lead ++ (w.pre ++ w.kind.opener :: w.left)).length + w.removed.length) := by
    rw [spanOf, hlocate, Option.bind_some,
      spanAround_cut w.cut hvalid hnodes (d.lead ++ w.pre) (w.post ++ d.trail) htext]
    simp only [List.length_append, List.length_cons, Option.some.injEq, Prod.mk.injEq]
    constructor
    · omega
    · omega
  obtain ⟨hremoved, hright⟩ := cut_starts w.cut hblank hvalid hnodes
    (w.right ++ w.kind.closer :: (w.post ++ d.trail)) (w.post ++ d.trail)
  have hstarts : Starts d.text := starts_blank d.blank_lead (starts_first d.valid.first _)
  have hleft : slice d.text 0 (d.lead ++ (w.pre ++ w.kind.opener :: w.left)).length
      = some (d.lead ++ (w.pre ++ w.kind.opener :: w.left)) := by
    rw [hsplit] at hstarts ⊢
    have h := slice_middle (A := []) hstarts hremoved
    rwa [List.length_nil, Nat.zero_add, List.nil_append] at h
  have hrest : slice d.text ((d.lead ++ (w.pre ++ w.kind.opener :: w.left)).length
        + w.removed.length) d.text.length
      = some (w.right ++ w.kind.closer :: (w.post ++ d.trail)) := by
    have hend : Starts ([] : Str) := by
      intro b rest h
      cases h
    have h := slice_middle (A := d.lead ++ (w.pre ++ w.kind.opener :: w.left) ++ w.removed)
      (by rwa [List.append_nil]) hend (B := w.right ++ w.kind.closer :: (w.post ++ d.trail))
    rw [List.append_nil, List.append_assoc _ w.removed, ← hsplit, List.length_append] at h
    have hlength : d.text.length = (d.lead ++ (w.pre ++ w.kind.opener :: w.left)).length
        + w.removed.length + (w.right ++ w.kind.closer :: (w.post ++ d.trail)).length := by
      rw [hsplit]
      simp only [List.length_append]
      omega
    rwa [hlength]
  -- the text that is left is the text of the tree that is left
  let d' : Document serde.meaning :=
    { lead := d.lead, root := w.rest, trail := d.trail, blank_lead := d.blank_lead,
      blank_trail := d.blank_trail, valid := w.rest_valid }
  have hout : d.lead ++ (w.pre ++ w.kind.opener :: w.left)
      ++ (w.right ++ w.kind.closer :: (w.post ++ d.trail)) = d'.text := by
    rw [Document.text, w.rest_text, w.cut.excised]
    simp only [d', List.append_assoc, List.cons_append, List.nil_append]
  have hread : serde.fromStr (d.lead ++ (w.pre ++ w.kind.opener :: w.left)
      ++ (w.right ++ w.kind.closer :: (w.post ++ d.trail))) = some v := by
    rw [hout, hreads d' (Nat.le_trans w.rest_depth hdepth)]
    exact congrArg some w.rest_value
  refine ⟨?_, hread⟩
  rw [excise, if_neg hne, hpath]
  simp only [Option.bind_eq_bind, Option.bind_some, hspan, hleft, hrest, hread]
  exact if_pos hafter

end

/-! ## A sample document -/

def ascii (s : String) : Str := s.toList.map fun c => c.toNat.toUInt8

/-- An integer, as the crate reads one that is not too long. -/
def sampleNumber (token : Str) : Option Number :=
  if token.all JsonText.isDigit then
    some (.posInt (token.foldl (fun n b => n * 10 + (b.toNat - 48)) 0))
  else none

/-- A string of letters, as the crate reads it. -/
def sampleString (literal : Str) : Option Text :=
  if literal.length < 2 then none
  else
    let letters := literal.tail.dropLast
    if letters.all fun b => 0x61 ≤ b && b ≤ 0x7A then
      some (letters.map fun b => Char.ofNat b.toNat)
    else none

def sampleSerde : Serde where
  number := sampleNumber
  string := sampleString
  fromStr := JsonText.read (Serde.meaning ⟨sampleNumber, sampleString, fun _ => none⟩)

theorem sampleSerde_reads : sampleSerde.Reads 127 := fun d _ => JsonText.read_text d

def sampleItems : List (Entry Node) :=
  [⟨[], none, .number (ascii "1"), []⟩, ⟨ascii " ", none, .number (ascii "2"), []⟩]

def sampleMembers : List (Entry Node) :=
  [⟨[], some ⟨ascii "\"a\"", [], ascii " "⟩, .number (ascii "1"), []⟩,
    ⟨ascii " ", some ⟨ascii "\"b\"", [], ascii " "⟩, .group .array [] sampleItems, ascii " "⟩]

theorem sampleToken_valid {token : Str} (htoken : JsonText.IsToken token)
    (hdigits : token.all JsonText.isDigit = true) :
    (Node.number token).Valid sampleSerde.meaning := by
  refine .number htoken ?_
  show ((sampleNumber token).map Value.number).isSome = true
  rw [sampleNumber, if_pos hdigits]
  rfl

theorem sampleOne : (Node.number (ascii "1")).Valid sampleSerde.meaning :=
  sampleToken_valid ⟨0x31, [], rfl, rfl, by simp⟩ (by decide)

theorem sampleTwo : (Node.number (ascii "2")).Valid sampleSerde.meaning :=
  sampleToken_valid ⟨0x32, [], rfl, rfl, by simp⟩ (by decide)

theorem blank_space : JsonText.Blank (ascii " ") := by
  unfold JsonText.Blank
  decide

theorem sampleKey {literal : Str} {b : UInt8} (hliteral : literal = [0x22, b, 0x22])
    (hb : b ≠ 0x22 ∧ b ≠ 0x5C) (hknown : (sampleString literal).isSome = true) :
    Key.Valid sampleSerde.meaning ⟨literal, [], ascii " "⟩ where
  literal := ⟨[b, 0x22], hliteral, .plain hb.1 hb.2 .close⟩
  known := hknown
  gap := JsonText.blank_nil
  lead := blank_space

theorem sampleRoot_valid :
    (Node.group .object (ascii " ") sampleMembers).Valid sampleSerde.meaning := by
  have hitems : (Node.group .array [] sampleItems).Valid sampleSerde.meaning := by
    refine .group JsonText.blank_nil ?_ (by decide) ?_
    · simp only [sampleItems, List.forall_mem_cons, List.not_mem_nil, false_implies, implies_true,
        and_true]
      exact ⟨⟨JsonText.blank_nil, JsonText.blank_nil, fun _ => rfl, nofun⟩,
        ⟨blank_space, JsonText.blank_nil, fun _ => rfl, nofun⟩⟩
    · simp only [sampleItems, List.forall_mem_cons, List.not_mem_nil, false_implies, implies_true,
        and_true]
      exact ⟨sampleOne, sampleTwo⟩
  refine .group blank_space ?_ (fun _ => by decide +kernel) ?_
  · simp only [sampleMembers, List.forall_mem_cons, List.not_mem_nil, false_implies, implies_true,
      and_true]
    exact ⟨⟨JsonText.blank_nil, JsonText.blank_nil, nofun,
        fun _ => ⟨_, rfl, sampleKey rfl (by decide) (by decide +kernel)⟩⟩,
      ⟨blank_space, blank_space, nofun,
        fun _ => ⟨_, rfl, sampleKey rfl (by decide) (by decide +kernel)⟩⟩⟩
  · simp only [sampleMembers, List.forall_mem_cons, List.not_mem_nil, false_implies, implies_true,
      and_true]
    exact ⟨sampleOne, hitems⟩

def sampleDocument : Document sampleSerde.meaning where
  lead := []
  root := .group .object (ascii " ") sampleMembers
  trail := ascii "\n"
  blank_lead := JsonText.blank_nil
  blank_trail := by
    unfold JsonText.Blank
    decide
  valid := sampleRoot_valid

def sampleAfter : Value :=
  .object [(['a'], .number (.posInt 1)), (['b'], .array [.number (.posInt 2)])]

theorem sampleAfter_distinct : sampleAfter.Distinct := by
  refine .object (by decide) ?_
  simp only [List.forall_mem_cons, List.not_mem_nil, false_implies, implies_true, and_true]
  refine ⟨.number _, .array ?_⟩
  simp only [List.forall_mem_cons, List.not_mem_nil, false_implies, implies_true, and_true]
  exact .number _

theorem sampleRemoves :
    Removes [.key ['b'], .index 0] sampleDocument.value sampleAfter :=
  .inMember [(['a'], .number (.posInt 1))] ['b'] []
    (.element [] (.number (.posInt 1)) [.number (.posInt 2)])

/-! ## Top theorem -/

section

variable {serde : Serde}

/-- A node that the caller removed is cut out of the text, alone. -/
theorem excise_exact {limit : Nat} (hreads : serde.Reads limit) (d : Document serde.meaning)
    (hdepth : d.depth ≤ limit) {before gone after : Value} {path : List Segment}
    (hbefore : serde.fromStr d.text = some before) (hremoves : Removes path before gone)
    (hmap : after.Distinct) (hafter : Value.same gone after = true) :
    ∃ out v, excise serde d.text before after = some out ∧ LeavesOut d out v
      ∧ serde.fromStr out = some v ∧ Value.same v after = true := by
  obtain rfl : d.value = before := Option.some.inj ((hreads d hdepth).symm.trans hbefore)
  have hdistinct := distinct_of_valid d.valid
  obtain ⟨path', v, hpath, hv, hsame⟩ := removalPath_finds hremoves hdistinct hmap hafter
  obtain ⟨w⟩ := without_of_removes hv d.valid rfl
  obtain ⟨hexcise, hread⟩ :=
    excise_cuts hreads hdepth w (removes_ne hremoves hdistinct hafter).1 hpath hsame
  have hadjoins : JsonText.Adjoins w.e w.removed := by
    cases w.group_valid with
    | group hblank hvalid _ _ => exact w.cut.adjoins hblank hvalid
  refine ⟨_, v, hexcise, ⟨w.front, w.segment, w.kind, w.blank, w.l, w.e, w.r, w.pre, w.post,
    w.left, w.removed, w.right, w.path_eq ▸ hv, w.at_group, w.leads, w.cut.text, hadjoins, ?_, rfl⟩,
    hread, hsame⟩
  rw [Document.text, w.at_group.text, w.cut.text]
  simp only [List.append_assoc, List.cons_append, List.nil_append]

end

/-- Of `{ "a": 1, "b": [1, 2] }` the first item of the array. -/
theorem excise_exact_sample :
    ∃ out v, excise sampleSerde sampleDocument.text sampleDocument.value sampleAfter = some out
      ∧ LeavesOut sampleDocument out v ∧ sampleSerde.fromStr out = some v
      ∧ Value.same v sampleAfter = true :=
  excise_exact sampleSerde_reads sampleDocument (by decide)
    (sampleSerde_reads sampleDocument (by decide)) sampleRemoves sampleAfter_distinct
    (by decide +kernel)

end Kaleidoscope.JsonSpan
