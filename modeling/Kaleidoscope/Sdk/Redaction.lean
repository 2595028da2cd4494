import Mathlib.Data.List.TakeWhile
import Kaleidoscope.Sdk.Diagnostic

/-!
# What a diagnostic shows of a key

A key between any bytes, cut anywhere.  The mask of the key shape begins at `ksk_alpha.`, so a
body shows where the cut takes that prefix away, and where an earlier match runs into it.

    boundedDiagnostic_hides_iff    for which surroundings no body of a length shows
-/

namespace Kaleidoscope.Sdk

open Scan

/-! ## Statement -/

def isKeyByte (b : UInt8) : Bool := isKeyChar (Char.ofNat b.toNat)

/-- The diagnostic of a key between two byte strings. -/
def diagnosticOf (d : Dialect) (p body s : List UInt8) : Text :=
  boundedDiagnostic d (p ++ asciiOctets keyPrefix ++ body ++ s)

/-- Two key bodies of the length give the same diagnostic. -/
def Hides (d : Dialect) (p s : List UInt8) (n : Nat) : Prop :=
  ∀ body body' : List UInt8, body.length = n → body'.length = n →
    (∀ b ∈ body, isKeyByte b = true) → (∀ b ∈ body', isKeyByte b = true) →
    diagnosticOf d p body s = diagnosticOf d p body' s

/-- The text before a key of the length, as far as it is kept. -/
def textBefore (p s : List UInt8) (n : Nat) : Text :=
  (Utf8.decodeLossy (p.drop (p.length + 10 + n + s.length - maxDiagnosticBytes))).dropWhile isEdge

/-- No byte of the body is kept, or the whole key is kept and its prefix is not taken by an
earlier match of the key shape, or is taken inside the value of a named credential. -/
def Covered (d : Dialect) (p s : List UInt8) (n : Nat) : Prop :=
  n = 0 ∨ maxDiagnosticBytes ≤ s.length
    ∨ s.length + n + 10 ≤ maxDiagnosticBytes
      ∧ (endsInMatch keyShape 0 (textBefore p s n) = false
        ∨ endsInMatch (namedCredential d) 0 (replaceAll keyShape (textBefore p s n)) = true)

/-! ## Characters -/

/-- What the proofs use of a dialect. -/
structure Plain (d : Dialect) : Prop where
  key : ∀ c, isKeyChar c = true → d.isSpace c = false
  dot : d.isSpace '.' = false
  left : d.isSpace '<' = false
  right : d.isSpace '>' = false
  foldRight : d.fold '>' = '>'
  zero : d.fold '0' = '0'
  one : d.fold '1' = '1'
  /-- no credential word is in the prefix of a key -/
  words : ∀ v, v <:+ keyPrefix → ∀ word ∈ credentialWords, (v.take word.length).map d.fold ≠ word

theorem isKeyChar_bounds {c : Char} (h : isKeyChar c = true) : 45 ≤ c.toNat ∧ c.toNat ≤ 122 := by
  simp only [isKeyChar, Text.isAsciiAlphanumeric, Bool.or_eq_true, Bool.and_eq_true,
    decide_eq_true_eq, beq_iff_eq] at h
  have hle : ∀ {a b : Char}, a ≤ b → a.toNat ≤ b.toNat := fun h => UInt32.le_iff_toNat_le.mp h
  rcases h with (((⟨h, h'⟩ | ⟨h, h'⟩) | ⟨h, h'⟩) | rfl) | rfl
  · exact ⟨le_trans (by decide) (hle h), le_trans (hle h') (by decide)⟩
  · exact ⟨le_trans (by decide) (hle h), le_trans (hle h') (by decide)⟩
  · exact ⟨le_trans (by decide) (hle h), le_trans (hle h') (by decide)⟩
  · decide
  · decide

theorem not_mem_of_bounds {n : Nat} {points : List Nat} (hn : 45 ≤ n ∧ n ≤ 122)
    (h : ∀ k ∈ points, k < 45 ∨ 122 < k) : points.contains n = false := by
  rw [List.contains_eq_mem, decide_eq_false_iff_not]
  intro hmem
  have hpoint := h n hmem
  omega

theorem isEdge_of_key {c : Char} (h : isKeyChar c = true) : isEdge c = false :=
  not_mem_of_bounds (isKeyChar_bounds h) (by decide)

theorem isCommonSpace_of_key {c : Char} (h : isKeyChar c = true) : isCommonSpace c = false :=
  not_mem_of_bounds (isKeyChar_bounds h) (by decide)

theorem words_of_suffixes {fold : Char → Char}
    (h : (keyPrefix.tails.all fun v => credentialWords.all fun word =>
      decide ((v.take word.length).map fold ≠ word)) = true) :
    ∀ v, v <:+ keyPrefix → ∀ word ∈ credentialWords, (v.take word.length).map fold ≠ word := by
  intro v hv word hword
  have hall := List.all_eq_true.mp h v ((List.mem_tails _ _).mpr hv)
  exact of_decide_eq_true (List.all_eq_true.mp hall word hword)

theorem python_plain : Plain python where
  key c h := by
    have hcommon := isCommonSpace_of_key h
    have hmore : [0x1C, 0x1D, 0x1E, 0x1F, 0x85].contains c.toNat = false :=
      not_mem_of_bounds (isKeyChar_bounds h) (by decide)
    show (isCommonSpace c || _) = false
    rw [hcommon, hmore]
    rfl
  dot := by decide
  left := by decide
  right := by decide
  foldRight := by decide
  zero := by decide
  one := by decide
  words := words_of_suffixes (by decide +kernel)

theorem typescript_plain : Plain typescript where
  key c h := by
    have hcommon := isCommonSpace_of_key h
    have hmark : (c == '\uFEFF') = false := by
      rw [beq_eq_false_iff_ne]
      rintro rfl
      revert h
      decide
    show (isCommonSpace c || c == '\uFEFF') = false
    rw [hcommon, hmark]
    rfl
  dot := by decide
  left := by decide
  right := by decide
  foldRight := by decide
  zero := by decide
  one := by decide
  words := words_of_suffixes (by decide +kernel)

/-! ## What is kept -/

/-- What is left at the right of a text once the edge characters are stripped. -/
def stripRight (t : Text) : Text := (t.reverse.dropWhile isEdge).reverse

theorem dropWhile_append_cons {p : Char → Bool} {c : Char} (hc : p c = false) (x t : Text) :
    (x ++ c :: t).dropWhile p = x.dropWhile p ++ c :: t := by
  induction x with
  | nil => simp [hc]
  | cons a x ih =>
    by_cases ha : p a = true
    · rw [List.cons_append, List.dropWhile_cons_of_pos ha, List.dropWhile_cons_of_pos ha, ih]
    · rw [List.cons_append, List.dropWhile_cons_of_neg ha, List.dropWhile_cons_of_neg ha,
        List.cons_append]

/-- Stripping leaves alone what holds no edge character. -/
theorem stripEdges_between {middle : Text} (hne : middle ≠ [])
    (h : ∀ c ∈ middle, isEdge c = false) (x y : Text) :
    stripEdges (x ++ (middle ++ y)) = x.dropWhile isEdge ++ (middle ++ stripRight y) := by
  unfold stripEdges
  have hleft : (x ++ (middle ++ y)).dropWhile isEdge = x.dropWhile isEdge ++ (middle ++ y) := by
    obtain ⟨a, k, rfl⟩ := List.exists_cons_of_ne_nil hne
    rw [List.cons_append, dropWhile_append_cons (h a (by simp))]
  obtain ⟨k, b, rfl⟩ : ∃ k b, middle = k ++ [b] :=
    (List.eq_nil_or_concat' middle).resolve_left hne
  have hrev : (x.dropWhile isEdge ++ (k ++ [b] ++ y)).reverse
      = y.reverse ++ b :: (k.reverse ++ (x.dropWhile isEdge).reverse) := by
    simp
  rw [hleft, hrev, dropWhile_append_cons (h b (by simp))]
  simp [stripRight]

theorem asciiOctets_lt {t : Text} (h : Text.isAscii t = true) :
    ∀ b ∈ asciiOctets t, b.toNat < 0x80 := by
  intro b hb
  obtain ⟨c, hc, rfl⟩ := List.mem_map.mp hb
  have hlt : c.toNat < 128 := of_decide_eq_true (List.all_eq_true.mp h c hc)
  rw [UInt8.toNat_ofNat']
  omega

theorem toNat_ofNat_cases (n : Nat) : (Char.ofNat n).toNat = n ∨ (Char.ofNat n).toNat = 0 := by
  unfold Char.ofNat
  by_cases h : n.isValidChar
  · rw [dif_pos h]
    exact .inl rfl
  · rw [dif_neg h]
    exact .inr rfl

theorem isKeyByte_lt {b : UInt8} (h : isKeyByte b = true) : b.toNat < 0x80 := by
  have hbounds := isKeyChar_bounds h
  rcases toNat_ofNat_cases b.toNat with heq | heq
  · omega
  · omega

/-- The text of key bytes. -/
def textOf (bs : List UInt8) : Text := bs.map fun b => Char.ofNat b.toNat

theorem textOf_key {bs : List UInt8} (h : ∀ b ∈ bs, isKeyByte b = true) :
    ∀ c ∈ textOf bs, isKeyChar c = true := by
  intro c hc
  obtain ⟨b, hb, rfl⟩ := List.mem_map.mp hc
  exact h b hb

theorem textOf_asciiOctets {t : Text} (h : Text.isAscii t = true) : textOf (asciiOctets t) = t := by
  unfold textOf asciiOctets
  rw [List.map_map]
  refine List.map_congr_left (fun c hc => ?_) |>.trans (List.map_id _)
  have hlt : c.toNat < 128 := of_decide_eq_true (List.all_eq_true.mp h c hc)
  have hnat : (UInt8.ofNat c.toNat).toNat = c.toNat := by
    rw [UInt8.toNat_ofNat']
    omega
  show Char.ofNat (UInt8.ofNat c.toNat).toNat = c
  rw [hnat, Char.ofNat_toNat]

/-- A pending sequence stands for a character outside ASCII. -/
def Large : Utf8.Pending → Prop
  | .idle => True
  | .within bits needed lower _ =>
    0x80 ≤ lower ∧ 0x80 ≤ (bits * 64 + (lower - 0x80)) * 64 ^ needed

theorem not_key_of_large {n : Nat} (h : 0x80 ≤ n) : isKeyChar (Char.ofNat n) = false := by
  by_contra hkey
  have hbounds := isKeyChar_bounds (by simpa using hkey)
  rcases toNat_ofNat_cases n with heq | heq
  · omega
  · omega

theorem replacement_not_key : isKeyChar Utf8.replacement = false := by decide

/-- What is decoded from a pending sequence does not begin with a key character. -/
theorem decodeFrom_head {bs : List UInt8} :
    ∀ {p : Utf8.Pending}, p ≠ .idle → Large p → ∀ c t, Utf8.decodeFrom p bs = c :: t →
      isKeyChar c = false := by
  induction bs with
  | nil =>
    intro p hp _ c t h
    cases p with
    | idle => exact absurd rfl hp
    | within bits needed lower upper =>
      have hc : Utf8.replacement = c := (List.cons.inj h).1
      rw [← hc]
      exact replacement_not_key
  | cons b bs ih =>
    intro p hp hlarge c t h
    cases p with
    | idle => exact absurd rfl hp
    | within bits needed lower upper =>
      obtain ⟨hlower, hbits⟩ := hlarge
      have hstep : Utf8.decodeFrom (.within bits needed lower upper) (b :: bs)
          = (Utf8.step (.within bits needed lower upper) b).1
            ++ Utf8.decodeFrom (Utf8.step (.within bits needed lower upper) b).2 bs := rfl
      rw [hstep] at h
      by_cases hin : lower ≤ b.toNat ∧ b.toNat ≤ upper
      · cases needed with
        | zero =>
          simp only [Utf8.step, if_pos hin] at h
          have hc := (List.cons.inj h).1
          rw [← hc]
          refine not_key_of_large ?_
          rw [pow_zero, Nat.mul_one] at hbits
          omega
        | succ needed =>
          simp only [Utf8.step, if_pos hin, List.nil_append] at h
          have hge : bits * 64 + (lower - 0x80) ≤ bits * 64 + (b.toNat - 0x80) := by omega
          have hnext : 0x80 ≤ ((bits * 64 + (b.toNat - 0x80)) * 64 + (0x80 - 0x80)) * 64 ^ needed :=
            calc 0x80 ≤ (bits * 64 + (lower - 0x80)) * 64 ^ (needed + 1) := hbits
              _ ≤ (bits * 64 + (b.toNat - 0x80)) * 64 ^ (needed + 1) := Nat.mul_le_mul_right _ hge
              _ = ((bits * 64 + (b.toNat - 0x80)) * 64 + (0x80 - 0x80)) * 64 ^ needed := by
                rw [pow_succ, Nat.sub_self, Nat.add_zero, Nat.mul_assoc, Nat.mul_comm 64]
          exact ih (p := .within (bits * 64 + (b.toNat - 0x80)) needed 0x80 0xBF) (by simp)
            ⟨le_refl _, hnext⟩ c t h
      · simp only [Utf8.step, if_neg hin, List.cons_append] at h
        rw [← (List.cons.inj h).1]
        exact replacement_not_key

/-- What is decoded after a byte that is no key byte does not begin with a key character. -/
theorem decodeLossy_head {s : List UInt8} (h : ∀ b, s.head? = some b → isKeyByte b = false) :
    ∀ c t, Utf8.decodeLossy s = c :: t → isKeyChar c = false := by
  intro c t hdecode
  cases s with
  | nil => cases hdecode
  | cons b bs =>
    have hb := h b rfl
    have hstep : Utf8.decodeLossy (b :: bs)
        = (Utf8.lead b).1 ++ Utf8.decodeFrom (Utf8.lead b).2 bs := rfl
    rw [hstep] at hdecode
    by_cases hascii : b.toNat < 0x80
    · rw [Utf8.lead_ascii hascii] at hdecode
      rw [← (List.cons.inj hdecode).1]
      exact hb
    · unfold Utf8.lead at hdecode
      simp only [if_neg hascii] at hdecode
      have hwithin : ∀ {bits needed lower upper : Nat}, 0x80 ≤ lower →
          0x80 ≤ (bits * 64 + (lower - 0x80)) * 64 ^ needed →
          Utf8.decodeFrom (.within bits needed lower upper) bs = c :: t →
          isKeyChar c = false := fun hlower hbits hfrom =>
        decodeFrom_head (p := .within _ _ _ _) (by simp) ⟨hlower, hbits⟩ c t hfrom
      repeat' split at hdecode
      · exact hwithin (by omega) (by omega) hdecode
      · exact hwithin (by omega) (by omega) hdecode
      · exact hwithin (by omega) (by omega) hdecode
      · exact hwithin (by omega) (by omega) hdecode
      · exact hwithin (by omega) (by omega) hdecode
      · exact hwithin (by omega) (by omega) hdecode
      · exact hwithin (by omega) (by omega) hdecode
      · rw [← (List.cons.inj hdecode).1]
        exact replacement_not_key

/-! ## The mask of the key shape -/

theorem stripPrefix_none_of_ne {pre v : Text} {c : Char} {t : Text} (hlen : v.length < pre.length)
    (hc : c ∉ pre) : Text.stripPrefix pre (v ++ c :: t) = none := by
  induction pre generalizing v with
  | nil => cases hlen
  | cons a pre ih =>
    cases v with
    | nil =>
      have hne : a ≠ c := fun heq => hc (by simp [heq])
      rw [List.nil_append, Text.stripPrefix, if_neg hne]
    | cons b v =>
      rw [List.cons_append, Text.stripPrefix]
      by_cases hab : a = b
      · rw [if_pos hab]
        exact ih (by simpa using hlen) fun hmem => hc (by simp [hmem])
      · rw [if_neg hab]

/-- A text that is too short for a prefix but agrees with it is the start of the prefix. -/
theorem stripPrefix_extend {pre u z : Text} (h : Text.stripPrefix pre u = none)
    (hz : Text.stripPrefix pre (u ++ z) ≠ none) :
    ∃ rest, rest ≠ [] ∧ pre = u ++ rest ∧ Text.stripPrefix rest z ≠ none := by
  induction pre generalizing u with
  | nil =>
    cases u with
    | nil => cases h
    | cons b u => cases h
  | cons a pre ih =>
    cases u with
    | nil => exact ⟨a :: pre, by simp, rfl, hz⟩
    | cons b u =>
      rw [List.cons_append] at hz
      rw [Text.stripPrefix] at h hz
      by_cases hab : a = b
      · rw [if_pos hab] at h hz
        obtain ⟨rest, hne, heq, hrest⟩ := ih h hz
        exact ⟨rest, hne, by rw [hab, heq, List.cons_append], hrest⟩
      · rw [if_neg hab] at hz
        exact absurd rfl hz

theorem keyShape_none {t : Text} (h : Text.stripPrefix keyPrefix t = none) : keyShape t = none := by
  unfold keyShape
  rw [h]
  rfl

theorem keyShape_key (rest : Text) :
    keyShape (keyPrefix ++ rest)
      = some ("<redacted>".toList, 10 + (rest.takeWhile isKeyChar).length) := by
  unfold keyShape
  rw [Text.stripPrefix_append]
  rfl

/-- A match is the prefix and the key characters after it. -/
theorem keyShape_some {t r : Text} {n : Nat} (h : keyShape t = some (r, n)) :
    ∃ rest, t = keyPrefix ++ rest ∧ r = "<redacted>".toList
      ∧ n = 10 + (rest.takeWhile isKeyChar).length := by
  cases hstrip : Text.stripPrefix keyPrefix t with
  | none =>
    rw [keyShape_none hstrip] at h
    cases h
  | some rest =>
    have ht := Text.stripPrefix_eq_some.mp hstrip
    rw [ht, keyShape_key] at h
    cases h
    exact ⟨rest, ht, rfl, rfl⟩

theorem keyPrefix_length : keyPrefix.length = 10 := by decide

/-- No proper end of the prefix of a key is also its beginning. -/
theorem keyPrefix_no_border {u rest : Text} (hu : u ≠ []) (hrest : rest ≠ [])
    (h : keyPrefix = u ++ rest) (z : Text) : Text.stripPrefix rest (keyPrefix ++ z) = none := by
  have hborders : (keyPrefix.tails.all fun v =>
      decide (v = [] ∨ v = keyPrefix ∨ Text.stripPrefix v keyPrefix = none)) = true := by
    decide +kernel
  have htails : rest ∈ keyPrefix.tails := (List.mem_tails _ _).mpr ⟨u, h.symm⟩
  rcases of_decide_eq_true (List.all_eq_true.mp hborders rest htails) with hnil | hfull | hnone
  · exact absurd hnil hrest
  · have hlen := congrArg List.length h
    rw [hfull, List.length_append] at hlen
    have hpos := List.length_pos_iff.mpr hu
    omega
  · by_contra hsome
    obtain ⟨rest', -, heq, -⟩ := stripPrefix_extend hnone hsome
    have hlen := congrArg List.length h
    rw [heq, List.length_append, List.length_append] at hlen
    have hpos := List.length_pos_iff.mpr hu
    omega

theorem keyPrefix_takeWhile (z : Text) :
    ((keyPrefix ++ z).takeWhile isKeyChar).length = 9 := by
  show (("ksk_alpha".toList ++ ('.' :: z)).takeWhile isKeyChar).length = 9
  rw [List.takeWhile_append_of_pos (by decide)]
  rfl

/-- A match that runs into a key takes its prefix up to the dot. -/
theorem keyShape_extends (z : Text) {u : Text} (hu : u ≠ []) :
    Extends keyShape (keyPrefix ++ z) 9 u where
  none h := by
    have hstrip : Text.stripPrefix keyPrefix u = none := by
      cases hs : Text.stripPrefix keyPrefix u with
      | none => rfl
      | some rest =>
        rw [Text.stripPrefix_eq_some.mp hs, keyShape_key] at h
        cases h
    apply keyShape_none
    by_contra hsome
    obtain ⟨rest, hne, heq, hrest⟩ := stripPrefix_extend hstrip hsome
    exact hrest (keyPrefix_no_border hu hne heq z)
  inside h hlt := by
    obtain ⟨rest, rfl, rfl, rfl⟩ := keyShape_some h
    have hshort : (rest.takeWhile isKeyChar).length ≠ rest.length := by
      rw [List.length_append, keyPrefix_length] at hlt
      omega
    rw [List.append_assoc, keyShape_key, List.takeWhile_append, if_neg hshort]
  reaches h heq := by
    obtain ⟨rest, rfl, rfl, rfl⟩ := keyShape_some h
    have hfull : (rest.takeWhile isKeyChar).length = rest.length := by
      rw [List.length_append, keyPrefix_length] at heq
      omega
    rw [List.append_assoc, keyShape_key, List.takeWhile_append, if_pos hfull,
      List.length_append, keyPrefix_takeWhile, hfull, Nat.add_assoc]
  bound h := by
    obtain ⟨rest, rfl, rfl, rfl⟩ := keyShape_some h
    have hle := (List.takeWhile_prefix isKeyChar (l := rest)).length_le
    rw [List.length_append, keyPrefix_length]
    omega

/-- The mask of a key between two texts. -/
theorem maskedKey {body y : Text} (hbody : ∀ c ∈ body, isKeyChar c = true)
    (hy : ∀ c t, y = c :: t → isKeyChar c = false) (x : Text) :
    replaceAll keyShape (x ++ (keyPrefix ++ (body ++ y)))
      = replaceAll keyShape x
        ++ if endsInMatch keyShape 0 x then replaceAll keyShape ('.' :: (body ++ y))
          else "<redacted>".toList ++ replaceAll keyShape y := by
  rw [replaceAll_append fun u hu _ => keyShape_extends (body ++ y) hu]
  congr 1
  by_cases hopen : endsInMatch keyShape 0 x = true
  · rw [if_pos hopen, if_pos hopen]
    rfl
  · rw [if_neg hopen, if_neg hopen]
    have hkey : (body ++ y).takeWhile isKeyChar = body := by
      rw [List.takeWhile_append_of_pos hbody]
      cases y with
      | nil => simp
      | cons c t => simp [hy c t rfl]
    have hmatch := keyShape_key (body ++ y)
    rw [hkey] at hmatch
    have hlen : (keyPrefix ++ body).length = 10 + body.length := by
      rw [List.length_append, keyPrefix_length]
    rw [replaceAll_match hmatch (List.append_ne_nil_of_left_ne_nil (by decide) _) (by omega),
      ← List.append_assoc, ← hlen, List.drop_left]

/-! ## The mask of named credentials -/

theorem right_not_mem {word : Text} (h : word ∈ credentialWords) : '>' ∉ word := by
  have hall : (credentialWords.all fun word => decide ('>' ∉ word)) = true := by decide
  exact of_decide_eq_true (List.all_eq_true.mp hall word h)

section

variable {d : Dialect} (hd : Plain d)

include hd

/-- Before a closing bracket, a word matches whatever comes after the bracket, or never. -/
theorem stripWord_right {word : Text} (hword : '>' ∉ word) (v : Text) :
    (∀ z, stripWord d word (v ++ '>' :: z) = none)
      ∨ ∃ v', word.length + v'.length = v.length
        ∧ ∀ z, stripWord d word (v ++ '>' :: z) = some (v' ++ '>' :: z) := by
  induction word generalizing v with
  | nil => exact .inr ⟨v, Nat.zero_add _, fun _ => rfl⟩
  | cons w word ih =>
    have hne : '>' ≠ w := fun heq => hword (heq ▸ List.mem_cons_self)
    cases v with
    | nil =>
      refine .inl fun z => ?_
      rw [List.nil_append, stripWord, hd.foldRight, if_neg hne]
    | cons c v =>
      by_cases hc : d.fold c = w
      · rcases ih (fun hmem => hword (List.mem_cons_of_mem _ hmem)) v with hnone | ⟨v', hlen, hsome⟩
        · refine .inl fun z => ?_
          rw [List.cons_append, stripWord, if_pos hc, hnone z]
        · refine .inr ⟨v', ?_, fun z => ?_⟩
          · rw [List.length_cons, List.length_cons]
            omega
          · rw [List.cons_append, stripWord, if_pos hc, hsome z]
      · refine .inl fun z => ?_
        rw [List.cons_append, stripWord, if_neg hc]

/-- Before a closing bracket, a value is missing, or ends before the bracket, or goes on after it
up to a space. -/
theorem stripValue_right (v : Text) :
    (∀ z, stripValue d (v ++ '>' :: z) = none)
      ∨ (∃ v', v'.length ≤ v.length
        ∧ ∀ z, stripValue d (v ++ '>' :: z) = some (v' ++ '>' :: z))
      ∨ ∀ z, stripValue d (v ++ '>' :: z) = some (z.dropWhile fun c => !d.isSpace c) := by
  have hspace : ∀ x z : Text, (x ++ '>' :: z).dropWhile d.isSpace
      = x.dropWhile d.isSpace ++ '>' :: z := fun x z => dropWhile_append_cons hd.right x z
  have hlen : ∀ (q : Char → Bool) (x : Text), (x.dropWhile q).length ≤ x.length := fun q x =>
    (List.dropWhile_suffix q).length_le
  cases hv : v.dropWhile d.isSpace with
  | nil =>
    refine .inl fun z => ?_
    unfold stripValue
    rw [hspace, hv]
    rfl
  | cons c rest =>
    by_cases hc : c = ':' ∨ c = '='
    · have hvalue : ∀ z, stripValue d (v ++ '>' :: z)
          = some ((rest.dropWhile d.isSpace ++ '>' :: z).dropWhile fun c => !d.isSpace c) := by
        intro z
        unfold stripValue
        rw [hspace, hv]
        simp only [List.cons_append, if_pos hc]
        rw [hspace, if_neg (by simp)]
      have hle := hlen d.isSpace v
      rw [hv, List.length_cons] at hle
      cases hx : (rest.dropWhile d.isSpace).dropWhile fun c => !d.isSpace c with
      | nil =>
        refine .inr (.inr fun z => ?_)
        rw [hvalue z, List.dropWhile_append_of_pos (List.dropWhile_eq_nil_iff.mp hx),
          List.dropWhile_cons_of_pos (by rw [hd.right]; rfl)]
      | cons a x =>
        refine .inr (.inl ⟨a :: x, ?_, fun z => ?_⟩)
        · have hle' := hlen d.isSpace rest
          have hle'' := hlen (fun c => !d.isSpace c) (rest.dropWhile d.isSpace)
          rw [hx] at hle''
          omega
        · rw [hvalue z, List.dropWhile_append, hx]
          rfl
    · refine .inl fun z => ?_
      unfold stripValue
      rw [hspace, hv]
      simp only [List.cons_append, if_neg hc]

/-- A match that reaches a closing bracket goes on up to a space. -/
theorem namedCredential_extends (v z : Text) :
    Extends (namedCredential d) z (z.takeWhile fun c => !d.isSpace c).length (v ++ ['>']) := by
  apply extends_findSome
  intro word hword
  have hlen : (v ++ ['>']).length = v.length + 1 := by simp
  have happ : ∀ z, (v ++ ['>']) ++ z = v ++ '>' :: z := fun z => by simp
  have hnil : v ++ ['>'] = v ++ '>' :: [] := rfl
  rcases stripWord_right hd (right_not_mem hword) v with hnone | ⟨v', hv', hsome⟩
  · constructor
    · intro _
      rw [happ, hnone]
      rfl
    all_goals
      intro r n h
      rw [hnil, hnone] at h
      cases h
  have htake : ∀ z, (v ++ '>' :: z).take word.length = v.take word.length := fun z =>
    List.take_append_of_le_length (by omega)
  rcases stripValue_right hd v' with hnone | ⟨x, hx, hvalue⟩ | hvalue
  · constructor
    · intro _
      simp only [happ, hsome, Option.bind_eq_bind, Option.bind_some, hnone, Option.bind_none]
    all_goals
      intro r n h
      simp only [hsome, Option.bind_eq_bind, Option.bind_some, hnone] at h
      cases h
  · have hm : ∀ z, (do
        let afterName ← stripWord d word (v ++ '>' :: z)
        let rest ← stripValue d afterName
        return ((v ++ '>' :: z).take word.length ++ "=<redacted>".toList,
          (v ++ '>' :: z).length - rest.length))
        = some (v.take word.length ++ "=<redacted>".toList, v.length - x.length) := by
      intro z
      simp only [hsome, Option.bind_eq_bind, Option.bind_some, hvalue, htake, List.length_append,
        List.length_cons]
      congr 2
      omega
    constructor
    · intro h
      rw [hnil, hm] at h
      cases h
    · intro r n h _
      rw [hnil, hm] at h
      rw [happ, hm]
      exact h
    · intro r n h heq
      rw [hnil, hm] at h
      cases h
      omega
    · intro r n h
      rw [hnil, hm] at h
      cases h
      omega
  · have hm : ∀ z, (do
        let afterName ← stripWord d word (v ++ '>' :: z)
        let rest ← stripValue d afterName
        return ((v ++ '>' :: z).take word.length ++ "=<redacted>".toList,
          (v ++ '>' :: z).length - rest.length))
        = some (v.take word.length ++ "=<redacted>".toList,
          v.length + 1 + (z.takeWhile fun c => !d.isSpace c).length) := by
      intro z
      have hz := congrArg List.length
        (List.takeWhile_append_dropWhile (p := fun c => !d.isSpace c) (l := z))
      rw [List.length_append] at hz
      simp only [hsome, Option.bind_eq_bind, Option.bind_some, hvalue, htake, List.length_append,
        List.length_cons]
      congr 2
      omega
    constructor
    · intro h
      rw [hnil, hm] at h
      cases h
    · intro r n h hlt
      rw [hnil, hm] at h
      cases h
      simp at hlt
    · intro r n h heq
      rw [hnil, hm] at h
      cases h
      rw [happ, hm]
      simp
    · intro r n h
      rw [hnil, hm] at h
      cases h
      simp

end

/-! ## A body that shows -/

theorem suffix_of_tail {x u : Text} {c : Char} {k : Nat} (hk : 0 < k) (hu : u ≠ [])
    (h : u <:+ x ++ List.replicate k c) :
    ∃ v j, v <:+ x ∧ u = v ++ c :: List.replicate j c := by
  induction x with
  | nil =>
    obtain ⟨-, hall⟩ := List.suffix_replicate_iff.mp h
    obtain ⟨a, t, rfl⟩ := List.exists_cons_of_ne_nil hu
    rw [List.length_cons, List.replicate_succ] at hall
    exact ⟨[], t.length, List.suffix_refl _, hall⟩
  | cons a x ih =>
    rcases List.suffix_cons_iff.mp h with rfl | hsuffix
    · obtain ⟨j, rfl⟩ : ∃ j, k = j + 1 := ⟨k - 1, by omega⟩
      exact ⟨a :: x, j, List.suffix_refl _, rfl⟩
    · obtain ⟨v, j, hv, heq⟩ := ih hsuffix
      exact ⟨v, j, hv.trans (List.suffix_cons a x), heq⟩

theorem stripWord_none {d : Dialect} {word v : Text} {c : Char} (hc : d.fold c ∉ word)
    (hv : (v.take word.length).map d.fold ≠ word) (t : Text) :
    stripWord d word (v ++ c :: t) = none := by
  induction word generalizing v with
  | nil => exact absurd rfl hv
  | cons w word ih =>
    cases v with
    | nil =>
      have hne : d.fold c ≠ w := fun heq => hc (heq ▸ List.mem_cons_self)
      rw [List.nil_append, stripWord, if_neg hne]
    | cons b v =>
      rw [List.cons_append, stripWord]
      by_cases hb : d.fold b = w
      · rw [if_pos hb]
        refine ih (fun hmem => hc (List.mem_cons_of_mem _ hmem)) fun heq => hv ?_
        rw [List.length_cons, List.take_succ_cons, List.map_cons, hb, heq]
      · rw [if_neg hb]

/-- A character that is in neither pattern. -/
structure Foreign (d : Dialect) (c : Char) : Prop where
  key : c ∉ keyPrefix
  word : ∀ word ∈ credentialWords, d.fold c ∉ word

section

variable {d : Dialect} {c : Char} (hd : Plain d) (hc : Foreign d c)

include hd hc

/-- After what is left of a cut prefix, a run of such a character goes through both masks. -/
theorem foreign_shows {front : Text} (hfront : front <:+ keyPrefix) (hlen : front.length < 10)
    {k : Nat} (hk : 0 < k) (z : Text) :
    replaceAll keyShape (front ++ List.replicate k c ++ z)
        = front ++ List.replicate k c ++ replaceAll keyShape z
      ∧ replaceAll (namedCredential d) (front ++ List.replicate k c ++ z)
        = front ++ List.replicate k c ++ replaceAll (namedCredential d) z := by
  constructor
  · refine replaceAll_inert fun u hu hsuffix => keyShape_none ?_
    obtain ⟨v, j, hv, rfl⟩ := suffix_of_tail hk hu hsuffix
    have hle := hv.length_le
    rw [List.append_assoc, List.cons_append]
    exact stripPrefix_none_of_ne (by rw [keyPrefix_length]; omega) hc.key
  · refine replaceAll_inert fun u hu hsuffix => ?_
    obtain ⟨v, j, hv, rfl⟩ := suffix_of_tail hk hu hsuffix
    rw [List.append_assoc, List.cons_append]
    refine List.findSome?_eq_none_iff.mpr fun word hword => ?_
    rw [stripWord_none (hc.word word hword) (hd.words v (hv.trans hfront) word hword)]
    rfl

end

theorem foreign_zero {d : Dialect} (hd : Plain d) : Foreign d '0' where
  key := by decide
  word word hword := by
    have hall : (credentialWords.all fun word => decide ('0' ∉ word)) = true := by decide
    rw [hd.zero]
    exact of_decide_eq_true (List.all_eq_true.mp hall word hword)

theorem foreign_one {d : Dialect} (hd : Plain d) : Foreign d '1' where
  key := by decide
  word word hword := by
    have hall : (credentialWords.all fun word => decide ('1' ∉ word)) = true := by decide
    rw [hd.one]
    exact of_decide_eq_true (List.all_eq_true.mp hall word hword)

/-! ## The alignments of a key -/

theorem decodeLossy_between {middle : List UInt8} (hne : middle ≠ [])
    (h : ∀ b ∈ middle, b.toNat < 0x80) (p s : List UInt8) :
    Utf8.decodeLossy (p ++ (middle ++ s))
      = Utf8.decodeLossy p ++ (textOf middle ++ Utf8.decodeLossy s) := by
  obtain ⟨b, bs, rfl⟩ := List.exists_cons_of_ne_nil hne
  rw [List.cons_append, Utf8.decodeLossy_append p (h b (by simp)),
    Utf8.decodeLossy_ascii fun b hb => h b (by simp [hb])]
  rfl

theorem textOf_append (bs bs' : List UInt8) : textOf (bs ++ bs') = textOf bs ++ textOf bs' :=
  List.map_append

theorem octets_length (t : Text) : (asciiOctets t).length = t.length := List.length_map _

theorem keyOctets_text : textOf (asciiOctets keyPrefix) = keyPrefix :=
  textOf_asciiOctets (by decide)

theorem keyPrefix_not_edge : ∀ c ∈ keyPrefix, isEdge c = false := by decide

/-- The kept text of bytes without edges between others. -/
theorem keptText_of_drop {stderr p middle s : List UInt8} (hne : middle ≠ [])
    (hlt : ∀ b ∈ middle, b.toNat < 0x80) (hedge : ∀ c ∈ textOf middle, isEdge c = false)
    (hdrop : stderr.drop (stderr.length - maxDiagnosticBytes) = p ++ (middle ++ s)) :
    keptText stderr = (Utf8.decodeLossy p).dropWhile isEdge
      ++ (textOf middle ++ stripRight (Utf8.decodeLossy s)) := by
  unfold keptText
  rw [hdrop, decodeLossy_between hne hlt]
  exact stripEdges_between (by simpa [textOf] using hne) hedge _ _

/-- The end of four parts that begins in the first. -/
theorem drop_whole (p key body s : List UInt8) (kept : Nat)
    (h : s.length + body.length + key.length ≤ kept) :
    (p ++ key ++ body ++ s).drop ((p ++ key ++ body ++ s).length - kept)
      = p.drop (p.length + key.length + body.length + s.length - kept)
        ++ ((key ++ body) ++ s) := by
  simp only [List.length_append, List.append_assoc]
  rw [List.drop_append_of_le_length (by omega)]
  congr 2
  omega

/-- The end of four parts that begins in the middle ones. -/
theorem drop_cut (p key body s : List UInt8) (kept : Nat) (hs : s.length ≤ kept)
    (h : kept ≤ s.length + body.length + key.length) :
    (p ++ key ++ body ++ s).drop ((p ++ key ++ body ++ s).length - kept)
      = [] ++ ((key.drop (s.length + body.length + key.length - kept)
        ++ body.drop (s.length + body.length - kept)) ++ s) := by
  simp only [List.length_append, List.append_assoc, List.nil_append]
  rw [List.drop_append, List.drop_eq_nil_of_le (by omega), List.nil_append, List.drop_append,
    List.drop_append_of_le_length (by omega)]
  congr 2
  · omega
  · congr 1
    omega

/-- The end of four parts that lies in the last. -/
theorem drop_past (p key body s : List UInt8) (kept : Nat) (h : kept ≤ s.length) :
    (p ++ key ++ body ++ s).drop ((p ++ key ++ body ++ s).length - kept)
      = s.drop (s.length - kept) := by
  have hlen : (p ++ key ++ body ++ s).length = (p ++ key ++ body).length + s.length :=
    List.length_append
  rw [hlen, List.drop_append, List.drop_eq_nil_of_le (by omega), List.nil_append]
  congr 1
  omega

section

variable {p body s : List UInt8} (hbody : ∀ b ∈ body, isKeyByte b = true)

include hbody

/-- A key that is kept whole. -/
theorem keptText_whole (h : s.length + body.length + 10 ≤ maxDiagnosticBytes) :
    keptText (p ++ asciiOctets keyPrefix ++ body ++ s)
      = textBefore p s body.length
        ++ (keyPrefix ++ (textOf body ++ stripRight (Utf8.decodeLossy s))) := by
  have hkey : (asciiOctets keyPrefix).length = 10 := by decide
  have hdrop := drop_whole p (asciiOctets keyPrefix) body s maxDiagnosticBytes
    (by rw [hkey]; exact h)
  rw [hkey] at hdrop
  have hlt : ∀ b ∈ asciiOctets keyPrefix ++ body, b.toNat < 0x80 := by
    intro b hb
    rcases List.mem_append.mp hb with hb | hb
    · exact asciiOctets_lt (by decide) b hb
    · exact isKeyByte_lt (hbody b hb)
  have hedge : ∀ c ∈ textOf (asciiOctets keyPrefix ++ body), isEdge c = false := by
    intro c hc
    rw [textOf_append, keyOctets_text] at hc
    rcases List.mem_append.mp hc with hc | hc
    · exact keyPrefix_not_edge c hc
    · exact isEdge_of_key (textOf_key hbody c hc)
  rw [keptText_of_drop (List.append_ne_nil_of_left_ne_nil (by decide) _) hlt hedge hdrop,
    textOf_append, keyOctets_text, List.append_assoc]
  rfl

end

/-- A key of one repeated byte that the cut runs through. -/
theorem keptText_cut {p s : List UInt8} {n : Nat} (hn : 0 < n)
    (hs : s.length < maxDiagnosticBytes) (h : maxDiagnosticBytes < s.length + n + 10) :
    ∃ front k, front <:+ keyPrefix ∧ front.length < 10 ∧ 0 < k ∧ ∀ b, isKeyByte b = true →
      keptText (p ++ asciiOctets keyPrefix ++ List.replicate n b ++ s)
        = front ++ List.replicate k (Char.ofNat b.toNat) ++ stripRight (Utf8.decodeLossy s) := by
  have hkey : (asciiOctets keyPrefix).length = 10 := by decide
  obtain ⟨j, hj⟩ : ∃ j, j = s.length + n + 10 - maxDiagnosticBytes := ⟨_, rfl⟩
  obtain ⟨k, hk⟩ : ∃ k, k = n - (s.length + n - maxDiagnosticBytes) := ⟨_, rfl⟩
  have hkpos : 0 < k := by omega
  refine ⟨keyPrefix.drop j, k, List.drop_suffix _ _, ?_, hkpos, fun b hb => ?_⟩
  · rw [List.length_drop, keyPrefix_length]
    omega
  have hdrop := drop_cut p (asciiOctets keyPrefix) (List.replicate n b) s maxDiagnosticBytes
    (le_of_lt hs) (by rw [hkey, List.length_replicate]; exact le_of_lt h)
  rw [hkey, List.length_replicate, List.drop_replicate, ← hj, ← hk] at hdrop
  have hlt : ∀ b' ∈ (asciiOctets keyPrefix).drop j ++ List.replicate k b, b'.toNat < 0x80 := by
    intro b' hb'
    rcases List.mem_append.mp hb' with hb' | hb'
    · exact asciiOctets_lt (by decide) b' (List.mem_of_mem_drop hb')
    · rw [(List.mem_replicate.mp hb').2]
      exact isKeyByte_lt hb
  have htext : textOf ((asciiOctets keyPrefix).drop j ++ List.replicate k b)
      = keyPrefix.drop j ++ List.replicate k (Char.ofNat b.toNat) := by
    have hfront : textOf ((asciiOctets keyPrefix).drop j) = keyPrefix.drop j := by
      unfold textOf
      rw [List.map_drop]
      exact congrArg (List.drop j) keyOctets_text
    rw [textOf_append, hfront]
    unfold textOf
    rw [List.map_replicate]
  have hedge : ∀ c ∈ textOf ((asciiOctets keyPrefix).drop j ++ List.replicate k b),
      isEdge c = false := by
    intro c hc
    rw [htext] at hc
    rcases List.mem_append.mp hc with hc | hc
    · exact keyPrefix_not_edge c (List.mem_of_mem_drop hc)
    · rw [(List.mem_replicate.mp hc).2]
      exact isEdge_of_key hb
  have hne : (asciiOctets keyPrefix).drop j ++ List.replicate k b ≠ [] :=
    List.append_ne_nil_of_right_ne_nil _ (by simp; omega)
  rw [keptText_of_drop hne hlt hedge hdrop, htext]
  rfl

/-! ## When a body shows -/

theorem notSpace {d : Dialect} {c : Char} (h : d.isSpace c = false) :
    (fun c => !d.isSpace c) c = true := by
  show (!d.isSpace c) = true
  rw [h]
  rfl

/-- The text after the key does not go on with key characters. -/
theorem after_head {s : List UInt8} (hs : ∀ b, s.head? = some b → isKeyByte b = false) :
    ∀ c t, stripRight (Utf8.decodeLossy s) = c :: t → isKeyChar c = false := by
  intro c t h
  have hprefix : stripRight (Utf8.decodeLossy s) <+: Utf8.decodeLossy s := by
    unfold stripRight
    have hsuffix := List.dropWhile_suffix isEdge (l := (Utf8.decodeLossy s).reverse)
    have hrev := List.reverse_prefix.mpr hsuffix
    rwa [List.reverse_reverse] at hrev
  rw [h] at hprefix
  obtain ⟨t', ht'⟩ := hprefix
  exact decodeLossy_head hs c (t ++ t') ht'.symm

section

variable {d : Dialect} (hd : Plain d)

include hd

theorem keyShape_staysIn : StaysIn keyShape fun c => !d.isSpace c := by
  have hprefix : ∀ c ∈ keyPrefix, (fun c => !d.isSpace c) c = true := by
    intro c hc
    by_cases hkey : isKeyChar c = true
    · exact notSpace (hd.key c hkey)
    · have hdots : ∀ c ∈ keyPrefix, ¬ isKeyChar c = true → c = '.' := by decide
      rw [hdots c hc hkey]
      exact notSpace hd.dot
  intro t r n h
  obtain ⟨rest, rfl, rfl, rfl⟩ := keyShape_some h
  refine ⟨?_, by omega, ?_⟩
  · intro c hc
    have hcases : ∀ c ∈ "<redacted>".toList, c = '<' ∨ c = '>' ∨ isKeyChar c = true := by decide
    rcases hcases c hc with rfl | rfl | hkey
    · exact notSpace hd.left
    · exact notSpace hd.right
    · exact notSpace (hd.key c hkey)
  · intro c hc
    have hlen : 10 + (rest.takeWhile isKeyChar).length
        = (keyPrefix ++ rest.takeWhile isKeyChar).length := by
      rw [List.length_append, keyPrefix_length]
    have htake : (keyPrefix ++ rest).take (10 + (rest.takeWhile isKeyChar).length)
        = keyPrefix ++ rest.takeWhile isKeyChar := by
      have hsplit : keyPrefix ++ rest
          = keyPrefix ++ rest.takeWhile isKeyChar ++ rest.dropWhile isKeyChar := by
        rw [List.append_assoc, List.takeWhile_append_dropWhile]
      rw [hlen, hsplit, List.take_left]
    rw [htake] at hc
    rcases List.mem_append.mp hc with hc | hc
    · exact hprefix c hc
    · exact notSpace (hd.key c (List.mem_takeWhile_imp hc))

/-- The result for a key whose prefix an earlier match has taken. -/
theorem masked_open {x z : Text} (hopen : endsInMatch keyShape 0 x = true) :
    replaceAll (namedCredential d) (replaceAll keyShape x ++ z)
      = replaceAll (namedCredential d) (replaceAll keyShape x)
        ++ replaceAll (namedCredential d)
          (if endsInMatch (namedCredential d) 0 (replaceAll keyShape x)
            then z.dropWhile fun c => !d.isSpace c else z) := by
  obtain ⟨t, r, n, front, ht, hfront⟩ := replaceFrom_of_endsInMatch x hopen
  obtain ⟨-, -, rfl, -⟩ := keyShape_some ht
  have hend : replaceAll keyShape x = front ++ "<redacted".toList ++ ['>'] := by
    rw [List.append_assoc]
    exact hfront
  have hext : ∀ u, u ≠ [] → u <:+ replaceAll keyShape x →
      Extends (namedCredential d) z (z.takeWhile fun c => !d.isSpace c).length u := by
    intro u hu hsuffix
    rw [hend] at hsuffix
    rcases List.suffix_concat_iff.mp hsuffix with hnil | ⟨v, rfl, -⟩
    · exact absurd hnil hu
    · exact namedCredential_extends hd v z
  have hdrop : z.drop (z.takeWhile fun c => !d.isSpace c).length
      = z.dropWhile fun c => !d.isSpace c := by
    have hsplit := List.takeWhile_append_dropWhile (p := fun c => !d.isSpace c) (l := z)
    have hleft := congrArg (List.drop (z.takeWhile fun c => !d.isSpace c).length) hsplit
    rw [List.drop_left] at hleft
    exact hleft.symm
  rw [replaceAll_append hext, hdrop]

variable {p s : List UInt8} (hs : ∀ b, s.head? = some b → isKeyByte b = false)

include hs

theorem hides_of_covered {n : Nat} (h : Covered d p s n) : Hides d p s n := by
  intro body body' hlen hlen' hbody hbody'
  unfold diagnosticOf boundedDiagnostic maskedText
  rcases h with rfl | hpast | ⟨hwhole, hmasked⟩
  · rw [List.length_eq_zero_iff.mp hlen, List.length_eq_zero_iff.mp hlen']
  · unfold keptText
    rw [drop_past _ _ _ _ _ hpast, drop_past _ _ _ _ _ hpast]
  · rw [keptText_whole hbody (by rw [hlen]; exact hwhole),
      keptText_whole hbody' (by rw [hlen']; exact hwhole), hlen, hlen',
      maskedKey (textOf_key hbody) (after_head hs),
      maskedKey (textOf_key hbody') (after_head hs)]
    by_cases hopen : endsInMatch keyShape 0 (textBefore p s n) = true
    · have hnamed := hmasked.resolve_left (by rw [hopen]; decide)
      -- the value of the credential goes on past the body
      have hvalue : ∀ bs : List UInt8, (∀ b ∈ bs, isKeyByte b = true) →
          (replaceAll keyShape ('.' :: (textOf bs ++ stripRight (Utf8.decodeLossy s)))).dropWhile
              (fun c => !d.isSpace c)
            = replaceAll keyShape ((stripRight (Utf8.decodeLossy s)).dropWhile
              fun c => !d.isSpace c) := by
        intro bs hbs
        have hdot : ('.' :: (textOf bs ++ stripRight (Utf8.decodeLossy s))).dropWhile
            (fun c => !d.isSpace c)
            = (textOf bs ++ stripRight (Utf8.decodeLossy s)).dropWhile fun c => !d.isSpace c :=
          List.dropWhile_cons_of_pos (notSpace hd.dot)
        rw [dropWhile_replaceAll (m := keyShape) (keyShape_staysIn hd), hdot,
          List.dropWhile_append_of_pos]
        intro c hc
        exact notSpace (hd.key c (textOf_key hbs c hc))
      rw [if_pos hopen, if_pos hopen, masked_open hd hopen, masked_open hd hopen, if_pos hnamed,
        if_pos hnamed, hvalue body hbody, hvalue body' hbody']
    · rw [if_neg hopen, if_neg hopen]

/-- What is not covered shows a byte of the body. -/
theorem shows_of_not_covered {n : Nat} (h : ¬ Covered d p s n) :
    ∃ front k z, 0 < k ∧ ∀ b, isKeyByte b = true → Foreign d (Char.ofNat b.toNat) →
      diagnosticOf d p (List.replicate n b) s
        = front ++ (List.replicate k (Char.ofNat b.toNat) ++ z) := by
  have hn : 0 < n := Nat.pos_of_ne_zero fun heq => h (.inl heq)
  have hcut : s.length < maxDiagnosticBytes := by
    by_contra hge
    exact h (.inr (.inl (by omega)))
  by_cases hwhole : s.length + n + 10 ≤ maxDiagnosticBytes
  · have hopen : endsInMatch keyShape 0 (textBefore p s n) = true := by
      by_contra hclosed
      exact h (.inr (.inr ⟨hwhole, .inl (by simpa using hclosed)⟩))
    have hnamed : ¬ endsInMatch (namedCredential d) 0
        (replaceAll keyShape (textBefore p s n)) = true := fun hyes =>
      h (.inr (.inr ⟨hwhole, .inr hyes⟩))
    refine ⟨replaceAll (namedCredential d) (replaceAll keyShape (textBefore p s n)) ++ ['.'], n,
      replaceAll (namedCredential d) (replaceAll keyShape (stripRight (Utf8.decodeLossy s))), hn,
      fun b hb hforeign => ?_⟩
    have hkey : ∀ b' ∈ List.replicate n b, isKeyByte b' = true := fun b' hb' => by
      rw [(List.mem_replicate.mp hb').2]
      exact hb
    have htext : textOf (List.replicate n b) = List.replicate n (Char.ofNat b.toNat) :=
      List.map_replicate
    have hdot : ['.'] <:+ keyPrefix := ⟨"ksk_alpha".toList, rfl⟩
    unfold diagnosticOf boundedDiagnostic maskedText
    rw [keptText_whole hkey (by rw [List.length_replicate]; exact hwhole), List.length_replicate,
      maskedKey (textOf_key hkey) (after_head hs), if_pos hopen, masked_open hd hopen,
      if_neg hnamed, htext]
    have hshows := fun z => foreign_shows hd hforeign hdot (by decide) hn z
    have hfirst := (hshows (stripRight (Utf8.decodeLossy s))).1
    have hsecond := (hshows (replaceAll keyShape (stripRight (Utf8.decodeLossy s)))).2
    simp only [List.cons_append, List.nil_append] at hfirst hsecond
    rw [hfirst, hsecond]
    simp
  · obtain ⟨front, k, hfront, hlen, hk, hkept⟩ :=
      keptText_cut (p := p) (s := s) hn hcut (by omega)
    refine ⟨front, k,
      replaceAll (namedCredential d) (replaceAll keyShape (stripRight (Utf8.decodeLossy s))), hk,
      fun b hb hforeign => ?_⟩
    have hshows := fun z => foreign_shows hd hforeign hfront hlen hk z
    unfold diagnosticOf boundedDiagnostic maskedText
    rw [hkept b hb, (hshows _).1, (hshows _).2, List.append_assoc]

theorem hides_iff (n : Nat) : Hides d p s n ↔ Covered d p s n := by
  refine ⟨fun hhides => ?_, fun hcovered => hides_of_covered hd hs hcovered⟩
  by_contra hnot
  obtain ⟨front, k, z, hk, hshows⟩ := shows_of_not_covered hd hs hnot
  have heq := hhides (List.replicate n 0x30) (List.replicate n 0x31) (List.length_replicate)
    (List.length_replicate) (fun b hb => by rw [(List.mem_replicate.mp hb).2]; decide)
    (fun b hb => by rw [(List.mem_replicate.mp hb).2]; decide)
  rw [hshows 0x30 (by decide) (foreign_zero hd), hshows 0x31 (by decide) (foreign_one hd)] at heq
  have hrun := List.append_cancel_left heq
  obtain ⟨k, rfl⟩ : ∃ j, k = j + 1 := ⟨k - 1, by omega⟩
  rw [List.replicate_succ, List.replicate_succ, List.cons_append, List.cons_append] at hrun
  exact absurd (List.cons.inj hrun).1 (by decide)

end

/-- In both SDKs the diagnostic is the same for every body of a key exactly when no byte of the
body is kept, or the whole key is kept and its prefix is masked with it. -/
theorem boundedDiagnostic_hides_iff (p s : List UInt8) (n : Nat)
    (hs : ∀ b, s.head? = some b → isKeyByte b = false) :
    (Hides python p s n ↔ Covered python p s n)
      ∧ (Hides typescript p s n ↔ Covered typescript p s n) :=
  ⟨hides_iff python_plain hs n, hides_iff typescript_plain hs n⟩

/-- A key after plain text and before a line feed. -/
theorem boundedDiagnostic_hides_iff_line :
    (Hides python (asciiOctets "key: ".toList) [0x0A] 3
        ↔ Covered python (asciiOctets "key: ".toList) [0x0A] 3)
      ∧ (Hides typescript (asciiOctets "key: ".toList) [0x0A] 3
        ↔ Covered typescript (asciiOctets "key: ".toList) [0x0A] 3) :=
  boundedDiagnostic_hides_iff _ _ 3 (by decide)

/-- After a key prefix on the same line, the prefix of the key itself is taken by the first match. -/
theorem doubled_prefix_shows_body :
    ¬ Hides python (asciiOctets keyPrefix) [] 1 ∧ ¬ Hides typescript (asciiOctets keyPrefix) [] 1 := by
  constructor
  · intro h
    have heq := h [0x30] [0x31] rfl rfl (by decide) (by decide)
    revert heq
    decide +kernel
  · intro h
    have heq := h [0x30] [0x31] rfl rfl (by decide) (by decide)
    revert heq
    decide +kernel

end Kaleidoscope.Sdk
