import Kaleidoscope.Lib.Encoding
import Kaleidoscope.Lib.Text

/-!
# Lossy decoding of UTF-8

Decoding that puts U+FFFD in the place of each maximal part of an ill-formed sequence, as a
machine that takes one byte at a time.

    decodeLossy_append     an ASCII byte separates what comes before it from what comes after it
    decodeLossy_ascii      ASCII bytes are decoded one for one
    decode_iff             strict decoding is the inverse of encoding
    decode_utf8            a text is what its bytes are decoded to
-/

namespace Utf8

/-- Where the machine stands between two bytes. -/
inductive Pending where
  | idle
  /-- `needed + 1` continuation bytes are still to come; the next one lies between the bounds -/
  | within (bits needed lower upper : Nat)
  deriving DecidableEq

def replacement : Char := '\uFFFD'

/-- The first byte of a sequence: what is put out at once, and what is then pending. -/
def lead (b : UInt8) : Text × Pending :=
  let n := b.toNat
  if n < 0x80 then ([Char.ofNat n], .idle)
  else if 0xC2 ≤ n ∧ n ≤ 0xDF then ([], .within (n - 0xC0) 0 0x80 0xBF)
  else if n = 0xE0 then ([], .within 0 1 0xA0 0xBF)
  else if n = 0xED then ([], .within 0xD 1 0x80 0x9F)
  else if 0xE1 ≤ n ∧ n ≤ 0xEF then ([], .within (n - 0xE0) 1 0x80 0xBF)
  else if n = 0xF0 then ([], .within 0 2 0x90 0xBF)
  else if n = 0xF4 then ([], .within 4 2 0x80 0x8F)
  else if 0xF1 ≤ n ∧ n ≤ 0xF3 then ([], .within (n - 0xF0) 2 0x80 0xBF)
  else ([replacement], .idle)

def step : Pending → UInt8 → Text × Pending
  | .idle, b => lead b
  | .within bits needed lower upper, b =>
    if lower ≤ b.toNat ∧ b.toNat ≤ upper then
      let bits := bits * 64 + (b.toNat - 0x80)
      match needed with
      | 0 => ([Char.ofNat bits], .idle)
      | needed + 1 => ([], .within bits needed 0x80 0xBF)
    else
      -- the byte that does not fit begins a new sequence
      (replacement :: (lead b).1, (lead b).2)

/-- What is put out at the end of the input. -/
def flush : Pending → Text
  | .idle => []
  | .within _ _ _ _ => [replacement]

def decodeFrom : Pending → List UInt8 → Text
  | p, [] => flush p
  | p, b :: bs => (step p b).1 ++ decodeFrom (step p b).2 bs

/-- `bytes.decode("utf-8", errors="replace")` and `buffer.toString("utf8")`. -/
def decodeLossy (bs : List UInt8) : Text := decodeFrom .idle bs

/-! ## Lemmas -/

theorem lead_ascii {b : UInt8} (h : b.toNat < 0x80) : lead b = ([Char.ofNat b.toNat], .idle) := by
  unfold lead
  rw [if_pos h]

/-- The bounds of a pending sequence leave out the ASCII bytes. -/
def Sound : Pending → Prop
  | .idle => True
  | .within _ _ lower _ => 0x80 ≤ lower

theorem lead_sound (b : UInt8) : Sound (lead b).2 := by
  unfold lead
  simp only
  repeat' split
  all_goals first | trivial | (show 0x80 ≤ _; omega)

theorem step_sound {p : Pending} (b : UInt8) (h : Sound p) : Sound (step p b).2 := by
  cases p with
  | idle => exact lead_sound b
  | within bits needed lower upper =>
    simp only [step]
    split
    next =>
      cases needed with
      | zero => trivial
      | succ needed => exact le_refl 0x80
    next => exact lead_sound b

theorem step_ascii {p : Pending} {b : UInt8} (h : Sound p) (hb : b.toNat < 0x80) :
    step p b = (flush p ++ [Char.ofNat b.toNat], .idle) := by
  cases p with
  | idle => exact lead_ascii hb
  | within bits needed lower upper =>
    have hlower : 0x80 ≤ lower := h
    simp only [step]
    rw [if_neg (by omega), lead_ascii hb]
    rfl

theorem decodeFrom_append {p : Pending} (hp : Sound p) (bs : List UInt8) {b : UInt8}
    (hb : b.toNat < 0x80) (rest : List UInt8) :
    decodeFrom p (bs ++ b :: rest)
      = decodeFrom p bs ++ Char.ofNat b.toNat :: decodeLossy rest := by
  induction bs generalizing p with
  | nil =>
    show (step p b).1 ++ decodeFrom (step p b).2 rest = flush p ++ _
    rw [step_ascii hp hb]
    simp [decodeLossy]
  | cons c bs ih =>
    show (step p c).1 ++ decodeFrom (step p c).2 (bs ++ b :: rest) = _
    rw [ih (step_sound c hp), ← List.append_assoc]
    rfl

/-- An ASCII byte separates what comes before it from what comes after it. -/
theorem decodeLossy_append (bs : List UInt8) {b : UInt8} (hb : b.toNat < 0x80)
    (rest : List UInt8) :
    decodeLossy (bs ++ b :: rest)
      = decodeLossy bs ++ Char.ofNat b.toNat :: decodeLossy rest :=
  decodeFrom_append (p := .idle) trivial bs hb rest

/-- ASCII bytes are decoded one for one. -/
theorem decodeLossy_ascii {bs : List UInt8} (h : ∀ b ∈ bs, b.toNat < 0x80)
    (rest : List UInt8) :
    decodeLossy (bs ++ rest) = bs.map (fun b => Char.ofNat b.toNat) ++ decodeLossy rest := by
  induction bs with
  | nil => rfl
  | cons b bs ih =>
    have hb := h b (by simp)
    have hrest := ih fun c hc => h c (by simp [hc])
    unfold decodeLossy at hrest ⊢
    rw [List.cons_append, decodeFrom]
    show (lead b).1 ++ decodeFrom (lead b).2 (bs ++ rest) = _
    rw [lead_ascii hb]
    simp only [List.map_cons, List.cons_append, List.nil_append]
    rw [hrest]

/-! ## Strict decoding -/

def encode (t : Text) : List UInt8 := t.flatMap fun c => Unicode.encodeUtf8Point c.toNat

/-- The text that some bytes are the encoding of. -/
def decode (bs : List UInt8) : Option Text :=
  if encode (decodeLossy bs) = bs then some (decodeLossy bs) else none

theorem decodeFrom_cons (p : Pending) (b : UInt8) (bs : List UInt8) :
    decodeFrom p (b :: bs) = (step p b).1 ++ decodeFrom (step p b).2 bs := rfl

theorem step_within {bits needed lower upper : Nat} {b : UInt8}
    (h : lower ≤ b.toNat ∧ b.toNat ≤ upper) :
    step (.within bits needed lower upper) b
      = match needed with
        | 0 => ([Char.ofNat (bits * 64 + (b.toNat - 0x80))], .idle)
        | needed + 1 => ([], .within (bits * 64 + (b.toNat - 0x80)) needed 0x80 0xBF) := by
  simp only [step]
  rw [if_pos h]

theorem toNat_ofNat {n : Nat} (h : n < 256) : (UInt8.ofNat n).toNat = n := by
  rw [UInt8.toNat_ofNat']
  omega

theorem char_valid (c : Char) : c.toNat < 0xD800 ∨ (0xDFFF < c.toNat ∧ c.toNat < 0x110000) :=
  c.valid

theorem decodeFrom_two {n : Nat} (hge : 0x80 ≤ n) (hlt : n < 0x800) (bs : List UInt8) :
    decodeFrom .idle (UInt8.ofNat (0xC0 + n / 64) :: UInt8.ofNat (0x80 + n % 64) :: bs)
      = Char.ofNat n :: decodeFrom .idle bs := by
  have hlead : (UInt8.ofNat (0xC0 + n / 64)).toNat = 0xC0 + n / 64 := toNat_ofNat (by omega)
  have hlast : (UInt8.ofNat (0x80 + n % 64)).toNat = 0x80 + n % 64 := toNat_ofNat (by omega)
  have hfirst : step .idle (UInt8.ofNat (0xC0 + n / 64)) = ([], .within (n / 64) 0 0x80 0xBF) := by
    show lead _ = _
    unfold lead
    rw [hlead]
    simp only
    rw [if_neg (by omega), if_pos (by omega), show 0xC0 + n / 64 - 0xC0 = n / 64 by omega]
  rw [decodeFrom_cons, hfirst, decodeFrom_cons, step_within (by omega), hlast,
    show n / 64 * 64 + (0x80 + n % 64 - 0x80) = n by omega]
  rfl

/-- The state after the first byte of a sequence of three bytes: what the second one may be tells
the surrogates and the shorter sequences apart. -/
theorem lead_three {n : Nat} (hge : 0x800 ≤ n) (hlt : n < 0x10000)
    (hscalar : n < 0xD800 ∨ 0xDFFF < n) :
    ∃ lower upper, lead (UInt8.ofNat (0xE0 + n / 4096)) = ([], .within (n / 4096) 1 lower upper)
      ∧ lower ≤ 0x80 + n / 64 % 64 ∧ 0x80 + n / 64 % 64 ≤ upper := by
  have hlead : (UInt8.ofNat (0xE0 + n / 4096)).toNat = 0xE0 + n / 4096 := toNat_ofNat (by omega)
  unfold lead
  rw [hlead]
  simp only
  rw [if_neg (by omega), if_neg (by omega)]
  by_cases hzero : n / 4096 = 0
  · rw [if_pos (by omega)]
    exact ⟨_, _, by rw [hzero], by omega, by omega⟩
  rw [if_neg (by omega)]
  by_cases hsurrogate : n / 4096 = 0xD
  · rw [if_pos (by omega)]
    exact ⟨_, _, by rw [hsurrogate], by omega, by omega⟩
  rw [if_neg (by omega), if_pos (by omega), show 0xE0 + n / 4096 - 0xE0 = n / 4096 by omega]
  exact ⟨_, _, rfl, by omega, by omega⟩

theorem decodeFrom_three {n : Nat} (hge : 0x800 ≤ n) (hlt : n < 0x10000)
    (hscalar : n < 0xD800 ∨ 0xDFFF < n) (bs : List UInt8) :
    decodeFrom .idle (UInt8.ofNat (0xE0 + n / 4096) :: UInt8.ofNat (0x80 + n / 64 % 64)
        :: UInt8.ofNat (0x80 + n % 64) :: bs)
      = Char.ofNat n :: decodeFrom .idle bs := by
  obtain ⟨lower, upper, hfirst, hlower, hupper⟩ := lead_three hge hlt hscalar
  have hmiddle : (UInt8.ofNat (0x80 + n / 64 % 64)).toNat = 0x80 + n / 64 % 64 :=
    toNat_ofNat (by omega)
  have hlast : (UInt8.ofNat (0x80 + n % 64)).toNat = 0x80 + n % 64 := toNat_ofNat (by omega)
  rw [decodeFrom_cons, show step .idle (UInt8.ofNat (0xE0 + n / 4096)) = _ from hfirst,
    decodeFrom_cons, step_within (by omega), hmiddle,
    show n / 4096 * 64 + (0x80 + n / 64 % 64 - 0x80) = n / 64 by omega]
  simp only
  rw [decodeFrom_cons, step_within (by omega), hlast,
    show n / 64 * 64 + (0x80 + n % 64 - 0x80) = n by omega]
  rfl

/-- The state after the first byte of a sequence of four bytes. -/
theorem lead_four {n : Nat} (hge : 0x10000 ≤ n) (hlt : n < 0x110000) :
    ∃ lower upper,
      lead (UInt8.ofNat (0xF0 + n / 262144)) = ([], .within (n / 262144) 2 lower upper)
      ∧ lower ≤ 0x80 + n / 4096 % 64 ∧ 0x80 + n / 4096 % 64 ≤ upper := by
  have hlead : (UInt8.ofNat (0xF0 + n / 262144)).toNat = 0xF0 + n / 262144 :=
    toNat_ofNat (by omega)
  unfold lead
  rw [hlead]
  simp only
  rw [if_neg (by omega), if_neg (by omega), if_neg (by omega), if_neg (by omega),
    if_neg (by omega)]
  by_cases hzero : n / 262144 = 0
  · rw [if_pos (by omega)]
    exact ⟨_, _, by rw [hzero], by omega, by omega⟩
  rw [if_neg (by omega)]
  by_cases hfour : n / 262144 = 4
  · rw [if_pos (by omega)]
    exact ⟨_, _, by rw [hfour], by omega, by omega⟩
  rw [if_neg (by omega), if_pos (by omega), show 0xF0 + n / 262144 - 0xF0 = n / 262144 by omega]
  exact ⟨_, _, rfl, by omega, by omega⟩

theorem decodeFrom_four {n : Nat} (hge : 0x10000 ≤ n) (hlt : n < 0x110000) (bs : List UInt8) :
    decodeFrom .idle (UInt8.ofNat (0xF0 + n / 262144) :: UInt8.ofNat (0x80 + n / 4096 % 64)
        :: UInt8.ofNat (0x80 + n / 64 % 64) :: UInt8.ofNat (0x80 + n % 64) :: bs)
      = Char.ofNat n :: decodeFrom .idle bs := by
  obtain ⟨lower, upper, hfirst, hlower, hupper⟩ := lead_four hge hlt
  have hsecond : (UInt8.ofNat (0x80 + n / 4096 % 64)).toNat = 0x80 + n / 4096 % 64 :=
    toNat_ofNat (by omega)
  have hthird : (UInt8.ofNat (0x80 + n / 64 % 64)).toNat = 0x80 + n / 64 % 64 :=
    toNat_ofNat (by omega)
  have hlast : (UInt8.ofNat (0x80 + n % 64)).toNat = 0x80 + n % 64 := toNat_ofNat (by omega)
  rw [decodeFrom_cons, show step .idle (UInt8.ofNat (0xF0 + n / 262144)) = _ from hfirst,
    decodeFrom_cons, step_within (by omega), hsecond,
    show n / 262144 * 64 + (0x80 + n / 4096 % 64 - 0x80) = n / 4096 by omega]
  simp only
  rw [decodeFrom_cons, step_within (by omega), hthird,
    show n / 4096 * 64 + (0x80 + n / 64 % 64 - 0x80) = n / 64 by omega]
  simp only
  rw [decodeFrom_cons, step_within (by omega), hlast,
    show n / 64 * 64 + (0x80 + n % 64 - 0x80) = n by omega]
  rfl

theorem decodeFrom_char (c : Char) (bs : List UInt8) :
    decodeFrom .idle (Unicode.encodeUtf8Point c.toNat ++ bs) = c :: decodeFrom .idle bs := by
  have hscalar := char_valid c
  have hdecoded : decodeFrom .idle (Unicode.encodeUtf8Point c.toNat ++ bs)
      = Char.ofNat c.toNat :: decodeFrom .idle bs := by
    generalize c.toNat = n at hscalar
    unfold Unicode.encodeUtf8Point
    by_cases hone : n < 0x80
    · have hlead : (UInt8.ofNat n).toNat = n := toNat_ofNat (by omega)
      rw [if_pos hone, List.singleton_append, decodeFrom_cons,
        show step .idle (UInt8.ofNat n) = _ from lead_ascii (by omega), hlead]
      rfl
    rw [if_neg hone]
    by_cases htwo : n < 0x800
    · rw [if_pos htwo]
      exact decodeFrom_two (by omega) htwo bs
    rw [if_neg htwo]
    by_cases hthree : n < 0x10000
    · rw [if_pos hthree]
      exact decodeFrom_three (by omega) hthree (by omega) bs
    rw [if_neg hthree]
    exact decodeFrom_four (by omega) (by omega) bs
  rw [hdecoded, Char.ofNat_toNat]

theorem decodeLossy_encode (t : Text) : decodeLossy (encode t) = t := by
  unfold decodeLossy encode
  induction t with
  | nil => rfl
  | cons c t ih => rw [List.flatMap_cons, decodeFrom_char, ih]

/-- Strict decoding is the inverse of encoding. -/
theorem decode_iff {bs : List UInt8} {t : Text} : decode bs = some t ↔ encode t = bs := by
  unfold decode
  constructor
  · intro h
    split at h
    next heq =>
      cases h
      exact heq
    next => cases h
  · rintro rfl
    rw [decodeLossy_encode, if_pos rfl]

/-! ## The bytes of a text -/

theorem utf8EncodeChar_eq (c : Char) :
    String.utf8EncodeChar c = Unicode.encodeUtf8Point c.toNat := by
  have hlt : c.toNat < 0x110000 := by
    rcases char_valid c with h | h
    · omega
    · exact h.2
  have hval : c.val.toNat = c.toNat := rfl
  unfold String.utf8EncodeChar Unicode.encodeUtf8Point
  simp only [hval]
  by_cases h1 : c.toNat < 0x80
  · rw [if_pos h1, if_pos (by omega)]
  · rw [if_neg h1, if_neg (by omega)]
    by_cases h2 : c.toNat < 0x800
    · rw [if_pos h2, if_pos (by omega), Nat.add_comm, Nat.add_comm (c.toNat % 64),
        Nat.mod_eq_of_lt (show c.toNat / 64 < 32 by omega)]
    · rw [if_neg h2, if_neg (by omega)]
      by_cases h3 : c.toNat < 0x10000
      · rw [if_pos h3, if_pos (by omega), Nat.mod_eq_of_lt (show c.toNat / 4096 < 16 by omega)]
        simp only [Nat.add_comm]
      · rw [if_neg h3, if_neg (by omega), Nat.mod_eq_of_lt (show c.toNat / 262144 < 8 by omega)]
        simp only [Nat.add_comm]

theorem length_encode (t : Text) : (encode t).length = Text.byteLen t := by
  induction t with
  | nil => rfl
  | cons c t ih =>
    have hc : (Unicode.encodeUtf8Point c.toNat).length = c.utf8Size := by
      rw [← utf8EncodeChar_eq, String.length_utf8EncodeChar]
    have ht : (t.flatMap fun c => Unicode.encodeUtf8Point c.toNat).length = Text.byteLen t := ih
    unfold Text.byteLen at ht ⊢
    rw [encode, List.flatMap_cons, List.length_append, hc, ht, List.map_cons, List.sum_cons]

theorem utf8_toList (t : Text) : (Text.utf8 t).data.toList = encode t := by
  unfold Text.utf8
  rw [String.toByteArray_ofList]
  induction t with
  | nil => simp [encode]
  | cons c t ih =>
    have hfirst : (String.utf8EncodeChar c).toByteArray.data.toList
        = Unicode.encodeUtf8Point c.toNat := by
      rw [← utf8EncodeChar_eq]
      simp
    rw [List.utf8Encode_cons, List.utf8Encode_singleton, ByteArray.data_append, Array.toList_append,
      hfirst, ih]
    rfl

theorem decode_utf8 (t : Text) : decode (Text.utf8 t).data.toList = some t :=
  decode_iff.mpr (utf8_toList t).symm

end Utf8
