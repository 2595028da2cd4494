import Kaleidoscope.Lib.Utf8
import Mathlib.Tactic.Ring

/-!
# Cuts of UTF-8 text

What lossy decoding gives for a byte string that was cut in two.  A byte that continues no
sequence begins a new one whatever is pending, so the two parts are decoded alike from there on.

    decodeFrom_sync          a cut before a byte that continues no sequence
    decodeLossy_continuation what a cut inside a sequence leaves at the start of the second part
    decodeFrom_split         an ASCII character of the text comes from a byte of its own
-/

namespace Utf8

/-- The bytes that continue a sequence. -/
def isContinuation (b : UInt8) : Bool := 0x80 ≤ b.toNat && b.toNat ≤ 0xBF

/-- A pending sequence takes continuation bytes only and stands for a character outside ASCII. -/
def Proper : Pending → Prop
  | .idle => True
  | .within bits needed lower upper =>
    0x80 ≤ lower ∧ upper ≤ 0xBF ∧ 0x80 ≤ (bits * 64 + (lower - 0x80)) * 64 ^ needed

theorem lead_proper (b : UInt8) : Proper (lead b).2 := by
  have hb := b.toNat_lt
  unfold lead
  simp only
  repeat' split
  all_goals first | exact True.intro | exact ⟨by omega, by omega, by omega⟩

theorem proper_next {bits needed lower upper : Nat} {b : UInt8}
    (h : Proper (.within bits (needed + 1) lower upper)) (hlower : lower ≤ b.toNat) :
    Proper (.within (bits * 64 + (b.toNat - 0x80)) needed 0x80 0xBF) := by
  obtain ⟨hge, _, hbits⟩ := h
  refine ⟨le_refl _, le_refl _, ?_⟩
  calc 0x80 ≤ (bits * 64 + (lower - 0x80)) * 64 ^ (needed + 1) := hbits
    _ ≤ (bits * 64 + (b.toNat - 0x80)) * 64 ^ (needed + 1) :=
      Nat.mul_le_mul_right _ (by omega)
    _ = ((bits * 64 + (b.toNat - 0x80)) * 64 + (0x80 - 0x80)) * 64 ^ needed := by
      rw [pow_succ]
      ring

theorem step_proper {p : Pending} (b : UInt8) (h : Proper p) : Proper (step p b).2 := by
  cases p with
  | idle => exact lead_proper b
  | within bits needed lower upper =>
    simp only [step]
    split
    next hfits =>
      cases needed with
      | zero => trivial
      | succ needed => exact proper_next h hfits.1
    next => exact lead_proper b

/-- A byte that continues no sequence begins a new one. -/
theorem step_sync {p : Pending} {b : UInt8} (h : Proper p) (hb : isContinuation b = false) :
    step p b = (flush p ++ (lead b).1, (lead b).2) := by
  cases p with
  | idle => rfl
  | within bits needed lower upper =>
    obtain ⟨hlower, hupper, _⟩ := h
    simp only [isContinuation, Bool.and_eq_false_iff, decide_eq_false_iff_not] at hb
    simp only [step]
    rw [if_neg (by omega)]
    rfl

theorem decodeFrom_sync {p : Pending} (h : Proper p) (x : List UInt8) {y : List UInt8}
    (hy : ∀ b, y.head? = some b → isContinuation b = false) :
    decodeFrom p (x ++ y) = decodeFrom p x ++ decodeLossy y := by
  induction x generalizing p with
  | nil =>
    cases y with
    | nil => exact (List.append_nil _).symm
    | cons b y =>
      rw [List.nil_append, decodeFrom_cons, step_sync h (hy b rfl), List.append_assoc]
      rfl
  | cons c x ih =>
    rw [List.cons_append, decodeFrom_cons, ih (step_proper c h), ← List.append_assoc]
    rfl

theorem decodeLossy_sync (x : List UInt8) {y : List UInt8}
    (hy : ∀ b, y.head? = some b → isContinuation b = false) :
    decodeLossy (x ++ y) = decodeLossy x ++ decodeLossy y :=
  decodeFrom_sync (p := .idle) trivial x hy

theorem lead_continuation {b : UInt8} (h : isContinuation b = true) :
    lead b = ([replacement], .idle) := by
  simp only [isContinuation, Bool.and_eq_true, decide_eq_true_eq] at h
  unfold lead
  simp only
  rw [if_neg (by omega), if_neg (by omega), if_neg (by omega), if_neg (by omega),
    if_neg (by omega), if_neg (by omega), if_neg (by omega), if_neg (by omega)]

/-- What a cut inside a sequence leaves at the start of the second part. -/
theorem decodeLossy_continuation {c : List UInt8} (h : ∀ b ∈ c, isContinuation b = true) :
    decodeLossy c = List.replicate c.length replacement := by
  induction c with
  | nil => rfl
  | cons b c ih =>
    have hrest := ih fun d hd => h d (List.mem_cons.mpr (.inr hd))
    show (lead b).1 ++ decodeFrom (lead b).2 c = _
    rw [lead_continuation (h b (List.mem_cons.mpr (.inl rfl)))]
    show replacement :: decodeLossy c = _
    rw [hrest]
    rfl

/-! ## Characters and bytes -/

theorem decodeFrom_eq_nil {bs : List UInt8} : ∀ {p : Pending},
    decodeFrom p bs = [] → p = .idle ∧ bs = [] := by
  induction bs with
  | nil =>
    intro p h
    cases p with
    | idle => exact ⟨rfl, rfl⟩
    | within bits needed lower upper => cases h
  | cons b bs ih =>
    intro p h
    obtain ⟨hout, hrest⟩ := List.append_eq_nil_iff.mp h
    obtain ⟨hidle, _⟩ := ih hrest
    -- a byte that puts out nothing leaves a sequence pending
    exfalso
    cases p with
    | idle =>
      revert hout hidle
      show (lead b).1 = [] → (lead b).2 = .idle → False
      unfold lead
      simp only
      repeat' split
      all_goals simp
    | within bits needed lower upper =>
      simp only [step] at hout hidle
      split at hout
      next hfits =>
        cases needed with
        | zero => cases hout
        | succ needed =>
          rw [if_pos hfits] at hidle
          cases hidle
      next => cases hout

theorem decodeLossy_eq_nil {bs : List UInt8} (h : decodeLossy bs = []) : bs = [] :=
  (decodeFrom_eq_nil h).2

theorem toNat_char_ofNat (n : Nat) : (Char.ofNat n).toNat = n ∨ (Char.ofNat n).toNat = 0 := by
  unfold Char.ofNat
  by_cases h : n.isValidChar
  · rw [dif_pos h]
    exact .inl rfl
  · rw [dif_neg h]
    exact .inr rfl

/-- An ASCII character is put out by the byte that is it. -/
theorem step_char {p : Pending} {b : UInt8} {c : Char} (h : Proper p) (hc : c ∈ (step p b).1)
    (hpos : 0 < c.toNat) (hlt : c.toNat < 0x80) : b.toNat = c.toNat := by
  have hlead : c ∈ (lead b).1 → b.toNat = c.toNat := by
    have hreplacement : c ∈ [replacement] → b.toNat = c.toNat := by
      intro hmem
      rw [List.mem_singleton.mp hmem] at hlt
      exact absurd hlt (by decide)
    unfold lead
    simp only
    repeat' split
    next =>
      intro hmem
      have heq := List.mem_singleton.mp hmem
      rcases toNat_char_ofNat b.toNat with hn | hn
      · rw [heq, hn]
      · rw [← heq] at hn
        omega
    all_goals first | exact hreplacement | exact fun hmem => absurd hmem (List.not_mem_nil)
  cases p with
  | idle => exact hlead hc
  | within bits needed lower upper =>
    obtain ⟨hlower, _, hbits⟩ := h
    simp only [step] at hc
    split at hc
    next hfits =>
      cases needed with
      | zero =>
        rw [List.mem_singleton.mp hc] at hpos hlt
        rw [pow_zero, Nat.mul_one] at hbits
        rcases toNat_char_ofNat (bits * 64 + (b.toNat - 0x80)) with hn | hn
        · omega
        · omega
      | succ needed => cases hc
    next =>
      rcases List.mem_cons.mp hc with rfl | hc
      · exact absurd hlt (by decide)
      · exact hlead hc

theorem flush_append {p : Pending} {c : Char} (hlt : c.toNat < 0x80) {u w : Text}
    (h : flush p ++ [c] = u ++ c :: w) : flush p = u ∧ w = [] := by
  cases p with
  | idle =>
    cases u with
    | nil => exact ⟨rfl, (List.cons.inj h).2.symm⟩
    | cons d u => simp [flush] at h
  | within bits needed lower upper =>
    have hne : replacement ≠ c := by
      rintro rfl
      exact absurd hlt (by decide)
    cases u with
    | nil => exact absurd (List.cons.inj h).1 hne
    | cons d u =>
      obtain ⟨hd, hrest⟩ := List.cons.inj h
      cases u with
      | nil => exact ⟨by rw [← hd]; rfl, (List.cons.inj hrest).2.symm⟩
      | cons e u => simp at hrest

/-- An ASCII character of the text comes from a byte of its own, which cuts the text in two. -/
theorem decodeFrom_split {c : Char} (hpos : 0 < c.toNat) (hlt : c.toNat < 0x80)
    {bs : List UInt8} : ∀ {p : Pending} {u v : Text}, Proper p → decodeFrom p bs = u ++ c :: v →
      ∃ a b rest, bs = a ++ b :: rest ∧ b.toNat = c.toNat ∧ decodeFrom p a = u
        ∧ decodeLossy rest = v := by
  induction bs with
  | nil =>
    intro p u v _ h
    have hmem : c ∈ flush p := by
      show c ∈ decodeFrom p []
      rw [h]
      exact List.mem_append.mpr (.inr (List.mem_cons.mpr (.inl rfl)))
    cases p with
    | idle => cases hmem
    | within bits needed lower upper =>
      rw [List.mem_singleton.mp hmem] at hlt
      exact absurd hlt (by decide)
  | cons b bs ih =>
    intro p u v hp h
    rw [decodeFrom_cons] at h
    rcases List.append_eq_append_iff.mp h with ⟨w, hu, hrest⟩ | ⟨w, hout, hcv⟩
    · -- the character comes from a later byte
      obtain ⟨a, b', rest, hbs, hb', hdecode, hv⟩ := ih (step_proper b hp) hrest
      refine ⟨b :: a, b', rest, by rw [hbs]; rfl, hb', ?_, hv⟩
      rw [decodeFrom_cons, hdecode, hu]
    · cases w with
      | nil =>
        rw [List.append_nil] at hout
        obtain ⟨a, b', rest, hbs, hb', hdecode, hv⟩ :=
          ih (u := []) (step_proper b hp) hcv.symm
        refine ⟨b :: a, b', rest, by rw [hbs]; rfl, hb', ?_, hv⟩
        rw [decodeFrom_cons, hdecode, hout, List.append_nil]
      | cons d w =>
        -- the byte puts the character out: what was pending is flushed before it
        obtain ⟨rfl, hv⟩ := List.cons.inj hcv
        have hb := step_char hp (by rw [hout]; simp) hpos hlt
        have hascii : b.toNat < 0x80 := by omega
        have hsync : isContinuation b = false := by
          simp only [isContinuation, Bool.and_eq_false_iff, decide_eq_false_iff_not]
          omega
        have hchar : Char.ofNat b.toNat = c := by rw [hb, Char.ofNat_toNat]
        rw [step_sync hp hsync, lead_ascii hascii, hchar] at hout
        obtain ⟨hflush, hw⟩ := flush_append hlt hout
        refine ⟨[], b, bs, rfl, hb, hflush, ?_⟩
        rw [hv, hw, step_sync hp hsync, lead_ascii hascii]
        rfl

end Utf8
