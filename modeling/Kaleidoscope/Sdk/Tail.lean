import Kaleidoscope.Lib.Utf8Cut
import Kaleidoscope.Sdk.Refusal
import Kaleidoscope.Sdk.Diagnostic
import Mathlib.Data.List.TakeWhile

/-!
# The tail of a child's error output

On the MCP path both SDKs classify only the last 4096 bytes of a child's error output: Python
seeks to them in the captured file, TypeScript keeps them in a ring while the chunks arrive.

    ring_eq              the ring holds the last bytes of the output, however it was cut in chunks
    tailLaw_iff          for which outputs the tail is classified as the whole output is
-/

namespace Kaleidoscope.Sdk

open Utf8

/-! ## The tail -/

/-- The last `n` bytes. -/
def lastBytes (n : Nat) (bs : List UInt8) : List UInt8 := bs.drop (bs.length - n)

/-- `STDERR_LIMIT` of the TypeScript session. -/
def stderrLimit : Nat := 4096

/-- What a chunk does to the ring. -/
def pushStderr (ring chunk : List UInt8) : List UInt8 :=
  let next := ring ++ chunk
  next.drop (next.length - stderrLimit)

/-- `_drain_errlog_and_classify` -/
def drainErrlogAndClassify (errlog : List UInt8) : Option Text :=
  classifyRefusalPython (lastBytes maxDiagnosticBytes errlog) none

/-- What `connect` makes of the chunks of one child, from the ring as it finds it. -/
def classifyRing (ring : List UInt8) (chunks : List (List UInt8)) : Option Text :=
  classifyRefusalTypescript (chunks.foldl pushStderr ring) none

theorem lastBytes_append_lastBytes (n : Nat) (a b : List UInt8) :
    lastBytes n (lastBytes n a ++ b) = lastBytes n (a ++ b) := by
  unfold lastBytes
  by_cases hn : a.length ≤ n
  · rw [Nat.sub_eq_zero_of_le hn, List.drop_zero]
  · have hlen : (a.drop (a.length - n)).length = n := by
      rw [List.length_drop]
      omega
    rw [List.length_append, List.length_append, hlen]
    rw [show a.length + b.length - n = (a.length - n) + (n + b.length - n) by omega,
      ← List.drop_drop]
    congr 1
    rw [List.drop_append_of_le_length (by omega)]

/-- The ring holds the last bytes of the output, however it was cut in chunks. -/
theorem ring_eq (chunks : List (List UInt8)) (ring : List UInt8)
    (hring : ring.length ≤ stderrLimit) :
    chunks.foldl pushStderr ring = lastBytes stderrLimit (ring ++ chunks.flatten) := by
  have hfold : ∀ (chunks : List (List UInt8)) (bs : List UInt8),
      chunks.foldl pushStderr (lastBytes stderrLimit bs)
        = lastBytes stderrLimit (bs ++ chunks.flatten) := by
    intro chunks
    induction chunks with
    | nil =>
      intro bs
      rw [List.flatten_nil, List.append_nil, List.foldl_nil]
    | cons chunk chunks ih =>
      intro bs
      have hpush : pushStderr (lastBytes stderrLimit bs) chunk
          = lastBytes stderrLimit (bs ++ chunk) :=
        lastBytes_append_lastBytes stderrLimit bs chunk
      rw [List.foldl_cons, hpush, ih, List.flatten_cons, List.append_assoc]
  have hshort : lastBytes stderrLimit ring = ring := by
    unfold lastBytes
    rw [Nat.sub_eq_zero_of_le hring, List.drop_zero]
  rw [← hfold, hshort]

/-! ## Marker lines -/

/-- The text of a marker line before its identifier. -/
def refusalText : Text := "kscope-entitlement-refusal: ".toList

/-- `[A-Z][A-Z0-9_]{2,39}` -/
structure IsIdentifier (id : Text) : Prop where
  upper : id.head?.any isUppercase = true
  chars : ∀ c ∈ id, isIdentifierChar c = true
  atLeast : 3 ≤ id.length
  atMost : id.length ≤ 40

section

variable (p : Char → Bool)

/-- The text that comes before ends with a line end, if it is there at all. -/
def startsLine (before : Text) : Bool := before.getLast?.all p

/-- A refusal marker as a whole line of the output: `a` are the bytes before it, `b` the bytes from
its first one on. -/
structure MarkerLine (e a b : List UInt8) (id : Text) : Prop where
  split : e = a ++ b
  starts : startsLine p (decodeLossy a) = true
  identifier : IsIdentifier id
  text : ∃ after : Text, decodeLossy b = refusalText ++ id ++ after ∧ after.head?.all p = true

/-- The last marker line of the output. -/
structure LastMarkerLine (e a b : List UInt8) (id : Text) : Prop where
  line : MarkerLine p e a b id
  last : ∀ a' b' id', MarkerLine p e a' b' id' → a'.length ≤ a.length

/-- `classify` on the MCP path, where no exit code is known. -/
def classify (stderr : List UInt8) : Option Text := verdict (lastMarker p stderr) none

/-- What is reported for the output by its tail is sound and complete. -/
structure TailLaw (reported : Option Text) (e : List UInt8) : Prop where
  sound : ∀ reason, reported = some reason → ∃ a b id, MarkerLine p e a b id
  complete : ∀ a b id, LastMarkerLine p e a b id → b.length ≤ maxDiagnosticBytes →
    reported = classify p e

/-- The bytes before the tail. -/
def cutBytes (e : List UInt8) : List UInt8 := e.take (e.length - maxDiagnosticBytes)

/-- The tail begins in the middle of a line, with text that reads as a marker line, and there is
no marker line in the output. -/
structure Imitates (e : List UInt8) : Prop where
  begins : markerAt p (decodeLossy (lastBytes maxDiagnosticBytes e)) ≠ none
  inside : startsLine p (decodeLossy (cutBytes e)) = false
  absent : ∀ a b id, ¬MarkerLine p e a b id

/-- The cut goes through the character that ends the line before the last marker line. -/
structure Severed (e : List UInt8) : Prop where
  line : ∃ c b a id, lastBytes maxDiagnosticBytes e = c ++ b ∧ c ≠ []
    ∧ (∀ d ∈ c, isContinuation d = true) ∧ LastMarkerLine p e a b id

end

/-! ## Markers of a text in two parts -/

/-- What the proofs use of a reading of line ends. -/
structure LineEnds (p : Char → Bool) : Prop where
  replacement : p replacement = false
  identifier : ∀ c, p c = true → isIdentifierChar c = false

variable {p : Char → Bool}

theorem markerAt_of_ne {c : Char} {t : Text} (hc : c ≠ 'k') : markerAt p (c :: t) = none := by
  unfold markerAt
  rw [show "kscope-entitlement-refusal: ".toList = 'k' :: "scope-entitlement-refusal: ".toList
    from by decide +kernel, Text.stripPrefix, if_neg (Ne.symm hc)]

theorem markerAt_nil : markerAt p [] = none := by
  unfold markerAt
  rw [show "kscope-entitlement-refusal: ".toList = 'k' :: "scope-entitlement-refusal: ".toList
    from by decide +kernel, Text.stripPrefix]

theorem markers_true (t : Text) :
    markers p true t = (markerAt p t).toList ++ markers p false t := by
  cases t with
  | nil =>
    rw [markerAt_nil]
    rfl
  | cons c t => rfl

theorem markers_append (u t : Text) : ∀ lineStart : Bool,
    ∃ found, markers p lineStart (u ++ t)
      = found ++ markers p (u.getLast?.elim lineStart p) t := by
  induction u with
  | nil =>
    intro lineStart
    exact ⟨[], rfl⟩
  | cons c u ih =>
    intro lineStart
    obtain ⟨found, hfound⟩ := ih (p c)
    refine ⟨(if lineStart then markerAt p (c :: (u ++ t)) else none).toList ++ found, ?_⟩
    have hlast : (c :: u).getLast?.elim lineStart p = u.getLast?.elim (p c) p := by
      cases u with
      | nil => rfl
      | cons d u => rw [List.getLast?_cons_cons, List.getLast?_eq_some_getLast (by simp)]; rfl
    rw [hlast, List.append_assoc, ← hfound]
    rfl

theorem startsLine_eq (u : Text) : u.getLast?.elim true p = startsLine p u := by
  unfold startsLine
  cases u.getLast? <;> rfl

/-- No marker begins in what a cut character leaves behind. -/
theorem markers_replacement (hp : LineEnds p) {n : Nat} (hn : n ≠ 0) (t : Text) :
    ∀ lineStart : Bool, markers p lineStart (List.replicate n replacement ++ t)
      = markers p false t := by
  induction n with
  | zero => exact absurd rfl hn
  | succ n ih =>
    intro lineStart
    have hnone : markerAt p (replacement :: (List.replicate n replacement ++ t)) = none :=
      markerAt_of_ne (by decide)
    have hstep : markers p lineStart (replacement :: (List.replicate n replacement ++ t))
        = markers p false (List.replicate n replacement ++ t) := by
      show (if lineStart = true then markerAt p _ else none).toList ++ markers p (p replacement) _
        = _
      rw [hnone, hp.replacement]
      cases lineStart <;> rfl
    rw [List.replicate_succ, List.cons_append, hstep]
    by_cases hzero : n = 0
    · rw [hzero]
      rfl
    · exact ih hzero false

theorem takeWhile_after (hp : LineEnds p) {after : Text} (h : after.head?.all p = true) :
    after.takeWhile isIdentifierChar = [] := by
  cases after with
  | nil => rfl
  | cons c after => rw [List.takeWhile_cons_of_neg (by simp [hp.identifier c h])]

/-- A marker at the start of a text. -/
theorem markerAt_eq_some (hp : LineEnds p) {t id : Text} :
    markerAt p t = some id ↔ IsIdentifier id
      ∧ ∃ after : Text, t = refusalText ++ id ++ after ∧ after.head?.all p = true := by
  unfold markerAt
  constructor
  · intro h
    cases hrest : Text.stripPrefix "kscope-entitlement-refusal: ".toList t with
    | none =>
      rw [hrest] at h
      cases h
    | some rest =>
      rw [hrest] at h
      simp only [Option.ite_none_right_eq_some, Bool.and_eq_true, decide_eq_true_eq,
        Option.some.injEq] at h
      obtain ⟨⟨⟨⟨hupper, hatLeast⟩, hatMost⟩, hafter⟩, rfl⟩ := h
      refine ⟨⟨hupper, fun c hc => (List.mem_takeWhile_imp hc), hatLeast, hatMost⟩,
        rest.dropWhile isIdentifierChar, ?_, hafter⟩
      rw [Text.stripPrefix_eq_some.mp hrest, List.append_assoc, List.takeWhile_append_dropWhile]
      rfl
  · rintro ⟨hid, after, rfl, hafter⟩
    have htake : (id ++ after).takeWhile isIdentifierChar = id := by
      rw [List.takeWhile_append_of_pos hid.chars, takeWhile_after hp hafter, List.append_nil]
    have hdrop : (id ++ after).dropWhile isIdentifierChar = after := by
      rw [List.dropWhile_append_of_pos hid.chars]
      cases after with
      | nil => rfl
      | cons c after => rw [List.dropWhile_cons_of_neg (by simp [hp.identifier c hafter])]
    rw [List.append_assoc, show "kscope-entitlement-refusal: ".toList = refusalText from rfl,
      Text.stripPrefix_append]
    simp only [htake, hdrop]
    rw [if_pos (by simp [hid.upper, hid.atLeast, hid.atMost, hafter])]

/-- A marker found in a text begins a line of it. -/
theorem exists_of_mem_markers {id : Text} (t : Text) : ∀ {lineStart : Bool},
    id ∈ markers p lineStart t →
    ∃ u v, t = u ++ v ∧ u.getLast?.elim lineStart p = true ∧ markerAt p v = some id := by
  induction t with
  | nil =>
    intro lineStart h
    cases h
  | cons c t ih =>
    intro lineStart h
    rcases List.mem_append.mp h with h | h
    · cases lineStart with
      | false => cases h
      | true => exact ⟨[], c :: t, rfl, rfl, Option.mem_toList.mp h⟩
    · obtain ⟨u, v, rfl, hline, hmarker⟩ := ih h
      refine ⟨c :: u, v, rfl, ?_, hmarker⟩
      cases u with
      | nil => exact hline
      | cons d u =>
        rw [List.getLast?_cons_cons]
        rw [List.getLast?_eq_some_getLast (by simp)] at hline ⊢
        exact hline

/-! ## Marker lines and bytes -/

/-- A marker begins with a byte that continues no sequence. -/
theorem markerByte (hp : LineEnds p) {bs : List UInt8} {id : Text}
    (h : markerAt p (decodeLossy bs) = some id) :
    ∀ b, bs.head? = some b → isContinuation b = false := by
  obtain ⟨_, after, htext, _⟩ := (markerAt_eq_some hp).mp h
  have hk : decodeLossy bs = [] ++ 'k' :: ("scope-entitlement-refusal: ".toList ++ id ++ after) := by
    rw [htext]
    rfl
  obtain ⟨a, k, rest, rfl, hbyte, hnil, _⟩ :=
    decodeFrom_split (c := 'k') (p := .idle) (by decide) (by decide) trivial hk
  rw [decodeLossy_eq_nil hnil]
  intro b hb
  cases hb
  simp only [isContinuation, Bool.and_eq_false_iff, decide_eq_false_iff_not]
  left
  rw [hbyte]
  decide

theorem MarkerLine.marker (hp : LineEnds p) {e a b : List UInt8} {id : Text}
    (h : MarkerLine p e a b id) : markerAt p (decodeLossy b) = some id :=
  (markerAt_eq_some hp).mpr ⟨h.identifier, h.text⟩

theorem markerLine_of_markerAt (hp : LineEnds p) {a b : List UInt8} {id : Text}
    (hstarts : startsLine p (decodeLossy a) = true) (h : markerAt p (decodeLossy b) = some id) :
    MarkerLine p (a ++ b) a b id :=
  ⟨rfl, hstarts, ((markerAt_eq_some hp).mp h).1, ((markerAt_eq_some hp).mp h).2⟩

/-- The bytes of a marker that is found in the decoded text. -/
theorem exists_bytes_of_mem (hp : LineEnds p) {bs : List UInt8} {lineStart : Bool} {id : Text}
    (h : id ∈ markers p lineStart (decodeLossy bs)) :
    ∃ a b, bs = a ++ b ∧ (decodeLossy a).getLast?.elim lineStart p = true
      ∧ markerAt p (decodeLossy b) = some id := by
  obtain ⟨u, v, huv, hline, hmarker⟩ := exists_of_mem_markers _ h
  obtain ⟨_, after, htext, _⟩ := (markerAt_eq_some hp).mp hmarker
  have hk : decodeLossy bs = u ++ 'k' :: ("scope-entitlement-refusal: ".toList ++ id ++ after) := by
    rw [huv, htext]
    rfl
  obtain ⟨a, k, rest, rfl, hbyte, hu, hrest⟩ :=
    decodeFrom_split (c := 'k') (p := .idle) (by decide) (by decide) trivial hk
  refine ⟨a, k :: rest, rfl, ?_, ?_⟩
  · rw [show decodeLossy a = u from hu]
    exact hline
  · have hascii : k.toNat < 0x80 := by
      rw [hbyte]
      decide
    have hkey : Char.ofNat k.toNat = 'k' := by
      rw [hbyte]
      decide
    have hdecode : decodeLossy (k :: rest) = 'k' :: decodeLossy rest := by
      have := decodeLossy_append [] hascii rest
      rw [hkey] at this
      exact this
    rw [hdecode, hrest, ← hmarker, htext]
    rfl

/-- What comes before does not change how an output ends, from its first byte on that begins a
sequence. -/
theorem getLast?_decode (w : List UInt8) {x : List UInt8}
    (h : ∃ d ∈ x, isContinuation d = false) :
    (decodeLossy (w ++ x)).getLast? = (decodeLossy x).getLast? := by
  have hsplit : x = x.takeWhile isContinuation ++ x.dropWhile isContinuation :=
    List.takeWhile_append_dropWhile.symm
  have hhead : ∀ b, (x.dropWhile isContinuation).head? = some b → isContinuation b = false := by
    intro b hb
    have := List.head?_dropWhile_not isContinuation x
    rw [hb] at this
    simpa using this
  have hne : x.dropWhile isContinuation ≠ [] := by
    intro hnil
    obtain ⟨d, hd, hother⟩ := h
    have := List.dropWhile_eq_nil_iff.mp hnil d hd
    rw [hother] at this
    cases this
  generalize x.takeWhile isContinuation = cont at hsplit
  generalize x.dropWhile isContinuation = rest at hsplit hhead hne
  subst hsplit
  have hrest : decodeLossy rest ≠ [] := fun hnil => hne (decodeLossy_eq_nil hnil)
  rw [← List.append_assoc, decodeLossy_sync (w ++ cont) hhead, decodeLossy_sync cont hhead,
    List.getLast?_append_of_ne_nil _ hrest, List.getLast?_append_of_ne_nil _ hrest]

theorem exists_of_getLast? {x : List UInt8} {c : Char} (hc : (decodeLossy x).getLast? = some c)
    (hne : c ≠ replacement) : ∃ d ∈ x, isContinuation d = false := by
  by_contra hnone
  have hall : ∀ d ∈ x, isContinuation d = true := fun d hd => by
    by_contra hd'
    exact hnone ⟨d, hd, by simpa using hd'⟩
  rw [decodeLossy_continuation hall] at hc
  exact hne (List.eq_of_mem_replicate (List.mem_of_getLast? hc))

/-- The markers of an output that is cut before a marker. -/
theorem markers_decode (hp : LineEnds p) {a b : List UInt8} {id : Text}
    (hb : markerAt p (decodeLossy b) = some id) :
    ∃ found, markers p true (decodeLossy (a ++ b))
      = found ++ markers p (startsLine p (decodeLossy a)) (decodeLossy b) := by
  rw [decodeLossy_sync a (markerByte hp hb), ← startsLine_eq]
  exact markers_append _ _ true

theorem startsLine_of_last {u : Text} {c : Char} (h : u.getLast? = some c) :
    startsLine p u = p c := by
  unfold startsLine
  rw [h]
  rfl

/-- A marker after the first character of a text is a later marker line of the output. -/
theorem exists_later (hp : LineEnds p) {a b : List UInt8} {id id' : Text}
    (hb : markerAt p (decodeLossy b) = some id) (h : id' ∈ markers p false (decodeLossy b)) :
    ∃ a' b', MarkerLine p (a ++ b) a' b' id' ∧ a.length < a'.length := by
  obtain ⟨x, y, rfl, hline, hmarker⟩ := exists_bytes_of_mem hp h
  have hx : x ≠ [] := by
    rintro rfl
    cases hline
  have hhead : ∀ d, x.head? = some d → isContinuation d = false := by
    intro d hd
    refine markerByte hp hb d ?_
    cases x with
    | nil => exact absurd rfl hx
    | cons c x => exact hd
  have hstarts : startsLine p (decodeLossy (a ++ x)) = true := by
    rw [decodeLossy_sync a hhead]
    have hne : decodeLossy x ≠ [] := fun hnil => hx (decodeLossy_eq_nil hnil)
    obtain ⟨c, hc⟩ := Option.ne_none_iff_exists'.mp (mt List.getLast?_eq_none_iff.mp hne)
    rw [hc] at hline
    rw [startsLine_of_last (by rw [List.getLast?_append_of_ne_nil _ hne, hc])]
    exact hline
  refine ⟨a ++ x, y, ?_, ?_⟩
  · rw [← List.append_assoc]
    exact markerLine_of_markerAt hp hstarts hmarker
  · have := List.length_pos_iff.mpr hx
    rw [List.length_append]
    omega

/-- No marker comes after the last marker line. -/
theorem LastMarkerLine.no_later (hp : LineEnds p) {e a b : List UInt8} {id : Text}
    (h : LastMarkerLine p e a b id) : markers p false (decodeLossy b) = [] := by
  refine List.eq_nil_iff_forall_not_mem.mpr fun id' hmem => ?_
  obtain ⟨a', b', hline, hlt⟩ := exists_later (a := a) hp (h.line.marker hp) hmem
  rw [← h.line.split] at hline
  have := h.last a' b' id' hline
  omega

/-- The last marker of an output whose last marker line is known. -/
theorem LastMarkerLine.lastMarker (hp : LineEnds p) {e a b : List UInt8} {id : Text}
    (h : LastMarkerLine p e a b id) : lastMarker p e = some id := by
  unfold Sdk.lastMarker
  obtain ⟨found, hfound⟩ := markers_decode (a := a) hp (h.line.marker hp)
  rw [h.line.split, hfound, h.line.starts, markers_true, h.no_later hp, h.line.marker hp]
  simp

theorem classify_ne_none {last : Option Text} : verdict last none ≠ none ↔ last ≠ none := by
  cases last with
  | none => simp [verdict]
  | some id =>
    show (if id ∈ refusalIdentifiers then some id else some unknownRefusal) ≠ none ↔ _
    split <;> simp

/-! ## The tail and the whole output -/

theorem cut_append (e : List UInt8) : e = cutBytes e ++ lastBytes maxDiagnosticBytes e :=
  (List.take_append_drop _ e).symm

theorem exists_between {α : Type} {a b x y : List α} (h : a ++ b = x ++ y)
    (hlen : b.length ≤ y.length) : ∃ w, y = w ++ b ∧ a = x ++ w := by
  rcases List.append_eq_append_iff.mp h with ⟨w, hx, hb⟩ | ⟨w, ha, hy⟩
  · rw [hb, List.length_append] at hlen
    have hnil : w = [] := List.length_eq_zero_iff.mp (by omega)
    rw [hnil, List.append_nil] at hx
    rw [hnil, List.nil_append] at hb
    exact ⟨[], hb.symm, by rw [hx, List.append_nil]⟩
  · exact ⟨w, hy, ha⟩

/-- A part at the end of the output that is not longer than the tail lies in the tail. -/
theorem tail_of_append {e a b : List UInt8} (h : e = a ++ b)
    (hlen : b.length ≤ maxDiagnosticBytes) :
    ∃ w, lastBytes maxDiagnosticBytes e = w ++ b ∧ a = cutBytes e ++ w := by
  refine exists_between (h.symm.trans (cut_append e)) ?_
  have hle : b.length ≤ e.length := by
    rw [h, List.length_append]
    omega
  unfold lastBytes
  rw [List.length_drop]
  omega

theorem tail_sound (hp : LineEnds p) {e : List UInt8} {id : Text}
    (h : id ∈ markers p true (decodeLossy (lastBytes maxDiagnosticBytes e)))
    (hnot : ¬Imitates p e) : ∃ a b id, MarkerLine p e a b id := by
  by_contra habsent
  obtain ⟨x, y, hxy, hline, hmarker⟩ := exists_bytes_of_mem hp h
  have hstarts : startsLine p (decodeLossy (cutBytes e ++ x)) = false := by
    by_contra hstarts
    have hmade := markerLine_of_markerAt hp (by simpa using hstarts) hmarker
    rw [List.append_assoc, ← hxy, ← cut_append] at hmade
    exact habsent ⟨_, _, _, hmade⟩
  by_cases hx : x = []
  · -- the tail itself begins with the marker
    refine hnot ⟨?_, ?_, fun a b id hline => habsent ⟨a, b, id, hline⟩⟩
    · rw [hxy, hx, List.nil_append, hmarker]
      simp
    · rw [hx, List.append_nil] at hstarts
      exact hstarts
  · -- the line end before the marker is in the output as it is in the tail
    have hne : decodeLossy x ≠ [] := fun hnil => hx (decodeLossy_eq_nil hnil)
    obtain ⟨c, hc⟩ := Option.ne_none_iff_exists'.mp (mt List.getLast?_eq_none_iff.mp hne)
    rw [hc] at hline
    have hend : p c = true := hline
    have hreplacement : c ≠ replacement := by
      rintro rfl
      rw [hp.replacement] at hend
      cases hend
    rw [← getLast?_decode (cutBytes e) (exists_of_getLast? hc hreplacement)] at hc
    rw [startsLine_of_last hc, hend] at hstarts
    cases hstarts

theorem tail_complete (hp : LineEnds p) {e a b : List UInt8} {id : Text}
    (h : LastMarkerLine p e a b id) (hlen : b.length ≤ maxDiagnosticBytes)
    (hnot : ¬Severed p e) : lastMarker p (lastBytes maxDiagnosticBytes e) = some id := by
  obtain ⟨w, htail, ha⟩ := tail_of_append h.line.split hlen
  have hmarker := h.line.marker hp
  obtain ⟨found, hfound⟩ := markers_decode (a := w) hp hmarker
  have hw : startsLine p (decodeLossy w) = true := by
    by_contra hw
    have hne : decodeLossy w ≠ [] := by
      intro hnil
      rw [hnil] at hw
      exact hw rfl
    obtain ⟨c, hc⟩ := Option.ne_none_iff_exists'.mp (mt List.getLast?_eq_none_iff.mp hne)
    rw [startsLine_of_last hc] at hw
    -- only bytes of a cut character can hide the line end
    have hall : ∀ d ∈ w, isContinuation d = true := by
      intro d hd
      by_contra hother
      rw [← getLast?_decode (cutBytes e) ⟨d, hd, by simpa using hother⟩, ← ha] at hc
      exact hw ((startsLine_of_last hc).symm.trans h.line.starts)
    refine hnot ⟨w, b, a, id, htail, ?_, hall, h⟩
    rintro rfl
    exact hne rfl
  unfold Sdk.lastMarker
  rw [htail, hfound, hw, markers_true, h.no_later hp, hmarker]
  simp

/-- The tail is classified as the whole output is, unless it begins in the middle of a line that
then reads as the only marker, or in the middle of the character that ends the line before the
last marker line. -/
theorem tailLaw_iff (hp : LineEnds p) (e : List UInt8) :
    TailLaw p (classify p (lastBytes maxDiagnosticBytes e)) e ↔ ¬Imitates p e ∧ ¬Severed p e := by
  constructor
  · intro hlaw
    refine ⟨fun himitates => ?_, ?_⟩
    · have hmarkers : lastMarker p (lastBytes maxDiagnosticBytes e) ≠ none := by
        unfold Sdk.lastMarker
        rw [markers_true]
        obtain ⟨id, hid⟩ := Option.ne_none_iff_exists'.mp himitates.begins
        rw [hid]
        simp
      obtain ⟨reason, hreason⟩ :=
        Option.ne_none_iff_exists'.mp (classify_ne_none.mpr hmarkers)
      obtain ⟨a, b, id, hline⟩ := hlaw.sound reason hreason
      exact himitates.absent a b id hline
    · rintro ⟨c, b, a, id, htail, hne, hcont, hlast⟩
      have hlen : b.length ≤ maxDiagnosticBytes := by
        have := congrArg List.length htail
        unfold lastBytes at this
        rw [List.length_drop, List.length_append] at this
        omega
      have hcomplete := hlaw.complete a b id hlast hlen
      -- the marker follows the remains of a character, not a line end
      have hnone : lastMarker p (lastBytes maxDiagnosticBytes e) = none := by
        unfold Sdk.lastMarker
        rw [htail, decodeLossy_sync c (markerByte hp (hlast.line.marker hp)),
          decodeLossy_continuation hcont,
          markers_replacement hp (mt List.length_eq_zero_iff.mp hne), hlast.no_later hp]
        rfl
      unfold classify at hcomplete
      rw [hnone, hlast.lastMarker hp] at hcomplete
      exact absurd hcomplete.symm (classify_ne_none.mpr (by simp))
  · rintro ⟨himitates, hsevered⟩
    refine ⟨fun reason hreason => ?_, fun a b id hlast hlen => ?_⟩
    · have hmarkers := classify_ne_none.mp (by
        rw [show verdict _ none = _ from hreason]
        simp)
      obtain ⟨id, hid⟩ := Option.ne_none_iff_exists'.mp hmarkers
      exact tail_sound hp (List.mem_of_getLast? hid) himitates
    · unfold classify
      rw [tail_complete hp hlast hlen hsevered, hlast.lastMarker hp]

/-! ## The two SDKs -/

theorem python_lineEnds : LineEnds endsLinePython where
  replacement := by decide
  identifier c h := by
    rw [show c = '\n' from eq_of_beq h]
    decide

theorem typescript_lineEnds : LineEnds endsLineTypescript where
  replacement := by decide
  identifier c h := by
    simp only [endsLineTypescript, Bool.or_eq_true, beq_iff_eq] at h
    rcases h with ((rfl | rfl) | rfl) | rfl <;> decide

/-- A line feed is a byte of its own: no cut goes through it. -/
theorem not_severed_python (e : List UInt8) : ¬Severed endsLinePython e := by
  rintro ⟨c, b, a, id, htail, hne, hcont, hlast⟩
  have hsplit : cutBytes e ++ c = a := by
    have hcut := cut_append e
    rw [htail, ← List.append_assoc] at hcut
    exact List.append_cancel_right (hcut.symm.trans hlast.line.split)
  have hstarts := hlast.line.starts
  have hnonempty : decodeLossy a ≠ [] := by
    intro hnil
    rw [← hsplit] at hnil
    exact hne (List.append_eq_nil_iff.mp (decodeLossy_eq_nil hnil)).2
  obtain ⟨d, hd⟩ := Option.ne_none_iff_exists'.mp (mt List.getLast?_eq_none_iff.mp hnonempty)
  rw [startsLine_of_last hd] at hstarts
  have hfeed : d = '\n' := eq_of_beq hstarts
  subst hfeed
  obtain ⟨u, hu⟩ := List.getLast?_eq_some_iff.mp hd
  obtain ⟨x, k, rest, hx, hbyte, _, hrest⟩ :=
    decodeFrom_split (p := .idle) (by decide) (by decide) trivial hu
  rw [decodeLossy_eq_nil hrest, ← hsplit] at hx
  -- the last byte of the cut part would be the line feed
  have hlastByte : (cutBytes e ++ c).getLast? = some k := by
    rw [hx]
    exact List.getLast?_concat
  rw [List.getLast?_append_of_ne_nil _ hne] at hlastByte
  have := hcont k (List.mem_of_getLast? hlastByte)
  simp only [isContinuation, Bool.and_eq_true, decide_eq_true_eq] at this
  rw [hbyte] at this
  exact absurd this.1 (by decide)

/-- When the tail of the output stands for the output: in Python unless it imitates a marker line,
in TypeScript, whose ring holds the same bytes for every chunking, also unless the cut severs a
line separator. -/
theorem tail_classification (errlog : List UInt8) (chunks : List (List UInt8)) :
    (TailLaw endsLinePython (drainErrlogAndClassify errlog) errlog
        ↔ ¬Imitates endsLinePython errlog)
      ∧ chunks.foldl pushStderr [] = lastBytes stderrLimit chunks.flatten
      ∧ (TailLaw endsLineTypescript (classifyRing [] chunks) chunks.flatten
        ↔ ¬Imitates endsLineTypescript chunks.flatten
          ∧ ¬Severed endsLineTypescript chunks.flatten) := by
  have hring : chunks.foldl pushStderr [] = lastBytes stderrLimit chunks.flatten :=
    ring_eq chunks [] (Nat.zero_le _)
  refine ⟨?_, hring, ?_⟩
  · have hiff := tailLaw_iff python_lineEnds errlog
    rw [and_iff_left (not_severed_python errlog)] at hiff
    exact hiff
  · unfold classifyRing
    rw [hring]
    exact tailLaw_iff typescript_lineEnds chunks.flatten

/-- One line, whose end from the second byte on reads as a marker line, and then dots: the tail
begins at the second byte. -/
def midLine : List UInt8 :=
  asciiOctets "xkscope-entitlement-refusal: E_NO_KEY\n".toList ++ List.replicate 4059 46

theorem midLine_refused : ¬TailLaw endsLinePython (drainErrlogAndClassify midLine) midLine
    ∧ ¬TailLaw endsLineTypescript (classifyRing [] [midLine]) midLine := by
  have hpython : drainErrlogAndClassify midLine = some "E_NO_KEY".toList := by
    decide +kernel
  have htypescript : classifyRing [] [midLine] = some "E_NO_KEY".toList := by
    decide +kernel
  have hnone : ∀ p, LineEnds p → lastMarker p midLine = none → ∀ reported, reported ≠ none →
      ¬TailLaw p reported midLine := by
    intro p hp hmarker reported hreported hlaw
    obtain ⟨reason, hreason⟩ := Option.ne_none_iff_exists'.mp hreported
    obtain ⟨a, b, id, hline⟩ := hlaw.sound reason hreason
    obtain ⟨found, hfound⟩ := markers_decode (a := a) hp (hline.marker hp)
    unfold lastMarker at hmarker
    rw [hline.split, hfound, hline.starts, markers_true, hline.marker hp] at hmarker
    simp at hmarker
  refine ⟨hnone _ python_lineEnds (by decide +kernel) _ ?_,
    hnone _ typescript_lineEnds (by decide +kernel) _ ?_⟩
  · rw [hpython]
    simp
  · rw [htypescript]
    simp

end Kaleidoscope.Sdk
