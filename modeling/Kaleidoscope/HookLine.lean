import Kaleidoscope.SessionStart

/-!
# The contract of the hook's line

The line is within its budget, is one line of JSON, and its context begins with the summary.

    byteLen_wrapHookLine   what a context costs on the line
    fromStr_wrapHookLine   the line is read back
    carries_clipContext    when a shortened context still begins with the summary
    session_line_iff       when the line keeps to the contract
-/

namespace Kaleidoscope.SessionStart

open JsonWriter (display fromStr escape quote write compact)

/-! ## Shortening -/

theorem floorPrefix_isStart (n : Nat) (t : Text) : floorPrefix n t <+: t := by
  induction t generalizing n with
  | nil => exact List.prefix_refl []
  | cons c t ih =>
    rw [floorPrefix]
    split
    · exact (List.prefix_cons_inj c).mpr (ih _)
    · exact List.nil_prefix

theorem byteLen_floorPrefix (n : Nat) (t : Text) : Text.byteLen (floorPrefix n t) ≤ n := by
  induction t generalizing n with
  | nil => exact Nat.zero_le n
  | cons c t ih =>
    rw [floorPrefix]
    split
    · have := ih (n - c.utf8Size)
      rw [Text.byteLen_cons]
      omega
    · exact Nat.zero_le n

/-- The start that is kept is the longest one. -/
theorem prefix_floorPrefix {n : Nat} {p t : Text} (h : p <+: t) (hn : Text.byteLen p ≤ n) :
    p <+: floorPrefix n t := by
  induction t generalizing n p with
  | nil => exact h
  | cons c t ih =>
    cases p with
    | nil => exact List.nil_prefix
    | cons d p =>
      obtain ⟨rfl, hp⟩ := List.cons_prefix_cons.mp h
      rw [Text.byteLen_cons] at hn
      rw [floorPrefix, if_pos (by omega)]
      apply (List.prefix_cons_inj d).mpr
      exact ih hp (by omega)

theorem clipContext_of_le {t : Text} (h : Text.byteLen t ≤ maxContextBytes) :
    clipContext t = t := by
  unfold clipContext clip
  rw [if_pos h]

theorem clipContext_of_lt {t : Text} (h : maxContextBytes < Text.byteLen t) :
    clipContext t = floorPrefix (maxContextBytes - 3) t ++ ['…'] := by
  unfold clipContext clip
  rw [if_neg (by omega), if_pos (by decide)]

/-! ## The size of the line -/

/-- The bytes of a text between the quotes of a JSON string. -/
def escapedLen (t : Text) : Nat := Text.byteLen (t.flatMap escape)

/-- Whether the line with the context is within its budget: 78 bytes stand around the context. -/
def Fits (context : Text) : Prop := 78 + escapedLen context ≤ maxHookOutputBytes

instance (context : Text) : Decidable (Fits context) :=
  inferInstanceAs (Decidable (_ ≤ _))

theorem length_quote (t : Text) : (quote t).length = escapedLen t + 2 := by
  unfold quote
  rw [List.length_cons, List.length_append, Utf8.length_encode]
  rfl

theorem write_hookOutput (context : Text) :
    write compact (hookOutput context)
      = 0x7B :: (quote "hookSpecificOutput".toList ++ 0x3A :: 0x7B ::
          (quote "hookEventName".toList ++ 0x3A :: (quote Hooks.event ++ 0x2C ::
            (quote "additionalContext".toList ++ 0x3A :: (quote context ++ [0x7D, 0x7D]))))) := by
  unfold hookOutput
  simp [JsonWriter.write_object, JsonWriter.membersText_cons, JsonWriter.write_string]

theorem byteLen_wrapHookLine (context : Text) :
    Text.byteLen (wrapHookLine context) = 78 + escapedLen context := by
  have hkeys : escapedLen "hookSpecificOutput".toList = 18
      ∧ escapedLen "hookEventName".toList = 13
      ∧ escapedLen Hooks.event = 12 ∧ escapedLen "additionalContext".toList = 17 := by
    decide
  obtain ⟨houter, hname, hevent, hkey⟩ := hkeys
  unfold wrapHookLine
  rw [← Utf8.length_encode, JsonWriter.encode_display, write_hookOutput]
  simp only [List.length_cons, List.length_append, length_quote, houter, hname, hevent, hkey,
    List.length_nil]
  omega

/-! ## Reading the line -/

/-- What the reader tells apart, within a number of levels. -/
structure Plain (limit : Nat) (v : Value) : Prop where
  distinct : v.Distinct
  within : v.Within limit
  floatFree : v.FloatFree

namespace Plain

variable {n : Nat}

theorem null : Plain n .null := ⟨.null, .null, .null⟩

theorem bool (b : Bool) : Plain n (.bool b) := ⟨.bool b, .bool b, .bool b⟩

theorem string (s : Text) : Plain n (.string s) := ⟨.string s, .string s, .string s⟩

theorem number {k : Nat} (h : k < 2 ^ 64) : Plain n (numberOf k) :=
  ⟨.number _, .number (decide_eq_true h), .posInt k⟩

theorem elapsed (k : UInt64) : Plain n (numberOf k.toNat) := number k.toNat_lt

theorem nullable (text : Option Text) : Plain n (SessionStart.nullable text) := by
  cases text with
  | none => exact null
  | some s => exact string s

theorem array {items : List Value} (h : ∀ v ∈ items, Plain n v) : Plain (n + 1) (.array items) :=
  ⟨.array fun v hv => (h v hv).distinct, .array fun v hv => (h v hv).within,
    .array fun v hv => (h v hv).floatFree⟩

theorem object {members : Members} (hkeys : (members.map Prod.fst).Nodup)
    (h : ∀ m ∈ members, Plain n m.2) : Plain (n + 1) (.object members) :=
  ⟨.object hkeys fun m hm => (h m hm).distinct, .object fun m hm => (h m hm).within,
    .object fun m hm => (h m hm).floatFree⟩

theorem fromStr {v : Value} (h : Plain n v) (hn : n ≤ recursionLimit) :
    fromStr (Utf8.encode (display v)) = some v :=
  JsonWriter.fromStr_display h.distinct (h.within.mono hn) h.floatFree

end Plain

/-- The context of a line. -/
def additionalContext (line : Value) : Option Text :=
  ((line.get "hookSpecificOutput".toList).bind (Value.get "additionalContext".toList)).bind
    Value.asStr

theorem plain_hookOutput (context : Text) : Plain 2 (hookOutput context) := by
  unfold hookOutput
  refine .object (by simp) fun m hm => ?_
  rw [List.mem_singleton] at hm
  subst hm
  refine .object (by simp only [List.map_cons, List.map_nil]; decide) ?_
  simp only [List.forall_mem_cons]
  exact ⟨.string _, .string _, nofun⟩

theorem fromStr_wrapHookLine (context : Text) :
    fromStr (Utf8.encode (wrapHookLine context)) = some (hookOutput context) :=
  (plain_hookOutput context).fromStr (by decide)

theorem additionalContext_hookOutput (context : Text) :
    additionalContext (hookOutput context) = some context := rfl

/-! ## Reading the summary -/

/-- An outcome with its detail. -/
theorem plain_detail (outcome detail : Text) :
    Plain 2 (.object [(outcomeKey, .string outcome), (detailKey, .string detail)]) := by
  refine .object (by simp only [List.map_cons, List.map_nil]; decide) ?_
  simp only [List.forall_mem_cons]
  exact ⟨.string _, .string _, nofun⟩

theorem plain_probeValue (probe : Probe) : Plain 2 (probeValue probe) := by
  cases probe with
  | unregistered =>
    refine .object (by simp) ?_
    simp only [List.forall_mem_cons]
    exact ⟨.string _, nofun⟩
  | unusable detail => exact plain_detail _ detail
  | noAnswer detail => exact plain_detail _ detail
  | answered protocol server tools contract elapsed =>
    refine .object (by simp only [List.map_cons, List.map_nil]; decide) ?_
    simp only [List.forall_mem_cons]
    refine ⟨.string _, .nullable _, .nullable _, .array fun v hv => ?_, .bool _, .elapsed _, nofun⟩
    obtain ⟨tool, -, rfl⟩ := List.mem_map.mp hv
    exact .string tool

/-- Each line of the memories is paid for with one byte at least. -/
theorem length_le_spentBy (entries : List Text) : entries.length ≤ spentBy entries := by
  induction entries with
  | nil => exact Nat.zero_le _
  | cons entry entries ih =>
    simp only [spentBy, List.map_cons, List.sum_cons, List.length_cons] at ih ⊢
    omega

theorem length_entries (rendered : Rendered) : rendered.entries.length ≤ maxMemorySectionBytes :=
  (length_le_spentBy rendered.entries).trans rendered.within

theorem plain_memoriesValue (memories : Memories) : Plain 2 (memoriesValue memories) := by
  cases memories with
  | skipped reason => exact plain_detail _ reason
  | unavailable detail => exact plain_detail _ detail
  | empty =>
    refine .object (by simp only [List.map_cons, List.map_nil]; decide) ?_
    simp only [List.forall_mem_cons]
    exact ⟨.string _, .number (by decide), nofun⟩
  | found rendered scopeRequested elapsed =>
    have hlength := length_entries rendered
    have hlabelled := rendered.labelled_le
    unfold maxMemorySectionBytes at hlength
    refine .object (by simp only [List.map_cons, List.map_nil]; decide) ?_
    simp only [List.forall_mem_cons]
    exact ⟨.string _, .number (by omega), .bool _, .number (by omega), .elapsed _, nofun⟩

theorem plain_probeFacts (session : Session) : Plain 3 (probeFacts session) := by
  have hlaunch : Plain 2 (launchValue session.launch) := by
    cases session.launch with
    | ok => exact .string _
    | error detail => exact .string detail
  have hregistration : Plain 2 (session.registration.elim .null registrationValue) := by
    cases session.registration with
    | none => exact .null
    | some registration =>
      refine .object (by simp only [List.map_cons, List.map_nil]; decide) ?_
      simp only [List.forall_mem_cons]
      exact ⟨.string _, .string _, .string _, nofun⟩
  have hproject : Plain 2 (session.project.elim .null projectValue) := by
    cases session.project with
    | none => exact .null
    | some project =>
      refine .object (by simp only [List.map_cons, List.map_nil]; decide) ?_
      simp only [List.forall_mem_cons]
      exact ⟨.string _, .string _, nofun⟩
  unfold probeFacts factMembers
  refine .object (by simp only [List.map_cons, List.map_nil]; decide) ?_
  simp only [List.forall_mem_cons]
  exact ⟨.number (by decide), .bool _, .string _, .string _, .nullable _, hlaunch, hregistration,
    plain_probeValue _, hproject, plain_memoriesValue _, .number (by decide), .elapsed _, nofun⟩

theorem toolsVisible_mem (session : Session) :
    (toolsVisibleKey, .bool (toolsVisible session)) ∈ factMembers session :=
  List.mem_cons_of_mem _ List.mem_cons_self

/-! ## The first line of the context -/

def firstLine (t : Text) : Text := t.takeWhile fun c => c != '\n'

/-- Whether the first line of a context is an object that says if the tools are visible. -/
def Carries (context : Text) : Prop :=
  ∃ members, fromStr (Utf8.encode (firstLine context)) = some (.object members)
    ∧ (members.lookup toolsVisibleKey).isSome

theorem firstLine_append {line rest : Text} (h : '\n' ∉ line) :
    firstLine (line ++ '\n' :: rest) = line := by
  unfold firstLine
  rw [List.takeWhile_append_of_pos fun c hc => by
    rw [bne_iff_ne]
    rintro rfl
    exact h hc, List.takeWhile_cons_of_neg (by decide), List.append_nil]

theorem firstLine_self {line : Text} (h : '\n' ∉ line) : firstLine line = line := by
  unfold firstLine
  rw [List.takeWhile_eq_self_iff]
  intro c hc
  rw [bne_iff_ne]
  rintro rfl
  exact h hc

section

variable (session : Session)

/-- The summary, as the text of its line. -/
def summary : Text := display (probeFacts session)

theorem newline_summary : '\n' ∉ summary session := JsonWriter.newline_display _

theorem fromStr_summary :
    fromStr (Utf8.encode (summary session)) = some (.object (factMembers session)) :=
  (plain_probeFacts session).fromStr (by decide)

theorem lookup_toolsVisible :
    ((factMembers session).lookup toolsVisibleKey).isSome = true := by
  rw [Members.lookup_of_mem (by
    have hplain := plain_probeFacts session
    cases hplain.distinct with
    | object hkeys _ => exact hkeys) (toolsVisible_mem session)]
  rfl

end

/-- A line that ends with the mark of a cut is no object. -/
theorem not_carries_cut {line : Text} (h : '\n' ∉ line) : ¬Carries (line ++ ['…']) := by
  rintro ⟨members, hread, -⟩
  have hline : '\n' ∉ line ++ ['…'] := by
    rw [List.mem_append, not_or]
    exact ⟨h, by decide⟩
  rw [firstLine_self hline] at hread
  have hlast : (Utf8.encode (line ++ ['…'])).getLast? = some 0xA6 := by
    unfold Utf8.encode
    rw [List.flatMap_append, List.getLast?_append_of_ne_nil _ (by decide)]
    rfl
  rcases JsonWriter.fromStr_object_last hread hlast with hbrace | hspace
  · exact absurd hbrace (by decide)
  · exact absurd hspace (by decide)

/-- Whether a context that begins with a summary keeps it, once it is shortened: the whole context
is within the budget, or the summary and its newline are within what is left of it. -/
def Spared (facts context : Text) : Prop :=
  Text.byteLen context ≤ maxContextBytes ∨ Text.byteLen facts + 1 ≤ maxContextBytes - 3

section

variable {facts context : Text}

theorem firstLine_spared (hfacts : '\n' ∉ facts) (h : facts ++ ['\n'] <+: context)
    (hspared : Spared facts context) : firstLine (clipContext context) = facts := by
  by_cases hwhole : Text.byteLen context ≤ maxContextBytes
  · obtain ⟨rest, rfl⟩ := h
    rw [clipContext_of_le hwhole, List.append_assoc]
    exact firstLine_append hfacts
  have hroom := hspared.resolve_left hwhole
  have hcost : Text.byteLen (facts ++ ['\n']) = Text.byteLen facts + 1 := by
    rw [Text.byteLen_append]
    rfl
  rw [clipContext_of_lt (by omega)]
  obtain ⟨kept, hkept⟩ := prefix_floorPrefix h (hcost.le.trans hroom)
  rw [← hkept, List.append_assoc, List.append_assoc]
  exact firstLine_append hfacts

/-- A context that is not spared is cut before the end of the summary's line. -/
theorem clipContext_cut (hfacts : '\n' ∉ facts) (h : facts ++ ['\n'] <+: context)
    (hspared : ¬Spared facts context) :
    ∃ cut, '\n' ∉ cut ∧ clipContext context = cut ++ ['…'] := by
  obtain ⟨hlong, hroom⟩ := not_or.mp hspared
  refine ⟨floorPrefix (maxContextBytes - 3) context, ?_, clipContext_of_lt (by omega)⟩
  have hlen := byteLen_floorPrefix (maxContextBytes - 3) context
  have hcut : floorPrefix (maxContextBytes - 3) context <+: facts := by
    rcases List.prefix_or_prefix_of_prefix (floorPrefix_isStart (maxContextBytes - 3) context) h
      with hcut | ⟨kept, hkept⟩
    · rcases List.prefix_concat_iff.mp hcut with heq | hcut
      · rw [heq, Text.byteLen_append] at hlen
        exact absurd hlen hroom
      · exact hcut
    · rw [← hkept, Text.byteLen_append, Text.byteLen_append] at hlen
      exact absurd ((Nat.le_add_right _ _).trans hlen) hroom
  exact fun hmem => hfacts (hcut.subset hmem)

end

theorem carries_clipContext (session : Session) {context : Text}
    (h : summary session ++ ['\n'] <+: context) :
    Carries (clipContext context) ↔ Spared (summary session) context := by
  constructor
  · intro hcarries
    by_contra hspared
    obtain ⟨cut, hcut, heq⟩ := clipContext_cut (newline_summary session) h hspared
    rw [heq] at hcarries
    exact not_carries_cut hcut hcarries
  · intro hspared
    refine ⟨factMembers session, ?_, lookup_toolsVisible session⟩
    rw [firstLine_spared (newline_summary session) h hspared]
    exact fromStr_summary session

/-- The summary alone is whole or cut. -/
theorem carries_clip_summary (session : Session) :
    Carries (clipContext (summary session))
      ↔ Text.byteLen (summary session) ≤ maxContextBytes := by
  constructor
  · intro hcarries
    by_contra hlong
    rw [clipContext_of_lt (Nat.lt_of_not_le hlong)] at hcarries
    have hcut := floorPrefix_isStart (maxContextBytes - 3) (summary session)
    exact not_carries_cut (fun hmem => newline_summary session (hcut.subset hmem)) hcarries
  · intro hwhole
    rw [clipContext_of_le hwhole]
    refine ⟨factMembers session, ?_, lookup_toolsVisible session⟩
    rw [firstLine_self (newline_summary session)]
    exact fromStr_summary session

/-! ## The candidates -/

theorem statusLines_head (session : Session) : ∃ rest, statusLines session = 'K' :: rest := by
  unfold statusLines reachableLine
  split
  · rw [String.toList_append, String.toList_ofList]
    simp only [List.cons_append]
    exact ⟨_, rfl⟩
  · rw [String.toList_ofList]
    simp only [List.cons_append]
    exact ⟨_, rfl⟩

/-- The first paragraph holds a first line that is followed by another one. -/
theorem prefix_firstParagraph {line rest : Text} {c : Char} (hline : '\n' ∉ line) (hc : c ≠ '\n') :
    line ++ ['\n'] <+: firstParagraph (line ++ '\n' :: c :: rest) := by
  have hwhole : line ++ '\n' :: c :: rest = line ++ ['\n'] ++ c :: rest := by
    rw [List.append_assoc]
    rfl
  unfold firstParagraph
  cases hfind : Text.find ['\n', '\n'] (line ++ '\n' :: c :: rest) with
  | none => exact ⟨c :: rest, hwhole.symm⟩
  | some i =>
    have hat := Text.prefix_of_mem (List.mem_of_mem_head? hfind)
    have hafter : line.length < i := by
      by_contra hle
      rcases Nat.lt_or_eq_of_le (Nat.le_of_not_lt hle) with hlt | rfl
      · rw [List.drop_append_of_le_length hlt.le, List.drop_eq_getElem_cons hlt] at hat
        obtain ⟨hnewline, -⟩ := List.cons_prefix_cons.mp hat
        exact hline (hnewline ▸ List.getElem_mem hlt)
      · rw [List.drop_left] at hat
        obtain ⟨-, hnext⟩ := List.cons_prefix_cons.mp hat
        obtain ⟨hnewline, -⟩ := List.cons_prefix_cons.mp hnext
        exact hc hnewline.symm
    show line ++ ['\n'] <+: (line ++ '\n' :: c :: rest).take i
    rw [List.prefix_take_iff, hwhole]
    refine ⟨List.prefix_append _ _, ?_⟩
    rw [List.length_append, List.length_singleton]
    exact hafter

theorem summary_renderContext (session : Session) :
    summary session ++ ['\n'] <+: renderContext session := by
  unfold renderContext
  exact ⟨statusLines session ++ memoryLines session, List.append_assoc _ _ _⟩

theorem summary_firstParagraph (session : Session) :
    summary session ++ ['\n'] <+: firstParagraph (renderContext session) := by
  obtain ⟨rest, hrest⟩ := statusLines_head session
  unfold renderContext
  rw [hrest, List.cons_append]
  exact prefix_firstParagraph (newline_summary session) (by decide)

theorem fits_iff (context : Text) :
    Fits context ↔ Text.byteLen (wrapHookLine context) ≤ maxHookOutputBytes := by
  rw [byteLen_wrapHookLine]
  rfl

/-- Whether the summary is whole in the candidate that is printed. -/
structure Kept (facts context : Text) : Prop where
  whole : Fits (clipContext context) → Spared facts context
  paragraph : ¬Fits (clipContext context) → Fits (clipContext (firstParagraph context)) →
    Spared facts (firstParagraph context)
  alone : ¬Fits (clipContext context) → ¬Fits (clipContext (firstParagraph context)) →
    Text.byteLen facts ≤ maxContextBytes

theorem emittedContext_eq (context facts : Text) :
    emittedContext context facts
      = if Fits (clipContext context) then clipContext context
        else if Fits (clipContext (firstParagraph context)) then
          clipContext (firstParagraph context)
        else clipContext facts := by
  unfold emittedContext
  simp only [← fits_iff]
  rfl

theorem fits_emittedContext (context facts : Text) :
    Fits (emittedContext context facts)
      ↔ Fits (clipContext context) ∨ Fits (clipContext (firstParagraph context))
        ∨ Fits (clipContext facts) := by
  rw [emittedContext_eq]
  by_cases hwhole : Fits (clipContext context)
  · rw [if_pos hwhole]
    exact iff_of_true hwhole (.inl hwhole)
  rw [if_neg hwhole, or_iff_right hwhole]
  by_cases hfirst : Fits (clipContext (firstParagraph context))
  · rw [if_pos hfirst]
    exact iff_of_true hfirst (.inl hfirst)
  · rw [if_neg hfirst, or_iff_right hfirst]

theorem carries_emittedContext (session : Session) :
    Carries (emittedContext (renderContext session) (summary session))
      ↔ Kept (summary session) (renderContext session) := by
  rw [emittedContext_eq]
  by_cases hwhole : Fits (clipContext (renderContext session))
  · rw [if_pos hwhole, carries_clipContext session (summary_renderContext session)]
    exact ⟨fun h => ⟨fun _ => h, (absurd hwhole ·), (absurd hwhole ·)⟩, fun h => h.whole hwhole⟩
  rw [if_neg hwhole]
  by_cases hfirst : Fits (clipContext (firstParagraph (renderContext session)))
  · rw [if_pos hfirst, carries_clipContext session (summary_firstParagraph session)]
    exact ⟨fun h => ⟨(absurd · hwhole), fun _ _ => h, fun _ => (absurd hfirst ·)⟩,
      fun h => h.paragraph hwhole hfirst⟩
  · rw [if_neg hfirst, carries_clip_summary]
    exact ⟨fun h => ⟨(absurd · hwhole), fun _ => (absurd · hfirst), fun _ _ => h⟩,
      fun h => h.alone hwhole hfirst⟩

/-! ## The contract -/

/-- The line is within its budget and is one line of JSON, and the first line of its context is an
object that says if the tools are visible. -/
structure Sound (line : Text) : Prop where
  bounded : Text.byteLen line ≤ maxHookOutputBytes
  oneLine : '\n' ∉ line
  carries : ∃ v context, fromStr (Utf8.encode line) = some v ∧ additionalContext v = some context
    ∧ Carries context

theorem sound_wrapHookLine (context : Text) :
    Sound (wrapHookLine context) ↔ Fits context ∧ Carries context := by
  constructor
  · intro h
    obtain ⟨v, inner, hread, hinner, hcarries⟩ := h.carries
    rw [fromStr_wrapHookLine] at hread
    cases hread
    cases hinner
    exact ⟨(fits_iff context).mpr h.bounded, hcarries⟩
  · rintro ⟨hfits, hcarries⟩
    exact ⟨(fits_iff context).mp hfits, JsonWriter.newline_display _,
      hookOutput context, context, fromStr_wrapHookLine context,
      additionalContext_hookOutput context, hcarries⟩

theorem sessionStartOutput_eq (session : Session) :
    sessionStartOutput session
      = wrapHookLine (emittedContext (renderContext session) (summary session)) := rfl

/-- The line keeps to the contract exactly where one of the candidates fits on it and the summary
is whole in the one that is printed. -/
theorem session_line_iff (session : Session) :
    Sound (sessionStartOutput session)
      ↔ (Fits (clipContext (renderContext session))
          ∨ Fits (clipContext (firstParagraph (renderContext session)))
          ∨ Fits (clipContext (summary session)))
        ∧ Kept (summary session) (renderContext session) := by
  rw [sessionStartOutput_eq, sound_wrapHookLine, fits_emittedContext, carries_emittedContext]

/-! ## A registered command that is longer than the budget -/

theorem Spared.le {facts context : Text} (h : facts ++ ['\n'] <+: context)
    (hspared : Spared facts context) : Text.byteLen facts ≤ maxContextBytes := by
  rcases hspared with hwhole | hroom
  · obtain ⟨rest, rfl⟩ := h
    rw [Text.byteLen_append, Text.byteLen_append, Nat.add_assoc] at hwhole
    exact (Nat.le_add_right _ _).trans hwhole
  · exact (Nat.le_add_right _ 1).trans (hroom.trans (Nat.sub_le _ 3))

theorem Kept.le {facts context : Text} (hcontext : facts ++ ['\n'] <+: context)
    (hparagraph : facts ++ ['\n'] <+: firstParagraph context) (h : Kept facts context) :
    Text.byteLen facts ≤ maxContextBytes := by
  by_cases hwhole : Fits (clipContext context)
  · exact (h.whole hwhole).le hcontext
  by_cases hfirst : Fits (clipContext (firstParagraph context))
  · exact (h.paragraph hwhole hfirst).le hparagraph
  · exact h.alone hwhole hfirst

theorem Sound.summary_le {session : Session} (h : Sound (sessionStartOutput session)) :
    Text.byteLen (summary session) ≤ maxContextBytes := by
  rw [sessionStartOutput_eq, sound_wrapHookLine, carries_emittedContext] at h
  exact h.2.le (summary_renderContext session) (summary_firstParagraph session)

theorem byteLen_registration {session : Session} {registration : Registration}
    (h : session.registration = some registration) :
    escapedLen registration.displayCommand ≤ Text.byteLen (summary session) := by
  have hcommand : ("command".toList, .string registration.displayCommand)
      ∈ [("scope".toList, Value.string registration.scope),
        ("source".toList, .string registration.source),
        ("command".toList, .string registration.displayCommand)] := by
    simp
  have hinner := JsonWriter.length_write_member hcommand
  rw [JsonWriter.write_string, length_quote] at hinner
  have hmember : ("registration".toList, registrationValue registration) ∈ factMembers session := by
    unfold factMembers
    rw [h]
    simp
  have houter := JsonWriter.length_write_member hmember
  unfold registrationValue at houter
  rw [JsonWriter.write_object, List.length_cons, List.length_append] at houter
  unfold summary
  rw [← Utf8.length_encode, JsonWriter.encode_display]
  show _ ≤ (write compact (.object (factMembers session))).length
  rw [JsonWriter.write_object, List.length_cons, List.length_append]
  omega

theorem escapedLen_append (s t : Text) : escapedLen (s ++ t) = escapedLen s + escapedLen t := by
  unfold escapedLen
  rw [List.flatMap_append, Text.byteLen_append]

theorem escapedLen_cons (c : Char) (t : Text) :
    escapedLen (c :: t) = Text.byteLen (escape c) + escapedLen t := by
  unfold escapedLen
  rw [List.flatMap_cons, Text.byteLen_append]

theorem escapedLen_replicate (n : Nat) : escapedLen (List.replicate n 'x') = n := by
  induction n with
  | zero => rfl
  | succ n ih =>
    rw [List.replicate_succ, escapedLen_cons, ih, show Text.byteLen (escape 'x') = 1 by decide]
    omega

/-- A project registers a server with an argument of 2600 characters, which does not answer. -/
def talkative : Session where
  options := ⟨"default".toList, true⟩
  registration := some ⟨"project".toList, "/p/.mcp.json".toList, "k".toList,
    [List.replicate 2600 'x']⟩
  probe := .noAnswer "no answer".toList
  launch := .error "the engine refused the profile".toList
  engine := none
  project := none
  memories := .skipped "the profile did not launch, so nothing was retrieved".toList
  elapsed := 100

theorem session_line_cut : ¬∀ session : Session, Sound (sessionStartOutput session) := by
  intro h
  have hle := (h talkative).summary_le
  have hcommand := @byteLen_registration talkative _ rfl
  have hdisplay : escapedLen ("k".toList ++ ' ' :: List.replicate 2600 'x') = 2602 := by
    rw [escapedLen_append, escapedLen_cons, escapedLen_replicate,
      show escapedLen "k".toList = 1 by decide, show Text.byteLen (escape ' ') = 1 by decide]
  unfold Registration.displayCommand at hcommand
  rw [if_neg (by decide), List.intercalate_singleton, hdisplay] at hcommand
  exact absurd (hcommand.trans hle) (by unfold maxContextBytes; omega)

end Kaleidoscope.SessionStart
