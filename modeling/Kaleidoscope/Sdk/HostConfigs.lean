import Kaleidoscope.Error
import Kaleidoscope.Lib.Toml
import Kaleidoscope.Sdk.Descriptor
import Kaleidoscope.Sdk.Payload

/-!
# The Codex table

The TOML text that each implementation writes for Codex.  The manager marks its block, the SDKs
write the bare table; each puts the command into a basic string with the JSON encoder of its
language.

    codexConfig_renders_iff    for which commands each text is TOML with the command in it
-/

namespace Kaleidoscope.Sdk

open Unicode (Points)
open JsonReader (ofText)
open Toml (unlines)

/-! ## Renderers -/

/-- The line that gives a key its value. -/
def setting (key : String) (value : Points) : Points := ofText key ++ ofText " = " ++ value

def listed (items : List Points) : Points :=
  ofText "[" ++ (ofText ", ").intercalate items ++ ofText "]"

/-- A character as `serde_json` writes it. -/
def escapeRust (c : Nat) : Points :=
  match shortEscape c with
  | some escape => escape
  | none => if c < 0x20 then escapeUnit c else [c]

def quoteRust (s : Points) : Points := 0x22 :: (s.flatMap escapeRust ++ [0x22])

def markerStart : Points :=
  ofText "# >>> kaleidoscope-manager owner=kaleidoscope-manager-v1 host=codex"

def markerEnd : Points := ofText "# <<< kaleidoscope-manager owner=kaleidoscope-manager-v1"

/-- The manager's block; `command` is there when the path of the executable is UTF-8. -/
def codexBlock (command : Option Points) (profile : Points) : Result Points :=
  match command with
  | none => .error (.invalidEngineContract "launch descriptor" "command is not UTF-8")
  | some command => .ok <| unlines [
      markerStart,
      ofText "[mcp_servers.kaleidoscope]",
      setting "command" (quoteRust command),
      setting "args" (listed [ofText "\"mcp\"", ofText "\"--profile\"", quoteRust profile]),
      setting "enabled" (ofText "true"),
      setting "required" (ofText "false"),
      setting "startup_timeout_sec" (ofText "10"),
      setting "tool_timeout_sec" (ofText "30"),
      setting "enabled_tools" (ofText "[\"search\", \"remember\"]"),
      setting "default_tools_approval_mode" (ofText "\"writes\""),
      [],
      ofText "[mcp_servers.kaleidoscope.tools.search]",
      setting "approval_mode" (ofText "\"approve\""),
      markerEnd]

/-- The lines of both SDKs, with the encoder of each. -/
def codexLines (quote : Points → Points) (descriptor : LaunchDescriptor) : List Points := [
  ofText "[mcp_servers.kaleidoscope]",
  setting "command" (quote descriptor.command),
  setting "args" (listed (descriptor.args.map quote)),
  setting "env" (ofText "\x7b\x7d"),
  setting "enabled" (ofText "true"),
  setting "required" (ofText "false"),
  setting "startup_timeout_sec" (ofText "10"),
  setting "tool_timeout_sec" (ofText "30"),
  setting "enabled_tools" (listed (descriptor.tools.map quote)),
  setting "default_tools_approval_mode" (ofText "\"writes\""),
  [],
  ofText "# Ranked search appends an exposure row, so approve it deliberately.",
  ofText "[mcp_servers.kaleidoscope.tools.search]",
  setting "approval_mode" (ofText "\"approve\"")]

def renderCodexConfigPython (descriptor : LaunchDescriptor) : Points :=
  unlines (codexLines quotePython descriptor)

def renderCodexConfigTypescript (descriptor : LaunchDescriptor) : Points :=
  unlines (codexLines quoteTypescript descriptor)

/-! ## Statement -/

def serverPath (key : String) : List Points :=
  [ofText "mcp_servers", ofText "kaleidoscope", ofText key]

def launchArgs (profile : Points) : List Points := [ofText "mcp", ofText "--profile", profile]

/-- The text is TOML in which the server is launched with this command and profile. -/
def Renders (text command profile : Points) : Prop :=
  ∃ document, Toml.read text = some document
    ∧ document.value? (serverPath "command") = some (.string command)
    ∧ document.value? (serverPath "args") = some (.array ((launchArgs profile).map .string))

/-- What an encoder that leaves characters beyond ASCII as they are can pass on. -/
def isPrinted (c : Nat) : Bool := Unicode.isScalar c && c != 0x7F

/-- What an encoder that writes ASCII can pass on. -/
def isUnit (c : Nat) : Bool := Unicode.isScalar c && c ≤ 0xFFFF

/-! ## Escapes -/

theorem shortEscape_some {c : Nat} {escape : Points} (h : shortEscape c = some escape) :
    ∃ e, escape = [0x5C, e] ∧ Toml.simpleEscape e = some c := by
  unfold shortEscape at h
  split at h
  next hc =>
    cases h
    exact ⟨c, rfl, if_pos hc⟩
  split at h
  next hc =>
    cases h
    exact ⟨0x62, by decide, by rw [hc]; decide⟩
  split at h
  next hc =>
    cases h
    exact ⟨0x66, by decide, by rw [hc]; decide⟩
  split at h
  next hc =>
    cases h
    exact ⟨0x6E, by decide, by rw [hc]; decide⟩
  split at h
  next hc =>
    cases h
    exact ⟨0x72, by decide, by rw [hc]; decide⟩
  split at h
  next hc =>
    cases h
    exact ⟨0x74, by decide, by rw [hc]; decide⟩
  cases h

theorem shortEscape_none {c : Nat} (h : shortEscape c = none) : c ≠ 0x22 ∧ c ≠ 0x5C := by
  constructor
  · rintro rfl
    cases h
  · rintro rfl
    cases h

theorem readBasic_short {c : Nat} {escape : Points} (h : shortEscape c = some escape)
    (read t : Points) : Toml.readBasic read (escape ++ t) = Toml.readBasic (c :: read) t := by
  obtain ⟨e, rfl, he⟩ := shortEscape_some h
  exact Toml.readBasic_simple he read t

theorem readBasic_escapeUnit {c : Nat} (h : c < 0x10000) (read t : Points) :
    Toml.readBasic read (escapeUnit c ++ t)
      = if Unicode.isScalar c then Toml.readBasic (c :: read) t else none :=
  Toml.readBasic_unit (hexUnit_escapeUnit h) read t

theorem isScalar_of_lt {c : Nat} (h : c < 0xD800) : Unicode.isScalar c = true := by
  unfold Unicode.isScalar Unicode.isSurrogate Unicode.isHighSurrogate Unicode.isLowSurrogate
  simp
  omega

theorem surrogate_lt {c : Nat} (h : Unicode.isSurrogate c = true) : c < 0x10000 := by
  unfold Unicode.isSurrogate Unicode.isHighSurrogate Unicode.isLowSurrogate at h
  simp at h
  omega

theorem isPrinted_short {c : Nat} {escape : Points} (h : shortEscape c = some escape) :
    isPrinted c = true ∧ isUnit c = true := by
  have hlt : c < 0x7F := by
    by_contra hge
    unfold shortEscape at h
    simp only [show ¬ (c = 0x22 ∨ c = 0x5C) by omega, show c ≠ 0x08 by omega,
      show c ≠ 0x0C by omega, show c ≠ 0x0A by omega, show c ≠ 0x0D by omega,
      show c ≠ 0x09 by omega, if_false] at h
    cases h
  have hscalar : Unicode.isScalar c = true := isScalar_of_lt (by omega)
  simp [isPrinted, isUnit, hscalar]
  omega

theorem isRaw_eq {c : Nat} (hge : 0x20 ≤ c) : Toml.isRaw c = isPrinted c := by
  unfold Toml.isRaw isPrinted
  by_cases hascii : c < 0x80
  · have hscalar : Unicode.isScalar c = true := isScalar_of_lt (by omega)
    rw [hscalar]
    simp only [Bool.true_and, Bool.and_true]
    rw [Bool.eq_iff_iff]
    simp
    omega
  · have htab : (c == 0x09) = false := beq_eq_false_iff_ne.mpr (by omega)
    have hdelete : (c != 0x7F) = true := bne_iff_ne.mpr (by omega)
    rw [htab, hdelete, decide_eq_true (show 0x80 ≤ c by omega),
      decide_eq_false (show ¬ c ≤ 0x7E by omega)]
    simp

/-- A character that is written as it is. -/
theorem readBasic_itself {c : Nat} (hge : 0x20 ≤ c) (h : shortEscape c = none) (read t : Points) :
    Toml.readBasic read (c :: t)
      = if isPrinted c then Toml.readBasic (c :: read) t else none := by
  obtain ⟨hquote, hslash⟩ := shortEscape_none h
  by_cases hprinted : isPrinted c = true
  · rw [if_pos hprinted, Toml.readBasic_raw (isRaw_eq hge ▸ hprinted) hquote hslash]
  · rw [if_neg hprinted, Toml.readBasic_control _ hquote hslash]
    rw [isRaw_eq hge]
    simpa using hprinted

theorem escapes_rust : Toml.Escapes escapeRust isPrinted := by
  have hread : ∀ c read t, Toml.readBasic read (escapeRust c ++ t)
      = if isPrinted c then Toml.readBasic (c :: read) t else none := by
    intro c read t
    unfold escapeRust
    cases hshort : shortEscape c with
    | some escape => rw [if_pos (isPrinted_short hshort).1, readBasic_short hshort]
    | none =>
      show Toml.readBasic read ((if c < 0x20 then escapeUnit c else [c]) ++ t) = _
      by_cases hcontrol : c < 0x20
      · have hscalar : Unicode.isScalar c = true := isScalar_of_lt (by omega)
        have hprinted : isPrinted c = true := by
          simp [isPrinted, hscalar]
          omega
        rw [if_pos hcontrol, if_pos hprinted, readBasic_escapeUnit (by omega), if_pos hscalar]
      · rw [if_neg hcontrol, List.singleton_append]
        exact readBasic_itself (by omega) hshort read t
  refine ⟨fun h read t => ?_, fun h _ read t => ?_⟩
  · rw [hread, if_pos h]
  · rw [hread, if_neg (by simp [h])]

theorem escapes_typescript : Toml.Escapes escapeTypescript isPrinted := by
  have hread : ∀ c read t, Toml.readBasic read (escapeTypescript c ++ t)
      = if isPrinted c then Toml.readBasic (c :: read) t else none := by
    intro c read t
    unfold escapeTypescript
    cases hshort : shortEscape c with
    | some escape => rw [if_pos (isPrinted_short hshort).1, readBasic_short hshort]
    | none =>
      show Toml.readBasic read
        ((if c < 0x20 ∨ Unicode.isSurrogate c = true then escapeUnit c else [c]) ++ t) = _
      by_cases hsurrogate : Unicode.isSurrogate c = true
      · have hprinted : isPrinted c = false := by simp [isPrinted, Unicode.isScalar, hsurrogate]
        have hscalar : Unicode.isScalar c = false := by simp [Unicode.isScalar, hsurrogate]
        rw [if_pos (.inr hsurrogate), readBasic_escapeUnit (surrogate_lt hsurrogate),
          if_neg (by simp [hscalar]), if_neg (by simp [hprinted])]
      · rw [if_congr (or_iff_left hsurrogate) rfl rfl]
        by_cases hcontrol : c < 0x20
        · have hscalar : Unicode.isScalar c = true := isScalar_of_lt (by omega)
          have hprinted : isPrinted c = true := by
            simp [isPrinted, hscalar]
            omega
          rw [if_pos hcontrol, if_pos hprinted, readBasic_escapeUnit (by omega), if_pos hscalar]
        · rw [if_neg hcontrol, List.singleton_append]
          exact readBasic_itself (by omega) hshort read t
  refine ⟨fun h read t => ?_, fun h _ read t => ?_⟩
  · rw [hread, if_pos h]
  · rw [hread, if_neg (by simp [h])]

theorem escapes_python : Toml.Escapes escapePython isUnit := by
  have hread : ∀ c read t, c ≤ 0x10FFFF → Toml.readBasic read (escapePython c ++ t)
      = if isUnit c then Toml.readBasic (c :: read) t else none := by
    intro c read t hc
    unfold escapePython
    cases hshort : shortEscape c with
    | some escape => rw [if_pos (isPrinted_short hshort).2, readBasic_short hshort]
    | none =>
      show Toml.readBasic read
        ((if 0x20 ≤ c ∧ c ≤ 0x7E then [c] else (Unicode.utf16 [c]).flatMap escapeUnit) ++ t) = _
      by_cases hraw : 0x20 ≤ c ∧ c ≤ 0x7E
      · have hscalar : Unicode.isScalar c = true := isScalar_of_lt (by omega)
        have hunit : isUnit c = true := by
          simp [isUnit, hscalar]
          omega
        have hprinted : isPrinted c = true := by
          simp [isPrinted, hscalar]
          omega
        rw [if_pos hraw, if_pos hunit, List.singleton_append,
          readBasic_itself hraw.1 hshort, if_pos hprinted]
      · rw [if_neg hraw]
        by_cases hlt : c < 0x10000
        · rw [utf16_unit hlt, readBasic_escapeUnit hlt]
          have hunit : isUnit c = Unicode.isScalar c := by
            simp [isUnit]
            omega
          rw [hunit]
        · have hunit : isUnit c = false := by
            simp [isUnit]
            omega
          -- the first of the two units is refused
          have hpair : (Unicode.utf16 [c]).flatMap escapeUnit
              = escapeUnit (0xD800 + (c - 0x10000) / 0x400)
                ++ escapeUnit (0xDC00 + (c - 0x10000) % 0x400) := by
            simp [Unicode.utf16, hlt]
          have hhigh : Unicode.isScalar (0xD800 + (c - 0x10000) / 0x400) = false := by
            unfold Unicode.isScalar Unicode.isSurrogate Unicode.isHighSurrogate
              Unicode.isLowSurrogate
            simp
            omega
          rw [hpair, List.append_assoc, readBasic_escapeUnit (by omega), if_neg (by simp [hhigh]),
            if_neg (by simp [hunit])]
  refine ⟨fun {c} h read t => ?_, fun h hc read t => ?_⟩
  · have hc : c ≤ 0x10FFFF := by
      simp [isUnit] at h
      omega
    rw [hread _ _ _ hc, if_pos h]
  · rw [hread _ _ _ hc, if_neg (by simp [h])]

/-! ## Lines -/

/-- A text that stays on its line. -/
def Inline (t : Points) : Prop := ∀ c ∈ t, 0x20 ≤ c

theorem Inline.oneLine {t : Points} (h : Inline t) : Toml.OneLine t := fun c hc => by
  have := h c hc
  omega

theorem Inline.append {t u : Points} (ht : Inline t) (hu : Inline u) : Inline (t ++ u) := by
  intro c hc
  rcases List.mem_append.mp hc with hc | hc
  · exact ht c hc
  · exact hu c hc

theorem inline_text {t : Points} (h : (t.all fun c => decide (0x20 ≤ c)) = true) : Inline t :=
  fun c hc => of_decide_eq_true (List.all_eq_true.mp h c hc)

theorem inline_quoted {escape : Nat → Points} (h : ∀ c, Inline (escape c)) (s : Points) :
    Inline (Toml.quoted escape s) := by
  intro c hc
  unfold Toml.quoted at hc
  rcases List.mem_cons.mp hc with rfl | hc
  · decide
  rcases List.mem_append.mp hc with hc | hc
  · obtain ⟨d, -, hd⟩ := List.mem_flatMap.mp hc
    exact h d c hd
  · rw [List.mem_singleton.mp hc]
    decide

theorem inline_listed {escape : Nat → Points} (h : ∀ c, Inline (escape c)) (items : List Points) :
    Inline (listed (items.map (Toml.quoted escape))) := by
  refine ((inline_text (by decide)).append ?_).append (inline_text (by decide))
  induction items with
  | nil =>
    intro c hc
    cases hc
  | cons s items ih =>
    cases items with
    | nil =>
      rw [List.map_singleton, List.intercalate, List.intersperse_singleton, List.flatten_singleton]
      exact inline_quoted h s
    | cons s' items =>
      rw [List.map_cons, List.map_cons, List.intercalate, List.intersperse_cons_cons,
        List.flatten_cons, List.flatten_cons]
      exact (inline_quoted h s).append ((inline_text (by decide)).append ih)

theorem inline_shortEscape {c : Nat} {escape : Points} (h : shortEscape c = some escape) :
    Inline escape := by
  obtain ⟨e, rfl, he⟩ := shortEscape_some h
  have hge : 0x20 ≤ e := by
    by_contra hlt
    have hnone : ∀ e < 0x20, Toml.simpleEscape e = none := by decide
    rw [hnone e (by omega)] at he
    cases he
  intro d hd
  simp only [List.mem_cons, List.not_mem_nil, or_false] at hd
  omega

theorem inline_escapeUnit (c : Nat) : Inline (escapeUnit c) := by
  have hhex : ∀ d, 0x20 ≤ hexPoint d := by
    intro d
    unfold hexPoint
    split <;> omega
  intro d hd
  unfold escapeUnit at hd
  simp only [List.mem_cons, List.not_mem_nil, or_false] at hd
  rcases hd with rfl | rfl | rfl | rfl | rfl | rfl
  · decide
  · decide
  all_goals exact hhex _

theorem inline_rust (c : Nat) : Inline (escapeRust c) := by
  unfold escapeRust
  cases hshort : shortEscape c with
  | some escape => exact inline_shortEscape hshort
  | none =>
    show Inline (if c < 0x20 then escapeUnit c else [c])
    by_cases hcontrol : c < 0x20
    · rw [if_pos hcontrol]
      exact inline_escapeUnit c
    · rw [if_neg hcontrol]
      intro d hd
      rw [List.mem_singleton.mp hd]
      omega

theorem inline_typescript (c : Nat) : Inline (escapeTypescript c) := by
  unfold escapeTypescript
  cases hshort : shortEscape c with
  | some escape => exact inline_shortEscape hshort
  | none =>
    show Inline (if c < 0x20 ∨ Unicode.isSurrogate c = true then escapeUnit c else [c])
    by_cases hunit : c < 0x20 ∨ Unicode.isSurrogate c = true
    · rw [if_pos hunit]
      exact inline_escapeUnit c
    · rw [if_neg hunit]
      intro d hd
      rw [List.mem_singleton.mp hd]
      omega

theorem inline_python (c : Nat) : Inline (escapePython c) := by
  unfold escapePython
  cases hshort : shortEscape c with
  | some escape => exact inline_shortEscape hshort
  | none =>
    show Inline (if 0x20 ≤ c ∧ c ≤ 0x7E then [c] else (Unicode.utf16 [c]).flatMap escapeUnit)
    by_cases hraw : 0x20 ≤ c ∧ c ≤ 0x7E
    · rw [if_pos hraw]
      intro d hd
      rw [List.mem_singleton.mp hd]
      omega
    · rw [if_neg hraw]
      intro d hd
      obtain ⟨u, -, hu⟩ := List.mem_flatMap.mp hd
      exact inline_escapeUnit u d hu

theorem inline_setting {key : String} {value : Points}
    (hkey : ((ofText key).all fun c => decide (0x20 ≤ c)) = true) (hvalue : Inline value) :
    Inline (setting key value) :=
  ((inline_text hkey).append (inline_text (by decide))).append hvalue

/-! ## Tables -/

def serverTable : List Points := [ofText "mcp_servers", ofText "kaleidoscope"]

def searchTable : List Points := serverTable ++ [ofText "tools", ofText "search"]

/-- A setting whose key needs no quotes. -/
theorem readLine_setting {key : String} {value : Points} {read : Toml.Value}
    (hkey : ofText key ≠ []) (hbare : ((ofText key).all Toml.isBare) = true)
    (hvalue : Toml.skipBlank value = value)
    (hread : Toml.readValue (value.length + 2) value = some (read, [])) :
    Toml.readLine (setting key value) = some (.pair (ofText key) read) :=
  Toml.readLine_value hkey (List.all_eq_true.mp hbare) hvalue hread

theorem skipBlank_quote (t : Points) : Toml.skipBlank (0x22 :: t) = 0x22 :: t :=
  List.dropWhile_cons_of_neg (by decide)

theorem skipBlank_bracket (t : Points) : Toml.skipBlank (0x5B :: t) = 0x5B :: t :=
  List.dropWhile_cons_of_neg (by decide)

section

variable {escape : Nat → Points} {good : Nat → Bool} (hescape : Toml.Escapes escape good)

include hescape

theorem readLine_quoted {key : String} {s : Points} (hkey : ofText key ≠ [])
    (hbare : ((ofText key).all Toml.isBare) = true) (hs : ∀ c ∈ s, good c = true) :
    Toml.readLine (setting key (Toml.quoted escape s)) = some (.pair (ofText key) (.string s)) := by
  refine readLine_setting hkey hbare (skipBlank_quote _) ?_
  have hread := Toml.readValue_quoted hescape hs ((Toml.quoted escape s).length + 1) []
  rwa [List.append_nil] at hread

theorem readLine_unquotable {key : String} {s : Points} (hkey : ofText key ≠ [])
    (hbare : ((ofText key).all Toml.isBare) = true) (hs : ∀ c ∈ s, c ≤ 0x10FFFF)
    (hbad : ∃ c ∈ s, good c = false) :
    Toml.readLine (setting key (Toml.quoted escape s)) = none := by
  refine Toml.readLine_refused hkey (List.all_eq_true.mp hbare) (skipBlank_quote _) ?_
  have hread := Toml.readValue_refused hescape hs hbad ((Toml.quoted escape s).length + 1) []
  rwa [List.append_nil] at hread

theorem readLine_listed {key : String} {s : Points} {items : List Points} (hkey : ofText key ≠ [])
    (hbare : ((ofText key).all Toml.isBare) = true)
    (hitems : ∀ i ∈ s :: items, ∀ c ∈ i, good c = true) :
    Toml.readLine (setting key (listed ((s :: items).map (Toml.quoted escape))))
      = some (.pair (ofText key) (.array ((s :: items).map .string))) := by
  have htext : listed ((s :: items).map (Toml.quoted escape))
      = 0x5B :: (Toml.commaSeparated escape (s :: items) ++ [0x5D]) := rfl
  rw [htext]
  refine readLine_setting hkey hbare (skipBlank_bracket _) ?_
  apply Toml.readValue_array hescape hitems
  have := @Toml.commaSeparated_length escape s items
  simp only [List.length_cons, List.length_append]
  omega

end

theorem readLine_server :
    Toml.readLine (ofText "[mcp_servers.kaleidoscope]") = some (.header serverTable) :=
  @Toml.readLine_header (ofText "mcp_servers.kaleidoscope]") (by decide) _ (by decide)

theorem readLine_search :
    Toml.readLine (ofText "[mcp_servers.kaleidoscope.tools.search]")
      = some (.header searchTable) :=
  @Toml.readLine_header (ofText "mcp_servers.kaleidoscope.tools.search]") (by decide) _ (by decide)

/-- Characters of ASCII that can be seen are passed on. -/
def PassesAscii (good : Nat → Bool) : Prop := ∀ c, 0x20 ≤ c → c ≤ 0x7E → good c = true

theorem PassesAscii.text {good : Nat → Bool} (h : PassesAscii good) {t : Points}
    (ht : (t.all fun c => decide (0x20 ≤ c ∧ c ≤ 0x7E)) = true) : ∀ c ∈ t, good c = true := by
  intro c hc
  obtain ⟨hge, hle⟩ := of_decide_eq_true (List.all_eq_true.mp ht c hc)
  exact h c hge hle

theorem PassesAscii.name {good : Nat → Bool} (h : PassesAscii good) {profile : Points}
    (hprofile : isProfileName profile = true) : ∀ c ∈ profile, good c = true := by
  intro c hc
  have hchar := isProfileChar_of_name hprofile c hc
  unfold isProfileChar isAlphanumeric at hchar
  simp only [Bool.or_eq_true, Bool.and_eq_true, decide_eq_true_eq, beq_iff_eq] at hchar
  exact h c (by omega) (by omega)

theorem PassesAscii.args {good : Nat → Bool} (h : PassesAscii good) {profile : Points}
    (hprofile : isProfileName profile = true) :
    ∀ i ∈ launchArgs profile, ∀ c ∈ i, good c = true := by
  intro i hi
  simp only [launchArgs, List.mem_cons, List.not_mem_nil, or_false] at hi
  rcases hi with rfl | rfl | rfl
  · exact h.text (by decide)
  · exact h.text (by decide)
  · exact h.name hprofile

theorem PassesAscii.tools {good : Nat → Bool} (h : PassesAscii good) :
    ∀ i ∈ expectedTools, ∀ c ∈ i, good c = true := by
  intro i hi
  simp only [expectedTools, List.mem_cons, List.not_mem_nil, or_false] at hi
  rcases hi with rfl | rfl
  · exact h.text (by decide)
  · exact h.text (by decide)

theorem passesAscii_printed : PassesAscii isPrinted := fun c hge hle => by
  simp [isPrinted, isScalar_of_lt (show c < 0xD800 by omega)]
  omega

theorem passesAscii_unit : PassesAscii isUnit := fun c hge hle => by
  simp [isUnit, isScalar_of_lt (show c < 0xD800 by omega)]
  omega

/-! ## The SDKs' table -/

/-- What the lines of the SDKs say. -/
def tableLines (command profile : Points) : List Toml.Line := [
  .header serverTable,
  .pair (ofText "command") (.string command),
  .pair (ofText "args") (.array ((launchArgs profile).map .string)),
  .pair (ofText "env") (.table []),
  .pair (ofText "enabled") (.boolean true),
  .pair (ofText "required") (.boolean false),
  .pair (ofText "startup_timeout_sec") (.integer 10),
  .pair (ofText "tool_timeout_sec") (.integer 30),
  .pair (ofText "enabled_tools") (.array (expectedTools.map .string)),
  .pair (ofText "default_tools_approval_mode") (.string (ofText "writes")),
  .blank,
  .blank,
  .header searchTable,
  .pair (ofText "approval_mode") (.string (ofText "approve"))]

theorem tableLines_value (command profile : Points) :
    ∃ document, Toml.assemble .empty [] (tableLines command profile) = some document
      ∧ document.value? (serverPath "command") = some (.string command)
      ∧ document.value? (serverPath "args") = some (.array ((launchArgs profile).map .string)) :=
  ⟨_, rfl, rfl, rfl⟩

section

variable {escape : Nat → Points} {good : Nat → Bool} (hescape : Toml.Escapes escape good)
  (hinline : ∀ c, Inline (escape c)) (hascii : PassesAscii good)

include hinline in
theorem codexLines_oneLine (descriptor : LaunchDescriptor) :
    ∀ l ∈ codexLines (Toml.quoted escape) descriptor, Toml.OneLine l := by
  intro l hl
  apply Inline.oneLine
  simp only [codexLines, List.mem_cons, List.not_mem_nil, or_false] at hl
  rcases hl with rfl | rfl | rfl | rfl | rfl | rfl | rfl | rfl | rfl | rfl | rfl | rfl | rfl | rfl
  · exact inline_text (by decide)
  · exact inline_setting (by decide) (inline_quoted hinline _)
  · exact inline_setting (by decide) (inline_listed hinline _)
  · exact inline_setting (by decide) (inline_text (by decide))
  · exact inline_setting (by decide) (inline_text (by decide))
  · exact inline_setting (by decide) (inline_text (by decide))
  · exact inline_setting (by decide) (inline_text (by decide))
  · exact inline_setting (by decide) (inline_text (by decide))
  · exact inline_setting (by decide) (inline_listed hinline _)
  · exact inline_setting (by decide) (inline_text (by decide))
  · exact inline_text (by decide)
  · exact inline_text (by decide)
  · exact inline_text (by decide)
  · exact inline_setting (by decide) (inline_text (by decide))

include hescape hascii in
theorem codexLines_read {command profile : Points} (hcommand : ∀ c ∈ command, good c = true)
    (hprofile : isProfileName profile = true) :
    Toml.readLines (codexLines (Toml.quoted escape) (.closed command profile))
      = some (tableLines command profile) := by
  refine Toml.readLines_eq ?_
  exact .cons readLine_server <|
    .cons (readLine_quoted hescape (by decide) (by decide) hcommand) <|
    .cons (readLine_listed hescape (by decide) (by decide) (hascii.args hprofile)) <|
    .cons (readLine_setting (by decide) (by decide) (by decide) rfl) <|
    .cons (readLine_setting (by decide) (by decide) (by decide) rfl) <|
    .cons (readLine_setting (by decide) (by decide) (by decide) rfl) <|
    .cons (readLine_setting (by decide) (by decide) (by decide) rfl) <|
    .cons (readLine_setting (by decide) (by decide) (by decide) rfl) <|
    .cons (readLine_listed hescape (by decide) (by decide) hascii.tools) <|
    .cons (readLine_setting (by decide) (by decide) (by decide) rfl) <|
    .cons (Toml.readLine_blank (by decide)) <|
    .cons (Toml.readLine_blank (by decide)) <|
    .cons readLine_search <|
    .cons (readLine_setting (by decide) (by decide) (by decide) rfl) .nil

include hescape hinline hascii in
/-- The table of an SDK is good TOML iff its encoder writes every character of the command so that
TOML can read it. -/
theorem codexLines_renders_iff {command profile : Points} (hcommand : ∀ c ∈ command, c ≤ 0x10FFFF)
    (hprofile : isProfileName profile = true) :
    Renders (unlines (codexLines (Toml.quoted escape) (.closed command profile))) command profile
      ↔ ∀ c ∈ command, good c = true := by
  have hread := Toml.read_unlines (codexLines_oneLine hinline (.closed command profile))
  unfold Renders
  rw [hread]
  constructor
  · rintro ⟨document, hdocument, -, -⟩ c hc
    by_contra hbad
    have hrefused := readLine_unquotable hescape (show ofText "command" ≠ [] by decide)
      (by decide) hcommand ⟨c, hc, by simpa using hbad⟩
    rw [Toml.readLines_none (List.mem_of_getElem? (i := 1) rfl) hrefused] at hdocument
    cases hdocument
  · intro hgood
    rw [codexLines_read hescape hascii hgood hprofile]
    exact tableLines_value command profile

end

/-! ## The manager's block -/

/-- What the lines of the manager say. -/
def blockLines (command profile : Points) : List Toml.Line := [
  .blank,
  .header serverTable,
  .pair (ofText "command") (.string command),
  .pair (ofText "args") (.array ((launchArgs profile).map .string)),
  .pair (ofText "enabled") (.boolean true),
  .pair (ofText "required") (.boolean false),
  .pair (ofText "startup_timeout_sec") (.integer 10),
  .pair (ofText "tool_timeout_sec") (.integer 30),
  .pair (ofText "enabled_tools") (.array (expectedTools.map .string)),
  .pair (ofText "default_tools_approval_mode") (.string (ofText "writes")),
  .blank,
  .header searchTable,
  .pair (ofText "approval_mode") (.string (ofText "approve")),
  .blank]

theorem blockLines_value (command profile : Points) :
    ∃ document, Toml.assemble .empty [] (blockLines command profile) = some document
      ∧ document.value? (serverPath "command") = some (.string command)
      ∧ document.value? (serverPath "args") = some (.array ((launchArgs profile).map .string)) :=
  ⟨_, rfl, rfl, rfl⟩

theorem listed_args (profile : Points) :
    listed [ofText "\"mcp\"", ofText "\"--profile\"", quoteRust profile]
      = listed ((launchArgs profile).map (Toml.quoted escapeRust)) := by
  have hmcp : Toml.quoted escapeRust (ofText "mcp") = ofText "\"mcp\"" := by decide
  have hflag : Toml.quoted escapeRust (ofText "--profile") = ofText "\"--profile\"" := by decide
  unfold launchArgs
  rw [List.map_cons, List.map_cons, List.map_singleton, hmcp, hflag]
  rfl

theorem listed_tools :
    ofText "[\"search\", \"remember\"]" = listed (expectedTools.map (Toml.quoted escapeRust)) := by
  decide

/-- The lines of the manager's block. -/
def codexBlockLines (command profile : Points) : List Points := [
  markerStart,
  ofText "[mcp_servers.kaleidoscope]",
  setting "command" (Toml.quoted escapeRust command),
  setting "args" (listed ((launchArgs profile).map (Toml.quoted escapeRust))),
  setting "enabled" (ofText "true"),
  setting "required" (ofText "false"),
  setting "startup_timeout_sec" (ofText "10"),
  setting "tool_timeout_sec" (ofText "30"),
  setting "enabled_tools" (listed (expectedTools.map (Toml.quoted escapeRust))),
  setting "default_tools_approval_mode" (ofText "\"writes\""),
  [],
  ofText "[mcp_servers.kaleidoscope.tools.search]",
  setting "approval_mode" (ofText "\"approve\""),
  markerEnd]

theorem codexBlock_eq (command profile : Points) :
    codexBlock (some command) profile = .ok (unlines (codexBlockLines command profile)) := by
  unfold codexBlock codexBlockLines
  rw [listed_args, listed_tools]
  rfl

theorem codexBlockLines_oneLine (command profile : Points) :
    ∀ l ∈ codexBlockLines command profile, Toml.OneLine l := by
  intro l hl
  apply Inline.oneLine
  simp only [codexBlockLines, List.mem_cons, List.not_mem_nil, or_false] at hl
  rcases hl with rfl | rfl | rfl | rfl | rfl | rfl | rfl | rfl | rfl | rfl | rfl | rfl | rfl | rfl
  · exact inline_text (by decide)
  · exact inline_text (by decide)
  · exact inline_setting (by decide) (inline_quoted inline_rust _)
  · exact inline_setting (by decide) (inline_listed inline_rust _)
  · exact inline_setting (by decide) (inline_text (by decide))
  · exact inline_setting (by decide) (inline_text (by decide))
  · exact inline_setting (by decide) (inline_text (by decide))
  · exact inline_setting (by decide) (inline_text (by decide))
  · exact inline_setting (by decide) (inline_listed inline_rust _)
  · exact inline_setting (by decide) (inline_text (by decide))
  · exact inline_text (by decide)
  · exact inline_text (by decide)
  · exact inline_setting (by decide) (inline_text (by decide))
  · exact inline_text (by decide)

theorem codexBlockLines_read {command profile : Points}
    (hcommand : ∀ c ∈ command, isPrinted c = true) (hprofile : isProfileName profile = true) :
    Toml.readLines (codexBlockLines command profile) = some (blockLines command profile) := by
  refine Toml.readLines_eq ?_
  exact .cons (Toml.readLine_blank (by decide)) <|
    .cons readLine_server <|
    .cons (readLine_quoted escapes_rust (by decide) (by decide) hcommand) <|
    .cons (readLine_listed escapes_rust (by decide) (by decide)
      (passesAscii_printed.args hprofile)) <|
    .cons (readLine_setting (by decide) (by decide) (by decide) rfl) <|
    .cons (readLine_setting (by decide) (by decide) (by decide) rfl) <|
    .cons (readLine_setting (by decide) (by decide) (by decide) rfl) <|
    .cons (readLine_setting (by decide) (by decide) (by decide) rfl) <|
    .cons (readLine_listed escapes_rust (by decide) (by decide) passesAscii_printed.tools) <|
    .cons (readLine_setting (by decide) (by decide) (by decide) rfl) <|
    .cons (Toml.readLine_blank (by decide)) <|
    .cons readLine_search <|
    .cons (readLine_setting (by decide) (by decide) (by decide) rfl) <|
    .cons (Toml.readLine_blank (by decide)) .nil

theorem codexBlock_renders_iff {command profile text : Points}
    (hcommand : ∀ c ∈ command, c ≤ 0x10FFFF) (hprofile : isProfileName profile = true)
    (htext : codexBlock (some command) profile = .ok text) :
    Renders text command profile ↔ ∀ c ∈ command, isPrinted c = true := by
  obtain rfl : unlines (codexBlockLines command profile) = text := by
    rw [codexBlock_eq] at htext
    exact Except.ok.inj htext
  have hread := Toml.read_unlines (codexBlockLines_oneLine command profile)
  unfold Renders
  rw [hread]
  constructor
  · rintro ⟨document, hdocument, -, -⟩ c hc
    by_contra hbad
    have hrefused := readLine_unquotable escapes_rust (show ofText "command" ≠ [] by decide)
      (by decide) hcommand ⟨c, hc, by simpa using hbad⟩
    rw [Toml.readLines_none (List.mem_of_getElem? (i := 2) rfl) hrefused] at hdocument
    cases hdocument
  · intro hgood
    rw [codexBlockLines_read hgood hprofile]
    exact blockLines_value command profile

/-! ## Top theorem -/

/-- A text without surrogates. -/
def IsText (s : Points) : Prop := ∀ c ∈ s, Unicode.isScalar c = true

theorem joinPairs_text {s : Points} (h : ∀ c ∈ s, Unicode.isSurrogate c = false) :
    Unicode.joinPairs s = s := by
  fun_induction Unicode.joinPairs s with
  | case1 => rfl
  | case2 => rfl
  | case3 high low rest hpair ih =>
    have hsurrogate := h high (by simp)
    simp [Unicode.isSurrogate, hpair.1] at hsurrogate
  | case4 high low rest hpair ih => rw [ih fun c hc => h c (by simp [hc])]

theorem joinPairs_name {profile : Points} (h : isProfileName profile = true) :
    Unicode.joinPairs profile = profile := by
  refine joinPairs_text fun c hc => ?_
  have hprinted := passesAscii_printed.name h c hc
  simp only [isPrinted, Unicode.isScalar, Bool.and_eq_true, Bool.not_eq_true'] at hprinted
  exact hprinted.1.2

theorem forall_printed {s : Points} :
    (∀ c ∈ s, isPrinted c = true) ↔ IsText s ∧ 0x7F ∉ s := by
  constructor
  · intro h
    refine ⟨fun c hc => ?_, fun hdelete => ?_⟩
    · have := h c hc
      simp only [isPrinted, Bool.and_eq_true] at this
      exact this.1
    · exact absurd (h _ hdelete) (by decide)
  · rintro ⟨htext, hdelete⟩ c hc
    have hne : c ≠ 0x7F := by
      rintro rfl
      exact hdelete hc
    simp [isPrinted, htext c hc, hne]

theorem renderPython_renders_iff {command profile : Points}
    (hcommand : ∀ c ∈ command, c ≤ 0x10FFFF) (hprofile : isProfileName profile = true) :
    Renders (renderCodexConfigPython (.closed command profile)) command profile
      ↔ ∀ c ∈ command, isUnit c = true :=
  codexLines_renders_iff escapes_python inline_python passesAscii_unit hcommand hprofile

theorem renderTypescript_renders_iff {command profile : Points}
    (hcommand : ∀ c ∈ command, c ≤ 0x10FFFF) (hjoined : Unicode.joinPairs command = command)
    (hprofile : isProfileName profile = true) :
    Renders (renderCodexConfigTypescript (.closed command profile)) command profile
      ↔ ∀ c ∈ command, isPrinted c = true := by
  have hargs : (launchArgs profile).map quoteTypescript
      = (launchArgs profile).map (Toml.quoted escapeTypescript) := by
    refine List.map_congr_left fun i hi => ?_
    have hquoted : Unicode.joinPairs i = i := by
      simp only [launchArgs, List.mem_cons, List.not_mem_nil, or_false] at hi
      rcases hi with rfl | rfl | rfl
      · decide
      · decide
      · exact joinPairs_name hprofile
    unfold quoteTypescript
    rw [hquoted]
    rfl
  have htools : expectedTools.map quoteTypescript
      = expectedTools.map (Toml.quoted escapeTypescript) := by decide
  have hlines : codexLines quoteTypescript (.closed command profile)
      = codexLines (Toml.quoted escapeTypescript) (.closed command profile) := by
    have hquote : quoteTypescript command = Toml.quoted escapeTypescript command := by
      unfold quoteTypescript
      rw [hjoined]
      rfl
    show codexLines quoteTypescript ⟨1, _, command, launchArgs profile, expectedTools, []⟩
      = codexLines _ ⟨1, _, command, launchArgs profile, expectedTools, []⟩
    unfold codexLines
    rw [hquote, hargs, htools]
  unfold renderCodexConfigTypescript
  rw [hlines]
  exact codexLines_renders_iff escapes_typescript inline_typescript passesAscii_printed hcommand
    hprofile

/-- The manager and the TypeScript SDK fail on a command with U+007F, which they leave as it is;
the Python SDK on one with a character beyond the basic plane, which it splits.  The SDKs' strings
may hold surrogates, which TOML has no escape for. -/
theorem codexConfig_renders_iff {command profile : Points}
    (hcommand : ∀ c ∈ command, c ≤ 0x10FFFF) (hprofile : isProfileName profile = true) :
    (IsText command → ∃ text, codexBlock (some command) profile = .ok text
        ∧ (Renders text command profile ↔ 0x7F ∉ command))
      ∧ (Renders (renderCodexConfigPython (.closed command profile)) command profile
        ↔ IsText command ∧ ∀ c ∈ command, c ≤ 0xFFFF)
      ∧ (Unicode.joinPairs command = command →
        (Renders (renderCodexConfigTypescript (.closed command profile)) command profile
          ↔ IsText command ∧ 0x7F ∉ command)) := by
  refine ⟨fun htext => ⟨_, codexBlock_eq command profile, ?_⟩, ?_, fun hjoined => ?_⟩
  · rw [codexBlock_renders_iff hcommand hprofile (codexBlock_eq command profile), forall_printed]
    exact and_iff_right htext
  · rw [renderPython_renders_iff hcommand hprofile]
    simp only [isUnit, Bool.and_eq_true, decide_eq_true_eq, IsText]
    exact forall₂_and
  · rw [renderTypescript_renders_iff hcommand hjoined hprofile, forall_printed]

def kscope : Points := ofText "/opt/kscope"

theorem codexConfig_renders_iff_kscope :
    (IsText kscope → ∃ text, codexBlock (some kscope) (ofText "default") = .ok text
        ∧ (Renders text kscope (ofText "default") ↔ 0x7F ∉ kscope))
      ∧ (Renders (renderCodexConfigPython (.closed kscope (ofText "default"))) kscope
          (ofText "default")
        ↔ IsText kscope ∧ ∀ c ∈ kscope, c ≤ 0xFFFF)
      ∧ (Unicode.joinPairs kscope = kscope →
        (Renders (renderCodexConfigTypescript (.closed kscope (ofText "default"))) kscope
            (ofText "default")
          ↔ IsText kscope ∧ 0x7F ∉ kscope)) :=
  codexConfig_renders_iff (by decide) (by decide)

/-- A command with U+007F breaks the texts of the manager and of the TypeScript SDK, one with
U+1F600 that of the Python SDK. -/
theorem odd_commands_break :
    (∃ text, codexBlock (some (ofText "/" ++ [0x7F])) (ofText "default") = .ok text
        ∧ ¬ Renders text (ofText "/" ++ [0x7F]) (ofText "default"))
      ∧ ¬ Renders (renderCodexConfigTypescript (.closed (ofText "/" ++ [0x7F]) (ofText "default")))
        (ofText "/" ++ [0x7F]) (ofText "default")
      ∧ ¬ Renders (renderCodexConfigPython (.closed (ofText "/" ++ [0x1F600]) (ofText "default")))
        (ofText "/" ++ [0x1F600]) (ofText "default") := by
  refine ⟨⟨_, codexBlock_eq _ _, ?_⟩, ?_, ?_⟩
  · rw [codexBlock_renders_iff (by decide) (by decide) (codexBlock_eq _ _)]
    decide
  · rw [renderTypescript_renders_iff (by decide) (by decide) (by decide)]
    decide
  · rw [renderPython_renders_iff (by decide) (by decide)]
    decide

end Kaleidoscope.Sdk
