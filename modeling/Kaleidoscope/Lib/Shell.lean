import Kaleidoscope.Lib.Text

/-!
# Words of a shell command

How a POSIX shell splits a line into the words of a command: blanks end a word, quotes and
backslashes are taken away.  A line that is more than one command of literal words (it holds an
operator, an expansion or a file pattern, or a quote stays open) has no words here.

    words_spaced_iff    a text is a word of its own exactly where every character is plain
-/

namespace Shell

inductive Mode where
  | plain
  | escaped
  | single
  | double
  | doubleEscaped
  | comment
  deriving DecidableEq

/-- The words that have ended, and the one that is being read. -/
structure State where
  words : List Text
  word : Option Text
  mode : Mode
  deriving DecidableEq

def isBlank (c : Char) : Bool := c == ' ' || c == '\t'

/-- Operators, expansions and patterns. -/
def isActive (c : Char) : Bool :=
  c ∈ ['\n', '|', '&', ';', '<', '>', '(', ')', '$', '`', '*', '?', '[']

/-- Characters that mean something at the start of a word. -/
def isLeading (c : Char) : Bool := c == '#' || c == '~'

/-- Characters that stand for themselves within a word. -/
def isPlain (c : Char) : Bool :=
  !isBlank c && !isActive c && c != '\\' && c != '\'' && c != '"'

namespace State

def start : State := ⟨[], none, .plain⟩

def add (s : State) (text : Text) (mode : Mode) : State :=
  ⟨s.words, some (s.word.getD [] ++ text), mode⟩

/-- The word ends, if there is one. -/
def close (s : State) : State := ⟨s.words ++ s.word.toList, none, s.mode⟩

def stepPlain (s : State) (c : Char) : Option State :=
  if isBlank c then some s.close
  else if isActive c then none
  else if c = '\\' then some { s with mode := .escaped }
  else if c = '\'' then some (s.add [] .single)
  else if c = '"' then some (s.add [] .double)
  else if s.word.isNone && c == '#' then some { s with mode := .comment }
  else if s.word.isNone && c == '~' then none
  else some (s.add [c] .plain)

def step (s : State) (c : Char) : Option State :=
  match s.mode with
  | .plain => s.stepPlain c
  | .escaped => some (if c = '\n' then { s with mode := .plain } else s.add [c] .plain)
  | .single => some (if c = '\'' then { s with mode := .plain } else s.add [c] .single)
  | .double =>
    if c = '"' then some { s with mode := .plain }
    else if c = '\\' then some { s with mode := .doubleEscaped }
    else if c = '$' ∨ c = '`' then none
    else some (s.add [c] .double)
  | .doubleEscaped =>
    some (if c ∈ ['$', '`', '"', '\\'] then s.add [c] .double
      else if c = '\n' then { s with mode := .double }
      else s.add ['\\', c] .double)
  | .comment => if c = '\n' then none else some s

def scan (s : State) : Text → Option State
  | [] => some s
  | c :: t => (s.step c).bind fun s => scan s t

def finish (s : State) : Option (List Text) :=
  match s.mode with
  | .plain | .comment => some (s.words ++ s.word.toList)
  | _ => none

end State

def words (line : Text) : Option (List Text) := (State.start.scan line).bind State.finish

/-- A text that is a word as it stands. -/
structure Word (t : Text) : Prop where
  nonempty : t ≠ []
  plain : ∀ c ∈ t, isPlain c = true
  leading : ∀ c ∈ t.head?, isLeading c = false

/-- Words after one another, each with a blank before it. -/
def spaced (ws : List Text) : Text := ws.flatMap fun w => ' ' :: w

namespace State

theorem scan_append (s : State) (t u : Text) :
    s.scan (t ++ u) = (s.scan t).bind fun s => s.scan u := by
  induction t generalizing s with
  | nil => rfl
  | cons c t ih =>
    rw [List.cons_append, scan, scan, Option.bind_assoc]
    exact Option.bind_congr fun s _ => ih s

theorem stepPlain_of_plain {s : State} {c : Char} (hc : isPlain c = true)
    (hleading : s.word = none → isLeading c = false) : s.stepPlain c = some (s.add [c] .plain) := by
  simp only [isPlain, Bool.and_eq_true, Bool.not_eq_true', bne_iff_ne] at hc
  obtain ⟨⟨⟨⟨hblank, hactive⟩, hslash⟩, hsingle⟩, hdouble⟩ := hc
  have hfirst : (s.word.isNone && c == '#') = false ∧ (s.word.isNone && c == '~') = false := by
    cases hword : s.word with
    | none =>
      have := hleading hword
      simp only [isLeading, Bool.or_eq_false_iff] at this
      simp [this.1, this.2]
    | some w => simp
  unfold stepPlain
  rw [hblank, hactive, hfirst.1, hfirst.2, if_neg Bool.false_ne_true, if_neg Bool.false_ne_true,
    if_neg hslash, if_neg hsingle, if_neg hdouble, if_neg Bool.false_ne_true,
    if_neg Bool.false_ne_true]

/-- Plain characters go on with a word. -/
theorem scan_plain {s : State} {t : Text} {w : Text} (hmode : s.mode = .plain)
    (hword : s.word = some w) (ht : ∀ c ∈ t, isPlain c = true) :
    s.scan t = some ⟨s.words, some (w ++ t), .plain⟩ := by
  induction t generalizing s w with
  | nil =>
    obtain ⟨words, word, mode⟩ := s
    cases hmode
    cases hword
    rw [List.append_nil]
    rfl
  | cons c t ih =>
    have hstep : s.step c = some (s.add [c] .plain) := by
      unfold step
      rw [hmode]
      exact stepPlain_of_plain (ht c List.mem_cons_self) fun h => by
        rw [hword] at h
        cases h
    rw [scan, hstep, Option.bind_some, ih rfl (w := w ++ [c]) (by simp [add, hword])
      fun d hd => ht d (List.mem_cons_of_mem _ hd)]
    simp [add]

/-- A word that stands by itself is read as it is. -/
theorem scan_word {s : State} {t : Text} (hmode : s.mode = .plain) (hword : s.word = none)
    (ht : Word t) : s.scan t = some ⟨s.words, some t, .plain⟩ := by
  obtain ⟨hne, hplain, hleading⟩ := ht
  cases t with
  | nil => exact absurd rfl hne
  | cons c t =>
    have hstep : s.step c = some (s.add [c] .plain) := by
      unfold step
      rw [hmode]
      exact stepPlain_of_plain (hplain c List.mem_cons_self) fun _ => hleading c rfl
    rw [scan, hstep, Option.bind_some, scan_plain rfl (w := [c]) (by simp [add, hword])
      fun d hd => hplain d (List.mem_cons_of_mem _ hd)]
    rfl

/-- Words after a blank each end the one before. -/
theorem scan_spaced {s : State} {ws : List Text} (hmode : s.mode = .plain)
    (hws : ∀ w ∈ ws, Word w) :
    (s.scan (spaced ws)).bind finish = some (s.words ++ s.word.toList ++ ws) := by
  induction ws generalizing s with
  | nil =>
    rw [spaced, List.flatMap_nil, scan, Option.bind_some, finish, hmode, List.append_nil]
  | cons w ws ih =>
    have hblank : s.step ' ' = some s.close := by
      unfold step
      rw [hmode]
      rfl
    show (s.scan (' ' :: w ++ spaced ws)).bind finish = _
    rw [scan_append, scan, hblank, Option.bind_some,
      scan_word (s := s.close) hmode rfl (hws w List.mem_cons_self), Option.bind_some,
      ih rfl fun v hv => hws v (List.mem_cons_of_mem _ hv)]
    simp [close]

/-- A blank that is escaped belongs to the word. -/
theorem scan_escaped {s : State} {w : Text} {ws : List Text} (hmode : s.mode = .escaped)
    (hw : Word w) (hws : ∀ w ∈ ws, Word w) :
    (s.scan (spaced (w :: ws))).bind finish
      = some (s.words ++ [s.word.getD [] ++ [' '] ++ w] ++ ws) := by
  have hstep : s.step ' ' = some (s.add [' '] .plain) := by
    unfold step
    rw [hmode]
    rfl
  show (s.scan (' ' :: w ++ spaced ws)).bind finish = _
  rw [scan_append, scan, hstep, Option.bind_some, scan_plain rfl rfl hw.plain, Option.bind_some,
    scan_spaced rfl hws]
  rfl

/-- What is neither a quote nor a backslash leaves quotes open. -/
theorem scan_quoted {s : State} {t : Text} (hmode : s.mode = .single ∨ s.mode = .double)
    (ht : ∀ c ∈ t, c = ' ' ∨ isPlain c = true) : (s.scan t).bind finish = none := by
  induction t generalizing s with
  | nil =>
    rw [scan, Option.bind_some, finish]
    rcases hmode with h | h <;> rw [h]
  | cons c t ih =>
    have hc : c ≠ '\'' ∧ c ≠ '"' ∧ c ≠ '\\' ∧ c ≠ '$' ∧ c ≠ '`' := by
      rcases ht c List.mem_cons_self with rfl | hplain
      · decide
      · refine ⟨?_, ?_, ?_, ?_, ?_⟩ <;> rintro rfl <;> revert hplain <;> decide
    obtain ⟨hsingle, hdouble, hslash, hdollar, htick⟩ := hc
    have hrest := fun {s'} h => ih (s := s') h fun d hd => ht d (List.mem_cons_of_mem _ hd)
    rcases hmode with h | h
    · have hstep : s.step c = some (s.add [c] .single) := by
        unfold step
        rw [h]
        simp only
        rw [if_neg hsingle]
      rw [scan, hstep, Option.bind_some]
      exact hrest (.inl rfl)
    · have hstep : s.step c = some (s.add [c] .double) := by
        unfold step
        rw [h]
        simp only
        rw [if_neg hdouble, if_neg hslash, if_neg (not_or.mpr ⟨hdollar, htick⟩)]
      rw [scan, hstep, Option.bind_some]
      exact hrest (.inr rfl)

theorem spaced_chars {ws : List Text} (hws : ∀ w ∈ ws, Word w) :
    ∀ c ∈ spaced ws, c = ' ' ∨ isPlain c = true := by
  intro c hc
  obtain ⟨w, hw, hcw⟩ := List.mem_flatMap.mp hc
  exact (List.mem_cons.mp hcw).imp_right ((hws w hw).plain c)

theorem scan_comment {s : State} {ws : List Text} (hmode : s.mode = .comment)
    (hws : ∀ w ∈ ws, Word w) :
    (s.scan (spaced ws)).bind finish = some (s.words ++ s.word.toList) := by
  have hstays : ∀ t : Text, (∀ c ∈ t, c = ' ' ∨ isPlain c = true) → s.scan t = some s := by
    intro t ht
    induction t with
    | nil => rfl
    | cons c t ih =>
      have hc : c ≠ '\n' := by
        rcases ht c List.mem_cons_self with rfl | hplain
        · decide
        · rintro rfl
          revert hplain
          decide
      have hstep : s.step c = some s := by
        unfold step
        rw [hmode]
        exact if_neg hc
      rw [scan, hstep, Option.bind_some]
      exact ih fun d hd => ht d (List.mem_cons_of_mem _ hd)
  rw [hstays _ (spaced_chars hws), Option.bind_some, finish, hmode]

/-! ## What is taken away is missing -/

/-- The characters that the words hold so far, with a backslash that may still stand. -/
def total (s : State) : Nat :=
  (s.words.map List.length).sum + (s.word.getD []).length
    + if s.mode = .doubleEscaped then 1 else 0

theorem total_step {s s' : State} {c : Char} (h : s.step c = some s') :
    s'.total ≤ s.total + 1 := by
  obtain ⟨words, word, mode⟩ := s
  have hclose : (word.toList.map List.length).sum = (word.getD []).length := by
    cases word with
    | none => simp
    | some w => simp
  cases mode with
  | plain =>
    simp only [step, stepPlain] at h
    repeat' split at h
    all_goals simp only [Option.some.injEq, reduceCtorEq] at h
    all_goals subst h
    · simp [total, close, hclose]
    · simp [total]
    · simp [total, add]
    · simp [total, add]
    · simp [total]
    · simp [total, add]
      omega
  | escaped =>
    simp only [step, Option.some.injEq] at h
    split at h
    all_goals
      subst h
      simp [total, add]
      try omega
  | single =>
    simp only [step, Option.some.injEq] at h
    split at h
    all_goals
      subst h
      simp [total, add]
      try omega
  | double =>
    simp only [step] at h
    repeat' split at h
    all_goals simp only [Option.some.injEq, reduceCtorEq] at h
    all_goals subst h
    · simp [total]
    · simp [total]
    · simp [total, add]
      omega
  | doubleEscaped =>
    simp only [step, Option.some.injEq] at h
    repeat' split at h
    all_goals
      subst h
      simp [total, add]
      try omega
  | comment =>
    simp only [step] at h
    split at h
    · cases h
    · cases h
      omega

/-- A text that is read as it stands, from the start. -/
def Whole (t : Text) (s : State) : Prop :=
  t = [] ∧ s = start ∨ Word t ∧ s = ⟨[], some t, .plain⟩

theorem whole_step {t : Text} {s s' : State} {c : Char} (hwhole : Whole t s)
    (h : s.step c = some s') : Whole (t ++ [c]) s' ∨ s'.total < (t ++ [c]).length := by
  have hs : s.words = [] ∧ s.word.getD [] = t ∧ s.mode = .plain
      ∧ (s.word = none ∧ t = [] ∨ s.word = some t ∧ Word t) := by
    rcases hwhole with ⟨rfl, rfl⟩ | ⟨hword, rfl⟩
    · exact ⟨rfl, rfl, rfl, .inl ⟨rfl, rfl⟩⟩
    · exact ⟨rfl, rfl, rfl, .inr ⟨rfl, hword⟩⟩
  obtain ⟨hwords, hlast, hmode, hword⟩ := hs
  by_cases hplain : isPlain c = true ∧ (s.word = none → isLeading c = false)
  · left
    unfold step at h
    rw [hmode] at h
    simp only at h
    rw [stepPlain_of_plain hplain.1 hplain.2] at h
    cases h
    refine .inr ⟨⟨by simp, fun d hd => ?_, fun d hd => ?_⟩, ?_⟩
    · rcases List.mem_append.mp hd with hd | hd
      · rcases hword with ⟨-, rfl⟩ | ⟨-, hword⟩
        · cases hd
        · exact hword.plain d hd
      · rw [List.mem_singleton.mp hd]
        exact hplain.1
    · rcases hword with ⟨hnone, rfl⟩ | ⟨-, hword⟩
      · cases hd
        exact hplain.2 hnone
      · obtain ⟨b, t, rfl⟩ := List.exists_cons_of_ne_nil hword.nonempty
        exact hword.leading d hd
    · simp [add, hwords, hlast]
  · right
    unfold step at h
    rw [hmode] at h
    simp only [stepPlain] at h
    rw [List.length_append, List.length_singleton]
    have hbefore : (s.words.map List.length).sum = 0 := by rw [hwords]; rfl
    have hlength : (s.word.toList.map List.length).sum = t.length := by
      rcases hword with ⟨hnone, rfl⟩ | ⟨hsome, -⟩
      · rw [hnone]
        rfl
      · rw [hsome]
        simp
    split at h
    · cases h
      simp [total, close, hbefore, hlength, hmode]
    next hblank =>
      split at h
      · cases h
      next hactive =>
        split at h
        · cases h
          simp [total, hbefore, hlast]
        next hslash =>
          split at h
          · cases h
            simp [total, add, hbefore, hlast]
          next hsingle =>
            split at h
            · cases h
              simp [total, add, hbefore, hlast]
            next hdouble =>
              have hc : isPlain c = true := by
                simp [isPlain, hblank, hactive, hslash, hsingle, hdouble]
              split at h
              · cases h
                simp [total, hbefore, hlast]
              next hhash =>
                split at h
                · cases h
                next htilde =>
                  refine absurd ⟨hc, fun hnone => ?_⟩ hplain
                  simp only [hnone, Option.isNone_none, Bool.true_and, Bool.not_eq_true] at *
                  simp [isLeading, hhash, htilde]

/-- A text is read as it stands, or some of it is missing from the words. -/
theorem scan_whole_or {t : Text} {s : State} (h : start.scan t = some s) :
    Whole t s ∨ s.total < t.length := by
  induction t using List.reverseRecOn generalizing s with
  | nil =>
    cases h
    exact .inl (.inl ⟨rfl, rfl⟩)
  | append_singleton t c ih =>
    rw [scan_append] at h
    obtain ⟨s', hs', h⟩ := Option.bind_eq_some_iff.mp h
    obtain ⟨s'', hstep, h⟩ := Option.bind_eq_some_iff.mp h
    cases h
    rcases ih hs' with hwhole | hlost
    · exact whole_step hwhole hstep
    · right
      have := total_step hstep
      rw [List.length_append, List.length_singleton]
      omega

end State

section

open State

/-- A text before other words is a word of its own exactly where every character is plain. -/
theorem words_spaced_iff {t w : Text} {ws : List Text} (hw : Word w) (hws : ∀ w ∈ ws, Word w) :
    words (t ++ spaced (w :: ws)) = some (t :: w :: ws) ↔ Word t := by
  have hall : ∀ v ∈ w :: ws, Word v := List.forall_mem_cons.mpr ⟨hw, hws⟩
  unfold words
  rw [scan_append, Option.bind_assoc]
  constructor
  · intro h
    obtain ⟨s, hs, h⟩ := Option.bind_eq_some_iff.mp h
    rcases scan_whole_or hs with (⟨rfl, rfl⟩ | ⟨hword, -⟩) | hlost
    · -- nothing is no word
      rw [scan_spaced rfl hall] at h
      have := congrArg List.length (Option.some.inj h)
      simp [start] at this
    · exact hword
    · -- some of it is missing from the words, so it is not one of them
      exfalso
      have hfirst : s.words = [t] ∨ (s.words = [] ∧ s.word = some t) → False := by
        intro hword
        have hsum : t.length ≤ (s.words.map List.length).sum + (s.word.getD []).length := by
          rcases hword with hwords | ⟨hwords, hword⟩
          · rw [hwords]
            show t.length ≤ t.length + 0 + _
            omega
          · rw [hwords, hword]
            show t.length ≤ 0 + t.length
            omega
        unfold total at hlost
        omega
      cases hmode : s.mode with
      | plain =>
        rw [scan_spaced hmode hall] at h
        have heq : s.words ++ s.word.toList ++ (w :: ws) = [t] ++ (w :: ws) := Option.some.inj h
        have hlist : s.words ++ s.word.toList = [t] := List.append_cancel_right heq
        cases hword : s.word with
        | none =>
          rw [hword, Option.toList_none, List.append_nil] at hlist
          exact hfirst (.inl hlist)
        | some v =>
          rw [hword, Option.toList_some] at hlist
          have hnil : s.words = [] := by
            have := congrArg List.length hlist
            simpa using this
          rw [hnil, List.nil_append, List.singleton_inj] at hlist
          exact hfirst (.inr ⟨hnil, by rw [hword, hlist]⟩)
      | escaped =>
        rw [scan_escaped hmode hw hws] at h
        have heq := Option.some.inj h
        have hlength := congrArg List.length heq
        simp only [List.length_append, List.length_cons, List.length_nil] at hlength
        obtain ⟨v, hv⟩ := List.length_eq_one_iff.mp (by omega : s.words.length = 1)
        rw [hv] at heq
        have : v = t := (List.cons.inj heq).1
        exact hfirst (.inl (by rw [hv, this]))
      | single =>
        rw [scan_quoted (.inl hmode) (spaced_chars hall)] at h
        cases h
      | double =>
        rw [scan_quoted (.inr hmode) (spaced_chars hall)] at h
        cases h
      | doubleEscaped =>
        have hstep : s.step ' ' = some (s.add ['\\', ' '] .double) := by
          unfold step
          rw [hmode]
          rfl
        rw [show spaced (w :: ws) = ' ' :: (w ++ spaced ws) from rfl, scan, hstep,
          Option.bind_some, scan_quoted (.inr rfl)] at h
        · cases h
        · intro c hc
          exact spaced_chars hall c (List.mem_cons_of_mem _ hc)
      | comment =>
        rw [scan_comment hmode hall] at h
        have heq := Option.some.inj h
        cases hwords : s.words with
        | nil =>
          rw [hwords] at heq
          have := congrArg List.length heq
          have hle : s.word.toList.length ≤ 1 := by cases s.word <;> simp
          simp only [List.nil_append, List.length_cons] at this
          omega
        | cons v rest =>
          rw [hwords] at heq
          have hv : v = t := (List.cons.inj heq).1
          simp only [total, hwords, hv, List.map_cons, List.sum_cons] at hlost
          omega
  · intro h
    rw [scan_word rfl rfl h, Option.bind_some, scan_spaced rfl hall]
    rfl

end

end Shell
