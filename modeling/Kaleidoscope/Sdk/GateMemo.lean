import Kaleidoscope.Lib.Memo
import Kaleidoscope.Sdk.Environment
import Kaleidoscope.Sdk.Payload

/-!
# The memo of the gate's answers

`kscope gate` is asked once for each engine and each set of directory variables.  The key of an
answer joins the variables to one text, in which a value may look like the next variable, and an
unset variable like an empty one.

    directoryKey_inj        the key tells plain environments apart
    directoryKey_confused   and no other from all environments
    gate_memo_truthful      over plain environments each answer is one of the engine under them
-/

namespace Kaleidoscope.Sdk

open Unicode (Points)
open JsonReader (ofText)

/-! ## Algorithm -/

/-- What the engine says about its own build. -/
structure GateStatus where
  enforcing : Bool
  keyFile : Option Points
  deriving DecidableEq

/-- `GateStatus(enforcing=False, key_file=None)` and `UNENFORCED` -/
def unenforced : GateStatus := ⟨false, none⟩

/-- `_DIRECTORY_VARIABLES` and `DIRECTORY_VARIABLES` -/
def directoryVariables : List Points :=
  [ofText "KSCOPE_ENTITLEMENT_HOME", ofText "HOME", ofText "APPDATA", ofText "XDG_CONFIG_HOME"]

/-- `_directory_key` -/
def directoryKey (env : Environment) : Points :=
  (ofText "|").intercalate
    (directoryVariables.map fun name => name ++ ofText "=" ++ (env name).getD [])

/-- What `stat` says of a command: when it was written, in nanoseconds, and its size. -/
structure CommandStat where
  mtime : Int
  size : Nat
  deriving DecidableEq

/-- A call of `gate_status`: the command, its file where it can be examined, and the environment in
force. -/
structure GateQuestion where
  command : Points
  stat : Option CommandStat
  env : Environment

def formatInteger (i : Int) : Points := sign (decide (i < 0)) ++ decimal i.natAbs

/-- `cacheKey` -/
def cacheKey (q : GateQuestion) : Option Points :=
  q.stat.map fun stat => q.command ++ ofText "|" ++ formatInteger stat.mtime ++ ofText "|"
    ++ decimal stat.size ++ ofText "|" ++ directoryKey q.env

/-- The arguments of `_gate_status_cached`. -/
def cachedArguments (q : GateQuestion) : Points × Option CommandStat × Points :=
  (q.command, q.stat, directoryKey q.env)

/-- What a call answers, the memo after it, and the answers that the engine gave for it. -/
abbrev GateCall (κ : Type) :=
  GateQuestion → List (κ × GateStatus) → Option GateStatus →
    Option GateStatus × List (κ × GateStatus) × List (GateQuestion × GateStatus)

/-- `gate_status`, where the engine would now be taken to say `engine`; nothing, where its answer
makes the probe raise. -/
def gateStatusPython : GateCall (Points × Option CommandStat × Points) := fun q memo engine =>
  match q.stat with
  | none => (some unenforced, memo, [])
  | some _ => Memo.ask (Memo.Policy.lru 8) cachedArguments memo q engine

/-- `gateStatus` -/
def gateStatusTypescript : GateCall (Option Points) := fun q memo engine =>
  match cacheKey q with
  | none => (engine, memo, (engine.map fun status => (q, status)).toList)
  | some _ => Memo.ask Memo.Policy.map cacheKey memo q engine

/-! ## Runs -/

/-- A process: its variables, the files of the commands, the memo, the answers of the engine so
far, and those of the calls. -/
structure GateState (κ : Type) where
  env : Environment
  files : Points → Option CommandStat
  memo : List (κ × GateStatus)
  asked : List (GateQuestion × GateStatus)
  served : List (GateQuestion × GateStatus)

inductive GateEvent where
  | setEnvironment (env : Environment)
  | setFiles (files : Points → Option CommandStat)
  /-- `clear_gate_status_cache` and `resetGateStatusCache` -/
  | clear
  | gateStatus (command : Points) (engine : Option GateStatus)

def GateState.question {κ : Type} (s : GateState κ) (command : Points) : GateQuestion :=
  ⟨command, s.files command, s.env⟩

def GateState.step {κ : Type} (call : GateCall κ) (s : GateState κ) : GateEvent → GateState κ
  | .setEnvironment env => { s with env }
  | .setFiles files => { s with files }
  | .clear => { s with memo := [] }
  | .gateStatus command engine =>
    let q := s.question command
    let (answer, memo, given) := call q s.memo engine
    { s with
      memo
      asked := given ++ s.asked
      served := (answer.map fun status => (q, status)).toList ++ s.served }

def GateState.run {κ : Type} (call : GateCall κ) (s : GateState κ) (events : List GateEvent) :
    GateState κ :=
  events.foldl (GateState.step call) s

/-- A process that has called nothing. -/
def GateState.start (κ : Type) (env : Environment) (files : Points → Option CommandStat) :
    GateState κ :=
  ⟨env, files, [], [], []⟩

/-! ## Statement -/

/-- The four variables, set or unset. -/
def directories (env : Environment) : List (Option Points) := directoryVariables.map env

/-- The same engine, under the same variables. -/
structure SameGate (q q' : GateQuestion) : Prop where
  command : q.command = q'.command
  stat : q.stat = q'.stat
  directories : directories q.env = directories q'.env

/-- Each answer is one that the engine gave under the variables in force at the call; a command
that cannot be examined may be answered without it. -/
def GateState.Truthful {κ : Type} (s : GateState κ) : Prop :=
  ∀ q status, (q, status) ∈ s.served →
    q.stat = none ∧ status = unenforced ∨ ∃ q', (q', status) ∈ s.asked ∧ SameGate q' q

/-- What begins a variable in the key, behind the first. -/
def variableStart (name : Points) : Points := ofText "|" ++ (name ++ ofText "=")

/-- No variable is set to nothing, and none of the last three looks like itself again. -/
structure PlainDirectories (env : Environment) : Prop where
  nonempty : ∀ name ∈ directoryVariables, env name ≠ some []
  home : ¬variableStart (ofText "HOME") <:+: (env (ofText "HOME")).getD []
  appdata : ¬variableStart (ofText "APPDATA") <:+: (env (ofText "APPDATA")).getD []
  config : ¬variableStart (ofText "XDG_CONFIG_HOME") <:+: (env (ofText "XDG_CONFIG_HOME")).getD []

/-- Nor does the first, which follows the command in the key of TypeScript. -/
structure PlainKey (env : Environment) : Prop where
  plain : PlainDirectories env
  first : ¬variableStart (ofText "KSCOPE_ENTITLEMENT_HOME")
    <:+: (env (ofText "KSCOPE_ENTITLEMENT_HOME")).getD []

/-! ## The key -/

theorem directoryKey_eq (env : Environment) :
    directoryKey env
      = ofText "KSCOPE_ENTITLEMENT_HOME" ++ ofText "="
          ++ (env (ofText "KSCOPE_ENTITLEMENT_HOME")).getD []
        ++ variableStart (ofText "HOME") ++ (env (ofText "HOME")).getD []
        ++ variableStart (ofText "APPDATA") ++ (env (ofText "APPDATA")).getD []
        ++ variableStart (ofText "XDG_CONFIG_HOME") ++ (env (ofText "XDG_CONFIG_HOME")).getD [] := by
  unfold directoryKey directoryVariables variableStart
  simp [List.intercalate, List.intersperse]

theorem bar_eq : ofText "|" = [0x7C] := by decide +kernel

theorem variableStart_eq (name : Points) : variableStart name = 0x7C :: (name ++ ofText "=") := by
  unfold variableStart
  rw [bar_eq]
  rfl

/-- A text before a variable, and its value, where the value does not look like it again. -/
theorem variableStart_inj {name x y x' y' : Points} (hname : 0x7C ∉ name ++ ofText "=")
    (hy : ¬variableStart name <:+: y) (hy' : ¬variableStart name <:+: y')
    (h : x ++ variableStart name ++ y = x' ++ variableStart name ++ y') : x = x' ∧ y = y' := by
  rw [variableStart_eq] at hy hy' h
  exact Memo.append_sep_inj hname hy hy' h

theorem eq_of_getD_eq {o o' : Option Points} (h : o ≠ some []) (h' : o' ≠ some [])
    (heq : o.getD [] = o'.getD []) : o = o' := by
  cases o with
  | none =>
    cases o' with
    | none => rfl
    | some v => exact absurd (congrArg some heq.symm) h'
  | some v =>
    cases o' with
    | none => exact absurd (congrArg some heq) h
    | some v' => exact congrArg some heq

theorem forall_directoryVariables {P : Points → Prop} (first : P (ofText "KSCOPE_ENTITLEMENT_HOME"))
    (home : P (ofText "HOME")) (appdata : P (ofText "APPDATA"))
    (config : P (ofText "XDG_CONFIG_HOME")) : ∀ name ∈ directoryVariables, P name := by
  intro name hname
  unfold directoryVariables at hname
  simp only [List.mem_cons, List.not_mem_nil, or_false] at hname
  rcases hname with rfl | rfl | rfl | rfl
  · exact first
  · exact home
  · exact appdata
  · exact config

/-- Values that are equal as the key has them are equal, where none of them is empty. -/
theorem directories_eq {env env' : Environment} (h : PlainDirectories env)
    (h' : PlainDirectories env')
    (heq : ∀ name ∈ directoryVariables, (env name).getD [] = (env' name).getD []) :
    directories env = directories env' :=
  List.map_congr_left fun name hname =>
    eq_of_getD_eq (h.nonempty name hname) (h'.nonempty name hname) (heq name hname)

/-- The last three values, from a text that ends in them. -/
theorem values_inj {env env' : Environment} (h : PlainDirectories env) (h' : PlainDirectories env')
    {x x' : Points}
    (heq : x ++ variableStart (ofText "HOME") ++ (env (ofText "HOME")).getD []
        ++ variableStart (ofText "APPDATA") ++ (env (ofText "APPDATA")).getD []
        ++ variableStart (ofText "XDG_CONFIG_HOME") ++ (env (ofText "XDG_CONFIG_HOME")).getD []
      = x' ++ variableStart (ofText "HOME") ++ (env' (ofText "HOME")).getD []
        ++ variableStart (ofText "APPDATA") ++ (env' (ofText "APPDATA")).getD []
        ++ variableStart (ofText "XDG_CONFIG_HOME") ++ (env' (ofText "XDG_CONFIG_HOME")).getD []) :
    x = x' ∧ (env (ofText "HOME")).getD [] = (env' (ofText "HOME")).getD []
      ∧ (env (ofText "APPDATA")).getD [] = (env' (ofText "APPDATA")).getD []
      ∧ (env (ofText "XDG_CONFIG_HOME")).getD [] = (env' (ofText "XDG_CONFIG_HOME")).getD [] := by
  obtain ⟨heq, hconfig⟩ := variableStart_inj (by decide +kernel) h.config h'.config heq
  obtain ⟨heq, happdata⟩ := variableStart_inj (by decide +kernel) h.appdata h'.appdata heq
  obtain ⟨heq, hhome⟩ := variableStart_inj (by decide +kernel) h.home h'.home heq
  exact ⟨heq, hhome, happdata, hconfig⟩

/-- The key tells plain environments apart. -/
theorem directoryKey_inj {env env' : Environment} (h : PlainDirectories env)
    (h' : PlainDirectories env') (heq : directoryKey env = directoryKey env') :
    directories env = directories env' := by
  rw [directoryKey_eq, directoryKey_eq] at heq
  obtain ⟨hfirst, hhome, happdata, hconfig⟩ := values_inj h h' heq
  have hfirst := List.append_cancel_left hfirst
  exact directories_eq h h' (forall_directoryVariables hfirst hhome happdata hconfig)

/-! ## Confusion -/

/-- The same key, read with the end of one variable in the middle of the next. -/
def reread (env : Environment) (before name y z : Points) : Environment := fun n =>
  if n = before then some ((env before).getD [] ++ variableStart name ++ y)
  else if n = name then some z
  else env n

theorem reread_before (env : Environment) (before name y z : Points) :
    reread env before name y z before = some ((env before).getD [] ++ variableStart name ++ y) :=
  if_pos rfl

theorem reread_name (env : Environment) {before name : Points} (y z : Points) (h : name ≠ before) :
    reread env before name y z name = some z := by
  unfold reread
  rw [if_neg h, if_pos rfl]

theorem reread_other (env : Environment) {before name n : Points} (y z : Points) (h : n ≠ before)
    (h' : n ≠ name) : reread env before name y z n = env n := by
  unfold reread
  rw [if_neg h, if_neg h']

theorem reread_directories {env : Environment} {before name y z : Points}
    (hmem : name ∈ directoryVariables) (hne : name ≠ before)
    (hvalue : y ++ variableStart name ++ z = (env name).getD []) :
    directories env ≠ directories (reread env before name y z) := by
  intro heq
  have hname := List.map_inj_left.mp heq name hmem
  rw [reread_name env y z hne] at hname
  rw [hname, variableStart_eq] at hvalue
  have hlen := congrArg List.length hvalue
  simp only [List.length_append, List.length_cons, Option.getD_some] at hlen
  omega

/-- An environment that is not plain has the key of another one. -/
theorem directoryKey_confused {env : Environment} (h : ¬PlainDirectories env) :
    ∃ env', directoryKey env = directoryKey env' ∧ directories env ≠ directories env' := by
  have hnodup : directoryVariables.Nodup := by
    decide +kernel
  unfold directoryVariables at hnodup
  simp only [List.nodup_cons, List.mem_cons, List.not_mem_nil, or_false, not_or] at hnodup
  obtain ⟨⟨hah, haa, hax⟩, ⟨hha, hhx⟩, hx, -⟩ := hnodup
  by_cases hempty : ∃ name ∈ directoryVariables, env name = some []
  · obtain ⟨name, hmem, hname⟩ := hempty
    refine ⟨fun n => if n = name then none else env n, ?_, fun heq => ?_⟩
    · unfold directoryKey
      refine congrArg _ (List.map_congr_left fun n _ => ?_)
      dsimp only
      by_cases hn : n = name
      · rw [if_pos hn, hn, hname]
        rfl
      · rw [if_neg hn]
    · have hsame := List.map_inj_left.mp heq name hmem
      rw [hname, if_pos rfl] at hsame
      cases hsame
  · by_cases hhome : variableStart (ofText "HOME") <:+: (env (ofText "HOME")).getD []
    · obtain ⟨y, z, hvalue⟩ := hhome
      refine ⟨reread env (ofText "KSCOPE_ENTITLEMENT_HOME") (ofText "HOME") y z, ?_,
        reread_directories (by decide +kernel) (Ne.symm hah) hvalue⟩
      rw [directoryKey_eq, directoryKey_eq, reread_before, reread_name env y z (Ne.symm hah),
        reread_other env y z (Ne.symm haa) (Ne.symm hha),
        reread_other env y z (Ne.symm hax) (Ne.symm hhx), ← hvalue]
      simp only [Option.getD_some, List.append_assoc]
    · by_cases happdata : variableStart (ofText "APPDATA") <:+: (env (ofText "APPDATA")).getD []
      · obtain ⟨y, z, hvalue⟩ := happdata
        refine ⟨reread env (ofText "HOME") (ofText "APPDATA") y z, ?_,
          reread_directories (by decide +kernel) (Ne.symm hha) hvalue⟩
        rw [directoryKey_eq, directoryKey_eq, reread_before, reread_name env y z (Ne.symm hha),
          reread_other env y z hah haa, reread_other env y z (Ne.symm hhx) (Ne.symm hx), ← hvalue]
        simp only [Option.getD_some, List.append_assoc]
      · by_cases hconfig : variableStart (ofText "XDG_CONFIG_HOME")
            <:+: (env (ofText "XDG_CONFIG_HOME")).getD []
        · obtain ⟨y, z, hvalue⟩ := hconfig
          refine ⟨reread env (ofText "APPDATA") (ofText "XDG_CONFIG_HOME") y z, ?_,
            reread_directories (by decide +kernel) (Ne.symm hx) hvalue⟩
          rw [directoryKey_eq, directoryKey_eq, reread_before, reread_name env y z (Ne.symm hx),
            reread_other env y z haa hax, reread_other env y z hha hhx, ← hvalue]
          simp only [Option.getD_some, List.append_assoc]
        · exact absurd ⟨fun name hmem hname => hempty ⟨name, hmem, hname⟩, hhome, happdata,
            hconfig⟩ h

/-! ## The key of TypeScript -/

theorem decimal_injective {n m : Nat} (h : decimal n = decimal m) : n = m := by
  have hdigits : Nat.toDigits 10 n = Nat.toDigits 10 m :=
    List.map_injective_iff.mpr (fun _ _ h => Char.toNat_inj.mp h) h
  rw [← @Nat.ofDigitChars_ten_toDigits n, ← @Nat.ofDigitChars_ten_toDigits m, hdigits]

theorem notMem_decimal {c : Nat} (hc : JsonReader.isDigit c = false) (n : Nat) :
    c ∉ decimal n := by
  intro hmem
  rw [decimal_digit hmem] at hc
  cases hc

theorem formatInteger_injective {i j : Int} (h : formatInteger i = formatInteger j) : i = j := by
  have hsign : ∀ n : Nat, (decimal n).head? ≠ some 0x2D := fun n hhead =>
    notMem_decimal rfl n (List.mem_of_mem_head? hhead)
  have hminus : ofText "-" = [0x2D] := by
    decide +kernel
  unfold formatInteger sign at h
  by_cases hi : i < 0
  · by_cases hj : j < 0
    · simp only [hi, hj, decide_true, if_true] at h
      have := decimal_injective (List.append_cancel_left h)
      omega
    · simp only [hi, hj, decide_true, decide_false, if_true, Bool.false_eq_true, if_false,
        List.nil_append, hminus] at h
      exact absurd (congrArg List.head? h).symm (hsign _)
  · by_cases hj : j < 0
    · simp only [hi, hj, decide_true, decide_false, if_true, Bool.false_eq_true, if_false,
        List.nil_append, hminus] at h
      exact absurd (congrArg List.head? h) (hsign _)
    · simp only [hi, hj, decide_false, Bool.false_eq_true, if_false, List.nil_append] at h
      have := decimal_injective h
      omega

theorem not_bar_infix {t : Points} (h : 0x7C ∉ t) : ¬[0x7C] <:+: t := by
  rintro ⟨y, z, rfl⟩
  exact h (List.mem_append_left z (List.mem_append_right y List.mem_cons_self))

/-- The key of TypeScript tells the calls of a plain run apart. -/
theorem cacheKey_inj {q q' : GateQuestion} (h : PlainKey q.env) (h' : PlainKey q'.env)
    (hstat : q.stat ≠ none) (heq : cacheKey q = cacheKey q') : SameGate q q' := by
  obtain ⟨command, stat, env⟩ := q
  obtain ⟨command', stat', env'⟩ := q'
  cases stat with
  | none => exact absurd rfl hstat
  | some stat =>
    cases stat' with
    | none => cases heq
    | some stat' =>
      have heq := Option.some.inj heq
      dsimp only at h h' heq
      have hkey : ∀ (x : Points) (env : Environment), x ++ ofText "|" ++ directoryKey env
          = x ++ variableStart (ofText "KSCOPE_ENTITLEMENT_HOME")
            ++ (env (ofText "KSCOPE_ENTITLEMENT_HOME")).getD []
            ++ variableStart (ofText "HOME") ++ (env (ofText "HOME")).getD []
            ++ variableStart (ofText "APPDATA") ++ (env (ofText "APPDATA")).getD []
            ++ variableStart (ofText "XDG_CONFIG_HOME")
            ++ (env (ofText "XDG_CONFIG_HOME")).getD [] := by
        intro x env
        rw [directoryKey_eq]
        simp only [variableStart, List.append_assoc]
      rw [hkey, hkey] at heq
      obtain ⟨heq, hhome, happdata, hconfig⟩ := values_inj h.plain h'.plain heq
      obtain ⟨heq, hfirst⟩ := variableStart_inj (by decide +kernel) h.first h'.first heq
      have hdigit : JsonReader.isDigit 0x7C = false := rfl
      have hnot := fun n => not_bar_infix (notMem_decimal hdigit n)
      have hnotInt : ∀ i, ¬[0x7C] <:+: formatInteger i := by
        intro i
        refine not_bar_infix fun hmem => ?_
        unfold formatInteger at hmem
        rcases List.mem_append.mp hmem with hmem | hmem
        · unfold sign at hmem
          split at hmem
          · revert hmem
            decide +kernel
          · cases hmem
        · exact notMem_decimal hdigit _ hmem
      rw [bar_eq] at heq
      obtain ⟨heq, hsize⟩ := Memo.append_sep_inj List.not_mem_nil (hnot _) (hnot _) heq
      obtain ⟨hcommand, hmtime⟩ :=
        Memo.append_sep_inj List.not_mem_nil (hnotInt _) (hnotInt _) heq
      refine ⟨hcommand, ?_, directories_eq h.plain h'.plain
        (forall_directoryVariables hfirst hhome happdata hconfig)⟩
      · obtain ⟨mtime, size⟩ := stat
        obtain ⟨mtime', size'⟩ := stat'
        obtain rfl : mtime = mtime' := formatInteger_injective hmtime
        obtain rfl : size = size' := decimal_injective hsize
        rfl

/-! ## Runs over plain environments -/

/-- What a call does to a memo whose entries stand for answers of the engine: it keeps them so, and
what it answers is one of them under the key of the call, or needs no engine. -/
structure CallSpec {κ : Type} (call : GateCall κ) (key : GateQuestion → κ) : Prop where
  backed : ∀ {asked memo}, Memo.Backed key asked memo → ∀ q engine,
    Memo.Backed key ((call q memo engine).2.2 ++ asked) (call q memo engine).2.1
  own : ∀ q memo engine, ∀ p ∈ (call q memo engine).2.2, p.1 = q
  answer : ∀ {asked memo}, Memo.Backed key asked memo → ∀ q engine status,
    (call q memo engine).1 = some status →
      q.stat = none ∧ status = unenforced
        ∨ (∃ q', (q', status) ∈ (call q memo engine).2.2 ++ asked ∧ q' = q)
        ∨ q.stat ≠ none
          ∧ ∃ q', (q', status) ∈ (call q memo engine).2.2 ++ asked ∧ key q' = key q

theorem gateStatusPython_spec : CallSpec gateStatusPython cachedArguments where
  backed h q engine := by
    unfold gateStatusPython
    split
    · exact h
    · exact (Memo.ask_backed h q engine).1
  own q memo engine := by
    unfold gateStatusPython
    split
    · exact fun p hp => absurd hp List.not_mem_nil
    · exact Memo.ask_computed
  answer h q engine status hanswer := by
    unfold gateStatusPython at hanswer ⊢
    split at hanswer
    next hstat => exact .inl ⟨hstat, (Option.some.inj hanswer).symm⟩
    next stat hstat =>
      rw [hstat]
      exact .inr (.inr ⟨Option.some_ne_none stat, (Memo.ask_backed h q engine).2 status hanswer⟩)

theorem gateStatusTypescript_spec : CallSpec gateStatusTypescript cacheKey where
  backed h q engine := by
    unfold gateStatusTypescript
    split
    · exact h.mono
    · exact (Memo.ask_backed h q engine).1
  own q memo engine := by
    unfold gateStatusTypescript
    split
    · intro p hp
      cases engine with
      | none => cases hp
      | some status => rw [List.mem_singleton.mp hp]
    · exact Memo.ask_computed
  answer h q engine status hanswer := by
    unfold gateStatusTypescript at hanswer ⊢
    cases hkey : cacheKey q with
    | none =>
      rw [hkey] at hanswer
      dsimp only at hanswer
      rw [hanswer]
      exact .inr (.inl ⟨q, List.mem_cons_self, rfl⟩)
    | some key =>
      rw [hkey] at hanswer
      have hstat : q.stat ≠ none := by
        intro hnone
        unfold cacheKey at hkey
        rw [hnone] at hkey
        cases hkey
      have hbacked := (Memo.ask_backed h q engine).2 status hanswer
      rw [hkey] at hbacked
      exact .inr (.inr ⟨hstat, hbacked⟩)

/-- What holds of a process in every state of a run over environments that the key tells apart. -/
structure GateInvariant {κ : Type} (key : GateQuestion → κ) (plain : Environment → Prop)
    (s : GateState κ) : Prop where
  backed : Memo.Backed key s.asked s.memo
  env : plain s.env
  asked : ∀ p ∈ s.asked, plain p.1.env
  truthful : s.Truthful

section

variable {κ : Type} {call : GateCall κ} {key : GateQuestion → κ} {plain : Environment → Prop}

theorem GateInvariant.step (hcall : CallSpec call key)
    (hkey : ∀ q q', plain q.env → plain q'.env → q.stat ≠ none → key q = key q' → SameGate q q')
    {s : GateState κ} (h : GateInvariant key plain s) (event : GateEvent)
    (hplain : ∀ env, event = .setEnvironment env → plain env) :
    GateInvariant key plain (s.step call event) := by
  cases event with
  | setEnvironment env => exact ⟨h.backed, hplain env rfl, h.asked, h.truthful⟩
  | setFiles files => exact ⟨h.backed, h.env, h.asked, h.truthful⟩
  | clear => exact ⟨by simp [GateState.step, Memo.Backed], h.env, h.asked, h.truthful⟩
  | gateStatus command engine =>
    have hanswer := hcall.answer h.backed (s.question command) engine
    have hown := hcall.own (s.question command) s.memo engine
    have hasked : ∀ p ∈ (call (s.question command) s.memo engine).2.2 ++ s.asked,
        plain p.1.env := by
      intro p hp
      rcases List.mem_append.mp hp with hp | hp
      · rw [hown p hp]
        exact h.env
      · exact h.asked p hp
    refine ⟨hcall.backed h.backed _ _, h.env, hasked, fun q status hserved => ?_⟩
    rcases List.mem_append.mp hserved with hserved | hserved
    · obtain ⟨status', hstatus, hpair⟩ := Option.map_eq_some_iff.mp (Option.mem_toList.mp hserved)
      obtain ⟨rfl, rfl⟩ := Prod.mk.inj hpair
      rcases hanswer _ hstatus with hopen | ⟨q', hmem, rfl⟩ | ⟨hstat, q', hmem, hsame⟩
      · exact .inl hopen
      · exact .inr ⟨_, hmem, rfl, rfl, rfl⟩
      · have hgate := hkey _ _ h.env (hasked _ hmem) hstat hsame.symm
        exact .inr ⟨q', hmem, hgate.command.symm, hgate.stat.symm, hgate.directories.symm⟩
    · refine (h.truthful q status hserved).imp_right ?_
      rintro ⟨q', hmem, hgate⟩
      exact ⟨q', List.mem_append_right _ hmem, hgate⟩

theorem GateInvariant.run (hcall : CallSpec call key)
    (hkey : ∀ q q', plain q.env → plain q'.env → q.stat ≠ none → key q = key q' → SameGate q q')
    (events : List GateEvent) : ∀ {s : GateState κ}, GateInvariant key plain s →
      (∀ env, .setEnvironment env ∈ events → plain env) →
      GateInvariant key plain (s.run call events) := by
  induction events with
  | nil => exact fun h _ => h
  | cons event events ih =>
    intro s h hplain
    have hstep := h.step hcall hkey event fun env henv =>
      hplain env (henv ▸ List.mem_cons_self)
    exact ih hstep fun env henv => hplain env (List.mem_cons_of_mem event henv)

theorem GateInvariant.start {env : Environment} (files : Points → Option CommandStat)
    (h : plain env) : GateInvariant key plain (GateState.start κ env files) :=
  ⟨fun _ hp => absurd hp List.not_mem_nil, h, fun _ hp => absurd hp List.not_mem_nil,
    fun _ _ hserved => absurd hserved List.not_mem_nil⟩

end

/-- Two environments with one key have one key with a command, in both languages. -/
theorem keys_eq {env env' : Environment} (command : Points) (stat : CommandStat)
    (h : directoryKey env = directoryKey env') :
    cachedArguments ⟨command, some stat, env⟩ = cachedArguments ⟨command, some stat, env'⟩
      ∧ cacheKey ⟨command, some stat, env⟩ = cacheKey ⟨command, some stat, env'⟩ := by
  unfold cachedArguments cacheKey
  rw [h]
  exact ⟨rfl, rfl⟩

theorem directoryKey_of_keys {env env' : Environment} {command : Points} {stat : CommandStat}
    (h : cachedArguments ⟨command, some stat, env⟩ = cachedArguments ⟨command, some stat, env'⟩
      ∨ cacheKey ⟨command, some stat, env⟩ = cacheKey ⟨command, some stat, env'⟩) :
    directoryKey env = directoryKey env' := by
  rcases h with h | h
  · exact (Prod.mk.inj (Prod.mk.inj h).2).2
  · exact List.append_cancel_left (Option.some.inj h)

/-- The keys of one command tell plain environments apart, and no environment that is not plain
from all others; in a run over plain environments each answer is one that the engine gave under the
variables in force. -/
theorem gate_memo_truthful (command : Points) (stat : CommandStat) :
    (∀ env env' : Environment, PlainDirectories env → PlainDirectories env' →
        cachedArguments ⟨command, some stat, env⟩ = cachedArguments ⟨command, some stat, env'⟩
          ∨ cacheKey ⟨command, some stat, env⟩ = cacheKey ⟨command, some stat, env'⟩ →
        directories env = directories env')
      ∧ (∀ env : Environment, ¬PlainDirectories env →
        ∃ env', cachedArguments ⟨command, some stat, env⟩ = cachedArguments ⟨command, some stat, env'⟩
          ∧ cacheKey ⟨command, some stat, env⟩ = cacheKey ⟨command, some stat, env'⟩
          ∧ directories env ≠ directories env')
      ∧ (∀ (env : Environment) (files : Points → Option CommandStat) (events : List GateEvent),
        PlainDirectories env → (∀ e, .setEnvironment e ∈ events → PlainDirectories e) →
        ((GateState.start _ env files).run gateStatusPython events).Truthful)
      ∧ ∀ (env : Environment) (files : Points → Option CommandStat) (events : List GateEvent),
        PlainKey env → (∀ e, .setEnvironment e ∈ events → PlainKey e) →
        ((GateState.start _ env files).run gateStatusTypescript events).Truthful := by
  refine ⟨fun env env' h h' heq => directoryKey_inj h h' (directoryKey_of_keys heq),
    fun env h => ?_, fun env files events h hevents => ?_,
    fun env files events h hevents => ?_⟩
  · obtain ⟨env', hkey, hne⟩ := directoryKey_confused h
    exact ⟨env', (keys_eq command stat hkey).1, (keys_eq command stat hkey).2, hne⟩
  · refine (GateInvariant.run gateStatusPython_spec (fun q q' hq hq' _ heq => ?_) events
      (GateInvariant.start files h) hevents).truthful
    obtain ⟨hcommand, hrest⟩ := Prod.mk.inj heq
    obtain ⟨hstat, hkey⟩ := Prod.mk.inj hrest
    exact ⟨hcommand, hstat, directoryKey_inj hq hq' hkey⟩
  · exact (GateInvariant.run gateStatusTypescript_spec (fun q q' => cacheKey_inj) events
      (GateInvariant.start files h) hevents).truthful

/-! ## Two environments with one key -/

def kscopeCommand : Points := ofText "/opt/kscope"

def kscopeFiles (command : Points) : Option CommandStat :=
  if command = kscopeCommand then some ⟨1, 2⟩ else none

/-- An environment with two directories. -/
def inDirectories (entitlement home : String) : Environment := fun name =>
  if name = ofText "KSCOPE_ENTITLEMENT_HOME" then some (ofText entitlement)
  else if name = ofText "HOME" then some (ofText home)
  else none

def spilled : Environment := inDirectories "/k|HOME=/a" "/b"

def spilledOver : Environment := inDirectories "/k" "/a|HOME=/b"

/-- What the engine says under the first, and under the second. -/
def answered (directory : String) : GateStatus := ⟨true, some (ofText directory)⟩

def spilledRun : List GateEvent :=
  [.gateStatus kscopeCommand (some (answered "/k|HOME=/a")), .setEnvironment spilledOver,
    .gateStatus kscopeCommand (some (answered "/k"))]

theorem spilled_key : directoryKey spilled = directoryKey spilledOver := by
  decide +kernel

theorem spilled_differ : directories spilled ≠ directories spilledOver := by
  decide +kernel

theorem gate_memo_plain :
    ((GateState.start _ (inDirectories "/k" "/a") kscopeFiles).run gateStatusTypescript
      [.gateStatus kscopeCommand (some (answered "/k"))]).Truthful :=
  (gate_memo_truthful kscopeCommand ⟨1, 2⟩).2.2.2 _ _ _
    ⟨⟨by decide +kernel, by decide +kernel, by decide +kernel, by decide +kernel⟩,
      by decide +kernel⟩
    (by simp)

/-- A second call under a key that was stored is served what was stored. -/
theorem ask_again {κ : Type} [DecidableEq κ] {policy : Memo.Policy κ GateStatus}
    {key : GateQuestion → κ} {q q' : GateQuestion} {status fresh : GateStatus}
    (hkey : key q = key q')
    (hstored : Memo.lookup (policy.store [] (key q) status) (key q) = some status) :
    (Memo.ask policy key [] q (some status)).1 = some status
      ∧ (Memo.ask policy key [] q (some status)).2.2 = [(q, status)]
      ∧ (Memo.ask policy key (Memo.ask policy key [] q (some status)).2.1 q' (some fresh)).1
        = some status
      ∧ (Memo.ask policy key (Memo.ask policy key [] q (some status)).2.1 q' (some fresh)).2.2
        = [] := by
  have hask : Memo.ask policy key [] q (some status)
      = (some status, policy.store [] (key q) status, [(q, status)]) := rfl
  have hagain : Memo.ask policy key (policy.store [] (key q) status) q' (some fresh)
      = (some status, policy.touch (policy.store [] (key q) status) (key q'), []) := by
    unfold Memo.ask
    rw [← hkey, hstored]
  rw [hask, hagain]
  exact ⟨rfl, rfl, rfl, rfl⟩

theorem not_truthful {κ : Type} {s : GateState κ} {env env' : Environment} {status : GateStatus}
    {command : Points} {stat : CommandStat} (hdiffer : directories env ≠ directories env')
    (hserved : (⟨command, some stat, env'⟩, status) ∈ s.served)
    (hasked : s.asked = [(⟨command, some stat, env⟩, status)]) : ¬s.Truthful := by
  intro h
  rcases h _ _ hserved with ⟨hnone, -⟩ | ⟨q', hmem, hgate⟩
  · cases hnone
  · rw [hasked, List.mem_singleton] at hmem
    obtain ⟨rfl, -⟩ := Prod.mk.inj hmem
    exact hdiffer hgate.directories

/-- The second call is served the key file of the first environment. -/
theorem gate_memo_confused :
    ¬(∀ (command : Points) (stat : CommandStat) (env env' : Environment),
        cachedArguments ⟨command, some stat, env⟩ = cachedArguments ⟨command, some stat, env'⟩ →
        directories env = directories env')
      ∧ ¬(∀ (command : Points) (stat : CommandStat) (env env' : Environment),
        cacheKey ⟨command, some stat, env⟩ = cacheKey ⟨command, some stat, env'⟩ →
        directories env = directories env')
      ∧ ¬((GateState.start _ spilled kscopeFiles).run gateStatusPython spilledRun).Truthful
      ∧ ¬((GateState.start _ spilled kscopeFiles).run gateStatusTypescript spilledRun).Truthful := by
  obtain ⟨hpython, htypescript⟩ := keys_eq kscopeCommand ⟨1, 2⟩ spilled_key
  have hfiles : kscopeFiles kscopeCommand = some ⟨1, 2⟩ := if_pos rfl
  refine ⟨fun h => spilled_differ (h _ _ _ _ hpython),
    fun h => spilled_differ (h _ _ _ _ htypescript), ?_, ?_⟩
  · have hcall : ∀ env memo engine, gateStatusPython ⟨kscopeCommand, some ⟨1, 2⟩, env⟩ memo engine
        = Memo.ask (Memo.Policy.lru 8) cachedArguments memo ⟨kscopeCommand, some ⟨1, 2⟩, env⟩
          engine := fun _ _ _ => rfl
    obtain ⟨h1, h2, h3, h4⟩ := @ask_again _ _ (Memo.Policy.lru 8) _ _ _
      (answered "/k|HOME=/a") (answered "/k") hpython (by simp [Memo.lookup, Memo.Policy.lru])
    refine @not_truthful _ _ spilled spilledOver (answered "/k|HOME=/a") kscopeCommand ⟨1, 2⟩
      spilled_differ ?_ ?_
    · simp only [GateState.run, spilledRun, List.foldl_cons, List.foldl_nil, GateState.step,
        GateState.start, GateState.question, hfiles, hcall, h1, h2, h3, h4]
      exact List.mem_cons_self
    · simp only [GateState.run, spilledRun, List.foldl_cons, List.foldl_nil, GateState.step,
        GateState.start, GateState.question, hfiles, hcall, h1, h2, h3, h4]
      rfl
  · have hcall : ∀ env memo engine,
        gateStatusTypescript ⟨kscopeCommand, some ⟨1, 2⟩, env⟩ memo engine
          = Memo.ask Memo.Policy.map cacheKey memo ⟨kscopeCommand, some ⟨1, 2⟩, env⟩ engine :=
      fun _ _ _ => rfl
    obtain ⟨h1, h2, h3, h4⟩ := @ask_again _ _ Memo.Policy.map _ _ _
      (answered "/k|HOME=/a") (answered "/k") htypescript (by simp [Memo.lookup, Memo.Policy.map])
    refine @not_truthful _ _ spilled spilledOver (answered "/k|HOME=/a") kscopeCommand ⟨1, 2⟩
      spilled_differ ?_ ?_
    · simp only [GateState.run, spilledRun, List.foldl_cons, List.foldl_nil, GateState.step,
        GateState.start, GateState.question, hfiles, hcall, h1, h2, h3, h4]
      exact List.mem_cons_self
    · simp only [GateState.run, spilledRun, List.foldl_cons, List.foldl_nil, GateState.step,
        GateState.start, GateState.question, hfiles, hcall, h1, h2, h3, h4]
      rfl

end Kaleidoscope.Sdk
