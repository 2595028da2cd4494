import Mathlib.Order.Monotone.Basic
import Kaleidoscope.Config

/-!
# Loading what was saved

What `save` wrote is what `load` reads, as long as it fits: `load` refuses a file of more than
64 KiB and `save` does not look at the size of what it writes.

    run_loads_iff    after any run of updates that fit, the file loads, and a save that
                     succeeds is found by the next load iff its configuration fits
-/

namespace Kaleidoscope.ConfigStore

open Prog Disk

/-! ## Runs of updates -/

/-- The calls of one update that fail; a failed write may have published its bytes. -/
structure Faults where
  reading : Reading → Option ManagerError
  acquire : Option ManagerError
  write : Option (ManagerError × Bool)

def noFaults : Faults := { reading := fun _ => none, acquire := none, write := none }

section

variable (codec : Codec)

def failing {α : Type} (fault : Option ManagerError) (answer : Result α) : Result α :=
  match fault with
  | none => answer
  | some x => .error x

/-- The environment of an update that runs alone and some of whose calls fail. -/
def faulty (faults : Faults) (file : Option Node) : (e : ConfigEvent) → e.Answer × Option Node
  | .snapshot reading => (failing (faults.reading reading) (snapshotFile codec file), file)
  | .acquire => (failing faults.acquire (.ok ()), file)
  | .write bytes =>
    match faults.write with
    | none => (.ok (), published bytes)
    | some (x, isPublished) => (.error x, if isPublished then published bytes else file)
  | .release => ((), file)

/-- What an update leaves in the file. -/
def executeWith (operation : Operation) (faults : Faults) (file : Option Node) : Option Node :=
  match run (faulty codec faults) (operation.program codec) file with
  | some (_, file') => file'
  | none => file

/-- What a run of updates leaves in the file. -/
def after (steps : List (Operation × Faults)) (file : Option Node) : Option Node :=
  steps.foldl (fun file step => executeWith codec step.1 step.2 file) file

/-- `load` returns the configuration. -/
def Loads (file : Option Node) (config : ManagerConfig) : Prop :=
  run (alone codec) (load codec) file = some (.ok config, file)

/-- What `save` would write is no longer than what `load` reads. -/
def Fits (config : ManagerConfig) : Prop :=
  ∀ final bytes, upgraded config = .ok final → encode codec final = .ok bytes →
    bytes.size ≤ maxManagerConfigBytes

/-- The JSON crate reads back what it wrote. -/
def Codec.RoundTrips : Prop :=
  ∀ config bytes, config.validate = .ok () → config.version = managerConfigVersion →
    encode codec config = .ok bytes → codec.fromSlice bytes = some config

end

variable {codec : Codec} {file : Option Node}

/-! ## One update -/

theorem faulty_noFaults : faulty codec noFaults = alone codec := by
  funext file e
  cases e <;> rfl

theorem run_load : run (alone codec) (load codec) file
    = some ((snapshotFile codec file).bind (decode codec), file) := by
  unfold load readConfig
  cases hs : snapshotFile codec file with
  | error x =>
    show run (alone codec) (ofExcept (snapshotFile codec file) >>= _) file = _
    rw [hs]
    rfl
  | ok snapshot =>
    show run (alone codec) (ofExcept (snapshotFile codec file) >>= _) file = _
    rw [hs]
    rfl

theorem loads_iff {config : ManagerConfig} :
    Loads codec file config ↔
      ∃ snapshot, snapshotFile codec file = .ok snapshot ∧ decode codec snapshot = .ok config := by
  rw [Loads, run_load]
  cases snapshotFile codec file with
  | error x => simp [Except.bind]
  | ok snapshot => simp [Except.bind]

theorem loads_unique {config config' : ManagerConfig} (h : Loads codec file config)
    (h' : Loads codec file config') : config = config' := by
  have heq := h.symm.trans h'
  simpa using heq

theorem upgraded_eq_ok {config final : ManagerConfig} (h : upgraded config = .ok final) :
    final = { config with version := managerConfigVersion } ∧ final.validate = .ok () := by
  dsimp only [upgraded] at h
  cases hvalid : ({ config with version := managerConfigVersion } : ManagerConfig).validate with
  | error x =>
    rw [hvalid] at h
    cases h
  | ok u =>
    rw [hvalid] at h
    cases h
    exact ⟨rfl, hvalid⟩

/-- What was written loads iff it is not too long. -/
theorem loads_published (hcodec : codec.RoundTrips) {config final : ManagerConfig} {bytes : Bytes}
    (hfinal : upgraded config = .ok final) (hbytes : encode codec final = .ok bytes) :
    Loads codec (published bytes) final ↔ bytes.size ≤ maxManagerConfigBytes := by
  obtain ⟨hversion, hvalid⟩ := upgraded_eq_ok hfinal
  have hcurrent : final.version = managerConfigVersion := by rw [hversion]
  have hread := hcodec final bytes hvalid hcurrent hbytes
  rw [loads_iff]
  constructor
  · rintro ⟨snapshot, hsnapshot, -⟩
    by_contra hlong
    simp only [snapshotFile, snapshotOf, published, if_pos (Nat.lt_of_not_le hlong)] at hsnapshot
    cases hsnapshot
  · intro hshort
    have hsnapshot : snapshotFile codec (published bytes)
        = .ok ⟨some bytes, codec.digestBytes bytes, some (snapshotMode 0o600)⟩ := by
      simp only [snapshotFile, snapshotOf, published, if_neg (Nat.not_lt.mpr hshort)]
    refine ⟨_, hsnapshot, ?_⟩
    have hlegacy : final.version ≠ legacyManagerConfigVersion := by
      rw [hcurrent]
      decide
    simp only [decode, hread, hvalid, Bind.bind, Except.bind, if_neg hlegacy]
    rfl

/-- The file holds the configuration as a save writes it. -/
def Saved (codec : Codec) (config : ManagerConfig) (file : Option Node) : Prop :=
  ∃ final bytes, upgraded config = .ok final ∧ encode codec final = .ok bytes
    ∧ file = published bytes

/-- A save leaves the file as it was or writes it; if it succeeds, it has written it. -/
theorem save_faulty (faults : Faults) (config : ManagerConfig) (file : Option Node) :
    Yields (faulty codec faults)
      (fun r file' => (file' = file ∨ Saved codec config file')
        ∧ (r = .ok () → Saved codec config file')) (save codec config) file := by
  unfold save
  refine yields_ofExcept_bind (fun final hfinal => ?_) fun x _ => ⟨.inl rfl, fun h => by cases h⟩
  unfold readConfig
  simp only [bind_assoc]
  refine yields_ask_bind.mpr ?_
  refine yields_ofExcept_bind (fun original _ => ?_) fun x _ => ⟨.inl rfl, fun h => by cases h⟩
  unfold acquire
  simp only [bind_assoc]
  refine yields_ask_bind.mpr ?_
  refine yields_ofExcept_bind (fun _ _ => ?_) fun x _ => ⟨.inl rfl, fun h => by cases h⟩
  refine yields_ensuring ?_
  unfold saveLocked readConfig
  simp only [bind_assoc]
  refine yields_ask_bind.mpr ?_
  refine yields_ofExcept_bind (fun found _ => ?_) fun x _ => yields_ask.mpr ⟨.inl rfl, fun h => by cases h⟩
  refine yields_failIf_bind (fun _ => ?_) fun _ => yields_ask.mpr ⟨.inl rfl, fun h => by cases h⟩
  refine yields_ofExcept_bind (fun bytes hbytes => ?_) fun x _ => yields_ask.mpr ⟨.inl rfl, fun h => by cases h⟩
  unfold write
  refine yields_ask_bind.mpr (yields_ofExcept.mpr (yields_ask.mpr ?_))
  have hsaved : Saved codec config (published bytes) := ⟨final, bytes, hfinal, hbytes, rfl⟩
  cases hw : faults.write with
  | none =>
    simp only [faulty, hw]
    exact ⟨.inr hsaved, fun _ => hsaved⟩
  | some fault =>
    obtain ⟨x, isPublished⟩ := fault
    simp only [faulty, hw]
    cases isPublished with
    | false => exact ⟨.inl rfl, fun h => by cases h⟩
    | true => exact ⟨.inr hsaved, fun h => by cases h⟩

theorem load_faulty (faults : Faults) (file : Option Node) :
    Yields (faulty codec faults)
      (fun r file' => file' = file ∧ ∀ config, r = .ok config → Loads codec file config)
      (load codec) file := by
  unfold load readConfig
  simp only [bind_assoc]
  refine yields_ask_bind.mpr ?_
  refine yields_ofExcept_bind (fun snapshot hsnapshot => ?_) fun x _ => ⟨rfl, nofun⟩
  refine yields_ofExcept.mpr ⟨rfl, fun config hconfig => loads_iff.mpr ⟨snapshot, ?_, hconfig⟩⟩
  cases hfault : faults.reading .load with
  | none =>
    rw [faulty, hfault] at hsnapshot
    exact hsnapshot
  | some x => simp [faulty, hfault, failing] at hsnapshot

/-- What an update leaves: the file as it was, or what the update makes of its configuration. -/
def Updated (codec : Codec) (change : ManagerConfig → Option ManagerConfig)
    (file file' : Option Node) : Prop :=
  file' = file ∨ ∃ config changed, Loads codec file config ∧ change config = some changed
    ∧ Saved codec changed file'

theorem update_faulty (faults : Faults) (change : ManagerConfig → ManagerConfig)
    (file : Option Node) :
    Yields (faulty codec faults)
      (fun _ file' => Updated codec (fun config => some (change config)) file file')
      (update codec change >>= fun _ => pure ()) file := by
  unfold update
  simp only [bind_assoc]
  refine yields_bind (load_faulty faults file) ?_ fun x file' h => .inl h.1
  rintro config _ ⟨rfl, hload⟩
  refine yields_bind (save_faulty faults (change config) _) ?_ ?_
  · rintro _ file' ⟨-, hsaved⟩
    exact yields_done.mpr (.inr ⟨config, _, hload config rfl, rfl, hsaved rfl⟩)
  · rintro x file' ⟨hleft, -⟩
    exact hleft.imp id fun hsaved => ⟨config, _, hload config rfl, rfl, hsaved⟩

theorem bestEffort_faulty (faults : Faults) (change : ManagerConfig → Option ManagerConfig)
    (file : Option Node) :
    Yields (faulty codec faults) (fun _ file' => Updated codec change file file')
      (bestEffort codec change) file := by
  unfold bestEffort
  refine yields_attempt_bind (yields_mono (load_faulty faults file) ?_)
  rintro r _ ⟨rfl, hload⟩
  cases r with
  | error x => exact yields_done.mpr (.inl rfl)
  | ok config =>
    dsimp only
    cases hchange : change config with
    | none => exact yields_done.mpr (.inl rfl)
    | some changed =>
      refine yields_attempt_bind (yields_mono (save_faulty faults changed _) ?_)
      rintro r file' ⟨hleft, -⟩
      refine yields_done.mpr (hleft.imp id fun hsaved => ?_)
      exact ⟨config, changed, hload config rfl, hchange, hsaved⟩

/-- Whatever fails, an operation leaves the file as it was or what it makes of it. -/
theorem executeWith_updated (operation : Operation) (faults : Faults) (file : Option Node) :
    Updated codec operation.change file (executeWith codec operation faults file) := by
  have hrun : Yields (faulty codec faults)
      (fun _ file' => Updated codec operation.change file file') (operation.program codec) file := by
    cases operation with
    | setActiveProfile profile =>
      simp only [Operation.program, setActiveProfile, bind_assoc]
      exact yields_ofExcept_bind (fun _ _ => update_faulty faults _ file) fun x _ => .inl rfl
    | bindProfileAccount profile accountId =>
      simp only [Operation.program, bindProfileAccount, bind_assoc]
      exact yields_ofExcept_bind (fun _ _ => update_faulty faults _ file) fun x _ => .inl rfl
    | unbindProfileAccount profile =>
      simp only [Operation.program, unbindProfileAccount, bind_assoc]
      exact yields_ofExcept_bind (fun _ _ => update_faulty faults _ file) fun x _ => .inl rfl
    | forgetProfile profile =>
      simp only [Operation.program, forgetProfile, bind_assoc]
      exact yields_ofExcept_bind (fun _ _ => update_faulty faults _ file) fun x _ => .inl rfl
    | registerProject project => exact bestEffort_faulty faults _ file
    | forgetProject project keeps => exact bestEffort_faulty faults _ file
  obtain ⟨r, file', hrun, hupdated⟩ := hrun
  rw [executeWith, hrun]
  exact hupdated

/-! ## Runs -/

/-- Each configuration that a step of the run is about to save fits. -/
def AllFit (codec : Codec) (init : Option Node) (steps : List (Operation × Faults)) : Prop :=
  ∀ pre step post, steps = pre ++ step :: post → ∀ config changed,
    Loads codec (after codec pre init) config → step.1.change config = some changed →
      Fits codec changed

theorem after_concat (pre : List (Operation × Faults)) (step : Operation × Faults) :
    after codec (pre ++ [step]) file = executeWith codec step.1 step.2 (after codec pre file) := by
  rw [after, List.foldl_append]
  rfl

/-- One update that fits leaves a file that loads. -/
theorem loads_updated (hcodec : codec.RoundTrips) {change : ManagerConfig → Option ManagerConfig}
    {file' : Option Node} (hload : ∃ config, Loads codec file config)
    (hfits : ∀ config changed, Loads codec file config → change config = some changed →
      Fits codec changed) (hupdated : Updated codec change file file') :
    ∃ config, Loads codec file' config := by
  rcases hupdated with rfl | ⟨config, changed, hconfig, hchange, final, bytes, hfinal, hbytes, rfl⟩
  · exact hload
  · exact ⟨final, (loads_published hcodec hfinal hbytes).mpr
      (hfits config changed hconfig hchange final bytes hfinal hbytes)⟩

/-- A run whose configurations fit leaves a file that loads. -/
theorem loads_after (hcodec : codec.RoundTrips) {init : Option Node}
    (hinit : ∃ config, Loads codec init config) {steps : List (Operation × Faults)}
    (hfits : AllFit codec init steps) {pre post : List (Operation × Faults)}
    (hpre : steps = pre ++ post) : ∃ config, Loads codec (after codec pre init) config := by
  induction pre using List.reverseRecOn generalizing post with
  | nil => exact hinit
  | append_singleton pre step ih =>
    have hsplit : steps = pre ++ step :: post := by
      rw [hpre, List.append_assoc, List.singleton_append]
    rw [after_concat]
    exact loads_updated hcodec (ih hsplit) (hfits pre step post hsplit)
      (executeWith_updated step.1 step.2 _)

/-! ## Projects inside one another -/

/-- `/p/p/…/p`. -/
def deepPath (n : Nat) : PosixPath := ⟨true, List.replicate n (.normal ['p'])⟩

/-- The configuration after the first `n` of these projects. -/
def stored (n : Nat) : ManagerConfig :=
  { ManagerConfig.initial with
    installedProjects := (List.range n).map fun i => deepPath (i + 1) }

def projectLine (project : PosixPath) : Text := "\n    \"".toList ++ project.display ++ ['"']

def projectsText : List PosixPath → Text
  | [] => "[]".toList
  | project :: rest =>
    ['['] ++ projectLine project ++ rest.flatMap (fun p => ',' :: projectLine p) ++ "\n  ]".toList

/-- Pretty JSON of a configuration without bindings whose paths need no escape. -/
def storeJson (config : ManagerConfig) : Bytes :=
  Text.asciiBytes <|
    "\x7b\n  \"version\": ".toList ++ [Nat.digitChar config.version]
      ++ ",\n  \"active".toList ++ "_profile\": ".toList ++ sampleActive config.activeProfile
      ++ ",\n  \"account".toList ++ "_bindings\": ".toList ++ "\x7b\x7d,\n  \"inst".toList
      ++ "alled_proj".toList ++ "ects\": ".toList ++ projectsText config.installedProjects
      ++ "\n\x7d".toList

def storeFile (n : Nat) : Bytes := (storeJson (stored n)).push 10

def storeCodec : Codec where
  digestBytes _ := []
  fromSlice bytes := ((List.range 257).find? fun n => storeFile n = bytes).map stored
  toVecPretty config :=
    if (List.range 257).any fun n => stored n = config then some (storeJson config) else none

theorem size_asciiBytes (t : Text) : (Text.asciiBytes t).size = t.length := by
  simp [Text.asciiBytes, ByteArray.size]

theorem length_intercalate_replicate (n : Nat) :
    (['/'].intercalate (List.replicate (n + 1) ['p'])).length = 2 * n + 1 := by
  induction n with
  | zero => rfl
  | succ n ih =>
    rw [List.replicate_succ, List.replicate_succ, List.intercalate_cons_cons, ← List.replicate_succ,
      List.length_append, List.length_append, ih]
    simp only [List.length_cons, List.length_nil]
    omega

theorem length_deepPath (n : Nat) : (deepPath (n + 1)).display.length = 2 * (n + 1) := by
  have hmap : (List.replicate (n + 1) (Component.normal ['p'])).map Component.text
      = List.replicate (n + 1) ['p'] := by
    rw [List.map_replicate]
    rfl
  rw [PosixPath.display, deepPath, hmap, List.length_append, length_intercalate_replicate]
  simp only [if_true, List.length_cons, List.length_nil]
  omega

theorem stored_succ (n : Nat) :
    (stored (n + 1)).installedProjects = (stored n).installedProjects ++ [deepPath (n + 1)] := by
  simp only [stored, List.range_succ, List.map_append, List.map_cons, List.map_nil]

theorem length_projectLine (n : Nat) : (projectLine (deepPath (n + 1))).length = 2 * (n + 1) + 7 := by
  have hopen : "\n    \"".toList.length = 6 := by decide
  unfold projectLine
  -- a rewrite would look into the literal
  generalize "\n    \"".toList = opening at hopen ⊢
  rw [List.length_append, List.length_append, length_deepPath, hopen, List.length_singleton]
  omega

/-- One more project takes more room than its path. -/
theorem projectsText_succ (n : Nat) :
    (projectsText (stored n).installedProjects).length + 2 * (n + 1)
      < (projectsText (stored (n + 1)).installedProjects).length := by
  have hline := length_projectLine n
  rw [stored_succ]
  cases hprojects : (stored n).installedProjects with
  | nil =>
    have hnone : (projectsText []).length = 2 := by decide
    rw [hnone, List.nil_append, projectsText, List.flatMap_nil, List.length_append,
      List.length_append, List.length_append, List.length_singleton]
    omega
  | cons first rest =>
    rw [List.cons_append, projectsText, projectsText, List.flatMap_append, List.flatMap_singleton]
    simp only [List.length_append, List.length_cons]
    omega

theorem size_storeFile_succ (n : Nat) :
    (storeFile n).size + 2 * (n + 1) < (storeFile (n + 1)).size := by
  have hlt := projectsText_succ n
  simp only [storeFile, ByteArray.size_push, storeJson, size_asciiBytes, List.length_append]
  have hactive : (stored (n + 1)).activeProfile = (stored n).activeProfile := rfl
  have hversion : (stored (n + 1)).version = (stored n).version := rfl
  rw [hactive, hversion]
  simp only [List.length_cons, List.length_nil]
  omega

theorem storeFile_injective : Function.Injective storeFile := by
  have hmono : StrictMono fun n => (storeFile n).size := by
    refine strictMono_nat_of_lt_succ fun n => ?_
    have hlt := size_storeFile_succ n
    omega
  intro n n' h
  exact hmono.injective (congrArg ByteArray.size h)

theorem le_size_storeFile (n : Nat) : n * (n + 1) ≤ (storeFile n).size := by
  induction n with
  | zero => omega
  | succ n ih =>
    have hlt := size_storeFile_succ n
    have hmul : (n + 1) * (n + 1 + 1) = n * (n + 1) + 2 * (n + 1) := by
      rw [← Nat.add_mul, Nat.mul_comm]
    omega

theorem storeCodec_reads {n : Nat} (hn : n < 257) :
    storeCodec.fromSlice (storeFile n) = some (stored n) := by
  have hfind : (List.range 257).find? (fun k => storeFile k = storeFile n) = some n := by
    cases h : (List.range 257).find? (fun k => storeFile k = storeFile n) with
    | none =>
      have hno := List.find?_eq_none.mp h n (List.mem_range.mpr hn)
      simp at hno
    | some k =>
      have hk := List.find?_some h
      rw [storeFile_injective (of_decide_eq_true hk)]
  simp only [storeCodec]
  rw [hfind, Option.map_some]

theorem storeCodec_writes {n : Nat} (hn : n < 257) :
    encode storeCodec (stored n) = .ok (storeFile n) := by
  have hany : ((List.range 257).any fun k => stored k = stored n) = true := by
    rw [List.any_eq_true]
    exact ⟨n, List.mem_range.mpr hn, by simp⟩
  have hwrite : storeCodec.toVecPretty (stored n) = some (storeJson (stored n)) := if_pos hany
  simp only [encode, hwrite, storeFile]

theorem storeCodec_roundTrips : storeCodec.RoundTrips := by
  intro config bytes _ _ hbytes
  by_cases hany : ((List.range 257).any fun k => stored k = config) = true
  · obtain ⟨n, hn, heq⟩ := List.any_eq_true.mp hany
    obtain rfl := of_decide_eq_true heq
    rw [storeCodec_writes (List.mem_range.mp hn)] at hbytes
    cases hbytes
    exact storeCodec_reads (List.mem_range.mp hn)
  · have hnone : storeCodec.toVecPretty config = none := if_neg hany
    rw [encode, hnone] at hbytes
    cases hbytes

/-! ## Registering them one after the other -/

theorem compare_deepPath (n k : Nat) : compare (deepPath (n + (k + 1))) (deepPath n) = .gt := by
  have hcomponents : compare (List.replicate (n + (k + 1)) (Component.normal ['p']))
      (List.replicate n (Component.normal ['p'])) = .gt := by
    induction n with
    | zero =>
      rw [Nat.zero_add]
      rfl
    | succ n ih =>
      rw [Nat.add_right_comm, List.replicate_succ, List.replicate_succ]
      exact ih
  show instOrdPosixPath.ord _ _ = _
  simp only [deepPath, instOrdPosixPath.ord, hcomponents]
  rfl

/-- What is greater than all comes last. -/
theorem orderedInsert_last {l : List PosixPath} {p : PosixPath} (h : ∀ q ∈ l, compare p q = .gt) :
    l.orderedInsert (fun x y => (compare x y).isLE) p = l ++ [p] := by
  induction l with
  | nil => rfl
  | cons q l ih =>
    rw [List.forall_mem_cons] at h
    rw [List.orderedInsert_cons, if_neg (by rw [h.1]; decide), ih h.2]
    rfl

theorem insertProject_stored (n : Nat) :
    insertProject (deepPath (n + 1)) (stored n) = some (stored (n + 1)) := by
  have hgreater : ∀ q ∈ (stored n).installedProjects, compare (deepPath (n + 1)) q = .gt := by
    intro q hq
    obtain ⟨i, hi, rfl⟩ := List.mem_map.mp hq
    have hlt := List.mem_range.mp hi
    have hcompare := compare_deepPath (i + 1) (n - i - 1)
    rwa [show i + 1 + (n - i - 1 + 1) = n + 1 by omega] at hcompare
  have hnew : deepPath (n + 1) ∉ (stored n).installedProjects := by
    intro hmem
    obtain ⟨i, hi, heq⟩ := List.mem_map.mp hmem
    have hlt := List.mem_range.mp hi
    have hlength := congrArg (fun p => p.components.length) heq
    simp only [deepPath, List.length_replicate] at hlength
    omega
  rw [insertProject, if_neg hnew, BTreeSet.insert, if_neg hnew, orderedInsert_last hgreater,
    ← stored_succ]
  rfl

theorem upgraded_stored (n : Nat) : upgraded (stored n) = .ok (stored n) := by
  have hprojects : (stored n).installedProjects.forM ManagerConfig.validateProject = .ok () := by
    have hall : ∀ l : List PosixPath, (∀ p ∈ l, p.absolute = true) →
        l.forM ManagerConfig.validateProject = .ok () := by
      intro l hl
      induction l with
      | nil => rfl
      | cons p l ih =>
        rw [List.forall_mem_cons] at hl
        show (ManagerConfig.validateProject p >>= fun _ =>
          l.forM ManagerConfig.validateProject) = _
        rw [ManagerConfig.validateProject, hl.1, ih hl.2]
        rfl
    refine hall _ fun p hp => ?_
    obtain ⟨i, -, rfl⟩ := List.mem_map.mp hp
    rfl
  have hvalid : (stored n).validate = .ok () := by
    unfold ManagerConfig.validate
    rw [hprojects]
    rfl
  show (do
    (stored n).validate
    return stored n : Result ManagerConfig) = _
  rw [hvalid]
  rfl

/-- The registrations of the first `n` projects. -/
def registrations (n : Nat) : List (Operation × Faults) :=
  (List.range n).map fun i => (.registerProject (deepPath (i + 1)), noFaults)

theorem registrations_succ (n : Nat) : registrations (n + 1)
    = registrations n ++ [(.registerProject (deepPath (n + 1)), noFaults)] := by
  rw [registrations, List.range_succ, List.map_append]
  rfl

theorem executeWith_noFaults (operation : Operation) (file : Option Node) :
    executeWith codec operation noFaults file = execute codec operation file := by
  rw [executeWith, faulty_noFaults]
  rfl

theorem register_stored {n : Nat} (hn : n + 1 < 257) {file : Option Node}
    (hload : Loads storeCodec file (stored n)) :
    executeWith storeCodec (.registerProject (deepPath (n + 1))) noFaults file
      = published (storeFile (n + 1)) := by
  obtain ⟨snapshot, hsnapshot, hdecode⟩ := loads_iff.mp hload
  rw [executeWith_noFaults]
  refine execute_written hsnapshot (written_eq_some.mpr ⟨rfl, stored n, stored (n + 1), stored (n + 1),
    hdecode, insertProject_stored n, upgraded_stored (n + 1), storeCodec_writes hn⟩)

theorem loads_storeFile {n : Nat} (hn : n < 257) :
    Loads storeCodec (published (storeFile n)) (stored n)
      ↔ (storeFile n).size ≤ maxManagerConfigBytes :=
  loads_published storeCodec_roundTrips (upgraded_stored n) (storeCodec_writes hn)

/-! ## Top theorem -/

/-- Updates that fit leave a file that loads; a save that succeeds is found by the next load iff
its configuration fits. -/
theorem run_loads_iff {codec : Codec} (hcodec : codec.RoundTrips) {init : Option Node}
    {first : ManagerConfig} (hinit : Loads codec init first) {steps : List (Operation × Faults)}
    (hfits : AllFit codec init steps) {pre post : List (Operation × Faults)}
    (hpre : steps = pre ++ post) :
    (∃ config, Loads codec (after codec pre init) config)
      ∧ ∀ config faults file',
        run (faulty codec faults) (save codec config) (after codec pre init)
            = some (.ok (), file') →
          (Loads codec file' { config with version := managerConfigVersion }
            ↔ Fits codec config) := by
  refine ⟨loads_after hcodec ⟨first, hinit⟩ hfits hpre, fun config faults file' hrun => ?_⟩
  obtain ⟨r, file'', hrun', -, hsaved⟩ :=
    save_faulty faults config (after codec pre init)
  obtain ⟨rfl, rfl⟩ : Except.ok () = r ∧ file' = file'' := by
    simpa using hrun.symm.trans hrun'
  obtain ⟨final, bytes, hfinal, hbytes, rfl⟩ := hsaved rfl
  have hloads := loads_published hcodec hfinal hbytes
  rw [(upgraded_eq_ok hfinal).1] at hloads
  rw [hloads]
  constructor
  · intro hsize final' bytes' hfinal' hbytes'
    rw [hfinal] at hfinal'
    cases hfinal'
    rw [hbytes] at hbytes'
    cases hbytes'
    exact hsize
  · intro hfit
    exact hfit final bytes hfinal hbytes

theorem noFile_loads : Loads storeCodec none (stored 0) := loads_iff.mpr ⟨_, rfl, rfl⟩

/-- One project on a fresh machine. -/
theorem run_loads_iff_registered :
    ∃ config, Loads storeCodec (after storeCodec (registrations 1) none) config := by
  refine (run_loads_iff storeCodec_roundTrips noFile_loads ?_ (registrations 1).append_nil.symm).1
  intro pre step post hsteps config changed hload hchange final bytes hfinal hbytes
  obtain ⟨rfl, rfl, rfl⟩ : pre = [] ∧ step = (.registerProject (deepPath 1), noFaults)
      ∧ post = [] := by
    cases pre with
    | nil =>
      obtain ⟨h, h'⟩ := List.cons.inj hsteps
      exact ⟨rfl, h.symm, h'.symm⟩
    | cons a pre =>
      have hnil := (List.cons.inj hsteps).2
      simp at hnil
  obtain rfl := loads_unique hload noFile_loads
  obtain rfl : stored 1 = changed := Option.some.inj ((insertProject_stored 0).symm.trans hchange)
  obtain rfl : stored 1 = final := by simpa using (upgraded_stored 1).symm.trans hfinal
  obtain rfl : storeFile 1 = bytes := by
    simpa using (storeCodec_writes (n := 1) (by omega)).symm.trans hbytes
  decide +kernel

/-- Projects are registered one after the other, each saved and found by the next load, until a
save leaves a file that no load takes. -/
theorem registrations_wedge : ∃ n,
    (∀ k ≤ n, Loads storeCodec (after storeCodec (registrations k) none) (stored k))
      ∧ after storeCodec (registrations (n + 1)) none = published (storeFile (n + 1))
      ∧ ∀ config, ¬Loads storeCodec (after storeCodec (registrations (n + 1)) none) config := by
  have hfile : ∀ n < 256, Loads storeCodec (after storeCodec (registrations n) none) (stored n) →
      after storeCodec (registrations (n + 1)) none = published (storeFile (n + 1)) := by
    intro n hn hload
    rw [registrations_succ, after_concat]
    exact register_stored (by omega) hload
  have hlast : ¬Loads storeCodec (published (storeFile 256)) (stored 256) := by
    rw [loads_storeFile (by omega)]
    have hle := le_size_storeFile 256
    have hmax : maxManagerConfigBytes = 65536 := rfl
    omega
  -- the first count whose file does not load
  have hexists : ∃ n, ¬Loads storeCodec (after storeCodec (registrations n) none) (stored n) := by
    by_contra hall
    simp only [not_exists, not_not] at hall
    have h := hall 256
    rw [hfile 255 (by omega) (hall 255)] at h
    exact hlast h
  obtain ⟨n, hn, hmin⟩ : ∃ n, ¬Loads storeCodec (after storeCodec (registrations n) none) (stored n)
      ∧ ∀ k < n, Loads storeCodec (after storeCodec (registrations k) none) (stored k) := by
    classical
    exact ⟨Nat.find hexists, Nat.find_spec hexists, fun k hk => by
      simpa using Nat.find_min hexists hk⟩
  obtain ⟨n, rfl⟩ : ∃ k, n = k + 1 := by
    cases n with
    | zero => exact absurd noFile_loads hn
    | succ n => exact ⟨n, rfl⟩
  have hlt : n < 256 := by
    by_contra hge
    have h := hmin 256 (by omega)
    rw [hfile 255 (by omega) (hmin 255 (by omega))] at h
    exact hlast h
  have hwritten := hfile n hlt (hmin n (Nat.lt_succ_self n))
  refine ⟨n, fun k hk => hmin k (by omega), hwritten, fun config hload => ?_⟩
  rw [hwritten] at hn hload
  -- whatever loads is what was written
  obtain ⟨snapshot, hsnapshot, -⟩ := loads_iff.mp hload
  refine hn ((loads_storeFile (by omega)).mpr ?_)
  by_contra hlong
  simp only [snapshotFile, snapshotOf, published, if_pos (Nat.lt_of_not_le hlong)] at hsnapshot
  cases hsnapshot

end Kaleidoscope.ConfigStore
