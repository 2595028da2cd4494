import Kaleidoscope.JsonWriter
import Kaleidoscope.Repeat.Instructions

/-!
# The check of the skills

`doctor` asks the planner of a removal about the skill of each host: a plan that would remove
something is reported as an installed, byte-identical skill.  The planner compares the skill with
its owner receipt, not with the skill that the manager ships, and it does not look at a skill that
the manager took over.

    skill_check_iff     where the report is true to the skill and its receipt
-/

namespace Kaleidoscope.Doctor

open Prog Disk Instructions

/-! ## Algorithm -/

structure DoctorCheck where
  name : Text
  status : Text
  detail : Text
  managed : Option Bool

def genericDetail (error : Text) : Text :=
  if Text.contains error "owner receipt".toList
      || Text.contains error "configuration conflict".toList then
    "managed configuration ownership check failed".toList
  else if Text.contains error "profile".toList then "native profile validation failed".toList
  else if Text.contains error "engine".toList || Text.contains error "kscope".toList then
    "native engine validation failed".toList
  else "local validation failed".toList

def notManaged : Text := "not managed".toList

def pushManaged (name : Text) : Result Text → DoctorCheck
  | .ok detail => ⟨name, "ok".toList, detail, some (detail ≠ notManaged)⟩
  | .error error => ⟨name, "issue".toList, genericDetail error.message, none⟩

def identicalAt : Text := "installed and byte-identical at ".toList

/-- The detail of a removal that was planned. -/
def skillDetail (plan : InstructionPlan InstructionReceipt) : Text :=
  if plan.action.isNoop then notManaged else identicalAt ++ plan.target.display

section

variable (crates : Crates)

/-- The check of one host: `root` is the project, and `nodes` the skill and the files beside it. -/
def skillCheck (root : Result PosixPath) (nodes : Nodes) (host : Host) : DoctorCheck :=
  let name := "skill.".toList ++ host.asStr
  match root with
  | .error error => ⟨name, "issue".toList, genericDetail error.message, none⟩
  | .ok root =>
    pushManaged name ((planRemoveAt crates .skill (some host) root false nodes).map fun planned =>
      skillDetail planned.plan)

/-- Cursor has no skill. -/
def skillHosts : List Host := [.claudeCode, .codex, .openCode]

def pushSkillChecks (root : Result PosixPath) (nodes : Host → Nodes) : List DoctorCheck :=
  skillHosts.map fun host => skillCheck crates root (nodes host) host

/-! ## Statement -/

/-- The check says that the skill is installed and byte-identical. -/
def Identical (check : DoctorCheck) : Prop :=
  check.status = "ok".toList ∧ identicalAt <+: check.detail

/-- The owner receipt of the skill, if it is there and valid. -/
def validReceipt (nodes : Nodes) : Option InstructionReceipt :=
  match snapshotOf (digest crates) maxReceiptBytes instructionTraits.receiptName nodes.receipt with
  | .error _ => none
  | .ok snapshot =>
    match decodeReceipt crates snapshot .skill with
    | .error _ => none
    | .ok receipt => receipt

/-- The receipt is valid, and the skill is the one that the manager ships. -/
def Installed (canonical : Text) (nodes : Nodes) : Prop :=
  (validReceipt crates nodes).isSome = true ∧ bytesIn nodes.target = some (Text.utf8 canonical)

/-- There is no skill, or one that the planner can read. -/
def SkillReads (nodes : Nodes) : Prop :=
  ∃ original text, snapshotOf (digest crates) maxInstructionBytes instructionTraits.targetName
    nodes.target = .ok original ∧ snapshotText original = .ok text

def BackupReads (nodes : Nodes) : Prop := ∃ backup, readBackup crates nodes = .ok backup

end

/-- The skill is the one that its receipt names. -/
def Names (receipt : InstructionReceipt) (nodes : Nodes) : Prop :=
  receipt.ownedBlock ≠ [] ∧ bytesIn nodes.target = some (Text.utf8 receipt.ownedBlock)

/-- Beside a valid receipt a shipped skill is one that the manager took over or that the receipt
names, and another skill is neither. -/
structure Agrees (crates : Crates) (canonical : Text) (receipt : InstructionReceipt)
    (nodes : Nodes) : Prop where
  shipped : bytesIn nodes.target = some (Text.utf8 canonical) →
    BackupReads crates nodes ∧ (receipt.fileCreated = true → receipt.ownedBlock = canonical)
  other : bytesIn nodes.target ≠ some (Text.utf8 canonical) →
    SkillReads crates nodes → BackupReads crates nodes →
    receipt.fileCreated = true ∧ ¬Names receipt nodes

/-! ## Lemmas -/

section

variable {crates : Crates} {root : PosixPath} {host : Host} {nodes : Nodes}

theorem identical_iff : Identical (skillCheck crates (.ok root) nodes host)
    ↔ ∃ planned, planRemoveAt crates .skill (some host) root false nodes = .ok planned
      ∧ planned.plan.action.isNoop = false := by
  unfold Identical skillCheck
  dsimp only
  cases planRemoveAt crates .skill (some host) root false nodes with
  | error error =>
    refine iff_of_false ?_ ?_
    · rintro ⟨hstatus, _⟩
      exact absurd hstatus (show "issue".toList ≠ "ok".toList by decide)
    · rintro ⟨planned, hplanned, _⟩
      cases hplanned
  | ok planned =>
    show "ok".toList = "ok".toList ∧ identicalAt <+: skillDetail planned.plan ↔ _
    unfold skillDetail
    cases hnoop : planned.plan.action.isNoop with
    | true =>
      refine iff_of_false ?_ ?_
      · rintro ⟨_, hdetail⟩
        rw [if_pos rfl] at hdetail
        exact absurd hdetail (show ¬identicalAt <+: notManaged by decide)
      · rintro ⟨planned', hplanned, haction⟩
        cases hplanned
        rw [hnoop] at haction
        cases haction
    | false => exact iff_of_true ⟨rfl, List.prefix_append _ _⟩ ⟨planned, rfl, hnoop⟩

theorem validReceipt_of_look {look : Look}
    (hlook : lookAt crates .skill (some host) root nodes = .ok look) :
    validReceipt crates nodes = look.receipt := by
  obtain ⟨-, -, -, -, hreceipt, hdecode, -⟩ := lookAt_iff.mp hlook
  unfold validReceipt
  rw [hreceipt]
  dsimp only
  rw [hdecode]

theorem bytes_of_text {original : Snapshot} {text block : Text}
    (horiginal : snapshotOf (digest crates) maxInstructionBytes instructionTraits.targetName
      nodes.target = .ok original) (htext : snapshotText original = .ok text) (hne : block ≠ []) :
    bytesIn nodes.target = some (Text.utf8 block) ↔ text = block := by
  rw [← (snapshotOf_bytes horiginal).1]
  unfold snapshotText at htext
  cases hbytes : original.bytes with
  | none =>
    rw [hbytes] at htext
    have hempty : text = [] := (Except.ok.inj htext).symm
    rw [hempty]
    exact iff_of_false nofun (Ne.symm hne)
  | some bytes =>
    rw [hbytes] at htext
    dsimp only [Option.elim_some] at htext
    split at htext
    next => cases htext
    next decoded hdecoded =>
      cases htext
      have hencode := Utf8.decode_iff.mp hdecoded
      rw [Option.some.injEq]
      constructor
      · rintro rfl
        rw [Utf8.decode_utf8] at hdecoded
        exact (Option.some.inj hdecoded).symm
      · rintro rfl
        rw [← Utf8.utf8_toList] at hencode
        exact ByteArray.ext (Array.toList_inj.mp hencode.symm)

/-- What the planner asks of a skill that the manager created. -/
theorem validateOwnership_skill {receipt : InstructionReceipt} {current : Option Text}
    (hvalid : InstructionReceipt.validate crates receipt .skill = .ok ()) :
    validateOwnership crates (some receipt) current .skill (some host) = .ok ()
      ↔ current = some receipt.ownedBlock := by
  obtain ⟨_, hfirst, _⟩ := except_bind_eq_ok.mp hvalid
  have hholds := rejectIf_eq_ok.mp hfirst
  simp only [not_or, not_not] at hholds
  obtain ⟨-, -, htarget, hdigest⟩ := hholds
  cases current with
  | none => exact iff_of_false nofun nofun
  | some current =>
    unfold validateOwnership
    rw [rejectIf_eq_ok, Option.some.injEq]
    constructor
    · intro h
      simp only [not_or, not_not] at h
      exact h.2.1.symm
    · rintro rfl h
      rcases h with h | h | h
      · exact h htarget
      · exact h rfl
      · exact h hdigest

theorem valid_of_decode {snapshot : Snapshot} {receipt : InstructionReceipt}
    (h : decodeReceipt crates snapshot .skill = .ok (some receipt)) :
    InstructionReceipt.validate crates receipt .skill = .ok () := by
  unfold decodeReceipt at h
  split at h
  next => cases h
  next bytes _ =>
    split at h
    next => cases h
    next found _ =>
      obtain ⟨_, hvalid, hreceipt⟩ := except_bind_eq_ok.mp h
      cases hreceipt
      exact hvalid

/-- The planner looks at the skill of every host that has one. -/
theorem exists_look (habsolute : root.absolute = true) (hhost : host ∈ skillHosts)
    {receipt : InstructionReceipt} (hreceipt : validReceipt crates nodes = some receipt)
    (hreads : SkillReads crates nodes) :
    ∃ look, lookAt crates .skill (some host) root nodes = .ok look := by
  obtain ⟨original, text, horiginal, htext⟩ := hreads
  have htarget : ∃ directory name, instructionPath .skill (some host) root
      = .ok (PosixPath.join directory name) := by
    unfold instructionPath
    rw [habsolute]
    simp only [skillHosts, List.mem_cons, List.not_mem_nil, or_false] at hhost
    rcases hhost with rfl | rfl | rfl
    · exact ⟨_, _, rfl⟩
    · exact ⟨_, _, rfl⟩
    · exact ⟨_, _, rfl⟩
  obtain ⟨directory, name, htarget⟩ := htarget
  have hbeside : ∀ suffix : String, (directory.join name).withSuffix suffix.toList
      = some (directory.join (name ++ suffix.toList)) := by
    intro suffix
    simp [PosixPath.withSuffix, PosixPath.fileName, PosixPath.parent, PosixPath.join]
  unfold validReceipt at hreceipt
  split at hreceipt
  next => cases hreceipt
  next receiptOriginal hreceiptOriginal =>
    split at hreceipt
    next => cases hreceipt
    next decoded hdecoded =>
      exact ⟨⟨_, _, _, original, receiptOriginal, decoded, text⟩, lookAt_iff.mpr
        ⟨htarget, siblingPath_of (hbeside _), siblingPath_of (hbeside _), horiginal,
          hreceiptOriginal, hdecoded, htext⟩⟩

theorem currentOwned_skill {text : Text} {receipt : InstructionReceipt} :
    currentOwned text .skill (some receipt) false = .ok (if text = [] then none else some text) := by
  show Except.ok (if text.isEmpty ∨ (some receipt).isNone then none else some text) = _
  simp

/-- What is reported as byte-identical: a skill that the manager took over, and one that its receipt
names. -/
theorem identical_iff_names (habsolute : root.absolute = true) (hhost : host ∈ skillHosts) :
    Identical (skillCheck crates (.ok root) nodes host)
      ↔ ∃ receipt, validReceipt crates nodes = some receipt ∧ SkillReads crates nodes
        ∧ BackupReads crates nodes ∧ (receipt.fileCreated = true → Names receipt nodes) := by
  rw [identical_iff]
  constructor
  · rintro ⟨planned, hplanned, hnoop⟩
    obtain ⟨look, hlook, hrest⟩ := except_bind_eq_ok.mp hplanned
    obtain ⟨current, hcurrent, hplan⟩ := except_bind_eq_ok.mp hrest
    obtain ⟨-, -, -, horiginal, -, hdecode, htext⟩ := lookAt_iff.mp hlook
    cases hreceipt : look.receipt with
    | none =>
      rw [hreceipt] at hplan
      obtain ⟨_, _, hnone⟩ := except_bind_eq_ok.mp hplan
      cases hnone
      cases hnoop
    | some receipt =>
      rw [hreceipt] at hplan hcurrent hdecode
      dsimp only at hplan
      refine ⟨receipt, (validReceipt_of_look hlook).trans hreceipt,
        ⟨look.original, look.text, horiginal, htext⟩, ?_⟩
      split at hplan
      next hwhole =>
        obtain ⟨backup, hbackup, _⟩ := except_bind_eq_ok.mp hplan
        refine ⟨⟨backup, hbackup⟩, fun hcreated => ?_⟩
        rw [hwhole.2] at hcreated
        cases hcreated
      next hwhole =>
        obtain ⟨_, hchecked, hplan'⟩ := except_bind_eq_ok.mp hplan
        have howned := (validateOwnership_skill (valid_of_decode hdecode)).mp hchecked
        rw [howned] at hplan' hcurrent
        obtain ⟨backup, hbackup, _⟩ := except_bind_eq_ok.mp hplan'
        refine ⟨⟨backup, hbackup⟩, fun _ => ?_⟩
        rw [currentOwned_skill] at hcurrent
        split at hcurrent
        next => cases hcurrent
        next hne =>
          have hsame : look.text = receipt.ownedBlock := Option.some.inj (Except.ok.inj hcurrent)
          rw [hsame] at hne
          exact ⟨hne, (bytes_of_text horiginal htext hne).mpr hsame⟩
  · rintro ⟨receipt, hreceipt, hreads, ⟨backup, hbackup⟩, hcreated⟩
    obtain ⟨look, hlook⟩ := exists_look habsolute hhost hreceipt hreads
    rw [validReceipt_of_look hlook] at hreceipt
    obtain ⟨-, -, -, horiginal, -, hdecode, htext⟩ := lookAt_iff.mp hlook
    rw [hreceipt] at hdecode
    have hcurrent : currentOwned look.text .skill look.receipt false
        = .ok (if look.text = [] then none else some look.text) := by
      rw [hreceipt, currentOwned_skill]
    cases hfile : receipt.fileCreated with
    | false =>
      refine ⟨⟨releasePlan look receipt backup, none⟩, ?_, ?_⟩
      · refine except_bind_eq_ok.mpr ⟨look, hlook, except_bind_eq_ok.mpr ⟨_, hcurrent, ?_⟩⟩
        rw [hreceipt]
        dsimp only
        rw [if_pos ⟨rfl, hfile⟩]
        exact except_bind_eq_ok.mpr ⟨backup, hbackup, rfl⟩
      · show (releasePlan look receipt backup).action.isNoop = false
        unfold releasePlan
        split <;> rfl
    | true =>
      obtain ⟨hne, hbytes⟩ := hcreated hfile
      have hsame := (bytes_of_text horiginal htext hne).mp hbytes
      rw [hsame, if_neg hne] at hcurrent
      have hchecked : checkOwnership crates false (some receipt) (some receipt.ownedBlock) .skill
          (some host) = .ok () :=
        (@validateOwnership_skill crates host _ _ (valid_of_decode hdecode)).mpr rfl
      refine ⟨if exactly look receipt backup then ⟨exactPlan look receipt backup, none⟩
        else ⟨structuralPlan .skill look receipt [], none⟩, ?_, ?_⟩
      · refine except_bind_eq_ok.mpr ⟨look, hlook, except_bind_eq_ok.mpr ⟨some receipt.ownedBlock,
          by rw [hsame]; exact hcurrent, ?_⟩⟩
        rw [hreceipt]
        dsimp only
        rw [if_neg (by rw [hfile]; rintro ⟨_, h⟩; cases h)]
        refine except_bind_eq_ok.mpr ⟨(), hchecked, except_bind_eq_ok.mpr ⟨backup, hbackup, ?_⟩⟩
        split <;> rfl
      · split <;> rfl

theorem utf8_inj {text text' : Text} : Text.utf8 text = Text.utf8 text' ↔ text = text' := by
  constructor
  · intro h
    have hdecode := Utf8.decode_utf8 text
    rw [h, Utf8.decode_utf8] at hdecode
    exact (Option.some.inj hdecode).symm
  · rintro rfl
    rfl

theorem skillReads_of_bytes {text : Text} (hsize : (Text.utf8 text).size ≤ maxInstructionBytes)
    (hbytes : bytesIn nodes.target = some (Text.utf8 text)) : SkillReads crates nodes := by
  unfold bytesIn at hbytes
  split at hbytes
  next bytes mode hnode =>
    cases hbytes
    unfold SkillReads
    rw [hnode]
    unfold snapshotOf
    dsimp only
    rw [if_neg (by omega)]
    refine ⟨_, text, rfl, ?_⟩
    simp only [snapshotText, Option.elim_some, Utf8.decode_utf8]
  next => cases hbytes

/-- The report is true to a skill and its valid receipt exactly where they agree. -/
theorem agrees_iff {canonical : Text} (hne : canonical ≠ [])
    (hsize : (Text.utf8 canonical).size ≤ maxInstructionBytes) {receipt : InstructionReceipt} :
    ((SkillReads crates nodes ∧ BackupReads crates nodes
        ∧ (receipt.fileCreated = true → Names receipt nodes))
      ↔ bytesIn nodes.target = some (Text.utf8 canonical))
    ↔ Agrees crates canonical receipt nodes := by
  by_cases hshipped : bytesIn nodes.target = some (Text.utf8 canonical)
  · have hreads := @skillReads_of_bytes crates _ _ hsize hshipped
    have hnames : Names receipt nodes ↔ receipt.ownedBlock = canonical := by
      unfold Names
      rw [hshipped, Option.some.injEq, utf8_inj]
      exact ⟨fun h => h.2.symm, fun h => ⟨h ▸ hne, h.symm⟩⟩
    rw [hnames, iff_true_right hshipped, and_iff_right hreads]
    exact ⟨fun h => ⟨fun _ => h, fun hother => absurd hshipped hother⟩, fun h => h.shipped hshipped⟩
  · rw [iff_false_right hshipped]
    constructor
    · intro h
      refine ⟨fun h => absurd h hshipped, fun _ hreads hbackup => ?_⟩
      by_contra hagrees
      refine h ⟨hreads, hbackup, fun hcreated => ?_⟩
      by_contra hnames
      exact hagrees ⟨hcreated, hnames⟩
    · rintro h ⟨hreads, hbackup, hcreated⟩
      obtain ⟨hfile, hnames⟩ := h.other hshipped hreads hbackup
      exact hnames (hcreated hfile)

end

/-! ## Top-level theorem -/

/-- `doctor` reports a byte-identical skill where the receipt is valid and the skill is the one that
the manager ships, exactly where a valid receipt agrees with the skill. -/
theorem skill_check_iff {crates : Crates} {canonical : Text} {root : PosixPath} {host : Host}
    (hne : canonical ≠ []) (hsize : (Text.utf8 canonical).size ≤ maxInstructionBytes)
    (habsolute : root.absolute = true) (hhost : host ∈ skillHosts) (nodes : Nodes) :
    (Identical (skillCheck crates (.ok root) nodes host) ↔ Installed crates canonical nodes)
      ↔ ∀ receipt, validReceipt crates nodes = some receipt →
        Agrees crates canonical receipt nodes := by
  rw [identical_iff_names habsolute hhost]
  unfold Installed
  cases hreceipt : validReceipt crates nodes with
  | none =>
    refine iff_of_true (iff_of_false ?_ ?_) nofun
    · rintro ⟨receipt, hsome, _⟩
      cases hsome
    · rintro ⟨hsome, _⟩
      cases hsome
  | some receipt =>
    have hreport : (∃ r, some receipt = some r ∧ SkillReads crates nodes ∧ BackupReads crates nodes
        ∧ (r.fileCreated = true → Names r nodes))
        ↔ (SkillReads crates nodes ∧ BackupReads crates nodes
          ∧ (receipt.fileCreated = true → Names receipt nodes)) := by
      constructor
      · rintro ⟨r, hsome, h⟩
        cases hsome
        exact h
      · exact fun h => ⟨receipt, rfl, h⟩
    rw [hreport, and_iff_right (show (some receipt).isSome = true from rfl),
      agrees_iff hne hsize]
    constructor
    · rintro h r hsome
      cases hsome
      exact h
    · exact fun h => h receipt rfl

/-! ## A skill that was taken over -/

namespace Sample

def crates : Crates := jsonCrates JsonWriter.crate fun bytes => (toString bytes.size).toList

def root : PosixPath := PosixPath.root.join "project".toList

def skill : Text := "# Memory\n".toList

/-- The user's own copy of the skill. -/
def copied : Nodes :=
  { target := some (.file (Text.utf8 skill) 0o644), receipt := none, backup := none }

/-- The entries that the install leaves, if it is not refused. -/
def adopted : Option Nodes :=
  (planInstallAt crates skill .skill (some .claudeCode) root false copied).toOption.map
    fun planned => planned.plan.after crates.receipts copied

/-- After the user has deleted the copy. -/
def deleted : Nodes := { target := none, receipt := adopted.bind (·.receipt), backup := none }

end Sample

/-- A skill that was taken over and is there as it was. -/
theorem skill_check_adopted :
    (Identical (skillCheck Sample.crates (.ok Sample.root)
        { Sample.deleted with target := some (.file (Text.utf8 Sample.skill) 0o644) } .claudeCode)
      ↔ Installed Sample.crates Sample.skill
        { Sample.deleted with target := some (.file (Text.utf8 Sample.skill) 0o644) })
      ↔ ∀ receipt, validReceipt Sample.crates
          { Sample.deleted with target := some (.file (Text.utf8 Sample.skill) 0o644) }
          = some receipt →
        Agrees Sample.crates Sample.skill receipt
          { Sample.deleted with target := some (.file (Text.utf8 Sample.skill) 0o644) } :=
  skill_check_iff (by decide) (by decide +kernel) rfl (by decide) _

/-- A skill that was taken over and deleted is reported as byte-identical. -/
theorem skill_check_deleted :
    Identical (skillCheck Sample.crates (.ok Sample.root) Sample.deleted .claudeCode)
      ∧ ¬Installed Sample.crates Sample.skill Sample.deleted := by
  constructor
  · exact ⟨by decide +kernel, by decide +kernel⟩
  · rintro ⟨_, hbytes⟩
    cases hbytes

end Kaleidoscope.Doctor
