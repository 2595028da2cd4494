import Kaleidoscope.Repeat.Codex
import Kaleidoscope.Repeat.Hooks
import Kaleidoscope.Repeat.Instructions

/-!
# Connects and installs are idempotent

A connect or an install that was applied is planned again as nothing to do, where its planner can
read what it wrote.  A block of Codex must also hold each marker once, and the settings no other
element like the new one.

    again_iff   exactly then
-/

namespace Kaleidoscope

open Prog Disk

/-! ## What the planners read -/

/-- The files are within the limits of a planner. -/
structure Small (maximum : Nat) (nodes : Nodes) : Prop where
  target : ∀ bytes, bytesIn nodes.target = some bytes → bytes.size ≤ maximum
  receipt : ∀ bytes, bytesIn nodes.receipt = some bytes → bytes.size ≤ maxReceiptBytes

theorem size_of_read {digestBytes : Bytes → Text} {maximum : Nat} {name : String}
    {node : Option Node} {snapshot : Snapshot}
    (h : snapshotOf digestBytes maximum name node = .ok snapshot) {bytes : Bytes}
    (hbytes : bytesIn node = some bytes) : bytes.size ≤ maximum := by
  unfold bytesIn at hbytes
  split at hbytes
  · cases hbytes
    exact Hooks.size_of_snapshot h
  · cases hbytes

section

variable {Action Receipt : Type} {suffix : String} {codec : ReceiptCodec Receipt}
  {plan : Plan Action Receipt suffix} {nodes : Nodes} {maximum : Nat} {noop : Bool}

/-- What a plan writes is within the limits where the files are, once it is applied. -/
theorem readable_iff_small (hencode : ∀ receipt, (codec.toVecPretty receipt).isSome = true)
    (hbefore : Small maximum nodes) (hidle : noop = true → Idle plan) :
    Readable codec maximum plan
      ↔ Small maximum (if noop = true then nodes else Plan.after codec plan nodes) := by
  cases noop with
  | true => exact ⟨fun _ => hbefore, fun _ => (hidle rfl).readable⟩
  | false =>
    obtain ⟨hencoded, -⟩ := @encodedReceipt_of _ _ _ codec plan hencode
    have hreceipt : ∀ bytes, bytesIn (receiptNode (receiptBytes codec plan)) = some bytes
        ↔ encodedReceipt codec plan = .ok (some bytes) := by
      intro bytes
      rw [hencoded]
      cases receiptBytes codec plan with
      | none => exact ⟨nofun, nofun⟩
      | some text =>
        constructor
        · intro h
          cases h
          rfl
        · intro h
          cases h
          rfl
    constructor
    · intro h
      refine ⟨fun bytes hbytes => ?_, fun bytes hbytes => h.receipt bytes ((hreceipt bytes).mp hbytes)⟩
      change bytesIn (written plan nodes.target) = some bytes at hbytes
      unfold written at hbytes
      cases hwrite : plan.write with
      | write text =>
        rw [hwrite] at hbytes
        cases hbytes
        exact h.target _ hwrite
      | remove =>
        rw [hwrite] at hbytes
        cases hbytes
      | leave =>
        rw [hwrite] at hbytes
        exact hbefore.target bytes hbytes
    · intro h
      refine ⟨fun bytes hwrite => h.target bytes ?_, fun bytes hbytes =>
        h.receipt bytes ((hreceipt bytes).mpr hbytes)⟩
      show bytesIn (written plan nodes.target) = some bytes
      unfold written
      rw [hwrite]
      rfl

end

/-! ## Connects -/

namespace Hosts

variable {json : JsonCrate} {digestBytes : Bytes → Text} {isToml : Text → Bool} {host : Host}
  {scope : Scope} {profile : Text} {descriptor : LaunchDescriptor} {target : PosixPath}
  {requested : Option OpenCodeVersion} {nodes : Nodes} {plan : ConnectionPlan OwnershipReceipt}

theorem idle_of_noop {crates : Crates}
    (h : planConnectAtVersion crates host scope profile descriptor target requested nodes = .ok plan)
    (hnoop : plan.action.isNoop = true) : Idle plan := by
  obtain ⟨-, -, receiptPath, backupPath, -, -, original, receiptOriginal, old, -, hfrom⟩ :=
    planConnectAtVersion_iff.mp h
  have hjson : planJsonConnect crates host scope profile descriptor target receiptPath backupPath
      original receiptOriginal old requested = .ok plan → Idle plan := by
    intro h
    cases planJsonConnect_cases h with
    | kept _ hidle => exact hidle
    | adopted _ _ _ _ haction =>
      rw [haction] at hnoop
      cases hnoop
    | put _ _ _ hdone =>
      rw [hdone] at hnoop
      cases hnoop
  cases host with
  | codex =>
    cases planCodexConnect_cases hfrom with
    | kept _ _ hidle => exact hidle
    | adopted _ _ _ haction =>
      rw [haction] at hnoop
      cases hnoop
    | put _ _ _ hdone =>
      rw [hdone] at hnoop
      cases hnoop
  | claudeCode | cursor | openCode => exact hjson hfrom

theorem readable_iff_after
    (h : planConnectAtVersion (jsonCrates json digestBytes isToml) host scope profile descriptor
      target requested nodes = .ok plan) :
    Readable (jsonCrates json digestBytes isToml).receipts maxHostConfigBytes plan
      ↔ Small maxHostConfigBytes
        (plan.after (jsonCrates json digestBytes isToml).receipts nodes) := by
  obtain ⟨-, -, _, _, -, -, original, receiptOriginal, old, hreads, -⟩ :=
    planConnectAtVersion_iff.mp h
  refine readable_iff_small (fun _ => rfl) ⟨fun bytes hbytes => ?_, fun bytes hbytes => ?_⟩
    (idle_of_noop h)
  · exact size_of_read (readHostConfig_eq_ok hreads.target) hbytes
  · exact size_of_read hreads.receipt hbytes

end Hosts

/-! ## Installs -/

namespace Instructions

variable {json : JsonCrate} {digestBytes : Bytes → Text} {kind : InstructionTarget}
  {host : Option Host} {project : PosixPath} {desired : Text} {force : Bool} {nodes : Nodes}
  {planned : Planned}

theorem readable_iff_after (hshipped : Shipped kind desired)
    (h : planInstallAt (jsonCrates json digestBytes) desired kind host project force nodes
      = .ok planned) :
    Readable (jsonCrates json digestBytes).receipts maxInstructionBytes planned.plan
      ↔ Small maxInstructionBytes
        (planned.plan.after (jsonCrates json digestBytes).receipts nodes) := by
  obtain ⟨look, hlook, -⟩ := except_bind_eq_ok.mp h
  obtain ⟨-, -, -, htarget, hreceipt, -⟩ := lookAt_iff.mp hlook
  refine readable_iff_small (fun _ => rfl) ⟨fun bytes hbytes => size_of_read htarget hbytes,
    fun bytes hbytes => size_of_read hreceipt hbytes⟩ fun hnoop => ?_
  cases planInstallAt_cases hshipped hlook h with
  | kept _ hidle => exact hidle
  | adopted hdone | put hdone =>
    rw [hdone] at hnoop
    cases hnoop

end Instructions

namespace Hooks

variable {json : JsonCrate} {digestBytes : Bytes → Text} {scope : Scope} {manager profile : Text}
  {target : PosixPath} {nodes : Nodes} {plan : HookPlan HookReceipt}

theorem readable_iff_after
    (h : planInstallAt (jsonCrates json digestBytes) scope manager profile target nodes
      = .ok plan) :
    Readable (jsonCrates json digestBytes).receipts maxSettingsBytes plan
      ↔ Small maxSettingsBytes (plan.after (jsonCrates json digestBytes).receipts nodes) := by
  obtain ⟨-, -, original, document, receipt, action, hlooked, hdecided, hplans⟩ :=
    planInstallAt_eq_ok h
  obtain ⟨receiptOriginal, hreceipt, -⟩ := except_bind_eq_ok.mp hlooked.receipt
  refine readable_iff_small (fun _ => rfl) ⟨fun bytes hbytes => size_of_read hlooked.settings hbytes,
    fun bytes hbytes => size_of_read hreceipt hbytes⟩ fun hnoop => ?_
  refine idle_of_planInstallAt h ?_
  cases hplans with
  | noop _ haction => exact haction
  | write _ haction =>
    rw [haction] at hnoop ⊢
    exact (installAction_eq_ok hdecided).done hnoop

end Hooks

/-! ## Top theorem -/

/-- What was connected or installed is planned again as nothing to do iff its files can be read
again; for Codex, the block must also be found in itself, and for a hook, the settings must not
hold the new element beside the one that the receipt names. -/
theorem again_iff {json : JsonCrate} (hjson : json.Lawful) (digestBytes : Bytes → Text)
    (isToml : Text → Bool) :
    (∀ host scope profile descriptor target requested nodes plan, host ≠ .codex →
      Hosts.planConnectAtVersion (Hosts.jsonCrates json digestBytes isToml) host scope profile
        descriptor target requested nodes = .ok plan →
      (Hosts.ConnectsAgain (Hosts.jsonCrates json digestBytes isToml) host scope profile descriptor
          target requested (plan.after (Hosts.jsonCrates json digestBytes isToml).receipts nodes)
        ↔ Small maxHostConfigBytes
          (plan.after (Hosts.jsonCrates json digestBytes isToml).receipts nodes)))
      ∧ (∀ scope profile descriptor target requested nodes plan,
        Hosts.planConnectAtVersion (Hosts.jsonCrates json digestBytes isToml) .codex scope profile
          descriptor target requested nodes = .ok plan →
        (Hosts.ConnectsAgain (Hosts.jsonCrates json digestBytes isToml) .codex scope profile
            descriptor target requested
            (plan.after (Hosts.jsonCrates json digestBytes isToml).receipts nodes)
          ↔ Small maxHostConfigBytes
              (plan.after (Hosts.jsonCrates json digestBytes isToml).receipts nodes)
            ∧ Hosts.findCodexBlock (Hosts.codexBlock (Hosts.jsonCrates json digestBytes isToml)
                descriptor profile)
              = .ok (some (Hosts.codexBlock (Hosts.jsonCrates json digestBytes isToml) descriptor
                profile))))
      ∧ (∀ desired kind host project force nodes planned, Instructions.Shipped kind desired →
        Instructions.planInstallAt (Instructions.jsonCrates json digestBytes) desired kind host
          project force nodes = .ok planned →
        (Instructions.InstallsAgain (Instructions.jsonCrates json digestBytes) desired kind host
            project force
            (planned.plan.after (Instructions.jsonCrates json digestBytes).receipts nodes)
          ↔ Small maxInstructionBytes
            (planned.plan.after (Instructions.jsonCrates json digestBytes).receipts nodes)))
      ∧ ∀ scope manager profile target nodes plan,
        Hooks.planInstallAt (Hooks.jsonCrates json digestBytes) scope manager profile target nodes
          = .ok plan →
        (Hooks.InstallsAgain (Hooks.jsonCrates json digestBytes) scope manager profile target
            (plan.after (Hooks.jsonCrates json digestBytes).receipts nodes)
          ↔ Small maxSettingsBytes
              (plan.after (Hooks.jsonCrates json digestBytes).receipts nodes)
            ∧ Hooks.Apart (Hooks.jsonCrates json digestBytes) scope
              (Hooks.ownedEntry manager profile) nodes) := by
  refine ⟨fun host scope profile descriptor target requested nodes plan hhost h => ?_,
    fun scope profile descriptor target requested nodes plan h => ?_,
    fun desired kind host project force nodes planned hshipped h => ?_,
    fun scope manager profile target nodes plan h => ?_⟩
  · rw [← Hosts.readable_iff_after h]
    exact Hosts.connect_again_json hjson hhost h
  · rw [← Hosts.readable_iff_after h]
    exact Hosts.connect_again_codex hjson h
  · rw [← Instructions.readable_iff_after hshipped h]
    exact Instructions.install_again hjson hshipped h
  · rw [← Hooks.readable_iff_after h]
    exact Hooks.hook_again hjson h

/-! ## An element beside the new one -/

theorem small_of_all {maximum : Nat} {nodes : Nodes}
    (htarget : (bytesIn nodes.target).all (fun bytes => decide (bytes.size ≤ maximum)) = true)
    (hreceipt : (bytesIn nodes.receipt).all (fun bytes => decide (bytes.size ≤ maxReceiptBytes))
      = true) : Small maximum nodes := by
  refine ⟨fun bytes hbytes => ?_, fun bytes hbytes => ?_⟩
  · rw [hbytes] at htarget
    exact of_decide_eq_true htarget
  · rw [hbytes] at hreceipt
    exact of_decide_eq_true hreceipt

namespace Hooks.Again

open Hooks.Sample

def digestBytes (bytes : Bytes) : Text := (toString bytes.size).toList

def recordCrates : Crates := jsonCrates JsonWriter.crate digestBytes

def installs (manager : Text) (nodes : Nodes) : Result (HookPlan HookReceipt) :=
  planInstallAt recordCrates .user manager profile target nodes

/-- The entries after an install, if it is not refused. -/
def after (manager : Text) (nodes : Nodes) : Option Nodes :=
  (installs manager nodes).toOption.map fun plan => plan.after recordCrates.receipts nodes

/-- Settings with the manager's old element and, added by hand, its new one, and the receipt of
the old one. -/
def besides : Nodes :=
  { twoElements with receipt := (after oldManager noFiles).bind (·.receipt) }

end Hooks.Again

section

open Hooks Hooks.Sample Hooks.Again

/-- A first install is found again. -/
theorem again_first : ∃ plan, installs manager noFiles = .ok plan
    ∧ InstallsAgain recordCrates .user manager profile target
      (plan.after recordCrates.receipts noFiles) := by
  have hrun : (after manager noFiles).map (fun nodes =>
      (bytesIn nodes.target).all (fun bytes => decide (bytes.size ≤ maxSettingsBytes))
        && (bytesIn nodes.receipt).all (fun bytes => decide (bytes.size ≤ maxReceiptBytes)))
      = some true := by
    decide +kernel
  cases hplan : installs manager noFiles with
  | error x =>
    unfold after at hrun
    rw [hplan] at hrun
    cases hrun
  | ok plan =>
    unfold after at hrun
    rw [hplan] at hrun
    obtain ⟨htarget, hreceipt⟩ := Bool.and_eq_true_iff.mp (Option.some.inj hrun)
    refine ⟨plan, rfl, ((again_iff JsonWriter.crate_lawful digestBytes fun _ => true).2.2.2 .user
      manager profile target noFiles plan hplan).mpr ⟨small_of_all htarget hreceipt, ?_⟩⟩
    -- there is no receipt
    intro document owner _ hreceipt
    cases hreceipt

/-- The update leaves two elements that are alike, and a further install refuses to choose. -/
theorem update_not_again : ∃ plan, installs manager besides = .ok plan ∧ plan.action = .update
    ∧ ¬InstallsAgain recordCrates .user manager profile target
      (plan.after recordCrates.receipts besides) := by
  have hrun : (installs manager besides).toOption.map (fun plan => (plan.action,
      (installs manager (plan.after recordCrates.receipts besides)).isOk))
      = some (.update, false) := by
    decide +kernel
  cases hplan : installs manager besides with
  | error x =>
    rw [hplan] at hrun
    cases hrun
  | ok plan =>
    rw [hplan] at hrun
    obtain ⟨haction, hrefused⟩ := Prod.mk.inj (Option.some.inj hrun)
    refine ⟨plan, rfl, haction, ?_⟩
    rintro ⟨again, hagain, -⟩
    unfold installs at hrefused
    rw [hagain] at hrefused
    cases hrefused

end

end Kaleidoscope
