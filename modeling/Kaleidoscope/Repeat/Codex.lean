import Kaleidoscope.CodexBlock
import Kaleidoscope.Lib.Block
import Kaleidoscope.Repeat.Json

/-!
# Connecting Codex again

The block that a connect writes is found again where it holds each marker once, and it may not:
the launch's command and profile stand in it as they are.

    connect_again_codex   exactly where what was written can be read and the block is found
-/

namespace Kaleidoscope.Hosts

open Prog Disk

/-! ## The block -/

theorem codexMarkers : Text.Markers markerStart markerEnd := by
  unfold markerStart markerEnd
  rw [String.toList_ofList, String.toList_ofList]
  exact
    { startNe := List.cons_ne_nil _ _
      stopNe := List.cons_ne_nil _ _
      startUnbordered := by
        intro k hlt
        revert k
        decide +kernel
      stopUnbordered := by
        intro k hlt
        revert k
        decide +kernel
      short := by decide +kernel
      outside := by decide +kernel
      inside := by decide +kernel
      apart := by decide +kernel
      last := by decide +kernel }

theorem findCodexBlock_eq_ok {text : Text} {current : Option Text} :
    findCodexBlock text = .ok current
      ↔ Text.findBlock markerStart markerEnd text = some current := by
  unfold findCodexBlock Text.findBlock
  generalize Text.matchIndices markerStart text = starts
  generalize Text.matchIndices markerEnd text = stops
  split
  · simp
  · dsimp only
    split <;> simp
  · simp

section

variable {crates : Crates} {profile : Text} {descriptor : LaunchDescriptor}

theorem markerEnd_codexBlock : markerEnd ++ ['\n'] <:+ codexBlock crates descriptor profile := by
  unfold codexBlock
  rw [List.append_assoc _ markerEnd]
  exact List.suffix_append _ _

/-- A block that is found in a text is one, and is found as itself. -/
theorem codexBlock_found {text : Text}
    (h : findCodexBlock text = .ok (some (codexBlock crates descriptor profile))) :
    Text.IsBlock markerStart markerEnd (codexBlock crates descriptor profile) := by
  have hfound := findCodexBlock_eq_ok.mp h
  obtain ⟨before, after, rfl, -, hbefore, hafter⟩ := Text.findBlock_split codexMarkers hfound
  exact Text.isBlock_of_found codexMarkers markerStart_codexBlock markerEnd_codexBlock hbefore hafter
    hfound

theorem findCodexBlock_self
    (h : Text.IsBlock markerStart markerEnd (codexBlock crates descriptor profile)) :
    findCodexBlock (codexBlock crates descriptor profile)
      = .ok (some (codexBlock crates descriptor profile)) := by
  have hfound := Text.findBlock_around codexMarkers h (Text.clear_nil codexMarkers)
    (Text.clear_nil codexMarkers)
  rw [List.nil_append, List.append_nil] at hfound
  exact findCodexBlock_eq_ok.mpr hfound

/-- A block that was put into a text is found there. -/
theorem findCodexBlock_installed {text updated : Text} {current : Option Text}
    (hblock : Text.IsBlock markerStart markerEnd (codexBlock crates descriptor profile))
    (hcurrent : findCodexBlock text = .ok current)
    (h : installCodexBlock text current (codexBlock crates descriptor profile) = .ok updated) :
    findCodexBlock updated = .ok (some (codexBlock crates descriptor profile)) := by
  have hfound := findCodexBlock_eq_ok.mp hcurrent
  refine findCodexBlock_eq_ok.mpr ?_
  cases current with
  | none =>
    have hclear := (Text.findBlock_eq_none codexMarkers).mp hfound
    rw [installCodexBlock_new] at h
    cases h
    have hnewlines : ∀ c ∈ separatorOf text, c = '\n' := by
      rcases separatorOf_cases text with ⟨h, -⟩ | ⟨h, -⟩ | ⟨h, -⟩ <;> rw [h] <;> decide
    have haround := Text.findBlock_around codexMarkers hblock
      (hclear.separated codexMarkers hnewlines) (Text.clear_nil codexMarkers)
    rwa [List.append_nil] at haround
  | some current =>
    obtain ⟨before, after, rfl, hbegins, hbefore, hafter⟩ :=
      Text.findBlock_split codexMarkers hfound
    obtain ⟨_, -, h⟩ := except_bind_eq_ok.mp h
    cases h
    rw [Text.replaceFirst_block codexMarkers hbegins hbefore.start]
    exact Text.findBlock_around codexMarkers hblock hbefore hafter

end

/-! ## Planning -/

/-- What a connect of Codex plans. -/
inductive ConnectsCodex (crates : Crates) (profile : Text) (descriptor : LaunchDescriptor)
    (original : Snapshot) (plan : ConnectionPlan OwnershipReceipt) : Prop
  | kept {text : Text}
    (found : findCodexBlock text = .ok (some (codexBlock crates descriptor profile)))
    (action : plan.action = .alreadyConnected) (idle : Idle plan)
  | adopted {text : Text} {receipt : OwnershipReceipt} (read : snapshotText original = .ok text)
    (isToml : validateCodexDocument crates text = .ok ())
    (found : findCodexBlock text = .ok (some (codexBlock crates descriptor profile)))
    (action : plan.action = .adopt) (write : plan.write = .leave)
    (after : plan.receiptAfter = some receipt)
    (names : Names receipt .codexMarkerBlock (.string (codexBlock crates descriptor profile)) none)
  | put {text updated : Text} {current : Option Text} {receipt : OwnershipReceipt}
    (found : findCodexBlock text = .ok current)
    (installed : installCodexBlock text current (codexBlock crates descriptor profile)
      = .ok updated)
    (isToml : validateCodexDocument crates updated = .ok ())
    (action : plan.action.isNoop = false) (write : plan.write = .write (Text.utf8 updated))
    (after : plan.receiptAfter = some receipt)
    (names : Names receipt .codexMarkerBlock (.string (codexBlock crates descriptor profile)) none)

section

variable {crates : Crates} {host : Host} {scope : Scope} {profile : Text}
  {descriptor : LaunchDescriptor} {target : PosixPath}
  {receiptPath : Sibling target ".kaleidoscope-owner.json"}
  {backupPath : Sibling target ".kaleidoscope-backup"} {original receiptOriginal : Snapshot}
  {old : Option OwnershipReceipt} {plan : ConnectionPlan OwnershipReceipt}
  {receipt : OwnershipReceipt}

theorem planCodexConnect_cases
    (h : planCodexConnect crates host scope profile descriptor target receiptPath backupPath
      original receiptOriginal old = .ok plan) :
    ConnectsCodex crates profile descriptor original plan := by
  obtain ⟨text, htext, h⟩ := except_bind_eq_ok.mp h
  obtain ⟨_, htoml, h⟩ := except_bind_eq_ok.mp h
  obtain ⟨current, hcurrent, h⟩ := except_bind_eq_ok.mp h
  obtain ⟨_, -, h⟩ := except_bind_eq_ok.mp h
  dsimp only at h
  split at h
  next hadopted =>
    obtain ⟨receipt, hreceipt, h⟩ := except_bind_eq_ok.mp h
    cases h
    rw [hadopted.2] at hcurrent
    exact .adopted htext htoml hcurrent rfl rfl rfl (names_of_newReceipt hreceipt)
  next =>
    obtain ⟨_, -, h⟩ := except_bind_eq_ok.mp h
    obtain ⟨_, -, h⟩ := except_bind_eq_ok.mp h
    split at h
    next hsame =>
      rw [noChangePlan_eq_ok h]
      rw [hsame] at hcurrent
      exact .kept hcurrent rfl ⟨rfl, rfl, rfl⟩
    next =>
      obtain ⟨updated, hupdated, h⟩ := except_bind_eq_ok.mp h
      obtain ⟨_, htoml', h⟩ := except_bind_eq_ok.mp h
      obtain ⟨receipt, hreceipt, h⟩ := except_bind_eq_ok.mp h
      cases h
      refine .put hcurrent hupdated htoml' ?_ rfl rfl (names_of_newReceipt hreceipt)
      show ChangeAction.isNoop (if current.isSome = true then .update else .add) = false
      split <;> rfl

/-- A receipt and the block that it names are all that a connect looks for. -/
theorem planCodexConnect_noop {text : Text} (htext : snapshotText original = .ok text)
    (htoml : validateCodexDocument crates text = .ok ())
    (hfound : findCodexBlock text = .ok (some (codexBlock crates descriptor profile)))
    (hnames : Names receipt .codexMarkerBlock (.string (codexBlock crates descriptor profile)) none)
    (hdigest : OwnershipReceipt.digestHolds crates receipt receipt.format = true)
    (hbytes : receiptOriginal.bytes.isSome = true) :
    planCodexConnect crates host scope profile descriptor target receiptPath backupPath original
        receiptOriginal (some receipt)
      = .ok (keepPlan .alreadyConnected target receiptPath backupPath original receiptOriginal) := by
  have hvalid : validateCurrentOwnership crates (some receipt)
      (some (.string (codexBlock crates descriptor profile))) .codexMarkerBlock = .ok () := by
    refine rejectIf_eq_ok.mpr ?_
    rw [hnames.format] at hdigest
    simp [hnames.format, hnames.owned, hdigest, Value.same]
  refine except_bind_eq_ok.mpr ⟨text, htext, ?_⟩
  refine except_bind_eq_ok.mpr ⟨(), htoml, ?_⟩
  refine except_bind_eq_ok.mpr ⟨_, hfound, ?_⟩
  refine except_bind_eq_ok.mpr ⟨(), rejectIf_eq_ok.mpr (by simp), ?_⟩
  dsimp only
  rw [if_neg (by simp)]
  refine except_bind_eq_ok.mpr ⟨(), rejectIf_eq_ok.mpr (by simp), ?_⟩
  refine except_bind_eq_ok.mpr ⟨(), hvalid, ?_⟩
  rw [if_pos rfl]
  refine except_bind_eq_ok.mpr ⟨(), rejectIf_eq_ok.mpr ?_, rfl⟩
  rintro ⟨-, hnone⟩
  rw [Option.isNone_iff_eq_none] at hnone
  rw [hnone] at hbytes
  cases hbytes

end

/-! ## Connecting again -/

section

variable {json : JsonCrate} {digestBytes : Bytes → Text} {isToml : Text → Bool} {scope : Scope}
  {profile : Text} {descriptor : LaunchDescriptor} {target : PosixPath}
  {requested : Option OpenCodeVersion} {nodes : Nodes} {plan : ConnectionPlan OwnershipReceipt}

/-- Codex is found connected again exactly where what was written can be read, and the block holds
each marker once. -/
theorem connect_again_codex (hjson : json.Lawful)
    (h : planConnectAtVersion (jsonCrates json digestBytes isToml) .codex scope profile descriptor
      target requested nodes = .ok plan) :
    ConnectsAgain (jsonCrates json digestBytes isToml) .codex scope profile descriptor target
        requested (plan.after (jsonCrates json digestBytes isToml).receipts nodes)
      ↔ Readable (jsonCrates json digestBytes isToml).receipts maxHostConfigBytes plan
        ∧ findCodexBlock (codexBlock (jsonCrates json digestBytes isToml) descriptor profile)
          = .ok (some (codexBlock (jsonCrates json digestBytes isToml) descriptor profile)) := by
  obtain ⟨-, -, receiptPath, backupPath, -, -, original, receiptOriginal, old, hreads, hfrom⟩ :=
    planConnectAtVersion_iff.mp h
  have hdigest : ∀ receipt, plan.receiptAfter = some receipt → OwnershipReceipt.digestHolds
      (jsonCrates json digestBytes isToml) receipt receipt.format = true := fun receipt hafter =>
    digestHolds_of_valid (Planned.new (.connect h) hafter).valid
  cases planCodexConnect_cases hfrom with
  | kept hfound haction hidle =>
    exact ⟨fun _ => ⟨hidle.readable, findCodexBlock_self (codexBlock_found hfound)⟩,
      fun _ => connectsAgain_of_noop h haction hidle⟩
  | @adopted text receipt htext htoml hfound haction hwrite hafter hnames =>
    have hdone : plan.action.isNoop = false := by
      rw [haction]
      rfl
    have hkept : plan.write ≠ .remove := by
      rw [hwrite]
      nofun
    refine ⟨fun hagain => ⟨readable_of_again hjson h hdone hafter hagain,
      findCodexBlock_self (codexBlock_found hfound)⟩, fun hreadable =>
      again_of_readable hjson h hreads hdone hafter hkept hreadable.1 ?_⟩
    intro receiptPath backupPath original' receiptOriginal' hsome hleave _
    rw [hleave hwrite]
    exact planCodexConnect_noop htext htoml hfound hnames (hdigest receipt hafter) hsome
  | @put text updated current receipt hfound hinstalled htoml hdone hwrite hafter hnames =>
    have hkept : plan.write ≠ .remove := by
      rw [hwrite]
      nofun
    constructor
    · intro hagain
      refine ⟨readable_of_again hjson h hdone hafter hagain, ?_⟩
      obtain ⟨plan', hplan', haction', -⟩ := hagain
      obtain ⟨-, -, _, _, -, -, _, _, _, -, hfrom'⟩ := planConnectAtVersion_iff.mp hplan'
      cases planCodexConnect_cases hfrom' with
      | kept hfound' => exact findCodexBlock_self (codexBlock_found hfound')
      | adopted _ _ hfound' => exact findCodexBlock_self (codexBlock_found hfound')
      | put _ _ _ hdone' =>
        rw [haction'] at hdone'
        cases hdone'
    · rintro ⟨hreadable, hself⟩
      refine again_of_readable hjson h hreads hdone hafter hkept hreadable ?_
      intro receiptPath backupPath original' receiptOriginal' hsome _ hwritten
      have htext : snapshotText original' = .ok updated := by
        unfold snapshotText
        rw [hwritten _ hwrite, Option.elim_some, Utf8.decode_utf8]
      exact planCodexConnect_noop htext htoml
        (findCodexBlock_installed (codexBlock_found hself) hfound hinstalled) hnames
        (hdigest receipt hafter) hsome

end

end Kaleidoscope.Hosts
