import Kaleidoscope.Repeat.Json

/-!
# Installing the hook again

The element that an install leaves is found again by the receipt that it writes, where the list
holds no other one like it.

    hook_again   exactly then, where what was written can be read
-/

namespace Kaleidoscope.Hooks

open Prog Disk

/-! ## Receipts -/

section

variable {json : JsonCrate} {digestBytes : Bytes → Text}

/-- Every element in a receipt that was read is well formed. -/
theorem owned_of_ofMembers {members : Members} {receipt : HookReceipt}
    (h : ofMembers members = some receipt) : members.lookup "owned".toList = some receipt.owned := by
  obtain ⟨_, -, h⟩ := Option.bind_eq_some_iff.mp h
  obtain ⟨version, -, h⟩ := Option.bind_eq_some_iff.mp h
  obtain ⟨owner, -, h⟩ := Option.bind_eq_some_iff.mp h
  obtain ⟨scope, -, h⟩ := Option.bind_eq_some_iff.mp h
  obtain ⟨profile, -, h⟩ := Option.bind_eq_some_iff.mp h
  obtain ⟨owned, howned, h⟩ := Option.bind_eq_some_iff.mp h
  obtain ⟨ownedSha256, -, h⟩ := Option.bind_eq_some_iff.mp h
  obtain ⟨preSha256, -, h⟩ := Option.bind_eq_some_iff.mp h
  obtain ⟨postSha256, -, h⟩ := Option.bind_eq_some_iff.mp h
  obtain ⟨fileCreated, -, h⟩ := Option.bind_eq_some_iff.mp h
  obtain ⟨adopted, -, h⟩ := Option.bind_eq_some_iff.mp h
  cases h
  obtain ⟨v, hlookup, hread⟩ := Option.bind_eq_some_iff.mp howned
  cases hread
  exact hlookup

theorem jsonCrates_lawful (hjson : json.Lawful) : (jsonCrates json digestBytes).Lawful where
  json := hjson
  encodes _ := rfl
  decodes bytes receipt h := by
    obtain ⟨v, hv, hreceipt⟩ := Option.bind_eq_some_iff.mp h
    obtain ⟨hdistinct, -⟩ := hjson.wellFormed _ _ hv
    cases v with
    | object members =>
      cases hdistinct with
      | object _ hmembers =>
        exact hmembers _ (Members.mem_of_lookup (owned_of_ofMembers hreceipt))
    | _ => cases hreceipt
  reads scope receipt bytes hvalid hdistinct hfloats hwithin hbytes := by
    have hshape := rejectIf_eq_ok.mp hvalid
    simp only [not_or, not_not] at hshape
    have hversion : receipt.version < 2 ^ 32 := by
      rw [hshape.1]
      decide
    exact Record.reads hjson (nodup_receiptMembers receipt)
      (plain_receiptMembers hversion ⟨hdistinct, hwithin, hfloats⟩)
      (ofMembers_receiptMembers receipt hversion) hbytes

end

/-! ## Planning -/

/-- An install plans nothing, and leaves the entries as they are. -/
def InstallsAgain (crates : Crates) (scope : Scope) (manager profile : Text) (target : PosixPath)
    (nodes : Nodes) : Prop :=
  ∃ plan, planInstallAt crates scope manager profile target nodes = .ok plan
    ∧ plan.action = .alreadyInstalled ∧ Idle plan ∧ plan.after crates.receipts nodes = nodes

/-- The settings hold no element like the new one, where the receipt names another. -/
def Apart (crates : Crates) (scope : Scope) (desired : Value) (nodes : Nodes) : Prop :=
  ∀ document owner, settingsOf crates nodes.target = .ok document →
    receiptOf crates scope nodes.receipt = .ok (some owner) → ¬Same owner.owned desired →
    ∀ entry ∈ eventArray document, ¬Same entry desired

section

variable {crates : Crates} {scope : Scope} {manager profile : Text} {target : PosixPath}
  {nodes : Nodes} {original : Snapshot} {document : Value} {receipt : Option HookReceipt}
  {plan : HookPlan HookReceipt}

theorem hooks_after_noop (h : plan.action.isNoop = true) :
    plan.after crates.receipts nodes = nodes := by
  unfold HookPlan.after
  rw [h]
  rfl

theorem idle_of_planInstallAt
    (h : planInstallAt crates scope manager profile target nodes = .ok plan)
    (hkept : plan.action = .alreadyInstalled) : Idle plan := by
  obtain ⟨_, -, h⟩ := except_bind_eq_ok.mp h
  obtain ⟨receiptPath, -, h⟩ := except_bind_eq_ok.mp h
  obtain ⟨backupPath, -, h⟩ := except_bind_eq_ok.mp h
  obtain ⟨original, -, h⟩ := except_bind_eq_ok.mp h
  obtain ⟨receiptOriginal, -, h⟩ := except_bind_eq_ok.mp h
  obtain ⟨old, -, h⟩ := except_bind_eq_ok.mp h
  obtain ⟨document, -, h⟩ := except_bind_eq_ok.mp h
  obtain ⟨action, -, h⟩ := except_bind_eq_ok.mp h
  split at h
  · cases h
    exact ⟨rfl, rfl, rfl⟩
  next hdone =>
    obtain ⟨written, -, h⟩ := except_bind_eq_ok.mp h
    cases h
    exact absurd hkept hdone

theorem Decided.done {desired : Value} {action : HookAction}
    (h : Decided document receipt desired action) (hnoop : action.isNoop = true) :
    action = .alreadyInstalled := by
  cases h with
  | alreadyInstalled => rfl
  | add | adopt | update => cases hnoop

/-- An install that is accepted and changes nothing found its element in place. -/
theorem installsAgain_iff : InstallsAgain crates scope manager profile target nodes
    ↔ ∃ plan, planInstallAt crates scope manager profile target nodes = .ok plan
      ∧ plan.action.isNoop = true := by
  constructor
  · rintro ⟨plan, hplan, haction, -⟩
    exact ⟨plan, hplan, by rw [haction]; rfl⟩
  · rintro ⟨plan, hplan, hnoop⟩
    have haction : plan.action = .alreadyInstalled := by
      obtain ⟨-, -, _, _, _, action, -, hdecided, hplans⟩ := planInstallAt_eq_ok hplan
      cases hplans with
      | noop _ haction => exact haction
      | write _ haction =>
        rw [haction] at hnoop ⊢
        exact (installAction_eq_ok hdecided).done hnoop
    exact ⟨plan, hplan, haction, idle_of_planInstallAt hplan haction, hooks_after_noop hnoop⟩

end

/-! ## Installing again -/

section

variable {crates : Crates} {scope : Scope} {manager profile : Text} {target : PosixPath}
  {nodes : Nodes} {original : Snapshot} {document document' : Value}
  {receipt : Option HookReceipt} {plan : HookPlan HookReceipt} {owner : HookReceipt}
  {bytes : Bytes} {l r : List Value} {mode : Nat}

theorem encodedReceipt_eq (hafter : plan.receiptAfter = some owner)
    (hbytes : encodeReceipt crates.receipts owner = .ok bytes) :
    encodedReceipt crates.receipts plan = .ok (some bytes) := by
  unfold encodedReceipt
  rw [hafter]
  exact except_bind_eq_ok.mpr ⟨bytes, hbytes, rfl⟩

/-- Settings where one element is the new one are found installed again, and no others. -/
theorem installsAgain_read (hcrates : crates.Lawful) (hplaced : Placed target)
    (hprofile : validateProfileName profile = .ok ())
    (howner : owner.owned = ownedEntry manager profile)
    (hlooked : Looked crates scope nodes original document (some owner)) :
    InstallsAgain crates scope manager profile target nodes
      ↔ (eventArray document).countP (fun entry => entry.same (ownedEntry manager profile)) = 1 := by
  rw [installsAgain_iff]
  constructor
  · rintro ⟨plan, hplan, hnoop⟩
    obtain ⟨-, -, original', document', receipt', action, hlooked', hdecided, hplans⟩ :=
      planInstallAt_eq_ok hplan
    have hdocument := hlooked'.settingsOf
    rw [hlooked.settingsOf] at hdocument
    cases hdocument
    have hreceipt := hlooked'.receipt
    rw [hlooked.receipt] at hreceipt
    cases hreceipt
    have hinstalled : action = .alreadyInstalled := by
      cases hplans with
      | noop hinstalled => exact hinstalled
      | write _ haction =>
        rw [haction] at hnoop
        exact (installAction_eq_ok hdecided).done hnoop
    subst hinstalled
    cases installAction_eq_ok hdecided with
    | @alreadyInstalled o x l r howned _ _ _ _ hindex =>
      rw [Option.map_some, howner] at howned
      cases howned
      have hlength := congrArg List.length hindex
      rw [← List.length_findIdxs]
      exact hlength
  · intro hone
    obtain ⟨l, x, r, hsplit, hsame, hindex⟩ := split_identical hone
    rw [← howner] at hindex
    exact planInstallAt_noop hplaced hprofile hlooked (installAction_again hsplit hindex hsame)

/-- The settings that an install wrote. -/
theorem again_written_iff (hcrates : crates.Lawful)
    (h : planInstallAt crates scope manager profile target nodes = .ok plan)
    (hdone : plan.action.isNoop = false) (hafter : plan.receiptAfter = some owner)
    (howner : owner.owned = ownedEntry manager profile)
    (hvalid : owner.validate crates scope = .ok ())
    (hsound : Sound document') (hwrite : plan.write = .write (crates.json.encode document'))
    (hsplit : eventArray document' = l ++ ownedEntry manager profile :: r) :
    InstallsAgain crates scope manager profile target (plan.after crates.receipts nodes)
      ↔ Readable crates.receipts maxSettingsBytes plan
        ∧ ∀ entry ∈ l ++ r, ¬Same entry (ownedEntry manager profile) := by
  obtain ⟨hplaced, hprofile, -⟩ := planInstallAt_eq_ok h
  obtain ⟨bytes, hbytes⟩ := encodeReceipt_ok hcrates owner
  obtain ⟨htarget, hreceipt⟩ := @after_of_receipt crates nodes bytes plan _ hdone hafter hbytes
  have hencoded := encodedReceipt_eq hafter hbytes
  rw [written, hwrite] at htarget
  have hfree := ownedEntry_floatFree manager profile
  have hreadable : Readable crates.receipts maxSettingsBytes plan
      ↔ (crates.json.encode document').size ≤ maxSettingsBytes
        ∧ bytes.size ≤ maxReceiptBytes := by
    constructor
    · intro h
      exact ⟨h.target _ hwrite, h.receipt _ hencoded⟩
    · rintro ⟨hsize, hreceiptSize⟩
      refine ⟨fun text htext => ?_, fun text htext => ?_⟩
      · rw [hwrite] at htext
        cases htext
        exact hsize
      · rw [hencoded] at htext
        cases htext
        exact hreceiptSize
  rw [hreadable]
  have hread : (crates.json.encode document').size ≤ maxSettingsBytes →
      bytes.size ≤ maxReceiptBytes → ∃ original,
        Looked crates scope (plan.after crates.receipts nodes) original
          (document'.mapFloats crates.json.reread) (some owner) := by
    intro hsize hreceiptSize
    have hsettings : settingsOf crates (plan.after crates.receipts nodes).target
        = .ok (document'.mapFloats crates.json.reread) := by
      rw [htarget]
      exact settingsOf_encode hcrates hsound hsize
    obtain ⟨original, hsnapshot, hparse⟩ := except_bind_eq_ok.mp hsettings
    refine ⟨original, hsnapshot, hparse, ?_⟩
    rw [hreceipt]
    exact receiptOf_encode hcrates hvalid (howner ▸ ownedEntry_distinct manager profile)
      (howner ▸ hfree) (howner ▸ (ownedEntry_within manager profile).mono (by decide)) hbytes
      hreceiptSize
  have hcount := @countP_written crates.json.reread (ownedEntry manager profile) l r
    (same_ownedEntry manager profile) hfree
  rw [← eventArray_reread hsplit] at hcount
  rw [← hcount]
  constructor
  · intro hagain
    have hplans := hagain
    obtain ⟨plan', hplan', -⟩ := hplans
    obtain ⟨-, -, _, _, _, _, hlooked, -⟩ := planInstallAt_eq_ok hplan'
    have hsize := hlooked.settingsOf
    rw [htarget] at hsize
    have hreceiptSize := hlooked.receipt
    rw [hreceipt] at hreceiptSize
    have hsizes := And.intro (size_of_settings hsize) (size_of_receipt hreceiptSize)
    obtain ⟨original, hlooked'⟩ := hread hsizes.1 hsizes.2
    exact ⟨hsizes, (installsAgain_read hcrates hplaced hprofile howner hlooked').mp hagain⟩
  · rintro ⟨⟨hsize, hreceiptSize⟩, hone⟩
    obtain ⟨original, hlooked⟩ := hread hsize hreceiptSize
    exact (installsAgain_read hcrates hplaced hprofile howner hlooked).mpr hone

/-- The settings that an install took over. -/
theorem again_adopted_iff (hcrates : crates.Lawful)
    (h : planInstallAt crates scope manager profile target nodes = .ok plan)
    (hlooked : Looked crates scope nodes original document receipt)
    (hdone : plan.action.isNoop = false) (hafter : plan.receiptAfter = some owner)
    (howner : owner.owned = ownedEntry manager profile)
    (hvalid : owner.validate crates scope = .ok ()) (hwrite : plan.write = .leave)
    (hone : (eventArray document).countP
      (fun entry => entry.same (ownedEntry manager profile)) = 1) :
    InstallsAgain crates scope manager profile target (plan.after crates.receipts nodes)
      ↔ Readable crates.receipts maxSettingsBytes plan := by
  obtain ⟨hplaced, hprofile, -⟩ := planInstallAt_eq_ok h
  obtain ⟨bytes, hbytes⟩ := encodeReceipt_ok hcrates owner
  obtain ⟨htarget, hreceipt⟩ := @after_of_receipt crates nodes bytes plan _ hdone hafter hbytes
  have hencoded := encodedReceipt_eq hafter hbytes
  rw [written, hwrite] at htarget
  constructor
  · intro hagain
    obtain ⟨plan', hplan', -⟩ := hagain
    obtain ⟨-, -, _, _, _, _, hlooked', -⟩ := planInstallAt_eq_ok hplan'
    have hread := hlooked'.receipt
    rw [hreceipt] at hread
    refine ⟨fun text htext => ?_, fun text htext => ?_⟩
    · rw [hwrite] at htext
      cases htext
    · rw [hencoded] at htext
      cases htext
      exact size_of_receipt hread
  · intro hreadable
    refine (installsAgain_read hcrates hplaced hprofile howner ⟨?_, hlooked.document, ?_⟩).mpr hone
    · rw [htarget]
      exact hlooked.settings
    · rw [hreceipt]
      exact receiptOf_encode hcrates hvalid (howner ▸ ownedEntry_distinct manager profile)
        (howner ▸ ownedEntry_floatFree manager profile)
        (howner ▸ (ownedEntry_within manager profile).mono (by decide)) hbytes
        (hreadable.receipt _ hencoded)

/-- The hook is found installed again exactly where what was written can be read, and the settings
hold no other element like the new one. -/
theorem hook_again {json : JsonCrate} (hjson : json.Lawful) {digestBytes : Bytes → Text}
    (h : planInstallAt (jsonCrates json digestBytes) scope manager profile target nodes
      = .ok plan) :
    InstallsAgain (jsonCrates json digestBytes) scope manager profile target
        (plan.after (jsonCrates json digestBytes).receipts nodes)
      ↔ Readable (jsonCrates json digestBytes).receipts maxSettingsBytes plan
        ∧ Apart (jsonCrates json digestBytes) scope (ownedEntry manager profile) nodes := by
  have hcrates := @jsonCrates_lawful json digestBytes hjson
  obtain ⟨hplaced, hprofile, original, document, receipt, action, hlooked, hdecided, hplans⟩ :=
    planInstallAt_eq_ok h
  have hnew : ∀ owner, plan.receiptAfter = some owner →
      owner.validate (jsonCrates json digestBytes) scope = .ok () := fun owner hafter =>
    (new_of_planInstallAt h hafter).valid
  generalize jsonCrates json digestBytes = crates at h hcrates hlooked hplans hnew ⊢
  have hsound := sound_of_looked hcrates hlooked
  have hdistinct := ownedEntry_distinct manager profile
  have hwithin : (ownedEntry manager profile).Within (recursionLimit - 3) :=
    (ownedEntry_within manager profile).mono (by decide)
  have happart : Apart crates scope (ownedEntry manager profile) nodes
      ↔ ∀ owner, receipt = some owner → ¬Same owner.owned (ownedEntry manager profile) →
        ∀ entry ∈ eventArray document, ¬Same entry (ownedEntry manager profile) := by
    unfold Apart
    rw [hlooked.settingsOf, hlooked.receipt]
    constructor
    · intro h owner howner
      exact h document owner rfl (by rw [howner])
    · intro h document' owner hdocument howner
      cases hdocument
      cases howner
      exact h owner rfl
  rw [happart]
  cases hplans with
  | noop hinstalled hkept =>
    subst hinstalled
    have hidle := idle_of_planInstallAt h hkept
    have hnodes : plan.after crates.receipts nodes = nodes := hooks_after_noop (by rw [hkept]; rfl)
    rw [hnodes]
    refine ⟨fun _ => ⟨hidle.readable, ?_⟩, fun _ => ⟨plan, h, hkept, hidle, hnodes⟩⟩
    cases installAction_eq_ok hdecided with
    | @alreadyInstalled o x l r howned hsplit hsame _ hidentical =>
      rintro owner rfl hdiffers
      cases howned
      have hx : x ∈ eventArray document := by
        rw [hsplit]
        exact List.mem_append_right _ List.mem_cons_self
      exact absurd (Value.same_trans (Value.same_symm (distinct_of_mem hsound hx)
        (hlooked.owned_distinct hcrates rfl) hsame) hidentical) hdiffers
  | @write _ haction wanted hwanted hwrite hafter =>
    cases installAction_eq_ok hdecided with
    | alreadyInstalled => contradiction
    | add howned hidentical hnone =>
      obtain ⟨document', hinstalled, hwrote⟩ := installWrite_eq_ok (by decide) hwanted
      unfold installed at hinstalled
      rw [hnone] at hinstalled
      obtain ⟨hentries, hsound'⟩ := pushEntry_eq_ok hinstalled hsound hdistinct hwithin
      rw [again_written_iff hcrates h (by rw [haction]; rfl) hafter rfl (hnew _ hafter) hsound'
        (hwrite.trans hwrote) hentries, List.append_nil]
      exact and_congr_right fun _ => ⟨fun _ _ _ _ => hidentical, fun _ => hidentical⟩
    | @update o x l r howned hsplit hsame hothers hdiffers hindex =>
      obtain ⟨document', hinstalled, hwrote⟩ := installWrite_eq_ok (by decide) hwanted
      unfold installed at hinstalled
      rw [howned, hindex] at hinstalled
      obtain ⟨hentries, hsound'⟩ := replaceEntry_eq_ok hinstalled hsound hdistinct hwithin
      rw [hsplit, set_length] at hentries
      rw [again_written_iff hcrates h (by rw [haction]; rfl) hafter rfl (hnew _ hafter) hsound'
        (hwrite.trans hwrote) hentries]
      refine and_congr_right fun _ => ?_
      have hall : (∀ entry ∈ eventArray document, ¬Same entry (ownedEntry manager profile))
          ↔ ∀ entry ∈ l ++ r, ¬Same entry (ownedEntry manager profile) := by
        rw [hsplit]
        simp only [List.forall_mem_append, List.forall_mem_cons]
        exact ⟨fun h => ⟨h.1, h.2.2⟩, fun h => ⟨h.1, hdiffers, h.2⟩⟩
      obtain ⟨owner, rfl, rfl⟩ := Option.map_eq_some_iff.mp howned
      rw [← hall]
      constructor
      · intro h _ _ _
        exact h
      · intro h
        exact h owner rfl fun hnew => hdiffers (Value.same_trans hsame hnew)
    | adopt hnone hidentical =>
      subst hnone
      have hleave : plan.write = .leave := by
        unfold installWrite at hwanted
        cases hwanted
        exact hwrite
      rw [again_adopted_iff hcrates h hlooked (by rw [haction]; rfl) hafter rfl (hnew _ hafter)
        hleave hidentical]
      exact ⟨fun h => ⟨h, nofun⟩, fun h => h.1⟩

end

end Kaleidoscope.Hooks
