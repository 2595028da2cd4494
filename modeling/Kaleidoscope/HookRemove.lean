import Kaleidoscope.HookInstall

/-!
# Removing the session-start hook

What a removal leaves of the owner receipt, and a forced one of the elements.

    remove_forgets         when a removal leaves no receipt, and what the receipts of a run record
    forced_removal_iff     when a forced removal leaves the hooks of the user and no other
-/

namespace Kaleidoscope.Hooks

open Prog Disk

/-! ## What a removal plans -/

/-- A removal that takes an element out. -/
structure TakesOut (document owned : Value) (force : Bool) (index : Nat) (after : Value) : Prop where
  removed : removeEntry document index = .ok after
  picked : matchingIndices document (some owned) = [index]
    ∨ matchingIndices document (some owned) = [] ∧ force = true
      ∧ ∃ rest, resemblingIndices document owned = index :: rest

theorem withoutEntry_none {target : PosixPath} {document owned : Value} {force : Bool}
    (h : withoutEntry target document owned force = .ok none) :
    matchingIndices document (some owned) = [] ∧ resemblingIndices document owned = [] := by
  unfold withoutEntry at h
  split at h
  next hmatching =>
    split at h
    next hresembling => exact ⟨hmatching, hresembling⟩
    next =>
      obtain ⟨_, -, h⟩ := except_bind_eq_ok.mp h
      obtain ⟨_, -, h⟩ := except_bind_eq_ok.mp h
      cases h
  next =>
    obtain ⟨_, -, h⟩ := except_bind_eq_ok.mp h
    cases h
  next => cases h

theorem withoutEntry_some {target : PosixPath} {document owned after : Value} {force : Bool}
    (h : withoutEntry target document owned force = .ok (some after)) :
    ∃ index, TakesOut document owned force index after := by
  unfold withoutEntry at h
  split at h
  next hmatching =>
    split at h
    next => cases h
    next index rest hresembling =>
      obtain ⟨_, hforce, h⟩ := except_bind_eq_ok.mp h
      obtain ⟨removed, hremoved, h⟩ := except_bind_eq_ok.mp h
      cases h
      refine ⟨index, hremoved, .inr ⟨hmatching, ?_, rest, hresembling⟩⟩
      simpa using rejectIf_eq_ok.mp hforce
  next index hmatching =>
    obtain ⟨removed, hremoved, h⟩ := except_bind_eq_ok.mp h
    cases h
    exact ⟨index, hremoved, .inl hmatching⟩
  next => cases h

section

variable {crates : Crates} {scope : Scope} {target : PosixPath} {force : Bool} {nodes nodes' : Nodes}
  {plan : HookPlan HookReceipt}

/-- The settings are known as they were before the manager: it made the file, or the backup holds
them; and they are as the manager left them. -/
def Exact (receipt : HookReceipt) (original backup : Snapshot) : Prop :=
  receipt.adopted = false ∧ original.sha256 = receipt.postSha256
    ∧ (receipt.fileCreated = true ∨ backup.bytes.isSome = true ∧ backup.sha256 = receipt.preSha256)

/-- What a removal plans. -/
inductive Removes (crates : Crates) (scope : Scope) (target : PosixPath) (force : Bool) (nodes : Nodes)
    (plan : HookPlan HookReceipt) : Prop where
  | absent (receipt : receiptOf crates scope nodes.receipt = .ok none)
      (noop : plan.action = .alreadyRemoved)
  | missing {original : Snapshot} {document : Value} {receipt : HookReceipt}
      (looked : Looked crates scope nodes original document (some receipt))
      (without : withoutEntry target document receipt.owned force = .ok none)
      (noop : plan.action = .alreadyRemoved)
  | exact {original backup : Snapshot} {document after : Value} {receipt : HookReceipt}
      (looked : Looked crates scope nodes original document (some receipt))
      (without : withoutEntry target document receipt.owned force = .ok (some after))
      (saved : snapshotOf crates.receipts.digestBytes maxSettingsBytes "settings backup"
        nodes.backup = .ok backup)
      (known : Exact receipt original backup) (action : plan.action = .remove)
      (write : plan.write =
        if receipt.fileCreated then .remove else backup.bytes.elim .remove .write)
      (forgets : plan.receiptAfter = none)
  | structural {original backup : Snapshot} {document after : Value} {receipt : HookReceipt}
      (looked : Looked crates scope nodes original document (some receipt))
      (without : withoutEntry target document receipt.owned force = .ok (some after))
      (saved : snapshotOf crates.receipts.digestBytes maxSettingsBytes "settings backup"
        nodes.backup = .ok backup)
      (unknown : ¬Exact receipt original backup) (action : plan.action = .remove)
      (write : plan.write =
        if receipt.fileCreated && after.isEmptyObject then .remove
        else .write (exciseOrEncode crates original document after))
      (forgets : plan.receiptAfter = none)

theorem planRemoveAt_eq_ok (h : planRemoveAt crates scope target force nodes = .ok plan) :
    Removes crates scope target force nodes plan := by
  obtain ⟨receiptPath, -, h⟩ := except_bind_eq_ok.mp h
  obtain ⟨backupPath, -, h⟩ := except_bind_eq_ok.mp h
  obtain ⟨original, horiginal, h⟩ := except_bind_eq_ok.mp h
  obtain ⟨receiptOriginal, hreceiptOriginal, h⟩ := except_bind_eq_ok.mp h
  obtain ⟨receipt, hreceipt, h⟩ := except_bind_eq_ok.mp h
  have hread : receiptOf crates scope nodes.receipt = .ok receipt :=
    except_bind_eq_ok.mpr ⟨receiptOriginal, hreceiptOriginal, hreceipt⟩
  cases receipt with
  | none =>
    cases h
    exact .absent hread rfl
  | some receipt =>
    obtain ⟨document, hdocument, h⟩ := except_bind_eq_ok.mp h
    obtain ⟨without, hwithout, h⟩ := except_bind_eq_ok.mp h
    have hlooked : Looked crates scope nodes original document (some receipt) :=
      ⟨horiginal, hdocument, hread⟩
    cases without with
    | none =>
      cases h
      exact .missing hlooked hwithout rfl
    | some after =>
      obtain ⟨backup, hbackup, h⟩ := except_bind_eq_ok.mp h
      split at h
      next hexact =>
        cases h
        exact .exact hlooked hwithout hbackup hexact rfl rfl rfl
      next hexact =>
        cases h
        exact .structural hlooked hwithout hbackup hexact rfl rfl rfl

/-! ## What is left of the receipt -/

theorem receiptOf_none : receiptOf crates scope none = .ok none := rfl

theorem receipt_of_receiptOf_none {node : Option Node}
    (h : receiptOf crates scope node = .ok none) : node = none := by
  obtain ⟨snapshot, hsnapshot, h⟩ := except_bind_eq_ok.mp h
  unfold decodeReceipt at h
  split at h
  next hbytes =>
    unfold receiptSnapshot snapshotOf at hsnapshot
    split at hsnapshot
    · rfl
    · cases hsnapshot
    · split at hsnapshot
      · cases hsnapshot
      · cases hsnapshot
        cases hbytes
    · cases hsnapshot
  next =>
    split at h
    · cases h
    · obtain ⟨_, -, h⟩ := except_bind_eq_ok.mp h
      cases h

theorem after_of_noop (h : plan.action = .alreadyRemoved ∨ plan.action = .alreadyInstalled) :
    plan.after crates.receipts nodes = nodes := by
  unfold HookPlan.after
  rcases h with h | h <;> rw [h] <;> rfl

theorem after_of_remove (haction : plan.action = .remove) (hforgets : plan.receiptAfter = none) :
    (plan.after crates.receipts nodes).target = written plan nodes.target
      ∧ (plan.after crates.receipts nodes).receipt = none := by
  unfold HookPlan.after
  rw [haction]
  refine ⟨rfl, ?_⟩
  show receiptNode (receiptBytes crates.receipts plan) = none
  unfold receiptBytes
  rw [hforgets]
  rfl

/-- The receipt's element, or an edited copy of it, is in the settings. -/
def Found (crates : Crates) (scope : Scope) (nodes : Nodes) : Prop :=
  ∀ receipt document, receiptOf crates scope nodes.receipt = .ok (some receipt) →
    settingsOf crates nodes.target = .ok document →
    ∃ entry ∈ eventArray document, Same entry receipt.owned
      ∨ ∃ command ∈ ownedCommand receipt.owned, runs command entry = true

theorem resemblingIndices_nil {document owned : Value} :
    resemblingIndices document owned = [] ↔ ∀ command ∈ ownedCommand owned,
      ∀ entry ∈ eventArray document, runs command entry = true → Same entry owned := by
  unfold resemblingIndices
  cases ownedCommand owned with
  | none => simp
  | some command =>
    simp only [List.findIdxs_eq_nil_iff, Option.mem_def, Option.some.injEq, forall_eq',
      Bool.and_eq_false_iff, Bool.not_eq_false']
    refine forall₂_congr fun entry _ => ?_
    cases runs command entry <;> simp

theorem not_found {document owned : Value} (hmatching : matchingIndices document (some owned) = [])
    (hresembling : resemblingIndices document owned = []) {entry : Value}
    (hentry : entry ∈ eventArray document) :
    ¬(Same entry owned ∨ ∃ command ∈ ownedCommand owned, runs command entry = true) := by
  have hdiffers := matchingIndices_nil.mp hmatching owned rfl entry hentry
  rintro (hsame | ⟨command, hcommand, hruns⟩)
  · exact hdiffers hsame
  · exact hdiffers (resemblingIndices_nil.mp hresembling command hcommand entry hentry hruns)

theorem TakesOut.found {document owned after : Value} {index : Nat}
    (h : TakesOut document owned force index after) :
    ∃ entry ∈ eventArray document, Same entry owned
      ∨ ∃ command ∈ ownedCommand owned, runs command entry = true := by
  rcases h.picked with hmatching | ⟨-, -, rest, hresembling⟩
  · have hmem : index ∈ matchingIndices document (some owned) := by
      rw [hmatching]
      exact List.mem_cons_self
    obtain ⟨hi, hsame⟩ := List.mem_findIdxs_iff_exists_getElem_pos.mp hmem
    exact ⟨_, List.getElem_mem hi, .inl hsame⟩
  · unfold resemblingIndices at hresembling
    split at hresembling
    next => cases hresembling
    next command hcommand =>
      have hmem : index ∈ (eventArray document).findIdxs
          (fun entry => !entry.same owned && runs command entry) := by
        rw [hresembling]
        exact List.mem_cons_self
      obtain ⟨hi, hruns⟩ := List.mem_findIdxs_iff_exists_getElem_pos.mp hmem
      rw [Bool.and_eq_true] at hruns
      exact ⟨_, List.getElem_mem hi, .inr ⟨command, hcommand, hruns.2⟩⟩

/-- A removal leaves no receipt exactly where it finds what the receipt names. -/
theorem receipt_removed_iff (hplan : planRemoveAt crates scope target force nodes = .ok plan) :
    (plan.after crates.receipts nodes).receipt = none ↔ Found crates scope nodes := by
  cases planRemoveAt_eq_ok hplan with
  | absent hreceipt hnoop =>
    rw [after_of_noop (.inl hnoop)]
    refine ⟨fun _ receipt _ h => ?_, fun _ => receipt_of_receiptOf_none hreceipt⟩
    rw [hreceipt] at h
    cases h
  | missing hlooked hwithout hnoop =>
    rw [after_of_noop (.inl hnoop)]
    constructor
    · intro hnone
      have hread := hlooked.receipt
      rw [hnone] at hread
      cases hread
    · intro hfound
      obtain ⟨hmatching, hresembling⟩ := withoutEntry_none hwithout
      obtain ⟨entry, hentry, h⟩ := hfound _ _ hlooked.receipt hlooked.settingsOf
      exact absurd h (not_found hmatching hresembling hentry)
  | exact hlooked hwithout _ _ haction _ hforgets | structural hlooked hwithout _ _ haction _ hforgets =>
    refine iff_of_true (after_of_remove haction hforgets).2 fun receipt document hreceipt hdocument => ?_
    obtain ⟨index, htakes⟩ := withoutEntry_some hwithout
    rw [hlooked.receipt] at hreceipt
    rw [hlooked.settingsOf] at hdocument
    cases hreceipt
    cases hdocument
    exact htakes.found

/-! ## Runs -/

/-- The files of a target over a run whose removals find what the receipt names, with the states
since its last removal, or since its start without a receipt. -/
inductive Since (crates : Crates) (scope : Scope) (target : PosixPath) : List Nodes → Nodes → Prop where
  | start {nodes : Nodes} (fresh : nodes.receipt = none) : Since crates scope target [nodes] nodes
  | edit {past : List Nodes} {nodes nodes' : Nodes} (before : Since crates scope target past nodes)
      (receipt : nodes'.receipt = nodes.receipt ∨ nodes'.receipt = none) :
      Since crates scope target (nodes' :: past) nodes'
  | install {past : List Nodes} {nodes : Nodes} {manager profile : Text}
      {plan : HookPlan HookReceipt} (before : Since crates scope target past nodes)
      (planned : planInstallAt crates scope manager profile target nodes = .ok plan) :
      Since crates scope target (plan.after crates.receipts nodes :: past)
        (plan.after crates.receipts nodes)
  | remove {past : List Nodes} {nodes : Nodes} {force : Bool} {plan : HookPlan HookReceipt}
      (before : Since crates scope target past nodes)
      (planned : planRemoveAt crates scope target force nodes = .ok plan)
      (found : Found crates scope nodes) :
      Since crates scope target [plan.after crates.receipts nodes]
        (plan.after crates.receipts nodes)

/-- What a receipt records of the settings before the install. -/
def HookReceipt.before (receipt : HookReceipt) : Text × Bool × Bool :=
  (receipt.preSha256, receipt.fileCreated, receipt.adopted)

/-- An install on these files, which have no receipt, records what the receipt does. -/
def Stamps (crates : Crates) (scope : Scope) (target : PosixPath) (nodes : Nodes)
    (receipt : HookReceipt) : Prop :=
  nodes.receipt = none ∧ ∃ manager profile plan first,
    planInstallAt crates scope manager profile target nodes = .ok plan
      ∧ plan.receiptAfter = some first ∧ receipt.before = first.before

theorem Since.last {past : List Nodes} (h : Since crates scope target past nodes) : nodes ∈ past := by
  cases h with
  | start => exact List.mem_cons_self
  | edit => exact List.mem_cons_self
  | install => exact List.mem_cons_self
  | remove => exact List.mem_cons_self

/-- An update records what the receipt before it did. -/
theorem before_installReceipt {profile : Text} {desired : Value} {action : HookAction}
    {original : Snapshot} {receipt : HookReceipt} {post : Text} (h : action ≠ .adopt) :
    (installReceipt crates scope profile desired action original (some receipt) post).before
      = receipt.before := by
  simp [HookReceipt.before, installReceipt, h]

theorem receiptOf_after (hcrates : crates.Lawful) {manager profile : Text}
    (hprofile : validateProfileName profile = .ok ()) {action : HookAction} {original : Snapshot}
    {receipt : Option HookReceipt} {post : Text} (hnoop : plan.action.isNoop = false)
    (hafter : plan.receiptAfter = some (installReceipt crates scope profile
      (ownedEntry manager profile) action original receipt post)) {found : HookReceipt}
    (hfound : receiptOf crates scope (plan.after crates.receipts nodes).receipt = .ok (some found)) :
    plan.receiptAfter = some found := by
  obtain ⟨bytes, hbytes⟩ := encodeReceipt_ok hcrates (installReceipt crates scope profile
    (ownedEntry manager profile) action original receipt post)
  obtain ⟨-, hreceipt⟩ := @after_of_receipt crates nodes bytes plan _ hnoop hafter hbytes
  rw [hreceipt] at hfound
  rw [receiptOf_install hcrates hprofile hbytes (size_of_receipt hfound)] at hfound
  cases hfound
  exact hafter

/-- A receipt in the run records what an install did that found none, after the last removal. -/
theorem Since.stamped (hcrates : crates.Lawful) {past : List Nodes}
    (h : Since crates scope target past nodes) {receipt : HookReceipt}
    (hreceipt : receiptOf crates scope nodes.receipt = .ok (some receipt)) :
    ∃ earlier ∈ past, Stamps crates scope target earlier receipt := by
  induction h generalizing receipt with
  | start hfresh =>
    rw [hfresh] at hreceipt
    cases hreceipt
  | edit hbefore hsame ih =>
    rcases hsame with hsame | hnone
    · rw [hsame] at hreceipt
      obtain ⟨earlier, hmem, hstamps⟩ := ih hreceipt
      exact ⟨earlier, List.mem_cons_of_mem _ hmem, hstamps⟩
    · rw [hnone] at hreceipt
      cases hreceipt
  | @install past nodes manager profile plan hbefore hplanned ih =>
    obtain ⟨-, hprofile, original, document, owner, action, hlooked, haction, hplans⟩ :=
      planInstallAt_eq_ok hplanned
    have hnow := hbefore.last
    cases hplans with
    | noop _ hnoop =>
      rw [after_of_noop (.inr hnoop)] at hreceipt
      obtain ⟨earlier, hmem, hstamps⟩ := ih hreceipt
      exact ⟨earlier, List.mem_cons_of_mem _ hmem, hstamps⟩
    | write hchanges hkept _ _ hafter =>
      have hwrites : plan.action.isNoop = false := by
        rw [hkept]
        cases installAction_eq_ok haction with
        | add | adopt | update => rfl
        | alreadyInstalled => exact absurd rfl hchanges
      have hfound := receiptOf_after hcrates hprofile hwrites hafter hreceipt
      cases owner with
      | none =>
        exact ⟨nodes, List.mem_cons_of_mem _ hnow, receipt_of_receiptOf_none hlooked.receipt,
          manager, profile, plan, receipt, hplanned, hfound, rfl⟩
      | some owner =>
        obtain ⟨earlier, hmem, hnone, manager', profile', plan', first, hplan', hfirst, hsame⟩ :=
          ih hlooked.receipt
        have hadopt : action ≠ .adopt := by
          rintro rfl
          cases installAction_eq_ok haction with
          | adopt howned => cases howned
        rw [hfound] at hafter
        rw [Option.some.inj hafter]
        exact ⟨earlier, List.mem_cons_of_mem _ hmem, hnone, manager', profile', plan', first, hplan',
          hfirst, (before_installReceipt hadopt).trans hsame⟩
  | remove hbefore hplanned hfound ih =>
    rw [(receipt_removed_iff hplanned).mpr hfound] at hreceipt
    cases hreceipt

end

/-- A removal leaves no receipt exactly where it finds what the receipt names; and over a run whose
removals do, every receipt records what an install found after the last of them. -/
theorem remove_forgets {crates : Crates} (hcrates : crates.Lawful) {scope : Scope} {target : PosixPath} :
    (∀ force nodes plan, planRemoveAt crates scope target force nodes = .ok plan →
        ((plan.after crates.receipts nodes).receipt = none ↔ Found crates scope nodes))
      ∧ ∀ past nodes, Since crates scope target past nodes →
        ∀ receipt, receiptOf crates scope nodes.receipt = .ok (some receipt) →
          ∃ earlier ∈ past, Stamps crates scope target earlier receipt :=
  ⟨fun _ _ _ hplan => receipt_removed_iff hplan, fun _ _ hsince _ => hsince.stamped hcrates⟩

namespace Sample

/-- The entries after a removal, if it is not refused. -/
def removedNodes (force : Bool) (nodes : Nodes) : Option Nodes :=
  match planRemoveAt crates .user target force nodes with
  | .ok plan => some (plan.after crates.receipts nodes)
  | .error _ => none

theorem removedNodes_eq_some {force : Bool} {nodes nodes' : Nodes}
    (h : removedNodes force nodes = some nodes') :
    ∃ plan, planRemoveAt crates .user target force nodes = .ok plan
      ∧ plan.after crates.receipts nodes = nodes' := by
  unfold removedNodes at h
  split at h
  next plan hplan => exact ⟨plan, hplan, Option.some.inj h⟩
  next => cases h

theorem installedNodes_eq_some {manager : Text} {nodes nodes' : Nodes}
    (h : installedNodes manager nodes = some nodes') :
    ∃ plan, planInstallAt crates .user manager profile target nodes = .ok plan
      ∧ plan.after crates.receipts nodes = nodes' := by
  unfold installedNodes at h
  split at h
  next plan hplan => exact ⟨plan, hplan, Option.some.inj h⟩
  next => cases h

/-- Settings that the manager made. -/
def made : Nodes := (installedNodes manager noFiles).getD noFiles

/-- The same, after the user took the element out. -/
def emptied : Nodes := { made with target := some (.file (Text.asciiBytes "{}".toList) 0o600) }

/-- What a removal reports, and whether it leaves a receipt. -/
def reported (force : Bool) (nodes : Nodes) : Option (HookAction × Bool) :=
  match planRemoveAt crates .user target force nodes with
  | .ok plan => some (plan.action, (plan.after crates.receipts nodes).receipt.isSome)
  | .error _ => none

/-- Whether an install records that the manager made the file. -/
def recordsMade (nodes : Nodes) : Option Bool :=
  match planInstallAt crates .user manager profile target nodes with
  | .ok plan => plan.receiptAfter.map (·.fileCreated)
  | .error _ => none

end Sample

section

open Sample

theorem remove_forgets_made : ∃ plan, planRemoveAt crates .user target false made = .ok plan
    ∧ (plan.after crates.receipts made).receipt = none ∧ Found crates .user made := by
  have hrun : (removedNodes false made).map (·.receipt) = some none := by decide +kernel
  obtain ⟨nodes, hremoved, hnone⟩ := Option.map_eq_some_iff.mp hrun
  obtain ⟨plan, hplan, rfl⟩ := removedNodes_eq_some hremoved
  have hforgets := (remove_forgets crates_lawful).1 false made plan hplan
  exact ⟨plan, hplan, hnone, hforgets.mp hnone⟩

/-- The user took the element out: the removal says that there is none, and leaves the receipt.
With it, a further install records of a file that is there that the manager made it. -/
theorem remove_keeps_receipt : Since crates .user target [emptied, made, noFiles] emptied
    ∧ (∃ plan, planRemoveAt crates .user target false emptied = .ok plan
      ∧ plan.action = .alreadyRemoved
      ∧ (plan.after crates.receipts emptied).receipt ≠ none)
    ∧ recordsMade emptied = some true := by
  refine ⟨?_, ?_, by decide +kernel⟩
  · have hok : (installedNodes manager noFiles).isSome = true := by decide +kernel
    obtain ⟨nodes, hnodes⟩ := Option.isSome_iff_exists.mp hok
    obtain ⟨plan, hplan, hafter⟩ := installedNodes_eq_some hnodes
    have hsince := Since.install (Since.start rfl) hplan
    have hmade : made = nodes := by
      unfold made
      rw [hnodes]
      rfl
    rw [hafter, ← hmade] at hsince
    exact .edit hsince (.inl rfl)
  · have hrun : reported false emptied = some (.alreadyRemoved, true) := by decide +kernel
    unfold reported at hrun
    split at hrun
    next plan hplan =>
      obtain ⟨haction, hreceipt⟩ := Prod.mk.inj (Option.some.inj hrun)
      refine ⟨plan, hplan, haction, fun hnone => ?_⟩
      rw [hnone] at hreceipt
      cases hreceipt
    next => cases hrun

end

/-! ## The hooks of the user -/

/-- The list under a key; no list is an empty one. -/
def items (key : Text) (v : Value) : List Value := ((v.get key).bind Value.asArray).getD []

/-- Whether a hook runs the command of an entry. -/
def isOwned (owned hook : Value) : Bool :=
  (ownedCommand owned).any fun command =>
    (hook.get "command".toList).bind Value.asStr == some command

/-- The hooks of the settings that do not run the command of an entry. -/
def userHooks (owned document : Value) : List Value :=
  (eventArray document).flatMap fun entry =>
    (items hooksKey entry).filter fun hook => !isOwned owned hook

/-- A value as it is read again: the same, or with its floating-point numbers written anew. -/
def Rewritten (crates : Crates) (v w : Value) : Prop :=
  Same v w ∨ w = v.mapFloats crates.json.reread

/-- Whether an element runs the command of an entry. -/
def owns (owned entry : Value) : Bool := (items hooksKey entry).any (isOwned owned)

/-- No hook runs the command of an entry, and the hooks of the user are those that there were. -/
structure OnlyOwned (crates : Crates) (owned before after : Value) : Prop where
  gone : ∀ entry ∈ eventArray after, owns owned entry = false
  kept : List.Forall₂ (Rewritten crates) (userHooks owned before) (userHooks owned after)

/-- The settings in a file, of any length; nothing and blanks are an empty object. -/
def documentIn (crates : Crates) (node : Option Node) : Option Value :=
  (parseSettings crates ⟨bytesIn node, [], none⟩).toOption

/-- At most one element runs the command of an entry, and all its hooks do. -/
structure OneGroup (owned document : Value) : Prop where
  one : (eventArray document).countP (owns owned) ≤ 1
  whole : ∀ entry ∈ eventArray document, owns owned entry = true →
    (items hooksKey entry).all (isOwned owned) = true

/-- What an exact removal leaves in the place of the settings. -/
def putBack (receipt : HookReceipt) (backup : Option Node) : Option Node :=
  if receipt.fileCreated then none else backup

/-- When a forced removal leaves the hooks of the user and no other: nothing runs the command;
or the file is restored exactly, to settings that are so; or one element is taken out that runs
the command and nothing else, and no other runs it. -/
inductive Tidy (crates : Crates) (nodes : Nodes) (original : Snapshot) (document : Value)
    (receipt : HookReceipt) : Prop where
  | nothing (none : ∀ entry ∈ eventArray document, owns receipt.owned entry = false)
  | exact {backup : Snapshot} {before : Value}
      (saved : snapshotOf crates.receipts.digestBytes maxSettingsBytes "settings backup"
        nodes.backup = .ok backup) (known : Exact receipt original backup)
      (back : documentIn crates (putBack receipt nodes.backup) = some before)
      (only : OnlyOwned crates receipt.owned document before)
  | structural {backup : Snapshot}
      (saved : snapshotOf crates.receipts.digestBytes maxSettingsBytes "settings backup"
        nodes.backup = .ok backup) (unknown : ¬Exact receipt original backup)
      (one : OneGroup receipt.owned document)

/-! ## Elements -/

theorem resemblingIndices_eq (document owned : Value) :
    resemblingIndices document owned = (eventArray document).findIdxs fun entry =>
      !entry.same owned && owns owned entry := by
  unfold resemblingIndices owns isOwned
  cases ownedCommand owned with
  | none =>
    have hany : ∀ hooks : List Value, hooks.any (fun _ => false) = false := by simp
    simp only [Option.any_none, hany, Bool.and_false]
    exact (List.findIdxs_eq_nil_iff.mpr fun _ _ => rfl).symm
  | some command =>
    simp only [Option.any_some]
    congr 1
    funext entry
    congr 1
    unfold runs items
    cases (entry.get hooksKey).bind Value.asArray <;> rfl

theorem SoundMembers.swapRemove {n : Nat} {members : Members} {key : Text}
    (h : SoundMembers n members) : SoundMembers n (Members.swapRemove key members) :=
  ⟨Members.nodup_swapRemove key h.nodup,
    fun _ hm => h.distinct _ (Members.mem_of_mem_swapRemove hm),
    fun _ hm => h.within _ (Members.mem_of_mem_swapRemove hm)⟩

theorem eventArray_of_none {members : Members} (h : members.lookup hooksKey = none) :
    eventArray (.object members) = [] := by
  simp [eventArray, Value.get, h]

theorem eventArray_set_hooks (hooks members : Members) :
    eventArray (.object (Members.set hooksKey (.object hooks) members))
      = ((hooks.lookup event).bind Value.asArray).getD [] := by
  unfold eventArray
  rw [get_set_self, Option.bind_some]
  rfl

theorem withoutEntry_sound {members hooks rest : Members} {left : List Value}
    (hmembers : SoundMembers (recursionLimit - 1) members)
    (hhooks : SoundMembers (recursionLimit - 2) hooks) (hdistinct : ∀ entry ∈ left, entry.Distinct)
    (hwithin : ∀ entry ∈ left, entry.Within (recursionLimit - 3))
    (hrest : rest = if left.isEmpty then Members.swapRemove event hooks
      else Members.set event (.array left) hooks) :
    eventArray (.object (if rest.isEmpty then Members.swapRemove hooksKey members
        else Members.set hooksKey (.object rest) members)) = left
      ∧ Sound (.object (if rest.isEmpty then Members.swapRemove hooksKey members
        else Members.set hooksKey (.object rest) members)) := by
  have hrests : SoundMembers (recursionLimit - 2) rest := by
    rw [hrest]
    split
    · exact hhooks.swapRemove
    · exact hhooks.set (.array hdistinct) (.array hwithin)
  have hlist : ((rest.lookup event).bind Value.asArray).getD [] = left := by
    rw [hrest]
    split
    next hempty =>
      rw [Members.lookup_swapRemove_self hhooks.nodup, List.isEmpty_iff.mp hempty]
      rfl
    next =>
      rw [Members.lookup_set_self]
      rfl
  split
  next hempty =>
    refine ⟨?_, sound_iff.mpr hmembers.swapRemove⟩
    rw [eventArray_of_none (Members.lookup_swapRemove_self hmembers.nodup), ← hlist,
      List.isEmpty_iff.mp hempty]
    rfl
  next =>
    exact ⟨(eventArray_set_hooks rest members).trans hlist,
      sound_iff.mpr (hmembers.set hrests.object.1 hrests.object.2)⟩

/-- The list is the one without the element, also where it goes with it. -/
theorem removeEntry_eq_ok {document after : Value} {index : Nat} (hsound : Sound document)
    (h : removeEntry document index = .ok after) :
    eventArray after = (eventArray document).eraseIdx index ∧ Sound after := by
  unfold removeEntry at h
  split at h
  next members =>
    split at h
    next hooks hhooks =>
      split at h
      next entries hentries =>
        obtain ⟨_, -, h⟩ := except_bind_eq_ok.mp h
        cases h
        obtain ⟨hparts, hd, hw⟩ := sound_parts hsound hhooks hentries
        rw [eventArray_of_lookup hhooks hentries]
        exact withoutEntry_sound (sound_iff.mp hsound) hparts
          (fun entry he => hd entry (List.mem_of_mem_eraseIdx he))
          (fun entry he => hw entry (List.mem_of_mem_eraseIdx he)) rfl
      next => cases h
    next => cases h
  next => cases h

/-! ## Hooks that are read again -/

theorem isOwned_mapFloats {f : UInt64 → UInt64} (owned hook : Value) :
    isOwned owned (hook.mapFloats f) = isOwned owned hook := by
  unfold isOwned
  rw [Value.get_mapFloats]
  cases hook.get "command".toList with
  | none => rfl
  | some command => simp

theorem items_mapFloats {f : UInt64 → UInt64} (key : Text) (v : Value) :
    items key (v.mapFloats f) = (items key v).map (Value.mapFloats f) := by
  unfold items
  rw [Value.get_mapFloats]
  cases v.get key with
  | none => rfl
  | some list =>
    simp only [Option.map_some, Option.bind_some, Value.asArray_mapFloats]
    cases list.asArray <;> rfl

theorem userHooks_mapFloats {f : UInt64 → UInt64} (owned document : Value) :
    userHooks owned (document.mapFloats f) = (userHooks owned document).map (Value.mapFloats f) := by
  unfold userHooks
  rw [eventArray_mapFloats, List.flatMap_map, List.map_flatMap]
  congr 1
  funext entry
  rw [items_mapFloats, List.filter_map]
  congr 2
  funext hook
  exact congrArg (!·) (isOwned_mapFloats owned hook)

/-- Two values that are equal, of which one is well formed. -/
def Alike (v w : Value) : Prop := v.Distinct ∧ Same v w

theorem Alike.items {v w : Value} (h : Alike v w) (key : Text) :
    List.Forall₂ Alike (items key v) (items key w) := by
  unfold Hooks.items
  rcases Value.get_same h.1 h.2 key with ⟨hv, hw⟩ | ⟨x, y, hx, hy, hdistinct, hsame⟩
  · rw [hv, hw]
    exact .nil
  · rw [hx, hy, Option.bind_some, Option.bind_some]
    rcases Value.asArray_same hsame with ⟨ha, hb⟩ | ⟨a, b, ha, hb, hall⟩
    · rw [ha, hb]
      exact .nil
    · have hitems : ∀ v ∈ a, v.Distinct := by
        cases x with
        | array =>
          cases ha
          cases hdistinct with
          | array h => exact h
        | _ => cases ha
      rw [ha, hb]
      exact (List.forall₂_and_left a b).mpr ⟨hitems, hall⟩

theorem Alike.isOwned {v w : Value} (h : Alike v w) (owned : Value) :
    isOwned owned v = isOwned owned w := by
  unfold Hooks.isOwned
  rcases Value.get_same h.1 h.2 "command".toList with ⟨hv, hw⟩ | ⟨x, y, hx, hy, -, hsame⟩
  · rw [hv, hw]
  · rw [hx, hy, Option.bind_some, Option.bind_some, Value.asStr_same hsame]

theorem Alike.eventArray {v w : Value} (h : Alike v w) :
    List.Forall₂ Alike (eventArray v) (eventArray w) := by
  unfold Hooks.eventArray
  rcases Value.get_same h.1 h.2 hooksKey with ⟨hv, hw⟩ | ⟨x, y, hx, hy, hdistinct, hsame⟩
  · rw [hv, hw]
    exact .nil
  · rw [hx, hy, Option.bind_some, Option.bind_some]
    exact Alike.items ⟨hdistinct, hsame⟩ event

theorem Alike.userHooks {v w : Value} (h : Alike v w) (owned : Value) :
    List.Forall₂ Alike (userHooks owned v) (userHooks owned w) := by
  refine List.rel_flatMap h.eventArray fun x y hxy => ?_
  refine List.rel_filter (fun a b hab => ?_) (hxy.items hooksKey)
  simp [hab.isOwned owned]

theorem owns_mapFloats {f : UInt64 → UInt64} (owned entry : Value) :
    owns owned (entry.mapFloats f) = owns owned entry := by
  unfold owns
  rw [items_mapFloats, List.any_map]
  congr 1
  funext hook
  exact isOwned_mapFloats owned hook

theorem map_eq_of_forall₂ {R : Value → Value → Prop} {f : Value → Bool} {vs ws : List Value}
    (h : List.Forall₂ R vs ws) (hf : ∀ v w, R v w → f v = f w) : vs.map f = ws.map f := by
  induction h with
  | nil => rfl
  | cons hvw _ ih => rw [List.map_cons, List.map_cons, hf _ _ hvw, ih]

theorem Alike.owns {v w : Value} (h : Alike v w) (owned : Value) : owns owned v = owns owned w := by
  have hmap := map_eq_of_forall₂ (h.items hooksKey) fun _ _ hab => hab.isOwned owned
  have hany : ∀ hooks : List Value,
      hooks.any (Hooks.isOwned owned) = (hooks.map (Hooks.isOwned owned)).any id := by
    intro hooks
    rw [List.any_map]
    rfl
  rw [Hooks.owns, Hooks.owns, hany, hany, hmap]

/-- How a document that was written is read again. -/
def Reads (crates : Crates) (document after : Value) : Prop :=
  Alike document after ∨ after = document.mapFloats crates.json.reread

section

variable {crates : Crates} {owned document after : Value}

theorem Reads.owns (h : Reads crates document after) (owned : Value) :
    (eventArray document).map (owns owned) = (eventArray after).map (owns owned) := by
  rcases h with h | rfl
  · exact map_eq_of_forall₂ h.eventArray fun _ _ hab => hab.owns owned
  · rw [eventArray_mapFloats, List.map_map]
    congr 1
    funext entry
    exact (owns_mapFloats owned entry).symm

theorem Reads.userHooks (h : Reads crates document after) (owned : Value) :
    List.Forall₂ (Rewritten crates) (userHooks owned document) (userHooks owned after) := by
  rcases h with h | rfl
  · exact (h.userHooks owned).imp fun _ _ hab => .inl hab.2
  · rw [userHooks_mapFloats, List.forall₂_map_right_iff, List.forall₂_same]
    exact fun _ _ => .inr rfl

theorem Reads.gone_iff (h : Reads crates document after) :
    (∀ entry ∈ eventArray after, Hooks.owns owned entry = false)
      ↔ ∀ entry ∈ eventArray document, Hooks.owns owned entry = false := by
  have hmap : ∀ entries : List Value, (∀ entry ∈ entries, Hooks.owns owned entry = false)
      ↔ ∀ b ∈ entries.map (Hooks.owns owned), b = false := by
    intro entries
    rw [List.forall_mem_map]
  rw [hmap, hmap, h.owns owned]

/-- Settings that were written, or cut out of the text, are read again. -/
theorem documentIn_exciseOrEncode (hcrates : crates.Lawful) (hsound : Sound document)
    {original : Snapshot} {before : Value} {mode : Nat} :
    ∃ after, documentIn crates (some (.file (exciseOrEncode crates original before document) mode))
      = some after ∧ Reads crates document after := by
  unfold exciseOrEncode
  simp only
  split
  next text hexcise =>
    obtain ⟨bytes, -, hexcise⟩ := Option.bind_eq_some_iff.mp hexcise
    unfold JsonSpan.excise at hexcise
    split at hexcise
    · cases hexcise
    · obtain ⟨_, -, hexcise⟩ := Option.bind_eq_some_iff.mp hexcise
      obtain ⟨_, -, hexcise⟩ := Option.bind_eq_some_iff.mp hexcise
      obtain ⟨_, -, hexcise⟩ := Option.bind_eq_some_iff.mp hexcise
      obtain ⟨_, -, hexcise⟩ := Option.bind_eq_some_iff.mp hexcise
      obtain ⟨reparsed, hreparsed, hexcise⟩ := Option.bind_eq_some_iff.mp hexcise
      obtain ⟨hsame, hout⟩ := Option.ite_none_right_eq_some.mp hexcise
      rw [Option.some.inj hout] at hreparsed
      have hdistinct := (hcrates.json.wellFormed _ _ hreparsed).1
      have halike : Alike document reparsed :=
        ⟨hsound.distinct, Value.same_symm hdistinct hsound.distinct hsame⟩
      have hobject : reparsed.isObject = true := by
        cases document with
        | object =>
          obtain ⟨b, rfl⟩ := Value.object_of_same halike.2
          rfl
        | _ => cases hsound.object
      refine ⟨reparsed, ?_, .inl halike⟩
      have hblank : ¬text.all isAsciiWhitespace = true := by
        intro hblank
        rw [hcrates.json.blank _ hblank] at hreparsed
        cases hreparsed
      unfold documentIn parseSettings
      simp only [bytesIn]
      rw [if_neg hblank, JsonCrate.fromSlice, hreparsed]
      simp only [hobject]
      rfl
  next =>
    refine ⟨_, ?_, .inr rfl⟩
    unfold documentIn
    rw [parseSettings_encode hcrates hsound rfl]
    rfl

/-- The element that a forced removal picks, where none is the receipt's. -/
theorem TakesOut.split {index : Nat} (hsound : Sound document)
    (h : TakesOut document owned true index after)
    (hnone : ∀ entry ∈ eventArray document, ¬Same entry owned) :
    ∃ l x r, eventArray document = l ++ x :: r ∧ owns owned x = true
      ∧ eventArray after = l ++ r ∧ Sound after := by
  obtain ⟨hafter, hsound'⟩ := removeEntry_eq_ok hsound h.removed
  have hmatching : matchingIndices document (some owned) = [] :=
    matchingIndices_nil.mpr fun o ho => (Option.some.inj ho) ▸ hnone
  rcases h.picked with hone | ⟨-, -, rest, hresembling⟩
  · rw [hmatching] at hone
    cases hone
  · have hmem : index ∈ resemblingIndices document owned := by
      rw [hresembling]
      exact List.mem_cons_self
    rw [resemblingIndices_eq] at hmem
    obtain ⟨hi, hx⟩ := List.mem_findIdxs_iff_exists_getElem_pos.mp hmem
    refine ⟨(eventArray document).take index, (eventArray document)[index],
      (eventArray document).drop (index + 1), ?_, (Bool.and_eq_true _ _ ▸ hx).2, ?_, hsound'⟩
    · rw [List.getElem_cons_drop, List.take_append_drop]
    · rw [hafter, List.eraseIdx_eq_take_drop_succ]

/-- Of an element that was taken out the user lost nothing, and nothing else runs the command. -/
theorem onlyOwned_iff {l r : List Value} {x removed : Value}
    (hsplit : eventArray document = l ++ x :: r) (hx : owns owned x = true)
    (hremoved : eventArray removed = l ++ r) (hreads : Reads crates removed after) :
    OnlyOwned crates owned document after ↔ OneGroup owned document := by
  have hcount : (eventArray document).countP (owns owned) = (l ++ r).countP (owns owned) + 1 := by
    rw [hsplit, List.countP_append, List.countP_cons_of_pos hx, List.countP_append]
    omega
  have hothers : (l ++ r).countP (owns owned) = 0
      ↔ ∀ entry ∈ eventArray removed, owns owned entry = false := by
    rw [hremoved, List.countP_eq_zero]
    simp only [Bool.not_eq_true]
  have hmine : (items hooksKey x).filter (fun hook => !isOwned owned hook) = []
      ↔ (items hooksKey x).all (isOwned owned) = true := by
    simp [List.filter_eq_nil_iff]
  have hbefore : userHooks owned document = l.flatMap (fun entry =>
        (items hooksKey entry).filter fun hook => !isOwned owned hook)
      ++ ((items hooksKey x).filter (fun hook => !isOwned owned hook)
        ++ r.flatMap fun entry => (items hooksKey entry).filter fun hook => !isOwned owned hook) := by
    rw [userHooks, hsplit, List.flatMap_append, List.flatMap_cons]
  have hleft : userHooks owned removed = l.flatMap (fun entry =>
        (items hooksKey entry).filter fun hook => !isOwned owned hook)
      ++ r.flatMap fun entry => (items hooksKey entry).filter fun hook => !isOwned owned hook := by
    rw [userHooks, hremoved, List.flatMap_append]
  constructor
  · intro h
    have hzero := hothers.mpr (hreads.gone_iff.mp h.gone)
    refine ⟨by omega, fun entry hentry howns => ?_⟩
    have hlength := h.kept.length_eq
    rw [← (hreads.userHooks owned).length_eq, hbefore, hleft] at hlength
    simp only [List.length_append] at hlength
    have hnil := hmine.mp (List.eq_nil_of_length_eq_zero (by omega))
    rw [hsplit] at hentry
    rcases List.mem_append.mp hentry with hl | hr
    · have := hreads.gone_iff.mp h.gone entry (hremoved ▸ List.mem_append_left _ hl)
      rw [howns] at this
      cases this
    · rcases List.mem_cons.mp hr with rfl | hr
      · exact hnil
      · have := hreads.gone_iff.mp h.gone entry (hremoved ▸ List.mem_append_right _ hr)
        rw [howns] at this
        cases this
  · intro h
    have hone := h.one
    have hzero : (l ++ r).countP (owns owned) = 0 := by omega
    refine ⟨hreads.gone_iff.mpr (hothers.mp hzero), ?_⟩
    have hnil := hmine.mpr (h.whole x (hsplit ▸ List.mem_append_right _ List.mem_cons_self) hx)
    rw [hbefore, hnil, List.nil_append, ← hleft]
    exact hreads.userHooks owned

theorem userHooks_distinct (hsound : Sound document) :
    ∀ hook ∈ userHooks owned document, hook.Distinct := by
  intro hook hhook
  obtain ⟨entry, hentry, hmem⟩ := List.mem_flatMap.mp hhook
  have hdistinct := distinct_of_mem hsound hentry
  have hitems := Alike.items ⟨hdistinct, Value.same_refl hdistinct⟩ hooksKey
  exact ((List.forall₂_and_left _ _).mp hitems).1 hook (List.mem_of_mem_filter hmem)

theorem onlyOwned_refl (hsound : Sound document)
    (hnone : ∀ entry ∈ eventArray document, owns owned entry = false) :
    OnlyOwned crates owned document document :=
  ⟨hnone, List.forall₂_same.mpr fun hook hhook =>
    .inl (Value.same_refl (userHooks_distinct hsound hook hhook))⟩

theorem isEmptyObject_iff : document.isEmptyObject = true ↔ document = .object [] := by
  constructor
  · intro h
    cases document with
    | object members =>
      cases members with
      | nil => rfl
      | cons => cases h
    | _ => cases h
  · rintro rfl
    rfl

theorem documentIn_eq {snapshot : Snapshot} {node : Option Node} (h : snapshot.bytes = bytesIn node) :
    documentIn crates node = (parseSettings crates snapshot).toOption := by
  unfold documentIn parseSettings
  rw [h]

theorem documentIn_looked {scope : Scope} {nodes : Nodes} {original : Snapshot}
    {receipt : Option HookReceipt} (h : Looked crates scope nodes original document receipt) :
    documentIn crates nodes.target = some document := by
  rw [documentIn_eq (snapshotOf_bytes h.settings).1, h.document]
  rfl

/-- An exact removal leaves what it puts back. -/
theorem documentIn_putBack {receipt : HookReceipt} {backup : Snapshot} {nodes : Nodes}
    {plan : HookPlan HookReceipt} {digestBytes : Bytes → Text} {maximum : Nat} {name : String}
    (hsaved : snapshotOf digestBytes maximum name nodes.backup = .ok backup)
    (hwrite : plan.write =
      if receipt.fileCreated then .remove else backup.bytes.elim .remove .write) :
    documentIn crates (written plan nodes.target)
      = documentIn crates (putBack receipt nodes.backup) := by
  have hbytes : bytesIn (written plan nodes.target) = bytesIn (putBack receipt nodes.backup) := by
    unfold written putBack
    rw [hwrite]
    cases receipt.fileCreated with
    | true => rfl
    | false =>
      rw [if_neg Bool.false_ne_true, if_neg Bool.false_ne_true, ← (snapshotOf_bytes hsaved).1]
      cases backup.bytes <;> rfl
  unfold documentIn
  rw [hbytes]

end

/-- A forced removal leaves the hooks of the user, and none that runs the owned command, exactly
where nothing ran it, or one group that held no other hook did, or the settings that an exact
removal puts back are so. -/
theorem forced_removal_iff {crates : Crates} (hcrates : crates.Lawful) {scope : Scope} {target : PosixPath}
    {nodes : Nodes} {original : Snapshot} {document : Value} {receipt : HookReceipt}
    (hlooked : Looked crates scope nodes original document (some receipt))
    (hnone : ∀ entry ∈ eventArray document, ¬Same entry receipt.owned)
    {plan : HookPlan HookReceipt}
    (hplan : planRemoveAt crates scope target true nodes = .ok plan) :
    (∃ after, documentIn crates (plan.after crates.receipts nodes).target = some after
        ∧ OnlyOwned crates receipt.owned document after)
      ↔ Tidy crates nodes original document receipt := by
  have hsound := sound_of_looked hcrates hlooked
  have hsame : ∀ {original' document' receipt'},
      Looked crates scope nodes original' document' (some receipt') →
        original = original' ∧ document = document' ∧ receipt = receipt' := by
    intro original' document' receipt' h
    obtain rfl : original = original' := Except.ok.inj (hlooked.settings.symm.trans h.settings)
    exact ⟨rfl, Except.ok.inj (hlooked.document.symm.trans h.document),
      Option.some.inj (Except.ok.inj (hlooked.receipt.symm.trans h.receipt))⟩
  cases planRemoveAt_eq_ok hplan with
  | absent hreceipt =>
    rw [hlooked.receipt] at hreceipt
    cases hreceipt
  | missing hlooked' hwithout hnoop =>
    obtain ⟨rfl, rfl, rfl⟩ := hsame hlooked'
    obtain ⟨hmatching, hresembling⟩ := withoutEntry_none hwithout
    have hothers : ∀ entry ∈ eventArray document, owns receipt.owned entry = false := by
      rw [resemblingIndices_eq, List.findIdxs_eq_nil_iff] at hresembling
      intro entry hentry
      have := hresembling entry hentry
      rw [Bool.eq_false_iff.mpr (hnone entry hentry)] at this
      exact this
    refine iff_of_true ?_ (.nothing hothers)
    rw [after_of_noop (.inl hnoop)]
    exact ⟨document, documentIn_looked hlooked, onlyOwned_refl hsound hothers⟩
  | @exact original' backup document' after receipt' hlooked' hwithout hsaved hknown haction hwrite
      hforgets =>
    obtain ⟨rfl, rfl, rfl⟩ := hsame hlooked'
    obtain ⟨index, htakes⟩ := withoutEntry_some hwithout
    obtain ⟨l, x, r, hsplit, hx, -, -⟩ := htakes.split hsound hnone
    rw [(after_of_remove haction hforgets).1, documentIn_putBack hsaved hwrite]
    constructor
    · rintro ⟨before, hback, honly⟩
      exact .exact hsaved hknown hback honly
    · intro htidy
      cases htidy with
      | nothing hothers =>
        have := hothers x (hsplit ▸ List.mem_append_right _ List.mem_cons_self)
        rw [hx] at this
        cases this
      | exact _ _ hback honly => exact ⟨_, hback, honly⟩
      | structural hsaved' hunknown =>
        rw [hsaved] at hsaved'
        cases hsaved'
        exact absurd hknown hunknown
  | @structural original' backup document' removed receipt' hlooked' hwithout hsaved hunknown haction
      hwrite hforgets =>
    obtain ⟨rfl, rfl, rfl⟩ := hsame hlooked'
    obtain ⟨index, htakes⟩ := withoutEntry_some hwithout
    obtain ⟨l, x, r, hsplit, hx, hremoved, hsound'⟩ := htakes.split hsound hnone
    have hreads : ∃ after, documentIn crates (written plan nodes.target) = some after
        ∧ Reads crates removed after := by
      unfold written
      rw [hwrite]
      by_cases hempty : (receipt.fileCreated && removed.isEmptyObject) = true
      · have hobject := isEmptyObject_iff.mp (Bool.and_eq_true _ _ ▸ hempty).2
        rw [if_pos hempty]
        exact ⟨removed, by rw [hobject]; rfl,
          .inl ⟨hsound'.distinct, Value.same_refl hsound'.distinct⟩⟩
      · rw [if_neg hempty]
        exact documentIn_exciseOrEncode hcrates hsound'
    obtain ⟨after, hafter, hreads⟩ := hreads
    rw [(after_of_remove haction hforgets).1, hafter]
    have honly := onlyOwned_iff hsplit hx hremoved hreads
    constructor
    · rintro ⟨found, hfound, h⟩
      cases hfound
      exact .structural hsaved hunknown (honly.mp h)
    · intro htidy
      refine ⟨after, rfl, honly.mpr ?_⟩
      cases htidy with
      | nothing hothers =>
        have := hothers x (hsplit ▸ List.mem_append_right _ List.mem_cons_self)
        rw [hx] at this
        cases this
      | exact hsaved' hknown =>
        rw [hsaved] at hsaved'
        cases hsaved'
        exact absurd hknown hunknown
      | structural _ _ hone => exact hone

namespace Sample

def hookOf (command : Text) : Value :=
  .object [("type".toList, .string "command".toList), ("command".toList, .string command)]

def group (hooks : List Value) : Value := .object [(hooksKey, .array hooks)]

def owned : Text := (ownedCommand (ownedEntry manager profile)).getD []

/-- Settings with these elements, and the receipt of an install. -/
def settingsWith (entries : List Value) : Nodes where
  target := some (.file (crates.json.encode
    (.object [(hooksKey, .object [(event, .array entries)])])) 0o600)
  receipt := made.receipt
  backup := none

/-- The manager's element without its matcher. -/
def trimmed : Nodes := settingsWith [group [hookOf owned]]

/-- The same, with a hook that the user added to it. -/
def mixed : Nodes := settingsWith [group [hookOf owned, hookOf "date".toList]]

/-- Whether an element is the receipt's, and how many hooks of the user there are before and after
a forced removal. -/
def forced (nodes : Nodes) : Option (Bool × Nat × Nat) :=
  match receiptOf crates .user nodes.receipt, settingsOf crates nodes.target,
    planRemoveAt crates .user target true nodes with
  | .ok (some receipt), .ok document, .ok plan =>
    (documentIn crates (plan.after crates.receipts nodes).target).map fun after =>
      ((eventArray document).any (fun entry => entry.same receipt.owned),
        (userHooks receipt.owned document).length, (userHooks receipt.owned after).length)
  | _, _, _ => none

/-- A removal that a forced run reaches, with what it reads. -/
theorem forced_eq_some {nodes : Nodes} {before after : Nat}
    (h : forced nodes = some (false, before, after)) :
    ∃ plan original document receipt left, Looked crates .user nodes original document (some receipt)
      ∧ planRemoveAt crates .user target true nodes = .ok plan
      ∧ (∀ entry ∈ eventArray document, ¬Same entry receipt.owned)
      ∧ documentIn crates (plan.after crates.receipts nodes).target = some left
      ∧ (userHooks receipt.owned document).length = before
      ∧ (userHooks receipt.owned left).length = after := by
  unfold forced at h
  split at h
  next receipt document plan hreceipt hdocument hplan =>
    obtain ⟨left, hleft, h⟩ := Option.map_eq_some_iff.mp h
    obtain ⟨original, horiginal, hparse⟩ := except_bind_eq_ok.mp hdocument
    simp only [Prod.mk.injEq] at h
    refine ⟨plan, original, document, receipt, left, ⟨horiginal, hparse, hreceipt⟩, hplan, ?_, hleft,
      h.2⟩
    intro entry hentry hsame
    exact absurd (List.any_eq_true.mpr ⟨entry, hentry, hsame⟩) (Bool.eq_false_iff.mp h.1)
  next => cases h

end Sample

section

open Sample

theorem forced_removal_iff_trimmed : ∃ plan original document receipt,
    Looked crates .user trimmed original document (some receipt)
      ∧ planRemoveAt crates .user target true trimmed = .ok plan
      ∧ ((∃ after, documentIn crates (plan.after crates.receipts trimmed).target = some after
          ∧ OnlyOwned crates receipt.owned document after)
        ↔ Tidy crates trimmed original document receipt) := by
  have hrun : forced trimmed = some (false, 0, 0) := by decide +kernel
  obtain ⟨plan, original, document, receipt, left, hlooked, hplan, hnone, -⟩ := forced_eq_some hrun
  exact ⟨plan, original, document, receipt, hlooked, hplan,
    forced_removal_iff crates_lawful hlooked hnone hplan⟩

/-- The hook of the user's goes with the group that it is in. -/
theorem forced_removal_mixed : ∃ plan original document receipt,
    Looked crates .user mixed original document (some receipt)
      ∧ (∀ entry ∈ eventArray document, ¬Same entry receipt.owned)
      ∧ planRemoveAt crates .user target true mixed = .ok plan
      ∧ ¬∃ after, documentIn crates (plan.after crates.receipts mixed).target = some after
        ∧ OnlyOwned crates receipt.owned document after := by
  have hrun : forced mixed = some (false, 1, 0) := by decide +kernel
  obtain ⟨plan, original, document, receipt, left, hlooked, hplan, hnone, hleft, hbefore,
    hafter⟩ := forced_eq_some hrun
  refine ⟨plan, original, document, receipt, hlooked, hnone, hplan, ?_⟩
  rintro ⟨after, hfound, honly⟩
  rw [hleft] at hfound
  cases hfound
  have := honly.kept.length_eq
  omega

end

end Kaleidoscope.Hooks
