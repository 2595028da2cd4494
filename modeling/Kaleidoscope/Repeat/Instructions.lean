import Kaleidoscope.InstructionBlock
import Kaleidoscope.Lib.Block
import Kaleidoscope.Repeat.Json

/-!
# Installing instructions again

A block that is put behind a text, or in the place of one, is found there, also where a forced
install replaces whatever lies between markers that were edited.

    install_again   exactly where what was written can be read
-/

namespace Kaleidoscope.Instructions

open Prog Disk

/-! ## Markers -/

section

variable {kind : InstructionTarget}

theorem markers_apart (kind : InstructionTarget) : ∀ k < (markerStart kind).length, 0 < k →
    ¬(markerStart kind).drop k <+: markerEnd kind
      ∧ ¬markerEnd kind <+: (markerStart kind).drop k := by
  cases kind with
  | skill => decide
  | agents | claude | cursor =>
    dsimp only [markerStart, markerEnd]
    rw [String.toList_ofList, String.toList_ofList]
    decide +kernel

theorem blockMarkers (hkind : ownedShape kind = .markerBlock) :
    Text.Markers (markerStart kind) (markerEnd kind) where
  startNe := (markers_ne hkind).1
  stopNe := (markers_ne hkind).2
  startUnbordered := markerStart_unbordered kind
  stopUnbordered := markerEnd_unbordered kind
  short := markerEnd_short kind
  outside := markerEnd_outside kind
  inside := fun _ hmarker => markers_inside hmarker
  apart := markers_apart kind
  last := fun _ hmarker => markers_last hkind hmarker

theorem Canonical.isBlock {block : Text} (h : Canonical kind block) :
    Text.IsBlock (markerStart kind) (markerEnd kind) block :=
  ⟨h.begins, h.ends, h.startOnce, h.stopOnce⟩

theorem findOwnedBlock_eq_ok {text : Text} {current : Option Text} :
    findOwnedBlock text kind = .ok current
      ↔ Text.findBlock (markerStart kind) (markerEnd kind) text = some current := by
  unfold findOwnedBlock Text.findBlock
  generalize Text.matchIndices (markerStart kind) text = starts
  generalize Text.matchIndices (markerEnd kind) text = stops
  split
  · simp
  · dsimp only
    split <;> simp
  · simp

/-! ## The span of a forced change -/

theorem relaxedMarker_prefix (full : Text) : relaxedMarker full <+: full := by
  unfold relaxedMarker
  split
  · exact List.take_prefix _ _
  · exact List.prefix_refl full

theorem le_foldl_max (l : List Nat) : ∀ a : Nat, a ≤ l.foldl max a ∧ ∀ x ∈ l, x ≤ l.foldl max a := by
  induction l with
  | nil => exact fun a => ⟨Nat.le_refl a, nofun⟩
  | cons b l ih =>
    intro a
    obtain ⟨hle, hall⟩ := ih (max a b)
    rw [List.foldl_cons]
    refine ⟨by omega, fun x hx => ?_⟩
    rcases List.mem_cons.mp hx with rfl | hx
    · omega
    · exact hall x hx

/-- The first occurrence of a span that begins where the first marker does is there. -/
theorem find_span {marker span text : Text} {lowest : Nat} (hne : marker ≠ [])
    (hbegins : marker <+: span) (hlow : ∀ i ∈ Text.matchIndices marker text, lowest ≤ i)
    (hat : span <+: text.drop lowest) : Text.find span text = some lowest := by
  have hspan : span ≠ [] := by
    rintro rfl
    exact hne (List.prefix_nil.mp hbegins)
  obtain ⟨first, hfirst, hle⟩ :=
    @Text.exists_matchIndicesFrom span text hspan 0 0 lowest (Nat.zero_le _) hat
  have hall : ∀ i ∈ Text.matchIndices span text, lowest ≤ i := by
    intro i hi
    obtain ⟨j, hj, hji, -⟩ :=
      Text.exists_match_over hne (hbegins.trans (Text.prefix_of_mem hi))
    have := hlow j hj
    omega
  unfold Text.find
  cases hmatches : Text.matchIndices span text with
  | nil =>
    rw [Text.matchIndices] at hmatches
    rw [hmatches] at hfirst
    cases hfirst
  | cons i rest =>
    have hi := hall i (hmatches ▸ List.mem_cons_self)
    have hpair := Text.matchIndicesFrom_pairwise hspan 0 0 text
    rw [Text.matchIndices] at hmatches
    rw [hmatches] at hfirst hpair
    rw [List.head?_cons]
    rcases List.mem_cons.mp hfirst with rfl | hlater
    · rw [show first = lowest by omega]
    · have := (List.pairwise_cons.mp hpair).1 first hlater
      have := List.length_pos_of_ne_nil hspan
      omega

theorem matchIndices_fits {pat text : Text} {i : Nat} (hne : pat ≠ [])
    (hi : i ∈ Text.matchIndices pat text) : i + pat.length ≤ text.length := by
  have hlength := (Text.prefix_of_mem hi).length_le
  have := List.length_pos_of_ne_nil hne
  rw [List.length_drop] at hlength
  omega

/-- All of the marker's places are between two others. -/
theorem free_around {marker full text : Text} {low high : Nat} (hne : marker ≠ [])
    (hfull : marker <+: full)
    (hall : ∀ i ∈ Text.matchIndices marker text, low ≤ i ∧ i + marker.length ≤ high) :
    Text.Free full (text.take low) ∧ Text.Free full (text.drop high) :=
  ⟨(Text.free_before hne fun i hi => (hall i hi).1).of_begins hfull,
    (Text.free_behind hne fun i hi => (hall i hi).2).of_begins hfull⟩

/-- The span lies between texts without markers, and is replaced where it is. -/
theorem forcedOwnedSpan_split {text span : Text} (h : forcedOwnedSpan text kind = some span)
    (new : Text) :
    ∃ before after, Text.replaceFirst span new text = before ++ new ++ after
      ∧ Text.Clear (markerStart kind) (markerEnd kind) before
      ∧ Text.Clear (markerStart kind) (markerEnd kind) after := by
  unfold forcedOwnedSpan at h
  have hstartFull := relaxedMarker_prefix (markerStart kind)
  have hstopFull := relaxedMarker_prefix (markerEnd kind)
  generalize relaxedMarker (markerStart kind) = start at h hstartFull
  generalize relaxedMarker (markerEnd kind) = stop at h hstopFull
  obtain ⟨hnonempty, h⟩ := Option.ite_none_left_eq_some.mp h
  rw [Bool.or_eq_true, not_or, List.isEmpty_iff, List.isEmpty_iff] at hnonempty
  obtain ⟨hstart, hstop⟩ := hnonempty
  dsimp only at h
  split at h
  · cases h
  next lowest hmin =>
    obtain ⟨hmem, hlow⟩ := List.min?_eq_some_iff.mp hmin
    obtain ⟨-, hhigh⟩ := le_foldl_max ((Text.matchIndices start text).map (· + start.length)
      ++ (Text.matchIndices stop text).map (· + stop.length)) 0
    generalize List.foldl max 0 ((Text.matchIndices start text).map (· + start.length)
      ++ (Text.matchIndices stop text).map (· + stop.length)) = highest at h hhigh
    obtain ⟨high, hstarts, hstops, rfl⟩ : ∃ high,
        (∀ i ∈ Text.matchIndices start text, i + start.length ≤ high)
        ∧ (∀ i ∈ Text.matchIndices stop text, i + stop.length ≤ high)
        ∧ (text.take high).drop lowest = span := by
      split at h
      next offset _ =>
        refine ⟨highest + offset + 1, fun i hi => ?_, fun i hi => ?_, Option.some.inj h⟩
        · have := hhigh _ (List.mem_append_left _ (List.mem_map_of_mem hi))
          omega
        · have := hhigh _ (List.mem_append_right _ (List.mem_map_of_mem hi))
          omega
      next =>
        exact ⟨text.length, fun i hi => matchIndices_fits hstart hi,
          fun i hi => matchIndices_fits hstop hi, Option.some.inj h⟩
    have hplace : ∀ marker, marker ≠ [] → lowest ∈ Text.matchIndices marker text →
        (∀ i ∈ Text.matchIndices marker text, lowest ≤ i ∧ i + marker.length ≤ high) →
        Text.find ((text.take high).drop lowest) text = some lowest := by
      intro marker hne hhere hall
      have hat := Text.prefix_of_mem hhere
      refine find_span hne ?_ (fun i hi => (hall i hi).1)
        ((List.take_prefix high text).drop lowest)
      refine List.prefix_of_prefix_length_le hat ((List.take_prefix high text).drop lowest) ?_
      have := (hall lowest hhere).2
      have := matchIndices_fits hne hhere
      rw [List.length_drop, List.length_take]
      omega
    have hstarts' : ∀ i ∈ Text.matchIndices start text, lowest ≤ i ∧ i + start.length ≤ high :=
      fun i hi => ⟨hlow i (List.mem_append_left _ hi), hstarts i hi⟩
    have hstops' : ∀ i ∈ Text.matchIndices stop text, lowest ≤ i ∧ i + stop.length ≤ high :=
      fun i hi => ⟨hlow i (List.mem_append_right _ hi), hstops i hi⟩
    have hfind : Text.find ((text.take high).drop lowest) text = some lowest := by
      rcases List.mem_append.mp hmem with hhere | hhere
      · exact hplace start hstart hhere hstarts'
      · exact hplace stop hstop hhere hstops'
    have hlowest : lowest ≤ high ∧ high ≤ text.length ∨ text.length < high := by
      rcases List.mem_append.mp hmem with hhere | hhere
      · have := hstarts lowest hhere
        omega
      · have := hstops lowest hhere
        omega
    obtain ⟨hstartBefore, hstartAfter⟩ := free_around hstart hstartFull hstarts'
    obtain ⟨hstopBefore, hstopAfter⟩ := free_around hstop hstopFull hstops'
    refine ⟨text.take lowest, text.drop high, ?_, ⟨hstartBefore, hstopBefore⟩,
      ⟨hstartAfter, hstopAfter⟩⟩
    unfold Text.replaceFirst
    rw [hfind]
    show text.take lowest ++ new ++ text.drop _ = _
    congr 1
    rw [List.length_drop, List.length_take]
    rcases hlowest with ⟨hle, hle'⟩ | hlong
    · rw [show lowest + (min high text.length - lowest) = high by omega]
    · rw [List.drop_eq_nil_of_le (Nat.le_of_lt hlong), List.drop_eq_nil_of_le (by omega)]

end

/-! ## The text that an install leaves -/

/-- What the manager ships for a target. -/
def Shipped (kind : InstructionTarget) (desired : Text) : Prop :=
  match ownedShape kind with
  | .markerBlock => Canonical kind desired
  | .wholeFile => desired ≠ []

section

variable {kind : InstructionTarget} {desired text updated separator : Text} {force : Bool}

theorem Shipped.canonical (h : Shipped kind desired) (hkind : ownedShape kind = .markerBlock) :
    Canonical kind desired := by
  unfold Shipped at h
  rwa [hkind] at h

theorem Shipped.framed (h : Shipped kind desired) : Framed kind desired :=
  fun hkind => ⟨(h.canonical hkind).begins, (h.canonical hkind).ends⟩

theorem currentOwned_block (hkind : ownedShape kind = .markerBlock)
    {receipt : Option InstructionReceipt}
    (h : findOwnedBlock text kind = .ok (some desired)) :
    currentOwned text kind receipt force = .ok (some desired) := by
  unfold currentOwned
  rw [hkind, h]

/-- What a text is taken to hold lies between texts without markers. -/
theorem installBlock_around (hkind : ownedShape kind = .markerBlock)
    {receipt : Option InstructionReceipt} {current : Option Text}
    (hcurrent : currentOwned text kind receipt force = .ok current)
    (h : installBlock text current desired (ownedShape kind) = .ok (updated, separator)) :
    ∃ before after, updated = before ++ desired ++ after
      ∧ Text.Clear (markerStart kind) (markerEnd kind) before
      ∧ Text.Clear (markerStart kind) (markerEnd kind) after := by
  have hmarkers := blockMarkers hkind
  unfold currentOwned at hcurrent
  rw [hkind] at hcurrent h
  cases hfind : findOwnedBlock text kind with
  | ok block =>
    rw [hfind] at hcurrent
    cases hcurrent
    have hfound := findOwnedBlock_eq_ok.mp hfind
    cases current with
    | none =>
      cases h
      have hclear := (Text.findBlock_eq_none hmarkers).mp hfound
      exact ⟨_, [], (List.append_nil _).symm,
        hclear.separated hmarkers (newlines_separatorOf text), Text.clear_nil hmarkers⟩
    | some current =>
      obtain ⟨before, after, rfl, hbegins, hbefore, hafter⟩ :=
        Text.findBlock_split hmarkers hfound
      obtain ⟨_, -, h⟩ := except_bind_eq_ok.mp h
      cases h
      exact ⟨before, after, Text.replaceFirst_block hmarkers hbegins hbefore.start _, hbefore,
        hafter⟩
  | error error =>
    rw [hfind] at hcurrent
    dsimp only at hcurrent
    split at hcurrent
    · split at hcurrent
      next span hspan =>
        cases hcurrent
        obtain ⟨_, -, h⟩ := except_bind_eq_ok.mp h
        cases h
        exact forcedOwnedSpan_split hspan desired
      · cases hcurrent
    · cases hcurrent

/-- What an install leaves is the manager's. -/
theorem currentOwned_installed (hshipped : Shipped kind desired)
    {receipt : Option InstructionReceipt} {current : Option Text}
    (hcurrent : currentOwned text kind receipt force = .ok current)
    (h : installBlock text current desired (ownedShape kind) = .ok (updated, separator))
    (owner : InstructionReceipt) :
    currentOwned updated kind (some owner) force = .ok (some desired) := by
  cases hkind : ownedShape kind with
  | markerBlock =>
    obtain ⟨before, after, rfl, hbefore, hafter⟩ := installBlock_around hkind hcurrent h
    exact currentOwned_block hkind (findOwnedBlock_eq_ok.mpr
      (Text.findBlock_around (blockMarkers hkind) (hshipped.canonical hkind).isBlock hbefore hafter))
  | wholeFile =>
    unfold Shipped at hshipped
    unfold currentOwned
    rw [hkind] at h hshipped ⊢
    cases h
    cases desired with
    | nil => exact absurd rfl hshipped
    | cons c desired => rfl

/-- So is what is taken over. -/
theorem currentOwned_adopted {look : Look} {current : Option Text}
    (hcurrent : currentOwned look.text kind look.receipt force = .ok current)
    (h : adopts kind desired look current = true) (owner : InstructionReceipt) :
    currentOwned look.text kind (some owner) force = .ok (some desired) := by
  unfold adopts at h
  unfold currentOwned at hcurrent ⊢
  cases hkind : ownedShape kind with
  | markerBlock =>
    rw [hkind] at h hcurrent
    simp only [Bool.and_eq_true, beq_iff_eq] at h
    rw [h.2] at hcurrent
    exact hcurrent
  | wholeFile =>
    rw [hkind] at h
    simp only [Bool.and_eq_true, Bool.not_eq_true', beq_iff_eq] at h
    obtain ⟨⟨-, hnonempty⟩, rfl⟩ := h
    show Except.ok (if _ then none else some look.text) = _
    rw [if_neg]
    rintro (hempty | hnone)
    · rw [hnonempty] at hempty
      cases hempty
    · cases hnone

end

/-! ## Planning -/

/-- What an install plans: the manager owns what is there, or will. -/
inductive InstallsWhole (crates : Crates) (kind : InstructionTarget) (desired : Text)
    (force : Bool) (look : Look) (plan : InstructionPlan InstructionReceipt) : Prop
  | kept (action : plan.action = .alreadyInstalled) (idle : Idle plan)
  | adopted {receipt : InstructionReceipt} (done : plan.action.isNoop = false)
    (write : plan.write = .leave) (after : plan.receiptAfter = some receipt)
    (owned : receipt.ownedBlock = desired)
    (holds : currentOwned look.text kind (some receipt) force = .ok (some desired))
  | put {updated : Text} {receipt : InstructionReceipt} (done : plan.action.isNoop = false)
    (write : plan.write = .write (Text.utf8 updated)) (after : plan.receiptAfter = some receipt)
    (owned : receipt.ownedBlock = desired)
    (holds : currentOwned updated kind (some receipt) force = .ok (some desired))

section

variable {crates : Crates} {kind : InstructionTarget} {host : Option Host} {project : PosixPath}
  {desired : Text} {force : Bool} {nodes : Nodes} {look : Look} {planned : Planned}
  {receipt : InstructionReceipt}

theorem lookAt_iff : lookAt crates kind host project nodes = .ok look
    ↔ instructionPath kind host project = .ok look.target
      ∧ siblingPath look.target ".kaleidoscope-instruction-owner.json" = .ok look.receiptPath
      ∧ siblingPath look.target ".kaleidoscope-backup" = .ok look.backupPath
      ∧ snapshotOf (digest crates) maxInstructionBytes instructionTraits.targetName nodes.target
        = .ok look.original
      ∧ snapshotOf (digest crates) maxReceiptBytes instructionTraits.receiptName nodes.receipt
        = .ok look.receiptOriginal
      ∧ decodeReceipt crates look.receiptOriginal kind = .ok look.receipt
      ∧ snapshotText look.original = .ok look.text := by
  constructor
  · intro h
    obtain ⟨target, htarget, h⟩ := except_bind_eq_ok.mp h
    obtain ⟨receiptPath, hreceiptPath, h⟩ := except_bind_eq_ok.mp h
    obtain ⟨backupPath, hbackupPath, h⟩ := except_bind_eq_ok.mp h
    obtain ⟨original, horiginal, h⟩ := except_bind_eq_ok.mp h
    obtain ⟨receiptOriginal, hreceiptOriginal, h⟩ := except_bind_eq_ok.mp h
    obtain ⟨receipt, hreceipt, h⟩ := except_bind_eq_ok.mp h
    obtain ⟨text, htext, h⟩ := except_bind_eq_ok.mp h
    cases h
    exact ⟨htarget, hreceiptPath, hbackupPath, horiginal, hreceiptOriginal, hreceipt, htext⟩
  · rintro ⟨htarget, hreceiptPath, hbackupPath, horiginal, hreceiptOriginal, hreceipt, htext⟩
    refine except_bind_eq_ok.mpr ⟨_, htarget, ?_⟩
    refine except_bind_eq_ok.mpr ⟨_, hreceiptPath, ?_⟩
    refine except_bind_eq_ok.mpr ⟨_, hbackupPath, ?_⟩
    refine except_bind_eq_ok.mpr ⟨_, horiginal, ?_⟩
    refine except_bind_eq_ok.mpr ⟨_, hreceiptOriginal, ?_⟩
    refine except_bind_eq_ok.mpr ⟨_, hreceipt, ?_⟩
    exact except_bind_eq_ok.mpr ⟨_, htext, rfl⟩

theorem planInstallAt_cases (hshipped : Shipped kind desired)
    (hlook : lookAt crates kind host project nodes = .ok look)
    (h : planInstallAt crates desired kind host project force nodes = .ok planned) :
    InstallsWhole crates kind desired force look planned.plan := by
  obtain ⟨_, hlook', h⟩ := except_bind_eq_ok.mp h
  rw [hlook] at hlook'
  cases hlook'
  obtain ⟨current, hcurrent, h⟩ := except_bind_eq_ok.mp h
  split at h
  next hadopts =>
    cases h
    exact .adopted rfl rfl rfl rfl (currentOwned_adopted hcurrent hadopts _)
  next =>
    obtain ⟨_, -, h⟩ := except_bind_eq_ok.mp h
    obtain ⟨_, -, h⟩ := except_bind_eq_ok.mp h
    dsimp only at h
    split at h
    · cases h
      exact .kept rfl ⟨rfl, rfl, rfl⟩
    · obtain ⟨⟨updated, separator⟩, hinstalled, h⟩ := except_bind_eq_ok.mp h
      cases h
      refine .put ?_ rfl rfl rfl (currentOwned_installed hshipped hcurrent hinstalled _)
      show InstructionAction.isNoop (if current.isSome = true then .update else .add) = false
      split <;> rfl

/-- A receipt and the content that it names are all that an install looks for. -/
theorem planInstallAt_noop (hlook : lookAt crates kind host project nodes = .ok look)
    (hreceipt : look.receipt = some receipt) (howned : receipt.ownedBlock = desired)
    (hvalid : InstructionReceipt.validate crates receipt kind = .ok ())
    (hholds : currentOwned look.text kind (some receipt) force = .ok (some desired)) :
    planInstallAt crates desired kind host project force nodes
      = .ok ⟨noopPlan .alreadyInstalled look, none⟩ := by
  obtain ⟨_, hshape, -⟩ := except_bind_eq_ok.mp hvalid
  have hshape := rejectIf_eq_ok.mp hshape
  simp only [not_or, not_not] at hshape
  have hadopts : adopts kind desired look (some desired) = false := by
    unfold adopts
    rw [hreceipt]
    split <;> rfl
  have hmanaged : unmanaged kind look (some desired) = false := by
    unfold unmanaged
    rw [hreceipt]
    simp
  refine except_bind_eq_ok.mpr ⟨look, hlook, ?_⟩
  refine except_bind_eq_ok.mpr ⟨some desired, by rw [hreceipt]; exact hholds, ?_⟩
  rw [hadopts]
  refine except_bind_eq_ok.mpr ⟨none, ?_, ?_⟩
  · unfold installDiscards
    rw [hmanaged]
    rfl
  refine except_bind_eq_ok.mpr ⟨(), ?_, ?_⟩
  · unfold checkOwnership
    split
    · rfl
    · rw [hreceipt]
      refine rejectIf_eq_ok.mpr ?_
      rintro (hbad | hbad | hbad)
      · exact hbad hshape.2.2.1
      · exact hbad howned
      · rw [← howned] at hbad
        exact hbad hshape.2.2.2
  · dsimp only
    rw [if_pos ⟨rfl, by rw [hreceipt]; simp [howned]⟩]
    rfl

end

/-! ## Installing again -/

/-- An install plans nothing, and leaves the entries as they are. -/
def InstallsAgain (crates : Crates) (desired : Text) (kind : InstructionTarget)
    (host : Option Host) (project : PosixPath) (force : Bool) (nodes : Nodes) : Prop :=
  ∃ planned, planInstallAt crates desired kind host project force nodes = .ok planned
    ∧ planned.plan.action = .alreadyInstalled ∧ Idle planned.plan
    ∧ planned.plan.after crates.receipts nodes = nodes

theorem instructions_after_noop {codec : ReceiptCodec InstructionReceipt} {nodes : Nodes}
    {plan : InstructionPlan InstructionReceipt} (h : plan.action.isNoop = true) :
    plan.after codec nodes = nodes := by
  unfold InstructionPlan.after
  rw [h]
  rfl

section

variable {json : JsonCrate} {digestBytes : Bytes → Text} {kind : InstructionTarget}
  {host : Option Host} {project : PosixPath} {desired : Text} {force : Bool} {nodes : Nodes}
  {planned : Planned} {receipt : InstructionReceipt} {bytes : Bytes}

theorem instructions_after {codec : ReceiptCodec InstructionReceipt}
    {plan : InstructionPlan InstructionReceipt} (hdone : plan.action.isNoop = false)
    (hbytes : encodedReceipt codec plan = .ok (some bytes)) :
    (plan.after codec nodes).target = written plan nodes.target
      ∧ (plan.after codec nodes).receipt = some (.file bytes 0o600) := by
  unfold InstructionPlan.after
  rw [hdone]
  refine ⟨rfl, ?_⟩
  show receiptNode (receiptBytes codec plan) = _
  rw [receiptBytes_of_encoded hbytes]
  rfl

/-- What an install wrote is read exactly where it is within the limits. -/
theorem readable_of_lookAt {crates : Crates} {look : Look}
    {plan : InstructionPlan InstructionReceipt} (hdone : plan.action.isNoop = false)
    (hbytes : encodedReceipt crates.receipts plan = .ok (some bytes))
    (h : lookAt crates kind host project (plan.after crates.receipts nodes) = .ok look) :
    Readable crates.receipts maxInstructionBytes plan := by
  obtain ⟨-, -, -, htarget, hreceipt, -⟩ := lookAt_iff.mp h
  obtain ⟨hwritten, hencoded⟩ := @instructions_after nodes bytes _ _ hdone hbytes
  rw [hwritten] at htarget
  rw [hencoded] at hreceipt
  refine ⟨fun text hwrite => ?_, fun text htext => ?_⟩
  · unfold written at htarget
    rw [hwrite] at htarget
    exact snapshotOf_written.mp ⟨_, htarget⟩
  · rw [htext] at hbytes
    cases hbytes
    exact snapshotOf_written.mp ⟨_, hreceipt⟩

/-- It is enough that the manager owns the text that the install leaves. -/
theorem installsAgain_of_readable (hjson : json.Lawful) (hshipped : Shipped kind desired)
    {look : Look} (hlook : lookAt (jsonCrates json digestBytes) kind host project nodes = .ok look)
    (h : planInstallAt (jsonCrates json digestBytes) desired kind host project force nodes
      = .ok planned)
    (hdone : planned.plan.action.isNoop = false) (hafter : planned.plan.receiptAfter = some receipt)
    (howned : receipt.ownedBlock = desired)
    (hreadable : Readable (jsonCrates json digestBytes).receipts maxInstructionBytes planned.plan)
    {text : Text} (hholds : currentOwned text kind (some receipt) force = .ok (some desired))
    (htext : planned.plan.write = .leave ∧ text = look.text
      ∨ planned.plan.write = .write (Text.utf8 text)) :
    InstallsAgain (jsonCrates json digestBytes) desired kind host project force
      (planned.plan.after (jsonCrates json digestBytes).receipts nodes) := by
  obtain ⟨htarget, hreceiptPath, hbackupPath, horiginal, -, -, hread⟩ := lookAt_iff.mp hlook
  obtain ⟨bytes, hbytes, hdecode⟩ :=
    receipt_acceptedOnly hjson (.install hshipped.framed h) receipt hafter
  obtain ⟨hwritten, hencoded⟩ := @instructions_after nodes bytes _ _ hdone hbytes
  obtain ⟨receiptOriginal, hreceiptOriginal⟩ :=
    (@snapshotOf_written digestBytes maxReceiptBytes instructionTraits.receiptName bytes 0o600).mpr
      (hreadable.receipt bytes hbytes)
  have hdecoded := (hdecode _ (snapshotOf_bytes hreceiptOriginal).1).1
  obtain ⟨original, horiginal', hread'⟩ : ∃ original,
      snapshotOf digestBytes maxInstructionBytes instructionTraits.targetName
        (written planned.plan nodes.target) = .ok original
      ∧ snapshotText original = .ok text := by
    unfold written
    rcases htext with ⟨hwrite, rfl⟩ | hwrite
    · rw [hwrite]
      exact ⟨look.original, horiginal, hread⟩
    · rw [hwrite]
      obtain ⟨original, horiginal'⟩ := (@snapshotOf_written digestBytes maxInstructionBytes
        instructionTraits.targetName (Text.utf8 text)
        (planned.plan.original.unixMode.getD 0o600)).mpr (hreadable.target _ hwrite)
      refine ⟨original, horiginal', ?_⟩
      have hheld : original.bytes = some (Text.utf8 text) := (snapshotOf_bytes horiginal').1
      simp only [snapshotText, hheld, Option.elim_some, Utf8.decode_utf8]
  have hlook' : lookAt (jsonCrates json digestBytes) kind host project
      (planned.plan.after (jsonCrates json digestBytes).receipts nodes)
      = .ok { look with original, receiptOriginal, receipt := some receipt, text } := by
    refine lookAt_iff.mpr ⟨htarget, hreceiptPath, hbackupPath, ?_, ?_, hdecoded, hread'⟩
    · rw [hwritten]
      exact horiginal'
    · rw [hencoded]
      exact hreceiptOriginal
  exact ⟨_, planInstallAt_noop hlook' rfl howned
    (new_of_planInstallAt hshipped.framed h hafter).valid hholds, rfl, ⟨rfl, rfl, rfl⟩,
    instructions_after_noop rfl⟩

/-- What is shipped is found installed again exactly where what was written can be read. -/
theorem install_again (hjson : json.Lawful) (hshipped : Shipped kind desired)
    (h : planInstallAt (jsonCrates json digestBytes) desired kind host project force nodes
      = .ok planned) :
    InstallsAgain (jsonCrates json digestBytes) desired kind host project force
        (planned.plan.after (jsonCrates json digestBytes).receipts nodes)
      ↔ Readable (jsonCrates json digestBytes).receipts maxInstructionBytes planned.plan := by
  obtain ⟨look, hlook, -⟩ := except_bind_eq_ok.mp h
  have hforward : ∀ receipt, planned.plan.action.isNoop = false →
      planned.plan.receiptAfter = some receipt →
      InstallsAgain (jsonCrates json digestBytes) desired kind host project force
        (planned.plan.after (jsonCrates json digestBytes).receipts nodes) →
      Readable (jsonCrates json digestBytes).receipts maxInstructionBytes planned.plan := by
    intro receipt hdone hafter hagain
    obtain ⟨planned', hplanned', -⟩ := hagain
    obtain ⟨look', hlook', -⟩ := except_bind_eq_ok.mp hplanned'
    obtain ⟨bytes, hbytes, -⟩ :=
      receipt_acceptedOnly hjson (.install hshipped.framed h) receipt hafter
    exact readable_of_lookAt hdone hbytes hlook'
  cases planInstallAt_cases hshipped hlook h with
  | kept haction hidle =>
    have hnodes := @instructions_after_noop (jsonCrates json digestBytes).receipts nodes planned.plan
      (by rw [haction]; rfl)
    rw [hnodes]
    exact ⟨fun _ => hidle.readable, fun _ => ⟨planned, h, haction, hidle, hnodes⟩⟩
  | adopted hdone hwrite hafter howned hholds =>
    exact ⟨hforward _ hdone hafter, fun hreadable => installsAgain_of_readable hjson hshipped hlook h
      hdone hafter howned hreadable hholds (.inl ⟨hwrite, rfl⟩)⟩
  | put hdone hwrite hafter howned hholds =>
    exact ⟨hforward _ hdone hafter, fun hreadable => installsAgain_of_readable hjson hshipped hlook h
      hdone hafter howned hreadable hholds (.inr hwrite)⟩

end

end Kaleidoscope.Instructions
