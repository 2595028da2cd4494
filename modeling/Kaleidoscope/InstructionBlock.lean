import Kaleidoscope.CodexBlock
import Kaleidoscope.Instructions
import Kaleidoscope.JsonWriter
import Kaleidoscope.Lib.Utf8

/-!
# The text around an instruction block

A first install, then updates and edits around the block in any order, and a removal that takes
the block out of the text. The receipt of an update does not name the separator that the first
install put before the block.

    structural_remove_iff   when a removal leaves the user's text, with what was edited
-/

namespace Kaleidoscope.Instructions

open Prog Disk

/-- A text of the user's. -/
structure MarkerFree (kind : InstructionTarget) (text : Text) : Prop where
  start : Text.Free (markerStart kind) text
  stop : Text.Free (markerEnd kind) text

/-- A block of the manager's, of any version. -/
structure Canonical (kind : InstructionTarget) (block : Text) : Prop where
  begins : markerStart kind <+: block
  ends : markerEnd kind ++ ['\n'] <:+ block
  startOnce : (Text.matchIndices (markerStart kind) block).length = 1
  stopOnce : (Text.matchIndices (markerEnd kind) block).length = 1

section

variable {kind : InstructionTarget} {block before after : Text}

/-! ## The markers -/

theorem markers_ne (hkind : ownedShape kind = .markerBlock) :
    markerStart kind ≠ [] ∧ markerEnd kind ≠ [] := by
  cases kind with
  | skill => cases hkind
  | agents | claude | cursor =>
    dsimp only [markerStart, markerEnd]
    rw [String.toList_ofList, String.toList_ofList]
    exact ⟨List.cons_ne_nil _ _, List.cons_ne_nil _ _⟩

theorem markerStart_unbordered (kind : InstructionTarget) : Text.Unbordered (markerStart kind) := by
  intro k hlt
  revert k
  cases kind with
  | skill => decide
  | agents | claude | cursor =>
    dsimp only [markerStart]
    rw [String.toList_ofList]
    decide +kernel

theorem markerEnd_unbordered (kind : InstructionTarget) : Text.Unbordered (markerEnd kind) := by
  intro k hlt
  revert k
  cases kind with
  | skill => decide
  | agents | claude | cursor =>
    dsimp only [markerEnd]
    rw [String.toList_ofList]
    decide +kernel

/-- No end of the end marker is the start of a block. -/
theorem markerEnd_outside (kind : InstructionTarget) :
    ∀ k < (markerEnd kind).length, ¬(markerEnd kind).drop k <+: markerStart kind := by
  cases kind with
  | skill => decide
  | agents | claude | cursor =>
    dsimp only [markerStart, markerEnd]
    rw [String.toList_ofList, String.toList_ofList]
    decide +kernel

/-- No start of a marker is the end of a block. -/
theorem markers_inside {marker : Text} (hmarker : marker ∈ [markerStart kind, markerEnd kind]) :
    ∀ k < marker.length, 0 < k → ¬marker.take k <:+ markerEnd kind ++ ['\n']
      ∧ ¬markerEnd kind ++ ['\n'] <:+ marker.take k := by
  revert marker
  cases kind with
  | skill => decide
  | agents | claude | cursor =>
    dsimp only [markerStart, markerEnd]
    rw [String.toList_ofList, String.toList_ofList]
    decide +kernel

theorem markerEnd_short (kind : InstructionTarget) :
    (markerEnd kind).length ≤ (markerStart kind).length := by
  cases kind with
  | skill => decide
  | agents | claude | cursor =>
    dsimp only [markerStart, markerEnd]
    rw [String.toList_ofList, String.toList_ofList]
    decide

theorem markers_last {marker : Text} (hkind : ownedShape kind = .markerBlock)
    (hmarker : marker ∈ [markerStart kind, markerEnd kind]) :
    ∃ c ∈ marker.getLast?, c ≠ '\n' := by
  revert marker
  cases kind with
  | skill => cases hkind
  | agents | claude | cursor =>
    dsimp only [markerStart, markerEnd]
    rw [String.toList_ofList, String.toList_ofList]
    decide

/-! ## A block between texts of the user's -/

theorem not_crosses_end (hblock : Canonical kind block) (rest : Text) :
    ¬Text.Crosses (markerEnd kind) before (block ++ rest) := by
  rintro ⟨p, q, hmarker, hp, hq, -, hqb⟩
  have hlength := congrArg List.length hmarker
  rw [List.length_append] at hlength
  have hpos := List.length_pos_of_ne_nil hp
  have hposq := List.length_pos_of_ne_nil hq
  have hshort := markerEnd_short kind
  refine markerEnd_outside kind p.length (by omega) ?_
  rw [hmarker, List.drop_left]
  exact List.prefix_of_prefix_length_le hqb (hblock.begins.trans (List.prefix_append _ _)) (by omega)

theorem not_crosses_after {marker : Text} (hmarker : marker ∈ [markerStart kind, markerEnd kind])
    (hblock : Canonical kind block) : ¬Text.Crosses marker block after := by
  rintro ⟨p, q, rfl, hp, hq, hpb, -⟩
  have hposq := List.length_pos_of_ne_nil hq
  obtain ⟨hfirst, hlast⟩ := markers_inside hmarker p.length (by rw [List.length_append]; omega)
    (List.length_pos_of_ne_nil hp)
  rw [List.take_left] at hfirst hlast
  rcases List.suffix_or_suffix_of_suffix hpb hblock.ends with h | h
  · exact hfirst h
  · exact hlast h

/-- A marker that is once in the block is found there, and nowhere else. -/
theorem matchIndices_around {marker : Text} {k : Nat} (hne : marker ≠ [])
    (hunbordered : Text.Unbordered marker) (hbefore : Text.Free marker before)
    (hafter : Text.Free marker after) (hfirst : ¬Text.Crosses marker before (block ++ after))
    (hlast : ¬Text.Crosses marker block after)
    (hone : (Text.matchIndices marker block).length = 1) (hk : marker <+: block.drop k) :
    Text.matchIndices marker (before ++ block ++ after) = [before.length + k] := by
  rw [List.append_assoc, Text.matchIndices_append hfirst, Text.matchIndices_append hlast,
    (Text.matchIndices_eq_nil hne).mpr hbefore, (Text.matchIndices_eq_nil hne).mpr hafter,
    Text.matchIndices_eq_singleton hne hunbordered hone hk]
  rfl

theorem length_lt_of_canonical (hkind : ownedShape kind = .markerBlock)
    (hblock : Canonical kind block) : (markerEnd kind).length + 1 < block.length := by
  obtain ⟨head, hhead⟩ := hblock.ends
  have hlength := congrArg List.length hhead
  simp only [List.length_append, List.length_singleton] at hlength
  by_contra hnot
  -- otherwise the block begins with both markers
  have hnil : head = [] := List.eq_nil_of_length_eq_zero (by omega)
  rw [hnil, List.nil_append] at hhead
  refine markerEnd_outside kind 0 (List.length_pos_of_ne_nil (markers_ne hkind).2) ?_
  rw [List.drop_zero]
  refine List.prefix_of_prefix_length_le ?_ hblock.begins (markerEnd_short kind)
  rw [← hhead]
  exact List.prefix_append _ _

theorem findOwnedBlock_around (hkind : ownedShape kind = .markerBlock)
    (hblock : Canonical kind block) (hbefore : MarkerFree kind before)
    (hafter : MarkerFree kind after) :
    findOwnedBlock (before ++ block ++ after) kind = .ok (some block) := by
  obtain ⟨hstartNe, hstopNe⟩ := markers_ne hkind
  have hlong := length_lt_of_canonical hkind hblock
  obtain ⟨head, hhead⟩ := hblock.ends
  have hlength := congrArg List.length hhead
  simp only [List.length_append, List.length_singleton] at hlength
  have hstart := @matchIndices_around block before after (markerStart kind) 0 hstartNe
    (markerStart_unbordered kind) hbefore.start hafter.start
    (Text.not_crosses_of_begins (markerStart_unbordered kind)
      (hblock.begins.trans (List.prefix_append _ _)))
    (not_crosses_after (by simp) hblock) hblock.startOnce hblock.begins
  have hstop := @matchIndices_around block before after (markerEnd kind) head.length hstopNe
    (markerEnd_unbordered kind) hbefore.stop hafter.stop (not_crosses_end hblock after)
    (not_crosses_after (by simp) hblock) hblock.stopOnce
    (by rw [← hhead, List.drop_left]; exact List.prefix_append _ _)
  have hnewline : (before ++ block ++ after)[before.length + head.length
      + (markerEnd kind).length]? = some '\n' := by
    rw [← hhead, show before.length + head.length + (markerEnd kind).length
      = (before ++ head ++ markerEnd kind).length by simp [Nat.add_assoc]]
    simp
  unfold findOwnedBlock
  rw [hstart, hstop]
  simp only [Nat.add_zero]
  rw [if_pos (by omega), if_pos hnewline]
  have hend : before.length + head.length + (markerEnd kind).length + 1
      = (before ++ block).length := by
    rw [List.length_append]
    omega
  rw [hend, List.take_left, List.drop_left]

theorem findOwnedBlock_free (hkind : ownedShape kind = .markerBlock) {text : Text}
    (hfree : MarkerFree kind text) : findOwnedBlock text kind = .ok none := by
  obtain ⟨hstartNe, hstopNe⟩ := markers_ne hkind
  unfold findOwnedBlock
  rw [(Text.matchIndices_eq_nil hstartNe).mpr hfree.start,
    (Text.matchIndices_eq_nil hstopNe).mpr hfree.stop]

theorem newlines_separatorOf (text : Text) : ∀ c ∈ Hosts.separatorOf text, c = '\n' := by
  rcases Hosts.separatorOf_cases text with ⟨h, -⟩ | ⟨h, -⟩ | ⟨h, -⟩ <;> rw [h] <;> decide

/-- Newlines bring no marker. -/
theorem MarkerFree.separated (hkind : ownedShape kind = .markerBlock) {text separator : Text}
    (hfree : MarkerFree kind text) (hnewlines : ∀ c ∈ separator, c = '\n') :
    MarkerFree kind (text ++ separator) := by
  have hmarker : ∀ marker ∈ [markerStart kind, markerEnd kind], marker ≠ [] →
      Text.Free marker text → Text.Free marker (text ++ separator) := by
    intro marker hmarker hne htext
    obtain ⟨c, hc, hcne⟩ := markers_last hkind hmarker
    have hnot : c ∉ separator := fun h => hcne (hnewlines c h)
    refine htext.append hne (.of_notMem (List.mem_of_getLast? hc) hnot)
      (Text.not_crosses_of_last fun d hd => ?_)
    rw [Option.mem_def.mp hc] at hd
    cases hd
    exact hnot
  obtain ⟨hstartNe, hstopNe⟩ := markers_ne hkind
  exact ⟨hmarker _ (by simp) hstartNe hfree.start, hmarker _ (by simp) hstopNe hfree.stop⟩

/-! ## What the planners read -/

/-- The text of a file; there is none in a file that does not exist. -/
def textIn (node : Option Node) : Option Text :=
  Utf8.decode ((bytesIn node).elim [] fun bytes => bytes.data.toList)

/-- The receipts of the JSON crate: it writes one for each, and reads what it wrote. -/
structure Crates.Lawful (crates : Crates) : Prop where
  encodes : ∀ receipt, (crates.receipts.toVecPretty receipt).isSome = true
  reads : ∀ receipt bytes, receipt.version = receiptVersion →
    encodeReceipt crates.receipts receipt = .ok bytes → crates.fromSlice bytes = some receipt

variable {crates : Crates} {host : Option Host} {project : PosixPath} {nodes : Nodes} {look : Look}
  {desired : Text} {force : Bool} {planned : Planned}

/-- The receipt in a file. -/
def receiptIn (crates : Crates) (node : Option Node) : Option InstructionReceipt :=
  (bytesIn node).bind crates.fromSlice

structure Looked (crates : Crates) (nodes : Nodes) (look : Look) : Prop where
  bytes : look.original.bytes = bytesIn nodes.target
  text : textIn nodes.target = some look.text
  receipt : look.receipt = receiptIn crates nodes.receipt

theorem lookAt_eq_ok (h : lookAt crates kind host project nodes = .ok look) :
    Looked crates nodes look := by
  obtain ⟨target, -, h⟩ := except_bind_eq_ok.mp h
  obtain ⟨receiptPath, -, h⟩ := except_bind_eq_ok.mp h
  obtain ⟨backupPath, -, h⟩ := except_bind_eq_ok.mp h
  obtain ⟨original, horiginal, h⟩ := except_bind_eq_ok.mp h
  obtain ⟨receiptOriginal, hreceiptOriginal, h⟩ := except_bind_eq_ok.mp h
  obtain ⟨receipt, hreceipt, h⟩ := except_bind_eq_ok.mp h
  obtain ⟨text, htext, h⟩ := except_bind_eq_ok.mp h
  cases h
  obtain ⟨hbytes, -⟩ := snapshotOf_bytes horiginal
  obtain ⟨hreceiptBytes, -⟩ := snapshotOf_bytes hreceiptOriginal
  refine ⟨hbytes, ?_, ?_⟩
  · unfold snapshotText at htext
    rw [hbytes] at htext
    unfold textIn
    split at htext
    · cases htext
    next found hfound =>
      cases htext
      exact hfound
  · unfold decodeReceipt at hreceipt
    rw [hreceiptBytes] at hreceipt
    unfold receiptIn
    split at hreceipt
    next hnone =>
      cases hreceipt
      rw [hnone]
      rfl
    next bytes hsome =>
      rw [hsome, Option.bind_some]
      split at hreceipt
      · cases hreceipt
      next found hfound =>
        obtain ⟨-, -, hreceipt⟩ := except_bind_eq_ok.mp hreceipt
        cases hreceipt
        exact hfound.symm

/-- A receipt that was written is read back. -/
theorem receiptIn_written (hcrates : crates.Lawful) {receipt : InstructionReceipt}
    (hversion : receipt.version = receiptVersion) {plan : InstructionPlan InstructionReceipt}
    (hplan : plan.receiptAfter = some receipt) :
    receiptIn crates (receiptNode (receiptBytes crates.receipts plan)) = some receipt := by
  obtain ⟨bytes, hbytes⟩ := Option.isSome_iff_exists.mp (hcrates.encodes receipt)
  have hencode : encodeReceipt crates.receipts receipt = .ok (bytes.push 10) := by
    unfold encodeReceipt
    rw [hbytes]
  unfold receiptBytes
  rw [hplan, Option.bind_some, hencode]
  exact hcrates.reads _ _ hversion hencode

/-! ## Installs -/

/-- The plan of an install that adds or replaces a block. -/
structure Installs (crates : Crates) (kind : InstructionTarget) (desired : Text) (look : Look)
    (updated separator : Text) (plan : InstructionPlan InstructionReceipt) : Prop where
  action : plan.action.isNoop = false
  write : plan.write = .write (Text.utf8 updated)
  receipt : plan.receiptAfter = some (installReceipt crates kind desired look updated separator)

theorem planInstallAt_eq_ok (hkind : ownedShape kind = .markerBlock)
    (h : planInstallAt crates desired kind host project force nodes = .ok planned)
    (hlook : lookAt crates kind host project nodes = .ok look) {current : Option Text}
    (hfind : findOwnedBlock look.text kind = .ok current) :
    adopts kind desired look current = true
      ∨ (current = some desired ∧ look.receipt.any (·.ownedBlock == desired) = true
          ∧ planned.plan.action = .alreadyInstalled)
      ∨ ¬(current = some desired ∧ look.receipt.any (·.ownedBlock == desired) = true)
        ∧ ∃ updated separator,
          installBlock look.text current desired .markerBlock = .ok (updated, separator)
            ∧ Installs crates kind desired look updated separator planned.plan := by
  obtain ⟨_, hlook', h⟩ := except_bind_eq_ok.mp h
  rw [hlook] at hlook'
  cases hlook'
  obtain ⟨_, hcurrent, h⟩ := except_bind_eq_ok.mp h
  unfold currentOwned at hcurrent
  rw [hkind, hfind] at hcurrent
  cases hcurrent
  split at h
  next hadopts => exact .inl hadopts
  next =>
    obtain ⟨_, -, h⟩ := except_bind_eq_ok.mp h
    obtain ⟨_, -, h⟩ := except_bind_eq_ok.mp h
    simp only at h
    split at h
    next hsame =>
      cases h
      exact .inr (.inl ⟨hsame.1, hsame.2, rfl⟩)
    next hother =>
      obtain ⟨⟨updated, separator⟩, hinstalled, h⟩ := except_bind_eq_ok.mp h
      rw [hkind] at hinstalled
      cases h
      refine .inr (.inr ⟨hother, updated, separator, hinstalled, ?_, rfl, rfl⟩)
      cases current with
      | none => rfl
      | some block => rfl

/-- What an install leaves. -/
theorem Installs.leaves (hcrates : crates.Lawful) {updated separator : Text}
    {plan : InstructionPlan InstructionReceipt}
    (h : Installs crates kind desired look updated separator plan) :
    (∃ mode, (InstructionPlan.after crates.receipts plan nodes).target
        = some (.file (Text.utf8 updated) mode))
      ∧ receiptIn crates (InstructionPlan.after crates.receipts plan nodes).receipt
        = some (installReceipt crates kind desired look updated separator) := by
  unfold InstructionPlan.after
  rw [h.action]
  refine ⟨⟨plan.original.unixMode.getD 0o600, ?_⟩, receiptIn_written hcrates rfl h.receipt⟩
  show written plan nodes.target = _
  unfold written
  rw [h.write]

/-- A block where there is none is put behind the text and a separator. -/
theorem planInstallAt_new (hkind : ownedShape kind = .markerBlock)
    (h : planInstallAt crates desired kind host project force nodes = .ok planned)
    (hlook : lookAt crates kind host project nodes = .ok look)
    (hfree : MarkerFree kind look.text) :
    Installs crates kind desired look
      (look.text ++ Hosts.separatorOf look.text ++ desired) (Hosts.separatorOf look.text)
      planned.plan := by
  rcases planInstallAt_eq_ok hkind h hlook (findOwnedBlock_free hkind hfree) with
    hadopts | ⟨hnone, -⟩ | ⟨-, updated, separator, hinstalled, hinstalls⟩
  · unfold adopts at hadopts
    rw [hkind] at hadopts
    simp at hadopts
  · cases hnone
  · cases hinstalled
    exact hinstalls

/-- The block that is there is replaced, and the receipt then names no separator. -/
theorem planInstallAt_again (hkind : ownedShape kind = .markerBlock)
    (h : planInstallAt crates desired kind host project force nodes = .ok planned)
    (hlook : lookAt crates kind host project nodes = .ok look)
    (htext : look.text = before ++ block ++ after) (hblock : Canonical kind block)
    (hbefore : MarkerFree kind before) (hafter : MarkerFree kind after)
    {receipt : InstructionReceipt} (hreceipt : look.receipt = some receipt)
    (howned : receipt.ownedBlock = block) :
    (desired = block ∧ planned.plan.action = .alreadyInstalled)
      ∨ desired ≠ block
        ∧ Installs crates kind desired look (before ++ desired ++ after) [] planned.plan := by
  have hfind := htext ▸ findOwnedBlock_around hkind hblock hbefore hafter
  rcases planInstallAt_eq_ok hkind h hlook hfind with
    hadopts | ⟨hsame, -, haction⟩ | ⟨hother, updated, separator, hinstalled, hinstalls⟩
  · unfold adopts at hadopts
    rw [hkind, hreceipt] at hadopts
    simp at hadopts
  · exact .inl ⟨(Option.some.inj hsame).symm, haction⟩
  · obtain ⟨-, -, hinstalled⟩ := except_bind_eq_ok.mp hinstalled
    cases hinstalled
    have hplace := @Text.find_append _ before block after (markers_ne hkind).1
      (markerStart_unbordered kind) hblock.begins hbefore.start
    have hreplaced : Text.replaceFirst block desired look.text = before ++ desired ++ after := by
      rw [htext]
      unfold Text.replaceFirst
      rw [hplace]
      show List.take _ _ ++ desired ++ List.drop _ _ = _
      rw [← List.length_append, List.drop_left, List.append_assoc before block, List.take_left]
    rw [hreplaced] at hinstalls
    refine .inr ⟨?_, hinstalls⟩
    rintro rfl
    rw [hreceipt] at hother
    exact hother ⟨rfl, beq_iff_eq.mpr howned⟩

/-! ## Runs -/

/-- The block, and what the user has around it. -/
structure Kept where
  above : Text
  /-- what the first install put between the text and the block -/
  separator : Text
  block : Text
  below : Text
  /-- whether an install has replaced the block by another one -/
  updated : Bool
  /-- whether the first install made the file -/
  created : Bool

namespace Kept

def text (kept : Kept) : Text := kept.above ++ kept.separator ++ kept.block ++ kept.below

/-- The user's part of the text. -/
def users (kept : Kept) : Text := kept.above ++ kept.below

/-- The separator that the receipt names. -/
def recorded (kept : Kept) : Text := if kept.updated then [] else kept.separator

end Kept

/-- A first install into a text without markers; then installs of blocks of any version, and
edits outside the block and its separator. -/
inductive History (crates : Crates) (kind : InstructionTarget) (host : Option Host)
    (project : PosixPath) : Kept → Nodes → Prop where
  | install {nodes : Nodes} {text desired : Text} {force : Bool} {planned : Planned}
      (hreceipt : receiptIn crates nodes.receipt = none) (htext : textIn nodes.target = some text)
      (hfree : MarkerFree kind text) (hdesired : Canonical kind desired)
      (hplan : planInstallAt crates desired kind host project force nodes = .ok planned) :
      History crates kind host project
        { above := text, separator := Hosts.separatorOf text, block := desired, below := []
          updated := false, created := (bytesIn nodes.target).isNone }
        (InstructionPlan.after crates.receipts planned.plan nodes)
  | update {kept : Kept} {nodes : Nodes} {desired : Text} {force : Bool} {planned : Planned}
      (history : History crates kind host project kept nodes) (hdesired : Canonical kind desired)
      (hplan : planInstallAt crates desired kind host project force nodes = .ok planned) :
      History crates kind host project
        { kept with block := desired, updated := kept.updated || desired != kept.block }
        (InstructionPlan.after crates.receipts planned.plan nodes)
  | edit {kept : Kept} {nodes : Nodes} {above below : Text} {mode : Nat}
      (history : History crates kind host project kept nodes)
      (habove : MarkerFree kind above) (hbelow : MarkerFree kind below) :
      History crates kind host project { kept with above, below }
        { nodes with
          target := some (.file (Text.utf8 ({ kept with above, below } : Kept).text) mode) }

/-- What every state of a run is. -/
structure Holds (crates : Crates) (kind : InstructionTarget) (kept : Kept) (nodes : Nodes) :
    Prop where
  target : ∃ mode, nodes.target = some (.file (Text.utf8 kept.text) mode)
  receipt : ∃ receipt, receiptIn crates nodes.receipt = some receipt
    ∧ receipt.ownedBlock = kept.block ∧ receipt.separator = kept.recorded
    ∧ receipt.fileCreated = kept.created
  canonical : Canonical kind kept.block
  above : MarkerFree kind kept.above
  newlines : ∀ c ∈ kept.separator, c = '\n'
  below : MarkerFree kind kept.below
  created : kept.created = true → kept.separator = []

variable {kept : Kept}

theorem textIn_file (text : Text) (mode : Nat) :
    textIn (some (.file (Text.utf8 text) mode)) = some text :=
  Utf8.decode_utf8 text

theorem holds_install (hcrates : crates.Lawful) (hkind : ownedShape kind = .markerBlock)
    {text : Text} (hreceipt : receiptIn crates nodes.receipt = none)
    (htext : textIn nodes.target = some text) (hfree : MarkerFree kind text)
    (hdesired : Canonical kind desired)
    (hplan : planInstallAt crates desired kind host project force nodes = .ok planned) :
    Holds crates kind
      { above := text, separator := Hosts.separatorOf text, block := desired, below := []
        updated := false, created := (bytesIn nodes.target).isNone }
      (InstructionPlan.after crates.receipts planned.plan nodes) := by
  obtain ⟨look, hlook, -⟩ := except_bind_eq_ok.mp hplan
  have hlooked := lookAt_eq_ok hlook
  obtain rfl : look.text = text := Option.some.inj (hlooked.text.symm.trans htext)
  have hinstalls := planInstallAt_new hkind hplan hlook hfree
  obtain ⟨htarget, hwritten⟩ := hinstalls.leaves hcrates
  have hnone : look.receipt = none := hlooked.receipt.trans hreceipt
  refine ⟨?_, ⟨_, hwritten, rfl, rfl, ?_⟩, hdesired, hfree, newlines_separatorOf _, ?_, ?_⟩
  · rw [Kept.text, List.append_nil]
    exact htarget
  · rw [installReceipt, hnone, ← hlooked.bytes]
    rfl
  · obtain ⟨hstartNe, hstopNe⟩ := markers_ne hkind
    exact ⟨(Text.matchIndices_eq_nil hstartNe).mp rfl, (Text.matchIndices_eq_nil hstopNe).mp rfl⟩
  · intro hcreated
    have hempty : textIn nodes.target = some [] := by
      unfold textIn
      rw [Option.isNone_iff_eq_none.mp hcreated]
      rfl
    rw [htext, Option.some.injEq] at hempty
    show Hosts.separatorOf look.text = []
    rw [hempty]
    rfl

theorem Holds.looked (h : Holds crates kind kept nodes)
    (hlook : lookAt crates kind host project nodes = .ok look) :
    look.text = kept.text ∧ look.receipt = receiptIn crates nodes.receipt := by
  have hlooked := lookAt_eq_ok hlook
  obtain ⟨mode, htarget⟩ := h.target
  have htext := hlooked.text
  rw [htarget, textIn_file, Option.some.injEq] at htext
  exact ⟨htext.symm, hlooked.receipt⟩

theorem holds_update (hcrates : crates.Lawful) (hkind : ownedShape kind = .markerBlock)
    (h : Holds crates kind kept nodes) (hdesired : Canonical kind desired)
    (hplan : planInstallAt crates desired kind host project force nodes = .ok planned) :
    Holds crates kind
      { kept with block := desired, updated := kept.updated || desired != kept.block }
      (InstructionPlan.after crates.receipts planned.plan nodes) := by
  obtain ⟨look, hlook, -⟩ := except_bind_eq_ok.mp hplan
  obtain ⟨htext, hread⟩ := h.looked hlook
  obtain ⟨receipt, hreceipt, howned, hseparator, hcreated⟩ := h.receipt
  rw [hreceipt] at hread
  have hbefore := h.above.separated hkind h.newlines
  rcases planInstallAt_again hkind hplan hlook htext h.canonical hbefore h.below hread howned with
    ⟨rfl, haction⟩ | ⟨hnew, hinstalls⟩
  · have hafter : InstructionPlan.after crates.receipts planned.plan nodes = nodes := by
      unfold InstructionPlan.after
      rw [haction]
      rfl
    have hkept : ({ kept with updated := kept.updated || kept.block != kept.block } : Kept)
        = kept := by
      rw [bne_self_eq_false, Bool.or_false]
    rw [hafter]
    show Holds crates kind
      { kept with updated := kept.updated || kept.block != kept.block } nodes
    rw [hkept]
    exact h
  · obtain ⟨htarget, hwritten⟩ := hinstalls.leaves hcrates
    have hupdated : (kept.updated || desired != kept.block) = true := by
      rw [bne_iff_ne.mpr hnew, Bool.or_true]
    rw [hupdated]
    refine ⟨htarget, ⟨_, hwritten, rfl, rfl, ?_⟩, hdesired, h.above, h.newlines, h.below, h.created⟩
    rw [installReceipt, hread]
    exact hcreated

/-- Every state of a run holds the block between the user's texts, and a receipt of it. -/
theorem holds_history (hcrates : crates.Lawful) (hkind : ownedShape kind = .markerBlock)
    (history : History crates kind host project kept nodes) : Holds crates kind kept nodes := by
  induction history with
  | install hreceipt htext hfree hdesired hplan =>
    exact holds_install hcrates hkind hreceipt htext hfree hdesired hplan
  | update _ hdesired hplan ih => exact holds_update hcrates hkind ih hdesired hplan
  | edit _ habove hbelow ih =>
    exact ⟨⟨_, rfl⟩, ih.receipt, ih.canonical, habove, ih.newlines, hbelow, ih.created⟩

/-! ## Removals -/

/-- A structural removal cuts the block out, with the separator that the receipt names. -/
theorem planRemoveAt_structural (hkind : ownedShape kind = .markerBlock)
    (h : planRemoveAt crates kind host project force nodes = .ok planned)
    (hrestore : planned.plan.restore = some .structural)
    (hlook : lookAt crates kind host project nodes = .ok look)
    (hfind : findOwnedBlock look.text kind = .ok (some block)) :
    ∃ receipt removed, look.receipt = some receipt
      ∧ removeBlock look.text block receipt.separator .markerBlock = .ok removed
      ∧ planned.plan = structuralPlan kind look receipt removed := by
  obtain ⟨_, hlook', h⟩ := except_bind_eq_ok.mp h
  rw [hlook] at hlook'
  cases hlook'
  obtain ⟨_, hcurrent, h⟩ := except_bind_eq_ok.mp h
  unfold currentOwned at hcurrent
  rw [hkind, hfind] at hcurrent
  cases hcurrent
  split at h
  next =>
    obtain ⟨-, -, h⟩ := except_bind_eq_ok.mp h
    cases h
    cases hrestore
  next receipt hreceipt =>
    rw [if_neg (by rw [hkind]; simp)] at h
    obtain ⟨-, -, h⟩ := except_bind_eq_ok.mp h
    obtain ⟨backup, -, h⟩ := except_bind_eq_ok.mp h
    split at h
    next =>
      cases h
      cases hrestore
    next =>
      obtain ⟨removed, hremoved, h⟩ := except_bind_eq_ok.mp h
      rw [hkind] at hremoved
      cases h
      exact ⟨receipt, removed, hreceipt, hremoved, rfl⟩

theorem removeBlock_around {separator removed : Text} (hkind : ownedShape kind = .markerBlock)
    (hblock : Canonical kind block) (hbefore : MarkerFree kind before)
    (h : removeBlock (before ++ block ++ after) block separator .markerBlock = .ok removed) :
    ∃ separated, separatorBefore separator before = .ok separated
      ∧ removed = (if separated then before.take (before.length - separator.length) else before)
        ++ after := by
  have hplace := @Text.find_append _ before block after (markers_ne hkind).1
    (markerStart_unbordered kind) hblock.begins hbefore.start
  unfold removeBlock at h
  rw [hplace] at h
  simp only at h
  obtain ⟨-, -, h⟩ := except_bind_eq_ok.mp h
  rw [← List.length_append, List.drop_left, List.append_assoc before block, List.take_left] at h
  obtain ⟨separated, hseparated, h⟩ := except_bind_eq_ok.mp h
  cases h
  exact ⟨separated, hseparated, rfl⟩

/-- What the receipt names of the separator is taken out with the block. -/
theorem removed_eq {removed : Text} (hkind : ownedShape kind = .markerBlock)
    (h : Holds crates kind kept nodes)
    (hremoved : removeBlock kept.text kept.block kept.recorded .markerBlock = .ok removed) :
    removed = kept.above ++ (if kept.updated then kept.separator else []) ++ kept.below := by
  have hbefore := h.above.separated hkind h.newlines
  obtain ⟨separated, hseparated, rfl⟩ := removeBlock_around hkind h.canonical hbefore hremoved
  unfold Kept.recorded at *
  by_cases hupdated : kept.updated = true
  · rw [if_pos hupdated] at hseparated ⊢
    cases hseparated
    rw [if_pos hupdated]
    rfl
  · rw [if_neg hupdated] at hseparated ⊢
    rw [if_neg hupdated, List.append_nil]
    congr 1
    cases hput : kept.separator with
    | nil =>
      rw [hput] at hseparated
      cases hseparated
      simp
    | cons c rest =>
      rw [← hput]
      have hends := Text.endsBefore_eq_true.mpr (List.suffix_append kept.above kept.separator)
      have htrue : separated = true := by
        unfold separatorBefore at hseparated
        rw [if_neg (by rw [hput]; simp), hends] at hseparated
        cases hseparated
        rfl
      rw [htrue, if_pos rfl, List.length_append, Nat.add_sub_cancel, List.take_left]

/-- A file of the manager's in which nothing of the user's is left goes as a whole. -/
def Kept.emptied (kept : Kept) : Prop :=
  kept.created = true ∧ kept.users.all Text.isWhitespace = true

instance (kept : Kept) : Decidable kept.emptied := inferInstanceAs (Decidable (_ ∧ _))

/-- The text that a structural removal leaves. -/
theorem textIn_removed (hkind : ownedShape kind = .markerBlock)
    (h : Holds crates kind kept nodes)
    (hplan : planRemoveAt crates kind host project force nodes = .ok planned)
    (hrestore : planned.plan.restore = some .structural) :
    textIn (InstructionPlan.after crates.receipts planned.plan nodes).target
      = some (if kept.emptied then []
        else kept.above ++ (if kept.updated then kept.separator else []) ++ kept.below) := by
  obtain ⟨look, hlook, -⟩ := except_bind_eq_ok.mp hplan
  obtain ⟨htext, hread⟩ := h.looked hlook
  obtain ⟨receipt, hreceipt, -, hseparator, hcreated⟩ := h.receipt
  rw [hreceipt] at hread
  have hfind : findOwnedBlock look.text kind = .ok (some kept.block) := by
    rw [htext]
    exact findOwnedBlock_around hkind h.canonical (h.above.separated hkind h.newlines) h.below
  obtain ⟨_, removed, hread', hremoved, hremovedPlan⟩ :=
    planRemoveAt_structural hkind hplan hrestore hlook hfind
  rw [hread, Option.some.injEq] at hread'
  cases hread'
  rw [htext, hseparator] at hremoved
  have hleft := removed_eq hkind h hremoved
  have hafter : (InstructionPlan.after crates.receipts planned.plan nodes).target
      = written (structuralPlan kind look receipt removed) nodes.target := by
    rw [hremovedPlan]
    rfl
  rw [hafter]
  by_cases hemptied : kept.emptied
  · have hsame : removed = kept.users := by
      rw [hleft, h.created hemptied.1, ite_self, List.append_nil]
      rfl
    rw [if_pos hemptied]
    unfold written structuralPlan
    rw [hcreated, hsame, hemptied.1, hemptied.2]
    rfl
  · rw [if_neg hemptied, ← hleft]
    have hkeep : ¬((receipt.fileCreated && removed.all Text.isWhitespace) = true) := by
      rw [hcreated, Bool.and_eq_true]
      rintro ⟨hmade, hblank⟩
      rw [hleft, h.created hmade, ite_self, List.append_nil] at hblank
      exact hemptied ⟨hmade, hblank⟩
    have hshape : ¬(ownedShape kind = .wholeFile ∧ receipt.fileCreated = false) := by
      rw [hkind]
      rintro ⟨hwhole, -⟩
      cases hwhole
    unfold written structuralPlan
    simp only [if_neg hkeep, if_neg hshape]
    exact textIn_file _ _

/-! ## Top theorem -/

/-- A structural removal after any run leaves the user's text with its edits exactly where the
first install put nothing before the block, or no install replaced the block since; but white
space of the user's goes with a file that the manager made. -/
theorem structural_remove_iff (hcrates : crates.Lawful) (hkind : ownedShape kind = .markerBlock)
    (history : History crates kind host project kept nodes)
    (hplan : planRemoveAt crates kind host project force nodes = .ok planned)
    (hrestore : planned.plan.restore = some .structural) :
    textIn (InstructionPlan.after crates.receipts planned.plan nodes).target = some kept.users
      ↔ (kept.separator = [] ∨ kept.updated = false) ∧ (kept.emptied → kept.users = []) := by
  have h := holds_history hcrates hkind history
  rw [textIn_removed hkind h hplan hrestore, Option.some.injEq]
  by_cases hemptied : kept.emptied
  · rw [if_pos hemptied]
    constructor
    · intro husers
      exact ⟨.inl (h.created hemptied.1), fun _ => husers.symm⟩
    · rintro ⟨-, husers⟩
      exact (husers hemptied).symm
  · rw [if_neg hemptied]
    unfold Kept.users
    rw [List.append_left_inj]
    constructor
    · intro habove
      refine ⟨?_, fun h => absurd h hemptied⟩
      by_cases hupdated : kept.updated = true
      · rw [if_pos hupdated] at habove
        have hlength := congrArg List.length habove
        rw [List.length_append] at hlength
        exact .inl (List.eq_nil_of_length_eq_zero (by omega))
      · exact .inr (Bool.eq_false_iff.mpr hupdated)
    · rintro ⟨hput | hfirst, -⟩
      · rw [hput, ite_self, List.append_nil]
      · rw [hfirst]
        simp

end

/-! ## A run -/

namespace BlockSample

def shapeText : OwnedShape → Text
  | .markerBlock => "marker_block".toList
  | .wholeFile => "whole_file".toList

def targetOf (text : Text) : InstructionTarget :=
  ([InstructionTarget.agents, .claude, .cursor].find? fun kind => kind.asStr = text).getD .skill

def receiptMembers (receipt : InstructionReceipt) : Members := [
  ("version".toList, .number (.posInt receipt.version)),
  ("owner".toList, .string receipt.owner),
  ("target".toList, .string receipt.target.asStr),
  ("shape".toList, .string (shapeText receipt.shape)),
  ("owned_sha256".toList, .string receipt.ownedSha256),
  ("owned_block".toList, .string receipt.ownedBlock),
  ("pre_sha256".toList, .string receipt.preSha256),
  ("post_sha256".toList, .string receipt.postSha256),
  ("separator".toList, .string receipt.separator),
  ("file_created".toList, .bool receipt.fileCreated),
  ("adopted".toList, .bool receipt.adopted)]

/-- A receipt whose members are in the order in which they are written. -/
def ofValue : Value → Option InstructionReceipt
  | .object [(_, .number (.posInt version)), (_, .string owner), (_, .string target),
      (_, .string shape), (_, .string ownedSha256), (_, .string ownedBlock),
      (_, .string preSha256), (_, .string postSha256), (_, .string separator),
      (_, .bool fileCreated), (_, .bool adopted)] =>
    some { version, owner, target := targetOf target,
           shape := if shape = shapeText .wholeFile then .wholeFile else .markerBlock,
           ownedSha256, ownedBlock, preSha256, postSha256, separator, fileCreated, adopted }
  | _ => none

def digestBytes (bytes : Bytes) : Text :=
  (toString (bytes.data.toList.foldl (fun n b => (31 * n + b.toNat) % 2 ^ 64) 1)).toList

def crates : Crates where
  receipts :=
    { digestBytes
      toVecPretty := fun receipt =>
        some ⟨(JsonWriter.crate.toVecPretty (.object (receiptMembers receipt))).toArray⟩ }
  fromSlice := fun bytes => (JsonWriter.crate.fromSlice bytes).bind ofValue

theorem ofValue_members (receipt : InstructionReceipt) :
    ofValue (.object (receiptMembers receipt)) = some receipt := by
  obtain ⟨_, _, target, shape, _, _, _, _, _, _, _⟩ := receipt
  cases target <;> cases shape <;> rfl

/-- The values of a receipt are a number and texts. -/
theorem forall_receiptMembers {p : Value → Prop} {receipt : InstructionReceipt}
    (hnumber : p (.number (.posInt receipt.version))) (hstring : ∀ s, p (.string s))
    (hbool : ∀ b, p (.bool b)) : ∀ m ∈ receiptMembers receipt, p m.2 := by
  simp only [receiptMembers, List.forall_mem_cons, List.not_mem_nil, false_implies, implies_true,
    and_true]
  exact ⟨hnumber, hstring _, hstring _, hstring _, hstring _, hstring _, hstring _, hstring _,
    hstring _, hbool _, hbool _⟩

theorem crates_lawful : crates.Lawful where
  encodes _ := rfl
  reads receipt bytes hversion hbytes := by
    have hkeys : ((receiptMembers receipt).map Prod.fst).Nodup := by
      show ["version".toList, "owner".toList, "target".toList, "shape".toList,
        "owned_sha256".toList, "owned_block".toList, "pre_sha256".toList, "post_sha256".toList,
        "separator".toList, "file_created".toList, "adopted".toList].Nodup
      decide
    have hmachine : (Number.posInt receipt.version).isMachine = true := by
      rw [hversion]
      decide
    have hread := JsonWriter.crate_lawful.reads (.object (receiptMembers receipt))
      (.object hkeys (forall_receiptMembers (.number _) .string .bool))
      (.object (n := recursionLimit - 1)
        (forall_receiptMembers (.number hmachine) .string .bool))
    have hfree : (Value.object (receiptMembers receipt)).FloatFree :=
      .object (forall_receiptMembers (.posInt _) .string .bool)
    rw [Value.mapFloats_floatFree hfree] at hread
    cases hbytes
    show (JsonWriter.crate.serde.fromStr _).bind ofValue = _
    have hpush : ((⟨(JsonWriter.crate.toVecPretty (.object (receiptMembers receipt))).toArray⟩ :
        Bytes).push 10).data.toList
        = JsonWriter.crate.toVecPretty (.object (receiptMembers receipt)) ++ [10] := by
      simp
    rw [hpush, hread, Option.bind_some, ofValue_members]

def project : PosixPath := ⟨true, [.normal "work".toList]⟩

/-- The block of one version. -/
def blockOf (body : String) : Text :=
  markerStart .agents ++ ['\n'] ++ body.toList ++ ['\n'] ++ markerEnd .agents ++ ['\n']

/-- A text without a newline at its end. -/
def text : Text := ['n', 'o', 't', 'e']

def start : Nodes where
  target := some (.file (Text.utf8 text) 0o644)
  receipt := none
  backup := none

def planned (desired : Text) (nodes : Nodes) : Result Planned :=
  planInstallAt crates desired .agents none project false nodes

def installed (desired : Text) (nodes : Nodes) : Nodes :=
  match planned desired nodes with
  | .ok planned => InstructionPlan.after crates.receipts planned.plan nodes
  | .error _ => nodes

theorem planned_installed {desired : Text} {nodes : Nodes}
    (h : (planned desired nodes).toOption.isSome = true) :
    ∃ plan, planInstallAt crates desired .agents none project false nodes = .ok plan
      ∧ InstructionPlan.after crates.receipts plan.plan nodes = installed desired nodes := by
  unfold installed
  cases hplan : planned desired nodes with
  | error error =>
    rw [hplan] at h
    cases h
  | ok plan => exact ⟨plan, hplan, rfl⟩

def first : Nodes := installed (blockOf "one") start

def second : Nodes := installed (blockOf "two") first

def removal : Result Planned := planRemoveAt crates .agents none project false second

theorem run_checked :
    (Text.matchIndices (markerStart .agents) (blockOf "one")).length = 1
      ∧ (Text.matchIndices (markerEnd .agents) (blockOf "one")).length = 1
      ∧ (Text.matchIndices (markerStart .agents) (blockOf "two")).length = 1
      ∧ (Text.matchIndices (markerEnd .agents) (blockOf "two")).length = 1
      ∧ Text.Free (markerStart .agents) text ∧ Text.Free (markerEnd .agents) text
      ∧ (planned (blockOf "one") start).toOption.isSome = true
      ∧ (planned (blockOf "two") first).toOption.isSome = true
      ∧ removal.toOption.map (·.plan.restore) = some (some .structural) := by
  decide +kernel

theorem canonical_blockOf {body : String}
    (hstart : (Text.matchIndices (markerStart .agents) (blockOf body)).length = 1)
    (hstop : (Text.matchIndices (markerEnd .agents) (blockOf body)).length = 1) :
    Canonical .agents (blockOf body) where
  begins := ⟨['\n'] ++ body.toList ++ ['\n'] ++ markerEnd .agents ++ ['\n'], by simp [blockOf]⟩
  ends := ⟨markerStart .agents ++ ['\n'] ++ body.toList ++ ['\n'], by simp [blockOf]⟩
  startOnce := hstart
  stopOnce := hstop

/-- What is kept through the first install and the update. -/
def kept : Kept where
  above := text
  separator := Hosts.separatorOf text
  block := blockOf "two"
  below := []
  updated := true
  created := false

theorem run_history :
    History crates .agents none project kept second
      ∧ ∃ planned, removal = .ok planned ∧ planned.plan.restore = some .structural := by
  obtain ⟨hstartOne, hstopOne, hstartTwo, hstopTwo, hfreeStart, hfreeStop, hone, htwo, hremoval⟩ :=
    run_checked
  have hcanonical := canonical_blockOf hstartOne hstopOne
  obtain ⟨planned, hplan, hafter⟩ := planned_installed hone
  have hfirst : History crates .agents none project
      { kept with block := blockOf "one", updated := false } first := by
    unfold first
    rw [← hafter]
    exact .install rfl (textIn_file text 0o644) ⟨hfreeStart, hfreeStop⟩ hcanonical hplan
  obtain ⟨planned', hplan', hafter'⟩ := planned_installed htwo
  constructor
  · have hsecond := hfirst.update (canonical_blockOf hstartTwo hstopTwo) hplan'
    rw [hafter'] at hsecond
    have hnew : (blockOf "two" != blockOf "one") = true := by
      rw [bne_iff_ne]
      intro hsame
      simp [blockOf] at hsame
    rw [hnew] at hsecond
    exact hsecond
  · cases hplanned : removal with
    | error error =>
      rw [hplanned] at hremoval
      cases hremoval
    | ok planned =>
      rw [hplanned] at hremoval
      exact ⟨planned, rfl, Option.some.inj hremoval⟩

end BlockSample

section

open BlockSample

theorem structural_remove_updated : ∃ planned, removal = .ok planned
    ∧ textIn (InstructionPlan.after crates.receipts planned.plan second).target ≠ some text := by
  obtain ⟨hhistory, planned, hplanned, hrestore⟩ := run_history
  refine ⟨planned, hplanned, fun htext => ?_⟩
  obtain ⟨hput | hfirst, -⟩ := (structural_remove_iff crates_lawful rfl hhistory hplanned
    hrestore).mp (htext.trans (by rfl))
  · revert hput
    decide
  · cases hfirst

/-- After an update the separator of the first install stays. -/
theorem structural_remove_separator :
    ¬ ∀ kept nodes planned, History crates .agents none project kept nodes →
      planRemoveAt crates .agents none project false nodes = .ok planned →
      planned.plan.restore = some .structural →
      textIn (InstructionPlan.after crates.receipts planned.plan nodes).target
        = some kept.users := by
  obtain ⟨hhistory, planned, hplanned, hrestore⟩ := run_history
  intro h
  have htext := h _ _ _ hhistory hplanned hrestore
  rw [textIn_removed rfl (holds_history crates_lawful rfl hhistory) hplanned hrestore] at htext
  revert htext
  decide

end

end Kaleidoscope.Instructions
