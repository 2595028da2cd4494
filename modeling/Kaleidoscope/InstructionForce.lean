import Kaleidoscope.Instructions

/-!
# What `--force` does for a block

A change that is refused with a message that names `--force`, made again with it.

    force_progress_iff   when the forced change is not refused
-/

namespace Kaleidoscope.Instructions

open Prog Disk

/-- The message of an error holds the flag. -/
def NamesForce (error : ManagerError) : Prop :=
  Text.contains error.message "--force".toList = true

instance (error : ManagerError) : Decidable (NamesForce error) :=
  inferInstanceAs (Decidable (_ = true))

/-- A message that ends with the flag holds it. -/
theorem namesForce_of_suffix {text pre : Text} (h : "--force".toList <:+ text) :
    NamesForce (.hostConflict (String.ofList (pre ++ text))) := by
  obtain ⟨head, rfl⟩ := h
  have hmessage : (ManagerError.hostConflict
      (String.ofList (pre ++ (head ++ "--force".toList)))).message
      = "host configuration conflict: ".toList ++ pre ++ head ++ "--force".toList := by
    rw [List.append_assoc, List.append_assoc]
    exact congrArg (_ ++ ·) String.toList_ofList
  unfold NamesForce
  rw [hmessage, Text.contains_iff]
  exact ⟨_, by rw [List.drop_left]⟩

section

variable {crates : Crates} {desired : Text} {kind : InstructionTarget} {host : Option Host}
  {project : PosixPath} {nodes : Nodes} {error : ManagerError} {text block : Text}

/-! ## Errors that do not name it -/

theorem snapshotOf_error {digestBytes : Bytes → Text} {maximum : Nat} {name : String}
    {node : Option Node} (h : snapshotOf digestBytes maximum name node = .error error) :
    error = .unsafePath name "selected file is a symlink"
      ∨ error = .unsafePath name "not a bounded regular file" := by
  unfold snapshotOf at h
  split at h
  · cases h
  · cases h
    exact .inl rfl
  · split at h
    · cases h
      exact .inr rfl
    · cases h
  · cases h
    exact .inr rfl

theorem snapshotOf_quiet {digestBytes : Bytes → Text} {maximum : Nat} {name : String}
    {node : Option Node} (h : snapshotOf digestBytes maximum name node = .error error)
    (hname : name ∈ ["agent instruction file", "instruction owner receipt", "instruction backup"]) :
    ¬NamesForce error := by
  have hlink : ∀ name ∈ ["agent instruction file", "instruction owner receipt",
      "instruction backup"], ¬NamesForce (.unsafePath name "selected file is a symlink") := by
    decide
  have hlarge : ∀ name ∈ ["agent instruction file", "instruction owner receipt",
      "instruction backup"], ¬NamesForce (.unsafePath name "not a bounded regular file") := by
    decide
  rcases snapshotOf_error h with rfl | rfl
  · exact hlink name hname
  · exact hlarge name hname

theorem siblingPath_quiet {path : PosixPath} {suffix : String}
    (h : siblingPath path suffix = .error error) : ¬NamesForce error := by
  unfold siblingPath at h
  split at h
  · cases h
  · cases h
    decide

theorem instructionPath_quiet (hkind : ownedShape kind = .markerBlock)
    (h : instructionPath kind host project = .error error) : ¬NamesForce error := by
  rcases except_bind_eq_error.mp h with h | ⟨_, -, h⟩
  · obtain ⟨-, rfl⟩ := rejectIf_eq_error.mp h
    decide
  · cases kind with
    | skill => cases hkind
    | agents | claude | cursor => cases h

theorem invalidOwnerReceipt_quiet : ¬NamesForce .invalidOwnerReceipt := by
  unfold NamesForce
  dsimp only [ManagerError.message]
  rw [String.toList_ofList, String.toList_ofList, String.toList_ofList, String.toList_ofList,
    String.toList_ofList, String.toList_ofList]
  decide +kernel

theorem decodeReceipt_quiet {snapshot : Snapshot}
    (h : decodeReceipt crates snapshot kind = .error error) : ¬NamesForce error := by
  unfold decodeReceipt at h
  split at h
  · cases h
  · split at h
    · cases h
      exact invalidOwnerReceipt_quiet
    · rcases except_bind_eq_error.mp h with h | ⟨_, -, h⟩
      · rcases except_bind_eq_error.mp h with h | ⟨_, -, h⟩
        · obtain ⟨-, rfl⟩ := rejectIf_eq_error.mp h
          exact invalidOwnerReceipt_quiet
        · obtain ⟨-, rfl⟩ := rejectIf_eq_error.mp h
          exact invalidOwnerReceipt_quiet
      · cases h

theorem snapshotText_quiet {snapshot : Snapshot} (h : snapshotText snapshot = .error error) :
    ¬NamesForce error := by
  unfold snapshotText at h
  split at h
  · cases h
    decide
  · cases h

/-- What is read first is refused without a word of it. -/
theorem lookAt_quiet (hkind : ownedShape kind = .markerBlock)
    (h : lookAt crates kind host project nodes = .error error) : ¬NamesForce error := by
  rcases except_bind_eq_error.mp h with h | ⟨_, -, h⟩
  · exact instructionPath_quiet hkind h
  rcases except_bind_eq_error.mp h with h | ⟨_, -, h⟩
  · exact siblingPath_quiet h
  rcases except_bind_eq_error.mp h with h | ⟨_, -, h⟩
  · exact siblingPath_quiet h
  rcases except_bind_eq_error.mp h with h | ⟨_, -, h⟩
  · exact snapshotOf_quiet h (by decide)
  rcases except_bind_eq_error.mp h with h | ⟨_, -, h⟩
  · exact snapshotOf_quiet h (by decide)
  rcases except_bind_eq_error.mp h with h | ⟨_, -, h⟩
  · exact decodeReceipt_quiet h
  rcases except_bind_eq_error.mp h with h | ⟨_, -, h⟩
  · exact snapshotText_quiet h
  cases h

theorem findOwnedBlock_error (h : findOwnedBlock text kind = .error error) :
    error = duplicatedMarker := by
  unfold findOwnedBlock at h
  split at h
  · cases h
  · simp only at h
    split at h
    · cases h
    · cases h
      rfl
  · cases h
    rfl

theorem currentOwned_quiet {receipt : Option InstructionReceipt}
    (hkind : ownedShape kind = .markerBlock)
    (h : currentOwned text kind receipt false = .error error) : ¬NamesForce error := by
  unfold currentOwned at h
  rw [hkind] at h
  simp only [Bool.false_eq_true, if_false] at h
  split at h
  · cases h
  next found hfound =>
    cases h
    rw [findOwnedBlock_error hfound]
    decide

theorem currentOwned_ok {receipt : Option InstructionReceipt} {current : Option Text}
    (hkind : ownedShape kind = .markerBlock) (h : findOwnedBlock text kind = .ok current)
    (force : Bool) : currentOwned text kind receipt force = .ok current := by
  unfold currentOwned
  rw [hkind, h]

theorem findOwnedBlock_of_currentOwned {receipt : Option InstructionReceipt}
    {current : Option Text} (hkind : ownedShape kind = .markerBlock)
    (h : currentOwned text kind receipt false = .ok current) :
    findOwnedBlock text kind = .ok current := by
  unfold currentOwned at h
  rw [hkind] at h
  simp only [Bool.false_eq_true, if_false] at h
  split at h
  next found hfound => rw [hfound, h]
  · cases h

/-! ## The block that the markers delimit -/

theorem markerStart_ne (hkind : ownedShape kind = .markerBlock) : markerStart kind ≠ [] := by
  cases kind with
  | skill => cases hkind
  | agents | claude | cursor =>
    dsimp only [markerStart]
    rw [String.toList_ofList]
    exact List.cons_ne_nil _ _

theorem markerEnd_ne (hkind : ownedShape kind = .markerBlock) : markerEnd kind ≠ [] := by
  cases kind with
  | skill => cases hkind
  | agents | claude | cursor =>
    dsimp only [markerEnd]
    rw [String.toList_ofList]
    exact List.cons_ne_nil _ _

/-- The end marker does not begin within the first characters of the start marker. -/
theorem markerEnd_apart (hkind : ownedShape kind = .markerBlock) : ∀ k < (markerStart kind).length,
    0 < k → k + (markerEnd kind).length < (markerStart kind).length →
      (markerStart kind)[k]? ≠ (markerEnd kind).head? := by
  cases kind with
  | skill => cases hkind
  | agents | claude | cursor =>
    dsimp only [markerStart, markerEnd]
    rw [String.toList_ofList, String.toList_ofList]
    decide +kernel

theorem getElem?_of_isPrefixOf {p t : Text} {k : Nat} (h : p <+: t) (hk : k < p.length) :
    t[k]? = p[k]? := by
  obtain ⟨rest, rfl⟩ := h
  rw [List.getElem?_append_left hk]

/-- The block begins with the start marker, at the one place where that is. -/
theorem findOwnedBlock_eq_some (hkind : ownedShape kind = .markerBlock)
    (h : findOwnedBlock text kind = .ok (some block)) :
    (Text.matchIndices (markerStart kind) text).length = 1 ∧ markerStart kind <+: block
      ∧ ∃ start, block <+: text.drop start := by
  unfold findOwnedBlock at h
  split at h
  next => cases h
  next start stop hstarts hstops =>
    simp only at h
    split at h
    next hlt =>
      rw [Except.ok.injEq, Option.some.injEq] at h
      have hstart : markerStart kind <+: text.drop start :=
        Text.prefix_of_mem (hstarts ▸ List.mem_singleton_self start)
      have hstop : markerEnd kind <+: text.drop stop :=
        Text.prefix_of_mem (hstops ▸ List.mem_singleton_self stop)
      have hblock : block <+: text.drop start := by
        rw [← h, List.drop_take]
        exact List.take_prefix _ _
      refine ⟨by rw [hstarts]; rfl, List.prefix_of_prefix_length_le hstart hblock ?_, start, hblock⟩
      -- otherwise the end marker begins within the start marker
      by_contra hshort
      have hpos : 0 < (markerEnd kind).length := List.length_pos_of_ne_nil (markerEnd_ne hkind)
      have hend := hstop.length_le
      have hfits := hstart.length_le
      have hlong : stop - start + (markerEnd kind).length ≤ block.length := by
        rw [List.length_drop] at hend hfits
        rw [← h, List.length_drop, List.length_take]
        split <;> omega
      have hne : (markerEnd kind).head? = text[stop]? := by
        have := getElem?_of_isPrefixOf hstop hpos
        rw [List.getElem?_drop, Nat.add_zero] at this
        rw [this, List.head?_eq_getElem?]
      refine markerEnd_apart hkind (stop - start) (by omega) (by omega) (by omega) ?_
      rw [hne, ← getElem?_of_isPrefixOf hstart (by omega), List.getElem?_drop,
        show start + (stop - start) = stop by omega]
    next => cases h
  next => cases h

theorem block_once (hkind : ownedShape kind = .markerBlock)
    (h : findOwnedBlock text kind = .ok (some block)) :
    (Text.matchIndices block text).length = 1 := by
  obtain ⟨hone, hbegins, start, hblock⟩ := findOwnedBlock_eq_some hkind h
  exact Text.matchIndices_single (markerStart_ne hkind) hbegins hone hblock

theorem block_ne (hkind : ownedShape kind = .markerBlock)
    (h : findOwnedBlock text kind = .ok (some block)) : block ≠ [] := by
  rintro rfl
  obtain ⟨-, hbegins, -⟩ := findOwnedBlock_eq_some hkind h
  exact markerStart_ne hkind (List.prefix_nil.mp hbegins)

theorem installBlock_ok (hkind : ownedShape kind = .markerBlock) {current : Option Text}
    (h : findOwnedBlock text kind = .ok current) :
    ∃ installed, installBlock text current desired (ownedShape kind) = .ok installed := by
  rw [hkind]
  cases current with
  | none => exact ⟨_, rfl⟩
  | some block =>
    have hone := block_once hkind h
    refine ⟨_, except_bind_eq_ok.mpr ⟨(), rejectIf_eq_ok.mpr (by omega), rfl⟩⟩

/-- The bytes before the block that are compared with the separator are those of characters. -/
def Sliceable (text block separator : Text) : Prop :=
  separator = [] ∨ ∀ start, Text.find block text = some start →
    (Text.endsBefore separator (text.take start)).isSome = true

theorem separatorBefore_ok_iff {separator before : Text} :
    (∃ separated, separatorBefore separator before = .ok separated)
      ↔ separator = [] ∨ (Text.endsBefore separator before).isSome = true := by
  unfold separatorBefore
  cases separator with
  | nil => exact iff_of_true ⟨false, rfl⟩ (.inl rfl)
  | cons c separator =>
    cases Text.endsBefore (c :: separator) before with
    | none =>
      refine iff_of_false ?_ (by simp)
      rintro ⟨_, h⟩
      cases h
    | some separated => exact iff_of_true ⟨separated, rfl⟩ (.inr rfl)

theorem removeBlock_ok_iff (hkind : ownedShape kind = .markerBlock) {separator : Text}
    (h : findOwnedBlock text kind = .ok (some block)) :
    (∃ removed, removeBlock text block separator (ownedShape kind) = .ok removed)
      ↔ Sliceable text block separator := by
  have hone := block_once hkind h
  obtain ⟨start, hmatches⟩ := List.length_eq_one_iff.mp hone
  have hfind : Text.find block text = some start := by
    unfold Text.find
    rw [hmatches]
    rfl
  have hafter := Text.not_contains_after (block_ne hkind h) hone hfind
  have hsliceable : Sliceable text block separator
      ↔ ∃ separated, separatorBefore separator (text.take start) = .ok separated := by
    rw [separatorBefore_ok_iff]
    unfold Sliceable
    simp only [hfind, Option.some.injEq, forall_eq']
  rw [hkind, hsliceable]
  unfold removeBlock
  simp only [hfind, hafter]
  constructor
  · rintro ⟨removed, h⟩
    obtain ⟨_, -, h⟩ := except_bind_eq_ok.mp h
    obtain ⟨separated, hseparated, -⟩ := except_bind_eq_ok.mp h
    exact ⟨separated, hseparated⟩
  · rintro ⟨separated, hseparated⟩
    exact ⟨_, except_bind_eq_ok.mpr ⟨(), rfl, except_bind_eq_ok.mpr ⟨separated, hseparated, rfl⟩⟩⟩

theorem separatorBefore_error {separator before : Text}
    (h : separatorBefore separator before = .error error) : error = .panicked := by
  unfold separatorBefore at h
  split at h
  · cases h
  · cases hends : Text.endsBefore separator before with
    | none =>
      rw [hends] at h
      cases h
      rfl
    | some =>
      rw [hends] at h
      cases h

theorem removeBlock_quiet {separator : Text} {shape : OwnedShape}
    (h : removeBlock text block separator shape = .error error) : ¬NamesForce error := by
  unfold removeBlock at h
  split at h
  · cases h
  · split at h
    · cases h
      exact invalidOwnerReceipt_quiet
    · rcases except_bind_eq_error.mp h with h | ⟨_, -, h⟩
      · obtain ⟨-, rfl⟩ := rejectIf_eq_error.mp h
        exact invalidOwnerReceipt_quiet
      · rcases except_bind_eq_error.mp h with h | ⟨_, -, h⟩
        · rw [separatorBefore_error h]
          decide
        · cases h

theorem ok_bind {α β : Type} (a : α) (f : α → Result β) : (Except.ok a >>= f) = f a := rfl

/-! ## Installs -/

variable {look : Look} {current : Option Text}

theorem unmanaged_of_adopts (hkind : ownedShape kind = .markerBlock)
    (h : adopts kind desired look current = true) : unmanaged kind look current = false := by
  unfold adopts at h
  rw [hkind] at h
  simp only [Bool.and_eq_true, beq_iff_eq] at h
  unfold unmanaged
  rw [h.2]
  simp

theorem installDiscards_eq (hkind : ownedShape kind = .markerBlock) (force : Bool) :
    installDiscards crates kind host desired force look current
      = if unmanaged kind look current then .error (unmarkedRule look.target) else .ok none := by
  unfold installDiscards
  rw [hkind]

/-- A forced install goes through unless the file is a rule of the user's. -/
theorem planInstallAt_forced_iff (hkind : ownedShape kind = .markerBlock)
    (hlook : lookAt crates kind host project nodes = .ok look)
    (hfind : findOwnedBlock look.text kind = .ok current) :
    (∃ planned, planInstallAt crates desired kind host project true nodes = .ok planned)
      ↔ unmanaged kind look current = false := by
  have hcurrent := @currentOwned_ok kind look.text look.receipt current hkind hfind true
  unfold planInstallAt
  constructor
  · rintro ⟨planned, h⟩
    obtain ⟨_, hlook', h⟩ := except_bind_eq_ok.mp h
    rw [hlook] at hlook'
    cases hlook'
    obtain ⟨_, hcurrent', h⟩ := except_bind_eq_ok.mp h
    rw [hcurrent] at hcurrent'
    cases hcurrent'
    split at h
    next hadopts => exact unmanaged_of_adopts hkind hadopts
    next =>
      obtain ⟨_, hdiscards, -⟩ := except_bind_eq_ok.mp h
      rw [installDiscards_eq hkind] at hdiscards
      split at hdiscards
      · cases hdiscards
      next hmanaged => exact Bool.eq_false_iff.mpr hmanaged
  · intro hmanaged
    rw [hlook, ok_bind, hcurrent, ok_bind]
    have hdiscards : installDiscards crates kind host desired true look current = .ok none := by
      rw [installDiscards_eq hkind, hmanaged]
      rfl
    obtain ⟨installed, hinstalled⟩ := @installBlock_ok desired kind look.text hkind current hfind
    rw [hdiscards, hinstalled]
    by_cases hadopts : adopts kind desired look current = true
    · rw [if_pos hadopts]
      exact ⟨_, rfl⟩
    · rw [if_neg hadopts]
      simp only [ok_bind, checkOwnership, if_true]
      split
      · exact ⟨_, rfl⟩
      · exact ⟨_, rfl⟩

theorem planInstallAt_refused (hkind : ownedShape kind = .markerBlock)
    (h : planInstallAt crates desired kind host project false nodes = .error error)
    (hnames : NamesForce error) : ∃ look current,
      lookAt crates kind host project nodes = .ok look
        ∧ findOwnedBlock look.text kind = .ok current := by
  rcases except_bind_eq_error.mp h with h | ⟨look, hlook, h⟩
  · exact absurd hnames (lookAt_quiet hkind h)
  rcases except_bind_eq_error.mp h with h | ⟨current, hcurrent, -⟩
  · exact absurd hnames (currentOwned_quiet hkind h)
  exact ⟨look, current, hlook, findOwnedBlock_of_currentOwned hkind hcurrent⟩

/-! ## Removals -/

/-- There is a receipt and one block, and the backup can be read; where the file is not put back
exactly, the separator is compared with whole characters. -/
def Removable (crates : Crates) (nodes : Nodes) (look : Look) (current : Option Text) : Prop :=
  ∃ receipt block backup, look.receipt = some receipt ∧ current = some block
    ∧ readBackup crates nodes = .ok backup
    ∧ (exactly look receipt backup ∨ Sliceable look.text block receipt.separator)

/-- A forced removal, from the receipt and the block on. -/
theorem forced_cut_iff {receipt : InstructionReceipt}
    (hkind : ownedShape kind = .markerBlock) (hreceipt : look.receipt = some receipt)
    (hlook : lookAt crates kind host project nodes = .ok look)
    (hfind : findOwnedBlock look.text kind = .ok (some block)) :
    (∃ planned, planRemoveAt crates kind host project true nodes = .ok planned)
      ↔ ∃ backup, readBackup crates nodes = .ok backup
        ∧ (exactly look receipt backup ∨ Sliceable look.text block receipt.separator) := by
  have hcurrent := @currentOwned_ok kind look.text look.receipt (some block) hkind hfind true
  have hshape : ¬(ownedShape kind = .wholeFile ∧ receipt.fileCreated = false) := by
    rw [hkind]
    rintro ⟨h, -⟩
    cases h
  have hremove := @removeBlock_ok_iff kind look.text block hkind receipt.separator hfind
  unfold planRemoveAt
  rw [hlook, ok_bind, hcurrent, ok_bind, hreceipt]
  simp only [if_neg hshape, checkOwnership, if_true, ok_bind]
  cases hbackup : readBackup crates nodes with
  | error error =>
    refine iff_of_false ?_ ?_
    · rintro ⟨_, h⟩
      cases h
    · rintro ⟨_, h, -⟩
      cases h
  | ok backup =>
    simp only [ok_bind, Except.ok.injEq, exists_eq_left']
    by_cases hexact : exactly look receipt backup
    · rw [if_pos hexact]
      exact iff_of_true ⟨_, rfl⟩ (.inl hexact)
    · rw [if_neg hexact, ← hremove]
      constructor
      · rintro ⟨planned, h⟩
        obtain ⟨removed, hremoved, -⟩ := except_bind_eq_ok.mp h
        exact .inr ⟨removed, hremoved⟩
      · rintro (h | ⟨removed, hremoved⟩)
        · exact absurd h hexact
        · rw [hremoved]
          exact ⟨_, rfl⟩

/-- A block without a receipt is not removed, whether or not the removal is forced. -/
theorem planRemoveAt_unreceipted (hkind : ownedShape kind = .markerBlock)
    (hlook : lookAt crates kind host project nodes = .ok look) (hreceipt : look.receipt = none)
    (hfind : findOwnedBlock look.text kind = .ok (some block)) (force : Bool) :
    planRemoveAt crates kind host project force nodes = .error (unownedMarker look.target) := by
  have hcurrent := @currentOwned_ok kind look.text look.receipt (some block) hkind hfind force
  unfold planRemoveAt
  rw [hlook, ok_bind, hcurrent, ok_bind, hreceipt]
  rfl

/-- Where there is something to remove. -/
theorem planRemoveAt_forced_iff (hkind : ownedShape kind = .markerBlock)
    (hlook : lookAt crates kind host project nodes = .ok look)
    (hfind : findOwnedBlock look.text kind = .ok current)
    (hthere : look.receipt.isSome = true ∨ current.isSome = true) :
    (∃ planned, planRemoveAt crates kind host project true nodes = .ok planned)
      ↔ Removable crates nodes look current := by
  have hcurrent := @currentOwned_ok kind look.text look.receipt current hkind hfind true
  cases hreceipt : look.receipt with
  | none =>
    -- a block without a receipt is refused whether or not the removal is forced
    obtain ⟨block, rfl⟩ : ∃ block, current = some block := by
      rw [hreceipt] at hthere
      exact Option.isSome_iff_exists.mp (hthere.resolve_left nofun)
    refine iff_of_false ?_ ?_
    · rintro ⟨_, h⟩
      rw [planRemoveAt_unreceipted hkind hlook hreceipt hfind] at h
      cases h
    · rintro ⟨_, _, _, h, -⟩
      rw [hreceipt] at h
      cases h
  | some receipt =>
    cases current with
    | none =>
      refine iff_of_false ?_ ?_
      · rintro ⟨_, h⟩
        unfold planRemoveAt at h
        rw [hlook, ok_bind, hcurrent, ok_bind, hreceipt] at h
        simp only [hkind, checkOwnership, if_true, ok_bind] at h
        cases h
      · rintro ⟨_, _, _, -, h, -⟩
        cases h
    | some block =>
      rw [forced_cut_iff hkind hreceipt hlook hfind]
      unfold Removable
      constructor
      · rintro ⟨backup, hbackup, h⟩
        exact ⟨receipt, block, backup, hreceipt, rfl, hbackup, h⟩
      · rintro ⟨_, _, backup, hreceipt', hblock, hbackup, h⟩
        rw [hreceipt] at hreceipt'
        cases hreceipt'
        cases hblock
        exact ⟨backup, hbackup, h⟩

theorem planRemoveAt_refused (hkind : ownedShape kind = .markerBlock)
    (h : planRemoveAt crates kind host project false nodes = .error error)
    (hnames : NamesForce error) : ∃ look current,
      lookAt crates kind host project nodes = .ok look
        ∧ findOwnedBlock look.text kind = .ok current
        ∧ (look.receipt.isSome = true ∨ current.isSome = true) := by
  rcases except_bind_eq_error.mp h with h | ⟨look, hlook, h⟩
  · exact absurd hnames (lookAt_quiet hkind h)
  rcases except_bind_eq_error.mp h with h | ⟨current, hcurrent, h⟩
  · exact absurd hnames (currentOwned_quiet hkind h)
  refine ⟨look, current, hlook, findOwnedBlock_of_currentOwned hkind hcurrent, ?_⟩
  cases hreceipt : look.receipt with
  | some receipt => exact .inl rfl
  | none =>
    rw [hreceipt] at h
    rcases except_bind_eq_error.mp h with h | ⟨_, -, h⟩
    · exact .inr (rejectIf_eq_error.mp h).1
    · cases h

/-! ## Together -/

/-- A change is refused with a message that names the flag; the forced one goes through where the
install does not meet a rule of the user's, or the removal finds a receipt with its block. -/
theorem force_progress_iff (hkind : ownedShape kind = .markerBlock) :
    (∀ error, planInstallAt crates desired kind host project false nodes = .error error →
      NamesForce error →
        ((∃ planned, planInstallAt crates desired kind host project true nodes = .ok planned)
          ↔ ∃ look current, lookAt crates kind host project nodes = .ok look
            ∧ findOwnedBlock look.text kind = .ok current
            ∧ unmanaged kind look current = false))
      ∧ ∀ error, planRemoveAt crates kind host project false nodes = .error error →
        NamesForce error →
          ((∃ planned, planRemoveAt crates kind host project true nodes = .ok planned)
            ↔ ∃ look current, lookAt crates kind host project nodes = .ok look
              ∧ findOwnedBlock look.text kind = .ok current
              ∧ Removable crates nodes look current) := by
  constructor
  · intro error h hnames
    obtain ⟨look, current, hlook, hfind⟩ := planInstallAt_refused hkind h hnames
    rw [planInstallAt_forced_iff hkind hlook hfind]
    constructor
    · intro hmanaged
      exact ⟨look, current, hlook, hfind, hmanaged⟩
    · rintro ⟨_, _, hlook', hfind', hmanaged⟩
      rw [hlook] at hlook'
      cases hlook'
      rw [hfind] at hfind'
      cases hfind'
      exact hmanaged
  · intro error h hnames
    obtain ⟨look, current, hlook, hfind, hthere⟩ := planRemoveAt_refused hkind h hnames
    rw [planRemoveAt_forced_iff hkind hlook hfind hthere]
    constructor
    · intro hcut
      exact ⟨look, current, hlook, hfind, hcut⟩
    · rintro ⟨_, _, hlook', hfind', hcut⟩
      rw [hlook] at hlook'
      cases hlook'
      rw [hfind] at hfind'
      cases hfind'
      exact hcut

end

namespace ForceSample

def crates : Crates where
  receipts :=
    { digestBytes := fun bytes => bytes.data.toList.map fun b => Char.ofNat b.toNat
      toVecPretty := fun _ => none }
  fromSlice := fun _ => none

def project : PosixPath := ⟨true, [.normal "work".toList]⟩

/-- A block of another version, which no receipt names. -/
def text : Text := markerStart .agents ++ "\nkept\n".toList ++ markerEnd .agents ++ ['\n']

def nodes : Nodes where
  target := some (.file (Text.asciiBytes text) 0o644)
  receipt := none
  backup := none

end ForceSample

section

open ForceSample

theorem lookAt_nodes : ∃ look, lookAt crates .agents none project nodes = .ok look
    ∧ look.target = project.join "AGENTS.md".toList ∧ look.receipt = none ∧ look.text = text := by
  have h : (lookAt crates .agents none project nodes).toOption.map
      (fun look => (look.target, look.receipt, look.text))
        = some (project.join "AGENTS.md".toList, none, text) := by decide +kernel
  cases hlook : lookAt crates .agents none project nodes with
  | error error =>
    rw [hlook] at h
    cases h
  | ok look =>
    rw [hlook] at h
    simp only [Except.toOption, Option.map_some, Option.some.injEq, Prod.mk.injEq] at h
    exact ⟨look, rfl, h⟩

theorem findOwnedBlock_text : findOwnedBlock text .agents = .ok (some text) := by decide +kernel

/-- The forced install that the refusal of an unowned block names. -/
theorem force_progress_agents :
    ∃ planned, planInstallAt crates [] .agents none project true nodes = .ok planned := by
  obtain ⟨look, hlook, -, hreceipt, htext⟩ := lookAt_nodes
  have hrefused : planInstallAt crates [] .agents none project false nodes
      = .error (unownedBlock .agents none) := by
    have hnew : text ≠ [] := by decide
    unfold planInstallAt
    rw [hlook, ok_bind, htext, hreceipt, currentOwned_ok rfl findOwnedBlock_text, ok_bind]
    simp [adopts, ownedShape, hreceipt, hnew, installDiscards, unmanaged, checkOwnership,
      validateOwnership, Bind.bind, Except.bind]
  refine ((@force_progress_iff crates [] .agents none project nodes rfl).1 _ hrefused
    (namesForce_of_suffix (by decide +kernel))).mpr ⟨look, some text, hlook, ?_, ?_⟩
  · rw [htext]
    exact findOwnedBlock_text
  · simp [unmanaged]

/-- The removal of a block without a receipt names the flag, and is refused with it. -/
theorem remove_force_refused :
    ¬ ∀ error, planRemoveAt crates .agents none project false nodes = .error error →
      NamesForce error →
      ∃ planned, planRemoveAt crates .agents none project true nodes = .ok planned := by
  obtain ⟨look, hlook, htarget, hreceipt, htext⟩ := lookAt_nodes
  have hrefused := @planRemoveAt_unreceipted crates .agents none project nodes text look rfl hlook
    hreceipt (by rw [htext, findOwnedBlock_text])
  intro h
  obtain ⟨planned, hforced⟩ := h _ (hrefused false) (by rw [htarget]; decide +kernel)
  rw [hrefused true] at hforced
  cases hforced

end

end Kaleidoscope.Instructions
