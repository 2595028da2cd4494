import Kaleidoscope.HookInstall
import Kaleidoscope.OpenCode
import Kaleidoscope.Receipts

/-!
# The receipts that plans write

A receipt that a plan writes is read as it was, and accepted for the host, the target and the
scope of the plan and for no others.

    receipts_accepted   over the plans of the three kinds of planner
-/

namespace Kaleidoscope

open Prog

/-! ## Statement -/

section

variable {Action Receipt Place : Type} {suffix : String}

/-- The bytes that a plan writes for its receipt are the receipt where it belongs, and are refused
elsewhere. -/
def AcceptedOnly (codec : ReceiptCodec Receipt)
    (decode : Snapshot → Place → Result (Option Receipt)) (place : Place)
    (plan : Plan Action Receipt suffix) : Prop :=
  ∀ receipt, plan.receiptAfter = some receipt →
    ∃ bytes, encodedReceipt codec plan = .ok (some bytes)
      ∧ ∀ snapshot : Snapshot, snapshot.bytes = some bytes →
        decode snapshot place = .ok (some receipt)
          ∧ ∀ other, other ≠ place → decode snapshot other = .error .invalidOwnerReceipt

/-- A receipt that reads as it was written, and is accepted in its place alone. -/
structure WrittenFor (record : Record Receipt) (validate : Receipt → Place → Result Unit)
    (place : Place) (receipt : Receipt) : Prop where
  nodup : ((record.members receipt).map Prod.fst).Nodup
  plain : ∀ m ∈ record.members receipt, Record.Plain (recursionLimit - 1) m.2
  reads : record.ofMembers (record.members receipt) = some receipt
  valid : validate receipt place = .ok ()
  elsewhere : ∀ other, other ≠ place → validate receipt other = .error .invalidOwnerReceipt

/-- It is enough that a decoder reads the record and validates it. -/
theorem acceptedOnly_of {record : Record Receipt} {json : JsonCrate} (hjson : json.Lawful)
    {digestBytes : Bytes → Text} {decode : Snapshot → Place → Result (Option Receipt)}
    (validate : Receipt → Place → Result Unit) {place : Place} {plan : Plan Action Receipt suffix}
    (hdecode : ∀ snapshot other bytes receipt, snapshot.bytes = some bytes →
      record.fromSlice json bytes = some receipt →
      decode snapshot other = (validate receipt other >>= fun _ => .ok (some receipt)))
    (h : ∀ receipt, plan.receiptAfter = some receipt → WrittenFor record validate place receipt) :
    AcceptedOnly (record.codec json digestBytes) decode place plan := by
  intro receipt hreceipt
  have hwritten := h receipt hreceipt
  obtain ⟨bytes, hbytes⟩ : ∃ bytes, encodeReceipt (record.codec json digestBytes) receipt
      = .ok bytes := ⟨_, rfl⟩
  have hencode : encodedReceipt (record.codec json digestBytes) plan = .ok (some bytes) := by
    unfold encodedReceipt
    rw [hreceipt]
    exact except_bind_eq_ok.mpr ⟨bytes, hbytes, rfl⟩
  refine ⟨bytes, hencode, fun snapshot hsnapshot => ?_⟩
  have hread := Record.reads hjson hwritten.nodup hwritten.plain hwritten.reads hbytes
  refine ⟨?_, fun other hother => ?_⟩
  · rw [hdecode snapshot place bytes receipt hsnapshot hread, hwritten.valid]
    rfl
  · rw [hdecode snapshot other bytes receipt hsnapshot hread, hwritten.elsewhere other hother]
    rfl

end

/-- A plan for the entry of a host. -/
inductive Hosts.Planned (crates : Hosts.Crates) (host : Host) (scope : Scope) :
    ConnectionPlan OwnershipReceipt → Prop
  | connect {profile : Text} {descriptor : LaunchDescriptor} {target : PosixPath}
    {requested : Option OpenCodeVersion} {nodes : Nodes} {plan : ConnectionPlan OwnershipReceipt} :
    Hosts.planConnectAtVersion crates host scope profile descriptor target requested nodes
      = .ok plan → Planned crates host scope plan
  | disconnect {target : PosixPath} {nodes : Nodes} {plan : ConnectionPlan OwnershipReceipt} :
    Hosts.planDisconnectAt crates host scope target nodes = .ok plan →
    Planned crates host scope plan

/-- A block that a version of the manager ships: it begins and ends with its markers. -/
def Instructions.Framed (kind : Instructions.InstructionTarget) (block : Text) : Prop :=
  Instructions.ownedShape kind = .markerBlock →
    Instructions.markerStart kind <+: block ∧ Instructions.markerEnd kind ++ ['\n'] <:+ block

/-- A plan for the instructions of a target. -/
inductive Instructions.Plans (crates : Instructions.Crates)
    (kind : Instructions.InstructionTarget) :
    InstructionPlan Instructions.InstructionReceipt → Prop
  | install {desired : Text} {host : Option Host} {project : PosixPath} {force : Bool} {nodes : Nodes}
    {planned : Instructions.Planned} (shipped : Instructions.Framed kind desired) :
    Instructions.planInstallAt crates desired kind host project force nodes = .ok planned →
    Plans crates kind planned.plan
  | remove {host : Option Host} {project : PosixPath} {force : Bool} {nodes : Nodes}
    {planned : Instructions.Planned} :
    Instructions.planRemoveAt crates kind host project force nodes = .ok planned →
    Plans crates kind planned.plan

/-- A plan for the session-start hook. -/
inductive Hooks.Planned (crates : Hooks.Crates) (scope : Scope) : HookPlan Hooks.HookReceipt → Prop
  | install {manager profile : Text} {target : PosixPath} {nodes : Nodes}
    {plan : HookPlan Hooks.HookReceipt} :
    Hooks.planInstallAt crates scope manager profile target nodes = .ok plan →
    Planned crates scope plan
  | remove {target : PosixPath} {force : Bool} {nodes : Nodes} {plan : HookPlan Hooks.HookReceipt} :
    Hooks.planRemoveAt crates scope target force nodes = .ok plan → Planned crates scope plan

/-! ## Connections -/

namespace Hosts

section

variable {crates : Crates} {host : Host} {scope : Scope} {receipt : OwnershipReceipt}

/-- What a format asks of what is owned. -/
def Fits (format : OwnedFormat) (owned : Value) : Prop :=
  match format with
  | .jsonEntry => owned.isObject = true
  | .codexMarkerBlock => ∃ block, owned = .string block ∧ markerStart <+: block

theorem validate_of_elsewhere {host' : Host} {scope' : Scope}
    (h : receipt.host ≠ host' ∨ receipt.scope ≠ scope') :
    OwnershipReceipt.validate crates receipt host' scope' = .error .invalidOwnerReceipt := by
  unfold OwnershipReceipt.validate
  refine except_bind_eq_error.mpr (.inl (rejectIf_eq_error.mpr ⟨?_, rfl⟩))
  rcases h with h | h
  · exact .inr (.inr (.inl h))
  · exact .inr (.inr (.inr (.inl h)))

/-- A receipt that the manager makes for a host in a scope. -/
structure New (crates : Crates) (host : Host) (scope : Scope) (receipt : OwnershipReceipt) :
    Prop where
  version : receipt.version = ownerReceiptVersion
  onHost : receipt.host = host
  inScope : receipt.scope = scope
  owned : Record.Plain 2 receipt.owned
  valid : OwnershipReceipt.validate crates receipt host scope = .ok ()

theorem new_of_newReceipt {profile preSha256 postSha256 : Text} {format : OwnedFormat}
    {owned : Value} {configCreated adopted : Bool} {version : Option OpenCodeVersion}
    (hfits : Fits format owned) (hplain : Record.Plain 2 owned)
    (hversion : version.isSome = decide (host = .openCode))
    (h : newReceipt crates host scope profile format owned configCreated version preSha256
      postSha256 adopted = .ok receipt) : New crates host scope receipt := by
  obtain ⟨_, hprofile, h⟩ := except_bind_eq_ok.mp h
  obtain ⟨ownedSha256, hdigest, h⟩ := except_bind_eq_ok.mp h
  cases h
  refine ⟨rfl, rfl, rfl, hplain, except_bind_eq_ok.mpr ⟨(), rejectIf_eq_ok.mpr ?_, ?_⟩⟩
  · rintro (hbad | hbad | hbad | hbad | hbad | hbad | hbad)
    · exact hbad rfl
    · exact hbad rfl
    · exact hbad rfl
    · exact hbad rfl
    · simp only [hprofile] at hbad
      cases hbad
    · simp [OwnershipReceipt.digestHolds, hdigest] at hbad
    · exact hbad hversion.symm
  · cases format with
    | jsonEntry => exact rejectIf_eq_ok.mpr (by simpa [Fits] using hfits)
    | codexMarkerBlock =>
      obtain ⟨block, rfl, hstart⟩ := hfits
      refine rejectIf_eq_ok.mpr ?_
      simpa [Value.asStr] using hstart

/-- The version of an entry is that of an OpenCode, and no other host has one. -/
theorem openCodeVersion_isSome {document : Value} {old : Option OwnershipReceipt}
    {requested version : Option OpenCodeVersion}
    (h : openCodeVersion host document old requested = .ok version) :
    version.isSome = decide (host = .openCode) := by
  cases host with
  | openCode =>
    obtain ⟨selected, -, h⟩ := except_bind_eq_ok.mp h
    cases h
    rfl
  | codex | claudeCode | cursor =>
    cases h
    rfl

theorem json_isSome {version : Option OpenCodeVersion} (hhost : host ≠ .codex)
    (hversion : version.isSome = decide (host = .openCode)) :
    ∃ jsonHost, host.json version = some jsonHost := by
  cases host with
  | codex => exact absurd rfl hhost
  | claudeCode => exact ⟨_, rfl⟩
  | cursor => exact ⟨_, rfl⟩
  | openCode =>
    obtain ⟨selected, rfl⟩ := Option.isSome_iff_exists.mp hversion
    exact ⟨_, rfl⟩

theorem desired_isObject (jsonHost : JsonHost) (command : Text) (args : List Text) :
    (Kaleidoscope.desiredJsonEntry jsonHost command args).isObject = true := by
  match jsonHost with
  | .claudeCode | .cursor | .openCode .stableV1 | .openCode .betaV2 => rfl

section

variable {profile : Text} {descriptor : LaunchDescriptor} {target : PosixPath}
  {receiptPath : Sibling target ".kaleidoscope-owner.json"}
  {backupPath : Sibling target ".kaleidoscope-backup"} {original receiptOriginal : Snapshot}
  {old : Option OwnershipReceipt} {requested : Option OpenCodeVersion}
  {plan : ConnectionPlan OwnershipReceipt}

theorem new_of_planJsonConnect (hhost : host ≠ .codex)
    (h : planJsonConnect crates host scope profile descriptor target receiptPath backupPath
      original receiptOriginal old requested = .ok plan)
    (hreceipt : plan.receiptAfter = some receipt) : New crates host scope receipt := by
  obtain ⟨document, -, h⟩ := except_bind_eq_ok.mp h
  obtain ⟨version, hversion, h⟩ := except_bind_eq_ok.mp h
  obtain ⟨action, -, h⟩ := except_bind_eq_ok.mp h
  split at h
  · rw [noChangePlan_eq_ok h] at hreceipt
    cases hreceipt
  · obtain ⟨written, -, h⟩ := except_bind_eq_ok.mp h
    obtain ⟨new, hnew, h⟩ := except_bind_eq_ok.mp h
    cases h
    cases hreceipt
    have hsome := openCodeVersion_isSome hversion
    obtain ⟨jsonHost, hjson⟩ := json_isSome hhost hsome
    have hdesired : desiredJsonEntry host descriptor version
        = Kaleidoscope.desiredJsonEntry jsonHost descriptor.command.display descriptor.args := by
      unfold desiredJsonEntry
      rw [hjson, Option.elim_some]
    rw [hdesired] at hnew
    obtain ⟨hsound, hfree⟩ := desired_sound jsonHost descriptor.command.display descriptor.args
    have hfits : Fits .jsonEntry (Kaleidoscope.desiredJsonEntry jsonHost descriptor.command.display
        descriptor.args) := desired_isObject _ _ _
    exact new_of_newReceipt hfits ⟨hsound.distinct, hsound.within, hfree⟩ hsome hnew

theorem markerStart_codexBlock : markerStart <+: codexBlock crates descriptor profile := by
  unfold codexBlock
  simp only [List.append_assoc]
  exact List.prefix_append _ _

theorem new_of_planCodexConnect (hhost : host = .codex)
    (h : planCodexConnect crates host scope profile descriptor target receiptPath backupPath
      original receiptOriginal old = .ok plan) (hreceipt : plan.receiptAfter = some receipt) :
    New crates host scope receipt := by
  have hfits : Fits .codexMarkerBlock (.string (codexBlock crates descriptor profile)) :=
    ⟨_, rfl, markerStart_codexBlock⟩
  have hversion : (none : Option OpenCodeVersion).isSome = decide (host = .openCode) := by
    rw [hhost]
    rfl
  obtain ⟨text, -, h⟩ := except_bind_eq_ok.mp h
  obtain ⟨_, -, h⟩ := except_bind_eq_ok.mp h
  obtain ⟨current, -, h⟩ := except_bind_eq_ok.mp h
  obtain ⟨_, -, h⟩ := except_bind_eq_ok.mp h
  dsimp only at h
  split at h
  · obtain ⟨new, hnew, h⟩ := except_bind_eq_ok.mp h
    cases h
    cases hreceipt
    exact new_of_newReceipt hfits (.string _) hversion hnew
  · obtain ⟨_, -, h⟩ := except_bind_eq_ok.mp h
    obtain ⟨_, -, h⟩ := except_bind_eq_ok.mp h
    split at h
    · rw [noChangePlan_eq_ok h] at hreceipt
      cases hreceipt
    · obtain ⟨updated, -, h⟩ := except_bind_eq_ok.mp h
      obtain ⟨_, -, h⟩ := except_bind_eq_ok.mp h
      obtain ⟨new, hnew, h⟩ := except_bind_eq_ok.mp h
      cases h
      cases hreceipt
      exact new_of_newReceipt hfits (.string _) hversion hnew

end

theorem planDisconnectAt_receipt {target : PosixPath} {nodes : Nodes}
    {plan : ConnectionPlan OwnershipReceipt}
    (h : planDisconnectAt crates host scope target nodes = .ok plan) :
    plan.receiptAfter = none := by
  obtain ⟨receiptPath, -, h⟩ := except_bind_eq_ok.mp h
  obtain ⟨backupPath, -, h⟩ := except_bind_eq_ok.mp h
  obtain ⟨original, -, h⟩ := except_bind_eq_ok.mp h
  obtain ⟨receiptOriginal, -, h⟩ := except_bind_eq_ok.mp h
  obtain ⟨old, -, h⟩ := except_bind_eq_ok.mp h
  split at h
  · obtain ⟨text, -, h⟩ := except_bind_eq_ok.mp h
    obtain ⟨_, -, h⟩ := except_bind_eq_ok.mp h
    obtain ⟨current, -, h⟩ := except_bind_eq_ok.mp h
    cases old with
    | none =>
      obtain ⟨_, -, h⟩ := except_bind_eq_ok.mp h
      rw [noChangePlan_eq_ok h]
      rfl
    | some old =>
      obtain ⟨_, -, h⟩ := except_bind_eq_ok.mp h
      obtain ⟨removed, -, h⟩ := except_bind_eq_ok.mp h
      obtain ⟨restored, -, h⟩ := except_bind_eq_ok.mp h
      cases h
      rfl
  · obtain ⟨before, -, h⟩ := except_bind_eq_ok.mp h
    cases old with
    | none =>
      obtain ⟨found, -, h⟩ := except_bind_eq_ok.mp h
      obtain ⟨_, -, h⟩ := except_bind_eq_ok.mp h
      rw [noChangePlan_eq_ok h]
      rfl
    | some old =>
      obtain ⟨_, -, h⟩ := except_bind_eq_ok.mp h
      obtain ⟨_, -, h⟩ := except_bind_eq_ok.mp h
      obtain ⟨document, -, h⟩ := except_bind_eq_ok.mp h
      obtain ⟨restored, -, h⟩ := except_bind_eq_ok.mp h
      cases h
      rfl

theorem Planned.new {plan : ConnectionPlan OwnershipReceipt} (h : Planned crates host scope plan)
    (hreceipt : plan.receiptAfter = some receipt) : New crates host scope receipt := by
  cases h with
  | disconnect h =>
    rw [planDisconnectAt_receipt h] at hreceipt
    cases hreceipt
  | connect h =>
    obtain ⟨_, -, h⟩ := except_bind_eq_ok.mp h
    obtain ⟨_, -, h⟩ := except_bind_eq_ok.mp h
    obtain ⟨receiptPath, -, h⟩ := except_bind_eq_ok.mp h
    obtain ⟨backupPath, -, h⟩ := except_bind_eq_ok.mp h
    obtain ⟨original, -, h⟩ := except_bind_eq_ok.mp h
    obtain ⟨receiptOriginal, -, h⟩ := except_bind_eq_ok.mp h
    obtain ⟨old, -, h⟩ := except_bind_eq_ok.mp h
    split at h
    · exact new_of_planCodexConnect rfl h hreceipt
    next hhost => exact new_of_planJsonConnect hhost h hreceipt

end

/-- A receipt is read as it was written, and accepted on its host in its scope alone. -/
theorem receipt_acceptedOnly {json : JsonCrate} (hjson : json.Lawful) {digestBytes : Bytes → Text}
    {isToml : Text → Bool} {host : Host} {scope : Scope} {plan : ConnectionPlan OwnershipReceipt}
    (h : Planned (jsonCrates json digestBytes isToml) host scope plan) :
    AcceptedOnly (jsonCrates json digestBytes isToml).receipts
      (fun snapshot place => decodeReceipt (jsonCrates json digestBytes isToml) snapshot place.1
        place.2) (host, scope) plan := by
  refine acceptedOnly_of hjson (fun receipt place =>
      OwnershipReceipt.validate (jsonCrates json digestBytes isToml) receipt place.1 place.2)
    (fun snapshot other bytes receipt hbytes hread => ?_) fun receipt hreceipt => ?_
  · have hslice : (jsonCrates json digestBytes isToml).fromSlice bytes = some receipt := hread
    simp only [decodeReceipt, hbytes, hslice]
    rfl
  · have hnew := h.new hreceipt
    have hversion : receipt.version < 2 ^ 32 := by
      rw [hnew.version]
      decide
    refine ⟨nodup_receiptFields.sublist (receiptMembers_sublist receipt),
      plain_receiptMembers hversion (hnew.owned.mono (by decide)),
      ofMembers_receiptMembers receipt hversion, hnew.valid, fun other hother => ?_⟩
    refine validate_of_elsewhere ?_
    rw [hnew.onHost, hnew.inScope]
    by_contra hsame
    rw [not_or, not_not, not_not] at hsame
    exact hother (Prod.ext hsame.1.symm hsame.2.symm)

end Hosts

/-! ## Instructions -/

namespace Instructions

section

variable {crates : Crates} {kind : InstructionTarget} {receipt : InstructionReceipt}

/-- A receipt that the manager makes for a target. -/
structure New (crates : Crates) (kind : InstructionTarget) (receipt : InstructionReceipt) :
    Prop where
  version : receipt.version = receiptVersion
  onTarget : receipt.target = kind
  valid : InstructionReceipt.validate crates receipt kind = .ok ()

theorem validate_of_elsewhere {other : InstructionTarget} (h : receipt.target ≠ other) :
    InstructionReceipt.validate crates receipt other = .error .invalidOwnerReceipt := by
  unfold InstructionReceipt.validate
  exact except_bind_eq_error.mpr (.inl (rejectIf_eq_error.mpr ⟨.inr (.inr (.inl h)), rfl⟩))

theorem new_of_fields (hversion : receipt.version = receiptVersion)
    (howner : receipt.owner = managerOwner) (htarget : receipt.target = kind)
    (hshape : receipt.shape = ownedShape kind)
    (hdigest : receipt.ownedSha256 = digest crates (Text.utf8 receipt.ownedBlock))
    (hframed : Framed kind receipt.ownedBlock) : New crates kind receipt := by
  refine ⟨hversion, htarget, except_bind_eq_ok.mpr ⟨(), rejectIf_eq_ok.mpr ?_, ?_⟩⟩
  · rintro (hbad | hbad | hbad | hbad)
    · exact hbad hversion
    · exact hbad howner
    · exact hbad htarget
    · exact hbad hdigest
  · refine rejectIf_eq_ok.mpr ?_
    rintro ⟨hmarked, hbad⟩
    obtain ⟨hstart, hstop⟩ := hframed (hshape.symm.trans hmarked)
    rcases hbad with hbad | hbad
    · rw [List.isPrefixOf_iff_prefix.mpr hstart] at hbad
      cases hbad
    · rw [List.isSuffixOf_iff_suffix.mpr hstop] at hbad
      cases hbad

theorem new_of_planInstallAt {desired : Text} {host : Option Host} {project : PosixPath} {force : Bool}
    {nodes : Nodes} {planned : Planned} (hshipped : Framed kind desired)
    (h : planInstallAt crates desired kind host project force nodes = .ok planned)
    (hreceipt : planned.plan.receiptAfter = some receipt) : New crates kind receipt := by
  obtain ⟨look, -, h⟩ := except_bind_eq_ok.mp h
  obtain ⟨current, -, h⟩ := except_bind_eq_ok.mp h
  split at h
  · cases h
    cases hreceipt
    exact new_of_fields rfl rfl rfl rfl rfl hshipped
  · obtain ⟨unmanagedText, -, h⟩ := except_bind_eq_ok.mp h
    obtain ⟨_, -, h⟩ := except_bind_eq_ok.mp h
    dsimp only at h
    split at h
    · cases h
      cases hreceipt
    · obtain ⟨updated, -, h⟩ := except_bind_eq_ok.mp h
      cases h
      cases hreceipt
      exact new_of_fields rfl rfl rfl rfl rfl hshipped

theorem planRemoveAt_receipt {host : Option Host} {project : PosixPath} {force : Bool} {nodes : Nodes}
    {planned : Planned} (h : planRemoveAt crates kind host project force nodes = .ok planned) :
    planned.plan.receiptAfter = none := by
  obtain ⟨look, -, h⟩ := except_bind_eq_ok.mp h
  obtain ⟨current, -, h⟩ := except_bind_eq_ok.mp h
  split at h
  · obtain ⟨_, -, h⟩ := except_bind_eq_ok.mp h
    cases h
    rfl
  next owner _ =>
    split at h
    · obtain ⟨backup, -, h⟩ := except_bind_eq_ok.mp h
      cases h
      show (releasePlan look owner backup).receiptAfter = none
      unfold releasePlan
      split <;> rfl
    · obtain ⟨_, -, h⟩ := except_bind_eq_ok.mp h
      dsimp only at h
      cases current with
      | none => cases h
      | some current =>
        obtain ⟨backup, -, h⟩ := except_bind_eq_ok.mp h
        split at h
        · cases h
          rfl
        · obtain ⟨removed, -, h⟩ := except_bind_eq_ok.mp h
          cases h
          rfl

end

/-- A receipt is read as it was written, and accepted for its target alone. -/
theorem receipt_acceptedOnly {json : JsonCrate} (hjson : json.Lawful) {digestBytes : Bytes → Text}
    {kind : InstructionTarget} {plan : InstructionPlan InstructionReceipt}
    (h : Plans (jsonCrates json digestBytes) kind plan) :
    AcceptedOnly (jsonCrates json digestBytes).receipts
      (decodeReceipt (jsonCrates json digestBytes)) kind plan := by
  refine acceptedOnly_of hjson (InstructionReceipt.validate (jsonCrates json digestBytes))
    (fun snapshot other bytes receipt hbytes hread => ?_) fun receipt hreceipt => ?_
  · have hslice : (jsonCrates json digestBytes).fromSlice bytes = some receipt := hread
    simp only [decodeReceipt, hbytes, hslice]
    rfl
  · have hnew : New (jsonCrates json digestBytes) kind receipt := by
      cases h with
      | install hshipped h => exact new_of_planInstallAt hshipped h hreceipt
      | remove h =>
        rw [planRemoveAt_receipt h] at hreceipt
        cases hreceipt
    have hversion : receipt.version < 2 ^ 32 := by
      rw [hnew.version]
      decide
    exact ⟨nodup_receiptMembers receipt, plain_receiptMembers hversion,
      ofMembers_receiptMembers receipt hversion, hnew.valid, fun other hother =>
        validate_of_elsewhere fun hsame => hother (hsame.symm.trans hnew.onTarget)⟩

end Instructions

/-! ## Hooks -/

namespace Hooks

section

variable {crates : Crates} {scope : Scope} {receipt : HookReceipt}

/-- A receipt that the manager makes for a scope. -/
structure New (crates : Crates) (scope : Scope) (receipt : HookReceipt) : Prop where
  version : receipt.version = receiptVersion
  inScope : receipt.scope = scope
  owned : Record.Plain 3 receipt.owned
  valid : receipt.validate crates scope = .ok ()

theorem validate_of_elsewhere {other : Scope} (h : receipt.scope ≠ other) :
    receipt.validate crates other = .error .invalidOwnerReceipt :=
  rejectIf_eq_error.mpr ⟨.inr (.inr (.inl h)), rfl⟩

theorem plain_ownedEntry (manager profile : Text) : Record.Plain 3 (ownedEntry manager profile) :=
  ⟨ownedEntry_distinct manager profile, ownedEntry_within manager profile,
    ownedEntry_floatFree manager profile⟩

theorem new_of_planInstallAt {manager profile : Text} {target : PosixPath} {nodes : Nodes}
    {plan : HookPlan HookReceipt}
    (h : planInstallAt crates scope manager profile target nodes = .ok plan)
    (hreceipt : plan.receiptAfter = some receipt) : New crates scope receipt := by
  obtain ⟨_, hprofile, h⟩ := except_bind_eq_ok.mp h
  obtain ⟨receiptPath, -, h⟩ := except_bind_eq_ok.mp h
  obtain ⟨backupPath, -, h⟩ := except_bind_eq_ok.mp h
  obtain ⟨original, -, h⟩ := except_bind_eq_ok.mp h
  obtain ⟨receiptOriginal, -, h⟩ := except_bind_eq_ok.mp h
  obtain ⟨old, -, h⟩ := except_bind_eq_ok.mp h
  obtain ⟨document, -, h⟩ := except_bind_eq_ok.mp h
  obtain ⟨action, -, h⟩ := except_bind_eq_ok.mp h
  split at h
  · cases h
    cases hreceipt
  · obtain ⟨written, -, h⟩ := except_bind_eq_ok.mp h
    cases h
    cases hreceipt
    exact ⟨rfl, rfl, plain_ownedEntry manager profile, installReceipt_valid hprofile⟩

theorem planRemoveAt_receipt {target : PosixPath} {force : Bool} {nodes : Nodes}
    {plan : HookPlan HookReceipt} (h : planRemoveAt crates scope target force nodes = .ok plan) :
    plan.receiptAfter = none := by
  obtain ⟨receiptPath, -, h⟩ := except_bind_eq_ok.mp h
  obtain ⟨backupPath, -, h⟩ := except_bind_eq_ok.mp h
  obtain ⟨original, -, h⟩ := except_bind_eq_ok.mp h
  obtain ⟨receiptOriginal, -, h⟩ := except_bind_eq_ok.mp h
  dsimp only at h
  obtain ⟨old, -, h⟩ := except_bind_eq_ok.mp h
  cases old with
  | none =>
    cases h
    rfl
  | some old =>
    obtain ⟨before, -, h⟩ := except_bind_eq_ok.mp h
    obtain ⟨without, -, h⟩ := except_bind_eq_ok.mp h
    cases without with
    | none =>
      cases h
      rfl
    | some document =>
      obtain ⟨backup, -, h⟩ := except_bind_eq_ok.mp h
      split at h
      · cases h
        rfl
      · cases h
        rfl

end

/-- A receipt is read as it was written, and accepted in its scope alone. -/
theorem receipt_acceptedOnly {json : JsonCrate} (hjson : json.Lawful) {digestBytes : Bytes → Text}
    {scope : Scope} {plan : HookPlan HookReceipt}
    (h : Planned (jsonCrates json digestBytes) scope plan) :
    AcceptedOnly (jsonCrates json digestBytes).receipts
      (decodeReceipt (jsonCrates json digestBytes)) scope plan := by
  refine acceptedOnly_of hjson (HookReceipt.validate (jsonCrates json digestBytes))
    (fun snapshot other bytes receipt hbytes hread => ?_) fun receipt hreceipt => ?_
  · have hslice : (jsonCrates json digestBytes).fromSlice bytes = some receipt := hread
    simp only [decodeReceipt, hbytes, hslice]
    rfl
  · have hnew : New (jsonCrates json digestBytes) scope receipt := by
      cases h with
      | install h => exact new_of_planInstallAt h hreceipt
      | remove h =>
        rw [planRemoveAt_receipt h] at hreceipt
        cases hreceipt
    have hversion : receipt.version < 2 ^ 32 := by
      rw [hnew.version]
      decide
    exact ⟨nodup_receiptMembers receipt,
      plain_receiptMembers hversion (hnew.owned.mono (by decide)),
      ofMembers_receiptMembers receipt hversion, hnew.valid, fun other hother =>
        validate_of_elsewhere fun hsame => hother (hsame.symm.trans hnew.inScope)⟩

end Hooks

/-! ## Top theorem -/

/-- A receipt that a plan writes is accepted for the host and the scope, the target, or the scope
of the plan, as it was, and for no other. -/
theorem receipts_accepted {json : JsonCrate} (hjson : json.Lawful) (digestBytes : Bytes → Text)
    (isToml : Text → Bool) :
    (∀ host scope plan, Hosts.Planned (Hosts.jsonCrates json digestBytes isToml) host scope plan →
      AcceptedOnly (Hosts.jsonCrates json digestBytes isToml).receipts
        (fun snapshot place => Hosts.decodeReceipt (Hosts.jsonCrates json digestBytes isToml)
          snapshot place.1 place.2) (host, scope) plan)
      ∧ (∀ kind plan, Instructions.Plans (Instructions.jsonCrates json digestBytes) kind plan →
        AcceptedOnly (Instructions.jsonCrates json digestBytes).receipts
          (Instructions.decodeReceipt (Instructions.jsonCrates json digestBytes)) kind plan)
      ∧ ∀ scope plan, Hooks.Planned (Hooks.jsonCrates json digestBytes) scope plan →
        AcceptedOnly (Hooks.jsonCrates json digestBytes).receipts
          (Hooks.decodeReceipt (Hooks.jsonCrates json digestBytes)) scope plan :=
  ⟨fun _ _ _ h => Hosts.receipt_acceptedOnly hjson h,
    fun _ _ h => Instructions.receipt_acceptedOnly hjson h,
    fun _ _ h => Hooks.receipt_acceptedOnly hjson h⟩

section

open Hosts.Sample

/-- The first connect of a host writes such a receipt. -/
theorem receipts_accepted_first : ∃ plan,
    Hosts.planConnectAtVersion (Hosts.jsonCrates JsonWriter.crate digestBytes fun _ => true)
        .claudeCode .user "default".toList descriptor target none noFiles = .ok plan
      ∧ plan.receiptAfter.isSome = true
      ∧ AcceptedOnly (Hosts.jsonCrates JsonWriter.crate digestBytes fun _ => true).receipts
        (fun snapshot place => Hosts.decodeReceipt
          (Hosts.jsonCrates JsonWriter.crate digestBytes fun _ => true) snapshot place.1 place.2)
        (.claudeCode, .user) plan := by
  have hrun : (Hosts.planConnectAtVersion
      (Hosts.jsonCrates JsonWriter.crate digestBytes fun _ => true) .claudeCode .user
      "default".toList descriptor target none noFiles).toOption.map (·.receiptAfter.isSome)
        = some true := by
    decide +kernel
  cases hplan : Hosts.planConnectAtVersion
      (Hosts.jsonCrates JsonWriter.crate digestBytes fun _ => true) .claudeCode .user
      "default".toList descriptor target none noFiles with
  | error x =>
    rw [hplan] at hrun
    cases hrun
  | ok plan =>
    rw [hplan] at hrun
    exact ⟨plan, rfl, Option.some.inj hrun,
      (receipts_accepted JsonWriter.crate_lawful digestBytes fun _ => true).1 _ _ plan
        (.connect hplan)⟩

end

end Kaleidoscope
