import Kaleidoscope.ReceiptPlans

/-!
# Connecting a JSON host again

What a plan writes can be read again where it is within the limits of its readers.  A connect that
was applied and is planned again then finds its entry in place.

    connect_again_json   exactly then
-/

namespace Kaleidoscope

open Prog Disk

/-! ## What is written -/

section

variable {Action Receipt : Type} {suffix : String} {codec : ReceiptCodec Receipt}
  {plan : Plan Action Receipt suffix}

/-- What a plan writes is within the limits of what its planner reads. -/
structure Readable (codec : ReceiptCodec Receipt) (maximum : Nat)
    (plan : Plan Action Receipt suffix) : Prop where
  target : ∀ bytes, plan.write = .write bytes → bytes.size ≤ maximum
  receipt : ∀ bytes, encodedReceipt codec plan = .ok (some bytes) → bytes.size ≤ maxReceiptBytes

/-- A plan that changes nothing. -/
structure Idle (plan : Plan Action Receipt suffix) : Prop where
  write : plan.write = .leave
  receipt : plan.receiptAfter = none
  backup : plan.removeBackup = false

theorem Idle.readable {maximum : Nat} (h : Idle plan) : Readable codec maximum plan := by
  refine ⟨fun bytes hbytes => ?_, fun bytes hbytes => ?_⟩
  · rw [h.write] at hbytes
    cases hbytes
  · unfold encodedReceipt at hbytes
    rw [h.receipt] at hbytes
    cases hbytes

theorem receiptBytes_of_encoded {bytes : Bytes}
    (h : encodedReceipt codec plan = .ok (some bytes)) : receiptBytes codec plan = some bytes := by
  unfold encodedReceipt at h
  unfold receiptBytes
  cases hreceipt : plan.receiptAfter with
  | none =>
    rw [hreceipt] at h
    cases h
  | some receipt =>
    rw [hreceipt] at h
    obtain ⟨encoded, hencoded, h⟩ := except_bind_eq_ok.mp h
    cases h
    rw [Option.bind_some, hencoded]
    rfl

/-- The receipt that was written reads as its bytes, where they are not too many. -/
theorem snapshotOf_written {digestBytes : Bytes → Text} {maximum : Nat} {name : String}
    {bytes : Bytes} {mode : Nat} :
    (∃ snapshot, snapshotOf digestBytes maximum name (some (.file bytes mode)) = .ok snapshot)
      ↔ bytes.size ≤ maximum := by
  constructor
  · rintro ⟨snapshot, h⟩
    exact Hooks.size_of_snapshot h
  · intro h
    exact ⟨_, Hooks.snapshotOf_file h⟩

end

namespace Hosts

/-! ## The shapes of OpenCode -/

theorem openCodeShapeState_mapFloats (f : UInt64 → UInt64) (document : Value) :
    openCodeShapeState (document.mapFloats f) = openCodeShapeState document := by
  unfold openCodeShapeState
  rw [Value.get_mapFloats]
  cases document.get "mcp".toList with
  | none => rfl
  | some mcp =>
    cases mcp with
    | object mcp =>
      rw [Option.map_some, Value.mapFloats_object]
      simp only
      rw [Value.lookup_mapMembers, Value.lookup_mapMembers, Option.isSome_map]
      cases mcp.lookup "servers".toList with
      | none => rfl
      | some servers =>
        cases servers with
        | object servers =>
          rw [Option.map_some, Value.mapFloats_object]
          simp only
          rw [Value.lookup_mapMembers, Option.isSome_map]
        | _ => rfl
    | _ => rfl

/-- The shapes that the members of `mcp` show. -/
def shapeOf (mcp : Members) : Result OpenCodeShapeState :=
  let stableEntry := (mcp.lookup "kaleidoscope".toList).isSome
  match mcp.lookup "servers".toList with
  | none => .ok ⟨stableEntry, false, false⟩
  | some (.object servers) =>
    .ok ⟨stableEntry, true, (servers.lookup "kaleidoscope".toList).isSome⟩
  | some _ => .error (.invalidHostConfig "OpenCode mcp.servers must be an object for beta-v2")

theorem openCodeShapeState_object {members mcp : Members}
    (h : (members.lookup "mcp".toList).getD (.object []) = .object mcp) :
    openCodeShapeState (.object members) = shapeOf mcp := by
  unfold openCodeShapeState
  show (match members.lookup "mcp".toList with | none => _ | some (.object mcp) => _ | some _ => _) = _
  cases hlookup : members.lookup "mcp".toList with
  | none =>
    rw [hlookup] at h
    cases h
    rfl
  | some found =>
    rw [hlookup, Option.getD_some] at h
    rw [h]
    rfl

section

variable {document document' desired : Value} {version : OpenCodeVersion}

/-- The entry of one version is put where the other version has none. -/
theorem openCodeShapeState_set {state : OpenCodeShapeState}
    (hstate : openCodeShapeState document = .ok state)
    (hconflict : state.conflictsWith version = false)
    (hset : setJsonPath desired (Kaleidoscope.jsonEntryPath (.openCode version)) document
      = .ok document') :
    ∃ state', openCodeShapeState document' = .ok state'
      ∧ state'.conflictsWith version = false := by
  cases version with
  | stableV1 =>
    obtain ⟨members, inner, rfl, rfl, ⟨hnil, -⟩ | hinner⟩ := setJsonPath_cons hset
    · cases hnil
    obtain ⟨mcp, entry, hmcp, rfl, ⟨-, rfl⟩ | hentry⟩ := setJsonPath_cons hinner
    swap
    · cases hentry
    rw [openCodeShapeState_object hmcp] at hstate
    have hne : "servers".toList ≠ "kaleidoscope".toList := by decide
    have hset' : openCodeShapeState (.object (Members.set "mcp".toList
        (.object (Members.set "kaleidoscope".toList entry mcp)) members))
        = shapeOf (Members.set "kaleidoscope".toList entry mcp) := by
      refine openCodeShapeState_object ?_
      rw [Members.lookup_set_self, Option.getD_some]
    rw [hset']
    unfold shapeOf at hstate ⊢
    rw [Members.lookup_set_ne hne]
    cases hservers : mcp.lookup "servers".toList with
    | none => exact ⟨_, rfl, rfl⟩
    | some servers =>
      rw [hservers] at hstate
      cases servers with
      | object servers =>
        cases hstate
        cases hconflict
      | _ => cases hstate
  | betaV2 =>
    obtain ⟨members, inner, rfl, rfl, ⟨hnil, -⟩ | hinner⟩ := setJsonPath_cons hset
    · cases hnil
    obtain ⟨mcp, inner, hmcp, rfl, ⟨hnil, -⟩ | hinner⟩ := setJsonPath_cons hinner
    · cases hnil
    obtain ⟨servers, entry, hservers, rfl, ⟨-, rfl⟩ | hentry⟩ := setJsonPath_cons hinner
    swap
    · cases hentry
    rw [openCodeShapeState_object hmcp] at hstate
    have hne : "kaleidoscope".toList ≠ "servers".toList := by decide
    have hset' : openCodeShapeState (.object (Members.set "mcp".toList
        (.object (Members.set "servers".toList
          (.object (Members.set "kaleidoscope".toList entry servers)) mcp)) members))
        = shapeOf (Members.set "servers".toList
          (.object (Members.set "kaleidoscope".toList entry servers)) mcp) := by
      refine openCodeShapeState_object ?_
      rw [Members.lookup_set_self, Option.getD_some]
    rw [hset']
    have hstable : (mcp.lookup "kaleidoscope".toList).isSome = false := by
      unfold shapeOf at hstate
      cases hfound : mcp.lookup "servers".toList with
      | none =>
        rw [hfound] at hstate
        cases hstate
        exact hconflict
      | some found =>
        rw [hfound] at hstate
        cases found with
        | object _ =>
          cases hstate
          exact hconflict
        | _ => cases hstate
    unfold shapeOf
    rw [Members.lookup_set_self, Members.lookup_set_ne hne]
    exact ⟨_, rfl, hstable⟩

end

section

variable {crates : Crates} {host : Host} {document document' desired : Value}
  {receipt : OwnershipReceipt} {old : Option OwnershipReceipt}
  {requested : Option OpenCodeVersion} {version : Option OpenCodeVersion}

/-- A receipt of the version that was selected is one of the version that is selected again. -/
theorem selectedVersion_again {state state' : OpenCodeShapeState} {selected : OpenCodeVersion}
    (h : selectedVersion state old requested = .ok selected)
    (hreceipt : receipt.openCodeVersion = some selected) :
    selectedVersion state' (some receipt) requested = .ok selected := by
  have hrequested : requested.any (· ≠ selected) = false := by
    cases old with
    | none =>
      cases h
      cases requested with
      | none => rfl
      | some asked => simp
    | some old =>
      unfold selectedVersion at h
      simp only at h
      cases hold : old.openCodeVersion with
      | none =>
        rw [hold] at h
        cases h
      | some owned =>
        rw [hold] at h
        obtain ⟨_, hsame, h⟩ := except_bind_eq_ok.mp h
        cases h
        exact Bool.eq_false_iff.mpr (rejectIf_eq_ok.mp hsame)
  unfold selectedVersion
  simp only [hreceipt]
  refine except_bind_eq_ok.mpr ⟨(), rejectIf_eq_ok.mpr ?_, rfl⟩
  rw [hrequested]
  exact Bool.false_ne_true

theorem openCodeVersion_again (h : openCodeVersion host document old requested = .ok version)
    (hreceipt : receipt.openCodeVersion = version)
    (hshape : ∀ selected state, version = some selected → openCodeShapeState document = .ok state →
      state.conflictsWith selected = false →
      ∃ state', openCodeShapeState document' = .ok state'
        ∧ state'.conflictsWith selected = false) :
    openCodeVersion host document' (some receipt) requested = .ok version := by
  cases host with
  | openCode =>
    obtain ⟨selected, hselect, h⟩ := except_bind_eq_ok.mp h
    cases h
    obtain ⟨state, hstate, hselect⟩ := except_bind_eq_ok.mp hselect
    obtain ⟨selected', hselected, hselect⟩ := except_bind_eq_ok.mp hselect
    obtain ⟨_, hconflict, hselect⟩ := except_bind_eq_ok.mp hselect
    cases hselect
    obtain ⟨state', hstate', hconflict'⟩ :=
      hshape _ state rfl hstate (Bool.eq_false_iff.mpr (rejectIf_eq_ok.mp hconflict))
    refine except_bind_eq_ok.mpr ⟨_, ?_, rfl⟩
    refine except_bind_eq_ok.mpr ⟨state', hstate', ?_⟩
    refine except_bind_eq_ok.mpr ⟨_, selectedVersion_again hselected hreceipt, ?_⟩
    refine except_bind_eq_ok.mpr ⟨(), rejectIf_eq_ok.mpr ?_, rfl⟩
    rw [hconflict']
    exact Bool.false_ne_true
  | codex | claudeCode | cursor => exact h

end

/-! ## The document -/

section

variable {crates : Crates} {document : Value} {original : Snapshot}

theorem parseJsonDocument_encode (hjson : crates.json.Lawful)
    (hsound : Sound recursionLimit document) (hobject : document.isObject = true)
    (hbytes : original.bytes = some (crates.json.encode document)) :
    parseJsonDocument crates original = .ok (document.mapFloats crates.json.reread) := by
  have hread := hjson.reads document hsound.distinct hsound.within
  have hlist : (crates.json.encode document).data.toList
      = crates.json.toVecPretty document ++ [0x0A] := rfl
  have hblank : ¬(crates.json.encode document).data.toList.all isAsciiWhitespace = true := by
    intro hblank
    rw [hlist] at hblank
    rw [hjson.blank _ hblank] at hread
    cases hread
  unfold parseJsonDocument
  rw [hbytes]
  simp only
  rw [if_neg hblank, JsonCrate.fromSlice, hlist, hread]
  refine except_bind_eq_ok.mpr ⟨(), rejectIf_eq_ok.mpr ?_, rfl⟩
  rw [Value.isObject_mapFloats, hobject]
  exact Bool.false_ne_true

theorem setJsonPath_isObject {member v v' : Value} {path : List Text}
    (h : setJsonPath member path v = .ok v') : v'.isObject = true := by
  cases path with
  | nil => cases h
  | cons key path =>
    obtain ⟨members, inner, -, rfl, -⟩ := setJsonPath_cons h
    rfl

end

/-! ## Planning again -/

section

variable {crates : Crates} {host : Host} {scope : Scope} {profile : Text}
  {descriptor : LaunchDescriptor} {target : PosixPath}
  {receiptPath : Sibling target ".kaleidoscope-owner.json"}
  {backupPath : Sibling target ".kaleidoscope-backup"} {original receiptOriginal : Snapshot}
  {old : Option OwnershipReceipt} {requested : Option OpenCodeVersion}
  {plan : ConnectionPlan OwnershipReceipt} {receipt : OwnershipReceipt}

theorem digestHolds_of_valid (h : OwnershipReceipt.validate crates receipt host scope = .ok ()) :
    OwnershipReceipt.digestHolds crates receipt receipt.format = true := by
  obtain ⟨_, hshape, -⟩ := except_bind_eq_ok.mp h
  have hshape := rejectIf_eq_ok.mp hshape
  simp only [not_or] at hshape
  simpa using hshape.2.2.2.2.2.1

/-- A receipt and the entry that it names are all that a connect looks for. -/
theorem planJsonConnect_noop {document entry : Value} {version : Option OpenCodeVersion}
    (hdocument : parseJsonDocument crates original = .ok document)
    (hversion : openCodeVersion host document (some receipt) requested = .ok version)
    (hentry : getJsonPath (jsonEntryPath host version) document = some entry)
    (hsame : entry.same (desiredJsonEntry host descriptor version) = true)
    (howned : receipt.owned.same entry = true) (hformat : receipt.format = .jsonEntry)
    (hdigest : OwnershipReceipt.digestHolds crates receipt receipt.format = true)
    (hbytes : receiptOriginal.bytes.isSome = true) :
    planJsonConnect crates host scope profile descriptor target receiptPath backupPath original
        receiptOriginal (some receipt) requested
      = .ok (keepPlan .alreadyConnected target receiptPath backupPath original receiptOriginal) := by
  have hvalid : validateCurrentOwnership crates (some receipt) (some entry) .jsonEntry
      = .ok () := by
    refine rejectIf_eq_ok.mpr ?_
    rw [hformat] at hdigest
    simp [hformat, howned, hdigest]
  refine except_bind_eq_ok.mpr ⟨document, hdocument, ?_⟩
  refine except_bind_eq_ok.mpr ⟨version, hversion, ?_⟩
  dsimp only
  rw [hentry]
  refine except_bind_eq_ok.mpr ⟨.update, except_bind_eq_ok.mpr ⟨(), hvalid, rfl⟩, ?_⟩
  rw [if_pos ⟨hsame, rfl⟩]
  refine except_bind_eq_ok.mpr ⟨(), rejectIf_eq_ok.mpr ?_, rfl⟩
  rintro ⟨-, hnone⟩
  rw [Option.isNone_iff_eq_none] at hnone
  rw [hnone] at hbytes
  cases hbytes

/-- The reads of a connect, and what it plans from them. -/
structure Reads (crates : Crates) (host : Host) (scope : Scope) (target : PosixPath) (nodes : Nodes)
    (original receiptOriginal : Snapshot) (old : Option OwnershipReceipt) : Prop where
  target : readHostConfig crates target host scope nodes.target = .ok original
  receipt : readReceipt crates nodes.receipt = .ok receiptOriginal
  old : decodeReceipt crates receiptOriginal host scope = .ok old

/-- What a plan for a host depends on. -/
def planFrom (crates : Crates) (host : Host) (scope : Scope) (profile : Text)
    (descriptor : LaunchDescriptor) (target : PosixPath)
    (receiptPath : Sibling target ".kaleidoscope-owner.json")
    (backupPath : Sibling target ".kaleidoscope-backup") (original receiptOriginal : Snapshot)
    (old : Option OwnershipReceipt) (requested : Option OpenCodeVersion) :
    Result (ConnectionPlan OwnershipReceipt) :=
  match host with
  | .codex =>
    planCodexConnect crates host scope profile descriptor target receiptPath backupPath original
      receiptOriginal old
  | _ =>
    planJsonConnect crates host scope profile descriptor target receiptPath backupPath original
      receiptOriginal old requested

theorem planConnectAtVersion_iff {nodes : Nodes} :
    planConnectAtVersion crates host scope profile descriptor target requested nodes = .ok plan
      ↔ ¬(host ≠ .openCode ∧ requested.isSome = true) ∧ validateProfileName profile = .ok ()
        ∧ ∃ receiptPath backupPath,
          siblingPath target ".kaleidoscope-owner.json" = .ok receiptPath
          ∧ siblingPath target ".kaleidoscope-backup" = .ok backupPath
          ∧ ∃ original receiptOriginal old,
            Reads crates host scope target nodes original receiptOriginal old
            ∧ planFrom crates host scope profile descriptor target receiptPath backupPath original
              receiptOriginal old requested = .ok plan := by
  constructor
  · intro h
    obtain ⟨_, husage, h⟩ := except_bind_eq_ok.mp h
    obtain ⟨_, hprofile, h⟩ := except_bind_eq_ok.mp h
    obtain ⟨receiptPath, hreceiptPath, h⟩ := except_bind_eq_ok.mp h
    obtain ⟨backupPath, hbackupPath, h⟩ := except_bind_eq_ok.mp h
    obtain ⟨original, horiginal, h⟩ := except_bind_eq_ok.mp h
    obtain ⟨receiptOriginal, hreceiptOriginal, h⟩ := except_bind_eq_ok.mp h
    obtain ⟨old, hold, h⟩ := except_bind_eq_ok.mp h
    exact ⟨rejectIf_eq_ok.mp husage, hprofile, receiptPath, backupPath, hreceiptPath, hbackupPath,
      original, receiptOriginal, old, ⟨horiginal, hreceiptOriginal, hold⟩, h⟩
  · rintro ⟨husage, hprofile, receiptPath, backupPath, hreceiptPath, hbackupPath, original,
      receiptOriginal, old, hreads, h⟩
    refine except_bind_eq_ok.mpr ⟨(), rejectIf_eq_ok.mpr husage, ?_⟩
    refine except_bind_eq_ok.mpr ⟨(), hprofile, ?_⟩
    refine except_bind_eq_ok.mpr ⟨receiptPath, hreceiptPath, ?_⟩
    refine except_bind_eq_ok.mpr ⟨backupPath, hbackupPath, ?_⟩
    refine except_bind_eq_ok.mpr ⟨original, hreads.target, ?_⟩
    refine except_bind_eq_ok.mpr ⟨receiptOriginal, hreads.receipt, ?_⟩
    exact except_bind_eq_ok.mpr ⟨old, hreads.old, h⟩

/-- What a receipt says of the entry that is owned. -/
structure Names (receipt : OwnershipReceipt) (format : OwnedFormat) (owned : Value)
    (version : Option OpenCodeVersion) : Prop where
  format : receipt.format = format
  owned : receipt.owned = owned
  version : receipt.openCodeVersion = version

theorem names_of_newReceipt {preSha256 postSha256 : Text} {format : OwnedFormat} {owned : Value}
    {configCreated adopted : Bool} {version : Option OpenCodeVersion}
    (h : newReceipt crates host scope profile format owned configCreated version preSha256
      postSha256 adopted = .ok receipt) : Names receipt format owned version := by
  obtain ⟨_, -, h⟩ := except_bind_eq_ok.mp h
  obtain ⟨_, -, h⟩ := except_bind_eq_ok.mp h
  cases h
  exact ⟨rfl, rfl, rfl⟩

/-- What a connect of a JSON host plans. -/
inductive ConnectsJson (crates : Crates) (host : Host) (descriptor : LaunchDescriptor)
    (original : Snapshot) (old : Option OwnershipReceipt) (requested : Option OpenCodeVersion)
    (plan : ConnectionPlan OwnershipReceipt) : Prop
  | kept (action : plan.action = .alreadyConnected) (idle : Idle plan)
  | adopted {document entry : Value} {version : Option OpenCodeVersion} {receipt : OwnershipReceipt}
    (parsed : parseJsonDocument crates original = .ok document)
    (selected : openCodeVersion host document old requested = .ok version)
    (here : getJsonPath (jsonEntryPath host version) document = some entry)
    (same : entry.same (desiredJsonEntry host descriptor version) = true)
    (action : plan.action = .adopt) (write : plan.write = .leave)
    (after : plan.receiptAfter = some receipt)
    (names : Names receipt .jsonEntry (desiredJsonEntry host descriptor version) version)
  | put {document document' : Value} {version : Option OpenCodeVersion} {receipt : OwnershipReceipt}
    (parsed : parseJsonDocument crates original = .ok document)
    (selected : openCodeVersion host document old requested = .ok version)
    (set : setJsonPath (desiredJsonEntry host descriptor version) (jsonEntryPath host version)
      document = .ok document')
    (action : plan.action.isNoop = false) (write : plan.write = .write (crates.json.encode document'))
    (after : plan.receiptAfter = some receipt)
    (names : Names receipt .jsonEntry (desiredJsonEntry host descriptor version) version)

theorem connectAction_eq_ok {path : List Text} {desired : Value} {current : Option Value}
    {action : ChangeAction} (h : connectAction crates host target path desired current old
      = .ok action) :
    action.isNoop = false ∧ (action = .adopt → ∃ entry, current = some entry
      ∧ entry.same desired = true) := by
  unfold connectAction at h
  cases old with
  | some old =>
    obtain ⟨_, -, h⟩ := except_bind_eq_ok.mp h
    cases h
    by_cases hcurrent : current.isSome = true
    · rw [if_pos hcurrent]
      exact ⟨rfl, nofun⟩
    · rw [if_neg hcurrent]
      exact ⟨rfl, nofun⟩
  | none =>
    simp only at h
    split at h
    next hsame =>
      cases h
      rw [Option.any_eq_true] at hsame
      exact ⟨rfl, fun _ => hsame⟩
    · obtain ⟨_, -, h⟩ := except_bind_eq_ok.mp h
      cases h
      exact ⟨rfl, nofun⟩

theorem planJsonConnect_cases
    (h : planJsonConnect crates host scope profile descriptor target receiptPath backupPath
      original receiptOriginal old requested = .ok plan) :
    ConnectsJson crates host descriptor original old requested plan := by
  obtain ⟨document, hdocument, h⟩ := except_bind_eq_ok.mp h
  obtain ⟨version, hversion, h⟩ := except_bind_eq_ok.mp h
  obtain ⟨action, haction, h⟩ := except_bind_eq_ok.mp h
  obtain ⟨hdone, hadopt⟩ := connectAction_eq_ok haction
  split at h
  · rw [noChangePlan_eq_ok h]
    exact .kept rfl ⟨rfl, rfl, rfl⟩
  · obtain ⟨written, hwritten, h⟩ := except_bind_eq_ok.mp h
    obtain ⟨receipt, hreceipt, h⟩ := except_bind_eq_ok.mp h
    cases h
    unfold connectWrite at hwritten
    split at hwritten
    next hadopted =>
      obtain ⟨_, -, hwritten⟩ := except_bind_eq_ok.mp hwritten
      cases hwritten
      obtain ⟨entry, hentry, hsame⟩ := hadopt hadopted
      exact .adopted hdocument hversion hentry hsame hadopted rfl rfl (names_of_newReceipt hreceipt)
    next =>
      obtain ⟨document', hset, hwritten⟩ := except_bind_eq_ok.mp hwritten
      cases hwritten
      exact .put hdocument hversion hset hdone rfl rfl (names_of_newReceipt hreceipt)

end

/-! ## Reading after a connect -/

section

variable {crates : Crates} {host : Host} {scope : Scope} {target : PosixPath} {nodes : Nodes}
  {plan : ConnectionPlan OwnershipReceipt} {receipt : OwnershipReceipt} {bytes : Bytes}

theorem readHostConfig_of_snapshot {node : Option Node} {original : Snapshot}
    (h : snapshotOf (digest crates) maxHostConfigBytes connectionTraits.targetName node
      = .ok original) : readHostConfig crates target host scope node = .ok original := by
  unfold readHostConfig
  rw [h]

theorem after_nodes (hdone : plan.action.isNoop = false)
    (hbytes : encodedReceipt crates.receipts plan = .ok (some bytes)) :
    (plan.after crates.receipts nodes).target = written plan nodes.target
      ∧ (plan.after crates.receipts nodes).receipt = some (.file bytes 0o600) := by
  unfold ConnectionPlan.after
  rw [hdone]
  refine ⟨rfl, ?_⟩
  show receiptNode (receiptBytes crates.receipts plan) = _
  rw [receiptBytes_of_encoded hbytes]
  rfl

/-- What a connect wrote is read exactly where it is within the limits. -/
theorem readable_of_reads {original receiptOriginal : Snapshot} {old : Option OwnershipReceipt}
    (hdone : plan.action.isNoop = false)
    (hbytes : encodedReceipt crates.receipts plan = .ok (some bytes))
    (h : Reads crates host scope target (plan.after crates.receipts nodes) original
      receiptOriginal old) : Readable crates.receipts maxHostConfigBytes plan := by
  obtain ⟨htarget, hreceipt⟩ := @after_nodes crates nodes plan bytes hdone hbytes
  refine ⟨fun text hwrite => ?_, fun text htext => ?_⟩
  · have hread := readHostConfig_eq_ok h.target
    rw [htarget] at hread
    unfold written at hread
    rw [hwrite] at hread
    exact snapshotOf_written.mp ⟨_, hread⟩
  · have hread := h.receipt
    rw [hreceipt] at hread
    have hsame : text = bytes := by
      rw [htext] at hbytes
      cases hbytes
      rfl
    rw [hsame]
    exact snapshotOf_written.mp ⟨_, hread⟩

/-- What the planner read before, with what the plan wrote in its place. -/
theorem reads_of_readable {json : JsonCrate} (hjson : json.Lawful) {digestBytes : Bytes → Text}
    {isToml : Text → Bool} {original receiptOriginal : Snapshot} {old : Option OwnershipReceipt}
    (hplanned : Planned (jsonCrates json digestBytes isToml) host scope plan)
    (hreads : Reads (jsonCrates json digestBytes isToml) host scope target nodes original
      receiptOriginal old)
    (hdone : plan.action.isNoop = false) (hafter : plan.receiptAfter = some receipt)
    (hkept : plan.write ≠ .remove)
    (h : Readable (jsonCrates json digestBytes isToml).receipts maxHostConfigBytes plan) :
    ∃ original' receiptOriginal', Reads (jsonCrates json digestBytes isToml) host scope target
        (plan.after (jsonCrates json digestBytes isToml).receipts nodes) original' receiptOriginal'
        (some receipt)
      ∧ receiptOriginal'.bytes.isSome = true
      ∧ (plan.write = .leave → original' = original)
      ∧ ∀ text, plan.write = .write text → original'.bytes = some text := by
  obtain ⟨bytes, hbytes, hdecode⟩ := receipt_acceptedOnly hjson hplanned receipt hafter
  obtain ⟨htarget, hreceipt⟩ :=
    @after_nodes (jsonCrates json digestBytes isToml) nodes plan bytes hdone hbytes
  obtain ⟨receiptOriginal', hread⟩ := (@snapshotOf_written digestBytes maxReceiptBytes
    connectionTraits.receiptName bytes 0o600).mpr (h.receipt bytes hbytes)
  have hheld : receiptOriginal'.bytes = some bytes := (snapshotOf_bytes hread).1
  have hreceipt' : readReceipt (jsonCrates json digestBytes isToml)
      (plan.after (jsonCrates json digestBytes isToml).receipts nodes).receipt
        = .ok receiptOriginal' := by
    rw [hreceipt]
    exact hread
  have hold := (hdecode receiptOriginal' hheld).1
  have hsome : receiptOriginal'.bytes.isSome = true := by
    rw [hheld]
    rfl
  cases hwrite : plan.write with
  | remove => exact absurd hwrite hkept
  | leave =>
    refine ⟨original, receiptOriginal', ⟨?_, hreceipt', hold⟩, hsome, fun _ => rfl, nofun⟩
    rw [htarget]
    unfold written
    rw [hwrite]
    exact hreads.target
  | write text =>
    obtain ⟨original', hread'⟩ := (@snapshotOf_written digestBytes maxHostConfigBytes
      connectionTraits.targetName text (plan.original.unixMode.getD 0o600)).mpr (h.target text hwrite)
    refine ⟨original', receiptOriginal', ⟨?_, hreceipt', hold⟩, hsome, nofun, fun other hother => ?_⟩
    · rw [htarget]
      unfold written
      rw [hwrite]
      exact readHostConfig_of_snapshot hread'
    · cases hother
      exact (snapshotOf_bytes hread').1

end

/-! ## Connecting again -/

/-- Planned on these files, the connect finds everything in place and changes nothing. -/
def ConnectsAgain (crates : Crates) (host : Host) (scope : Scope) (profile : Text)
    (descriptor : LaunchDescriptor) (target : PosixPath) (requested : Option OpenCodeVersion)
    (nodes : Nodes) : Prop :=
  ∃ plan, planConnectAtVersion crates host scope profile descriptor target requested nodes = .ok plan
    ∧ plan.action = .alreadyConnected ∧ Idle plan ∧ plan.after crates.receipts nodes = nodes

section

variable {json : JsonCrate} {digestBytes : Bytes → Text} {isToml : Text → Bool} {host : Host}
  {scope : Scope} {profile : Text} {descriptor : LaunchDescriptor} {target : PosixPath}
  {requested : Option OpenCodeVersion} {nodes : Nodes} {plan : ConnectionPlan OwnershipReceipt}

theorem idle_keepPlan {action : ChangeAction} {receiptPath : Sibling target ".kaleidoscope-owner.json"}
    {backupPath : Sibling target ".kaleidoscope-backup"} {original receiptOriginal : Snapshot} :
    Idle (keepPlan action target receiptPath backupPath original receiptOriginal) :=
  ⟨rfl, rfl, rfl⟩

theorem connectsAgain_of_noop {crates : Crates}
    (h : planConnectAtVersion crates host scope profile descriptor target requested nodes = .ok plan)
    (haction : plan.action = .alreadyConnected) (hidle : Idle plan) :
    ConnectsAgain crates host scope profile descriptor target requested
      (plan.after crates.receipts nodes) := by
  have hnodes : plan.after crates.receipts nodes = nodes := by
    refine after_noop ?_
    rw [haction]
    rfl
  rw [hnodes]
  exact ⟨plan, h, haction, hidle, hnodes⟩

theorem readable_of_again (hjson : json.Lawful) {receipt : OwnershipReceipt}
    (h : planConnectAtVersion (jsonCrates json digestBytes isToml) host scope profile descriptor
      target requested nodes = .ok plan)
    (hdone : plan.action.isNoop = false) (hafter : plan.receiptAfter = some receipt)
    (hagain : ConnectsAgain (jsonCrates json digestBytes isToml) host scope profile descriptor target
      requested (plan.after (jsonCrates json digestBytes isToml).receipts nodes)) :
    Readable (jsonCrates json digestBytes isToml).receipts maxHostConfigBytes plan := by
  obtain ⟨plan', hplan', -⟩ := hagain
  obtain ⟨-, -, _, _, -, -, original, receiptOriginal, old, hreads, -⟩ :=
    planConnectAtVersion_iff.mp hplan'
  obtain ⟨bytes, hbytes, -⟩ := receipt_acceptedOnly hjson (.connect h) receipt hafter
  exact readable_of_reads hdone hbytes hreads

/-- It is enough that the planner finds nothing to do in what it reads after the first connect. -/
theorem again_of_readable (hjson : json.Lawful) {receipt : OwnershipReceipt}
    {original receiptOriginal : Snapshot} {old : Option OwnershipReceipt}
    (h : planConnectAtVersion (jsonCrates json digestBytes isToml) host scope profile descriptor
      target requested nodes = .ok plan)
    (hreads : Reads (jsonCrates json digestBytes isToml) host scope target nodes original
      receiptOriginal old)
    (hdone : plan.action.isNoop = false) (hafter : plan.receiptAfter = some receipt)
    (hkept : plan.write ≠ .remove)
    (hreadable : Readable (jsonCrates json digestBytes isToml).receipts maxHostConfigBytes plan)
    (hidle : ∀ receiptPath backupPath original' receiptOriginal',
      receiptOriginal'.bytes.isSome = true → (plan.write = .leave → original' = original) →
      (∀ text, plan.write = .write text → original'.bytes = some text) →
      planFrom (jsonCrates json digestBytes isToml) host scope profile descriptor target receiptPath
          backupPath original' receiptOriginal' (some receipt) requested
        = .ok (keepPlan .alreadyConnected target receiptPath backupPath original'
          receiptOriginal')) :
    ConnectsAgain (jsonCrates json digestBytes isToml) host scope profile descriptor target requested
      (plan.after (jsonCrates json digestBytes isToml).receipts nodes) := by
  obtain ⟨husage, hprofile, receiptPath, backupPath, hreceiptPath, hbackupPath, -⟩ :=
    planConnectAtVersion_iff.mp h
  obtain ⟨original', receiptOriginal', hreads', hsome, hleave, hwrite⟩ :=
    reads_of_readable hjson (.connect h) hreads hdone hafter hkept hreadable
  have hplan := planConnectAtVersion_iff.mpr ⟨husage, hprofile, receiptPath, backupPath,
    hreceiptPath, hbackupPath, original', receiptOriginal', some receipt, hreads',
    hidle receiptPath backupPath original' receiptOriginal' hsome hleave hwrite⟩
  exact ⟨_, hplan, rfl, idle_keepPlan, after_noop rfl⟩

theorem distinct_getJsonPath {path : List Text} {v entry : Value} (hv : v.Distinct)
    (h : getJsonPath path v = some entry) : entry.Distinct := by
  induction path generalizing v with
  | nil =>
    cases h
    exact hv
  | cons key path ih =>
    obtain ⟨inner, hinner, h⟩ := Option.bind_eq_some_iff.mp h
    refine ih ?_ h
    cases hv with
    | object _ hmembers => exact hmembers _ (Members.mem_of_lookup hinner)
    | _ => cases hinner

/-- What a connect puts into a document, and where. -/
structure Puts (host : Host) (descriptor : LaunchDescriptor) (version : Option OpenCodeVersion) :
    Prop where
  sound : Sound 2 (desiredJsonEntry host descriptor version)
  floatFree : (desiredJsonEntry host descriptor version).FloatFree
  deep : ∃ n, 2 ≤ n ∧ recursionLimit = n + (jsonEntryPath host version).length

theorem puts_of_selected {crates : Crates} {document : Value} {old : Option OwnershipReceipt}
    {version : Option OpenCodeVersion} (hhost : host ≠ .codex)
    (h : openCodeVersion host document old requested = .ok version) :
    Puts host descriptor version := by
  obtain ⟨jsonHost, hjson⟩ := json_isSome hhost (openCodeVersion_isSome h)
  have hdesired : desiredJsonEntry host descriptor version
      = Kaleidoscope.desiredJsonEntry jsonHost descriptor.command.display descriptor.args := by
    unfold desiredJsonEntry
    rw [hjson, Option.elim_some]
  have hpath : jsonEntryPath host version = Kaleidoscope.jsonEntryPath jsonHost := by
    unfold jsonEntryPath
    rw [hjson, Option.elim_some]
  obtain ⟨hsound, hfree⟩ := desired_sound jsonHost descriptor.command.display descriptor.args
  refine ⟨hdesired ▸ hsound, hdesired ▸ hfree, ?_⟩
  rw [hpath]
  match jsonHost with
  | .claudeCode | .cursor | .openCode .stableV1 => exact ⟨125, by decide, rfl⟩
  | .openCode .betaV2 => exact ⟨124, by decide, rfl⟩

/-- The version that was selected for a document is selected for it with its entry. -/
theorem openCodeVersion_put {document document' desired : Value} {old : Option OwnershipReceipt}
    {version : Option OpenCodeVersion} {receipt : OwnershipReceipt} (f : UInt64 → UInt64)
    (h : openCodeVersion host document old requested = .ok version)
    (hset : setJsonPath desired (jsonEntryPath host version) document = .ok document')
    (hreceipt : receipt.openCodeVersion = version) :
    openCodeVersion host (document'.mapFloats f) (some receipt) requested = .ok version := by
  refine openCodeVersion_again h hreceipt fun selected state hselected hstate hconflict => ?_
  subst hselected
  have hhost : host = .openCode := of_decide_eq_true (openCodeVersion_isSome h).symm
  subst hhost
  rw [openCodeShapeState_mapFloats]
  exact openCodeShapeState_set hstate hconflict hset

/-- A JSON host is found connected again exactly where what was written can be read. -/
theorem connect_again_json (hjson : json.Lawful) (hhost : host ≠ .codex)
    (h : planConnectAtVersion (jsonCrates json digestBytes isToml) host scope profile descriptor
      target requested nodes = .ok plan) :
    ConnectsAgain (jsonCrates json digestBytes isToml) host scope profile descriptor target requested
        (plan.after (jsonCrates json digestBytes isToml).receipts nodes)
      ↔ Readable (jsonCrates json digestBytes isToml).receipts maxHostConfigBytes plan := by
  obtain ⟨husage, hprofile, receiptPath, backupPath, hreceiptPath, hbackupPath, original,
    receiptOriginal, old, hreads, hfrom⟩ := planConnectAtVersion_iff.mp h
  have hplanFrom : ∀ receiptPath backupPath original receiptOriginal old,
      planFrom (jsonCrates json digestBytes isToml) host scope profile descriptor target receiptPath
        backupPath original receiptOriginal old requested
      = planJsonConnect (jsonCrates json digestBytes isToml) host scope profile descriptor target
        receiptPath backupPath original receiptOriginal old requested := by
    intro receiptPath backupPath original receiptOriginal old
    cases host with
    | codex => exact absurd rfl hhost
    | _ => rfl
  rw [hplanFrom] at hfrom
  have hdigest : ∀ receipt, plan.receiptAfter = some receipt → OwnershipReceipt.digestHolds
      (jsonCrates json digestBytes isToml) receipt receipt.format = true := fun receipt hafter =>
    digestHolds_of_valid (Planned.new (.connect h) hafter).valid
  cases planJsonConnect_cases hfrom with
  | kept haction hidle =>
    exact ⟨fun _ => hidle.readable, fun _ => connectsAgain_of_noop h haction hidle⟩
  | @adopted document entry version receipt hparsed hselected hhere hsame haction hwrite hafter
      hnames =>
    have hdone : plan.action.isNoop = false := by
      rw [haction]
      rfl
    have hkept : plan.write ≠ .remove := by
      rw [hwrite]
      nofun
    refine ⟨readable_of_again hjson h hdone hafter, fun hreadable =>
      again_of_readable hjson h hreads hdone hafter hkept hreadable ?_⟩
    intro receiptPath backupPath original' receiptOriginal' hsome hleave _
    rw [hplanFrom, hleave hwrite]
    have hputs : Puts host descriptor version :=
      @puts_of_selected host descriptor requested (jsonCrates json digestBytes isToml) _ _ _ hhost
        hselected
    have hdistinct := (parseJsonDocument_eq_ok hjson hparsed).1.distinct
    refine planJsonConnect_noop hparsed
      (openCodeVersion_again hselected hnames.version fun _ state _ hstate hconflict =>
        ⟨state, hstate, hconflict⟩) hhere hsame ?_ hnames.format (hdigest receipt hafter) hsome
    rw [hnames.owned]
    exact Value.same_symm (distinct_getJsonPath hdistinct hhere) hputs.sound.distinct hsame
  | @put document document' version receipt hparsed hselected hset hdone hwrite hafter hnames =>
    have hkept : plan.write ≠ .remove := by
      rw [hwrite]
      nofun
    refine ⟨readable_of_again hjson h hdone hafter, fun hreadable =>
      again_of_readable hjson h hreads hdone hafter hkept hreadable ?_⟩
    intro receiptPath backupPath original' receiptOriginal' hsome _ hwritten
    rw [hplanFrom]
    have hputs : Puts host descriptor version :=
      @puts_of_selected host descriptor requested (jsonCrates json digestBytes isToml) _ _ _ hhost
        hselected
    obtain ⟨n, hdeep, hlimit⟩ := hputs.deep
    have hsound : Sound recursionLimit document' := by
      have hdocument := (parseJsonDocument_eq_ok hjson hparsed).1
      rw [hlimit] at hdocument ⊢
      exact sound_set ⟨hputs.sound.distinct, hputs.sound.within.mono hdeep⟩ hdocument hset
    have hentry : getJsonPath (jsonEntryPath host version) (document'.mapFloats json.reread)
        = some (desiredJsonEntry host descriptor version) := by
      rw [getJsonPath_mapFloats, getJsonPath_set hset, Option.map_some,
        Value.mapFloats_floatFree hputs.floatFree]
    refine planJsonConnect_noop (parseJsonDocument_encode hjson hsound (setJsonPath_isObject hset)
        (hwritten _ hwrite)) (openCodeVersion_put _ hselected hset hnames.version) hentry
      (Value.same_refl hputs.sound.distinct) ?_ hnames.format (hdigest receipt hafter) hsome
    rw [hnames.owned]
    exact Value.same_refl hputs.sound.distinct

end

end Hosts

end Kaleidoscope
