import Kaleidoscope.HostCodex
import Kaleidoscope.HostPaths
import Kaleidoscope.JsonWriter

/-!
# The two shapes of OpenCode

A run of connects and disconnects, with edits of the user between them, keeps the manager's entry
under one shape: the one whose version the owner receipt records.

    openCode_one_shape    over every run
-/

namespace Kaleidoscope.Hosts

open Prog Disk

section

variable (crates : Crates)

/-! ## Statement -/

/-- The entry of a version in the text of a file. -/
def entryOf (version : OpenCodeVersion) (bytes : Option Bytes) : Option Value :=
  (bytes.bind crates.json.fromSlice).bind
    (getJsonPath (Kaleidoscope.jsonEntryPath (.openCode version)))

def entryUnder (version : OpenCodeVersion) (node : Option Node) : Option Value :=
  entryOf crates version (bytesIn node)

def receiptIn (node : Option Node) : Option OwnershipReceipt :=
  (bytesIn node).bind crates.fromSlice

inductive Operation where
  | connect (profile : Text) (descriptor : LaunchDescriptor) (requested : Option OpenCodeVersion)
  | disconnect

def Operation.plan (scope : Scope) (target : PosixPath) (nodes : Nodes) :
    Operation → Result (ConnectionPlan OwnershipReceipt)
  | .connect profile descriptor requested =>
    planConnectAtVersion crates .openCode scope profile descriptor target requested nodes
  | .disconnect => planDisconnectAt crates .openCode scope target nodes

/-- An operation that is refused leaves everything as it is. -/
def Operation.run (scope : Scope) (target : PosixPath) (nodes : Nodes) (operation : Operation) :
    Nodes :=
  match operation.plan crates scope target nodes with
  | .ok plan => plan.after crates.receipts nodes
  | .error _ => nodes

inductive Step (scope : Scope) (target : PosixPath) (nodes : Nodes) : Nodes → Prop
  | operation (operation : Operation) :
    Step scope target nodes (operation.run crates scope target nodes)
  /-- an edit of the file that leaves the entries where they are, and makes none -/
  | edit (node : Option Node)
    (keeps : ∀ version, (entryUnder crates version node).isSome
      = (entryUnder crates version nodes.target).isSome) :
    Step scope target nodes { nodes with target := node }

/-- The states of a run, the last one first. -/
inductive Run (scope : Scope) (target : PosixPath) (start : Nodes) : List Nodes → Prop
  | start : Run scope target start [start]
  | step {nodes nodes' : Nodes} {past : List Nodes} : Run scope target start (nodes :: past) →
    Step crates scope target nodes nodes' → Run scope target start (nodes' :: nodes :: past)

/-- The texts of the target and of its backup. -/
def Seen (history : List Nodes) (bytes : Bytes) : Prop :=
  ∃ nodes ∈ history, bytesIn nodes.target = some bytes ∨ bytesIn nodes.backup = some bytes

/-- No two texts of a run have the same digest. -/
def ToldApart (history : List Nodes) : Prop :=
  ∀ a b, Seen history a → Seen history b → digest crates a = digest crates b → a = b

/-- What the planners take for granted of the crates. -/
structure Crates.Lawful : Prop where
  json : crates.json.Lawful
  digest : ∀ bytes, digest crates bytes ≠ []
  encodes : ∀ receipt, (crates.receipts.toVecPretty receipt).isSome = true
  reads : ∀ host scope receipt bytes,
    OwnershipReceipt.validate crates receipt host scope = .ok () → receipt.owned.Distinct →
    receipt.owned.FloatFree → receipt.owned.Within (recursionLimit - 1) →
    encodeReceipt crates.receipts receipt = .ok bytes → crates.fromSlice bytes = some receipt

/-- There is an entry under one shape at most, and a receipt names the one that it is under. -/
structure OneShape (nodes : Nodes) : Prop where
  one : entryUnder crates .stableV1 nodes.target = none
    ∨ entryUnder crates .betaV2 nodes.target = none
  recorded : ∀ receipt, receiptIn crates nodes.receipt = some receipt →
    ∃ version, receipt.openCodeVersion = some version
      ∧ (entryUnder crates version nodes.target).isSome = true

/-- An entry that a receipt names is not under the other shape afterwards, and a receipt that is
there afterwards names the same. -/
def NotMoved (nodes nodes' : Nodes) : Prop :=
  ∀ receipt version, receiptIn crates nodes.receipt = some receipt →
    receipt.openCodeVersion = some version →
    (∀ other, other ≠ version → entryUnder crates other nodes'.target = none)
      ∧ ∀ receipt', receiptIn crates nodes'.receipt = some receipt' →
        receipt'.openCodeVersion = some version

end

/-! ## Reading -/

section

variable {crates : Crates} {host : Host} {scope : Scope} {target : PosixPath} {node : Option Node}
  {nodes nodes' : Nodes} {original : Snapshot} {document : Value}

theorem readHostConfig_eq_ok (h : readHostConfig crates target host scope node = .ok original) :
    snapshotOf (digest crates) maxHostConfigBytes connectionTraits.targetName node
      = .ok original := by
  unfold readHostConfig at h
  split at h
  · split at h
    · split at h
      · cases h
      · cases h
    · cases h
  · exact h

theorem decodeReceipt_eq_ok {receiptOriginal : Snapshot} {receipt : Option OwnershipReceipt}
    (hread : readReceipt crates node = .ok receiptOriginal)
    (h : decodeReceipt crates receiptOriginal host scope = .ok receipt) :
    receiptIn crates node = receipt := by
  unfold receiptIn
  rw [← (snapshotOf_bytes hread).1]
  unfold decodeReceipt at h
  cases hbytes : receiptOriginal.bytes with
  | none =>
    rw [hbytes] at h
    cases h
    rfl
  | some bytes =>
    simp only [hbytes] at h
    rw [Option.bind_some]
    split at h
    · cases h
    next receipt hreceipt =>
      obtain ⟨_, -, h⟩ := except_bind_eq_ok.mp h
      cases h
      exact hreceipt

theorem parseJsonDocument_eq_ok (hjson : crates.json.Lawful)
    (h : parseJsonDocument crates original = .ok document) :
    Sound recursionLimit document ∧ ∀ version, entryOf crates version original.bytes
      = getJsonPath (Kaleidoscope.jsonEntryPath (.openCode version)) document := by
  have hempty : ∀ version, getJsonPath (Kaleidoscope.jsonEntryPath (.openCode version))
      (.object []) = none := by
    intro version
    cases version <;> rfl
  unfold parseJsonDocument at h
  cases hbytes : original.bytes with
  | none =>
    rw [hbytes] at h
    cases h
    exact ⟨sound_empty 126, fun version => (hempty version).symm⟩
  | some bytes =>
    simp only [hbytes] at h
    split at h
    next hblank =>
      cases h
      refine ⟨sound_empty 126, fun version => ?_⟩
      have hnone : crates.json.fromSlice bytes = none := hjson.blank _ hblank
      rw [hempty, entryOf, Option.bind_some, hnone]
      rfl
    · split at h
      · cases h
      next document' hdocument =>
        obtain ⟨_, -, h⟩ := except_bind_eq_ok.mp h
        cases h
        obtain ⟨hdistinct, hwithin⟩ := hjson.wellFormed _ _ hdocument
        refine ⟨⟨hdistinct, hwithin⟩, fun version => ?_⟩
        rw [entryOf, Option.bind_some, hdocument]
        rfl

/-- The entries of a document that was written are those of the document. -/
theorem entryOf_encode (hjson : crates.json.Lawful) (hsound : Sound recursionLimit document)
    (version : OpenCodeVersion) :
    (entryOf crates version (some (crates.json.encode document))).isSome
      = (getJsonPath (Kaleidoscope.jsonEntryPath (.openCode version)) document).isSome := by
  have hread : crates.json.fromSlice (crates.json.encode document)
      = some (document.mapFloats crates.json.reread) :=
    hjson.reads document hsound.distinct hsound.within
  rw [entryOf, Option.bind_some, hread, Option.bind_some, getJsonPath_mapFloats,
    Option.isSome_map]

/-- So are those of a text from which the entry was cut out. -/
theorem entryOf_exciseOrEncode (hjson : crates.json.Lawful) {before : Value}
    (hsound : Sound recursionLimit document) (version : OpenCodeVersion) :
    (entryOf crates version (some (exciseOrEncode crates original before document))).isSome
      = (getJsonPath (Kaleidoscope.jsonEntryPath (.openCode version)) document).isSome := by
  unfold exciseOrEncode
  simp only
  split
  next text hexcise =>
    unfold JsonSpan.excise at hexcise
    split at hexcise
    · cases hexcise
    · obtain ⟨_, -, hexcise⟩ := Option.bind_eq_some_iff.mp hexcise
      obtain ⟨_, -, hexcise⟩ := Option.bind_eq_some_iff.mp hexcise
      obtain ⟨_, -, hexcise⟩ := Option.bind_eq_some_iff.mp hexcise
      obtain ⟨_, -, hexcise⟩ := Option.bind_eq_some_iff.mp hexcise
      obtain ⟨reparsed, hreparsed, hexcise⟩ := Option.bind_eq_some_iff.mp hexcise
      obtain ⟨hsame, hout⟩ := Option.ite_none_right_eq_some.mp hexcise
      have hread : crates.json.fromSlice ⟨text.toArray⟩ = some reparsed := by
        rw [← Option.some.inj hout]
        exact hreparsed
      rw [entryOf, Option.bind_some, hread, Option.bind_some]
      exact getJsonPath_same (hjson.wellFormed _ _ hreparsed).1 hsame
  next => exact entryOf_encode hjson hsound version

/-! ## What a plan does -/

/-- What a planner reads of the files. -/
structure Looked (crates : Crates) (scope : Scope) (target : PosixPath) (nodes : Nodes)
    (original : Snapshot) (document : Value) (receipt : Option OwnershipReceipt) : Prop where
  bytes : original.bytes = bytesIn nodes.target
  digest : ∀ bytes, bytesIn nodes.target = some bytes → original.sha256 = digest crates bytes
  sound : Sound recursionLimit document
  entry : ∀ version, entryUnder crates version nodes.target
    = getJsonPath (Kaleidoscope.jsonEntryPath (.openCode version)) document
  receipt : receiptIn crates nodes.receipt = receipt

theorem looked_of_reads (hjson : crates.json.Lawful) {receiptOriginal : Snapshot}
    {receipt : Option OwnershipReceipt}
    (horiginal : readHostConfig crates target .openCode scope nodes.target = .ok original)
    (hreceiptOriginal : readReceipt crates nodes.receipt = .ok receiptOriginal)
    (hreceipt : decodeReceipt crates receiptOriginal .openCode scope = .ok receipt)
    (hdocument : parseJsonDocument crates original = .ok document) :
    Looked crates scope target nodes original document receipt := by
  obtain ⟨hbytes, hdigest⟩ := snapshotOf_bytes (readHostConfig_eq_ok horiginal)
  obtain ⟨hsound, hentry⟩ := parseJsonDocument_eq_ok hjson hdocument
  refine ⟨hbytes, hdigest, hsound, fun version => ?_, decodeReceipt_eq_ok hreceiptOriginal hreceipt⟩
  rw [← hentry version, hbytes]
  rfl

/-- What a connect does: nothing, or it writes the document with the entry in it. -/
inductive Connects (crates : Crates) (scope : Scope) (nodes : Nodes) (original : Snapshot)
    (document : Value) (receipt : Option OwnershipReceipt) (version : OpenCodeVersion)
    (plan : ConnectionPlan OwnershipReceipt) : Prop
  | noop (known : receipt.isSome = true) (kept : plan.action.isNoop = true)
  | adopt (unknown : receipt = none)
    (found : (getJsonPath (Kaleidoscope.jsonEntryPath (.openCode version)) document).isSome = true)
  | write {desired document' : Value} {owner : OwnershipReceipt} (done : plan.action.isNoop = false)
    (set : setJsonPath desired (Kaleidoscope.jsonEntryPath (.openCode version)) document
      = .ok document')
    (desiredSound : Sound 2 desired) (floatFree : desired.FloatFree)
    (written : plan.write = .write (crates.json.encode document'))
    (after : plan.receiptAfter = some owner) (owned : owner.owned = desired)
    (valid : OwnershipReceipt.validate crates owner .openCode scope = .ok ())
    (recorded : owner.openCodeVersion = some version)
    (created : owner.configCreated = receipt.elim original.bytes.isNone (·.configCreated))
    (pre : owner.preSha256 = preSha256 original receipt)
    (adopted : owner.adopted = receipt.any (·.adopted))

/-- What a disconnect does: nothing, or it takes the entry out of the document or puts the backup
back, and removes the receipt. -/
inductive Disconnects (crates : Crates) (nodes : Nodes) (original : Snapshot) (document : Value)
    (receipt : Option OwnershipReceipt) (plan : ConnectionPlan OwnershipReceipt) : Prop
  | noop (kept : plan.action.isNoop = true)
  | removed {document' : Value} {owner : OwnershipReceipt} (known : receipt = some owner)
    (remove : removeJsonPath (jsonEntryPath .openCode owner.openCodeVersion) document
      = .ok document')
    (done : plan.action.isNoop = false) (after : plan.receiptAfter = none)
    (written : plan.write = .remove
      ∨ plan.write = .write (exciseOrEncode crates original document document')
      ∨ owner.configCreated = false ∧ ∃ bytes, bytesIn nodes.backup = some bytes
        ∧ digest crates bytes = owner.preSha256 ∧ plan.write = .write bytes)

theorem desired_sound (host : JsonHost) (command : Text) (args : List Text) :
    Sound 2 (Kaleidoscope.desiredJsonEntry host command args)
      ∧ (Kaleidoscope.desiredJsonEntry host command args).FloatFree := by
  have hstrings : ∀ texts, (strings texts).Distinct ∧ (strings texts).Within 1
      ∧ (strings texts).FloatFree := by
    intro texts
    unfold strings
    refine ⟨.array ?_, .array ?_, .array ?_⟩ <;> simp only [List.forall_mem_map]
    · exact fun text _ => .string text
    · exact fun text _ => .string text
    · exact fun text _ => .string text
  have hthree : ∀ a b c : Text, [a, b, c].Nodup → ∀ u v w : Value,
      (u.Distinct ∧ u.Within 1 ∧ u.FloatFree) → (v.Distinct ∧ v.Within 1 ∧ v.FloatFree) →
      (w.Distinct ∧ w.Within 1 ∧ w.FloatFree) →
      Sound 2 (.object [(a, u), (b, v), (c, w)]) ∧ (Value.object [(a, u), (b, v), (c, w)]).FloatFree
      := by
    intro a b c hnodup u v w hu hv hw
    refine ⟨⟨.object hnodup ?_, .object ?_⟩, .object ?_⟩ <;>
      simp only [List.forall_mem_cons, List.not_mem_nil, false_implies, implies_true, and_true]
    · exact ⟨hu.1, hv.1, hw.1⟩
    · exact ⟨hu.2.1, hv.2.1, hw.2.1⟩
    · exact ⟨hu.2.2, hv.2.2, hw.2.2⟩
  have hstring : ∀ s : Text, (Value.string s).Distinct ∧ (Value.string s).Within 1
      ∧ (Value.string s).FloatFree := fun s => ⟨.string s, .string s, .string s⟩
  have hbool : ∀ b : Bool, (Value.bool b).Distinct ∧ (Value.bool b).Within 1
      ∧ (Value.bool b).FloatFree := fun b => ⟨.bool b, .bool b, .bool b⟩
  match host with
  | .claudeCode => exact hthree _ _ _ (by decide) _ _ _ (hstring _) (hstring _) (hstrings _)
  | .cursor =>
    obtain ⟨hd, hw, hf⟩ := hstrings args
    have hnodup : ["command".toList, "args".toList].Nodup := by decide
    refine ⟨⟨.object hnodup ?_, .object ?_⟩, .object ?_⟩ <;>
      simp only [List.forall_mem_cons, List.not_mem_nil, false_implies, implies_true, and_true]
    · exact ⟨.string _, hd⟩
    · exact ⟨.string _, hw⟩
    · exact ⟨.string _, hf⟩
  | .openCode .stableV1 =>
    exact hthree _ _ _ (by decide) _ _ _ (hstring _) (hstrings _) (hbool _)
  | .openCode .betaV2 =>
    exact hthree _ _ _ (by decide) _ _ _ (hstring _) (hstrings _) (hbool _)

theorem selectOpenCodeVersion_eq_ok {receipt : Option OwnershipReceipt}
    {requested : Option OpenCodeVersion} {version : OpenCodeVersion}
    (h : selectOpenCodeVersion document receipt requested = .ok version) :
    ∀ owner ∈ receipt, owner.openCodeVersion = some version := by
  intro owner howner
  cases howner
  obtain ⟨state, -, h⟩ := except_bind_eq_ok.mp h
  obtain ⟨selected, hselected, h⟩ := except_bind_eq_ok.mp h
  obtain ⟨_, -, h⟩ := except_bind_eq_ok.mp h
  cases h
  unfold selectedVersion at hselected
  simp only at hselected
  split at hselected
  · cases hselected
  next owned howned =>
    obtain ⟨_, -, hselected⟩ := except_bind_eq_ok.mp hselected
    cases hselected
    exact howned

theorem noChangePlan_eq_ok {action : ChangeAction}
    {receiptPath : Sibling target ".kaleidoscope-owner.json"}
    {backupPath : Sibling target ".kaleidoscope-backup"} {receiptOriginal : Snapshot}
    {plan : ConnectionPlan OwnershipReceipt}
    (h : noChangePlan action target receiptPath backupPath original receiptOriginal = .ok plan) :
    plan = keepPlan action target receiptPath backupPath original receiptOriginal := by
  obtain ⟨_, -, h⟩ := except_bind_eq_ok.mp h
  cases h
  rfl

/-- A receipt that the manager makes is one that it accepts. -/
theorem newReceipt_eq_ok {profile preSha256 postSha256 : Text} {desired : Value}
    {configCreated adopted : Bool} {version : OpenCodeVersion} {owner : OwnershipReceipt}
    (hobject : desired.isObject = true)
    (h : newReceipt crates .openCode scope profile .jsonEntry desired configCreated (some version)
      preSha256 postSha256 adopted = .ok owner) :
    OwnershipReceipt.validate crates owner .openCode scope = .ok ()
      ∧ owner.owned = desired ∧ owner.openCodeVersion = some version
      ∧ owner.configCreated = configCreated ∧ owner.preSha256 = preSha256
      ∧ owner.adopted = adopted := by
  obtain ⟨_, hprofile, h⟩ := except_bind_eq_ok.mp h
  obtain ⟨ownedSha256, hdigest, h⟩ := except_bind_eq_ok.mp h
  cases h
  refine ⟨?_, rfl, rfl, rfl, rfl, rfl⟩
  refine except_bind_eq_ok.mpr ⟨(), rejectIf_eq_ok.mpr ?_, ?_⟩
  · cases hdigest
    rintro (hbad | hbad | hbad | hbad | hbad | hbad | hbad)
    · exact hbad rfl
    · exact hbad rfl
    · exact hbad rfl
    · exact hbad rfl
    · simp only [hprofile] at hbad
      cases hbad
    · simp [OwnershipReceipt.digestHolds, ownedDigest] at hbad
    · exact hbad rfl
  · exact rejectIf_eq_ok.mpr (by simp [hobject])

theorem planConnectAtVersion_eq_ok (hjson : crates.json.Lawful) {profile : Text}
    {descriptor : LaunchDescriptor} {requested : Option OpenCodeVersion}
    {plan : ConnectionPlan OwnershipReceipt}
    (h : planConnectAtVersion crates .openCode scope profile descriptor target requested nodes
      = .ok plan) :
    ∃ original document receipt version,
      Looked crates scope target nodes original document receipt
        ∧ (∀ owner ∈ receipt, owner.openCodeVersion = some version)
        ∧ Connects crates scope nodes original document receipt version plan := by
  obtain ⟨_, -, h⟩ := except_bind_eq_ok.mp h
  obtain ⟨_, -, h⟩ := except_bind_eq_ok.mp h
  obtain ⟨receiptPath, -, h⟩ := except_bind_eq_ok.mp h
  obtain ⟨backupPath, -, h⟩ := except_bind_eq_ok.mp h
  obtain ⟨original, horiginal, h⟩ := except_bind_eq_ok.mp h
  obtain ⟨receiptOriginal, hreceiptOriginal, h⟩ := except_bind_eq_ok.mp h
  obtain ⟨receipt, hreceipt, h⟩ := except_bind_eq_ok.mp h
  simp only at h
  obtain ⟨document, hdocument, h⟩ := except_bind_eq_ok.mp h
  obtain ⟨selected, hselected, h⟩ := except_bind_eq_ok.mp h
  obtain ⟨version, hversion, hselected⟩ := except_bind_eq_ok.mp hselected
  cases hselected
  refine ⟨original, document, receipt, version,
    looked_of_reads hjson horiginal hreceiptOriginal hreceipt hdocument,
    selectOpenCodeVersion_eq_ok hversion, ?_⟩
  obtain ⟨action, haction, h⟩ := except_bind_eq_ok.mp h
  split at h
  next hknown =>
    rw [noChangePlan_eq_ok h]
    exact .noop hknown.2 rfl
  · obtain ⟨written, hwritten, h⟩ := except_bind_eq_ok.mp h
    obtain ⟨owner, howner, h⟩ := except_bind_eq_ok.mp h
    cases h
    by_cases hadopt : action = .adopt
    · unfold connectAction at haction
      cases receipt with
      | some owner =>
        obtain ⟨_, -, haction⟩ := except_bind_eq_ok.mp haction
        rw [hadopt] at haction
        split at haction <;> cases haction
      | none =>
        simp only at haction
        split at haction
        next hfound =>
          refine .adopt rfl ?_
          rw [Option.any_eq_true] at hfound
          obtain ⟨found, hfound, -⟩ := hfound
          exact Option.isSome_iff_exists.mpr ⟨found, hfound⟩
        · obtain ⟨_, -, haction⟩ := except_bind_eq_ok.mp haction
          rw [hadopt] at haction
          cases haction
    · unfold connectWrite at hwritten
      rw [if_neg hadopt] at hwritten
      obtain ⟨document', hset, hwritten⟩ := except_bind_eq_ok.mp hwritten
      cases hwritten
      obtain ⟨hsound, hfree⟩ := desired_sound (.openCode version) descriptor.command.display
        descriptor.args
      have hobject : (Kaleidoscope.desiredJsonEntry (.openCode version)
          descriptor.command.display descriptor.args).isObject = true := by
        cases version <;> rfl
      obtain ⟨hvalid, howned, hrecorded, hcreated, hpre, hadopted⟩ :=
        newReceipt_eq_ok hobject howner
      refine .write ?_ hset hsound hfree rfl rfl howned hvalid hrecorded ?_ hpre ?_
      · unfold connectAction at haction
        cases receipt with
        | some owner =>
          obtain ⟨_, -, haction⟩ := except_bind_eq_ok.mp haction
          split at haction <;> cases haction <;> rfl
        | none =>
          simp only at haction
          split at haction
          · cases haction
            exact absurd rfl hadopt
          · obtain ⟨_, -, haction⟩ := except_bind_eq_ok.mp haction
            cases haction
            rfl
      · rw [hcreated]
        simp [hadopt]
      · rw [hadopted]
        simp [hadopt]

theorem resolveRestore_eq_ok {backup : Option Node} {owner : OwnershipReceipt}
    {structural : TargetWrite} {restored : RestoreTier × TargetWrite × Bool}
    (h : resolveRestore crates original backup owner structural = .ok restored) :
    restored.2.1 = structural ∨ restored.2.1 = .remove
      ∨ owner.configCreated = false ∧ ∃ bytes, bytesIn backup = some bytes
        ∧ digest crates bytes = owner.preSha256 ∧ restored.2.1 = .write bytes := by
  unfold resolveRestore at h
  split at h
  · cases h
    exact .inl rfl
  · obtain ⟨snapshot, hsnapshot, h⟩ := except_bind_eq_ok.mp h
    obtain ⟨hbytes, hdigest⟩ := snapshotOf_bytes hsnapshot
    simp only at h
    split at h
    next hours =>
      split at h
      · cases h
        exact .inr (.inl rfl)
      next hcreated =>
        cases h
        rw [Bool.not_eq_true] at hcreated
        simp only [hcreated, Bool.false_or, Bool.and_eq_true] at hours
        obtain ⟨bytes, hsome⟩ := Option.isSome_iff_exists.mp hours.2.1.1
        rw [hbytes] at hsome
        refine .inr (.inr ⟨hcreated, bytes, hsome, ?_, ?_⟩)
        · rw [← hdigest bytes hsome]
          exact beq_iff_eq.mp hours.2.2
        · rw [hbytes, hsome]
          rfl
    · cases h
      exact .inl rfl

theorem planDisconnectAt_eq_ok (hjson : crates.json.Lawful)
    {plan : ConnectionPlan OwnershipReceipt}
    (h : planDisconnectAt crates .openCode scope target nodes = .ok plan) :
    ∃ original document receipt, Looked crates scope target nodes original document receipt
      ∧ Disconnects crates nodes original document receipt plan := by
  obtain ⟨receiptPath, -, h⟩ := except_bind_eq_ok.mp h
  obtain ⟨backupPath, -, h⟩ := except_bind_eq_ok.mp h
  obtain ⟨original, horiginal, h⟩ := except_bind_eq_ok.mp h
  obtain ⟨receiptOriginal, hreceiptOriginal, h⟩ := except_bind_eq_ok.mp h
  obtain ⟨receipt, hreceipt, h⟩ := except_bind_eq_ok.mp h
  simp only at h
  obtain ⟨document, hdocument, h⟩ := except_bind_eq_ok.mp h
  refine ⟨original, document, receipt,
    looked_of_reads hjson horiginal hreceiptOriginal hreceipt hdocument, ?_⟩
  cases receipt with
  | none =>
    obtain ⟨_, -, h⟩ := except_bind_eq_ok.mp h
    obtain ⟨_, -, h⟩ := except_bind_eq_ok.mp h
    rw [noChangePlan_eq_ok h]
    exact .noop rfl
  | some owner =>
    obtain ⟨_, -, h⟩ := except_bind_eq_ok.mp h
    obtain ⟨_, -, h⟩ := except_bind_eq_ok.mp h
    obtain ⟨document', hremove, h⟩ := except_bind_eq_ok.mp h
    obtain ⟨restored, hrestored, h⟩ := except_bind_eq_ok.mp h
    cases h
    refine .removed rfl hremove rfl rfl ?_
    rcases resolveRestore_eq_ok hrestored with hwrite | hwrite | ⟨hcreated, hbackup⟩
    · show restored.2.1 = _ ∨ restored.2.1 = _ ∨ _
      rw [hwrite]
      split
      · exact .inl rfl
      · exact .inr (.inl rfl)
    · exact .inl hwrite
    · exact .inr (.inr ⟨hcreated, hbackup⟩)

end

/-! ## The invariant -/

section

variable (crates : Crates) (history : List Nodes)

/-- The text was seen, and there was no entry in it. -/
def SeenFree (preSha256 : Text) : Prop :=
  ∃ bytes, Seen history bytes ∧ preSha256 = digest crates bytes
    ∧ ∀ version, entryOf crates version (some bytes) = none

/-- What a receipt says of the file: the entry is under its version, and the text that a removal
may put back is of a file without one. -/
structure Owned (nodes : Nodes) (receipt : OwnershipReceipt) (version : OpenCodeVersion) :
    Prop where
  recorded : receipt.openCodeVersion = some version
  here : (entryUnder crates version nodes.target).isSome = true
  apart : ∀ other, other ≠ version → entryUnder crates other nodes.target = none
  written : receipt.adopted = false
  before : receipt.configCreated = true ∨ SeenFree crates history receipt.preSha256

structure Inv (nodes : Nodes) : Prop where
  free : receiptIn crates nodes.receipt = none →
    ∀ version, entryUnder crates version nodes.target = none
  owned : ∀ receipt, receiptIn crates nodes.receipt = some receipt →
    ∃ version, Owned crates history nodes receipt version

end

section

variable {crates : Crates} {history : List Nodes} {scope : Scope} {target : PosixPath}
  {nodes nodes' : Nodes} {original : Snapshot} {document : Value}
  {receipt : Option OwnershipReceipt} {plan : ConnectionPlan OwnershipReceipt}

theorem Inv.oneShape (h : Inv crates history nodes) : OneShape crates nodes := by
  refine ⟨?_, fun receipt hreceipt => ?_⟩
  · cases hreceipt : receiptIn crates nodes.receipt with
    | none => exact .inl (h.free hreceipt .stableV1)
    | some receipt =>
      obtain ⟨version, howned⟩ := h.owned receipt hreceipt
      cases version with
      | stableV1 => exact .inr (howned.apart .betaV2 nofun)
      | betaV2 => exact .inl (howned.apart .stableV1 nofun)
  · obtain ⟨version, howned⟩ := h.owned receipt hreceipt
    exact ⟨version, howned.recorded, howned.here⟩

/-- A step after which the receipt is gone, or names the version that it named, moves nothing. -/
theorem Inv.notMoved (h' : Inv crates history nodes')
    (hversion : ∀ receipt version receipt', receiptIn crates nodes.receipt = some receipt →
      receipt.openCodeVersion = some version →
      receiptIn crates nodes'.receipt = some receipt' → receipt'.openCodeVersion = some version) :
    NotMoved crates nodes nodes' := by
  intro receipt version hreceipt hrecorded
  refine ⟨fun other hother => ?_, fun receipt' => hversion receipt version receipt' hreceipt hrecorded⟩
  cases hreceipt' : receiptIn crates nodes'.receipt with
  | none => exact h'.free hreceipt' other
  | some receipt' =>
    obtain ⟨version', howned⟩ := h'.owned receipt' hreceipt'
    have hsame := hversion receipt version receipt' hreceipt hrecorded hreceipt'
    rw [howned.recorded] at hsame
    cases hsame
    exact howned.apart other hother

/-- The two paths part after `mcp`. -/
theorem set_apart {desired document' : Value} {version other : OpenCodeVersion}
    (hne : other ≠ version) (h : setJsonPath desired
      (Kaleidoscope.jsonEntryPath (.openCode version)) document = .ok document') :
    getJsonPath (Kaleidoscope.jsonEntryPath (.openCode other)) document'
      = getJsonPath (Kaleidoscope.jsonEntryPath (.openCode other)) document := by
  match version, other with
  | .stableV1, .betaV2 =>
    exact @getJsonPath_set_apart _ _ _ _ _ ["mcp".toList] _ _ (by decide) h
  | .betaV2, .stableV1 =>
    exact @getJsonPath_set_apart _ _ _ _ _ ["mcp".toList] _ _ (by decide) h
  | .stableV1, .stableV1 => exact absurd rfl hne
  | .betaV2, .betaV2 => exact absurd rfl hne

/-- How deep the entry lies. -/
theorem sound_of_path {version : OpenCodeVersion} (h : Sound recursionLimit document) :
    ∃ n, 2 ≤ n
      ∧ recursionLimit = n + (Kaleidoscope.jsonEntryPath (.openCode version)).length
      ∧ Sound (n + (Kaleidoscope.jsonEntryPath (.openCode version)).length) document := by
  cases version with
  | stableV1 => exact ⟨125, by decide, rfl, h⟩
  | betaV2 => exact ⟨124, by decide, rfl, h⟩

theorem remove_entries {version : OpenCodeVersion} {document' : Value}
    (hsound : Sound recursionLimit document)
    (hapart : ∀ other, other ≠ version →
      getJsonPath (Kaleidoscope.jsonEntryPath (.openCode other)) document = none)
    (h : removeJsonPath (Kaleidoscope.jsonEntryPath (.openCode version)) document
      = .ok document') :
    Sound recursionLimit document' ∧ ∀ other,
      getJsonPath (Kaleidoscope.jsonEntryPath (.openCode other)) document' = none := by
  obtain ⟨n, -, hn, hdocument⟩ := @sound_of_path document version hsound
  refine ⟨hn ▸ sound_remove hdocument h, fun other => ?_⟩
  by_cases hother : other = version
  · rw [hother]
    exact getJsonPath_remove hdocument h
  · rw [← hapart other hother]
    match version, other with
    | .stableV1, .betaV2 =>
      exact @getJsonPath_remove_apart _ _ _ _ _ ["mcp".toList] _ _ (by decide) hdocument h
    | .betaV2, .stableV1 =>
      exact @getJsonPath_remove_apart _ _ _ _ _ ["mcp".toList] _ _ (by decide) hdocument h
    | .stableV1, .stableV1 => exact absurd rfl hother
    | .betaV2, .betaV2 => exact absurd rfl hother

theorem after_target (hdone : plan.action.isNoop = false) :
    (plan.after crates.receipts nodes).target = written plan nodes.target := by
  unfold ConnectionPlan.after
  rw [hdone]
  rfl

theorem after_noop (hkept : plan.action.isNoop = true) :
    plan.after crates.receipts nodes = nodes := by
  unfold ConnectionPlan.after
  rw [hkept]
  rfl

theorem receiptIn_after (hcrates : crates.Lawful) (hdone : plan.action.isNoop = false)
    {owner : OwnershipReceipt} (hafter : plan.receiptAfter = some owner)
    (hvalid : OwnershipReceipt.validate crates owner .openCode scope = .ok ())
    (hsound : Sound 2 owner.owned) (hfree : owner.owned.FloatFree) :
    receiptIn crates (plan.after crates.receipts nodes).receipt = some owner := by
  unfold ConnectionPlan.after
  rw [hdone]
  show receiptIn crates (receiptNode (receiptBytes crates.receipts plan)) = _
  unfold receiptBytes
  rw [hafter, Option.bind_some]
  obtain ⟨bytes, hbytes⟩ := Option.isSome_iff_exists.mp (hcrates.encodes owner)
  have hencode : encodeReceipt crates.receipts owner = .ok (bytes.push 10) := by
    unfold encodeReceipt
    rw [hbytes]
  rw [hencode]
  exact hcrates.reads _ _ _ _ hvalid hsound.distinct hfree (hsound.within.mono (by decide)) hencode

theorem receiptIn_removed (hdone : plan.action.isNoop = false) (hafter : plan.receiptAfter = none) :
    receiptIn crates (plan.after crates.receipts nodes).receipt = none := by
  unfold ConnectionPlan.after
  rw [hdone]
  show receiptIn crates (receiptNode (receiptBytes crates.receipts plan)) = _
  unfold receiptBytes
  rw [hafter]
  rfl

/-- The text that the receipt of a connect says was there before. -/
theorem before_connect (hcrates : crates.Lawful)
    (hlooked : Looked crates scope target nodes original document receipt)
    (hinv : Inv crates history nodes) (hseen : nodes ∈ history) {owner : OwnershipReceipt}
    (hcreated : owner.configCreated = receipt.elim original.bytes.isNone (·.configCreated))
    (hpre : owner.preSha256 = preSha256 original receipt) :
    owner.configCreated = true ∨ SeenFree crates history owner.preSha256 := by
  cases receipt with
  | none =>
    rw [hcreated, Option.elim_none]
    cases hbytes : bytesIn nodes.target with
    | none =>
      rw [hlooked.bytes, hbytes]
      exact .inl rfl
    | some bytes =>
      refine .inr ⟨bytes, ⟨nodes, hseen, .inl hbytes⟩, ?_, fun version => ?_⟩
      · rw [hpre]
        exact hlooked.digest bytes hbytes
      · rw [← hbytes]
        exact hinv.free hlooked.receipt version
  | some old =>
    obtain ⟨version, howned⟩ := hinv.owned old hlooked.receipt
    rw [hcreated, Option.elim_some]
    refine howned.before.imp_right fun hfree => ?_
    obtain ⟨bytes, hbytes, hdigest, hentries⟩ := hfree
    refine ⟨bytes, hbytes, ?_, hentries⟩
    rw [hpre]
    unfold preSha256
    simp only
    have hne : old.preSha256.isEmpty = false := by
      rw [hdigest]
      exact List.isEmpty_eq_false_iff.mpr (hcrates.digest bytes)
    rw [hne, if_neg Bool.false_ne_true]
    exact hdigest

theorem connect_inv (hcrates : crates.Lawful)
    (hlooked : Looked crates scope target nodes original document receipt)
    (hinv : Inv crates history nodes) (hseen : nodes ∈ history) {version : OpenCodeVersion}
    (hversion : ∀ owner ∈ receipt, owner.openCodeVersion = some version)
    (h : Connects crates scope nodes original document receipt version plan) :
    Inv crates history (plan.after crates.receipts nodes)
      ∧ NotMoved crates nodes (plan.after crates.receipts nodes) := by
  have hsame : Inv crates history nodes ∧ NotMoved crates nodes nodes := by
    refine ⟨hinv, hinv.notMoved fun owner version owner' howner hrecorded howner' => ?_⟩
    rw [howner] at howner'
    cases howner'
    exact hrecorded
  cases h with
  | noop _ hkept =>
    rw [after_noop hkept]
    exact hsame
  | adopt hunknown hfound =>
    -- without a receipt there is no entry to take over
    subst hunknown
    rw [← hlooked.entry, hinv.free hlooked.receipt] at hfound
    cases hfound
  | @write desired document' owner hdone hset hdesired hfree hwritten hafter howned hvalid
      hrecorded hcreated hpre hadopted =>
    have hreceipt : receiptIn crates (plan.after crates.receipts nodes).receipt = some owner :=
      receiptIn_after hcrates hdone hafter hvalid (howned ▸ hdesired) (howned ▸ hfree)
    obtain ⟨n, hle, hn, hdocument⟩ := @sound_of_path document version hlooked.sound
    have hsound : Sound recursionLimit document' :=
      hn ▸ sound_set ⟨hdesired.distinct, hdesired.within.mono hle⟩ hdocument hset
    have hentry : ∀ other, (entryUnder crates other (plan.after crates.receipts nodes).target).isSome
        = (getJsonPath (Kaleidoscope.jsonEntryPath (.openCode other)) document').isSome := by
      intro other
      rw [after_target hdone, written, hwritten]
      exact entryOf_encode hcrates.json hsound other
    have hother : ∀ other, other ≠ version →
        entryUnder crates other nodes.target = none := by
      intro other hne
      cases receipt with
      | none => exact hinv.free hlooked.receipt other
      | some old =>
        obtain ⟨version', hold⟩ := hinv.owned old hlooked.receipt
        have heq := (hversion old rfl).symm.trans hold.recorded
        cases heq
        exact hold.apart other hne
    have hnew : Owned crates history (plan.after crates.receipts nodes) owner version := by
      refine ⟨hrecorded, ?_, fun other hne => ?_, ?_,
        before_connect hcrates hlooked hinv hseen hcreated hpre⟩
      · rw [hentry, getJsonPath_set hset]
        rfl
      · rw [← Option.isNone_iff_eq_none, ← Option.not_isSome, hentry, set_apart hne hset,
          ← hlooked.entry, hother other hne]
        rfl
      · rw [hadopted]
        cases receipt with
        | none => rfl
        | some old =>
          obtain ⟨_, hold⟩ := hinv.owned old hlooked.receipt
          exact hold.written
    have hinv' : Inv crates history (plan.after crates.receipts nodes) := by
      refine ⟨fun hnone => ?_, fun receipt' hreceipt' => ?_⟩
      · rw [hreceipt] at hnone
        cases hnone
      · rw [hreceipt] at hreceipt'
        cases hreceipt'
        exact ⟨version, hnew⟩
    refine ⟨hinv', hinv'.notMoved fun old version' owner' hold hversion' howner' => ?_⟩
    rw [hreceipt] at howner'
    cases howner'
    rw [hlooked.receipt] at hold
    rw [hrecorded, ← hversion old hold, hversion']

theorem disconnect_inv (hcrates : crates.Lawful) (hapart : ToldApart crates history)
    (hlooked : Looked crates scope target nodes original document receipt)
    (hinv : Inv crates history nodes) (hseen : nodes ∈ history)
    (h : Disconnects crates nodes original document receipt plan) :
    Inv crates history (plan.after crates.receipts nodes)
      ∧ NotMoved crates nodes (plan.after crates.receipts nodes) := by
  cases h with
  | noop hkept =>
    rw [after_noop hkept]
    refine ⟨hinv, hinv.notMoved fun owner version owner' howner hrecorded howner' => ?_⟩
    rw [howner] at howner'
    cases howner'
    exact hrecorded
  | @removed document' owner hknown hremove hdone hafter hwritten =>
    subst hknown
    obtain ⟨version, howned⟩ := hinv.owned owner hlooked.receipt
    have hnone : receiptIn crates (plan.after crates.receipts nodes).receipt = none :=
      receiptIn_removed hdone hafter
    rw [howned.recorded] at hremove
    obtain ⟨hsound, hentries⟩ := remove_entries hlooked.sound
      (fun other hne => by rw [← hlooked.entry, howned.apart other hne]) hremove
    have hfree : ∀ other,
        entryUnder crates other (plan.after crates.receipts nodes).target = none := by
      intro other
      rw [after_target hdone, written]
      rcases hwritten with hwrite | hwrite | ⟨hcreated, bytes, hbytes, hdigest, hwrite⟩
      · rw [hwrite]
        rfl
      · rw [hwrite, ← Option.isNone_iff_eq_none, ← Option.not_isSome]
        show (!(entryOf crates other (some _)).isSome) = true
        rw [entryOf_exciseOrEncode hcrates.json hsound, hentries]
        rfl
      · rcases howned.before with hcreated' | ⟨text, htext, hpre, hentries⟩
        · rw [hcreated] at hcreated'
          cases hcreated'
        · -- the backup is the text of the file as it was before the first connect
          have hsame : bytes = text :=
            hapart bytes text ⟨nodes, hseen, .inr hbytes⟩ htext (hdigest.trans hpre)
          rw [hwrite, hsame]
          exact hentries other
    have hinv' : Inv crates history (plan.after crates.receipts nodes) := by
      refine ⟨fun _ => hfree, fun receipt' hreceipt' => ?_⟩
      rw [hnone] at hreceipt'
      cases hreceipt'
    refine ⟨hinv', hinv'.notMoved fun _ _ owner' _ _ howner' => ?_⟩
    rw [hnone] at howner'
    cases howner'

/-- One step keeps the invariant, and moves no entry. -/
theorem step_inv (hcrates : crates.Lawful) (hapart : ToldApart crates history)
    (hinv : Inv crates history nodes) (hseen : nodes ∈ history)
    (h : Step crates scope target nodes nodes') :
    Inv crates history nodes' ∧ NotMoved crates nodes nodes' := by
  have hstays : ∀ {next : Nodes}, Inv crates history next → next.receipt = nodes.receipt →
      Inv crates history next ∧ NotMoved crates nodes next := by
    intro next hnext hreceipt
    refine ⟨hnext, hnext.notMoved fun owner version owner' howner hrecorded howner' => ?_⟩
    rw [hreceipt, howner] at howner'
    cases howner'
    exact hrecorded
  cases h with
  | operation operation =>
    unfold Operation.run
    cases hplan : operation.plan crates scope target nodes with
    | error x => exact hstays hinv rfl
    | ok plan =>
      cases operation with
      | connect profile descriptor requested =>
        obtain ⟨original, document, receipt, version, hlooked, hversion, hconnects⟩ :=
          planConnectAtVersion_eq_ok hcrates.json hplan
        exact connect_inv hcrates hlooked hinv hseen hversion hconnects
      | disconnect =>
        obtain ⟨original, document, receipt, hlooked, hdisconnects⟩ :=
          planDisconnectAt_eq_ok hcrates.json hplan
        exact disconnect_inv hcrates hapart hlooked hinv hseen hdisconnects
  | edit node hkeeps =>
    refine hstays ⟨fun hreceipt version => ?_, fun receipt hreceipt => ?_⟩ rfl
    · rw [← Option.isNone_iff_eq_none, ← Option.not_isSome, hkeeps, hinv.free hreceipt version]
      rfl
    · obtain ⟨version, howned⟩ := hinv.owned receipt hreceipt
      refine ⟨version, howned.recorded, ?_, fun other hne => ?_, howned.written, howned.before⟩
      · rw [hkeeps]
        exact howned.here
      · rw [← Option.isNone_iff_eq_none, ← Option.not_isSome, hkeeps, howned.apart other hne]
        rfl

/-- The run up to a state keeps the invariant in every state of it. -/
theorem run_inv (hcrates : crates.Lawful) (hapart : ToldApart crates history) {start : Nodes}
    (hstart : Inv crates history start) {past : List Nodes}
    (hrun : Run crates scope target start past) (hpast : ∀ nodes ∈ past, nodes ∈ history) :
    (∀ nodes ∈ past, Inv crates history nodes)
      ∧ past.IsChain fun later earlier => NotMoved crates earlier later := by
  induction hrun with
  | start =>
    refine ⟨fun nodes hnodes => ?_, .singleton _⟩
    rw [List.mem_singleton.mp hnodes]
    exact hstart
  | @step nodes nodes' past _ hstep ih =>
    obtain ⟨hinv, hchain⟩ := ih fun n hn => hpast n (List.mem_cons_of_mem _ hn)
    obtain ⟨hinv', hmoved⟩ := step_inv hcrates hapart (hinv nodes List.mem_cons_self)
      (hpast nodes (List.mem_cons_of_mem _ List.mem_cons_self)) hstep
    exact ⟨List.forall_mem_cons.mpr ⟨hinv', hinv⟩, .cons_cons hmoved hchain⟩

end

/-! ## Crates -/

namespace Sample

def scopeText : Scope → Text
  | .user => "user".toList
  | .project => "project".toList

def formatText : OwnedFormat → Text
  | .jsonEntry => "json_entry".toList
  | .codexMarkerBlock => "codex_marker_block".toList

def versionText : OpenCodeVersion → Text
  | .stableV1 => "stable-v1".toList
  | .betaV2 => "beta-v2".toList

def hostOf (text : Text) : Host :=
  ([Host.codex, .claudeCode, .cursor].find? fun host => host.asStr = text).getD .openCode

def versionMembers : Option OpenCodeVersion → Members
  | none => []
  | some version => [("open_code_version".toList, .string (versionText version))]

def ownerMembers (receipt : OwnershipReceipt) : Members := [
  ("version".toList, .number (.posInt receipt.version)),
  ("owner".toList, .string receipt.owner),
  ("host".toList, .string receipt.host.asStr),
  ("scope".toList, .string (scopeText receipt.scope)),
  ("profile".toList, .string receipt.profile),
  ("format".toList, .string (formatText receipt.format))]

def ownedMembers (receipt : OwnershipReceipt) : Members := [
  ("owned_sha256".toList, .string receipt.ownedSha256),
  ("owned".toList, receipt.owned),
  ("pre_sha256".toList, .string receipt.preSha256),
  ("post_sha256".toList, .string receipt.postSha256),
  ("config_created".toList, .bool receipt.configCreated),
  ("adopted".toList, .bool receipt.adopted)]

def receiptMembers (receipt : OwnershipReceipt) : Members :=
  ownerMembers receipt ++ versionMembers receipt.openCodeVersion ++ ownedMembers receipt

/-- A receipt whose members are in the order in which they are written. -/
def ofMembers (members : Members) : Option OwnershipReceipt :=
  let versions : List OpenCodeVersion :=
    [OpenCodeVersion.stableV1, .betaV2].filter fun version =>
      (members.lookup "open_code_version".toList).any fun v => v.asStr == some (versionText version)
  match members.filter (fun m => m.1 ≠ "open_code_version".toList) with
  | [(_, .number (.posInt version)), (_, .string owner), (_, .string host), (_, .string scope),
      (_, .string profile), (_, .string format), (_, .string ownedSha256), (_, owned),
      (_, .string preSha256), (_, .string postSha256), (_, .bool configCreated),
      (_, .bool adopted)] =>
    some { version, owner, host := hostOf host,
           scope := if scope = scopeText .user then .user else .project, profile,
           format := if format = formatText .jsonEntry then .jsonEntry else .codexMarkerBlock,
           openCodeVersion := versions.head?, ownedSha256, owned, preSha256, postSha256,
           configCreated, adopted }
  | _ => none

def ofValue : Value → Option OwnershipReceipt
  | .object members => ofMembers members
  | _ => none

/-- A digest that tells all texts apart. -/
def digestBytes (bytes : Bytes) : Text :=
  'x' :: bytes.data.toList.map fun b => Char.ofNat b.toNat

def crates : Crates where
  json := JsonWriter.crate
  receipts :=
    { digestBytes
      toVecPretty := fun receipt =>
        some ⟨(JsonWriter.crate.toVecPretty (.object (receiptMembers receipt))).toArray⟩ }
  fromSlice := fun bytes => (JsonWriter.crate.fromSlice bytes).bind ofValue
  isToml := fun _ => true

theorem ofValue_members (receipt : OwnershipReceipt) :
    ofValue (.object (receiptMembers receipt)) = some receipt := by
  obtain ⟨version, owner, host, scope, profile, format, openCodeVersion, _, _, _, _, _, _⟩ :=
    receipt
  cases host <;> cases scope <;> cases format <;>
    (cases openCodeVersion with
    | none => rfl
    | some version => cases version <;> rfl)

theorem digestBytes_injective {a b : Bytes} (h : digestBytes a = digestBytes b) : a = b := by
  have hmap := (List.cons.inj h).2
  have hinj : Function.Injective fun b : UInt8 => Char.ofNat b.toNat := by
    intro x y hxy
    have hvalid : ∀ n < 256, (Char.ofNat n).toNat = n := by decide +kernel
    have hnat : x.toNat = y.toNat := by
      rw [← hvalid x.toNat x.toNat_lt, ← hvalid y.toNat y.toNat_lt]
      exact congrArg Char.toNat hxy
    exact UInt8.toNat_inj.mp hnat
  have hlist := List.map_injective_iff.mpr hinj hmap
  obtain ⟨⟨a⟩⟩ := a
  obtain ⟨⟨b⟩⟩ := b
  simp only at hlist
  rw [hlist]

theorem toList_push (text : JsonSpan.Str) (b : UInt8) :
    ((⟨text.toArray⟩ : Bytes).push b).data.toList = text ++ [b] := by
  simp

theorem receipt_keys (receipt : OwnershipReceipt) :
    ((receiptMembers receipt).map Prod.fst).Nodup := by
  obtain ⟨_, _, _, _, _, _, openCodeVersion, _, _, _, _, _, _⟩ := receipt
  cases openCodeVersion with
  | none =>
    show ["version".toList, "owner".toList, "host".toList, "scope".toList, "profile".toList,
      "format".toList, "owned_sha256".toList, "owned".toList, "pre_sha256".toList,
      "post_sha256".toList, "config_created".toList, "adopted".toList].Nodup
    decide
  | some version =>
    show ["version".toList, "owner".toList, "host".toList, "scope".toList, "profile".toList,
      "format".toList, "open_code_version".toList, "owned_sha256".toList, "owned".toList,
      "pre_sha256".toList, "post_sha256".toList, "config_created".toList,
      "adopted".toList].Nodup
    decide

/-- The values of a receipt are its own and texts. -/
theorem forall_receiptMembers {p : Value → Prop} {receipt : OwnershipReceipt}
    (hnumber : p (.number (.posInt receipt.version))) (hstring : ∀ s, p (.string s))
    (hbool : ∀ b, p (.bool b)) (howned : p receipt.owned) :
    ∀ m ∈ receiptMembers receipt, p m.2 := by
  unfold receiptMembers
  refine List.forall_mem_append.mpr ⟨List.forall_mem_append.mpr ⟨?_, ?_⟩, ?_⟩
  · simp only [ownerMembers, List.forall_mem_cons, List.not_mem_nil, false_implies, implies_true,
      and_true]
    exact ⟨hnumber, hstring _, hstring _, hstring _, hstring _, hstring _⟩
  · cases receipt.openCodeVersion with
    | none => exact nofun
    | some version => exact List.forall_mem_singleton.mpr (hstring _)
  · simp only [ownedMembers, List.forall_mem_cons, List.not_mem_nil, false_implies, implies_true,
      and_true]
    exact ⟨hstring _, howned, hstring _, hstring _, hbool _, hbool _⟩

theorem crates_lawful : crates.Lawful where
  json := JsonWriter.crate_lawful
  digest _ := List.cons_ne_nil _ _
  encodes _ := rfl
  reads host scope receipt bytes hvalid hdistinct hfloats hwithin hbytes := by
    have hversion : receipt.version = ownerReceiptVersion := by
      obtain ⟨_, hshape, -⟩ := except_bind_eq_ok.mp hvalid
      by_contra hne
      exact rejectIf_eq_ok.mp hshape (.inl hne)
    have hmachine : (Number.posInt receipt.version).isMachine = true := by
      rw [hversion]
      decide
    have hread := JsonWriter.crate_lawful.reads (.object (receiptMembers receipt))
      (.object (receipt_keys receipt)
        (forall_receiptMembers (.number _) .string .bool hdistinct))
      (.object (n := recursionLimit - 1)
        (forall_receiptMembers (.number hmachine) .string .bool hwithin))
    cases hbytes
    have hfree : (Value.object (receiptMembers receipt)).FloatFree :=
      .object (forall_receiptMembers (.posInt _) .string .bool hfloats)
    rw [Value.mapFloats_floatFree hfree] at hread
    show (JsonWriter.crate.serde.fromStr _).bind ofValue = _
    rw [toList_push, hread, Option.bind_some, ofValue_members]

def target : PosixPath := PosixPath.root.join "opencode.json".toList

def descriptor : LaunchDescriptor where
  version := launchDescriptorVersion
  transport := "stdio".toList
  command := (PosixPath.root.join "bin".toList).join "kscope".toList
  args := LaunchDescriptor.launchArgs "default".toList
  tools := publicTools
  environment := []

def noFiles : Nodes := ⟨none, none, none⟩

def connected : Nodes :=
  (Operation.connect "default".toList descriptor none).run crates .user target noFiles

def disconnected : Nodes := Operation.disconnect.run crates .user target connected

end Sample

/-! ## Top theorem -/

/-- From a file without an entry and without a receipt, every run keeps the entry under the one
shape that the receipt names, and never moves it to the other. -/
theorem openCode_one_shape {crates : Crates} (hcrates : crates.Lawful) {scope : Scope}
    {target : PosixPath} {start : Nodes}
    (hentries : ∀ version, entryUnder crates version start.target = none)
    (hreceipt : receiptIn crates start.receipt = none) {history : List Nodes}
    (hrun : Run crates scope target start history) (hapart : ToldApart crates history) :
    (∀ nodes ∈ history, OneShape crates nodes)
      ∧ history.IsChain fun later earlier => NotMoved crates earlier later := by
  have hstart : Inv crates history start := by
    refine ⟨fun _ => hentries, fun receipt h => ?_⟩
    rw [hreceipt] at h
    cases h
  obtain ⟨hinv, hchain⟩ := run_inv hcrates hapart hstart hrun fun _ h => h
  exact ⟨fun nodes hnodes => (hinv nodes hnodes).oneShape, hchain⟩

section

open Sample

theorem openCode_one_shape_sample :
    (entryUnder crates .stableV1 connected.target).isSome = true
      ∧ disconnected = noFiles
      ∧ (∀ nodes ∈ [disconnected, connected, noFiles], OneShape crates nodes)
      ∧ [disconnected, connected, noFiles].IsChain
        fun later earlier => NotMoved crates earlier later := by
  refine ⟨by decide +kernel, by decide +kernel, ?_⟩
  have hrun : Run crates .user target noFiles [disconnected, connected, noFiles] :=
    .step (.step .start (.operation _)) (.operation _)
  exact openCode_one_shape crates_lawful (fun _ => rfl) rfl hrun
    fun _ _ _ _ h => digestBytes_injective h

end

end Kaleidoscope.Hosts
