import Kaleidoscope.HostCodex
import Kaleidoscope.Hooks
import Kaleidoscope.Instructions

/-!
# Owner receipts as JSON

The members that each kind of receipt is written as, and what is read of them again.  A member
given twice, which the crate refuses, is beyond what a value can hold.

    Record.reads   what is written of a record is read as the record
-/

namespace Kaleidoscope

/-! ## Records -/

namespace Record

/-- A field without a default. -/
def field {α : Type} (read : Value → Option α) (key : Text) (members : Members) : Option α :=
  (members.lookup key).bind read

/-- `serde(default)` -/
def fieldOr {α : Type} (default : α) (read : Value → Option α) (key : Text) (members : Members) :
    Option α :=
  (members.lookup key).elim (some default) read

/-- `deny_unknown_fields` -/
def onlyFields (keys : List Text) (members : Members) : Bool :=
  members.all fun m => keys.contains m.1

def asU32 : Value → Option Nat
  | .number (.posInt n) => if n < 2 ^ 32 then some n else none
  | _ => none

def asBool : Value → Option Bool
  | .bool b => some b
  | _ => none

/-- A variant without data is written as its name. -/
def variant {α : Type} (name : α → Text) (variants : List α) (v : Value) : Option α :=
  v.asStr.bind fun text => variants.find? fun a => name a = text

/-- `null` stands for no value. -/
def optional {α : Type} (read : Value → Option α) : Value → Option (Option α)
  | .null => some none
  | v => (read v).map some

/-! Reading what is there -/

theorem field_at {α : Type} {read : Value → Option α} {key : Text} {members : Members} {v : Value}
    {a : α} (hnodup : (members.map Prod.fst).Nodup) (i : Nat) (hat : members[i]? = some (key, v))
    (hread : read v = some a) : field read key members = some a := by
  unfold field
  rw [Members.lookup_of_mem hnodup (List.mem_of_getElem? hat), Option.bind_some, hread]

theorem fieldOr_at {α : Type} {default : α} {read : Value → Option α} {key : Text}
    {members : Members} {v : Value} {a : α} (hnodup : (members.map Prod.fst).Nodup) (i : Nat)
    (hat : members[i]? = some (key, v)) (hread : read v = some a) :
    fieldOr default read key members = some a := by
  unfold fieldOr
  rw [Members.lookup_of_mem hnodup (List.mem_of_getElem? hat), Option.elim_some, hread]

theorem fieldOr_absent {α : Type} {default : α} {read : Value → Option α} {key : Text}
    {members : Members} (habsent : key ∉ members.map Prod.fst) :
    fieldOr default read key members = some default := by
  unfold fieldOr
  rw [Members.lookup_eq_none.mpr habsent, Option.elim_none]

/-! Texts and flags -/

theorem text_at {key s : Text} {members : Members} (hnodup : (members.map Prod.fst).Nodup) (i : Nat)
    (hat : members[i]? = some (key, .string s)) : field Value.asStr key members = some s :=
  field_at hnodup i hat rfl

theorem textOr_at {default key s : Text} {members : Members}
    (hnodup : (members.map Prod.fst).Nodup) (i : Nat)
    (hat : members[i]? = some (key, .string s)) :
    fieldOr default Value.asStr key members = some s :=
  fieldOr_at hnodup i hat rfl

theorem flag_at {key : Text} {b : Bool} {members : Members}
    (hnodup : (members.map Prod.fst).Nodup) (i : Nat)
    (hat : members[i]? = some (key, .bool b)) : field asBool key members = some b :=
  field_at hnodup i hat rfl

theorem flagOr_at {default : Bool} {key : Text} {b : Bool} {members : Members}
    (hnodup : (members.map Prod.fst).Nodup) (i : Nat)
    (hat : members[i]? = some (key, .bool b)) : fieldOr default asBool key members = some b :=
  fieldOr_at hnodup i hat rfl

theorem value_at {key : Text} {v : Value} {members : Members}
    (hnodup : (members.map Prod.fst).Nodup) (i : Nat) (hat : members[i]? = some (key, v)) :
    field some key members = some v :=
  field_at hnodup i hat rfl

theorem u32_at {key : Text} {n : Nat} {members : Members} (hnodup : (members.map Prod.fst).Nodup)
    (i : Nat) (hat : members[i]? = some (key, .number (.posInt n))) (hlt : n < 2 ^ 32) :
    field asU32 key members = some n :=
  field_at hnodup i hat (if_pos hlt)

theorem onlyFields_of_sublist {keys : List Text} {members : Members}
    (h : (members.map Prod.fst).Sublist keys) : onlyFields keys members = true := by
  unfold onlyFields
  rw [List.all_eq_true]
  intro m hm
  exact List.contains_iff_mem.mpr (h.subset (List.mem_map_of_mem hm))

theorem variant_name {α : Type} {name : α → Text} {variants : List α} (a : α)
    (hmem : a ∈ variants) (hname : ∀ b ∈ variants, name b = name a → b = a) :
    variant name variants (.string (name a)) = some a := by
  show variants.find? (fun b => decide (name b = name a)) = some a
  cases hfind : variants.find? fun b => decide (name b = name a) with
  | none =>
    have hnone := List.find?_eq_none.mp hfind a hmem
    simp at hnone
  | some b =>
    have hsame := List.find?_some hfind
    rw [hname b (List.mem_of_find?_eq_some hfind) (of_decide_eq_true hsame)]

end Record

/-- How the records of a type are written as objects, and read from them. -/
structure Record (α : Type) where
  members : α → Members
  ofMembers : Members → Option α

namespace Record

variable {α : Type} (record : Record α) (json : JsonCrate)

def toVecPretty (a : α) : Option Bytes :=
  some ⟨(json.toVecPretty (.object (record.members a))).toArray⟩

def ofValue : Value → Option α
  | .object members => record.ofMembers members
  | _ => none

def fromSlice (bytes : Bytes) : Option α := (json.fromSlice bytes).bind record.ofValue

def codec (digestBytes : Bytes → Text) : ReceiptCodec α where
  digestBytes := digestBytes
  toVecPretty := record.toVecPretty json

/-- A member that reads as it was written. -/
structure Plain (n : Nat) (v : Value) : Prop where
  distinct : v.Distinct
  within : v.Within n
  floatFree : v.FloatFree

theorem Plain.string {n : Nat} (s : Text) : Plain n (.string s) :=
  ⟨.string s, .string s, .string s⟩

theorem Plain.bool {n : Nat} (b : Bool) : Plain n (.bool b) :=
  ⟨.bool b, .bool b, .bool b⟩

theorem Plain.posInt {n k : Nat} (h : k < 2 ^ 32) : Plain n (.number (.posInt k)) := by
  refine ⟨.number _, .number ?_, .posInt k⟩
  show decide (k < 2 ^ 64) = true
  exact decide_eq_true (by omega)

theorem Plain.mono {m n : Nat} {v : Value} (hle : m ≤ n) (h : Plain m v) : Plain n v :=
  ⟨h.distinct, h.within.mono hle, h.floatFree⟩

variable {record json}

/-- What is written of a record is read as the record. -/
theorem reads (hjson : json.Lawful) {digestBytes : Bytes → Text} {a : α} {bytes : Bytes}
    (hnodup : ((record.members a).map Prod.fst).Nodup)
    (hplain : ∀ m ∈ record.members a, Plain (recursionLimit - 1) m.2)
    (hread : record.ofMembers (record.members a) = some a)
    (hbytes : encodeReceipt (record.codec json digestBytes) a = .ok bytes) :
    record.fromSlice json bytes = some a := by
  have htext := hjson.reads (.object (record.members a))
    (.object hnodup fun m hm => (hplain m hm).distinct)
    (.object (n := recursionLimit - 1) fun m hm => (hplain m hm).within)
  rw [Value.mapFloats_floatFree (.object fun m hm => (hplain m hm).floatFree)] at htext
  cases hbytes
  have hpush :
      ((⟨(json.toVecPretty (.object (record.members a))).toArray⟩ : Bytes).push 10).data.toList
        = json.toVecPretty (.object (record.members a)) ++ [10] := by
    simp
  unfold fromSlice JsonCrate.fromSlice
  rw [hpush, htext, Option.bind_some]
  exact hread

end Record

/-! ## Names of variants -/

/-- `rename_all = "kebab-case"`, which is not how a host is named on the command line. -/
def Host.variantName : Host → Text
  | .codex => "codex".toList
  | .claudeCode => "claude-code".toList
  | .cursor => "cursor".toList
  | .openCode => "open-code".toList

def Host.all : List Host := [.codex, .claudeCode, .cursor, .openCode]

def Scope.variantName : Scope → Text
  | .user => "user".toList
  | .project => "project".toList

def OpenCodeVersion.variantName : OpenCodeVersion → Text
  | .stableV1 => "stable-v1".toList
  | .betaV2 => "beta-v2".toList

def OwnedFormat.variantName : OwnedFormat → Text
  | .jsonEntry => "json_entry".toList
  | .codexMarkerBlock => "codex_marker_block".toList

def asHost : Value → Option Host := Record.variant Host.variantName Host.all

def asScope : Value → Option Scope := Record.variant Scope.variantName [.user, .project]

def asVersion : Value → Option OpenCodeVersion :=
  Record.variant OpenCodeVersion.variantName [.stableV1, .betaV2]

def asFormat : Value → Option OwnedFormat :=
  Record.variant OwnedFormat.variantName [.jsonEntry, .codexMarkerBlock]

theorem asHost_name (host : Host) : asHost (.string host.variantName) = some host := by
  refine Record.variant_name host ?_ ?_
  · cases host <;> decide
  · cases host <;> decide

theorem asScope_name (scope : Scope) : asScope (.string scope.variantName) = some scope := by
  refine Record.variant_name scope ?_ ?_
  · cases scope <;> decide
  · cases scope <;> decide

theorem asVersion_name (version : OpenCodeVersion) :
    asVersion (.string version.variantName) = some version := by
  refine Record.variant_name version ?_ ?_
  · cases version <;> decide
  · cases version <;> decide

theorem asFormat_name (format : OwnedFormat) :
    asFormat (.string format.variantName) = some format := by
  refine Record.variant_name format ?_ ?_
  · cases format <;> decide
  · cases format <;> decide

/-! ## The receipt of a connection -/

namespace Hosts

open Record

def receiptFields : List Text := ["version".toList, "owner".toList, "host".toList,
  "scope".toList, "profile".toList, "format".toList, "open_code_version".toList,
  "owned_sha256".toList, "owned".toList, "pre_sha256".toList, "post_sha256".toList,
  "config_created".toList, "adopted".toList]

/-- `skip_serializing_if = "Option::is_none"` -/
def versionMember : Option OpenCodeVersion → Members
  | none => []
  | some version => [("open_code_version".toList, .string version.variantName)]

def receiptMembers (receipt : OwnershipReceipt) : Members :=
  [("version".toList, .number (.posInt receipt.version)),
    ("owner".toList, .string receipt.owner),
    ("host".toList, .string receipt.host.variantName),
    ("scope".toList, .string receipt.scope.variantName),
    ("profile".toList, .string receipt.profile),
    ("format".toList, .string receipt.format.variantName)]
  ++ versionMember receipt.openCodeVersion
  ++ [("owned_sha256".toList, .string receipt.ownedSha256),
    ("owned".toList, receipt.owned),
    ("pre_sha256".toList, .string receipt.preSha256),
    ("post_sha256".toList, .string receipt.postSha256),
    ("config_created".toList, .bool receipt.configCreated),
    ("adopted".toList, .bool receipt.adopted)]

def ofMembers (members : Members) : Option OwnershipReceipt := do
  guard (onlyFields receiptFields members)
  let version ← field asU32 "version".toList members
  let owner ← field Value.asStr "owner".toList members
  let host ← field asHost "host".toList members
  let scope ← field asScope "scope".toList members
  let profile ← field Value.asStr "profile".toList members
  let format ← field asFormat "format".toList members
  let openCodeVersion ← fieldOr none (optional asVersion) "open_code_version".toList members
  let ownedSha256 ← field Value.asStr "owned_sha256".toList members
  let owned ← field some "owned".toList members
  let preSha256 ← fieldOr [] Value.asStr "pre_sha256".toList members
  let postSha256 ← fieldOr [] Value.asStr "post_sha256".toList members
  let configCreated ← field asBool "config_created".toList members
  let adopted ← fieldOr false asBool "adopted".toList members
  return { version, owner, host, scope, profile, format, openCodeVersion, ownedSha256, owned,
           preSha256, postSha256, configCreated, adopted }

def receiptRecord : Record OwnershipReceipt := ⟨receiptMembers, ofMembers⟩

theorem nodup_receiptFields : receiptFields.Nodup := by
  decide +kernel

/-- Only the version of OpenCode may be missing. -/
theorem receiptMembers_sublist (receipt : OwnershipReceipt) :
    ((receiptMembers receipt).map Prod.fst).Sublist receiptFields := by
  unfold receiptMembers
  cases receipt.openCodeVersion with
  | none => exact List.eraseIdx_sublist receiptFields 6
  | some version => exact List.Sublist.refl receiptFields

theorem ofMembers_receiptMembers (receipt : OwnershipReceipt)
    (hversion : receipt.version < 2 ^ 32) : ofMembers (receiptMembers receipt) = some receipt := by
  have hsublist := receiptMembers_sublist receipt
  have hnodup := nodup_receiptFields.sublist hsublist
  obtain ⟨version, owner, host, scope, profile, format, openCodeVersion, ownedSha256, owned,
    preSha256, postSha256, configCreated, adopted⟩ := receipt
  unfold ofMembers
  rw [onlyFields_of_sublist hsublist, u32_at hnodup 0 rfl hversion, text_at hnodup 1 rfl,
    field_at hnodup 2 rfl (asHost_name host), field_at hnodup 3 rfl (asScope_name scope),
    text_at hnodup 4 rfl, field_at hnodup 5 rfl (asFormat_name format)]
  cases openCodeVersion with
  | none =>
    have habsent : "open_code_version".toList ∉ (receiptMembers ⟨version, owner, host, scope,
        profile, format, none, ownedSha256, owned, preSha256, postSha256, configCreated,
        adopted⟩).map Prod.fst := by
      show _ ∉ receiptFields.eraseIdx 6
      decide +kernel
    rw [fieldOr_absent habsent, text_at hnodup 6 rfl, value_at hnodup 7 rfl, textOr_at hnodup 8 rfl,
      textOr_at hnodup 9 rfl, flag_at hnodup 10 rfl, flagOr_at hnodup 11 rfl]
    rfl
  | some openCodeVersion =>
    have hoptional : optional asVersion (.string openCodeVersion.variantName)
        = some (some openCodeVersion) := by
      show (asVersion _).map some = _
      rw [asVersion_name, Option.map_some]
    rw [fieldOr_at hnodup 6 rfl hoptional, text_at hnodup 7 rfl, value_at hnodup 8 rfl,
      textOr_at hnodup 9 rfl, textOr_at hnodup 10 rfl, flag_at hnodup 11 rfl,
      flagOr_at hnodup 12 rfl]
    rfl

theorem plain_receiptMembers {n : Nat} {receipt : OwnershipReceipt}
    (hversion : receipt.version < 2 ^ 32) (howned : Plain n receipt.owned) :
    ∀ m ∈ receiptMembers receipt, Plain n m.2 := by
  have hoptional : ∀ m ∈ versionMember receipt.openCodeVersion, Plain n m.2 := by
    cases receipt.openCodeVersion with
    | none => exact nofun
    | some version =>
      intro m hm
      rw [List.mem_singleton.mp hm]
      exact .string _
  unfold receiptMembers
  simp only [List.forall_mem_append, List.forall_mem_cons, List.not_mem_nil, false_implies,
    implies_true, and_true]
  exact ⟨⟨⟨.posInt hversion, .string _, .string _, .string _, .string _, .string _⟩, hoptional⟩,
    .string _, howned, .string _, .string _, .bool _, .bool _⟩

/-- The crates, where receipts are JSON. -/
def jsonCrates (json : JsonCrate) (digestBytes : Bytes → Text) (isToml : Text → Bool) : Crates where
  json := json
  receipts := receiptRecord.codec json digestBytes
  fromSlice := receiptRecord.fromSlice json
  isToml := isToml

end Hosts

/-! ## The receipt of an instruction block -/

namespace Instructions

open Record

/-- `rename_all = "kebab-case"` -/
def asTarget : Value → Option InstructionTarget :=
  variant InstructionTarget.asStr [.skill, .agents, .claude, .cursor]

def OwnedShape.variantName : OwnedShape → Text
  | .markerBlock => "marker_block".toList
  | .wholeFile => "whole_file".toList

def asShape : Value → Option OwnedShape :=
  variant OwnedShape.variantName [.markerBlock, .wholeFile]

theorem asTarget_name (kind : InstructionTarget) : asTarget (.string kind.asStr) = some kind := by
  refine variant_name kind ?_ ?_
  · cases kind <;> decide
  · cases kind <;> decide

theorem asShape_name (shape : OwnedShape) : asShape (.string shape.variantName) = some shape := by
  refine variant_name shape ?_ ?_
  · cases shape <;> decide
  · cases shape <;> decide

def receiptFields : List Text := ["version".toList, "owner".toList, "target".toList,
  "shape".toList, "owned_sha256".toList, "owned_block".toList, "pre_sha256".toList,
  "post_sha256".toList, "separator".toList, "file_created".toList, "adopted".toList]

def receiptMembers (receipt : InstructionReceipt) : Members :=
  [("version".toList, .number (.posInt receipt.version)),
    ("owner".toList, .string receipt.owner),
    ("target".toList, .string receipt.target.asStr),
    ("shape".toList, .string receipt.shape.variantName),
    ("owned_sha256".toList, .string receipt.ownedSha256),
    ("owned_block".toList, .string receipt.ownedBlock),
    ("pre_sha256".toList, .string receipt.preSha256),
    ("post_sha256".toList, .string receipt.postSha256),
    ("separator".toList, .string receipt.separator),
    ("file_created".toList, .bool receipt.fileCreated),
    ("adopted".toList, .bool receipt.adopted)]

def ofMembers (members : Members) : Option InstructionReceipt := do
  guard (onlyFields receiptFields members)
  let version ← field asU32 "version".toList members
  let owner ← field Value.asStr "owner".toList members
  let target ← field asTarget "target".toList members
  let shape ← field asShape "shape".toList members
  let ownedSha256 ← field Value.asStr "owned_sha256".toList members
  let ownedBlock ← field Value.asStr "owned_block".toList members
  let preSha256 ← field Value.asStr "pre_sha256".toList members
  let postSha256 ← field Value.asStr "post_sha256".toList members
  let separator ← field Value.asStr "separator".toList members
  let fileCreated ← field asBool "file_created".toList members
  let adopted ← fieldOr false asBool "adopted".toList members
  return { version, owner, target, shape, ownedSha256, ownedBlock, preSha256, postSha256,
           separator, fileCreated, adopted }

def receiptRecord : Record InstructionReceipt := ⟨receiptMembers, ofMembers⟩

theorem nodup_receiptMembers (receipt : InstructionReceipt) :
    ((receiptMembers receipt).map Prod.fst).Nodup := by
  show receiptFields.Nodup
  decide +kernel

theorem ofMembers_receiptMembers (receipt : InstructionReceipt)
    (hversion : receipt.version < 2 ^ 32) :
    ofMembers (receiptMembers receipt) = some receipt := by
  have hnodup := nodup_receiptMembers receipt
  have hfields : ((receiptMembers receipt).map Prod.fst).Sublist receiptFields :=
    List.Sublist.refl receiptFields
  unfold ofMembers
  rw [onlyFields_of_sublist hfields, u32_at hnodup 0 rfl hversion, text_at hnodup 1 rfl,
    field_at hnodup 2 rfl (asTarget_name _), field_at hnodup 3 rfl (asShape_name _),
    text_at hnodup 4 rfl, text_at hnodup 5 rfl, text_at hnodup 6 rfl, text_at hnodup 7 rfl,
    text_at hnodup 8 rfl, flag_at hnodup 9 rfl, flagOr_at hnodup 10 rfl]
  rfl

theorem plain_receiptMembers {n : Nat} {receipt : InstructionReceipt}
    (hversion : receipt.version < 2 ^ 32) : ∀ m ∈ receiptMembers receipt, Plain n m.2 := by
  unfold receiptMembers
  simp only [List.forall_mem_cons, List.not_mem_nil, false_implies, implies_true, and_true]
  exact ⟨.posInt hversion, .string _, .string _, .string _, .string _, .string _, .string _,
    .string _, .string _, .bool _, .bool _⟩

/-- The crates, where receipts are JSON. -/
def jsonCrates (json : JsonCrate) (digestBytes : Bytes → Text) : Crates where
  receipts := receiptRecord.codec json digestBytes
  fromSlice := receiptRecord.fromSlice json

end Instructions

/-! ## The receipt of a hook -/

namespace Hooks

open Record

def receiptFields : List Text := ["version".toList, "owner".toList, "scope".toList,
  "profile".toList, "owned".toList, "owned_sha256".toList, "pre_sha256".toList,
  "post_sha256".toList, "file_created".toList, "adopted".toList]

def receiptMembers (receipt : HookReceipt) : Members :=
  [("version".toList, .number (.posInt receipt.version)),
    ("owner".toList, .string receipt.owner),
    ("scope".toList, .string receipt.scope.variantName),
    ("profile".toList, .string receipt.profile),
    ("owned".toList, receipt.owned),
    ("owned_sha256".toList, .string receipt.ownedSha256),
    ("pre_sha256".toList, .string receipt.preSha256),
    ("post_sha256".toList, .string receipt.postSha256),
    ("file_created".toList, .bool receipt.fileCreated),
    ("adopted".toList, .bool receipt.adopted)]

def ofMembers (members : Members) : Option HookReceipt := do
  guard (onlyFields receiptFields members)
  let version ← field asU32 "version".toList members
  let owner ← field Value.asStr "owner".toList members
  let scope ← field asScope "scope".toList members
  let profile ← field Value.asStr "profile".toList members
  let owned ← field some "owned".toList members
  let ownedSha256 ← field Value.asStr "owned_sha256".toList members
  let preSha256 ← field Value.asStr "pre_sha256".toList members
  let postSha256 ← field Value.asStr "post_sha256".toList members
  let fileCreated ← field asBool "file_created".toList members
  let adopted ← fieldOr false asBool "adopted".toList members
  return { version, owner, scope, profile, owned, ownedSha256, preSha256, postSha256, fileCreated,
           adopted }

def receiptRecord : Record HookReceipt := ⟨receiptMembers, ofMembers⟩

theorem nodup_receiptMembers (receipt : HookReceipt) :
    ((receiptMembers receipt).map Prod.fst).Nodup := by
  show receiptFields.Nodup
  decide +kernel

theorem ofMembers_receiptMembers (receipt : HookReceipt) (hversion : receipt.version < 2 ^ 32) :
    ofMembers (receiptMembers receipt) = some receipt := by
  have hnodup := nodup_receiptMembers receipt
  have hfields : ((receiptMembers receipt).map Prod.fst).Sublist receiptFields :=
    List.Sublist.refl receiptFields
  unfold ofMembers
  rw [onlyFields_of_sublist hfields, u32_at hnodup 0 rfl hversion, text_at hnodup 1 rfl,
    field_at hnodup 2 rfl (asScope_name _), text_at hnodup 3 rfl, value_at hnodup 4 rfl,
    text_at hnodup 5 rfl, text_at hnodup 6 rfl, text_at hnodup 7 rfl, flag_at hnodup 8 rfl,
    flagOr_at hnodup 9 rfl]
  rfl

theorem plain_receiptMembers {n : Nat} {receipt : HookReceipt} (hversion : receipt.version < 2 ^ 32)
    (howned : Plain n receipt.owned) : ∀ m ∈ receiptMembers receipt, Plain n m.2 := by
  unfold receiptMembers
  simp only [List.forall_mem_cons, List.not_mem_nil, false_implies, implies_true, and_true]
  exact ⟨.posInt hversion, .string _, .string _, .string _, howned, .string _, .string _,
    .string _, .bool _, .bool _⟩

/-- The crates, where receipts are JSON. -/
def jsonCrates (json : JsonCrate) (digestBytes : Bytes → Text) : Crates where
  json := json
  receipts := receiptRecord.codec json digestBytes
  fromSlice := receiptRecord.fromSlice json

end Hooks

end Kaleidoscope
