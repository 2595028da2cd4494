import Kaleidoscope.Hooks
import Kaleidoscope.JsonWriter

/-!
# One element of the session-start hook

What an install leaves in the settings, read again as a further install or a removal reads them.

    install_closed_iff    when an install leaves one element that later installs and removals accept
-/

namespace Kaleidoscope.Hooks

open Prog Disk

section

variable (crates : Crates)

/-! ## Statement -/

/-- What the planners take for granted of the crates. -/
structure Crates.Lawful : Prop where
  json : crates.json.Lawful
  encodes : ∀ receipt, (crates.receipts.toVecPretty receipt).isSome = true
  decodes : ∀ bytes receipt, crates.fromSlice bytes = some receipt → receipt.owned.Distinct
  reads : ∀ scope receipt bytes, receipt.validate crates scope = .ok () → receipt.owned.Distinct →
    receipt.owned.FloatFree → receipt.owned.Within (recursionLimit - 1) →
    encodeReceipt crates.receipts receipt = .ok bytes → crates.fromSlice bytes = some receipt

def settingsOf (node : Option Node) : Result Value := do
  let snapshot ← settingsSnapshot crates node
  parseSettings crates snapshot

def receiptOf (scope : Scope) (node : Option Node) : Result (Option HookReceipt) := do
  let snapshot ← receiptSnapshot crates node
  decodeReceipt crates snapshot scope

abbrev Same (v w : Value) : Prop := Value.same v w = true

/-- The elements that an install leaves unchanged and in their order, as they are read again. -/
def Kept (action : HookAction) (before : List Value) (owned : Option Value) (desired : Value)
    (after : List Value) : Prop :=
  match action with
  | .add => List.Forall₂ Same (before ++ [desired]) after
  | .update => ∃ l x r, before = l ++ x :: r ∧ (∃ o ∈ owned, Same x o)
    ∧ List.Forall₂ Same (l ++ desired :: r) after
  | _ => List.Forall₂ Same before after

/-- One element is the desired one, no other runs the command that was owned, and the others are
as they were. -/
structure OneElement (action : HookAction) (before : List Value) (owned : Option Value)
    (desired : Value) (after : List Value) : Prop where
  unique : after.countP (fun entry => entry.same desired) = 1
  alone : ∀ o ∈ owned, ∀ command ∈ ownedCommand o, ∀ entry ∈ after, runs command entry = true →
    Same entry desired
  kept : Kept action before owned desired after

/-- What an install that was applied leaves: one element, which a further install finds in place
and of which a removal does not say that there are several. -/
structure Installed (scope : Scope) (manager profile : Text) (target : PosixPath)
    (action : HookAction) (nodes nodes' : Nodes) : Prop where
  one : ∃ before receipt after, settingsOf crates nodes.target = .ok before
    ∧ receiptOf crates scope nodes.receipt = .ok receipt
    ∧ settingsOf crates nodes'.target = .ok after
    ∧ OneElement action (eventArray before) (receipt.map (·.owned)) (ownedEntry manager profile)
      (eventArray after)
  again : ∃ plan, planInstallAt crates scope manager profile target nodes' = .ok plan
    ∧ plan.action.isNoop = true
  removable : ∀ force count,
    planRemoveAt crates scope target force nodes' ≠ .error (ambiguousRemoval target count)

/-- The settings that an install writes can be read again, with the other elements as they
were. -/
structure Rereads (document : Value) (owned : Option Value) (desired : Value) : Prop where
  size : ∀ document', installed document owned desired = .ok document' →
    (crates.json.encode document').size ≤ maxSettingsBytes
  stable : ∀ entry ∈ eventArray document, (∀ o ∈ owned, ¬Same entry o) →
    Same entry (entry.mapFloats crates.json.reread)

/-- When an install leaves one element: no element but the receipt's runs its command or is
already the desired one, and what is written can be read again. -/
structure Closed (scope : Scope) (profile : Text) (target : PosixPath) (desired : Value)
    (original : Snapshot) (document : Value) (receipt : Option HookReceipt) : Prop where
  command : ∀ o ∈ receipt.map (·.owned), ∀ command ∈ ownedCommand o,
    ∀ entry ∈ eventArray document, runs command entry = true → Same entry o
  entry : ∀ o ∈ receipt.map (·.owned), ¬Same o desired →
    ∀ entry ∈ eventArray document, ¬Same entry desired
  settings : (∀ entry ∈ eventArray document, ¬Same entry desired) →
    Rereads crates document (receipt.map (·.owned)) desired
  receipt : (∀ o ∈ receipt.map (·.owned), Same o desired →
      ∀ entry ∈ eventArray document, ¬Same entry desired) →
    ∀ action write bytes, installAction target document receipt desired = .ok action →
      installWrite crates action original document (receipt.map (·.owned)) desired = .ok write →
      encodeReceipt crates.receipts (installReceipt crates scope profile desired action original
        receipt write.2) = .ok bytes → bytes.size ≤ maxReceiptBytes

end

/-! ## Lists -/

/-- The only element of which something holds, and those around it. -/
theorem split_of_findIdxs {p : Value → Bool} {entries : List Value} {i : Nat}
    (h : entries.findIdxs p = [i]) :
    ∃ l x r, entries = l ++ x :: r ∧ l.length = i ∧ p x = true ∧ ∀ y ∈ l ++ r, p y = false := by
  have hmem : i ∈ entries.findIdxs p := by rw [h]; exact List.mem_cons_self
  obtain ⟨hi, hp⟩ := List.mem_findIdxs_iff_exists_getElem_pos.mp hmem
  have hsplit : entries = entries.take i ++ entries[i] :: entries.drop (i + 1) := by
    rw [List.getElem_cons_drop, List.take_append_drop]
  have hlength : (entries.findIdxs p).length = entries.countP p := List.length_findIdxs
  have hcount : entries.countP p = 1 := by
    rw [← hlength, h]
    rfl
  refine ⟨_, _, _, hsplit, ?_, hp, ?_⟩
  · rw [List.length_take]
    omega
  · rw [hsplit, List.countP_append, List.countP_cons_of_pos hp] at hcount
    intro y hy
    rw [Bool.eq_false_iff]
    intro hpy
    have hpos : 0 < (entries.take i ++ entries.drop (i + 1)).countP p :=
      List.countP_pos_iff.mpr ⟨y, hy, hpy⟩
    rw [List.countP_append] at hpos
    omega

theorem set_length {α : Type} (l r : List α) (x y : α) :
    (l ++ x :: r).set l.length y = l ++ y :: r := by
  rw [List.set_append_right _ _ (Nat.le_refl _), Nat.sub_self, List.set_cons_zero]

/-! ## Documents -/

theorem get_set_self (key : Text) (v : Value) (ms : Members) :
    (Value.object (Members.set key v ms)).get key = some v := Members.lookup_set_self key v ms

theorem eventArray_set (entries : List Value) (hooks members : Members) :
    eventArray (.object (Members.set hooksKey
      (.object (Members.set event (.array entries) hooks)) members)) = entries := by
  unfold eventArray
  rw [get_set_self, Option.bind_some, get_set_self]
  rfl

theorem eventArray_of_lookup {members hooks : Members} {entries : List Value}
    (hhooks : members.lookup hooksKey = some (.object hooks))
    (hevent : hooks.lookup event = some (.array entries)) :
    eventArray (.object members) = entries := by
  unfold eventArray Value.get
  simp only [hhooks, Option.bind_some, hevent]
  rfl

theorem eventArray_mapFloats {f : UInt64 → UInt64} (document : Value) :
    eventArray (document.mapFloats f) = (eventArray document).map (Value.mapFloats f) := by
  unfold eventArray
  rw [Value.get_mapFloats]
  cases document.get hooksKey with
  | none => rfl
  | some hooks =>
    simp only [Option.map_some, Option.bind_some, Value.get_mapFloats]
    cases hooks.get event with
    | none => rfl
    | some list =>
      simp only [Option.map_some, Option.bind_some, Value.asArray_mapFloats]
      cases list.asArray <;> rfl

/-- A document that can be written and read again. -/
structure Sound (document : Value) : Prop where
  object : document.isObject = true
  distinct : document.Distinct
  within : document.Within recursionLimit

theorem sound_empty : Sound (.object []) := by
  refine ⟨rfl, .object List.nodup_nil (by simp), ?_⟩
  exact .object (n := 126) (by simp)

/-- The members of a map whose values nest within a bound. -/
structure SoundMembers (n : Nat) (members : Members) : Prop where
  nodup : (members.map Prod.fst).Nodup
  distinct : ∀ m ∈ members, m.2.Distinct
  within : ∀ m ∈ members, m.2.Within n

theorem SoundMembers.of_object {n : Nat} {members : Members}
    (hdistinct : (Value.object members).Distinct) (hwithin : (Value.object members).Within (n + 1)) :
    SoundMembers n members := by
  cases hdistinct with
  | object hnodup hmembers =>
    cases hwithin with
    | object hwithin => exact ⟨hnodup, hmembers, hwithin⟩

theorem SoundMembers.set {n : Nat} {members : Members} {key : Text} {v : Value}
    (h : SoundMembers n members) (hdistinct : v.Distinct) (hwithin : v.Within n) :
    SoundMembers n (Members.set key v members) := by
  refine ⟨Members.nodup_set h.nodup, fun m hm => ?_, fun m hm => ?_⟩
  · rcases Members.mem_of_mem_set hm with rfl | hm
    · exact hdistinct
    · exact h.distinct m hm
  · rcases Members.mem_of_mem_set hm with rfl | hm
    · exact hwithin
    · exact h.within m hm

theorem SoundMembers.object {n : Nat} {members : Members} (h : SoundMembers n members) :
    (Value.object members).Distinct ∧ (Value.object members).Within (n + 1) :=
  ⟨.object h.nodup h.distinct, .object h.within⟩

theorem SoundMembers.lookup {n : Nat} {members : Members} (h : SoundMembers n members) {key : Text}
    {v : Value} (hv : members.lookup key = some v) : v.Distinct ∧ v.Within n :=
  ⟨h.distinct _ (Members.mem_of_lookup hv), h.within _ (Members.mem_of_lookup hv)⟩

theorem sound_iff {members : Members} :
    Sound (.object members) ↔ SoundMembers (recursionLimit - 1) members := by
  constructor
  · intro h
    exact .of_object h.distinct h.within
  · intro h
    exact ⟨rfl, h.object.1, h.object.2⟩

/-- The document with another list of elements is sound. -/
theorem sound_set {members hooks : Members} {entries : List Value}
    (h : SoundMembers (recursionLimit - 1) members) (hhooks : SoundMembers (recursionLimit - 2) hooks)
    (hdistinct : ∀ entry ∈ entries, entry.Distinct)
    (hwithin : ∀ entry ∈ entries, entry.Within (recursionLimit - 3)) :
    Sound (.object (Members.set hooksKey
      (.object (Members.set event (.array entries) hooks)) members)) := by
  have hlist : SoundMembers (recursionLimit - 2) (Members.set event (.array entries) hooks) :=
    hhooks.set (.array hdistinct) (.array hwithin)
  exact sound_iff.mpr (h.set hlist.object.1 hlist.object.2)

/-- The list of elements, and the maps above it. -/
theorem sound_parts {members hooks : Members} {entries : List Value}
    (h : Sound (.object members)) (hhooks : members.lookup hooksKey = some (.object hooks))
    (hevent : hooks.lookup event = some (.array entries)) :
    SoundMembers (recursionLimit - 2) hooks
      ∧ (∀ entry ∈ entries, entry.Distinct)
      ∧ ∀ entry ∈ entries, entry.Within (recursionLimit - 3) := by
  obtain ⟨hd, hw⟩ := (sound_iff.mp h).lookup hhooks
  have hsound : SoundMembers (recursionLimit - 2) hooks := .of_object hd hw
  obtain ⟨hd', hw'⟩ := hsound.lookup hevent
  refine ⟨hsound, ?_, ?_⟩
  · cases hd' with
    | array hentries => exact hentries
  · cases hw' with
    | array hentries => exact hentries

theorem eventArray_cases (document : Value) :
    eventArray document = []
      ∨ ∃ members hooks, document = .object members
        ∧ members.lookup hooksKey = some (.object hooks)
        ∧ hooks.lookup event = some (.array (eventArray document)) := by
  cases document with
  | object members =>
    cases hhooks : members.lookup hooksKey with
    | none => exact .inl (by simp [eventArray, Value.get, hhooks])
    | some list =>
      cases list with
      | object hooks =>
        cases hevent : hooks.lookup event with
        | none => exact .inl (by simp [eventArray, Value.get, hhooks, hevent])
        | some entries =>
          cases entries with
          | array entries =>
            refine .inr ⟨members, hooks, rfl, hhooks, ?_⟩
            rw [eventArray_of_lookup hhooks hevent, hevent]
          | _ => exact .inl (by simp [eventArray, Value.get, hhooks, hevent, Value.asArray])
      | _ => exact .inl (by simp [eventArray, Value.get, hhooks])
  | _ => exact .inl rfl

theorem distinct_of_mem {document entry : Value} (h : Sound document)
    (hentry : entry ∈ eventArray document) : entry.Distinct := by
  rcases eventArray_cases document with hnil | ⟨members, hooks, hdocument, hhooks, hevent⟩
  · rw [hnil] at hentry
    cases hentry
  · rw [hdocument] at h
    exact (sound_parts h hhooks hevent).2.1 entry hentry

theorem pushEntry_eq_ok {document entry document' : Value} (h : pushEntry document entry = .ok document')
    (hsound : Sound document) (hdistinct : entry.Distinct)
    (hwithin : entry.Within (recursionLimit - 3)) :
    eventArray document' = eventArray document ++ [entry] ∧ Sound document' := by
  unfold pushEntry at h
  split at h
  next members =>
    split at h
    next hooks hhooks =>
      split at h
      next entries hentries =>
        cases h
        have hmembers := sound_iff.mp hsound
        rw [eventArray_set]
        have hparts : eventArray (.object members) = entries
            ∧ SoundMembers (recursionLimit - 2) hooks ∧ (∀ e ∈ entries, e.Distinct)
            ∧ ∀ e ∈ entries, e.Within (recursionLimit - 3) := by
          cases hlookup : members.lookup hooksKey with
          | none =>
            rw [hlookup] at hhooks
            cases hhooks
            cases hentries
            exact ⟨by simp [eventArray, Value.get, hlookup], ⟨List.nodup_nil, nofun, nofun⟩, nofun, nofun⟩
          | some list =>
            rw [hlookup] at hhooks
            cases hhooks
            cases hevent : hooks.lookup event with
            | none =>
              rw [hevent] at hentries
              cases hentries
              obtain ⟨hd, hw⟩ := hmembers.lookup hlookup
              exact ⟨by simp [eventArray, Value.get, hlookup, hevent], .of_object hd hw, nofun, nofun⟩
            | some array =>
              rw [hevent] at hentries
              cases hentries
              exact ⟨eventArray_of_lookup hlookup hevent, sound_parts hsound hlookup hevent⟩
        obtain ⟨rfl, hhooks, hd, hw⟩ := hparts
        refine ⟨rfl, sound_set hmembers hhooks ?_ ?_⟩
        · exact List.forall_mem_append.mpr ⟨hd, by simpa using hdistinct⟩
        · exact List.forall_mem_append.mpr ⟨hw, by simpa using hwithin⟩
      next => cases h
    next => cases h
  next => cases h

theorem replaceEntry_eq_ok {document entry document' : Value} {index : Nat}
    (h : replaceEntry document index entry = .ok document') (hsound : Sound document)
    (hdistinct : entry.Distinct) (hwithin : entry.Within (recursionLimit - 3)) :
    eventArray document' = (eventArray document).set index entry ∧ Sound document' := by
  unfold replaceEntry at h
  split at h
  next members =>
    split at h
    next hooks hhooks =>
      split at h
      next entries hentries =>
        obtain ⟨_, -, h⟩ := except_bind_eq_ok.mp h
        cases h
        obtain ⟨hparts, hd, hw⟩ := sound_parts hsound hhooks hentries
        rw [eventArray_set, eventArray_of_lookup hhooks hentries]
        refine ⟨rfl, sound_set (sound_iff.mp hsound) hparts ?_ ?_⟩
        · intro e he
          rcases List.mem_or_eq_of_mem_set he with he | rfl
          · exact hd e he
          · exact hdistinct
        · intro e he
          rcases List.mem_or_eq_of_mem_set he with he | rfl
          · exact hw e he
          · exact hwithin
      next => cases h
    next => cases h
  next => cases h

/-! ## The manager's element -/

theorem ownedEntry_distinct (manager profile : Text) : (ownedEntry manager profile).Distinct := by
  have houter : ["matcher".toList, "hooks".toList].Nodup := by decide
  have hinner : ["type".toList, "command".toList, "timeout".toList].Nodup := by decide
  refine .object houter ?_
  simp only [List.forall_mem_cons, List.not_mem_nil, false_implies, implies_true, and_true]
  refine ⟨.string _, .array ?_⟩
  simp only [List.forall_mem_cons, List.not_mem_nil, false_implies, implies_true, and_true]
  refine .object hinner ?_
  simp only [List.forall_mem_cons, List.not_mem_nil, false_implies, implies_true, and_true]
  exact ⟨.string _, .string _, .number _⟩

theorem ownedEntry_floatFree (manager profile : Text) : (ownedEntry manager profile).FloatFree := by
  refine .object ?_
  simp only [List.forall_mem_cons, List.not_mem_nil, false_implies, implies_true, and_true]
  refine ⟨.string _, .array ?_⟩
  simp only [List.forall_mem_cons, List.not_mem_nil, false_implies, implies_true, and_true]
  refine .object ?_
  simp only [List.forall_mem_cons, List.not_mem_nil, false_implies, implies_true, and_true]
  exact ⟨.string _, .string _, .posInt _⟩

theorem ownedEntry_within (manager profile : Text) : (ownedEntry manager profile).Within 3 := by
  refine .object ?_
  simp only [List.forall_mem_cons, List.not_mem_nil, false_implies, implies_true, and_true]
  refine ⟨.string _, .array ?_⟩
  simp only [List.forall_mem_cons, List.not_mem_nil, false_implies, implies_true, and_true]
  refine .object ?_
  simp only [List.forall_mem_cons, List.not_mem_nil, false_implies, implies_true, and_true]
  exact ⟨.string _, .string _, .number (by decide)⟩

theorem runs_mapFloats {f : UInt64 → UInt64} (command : Text) (entry : Value) :
    runs command (entry.mapFloats f) = runs command entry := by
  unfold runs
  rw [Value.get_mapFloats]
  cases entry.get hooksKey with
  | none => rfl
  | some hooks =>
    simp only [Option.map_some, Option.bind_some, Value.asArray_mapFloats]
    cases hooks.asArray with
    | none => rfl
    | some hooks =>
      simp only [Option.map_some, Option.any_some, List.any_map]
      congr 1
      funext hook
      simp only [Function.comp, Value.get_mapFloats]
      cases hook.get "command".toList with
      | none => rfl
      | some command => simp

/-! ## Reading what was written -/

section

variable {crates : Crates} {node : Option Node} {scope : Scope}

theorem snapshotOf_file {digestBytes : Bytes → Text} {maximum : Nat} {name : String}
    {bytes : Bytes} {mode : Nat} (h : bytes.size ≤ maximum) :
    snapshotOf digestBytes maximum name (some (.file bytes mode))
      = .ok { bytes := some bytes, sha256 := digestBytes bytes,
              unixMode := some (snapshotMode mode) } := by
  unfold snapshotOf
  exact if_neg (by omega)

theorem size_of_snapshot {digestBytes : Bytes → Text} {maximum : Nat} {name : String}
    {bytes : Bytes} {mode : Nat} {snapshot : Snapshot}
    (h : snapshotOf digestBytes maximum name (some (.file bytes mode)) = .ok snapshot) :
    bytes.size ≤ maximum := by
  simp only [snapshotOf] at h
  by_contra hsize
  rw [if_pos (by omega)] at h
  cases h

theorem parseSettings_sound (hcrates : crates.Lawful) {snapshot : Snapshot} {document : Value}
    (h : parseSettings crates snapshot = .ok document) : Sound document := by
  unfold parseSettings at h
  split at h
  next =>
    cases h
    exact sound_empty
  next =>
    split at h
    next =>
      cases h
      exact sound_empty
    next =>
      split at h
      next => cases h
      next found hfound =>
        obtain ⟨_, hobject, h⟩ := except_bind_eq_ok.mp h
        cases h
        obtain ⟨hd, hw⟩ := hcrates.json.wellFormed _ _ hfound
        exact ⟨by simpa using rejectIf_eq_ok.mp hobject, hd, hw⟩

/-- Settings that were written read as the document, but for its floating-point numbers. -/
theorem parseSettings_encode (hcrates : crates.Lawful) {document : Value} (hsound : Sound document)
    {snapshot : Snapshot} (hbytes : snapshot.bytes = some (crates.json.encode document)) :
    parseSettings crates snapshot = .ok (document.mapFloats crates.json.reread) := by
  have hread := hcrates.json.reads document hsound.distinct hsound.within
  have hobject : (document.mapFloats crates.json.reread).isObject = true := by
    rw [Value.isObject_mapFloats]
    exact hsound.object
  have hlist : (crates.json.encode document).data.toList
      = crates.json.toVecPretty document ++ [0x0A] := rfl
  have hblank : ¬(crates.json.encode document).data.toList.all isAsciiWhitespace = true := by
    intro hblank
    rw [hlist] at hblank
    rw [hcrates.json.blank _ hblank] at hread
    cases hread
  unfold parseSettings
  rw [hbytes]
  simp only
  rw [if_neg hblank, JsonCrate.fromSlice, hlist, hread]
  simp only [hobject]
  rfl

theorem settingsOf_encode (hcrates : crates.Lawful) {document : Value} (hsound : Sound document)
    {mode : Nat} (hsize : (crates.json.encode document).size ≤ maxSettingsBytes) :
    settingsOf crates (some (.file (crates.json.encode document) mode))
      = .ok (document.mapFloats crates.json.reread) := by
  unfold settingsOf settingsSnapshot
  rw [snapshotOf_file hsize]
  simp only [Bind.bind, Except.bind]
  rw [parseSettings_encode hcrates hsound]
  rfl

theorem size_of_settings {bytes : Bytes} {mode : Nat} {document : Value}
    (h : settingsOf crates (some (.file bytes mode)) = .ok document) :
    bytes.size ≤ maxSettingsBytes := by
  obtain ⟨snapshot, hsnapshot, -⟩ := except_bind_eq_ok.mp h
  exact size_of_snapshot hsnapshot

/-- A receipt that the manager wrote is one that it accepts. -/
theorem receiptOf_encode (hcrates : crates.Lawful) {receipt : HookReceipt} {bytes : Bytes}
    {mode : Nat} (hvalid : receipt.validate crates scope = .ok ())
    (hdistinct : receipt.owned.Distinct) (hfloats : receipt.owned.FloatFree)
    (hwithin : receipt.owned.Within (recursionLimit - 1))
    (hbytes : encodeReceipt crates.receipts receipt = .ok bytes)
    (hsize : bytes.size ≤ maxReceiptBytes) :
    receiptOf crates scope (some (.file bytes mode)) = .ok (some receipt) := by
  unfold receiptOf receiptSnapshot
  rw [snapshotOf_file hsize]
  simp only [Bind.bind, Except.bind]
  unfold decodeReceipt
  simp only [hcrates.reads scope receipt bytes hvalid hdistinct hfloats hwithin hbytes]
  rw [hvalid]
  rfl

theorem size_of_receipt {bytes : Bytes} {mode : Nat} {receipt : Option HookReceipt}
    (h : receiptOf crates scope (some (.file bytes mode)) = .ok receipt) :
    bytes.size ≤ maxReceiptBytes := by
  obtain ⟨snapshot, hsnapshot, -⟩ := except_bind_eq_ok.mp h
  exact size_of_snapshot hsnapshot

theorem decodeReceipt_distinct (hcrates : crates.Lawful) {snapshot : Snapshot}
    {receipt : HookReceipt} (h : decodeReceipt crates snapshot scope = .ok (some receipt)) :
    receipt.owned.Distinct := by
  unfold decodeReceipt at h
  split at h
  next => cases h
  next bytes _ =>
    split at h
    next => cases h
    next found hfound =>
      obtain ⟨_, -, h⟩ := except_bind_eq_ok.mp h
      cases h
      exact hcrates.decodes bytes receipt hfound

theorem installReceipt_valid {profile : Text} {manager : Text} {action : HookAction}
    {original : Snapshot} {receipt : Option HookReceipt} {post : Text}
    (hprofile : validateProfileName profile = .ok ()) :
    (installReceipt crates scope profile (ownedEntry manager profile) action original receipt
      post).validate crates scope = .ok () := by
  unfold HookReceipt.validate
  rw [rejectIf_eq_ok]
  simp [installReceipt, hprofile, Except.isOk, Except.toBool, ownedEntry, Value.isObject]

end

/-! ## What is decided -/

theorem entryAt_split {document x : Value} {l r : List Value}
    (h : eventArray document = l ++ x :: r) : entryAt document l.length = .ok x := by
  unfold entryAt
  rw [h, List.getElem?_append_right (Nat.le_refl _), Nat.sub_self]
  rfl

/-- What an install decided, and the elements that it decided it from. -/
inductive Decided (document : Value) (receipt : Option HookReceipt) (desired : Value) :
    HookAction → Prop where
  | add (owned : ∀ o ∈ receipt.map (·.owned), ∀ entry ∈ eventArray document, ¬Same entry o)
      (identical : ∀ entry ∈ eventArray document, ¬Same entry desired)
      (none : matchingIndices document (receipt.map (·.owned)) = []) :
      Decided document receipt desired .add
  | adopt (owned : receipt = none)
      (identical : (eventArray document).countP (fun entry => entry.same desired) = 1) :
      Decided document receipt desired .adopt
  | update {o x : Value} {l r : List Value} (owned : receipt.map (·.owned) = some o)
      (split : eventArray document = l ++ x :: r) (same : Same x o)
      (others : ∀ entry ∈ l ++ r, ¬Same entry o) (differs : ¬Same x desired)
      (index : matchingIndices document (some o) = [l.length]) :
      Decided document receipt desired .update
  | alreadyInstalled {o x : Value} {l r : List Value} (owned : receipt.map (·.owned) = some o)
      (split : eventArray document = l ++ x :: r) (same : Same x o)
      (others : ∀ entry ∈ l ++ r, ¬Same entry o) (identical : Same x desired)
      (index : matchingIndices document (some o) = [l.length]) :
      Decided document receipt desired .alreadyInstalled

theorem matchingIndices_nil {document : Value} {owned : Option Value} :
    matchingIndices document owned = []
      ↔ ∀ o ∈ owned, ∀ entry ∈ eventArray document, ¬Same entry o := by
  cases owned with
  | none => simp [matchingIndices]
  | some o =>
    simp only [matchingIndices, List.findIdxs_eq_nil_iff, Option.mem_def, Option.some.injEq,
      forall_eq', Bool.not_eq_true]

theorem matchingIndices_single {document : Value} {owned : Option Value} {index : Nat}
    (h : matchingIndices document owned = [index]) :
    ∃ o l x r, owned = some o ∧ eventArray document = l ++ x :: r ∧ l.length = index
      ∧ Same x o ∧ ∀ entry ∈ l ++ r, ¬Same entry o := by
  cases owned with
  | none => cases h
  | some o =>
    obtain ⟨l, x, r, hsplit, hlength, hx, hothers⟩ := split_of_findIdxs h
    refine ⟨o, l, x, r, rfl, hsplit, hlength, hx, fun y hy => ?_⟩
    exact Bool.eq_false_iff.mp (hothers y hy)

theorem installAction_eq_ok {target : PosixPath} {document desired : Value}
    {receipt : Option HookReceipt} {action : HookAction}
    (h : installAction target document receipt desired = .ok action) :
    Decided document receipt desired action := by
  have hidentical : (identicalIndices document desired).length
      = (eventArray document).countP (fun entry => entry.same desired) := List.length_findIdxs
  unfold installAction at h
  simp only at h
  split at h
  next howned hcount hresembling =>
    cases h
    refine .add (matchingIndices_nil.mp howned) ?_ howned
    rw [hidentical, List.countP_eq_zero] at hcount
    exact hcount
  next howned hsome =>
    split at h
    next hadopt =>
      cases h
      refine .adopt (Option.isNone_iff_eq_none.mp hadopt.1) ?_
      rw [← hidentical]
      exact hadopt.2
    next =>
      split at h <;> cases h
  next index howned =>
    obtain ⟨entry, hentry, hdecided⟩ := except_bind_eq_ok.mp h
    obtain ⟨o, l, x, r, howned', hsplit, rfl, hsame, hothers⟩ := matchingIndices_single howned
    rw [entryAt_split hsplit] at hentry
    cases hentry
    rw [howned'] at howned
    by_cases hx : Value.same entry desired = true
    · rw [if_pos hx] at hdecided
      cases hdecided
      exact .alreadyInstalled howned' hsplit hsame hothers hx howned
    · rw [if_neg hx] at hdecided
      cases hdecided
      exact .update howned' hsplit hsame hothers hx howned
  next => cases h

/-- A receipt whose element is there once and is the desired one is an install in place. -/
theorem installAction_again {target : PosixPath} {document desired x : Value} {l r : List Value}
    {receipt : HookReceipt} (hsplit : eventArray document = l ++ x :: r)
    (hindex : matchingIndices document (some receipt.owned) = [l.length]) (hx : Same x desired) :
    installAction target document (some receipt) desired = .ok .alreadyInstalled := by
  unfold installAction
  simp only [Option.map_some, hindex, entryAt_split hsplit]
  show (Except.ok (if Value.same x desired = true then _ else _) : Result HookAction) = _
  rw [if_pos hx]

theorem matchingIndices_split {document x o : Value} {l r : List Value}
    (hsplit : eventArray document = l ++ x :: r) (hx : Same x o)
    (hothers : ∀ entry ∈ l ++ r, ¬Same entry o) :
    matchingIndices document (some o) = [l.length] := by
  have hl : List.findIdxs (fun entry => Value.same entry o) l = [] := by
    rw [List.findIdxs_eq_nil_iff]
    intro entry hentry
    exact Bool.eq_false_iff.mpr (hothers entry (List.mem_append_left _ hentry))
  have hr : ∀ s, List.findIdxs (fun entry => Value.same entry o) r s = [] := by
    intro s
    rw [List.findIdxs_eq_nil_iff]
    intro entry hentry
    exact Bool.eq_false_iff.mpr (hothers entry (List.mem_append_right _ hentry))
  simp only [matchingIndices, hsplit]
  rw [List.findIdxs_append, hl, List.findIdxs_cons, if_pos hx, hr]
  simp

/-! ## The plans -/

section

variable {crates : Crates} {scope : Scope} {manager profile : Text} {target : PosixPath}
  {nodes : Nodes}

/-- What the planners read from the files. -/
structure Looked (crates : Crates) (scope : Scope) (nodes : Nodes) (original : Snapshot)
    (document : Value) (receipt : Option HookReceipt) : Prop where
  settings : settingsSnapshot crates nodes.target = .ok original
  document : parseSettings crates original = .ok document
  receipt : receiptOf crates scope nodes.receipt = .ok receipt

theorem Looked.settingsOf {original : Snapshot} {document : Value} {receipt : Option HookReceipt}
    (h : Looked crates scope nodes original document receipt) :
    settingsOf crates nodes.target = .ok document :=
  except_bind_eq_ok.mpr ⟨original, h.settings, h.document⟩

theorem Looked.owned_distinct (hcrates : crates.Lawful) {original : Snapshot} {document o : Value}
    {receipt : Option HookReceipt} (h : Looked crates scope nodes original document receipt)
    (ho : receipt.map (·.owned) = some o) : o.Distinct := by
  obtain ⟨r, rfl, rfl⟩ := Option.map_eq_some_iff.mp ho
  obtain ⟨snapshot, -, hdecode⟩ := except_bind_eq_ok.mp h.receipt
  exact decodeReceipt_distinct hcrates hdecode

/-- Where the files beside a target are. -/
def Placed (target : PosixPath) : Prop :=
  (∃ sibling, siblingPath target ".kaleidoscope-owner.json" = .ok sibling)
    ∧ ∃ sibling, siblingPath target ".kaleidoscope-backup" = .ok sibling

/-- What an install plans. -/
inductive Plans (crates : Crates) (scope : Scope) (profile : Text) (original : Snapshot)
    (document : Value) (receipt : Option HookReceipt) (desired : Value) (action : HookAction)
    (plan : HookPlan HookReceipt) : Prop where
  | noop (installed : action = .alreadyInstalled) (isNoop : plan.action = .alreadyInstalled)
  | write (changes : action ≠ .alreadyInstalled) (kept : plan.action = action)
      {wanted : TargetWrite × Text}
      (decided : installWrite crates action original document (receipt.map (·.owned)) desired
        = .ok wanted) (write : plan.write = wanted.1)
      (receipt : plan.receiptAfter = some
        (installReceipt crates scope profile desired action original receipt wanted.2))

theorem planInstallAt_eq_ok {plan : HookPlan HookReceipt}
    (h : planInstallAt crates scope manager profile target nodes = .ok plan) :
    Placed target ∧ validateProfileName profile = .ok ()
      ∧ ∃ original document receipt action, Looked crates scope nodes original document receipt
        ∧ installAction target document receipt (ownedEntry manager profile) = .ok action
        ∧ Plans crates scope profile original document receipt (ownedEntry manager profile) action
          plan := by
  obtain ⟨_, hprofile, h⟩ := except_bind_eq_ok.mp h
  obtain ⟨receiptPath, hreceiptPath, h⟩ := except_bind_eq_ok.mp h
  obtain ⟨backupPath, hbackupPath, h⟩ := except_bind_eq_ok.mp h
  obtain ⟨original, horiginal, h⟩ := except_bind_eq_ok.mp h
  obtain ⟨receiptOriginal, hreceiptOriginal, h⟩ := except_bind_eq_ok.mp h
  obtain ⟨receipt, hreceipt, h⟩ := except_bind_eq_ok.mp h
  obtain ⟨document, hdocument, h⟩ := except_bind_eq_ok.mp h
  obtain ⟨action, haction, h⟩ := except_bind_eq_ok.mp h
  refine ⟨⟨⟨_, hreceiptPath⟩, _, hbackupPath⟩, hprofile, original, document, receipt, action,
    ⟨horiginal, hdocument, except_bind_eq_ok.mpr ⟨_, hreceiptOriginal, hreceipt⟩⟩, haction, ?_⟩
  split at h
  next hinstalled =>
    cases h
    exact .noop hinstalled rfl
  next hchanges =>
    obtain ⟨wanted, hwanted, h⟩ := except_bind_eq_ok.mp h
    cases h
    exact .write hchanges rfl hwanted rfl rfl

/-- An install that finds its element in place plans nothing. -/
theorem planInstallAt_noop (hplaced : Placed target) (hprofile : validateProfileName profile = .ok ())
    {original : Snapshot} {document : Value} {receipt : Option HookReceipt}
    (hlooked : Looked crates scope nodes original document receipt)
    (haction : installAction target document receipt (ownedEntry manager profile)
      = .ok .alreadyInstalled) :
    ∃ plan, planInstallAt crates scope manager profile target nodes = .ok plan
      ∧ plan.action.isNoop = true := by
  obtain ⟨⟨receiptPath, hreceiptPath⟩, backupPath, hbackupPath⟩ := hplaced
  obtain ⟨receiptOriginal, hreceiptOriginal, hreceipt⟩ := except_bind_eq_ok.mp hlooked.receipt
  refine ⟨noopPlan .alreadyInstalled target receiptPath backupPath original receiptOriginal, ?_, rfl⟩
  refine except_bind_eq_ok.mpr ⟨(), hprofile, ?_⟩
  refine except_bind_eq_ok.mpr ⟨_, hreceiptPath, ?_⟩
  refine except_bind_eq_ok.mpr ⟨_, hbackupPath, ?_⟩
  refine except_bind_eq_ok.mpr ⟨_, hlooked.settings, ?_⟩
  refine except_bind_eq_ok.mpr ⟨_, hreceiptOriginal, ?_⟩
  refine except_bind_eq_ok.mpr ⟨_, hreceipt, ?_⟩
  refine except_bind_eq_ok.mpr ⟨_, hlooked.document, ?_⟩
  exact except_bind_eq_ok.mpr ⟨_, haction, rfl⟩

/-! ## Removals -/

/-- An error that reports a conflict. -/
def IsConflict (x : ManagerError) : Prop := ∃ message, x = .hostConflict message

/-- A step that reports no conflict. -/
def Quiet {α : Type} (r : Result α) : Prop := ∀ x, r = .error x → ¬IsConflict x

theorem quiet_bind {α β : Type} {r : Result α} {f : α → Result β} (h : Quiet r)
    (hf : ∀ a, r = .ok a → Quiet (f a)) : Quiet (r >>= f) := by
  intro x hx
  cases hr : r with
  | error y =>
    rw [hr] at hx
    cases hx
    exact h x hr
  | ok a =>
    rw [hr] at hx
    exact hf a hr x hx

theorem quiet_ok {α : Type} (a : α) : Quiet (.ok a : Result α) := by
  intro x hx
  cases hx

theorem quiet_rejectIf {c : Prop} [Decidable c] {x : ManagerError} (h : ¬IsConflict x) :
    Quiet (rejectIf c x) := by
  unfold rejectIf
  split
  · intro y hy
    cases hy
    exact h
  · exact quiet_ok ()

theorem quiet_snapshotOf {digestBytes : Bytes → Text} {maximum : Nat} {name : String}
    {node : Option Node} : Quiet (snapshotOf digestBytes maximum name node) := by
  unfold snapshotOf
  intro x hx
  split at hx
  · cases hx
  · cases hx
    rintro ⟨_, h⟩
    cases h
  · split at hx
    · cases hx
      rintro ⟨_, h⟩
      cases h
    · cases hx
  · cases hx
    rintro ⟨_, h⟩
    cases h

theorem quiet_siblingPath {path : PosixPath} {suffix : String} : Quiet (siblingPath path suffix) := by
  unfold siblingPath
  intro x hx
  split at hx
  · cases hx
  · cases hx
    rintro ⟨_, h⟩
    cases h

theorem quiet_removeEntry {document : Value} {index : Nat} : Quiet (removeEntry document index) := by
  have hreceipt : ¬IsConflict .invalidOwnerReceipt := by
    rintro ⟨_, h⟩
    cases h
  have herror : ∀ {α : Type}, Quiet (.error .invalidOwnerReceipt : Result α) := by
    intro α x hx
    cases hx
    exact hreceipt
  unfold removeEntry
  split
  · split
    · split
      · exact quiet_bind (quiet_rejectIf hreceipt) fun _ _ => quiet_ok _
      · exact herror
    · exact herror
  · exact herror

/-- A removal that finds one element of the receipt reports no conflict. -/
theorem planRemoveAt_quiet {document : Value} {receipt : HookReceipt} {original : Snapshot}
    {index : Nat} {force : Bool} (hlooked : Looked crates scope nodes original document (some receipt))
    (hindex : matchingIndices document (some receipt.owned) = [index]) :
    Quiet (planRemoveAt crates scope target force nodes) := by
  obtain ⟨receiptOriginal, hreceiptOriginal, hreceipt⟩ := except_bind_eq_ok.mp hlooked.receipt
  unfold planRemoveAt
  refine quiet_bind quiet_siblingPath fun receiptPath _ => ?_
  refine quiet_bind quiet_siblingPath fun backupPath _ => ?_
  rw [hlooked.settings]
  refine quiet_bind (quiet_ok _) fun _ h => ?_
  cases h
  rw [hreceiptOriginal]
  refine quiet_bind (quiet_ok _) fun _ h => ?_
  cases h
  rw [hreceipt]
  refine quiet_bind (quiet_ok _) fun _ h => ?_
  cases h
  simp only
  rw [hlooked.document]
  refine quiet_bind (quiet_ok _) fun _ h => ?_
  cases h
  have hwithout : Quiet (withoutEntry target document receipt.owned force) := by
    unfold withoutEntry
    rw [hindex]
    exact quiet_bind quiet_removeEntry fun _ _ => quiet_ok _
  refine quiet_bind hwithout fun without _ => ?_
  cases without with
  | none => exact quiet_ok _
  | some document =>
    refine quiet_bind quiet_snapshotOf fun backup _ => ?_
    split <;> exact quiet_ok _

end

/-! ## One element -/

section

variable {f : UInt64 → UInt64} {desired : Value} {l r : List Value}

theorem same_iff {entry : Value} (hfree : desired.FloatFree) :
    Same (entry.mapFloats f) desired ↔ Same entry desired := by
  unfold Same
  rw [Value.same_mapFloats hfree]

theorem countP_written (hdesired : Same desired desired) (hfree : desired.FloatFree) :
    (l.map (Value.mapFloats f) ++ desired :: r.map (Value.mapFloats f)).countP
        (fun entry => entry.same desired) = 1
      ↔ ∀ entry ∈ l ++ r, ¬Same entry desired := by
  have hmap : ∀ entries : List Value,
      (entries.map (Value.mapFloats f)).countP (fun entry => entry.same desired) = 0
        ↔ ∀ entry ∈ entries, ¬Same entry desired := by
    intro entries
    rw [List.countP_eq_zero, List.forall_mem_map]
    exact forall₂_congr fun entry _ => not_congr (same_iff hfree)
  have hcons : (desired :: r.map (Value.mapFloats f)).countP (fun entry => entry.same desired)
      = (r.map (Value.mapFloats f)).countP (fun entry => entry.same desired) + 1 :=
    List.countP_cons_of_pos hdesired
  rw [List.countP_append, hcons, List.forall_mem_append, ← hmap l, ← hmap r]
  omega

theorem forall₂_written (hdesired : Same desired desired) :
    List.Forall₂ Same (l ++ desired :: r)
        (l.map (Value.mapFloats f) ++ desired :: r.map (Value.mapFloats f))
      ↔ ∀ entry ∈ l ++ r, Same entry (entry.mapFloats f) := by
  have hr : List.Forall₂ Same r (r.map (Value.mapFloats f))
      ↔ ∀ entry ∈ r, Same entry (entry.mapFloats f) := by
    rw [List.forall₂_map_right_iff, List.forall₂_same]
  induction l with
  | nil =>
    rw [List.nil_append, List.map_nil, List.nil_append, List.nil_append, List.forall₂_cons, hr]
    exact and_iff_right hdesired
  | cons entry l ih =>
    rw [List.cons_append, List.map_cons, List.cons_append, List.cons_append, List.forall₂_cons,
      List.forall_mem_cons]
    exact and_congr_right fun _ => ih

/-- Of the elements around the one that was written, none is the desired one, none runs the
command that was owned, and each reads as it was. -/
structure Others (f : UInt64 → UInt64) (owned : Option Value) (desired : Value)
    (others : List Value) : Prop where
  entry : ∀ entry ∈ others, ¬Same entry desired
  command : ∀ o ∈ owned, ∀ command ∈ ownedCommand o, ∀ entry ∈ others, ¬runs command entry = true
  stable : ∀ entry ∈ others, Same entry (entry.mapFloats f)

theorem oneElement_iff {action : HookAction} {before : List Value} {owned : Option Value}
    (hdesired : Same desired desired) (hfree : desired.FloatFree)
    (hkept : Kept action before owned desired
        (l.map (Value.mapFloats f) ++ desired :: r.map (Value.mapFloats f))
      ↔ ∀ entry ∈ l ++ r, Same entry (entry.mapFloats f)) :
    OneElement action before owned desired
        (l.map (Value.mapFloats f) ++ desired :: r.map (Value.mapFloats f))
      ↔ Others f owned desired (l ++ r) := by
  constructor
  · intro h
    have hentry := (countP_written hdesired hfree).mp h.unique
    refine ⟨hentry, fun o ho command hcommand entry hmem hruns => ?_, hkept.mp h.kept⟩
    refine hentry entry hmem ((@same_iff f _ _ hfree).mp
      (h.alone o ho command hcommand (entry.mapFloats f) ?_ ?_))
    · rcases List.mem_append.mp hmem with hmem | hmem
      · exact List.mem_append_left _ (List.mem_map_of_mem hmem)
      · exact List.mem_append_right _ (List.mem_cons_of_mem _ (List.mem_map_of_mem hmem))
    · rw [runs_mapFloats]
      exact hruns
  · intro h
    refine ⟨(countP_written hdesired hfree).mpr h.entry, ?_, hkept.mpr h.stable⟩
    intro o ho command hcommand entry hmem hruns
    have hother : ∀ e ∈ l ++ r, entry ≠ e.mapFloats f := by
      rintro e he rfl
      rw [runs_mapFloats] at hruns
      exact h.command o ho command hcommand e he hruns
    rcases List.mem_append.mp hmem with hmem | hmem
    · obtain ⟨e, he, rfl⟩ := List.mem_map.mp hmem
      exact absurd rfl (hother e (List.mem_append_left _ he))
    · rcases List.mem_cons.mp hmem with rfl | hmem
      · exact hdesired
      · obtain ⟨e, he, rfl⟩ := List.mem_map.mp hmem
        exact absurd rfl (hother e (List.mem_append_right _ he))

end

/-! ## What an install leaves -/

section

variable {crates : Crates} {scope : Scope} {manager profile : Text} {target : PosixPath}
  {nodes nodes' : Nodes} {original : Snapshot} {document document' : Value}
  {receipt : Option HookReceipt} {action : HookAction} {l r : List Value} {mode : Nat}
  {bytes : Bytes} {post : Text}

/-- A receipt and a list whose one element is the receipt's and the desired one: a further install
plans nothing, and a removal does not find several. -/
theorem installed_again (hplaced : Placed target)
    (hprofile : validateProfileName profile = .ok ()) {x : Value} {owner : HookReceipt}
    (hlooked : Looked crates scope nodes' original document (some owner))
    (hsplit : eventArray document = l ++ x :: r)
    (hindex : matchingIndices document (some owner.owned) = [l.length])
    (hx : Same x (ownedEntry manager profile)) :
    (∃ plan, planInstallAt crates scope manager profile target nodes' = .ok plan
        ∧ plan.action.isNoop = true)
      ∧ ∀ force count,
        planRemoveAt crates scope target force nodes' ≠ .error (ambiguousRemoval target count) := by
  refine ⟨planInstallAt_noop hplaced hprofile hlooked (installAction_again hsplit hindex hx), ?_⟩
  intro force count h
  exact planRemoveAt_quiet hlooked hindex _ h ⟨_, rfl⟩

theorem receipt_size_of_again
    (h : ∃ plan, planInstallAt crates scope manager profile target nodes' = .ok plan
      ∧ plan.action.isNoop = true)
    (hreceipt : nodes'.receipt = some (.file bytes mode)) : bytes.size ≤ maxReceiptBytes := by
  obtain ⟨plan, hplan, -⟩ := h
  obtain ⟨-, -, _, _, _, _, hlooked, -⟩ := planInstallAt_eq_ok hplan
  have hread := hlooked.receipt
  rw [hreceipt] at hread
  exact size_of_receipt hread

/-- The receipt that an install writes is read again. -/
theorem receiptOf_install (hcrates : crates.Lawful) (hprofile : validateProfileName profile = .ok ())
    (hbytes : encodeReceipt crates.receipts (installReceipt crates scope profile
      (ownedEntry manager profile) action original receipt post) = .ok bytes)
    (hsize : bytes.size ≤ maxReceiptBytes) :
    receiptOf crates scope (some (.file bytes mode))
      = .ok (some (installReceipt crates scope profile (ownedEntry manager profile) action original
        receipt post)) :=
  receiptOf_encode hcrates (installReceipt_valid hprofile) (ownedEntry_distinct manager profile)
    (ownedEntry_floatFree manager profile)
    ((ownedEntry_within manager profile).mono (by decide)) hbytes hsize

theorem same_ownedEntry (manager profile : Text) :
    Same (ownedEntry manager profile) (ownedEntry manager profile) :=
  Value.same_refl (ownedEntry_distinct manager profile)

theorem eventArray_reread {f : UInt64 → UInt64}
    (hsplit : eventArray document' = l ++ ownedEntry manager profile :: r) :
    eventArray (document'.mapFloats f)
      = l.map (Value.mapFloats f) ++ ownedEntry manager profile :: r.map (Value.mapFloats f) := by
  rw [eventArray_mapFloats, hsplit, List.map_append, List.map_cons,
    Value.mapFloats_floatFree (ownedEntry_floatFree manager profile)]

/-- An install that writes the settings. -/
theorem installed_written_iff (hcrates : crates.Lawful) (hplaced : Placed target)
    (hprofile : validateProfileName profile = .ok ())
    (hlooked : Looked crates scope nodes original document receipt)
    (hsound : Sound document')
    (hsplit : eventArray document' = l ++ ownedEntry manager profile :: r)
    (htarget : nodes'.target = some (.file (crates.json.encode document') mode))
    (hreceipt : nodes'.receipt = some (.file bytes 0o600))
    (hbytes : encodeReceipt crates.receipts (installReceipt crates scope profile
      (ownedEntry manager profile) action original receipt post) = .ok bytes)
    (hkept : Kept action (eventArray document) (receipt.map (·.owned)) (ownedEntry manager profile)
        (l.map (Value.mapFloats crates.json.reread) ++ ownedEntry manager profile
          :: r.map (Value.mapFloats crates.json.reread))
      ↔ ∀ entry ∈ l ++ r, Same entry (entry.mapFloats crates.json.reread)) :
    Installed crates scope manager profile target action nodes nodes'
      ↔ (crates.json.encode document').size ≤ maxSettingsBytes ∧ bytes.size ≤ maxReceiptBytes
        ∧ Others crates.json.reread (receipt.map (·.owned)) (ownedEntry manager profile)
          (l ++ r) := by
  have hfree := ownedEntry_floatFree manager profile
  have hdesired := same_ownedEntry manager profile
  have hone := oneElement_iff hdesired hfree hkept
  constructor
  · intro h
    obtain ⟨before, receipt', after, hbefore, hreceipt', hafter, hone'⟩ := h.one
    rw [hlooked.settingsOf] at hbefore
    cases hbefore
    rw [hlooked.receipt] at hreceipt'
    cases hreceipt'
    rw [htarget] at hafter
    have hsize := size_of_settings hafter
    rw [settingsOf_encode hcrates hsound hsize] at hafter
    cases hafter
    rw [eventArray_reread hsplit] at hone'
    exact ⟨hsize, receipt_size_of_again h.again hreceipt, hone.mp hone'⟩
  · rintro ⟨hsize, hreceiptSize, hothers⟩
    have hafter : settingsOf crates nodes'.target
        = .ok (document'.mapFloats crates.json.reread) := by
      rw [htarget]
      exact settingsOf_encode hcrates hsound hsize
    have hread : receiptOf crates scope nodes'.receipt = .ok (some (installReceipt crates scope
        profile (ownedEntry manager profile) action original receipt post)) := by
      rw [hreceipt]
      exact receiptOf_install hcrates hprofile hbytes hreceiptSize
    obtain ⟨snapshot, hsnapshot, hparse⟩ := except_bind_eq_ok.mp hafter
    have hsplit' := @eventArray_reread manager profile _ l r crates.json.reread hsplit
    have hothers' : ∀ entry ∈ l.map (Value.mapFloats crates.json.reread)
        ++ r.map (Value.mapFloats crates.json.reread), ¬Same entry (ownedEntry manager profile) := by
      rw [← List.map_append, List.forall_mem_map]
      intro entry hentry hsame
      exact hothers.entry entry hentry ((same_iff hfree).mp hsame)
    have hindex := matchingIndices_split hsplit' hdesired hothers'
    obtain ⟨hagain, hremovable⟩ := @installed_again crates scope manager profile target nodes'
      snapshot _ _ _ hplaced hprofile _ _ ⟨hsnapshot, hparse, hread⟩ hsplit' hindex hdesired
    refine ⟨⟨_, _, _, hlooked.settingsOf, hlooked.receipt, hafter, ?_⟩, hagain, hremovable⟩
    rw [hsplit']
    exact hone.mpr hothers

theorem encodeReceipt_ok (hcrates : crates.Lawful) (receipt : HookReceipt) :
    ∃ bytes, encodeReceipt crates.receipts receipt = .ok bytes := by
  obtain ⟨bytes, hbytes⟩ := Option.isSome_iff_exists.mp (hcrates.encodes receipt)
  refine ⟨bytes.push 10, ?_⟩
  unfold encodeReceipt
  rw [hbytes]

/-- The entries after a plan that writes a receipt. -/
theorem after_of_receipt {plan : HookPlan HookReceipt} {owner : HookReceipt}
    (hnoop : plan.action.isNoop = false) (hafter : plan.receiptAfter = some owner)
    (hbytes : encodeReceipt crates.receipts owner = .ok bytes) :
    (plan.after crates.receipts nodes).target = written plan nodes.target
      ∧ (plan.after crates.receipts nodes).receipt = some (.file bytes 0o600) := by
  unfold HookPlan.after
  rw [hnoop]
  refine ⟨rfl, ?_⟩
  show receiptNode (receiptBytes crates.receipts plan) = _
  unfold receiptBytes
  rw [hafter, Option.bind_some, hbytes]
  rfl

theorem kept_add {f : UInt64 → UInt64} {before : List Value} {owned : Option Value}
    {desired : Value} (hdesired : Same desired desired) :
    Kept .add before owned desired
        (before.map (Value.mapFloats f) ++ desired :: [].map (Value.mapFloats f))
      ↔ ∀ entry ∈ before ++ [], Same entry (entry.mapFloats f) :=
  forall₂_written hdesired

/-- Of the receipt's element there is one place. -/
theorem kept_update {f : UInt64 → UInt64} {o x desired : Value} (hdesired : Same desired desired)
    (hx : Same x o) (hothers : ∀ entry ∈ l ++ r, ¬Same entry o) :
    Kept .update (l ++ x :: r) (some o) desired
        (l.map (Value.mapFloats f) ++ desired :: r.map (Value.mapFloats f))
      ↔ ∀ entry ∈ l ++ r, Same entry (entry.mapFloats f) := by
  constructor
  · rintro ⟨l', x', r', hsplit, ⟨o', ho', hx'⟩, hall⟩
    cases ho'
    have hlength : l'.length = l.length ∧ r'.length = r.length := by
      have hlength := congrArg List.length hsplit
      have hall := hall.length_eq
      simp only [List.length_append, List.length_cons, List.length_map] at hlength hall
      rcases Nat.lt_trichotomy l'.length l.length with hlt | heq | hgt
      · refine absurd hx' (hothers x' (List.mem_append_left _ ?_))
        have hget := congrArg (fun entries => entries[l'.length]?) hsplit
        simp only [List.getElem?_append_left hlt, List.getElem?_append_right (Nat.le_refl _),
          Nat.sub_self, List.getElem?_cons_zero] at hget
        exact List.mem_of_getElem? hget
      · omega
      · refine absurd hx' (hothers x' (List.mem_append_right _ ?_))
        have hget := congrArg (fun entries => entries[l'.length]?) hsplit
        obtain ⟨k, hk⟩ := Nat.exists_eq_add_of_lt hgt
        have hsub : l'.length - l.length = k + 1 := by omega
        simp only [List.getElem?_append_right hgt.le, List.getElem?_append_right (Nat.le_refl _),
          Nat.sub_self, List.getElem?_cons_zero, hsub, List.getElem?_cons_succ] at hget
        exact List.mem_of_getElem? hget
    obtain ⟨rfl, htail⟩ := List.append_inj hsplit hlength.1.symm
    cases htail
    exact (forall₂_written hdesired).mp hall
  · intro h
    exact ⟨l, x, r, rfl, ⟨o, rfl, hx⟩, (forall₂_written hdesired).mpr h⟩

/-- The condition on an install that writes the settings, read off the other elements. -/
theorem closed_written_iff {desired : Value} {others : List Value} {wanted : TargetWrite × Text}
    (haction : installAction target document receipt desired = .ok action)
    (hinstalled : installed document (receipt.map (·.owned)) desired = .ok document')
    (hwanted : installWrite crates action original document (receipt.map (·.owned)) desired
      = .ok wanted)
    (hbytes : encodeReceipt crates.receipts (installReceipt crates scope profile desired action
      original receipt wanted.2) = .ok bytes)
    (hall : ∀ entry ∈ eventArray document, entry ∈ others
      ∨ ¬Same entry desired ∧ ∃ o, receipt.map (·.owned) = some o ∧ Same entry o)
    (hothers : ∀ entry ∈ others, entry ∈ eventArray document)
    (hnot : ∀ o ∈ receipt.map (·.owned), ∀ entry ∈ others, ¬Same entry o)
    (hnew : (∀ o ∈ receipt.map (·.owned), ¬Same o desired →
        ∀ entry ∈ eventArray document, ¬Same entry desired) →
      ∀ entry ∈ eventArray document, ¬Same entry desired)
    (hwritten : ∀ o ∈ receipt.map (·.owned), Same o desired →
      ∀ entry ∈ eventArray document, ¬Same entry desired) :
    Closed crates scope profile target desired original document receipt
      ↔ (crates.json.encode document').size ≤ maxSettingsBytes ∧ bytes.size ≤ maxReceiptBytes
        ∧ Others crates.json.reread (receipt.map (·.owned)) desired others := by
  constructor
  · intro h
    have hentry := hnew h.entry
    have hsettings := h.settings hentry
    refine ⟨hsettings.size _ hinstalled, h.receipt hwritten _ _ _ haction hwanted hbytes,
      fun entry hmem => hentry entry (hothers entry hmem), ?_, fun entry hmem => ?_⟩
    · intro o ho command hcommand entry hmem hruns
      exact hnot o ho entry hmem (h.command o ho command hcommand entry (hothers entry hmem) hruns)
    · exact hsettings.stable entry (hothers entry hmem) fun o ho => hnot o ho entry hmem
  · rintro ⟨hsize, hreceipt, h⟩
    refine ⟨?_, ?_, fun _ => ⟨?_, ?_⟩, ?_⟩
    · intro o ho command hcommand entry hmem hruns
      rcases hall entry hmem with hmem | ⟨-, o', ho', hsame⟩
      · exact absurd hruns (h.command o ho command hcommand entry hmem)
      · rw [Option.mem_def, ho'] at ho
        cases ho
        exact hsame
    · intro o ho _ entry hmem
      rcases hall entry hmem with hmem | ⟨hdiffers, -⟩
      · exact h.entry entry hmem
      · exact hdiffers
    · intro document'' hinstalled'
      rw [hinstalled] at hinstalled'
      cases hinstalled'
      exact hsize
    · intro entry hmem hnone
      rcases hall entry hmem with hmem | ⟨-, o, ho, hsame⟩
      · exact h.stable entry hmem
      · exact absurd hsame (hnone o ho)
    · intro _ action' write' bytes' haction' hwrite' hbytes'
      rw [haction] at haction'
      cases haction'
      rw [hwanted] at hwrite'
      cases hwrite'
      rw [hbytes] at hbytes'
      cases hbytes'
      exact hreceipt

theorem installWrite_eq_ok {owned : Option Value} {desired : Value} {wanted : TargetWrite × Text}
    (hchanges : action ≠ .adopt)
    (h : installWrite crates action original document owned desired = .ok wanted) :
    ∃ document', installed document owned desired = .ok document'
      ∧ wanted.1 = .write (crates.json.encode document') := by
  unfold installWrite at h
  rw [if_neg hchanges] at h
  obtain ⟨document', hinstalled, h⟩ := except_bind_eq_ok.mp h
  cases h
  exact ⟨document', hinstalled, rfl⟩

theorem sound_of_looked (hcrates : crates.Lawful)
    (hlooked : Looked crates scope nodes original document receipt) : Sound document :=
  parseSettings_sound hcrates hlooked.document

/-- An install that adds its element. -/
theorem installed_add_iff (hcrates : crates.Lawful) (hplaced : Placed target)
    (hprofile : validateProfileName profile = .ok ())
    (hlooked : Looked crates scope nodes original document receipt)
    (howned : ∀ o ∈ receipt.map (·.owned), ∀ entry ∈ eventArray document, ¬Same entry o)
    (hidentical : ∀ entry ∈ eventArray document, ¬Same entry (ownedEntry manager profile))
    (hnone : matchingIndices document (receipt.map (·.owned)) = [])
    (haction : installAction target document receipt (ownedEntry manager profile) = .ok .add)
    {plan : HookPlan HookReceipt}
    (hplans : Plans crates scope profile original document receipt (ownedEntry manager profile)
      .add plan) :
    Installed crates scope manager profile target .add nodes (plan.after crates.receipts nodes)
      ↔ Closed crates scope profile target (ownedEntry manager profile) original document
        receipt := by
  cases hplans with
  | noop hinstalled => cases hinstalled
  | @write _ hkept wanted hwanted hwrite hafter =>
    obtain ⟨document', hinstalled, hwrote⟩ := installWrite_eq_ok (by decide) hwanted
    obtain ⟨bytes, hbytes⟩ := encodeReceipt_ok hcrates (installReceipt crates scope profile
      (ownedEntry manager profile) .add original receipt wanted.2)
    have hpush : pushEntry document (ownedEntry manager profile) = .ok document' := by
      unfold installed at hinstalled
      rwa [hnone] at hinstalled
    obtain ⟨hentries, hsound⟩ := pushEntry_eq_ok hpush (sound_of_looked hcrates hlooked)
      (ownedEntry_distinct manager profile)
      ((ownedEntry_within manager profile).mono (by decide))
    obtain ⟨htarget, hreceipt⟩ := @after_of_receipt crates nodes bytes plan _
      (by rw [hkept]; rfl) hafter hbytes
    rw [written, hwrite, hwrote] at htarget
    rw [installed_written_iff hcrates hplaced hprofile hlooked hsound hentries htarget hreceipt
      hbytes (kept_add (same_ownedEntry manager profile))]
    refine (closed_written_iff haction hinstalled hwanted hbytes (fun entry hmem => ?_)
      (fun entry hmem => ?_) (fun o ho entry hmem => ?_) (fun _ => hidentical)
      fun _ _ _ => hidentical).symm
    · exact .inl (by simpa using hmem)
    · simpa using hmem
    · exact howned o ho entry (by simpa using hmem)

/-- An install that replaces the receipt's element. -/
theorem installed_update_iff (hcrates : crates.Lawful) (hplaced : Placed target)
    (hprofile : validateProfileName profile = .ok ())
    (hlooked : Looked crates scope nodes original document receipt) {o x : Value}
    (howned : receipt.map (·.owned) = some o) (hsplit : eventArray document = l ++ x :: r)
    (hsame : Same x o) (hothers : ∀ entry ∈ l ++ r, ¬Same entry o)
    (hdiffers : ¬Same x (ownedEntry manager profile))
    (hindex : matchingIndices document (some o) = [l.length])
    (haction : installAction target document receipt (ownedEntry manager profile) = .ok .update)
    {plan : HookPlan HookReceipt}
    (hplans : Plans crates scope profile original document receipt (ownedEntry manager profile)
      .update plan) :
    Installed crates scope manager profile target .update nodes (plan.after crates.receipts nodes)
      ↔ Closed crates scope profile target (ownedEntry manager profile) original document
        receipt := by
  cases hplans with
  | noop hinstalled => cases hinstalled
  | @write _ hkept wanted hwanted hwrite hafter =>
    obtain ⟨document', hinstalled, hwrote⟩ := installWrite_eq_ok (by decide) hwanted
    obtain ⟨bytes, hbytes⟩ := encodeReceipt_ok hcrates (installReceipt crates scope profile
      (ownedEntry manager profile) .update original receipt wanted.2)
    have hreplace : replaceEntry document l.length (ownedEntry manager profile)
        = .ok document' := by
      unfold installed at hinstalled
      rwa [howned, hindex] at hinstalled
    obtain ⟨hentries, hsound⟩ := replaceEntry_eq_ok hreplace (sound_of_looked hcrates hlooked)
      (ownedEntry_distinct manager profile)
      ((ownedEntry_within manager profile).mono (by decide))
    rw [hsplit, set_length] at hentries
    obtain ⟨htarget, hreceipt⟩ := @after_of_receipt crates nodes bytes plan _
      (by rw [hkept]; rfl) hafter hbytes
    rw [written, hwrite, hwrote] at htarget
    have hkeep := @kept_update l r crates.json.reread o x _ (same_ownedEntry manager profile) hsame
      hothers
    rw [← hsplit, ← howned] at hkeep
    rw [installed_written_iff hcrates hplaced hprofile hlooked hsound hentries htarget hreceipt
      hbytes hkeep]
    have hnew : ¬Same o (ownedEntry manager profile) := fun h => hdiffers (Value.same_trans hsame h)
    have howned' : ∀ o' ∈ receipt.map (·.owned), o' = o := by
      intro o' ho'
      rw [howned] at ho'
      exact (Option.mem_some_iff.mp ho').symm
    refine (closed_written_iff haction hinstalled hwanted hbytes (fun entry hmem => ?_)
      (fun entry hmem => ?_) (fun o' ho' entry hmem => ?_) (fun h => h o howned hnew)
      fun o' ho' h => ?_).symm
    · rw [hsplit] at hmem
      rcases List.mem_append.mp hmem with hmem | hmem
      · exact .inl (List.mem_append_left _ hmem)
      · rcases List.mem_cons.mp hmem with rfl | hmem
        · exact .inr ⟨hdiffers, o, howned, hsame⟩
        · exact .inl (List.mem_append_right _ hmem)
    · rw [hsplit]
      rcases List.mem_append.mp hmem with hmem | hmem
      · exact List.mem_append_left _ hmem
      · exact List.mem_append_right _ (List.mem_cons_of_mem _ hmem)
    · rw [howned' o' ho']
      exact hothers entry hmem
    · rw [howned' o' ho'] at h
      exact absurd h hnew

/-- The one element that is equal to the desired one. -/
theorem split_identical {desired : Value}
    (h : (eventArray document).countP (fun entry => entry.same desired) = 1) :
    ∃ l x r, eventArray document = l ++ x :: r ∧ Same x desired
      ∧ matchingIndices document (some desired) = [l.length] := by
  have hlength : (matchingIndices document (some desired)).length = 1 := by
    rw [← h]
    exact List.length_findIdxs
  obtain ⟨index, hindex⟩ := List.length_eq_one_iff.mp hlength
  obtain ⟨_, l, x, r, howned, hsplit, rfl, hsame, -⟩ := matchingIndices_single hindex
  cases howned
  exact ⟨l, x, r, hsplit, hsame, hindex⟩

theorem kept_same (hcrates : crates.Lawful)
    (hlooked : Looked crates scope nodes original document receipt) :
    List.Forall₂ Same (eventArray document) (eventArray document) :=
  List.forall₂_same.mpr fun _ hmem =>
    Value.same_refl (distinct_of_mem (sound_of_looked hcrates hlooked) hmem)

/-- An install that takes over an element which is already the desired one. -/
theorem installed_adopt_iff (hcrates : crates.Lawful) (hplaced : Placed target)
    (hprofile : validateProfileName profile = .ok ())
    (hlooked : Looked crates scope nodes original document none)
    (hidentical : (eventArray document).countP
      (fun entry => entry.same (ownedEntry manager profile)) = 1)
    (haction : installAction target document none (ownedEntry manager profile) = .ok .adopt)
    {plan : HookPlan HookReceipt}
    (hplans : Plans crates scope profile original document none (ownedEntry manager profile)
      .adopt plan) :
    Installed crates scope manager profile target .adopt nodes (plan.after crates.receipts nodes)
      ↔ Closed crates scope profile target (ownedEntry manager profile) original document
        none := by
  cases hplans with
  | noop hinstalled => cases hinstalled
  | @write _ hkept wanted hwanted hwrite hafter =>
    obtain ⟨bytes, hbytes⟩ := encodeReceipt_ok hcrates (installReceipt crates scope profile
      (ownedEntry manager profile) .adopt original none wanted.2)
    obtain ⟨htarget, hreceipt⟩ := @after_of_receipt crates nodes bytes plan _
      (by rw [hkept]; rfl) hafter hbytes
    have hleave : plan.write = .leave := by
      unfold installWrite at hwanted
      cases hwanted
      exact hwrite
    rw [written, hleave] at htarget
    obtain ⟨l, x, r, hsplit, hsame, hindex⟩ := split_identical hidentical
    have hmem : x ∈ eventArray document := by
      rw [hsplit]
      exact List.mem_append_right _ List.mem_cons_self
    constructor
    · intro h
      refine ⟨fun _ ho => (by cases ho), fun _ ho => (by cases ho),
        fun hnone => absurd hsame (hnone x hmem), ?_⟩
      intro _ action' write' bytes' haction' hwrite' hbytes'
      rw [haction] at haction'
      cases haction'
      rw [hwanted] at hwrite'
      cases hwrite'
      rw [hbytes] at hbytes'
      cases hbytes'
      exact receipt_size_of_again h.again hreceipt
    · intro h
      have hsize := h.receipt (fun _ ho => by cases ho) _ _ _ haction hwanted hbytes
      have hread : receiptOf crates scope (plan.after crates.receipts nodes).receipt
          = .ok (some (installReceipt crates scope profile (ownedEntry manager profile) .adopt
            original none wanted.2)) := by
        rw [hreceipt]
        exact receiptOf_install hcrates hprofile hbytes hsize
      have hlooked' : Looked crates scope (plan.after crates.receipts nodes) original document
          (some (installReceipt crates scope profile (ownedEntry manager profile) .adopt original
            none wanted.2)) := by
        refine ⟨?_, hlooked.document, hread⟩
        rw [htarget]
        exact hlooked.settings
      obtain ⟨hagain, hremovable⟩ := installed_again hplaced hprofile hlooked' hsplit hindex hsame
      exact ⟨⟨_, _, _, hlooked.settingsOf, hlooked.receipt, hlooked'.settingsOf, hidentical,
        fun _ ho => (by cases ho),
        kept_same hcrates hlooked⟩, hagain, hremovable⟩

/-- An install that finds its element in place. -/
theorem installed_noop_iff (hcrates : crates.Lawful) (hplaced : Placed target)
    (hprofile : validateProfileName profile = .ok ())
    (hlooked : Looked crates scope nodes original document receipt) {o x : Value}
    (howned : receipt.map (·.owned) = some o) (hsplit : eventArray document = l ++ x :: r)
    (hsame : Same x o) (hothers : ∀ entry ∈ l ++ r, ¬Same entry o)
    (hidentical : Same x (ownedEntry manager profile))
    (hindex : matchingIndices document (some o) = [l.length]) :
    Installed crates scope manager profile target .alreadyInstalled nodes nodes
      ↔ Closed crates scope profile target (ownedEntry manager profile) original document
        receipt := by
  have hmem : ∀ {entry}, entry ∈ eventArray document → entry.Distinct := fun h =>
    distinct_of_mem (sound_of_looked hcrates hlooked) h
  have hx : x ∈ eventArray document := by
    rw [hsplit]
    exact List.mem_append_right _ List.mem_cons_self
  have ho := hlooked.owned_distinct hcrates howned
  have hdesired := ownedEntry_distinct manager profile
  -- the receipt's element is the desired one
  have howned_desired : Same o (ownedEntry manager profile) :=
    Value.same_trans (Value.same_symm (hmem hx) ho hsame) hidentical
  have hiff : ∀ entry, Same entry (ownedEntry manager profile) ↔ Same entry o := by
    intro entry
    refine ⟨fun h => ?_, fun h => Value.same_trans h howned_desired⟩
    exact Value.same_trans h (Value.same_symm ho hdesired howned_desired)
  have howned' : ∀ o' ∈ receipt.map (·.owned), o' = o := by
    intro o' ho'
    rw [howned] at ho'
    exact (Option.mem_some_iff.mp ho').symm
  constructor
  · intro h
    obtain ⟨before, receipt', after, hbefore, hreceipt', hafter, hone⟩ := h.one
    rw [hlooked.settingsOf] at hbefore hafter
    cases hbefore
    cases hafter
    rw [hlooked.receipt] at hreceipt'
    cases hreceipt'
    refine ⟨?_, ?_, fun hnone => absurd hidentical (hnone x hx), ?_⟩
    · intro o' ho' command hcommand entry hentry hruns
      rw [howned' o' ho']
      exact (hiff entry).mp (hone.alone o' ho' command hcommand entry hentry hruns)
    · intro o' ho' hnew
      rw [howned' o' ho'] at hnew
      exact absurd howned_desired hnew
    · intro hwritten
      exact absurd hidentical (hwritten o howned howned_desired x hx)
  · intro h
    obtain ⟨receipt, rfl, rfl⟩ := Option.map_eq_some_iff.mp howned
    obtain ⟨hagain, hremovable⟩ := installed_again hplaced hprofile hlooked hsplit hindex hidentical
    refine ⟨⟨_, _, _, hlooked.settingsOf, hlooked.receipt, hlooked.settingsOf, ?_, ?_,
      kept_same hcrates hlooked⟩, hagain, hremovable⟩
    · have hcount : (eventArray document).countP (fun entry => entry.same receipt.owned) = 1 := by
        rw [← List.length_singleton (a := l.length), ← hindex]
        exact List.length_findIdxs.symm
      rw [← hcount]
      exact List.countP_congr fun entry _ => hiff entry
    · intro o' ho' command hcommand entry hentry hruns
      rw [hiff entry, ← howned' o' ho']
      exact h.command o' ho' command hcommand entry hentry hruns

end

/-! ## Crates -/

namespace Sample

def scopeText : Scope → Text
  | .user => "user".toList
  | .project => "project".toList

def receiptMembers (receipt : HookReceipt) : Members := [
  ("version".toList, .number (.posInt receipt.version)),
  ("owner".toList, .string receipt.owner),
  ("scope".toList, .string (scopeText receipt.scope)),
  ("profile".toList, .string receipt.profile),
  ("owned".toList, receipt.owned),
  ("owned_sha256".toList, .string receipt.ownedSha256),
  ("pre_sha256".toList, .string receipt.preSha256),
  ("post_sha256".toList, .string receipt.postSha256),
  ("file_created".toList, .bool receipt.fileCreated),
  ("adopted".toList, .bool receipt.adopted)]

/-- A receipt whose members are in the order in which they are written. -/
def ofMembers : Members → Option HookReceipt
  | [(_, .number (.posInt version)), (_, .string owner), (_, .string scope), (_, .string profile),
      (_, owned), (_, .string ownedSha256), (_, .string preSha256), (_, .string postSha256),
      (_, .bool fileCreated), (_, .bool adopted)] =>
    some { version, owner, scope := if scope = scopeText .user then .user else .project, profile,
           owned, ownedSha256, preSha256, postSha256, fileCreated, adopted }
  | _ => none

def receiptKeys : List Text := ["version".toList, "owner".toList, "scope".toList,
  "profile".toList, "owned".toList, "owned_sha256".toList, "pre_sha256".toList,
  "post_sha256".toList, "file_created".toList, "adopted".toList]

def ofValue : Value → Option HookReceipt
  | .object members => if members.map Prod.fst = receiptKeys then ofMembers members else none
  | _ => none

def crates : Crates where
  json := JsonWriter.crate
  receipts :=
    { digestBytes := fun bytes => (toString bytes.size).toList
      toVecPretty := fun receipt =>
        some ⟨(JsonWriter.crate.toVecPretty (.object (receiptMembers receipt))).toArray⟩ }
  fromSlice := fun bytes => (JsonWriter.crate.fromSlice bytes).bind ofValue

theorem ofValue_members (receipt : HookReceipt) :
    ofValue (.object (receiptMembers receipt)) = some receipt := by
  have hkeys : (receiptMembers receipt).map Prod.fst = receiptKeys := rfl
  simp only [ofValue]
  rw [if_pos hkeys]
  obtain ⟨version, owner, scope, profile, owned, _, _, _, _, _⟩ := receipt
  cases scope <;> rfl

theorem toList_push (text : JsonSpan.Str) (b : UInt8) :
    ((⟨text.toArray⟩ : Bytes).push b).data.toList = text ++ [b] := by
  simp

theorem receipt_keys (receipt : HookReceipt) :
    ((receiptMembers receipt).map Prod.fst).Nodup := by
  show receiptKeys.Nodup
  decide

theorem owned_mem {members : Members} {receipt : HookReceipt}
    (h : ofMembers members = some receipt) : ∃ m ∈ members, m.2 = receipt.owned := by
  unfold ofMembers at h
  split at h
  · cases h
    exact ⟨_, List.mem_cons_of_mem _ (List.mem_cons_of_mem _ (List.mem_cons_of_mem _
      (List.mem_cons_of_mem _ List.mem_cons_self))), rfl⟩
  · cases h

theorem crates_lawful : crates.Lawful where
  json := JsonWriter.crate_lawful
  encodes _ := rfl
  decodes bytes receipt h := by
    obtain ⟨v, hv, hreceipt⟩ := Option.bind_eq_some_iff.mp h
    obtain ⟨hdistinct, -⟩ := JsonWriter.crate_lawful.wellFormed _ _ hv
    cases v with
    | object members =>
      obtain ⟨m, hm, howned⟩ := owned_mem (Option.ite_none_right_eq_some.mp hreceipt).2
      cases hdistinct with
      | object _ hmembers => exact howned ▸ hmembers m hm
    | _ => cases hreceipt
  reads scope receipt bytes hvalid hdistinct hfloats hwithin hbytes := by
    have hversion : receipt.version = receiptVersion := by
      have hshape := rejectIf_eq_ok.mp hvalid
      simp only [not_or, not_not] at hshape
      exact hshape.1
    have hread := JsonWriter.crate_lawful.reads (.object (receiptMembers receipt))
      (.object (receipt_keys receipt) ?_) (.object (n := recursionLimit - 1) ?_)
    · cases hbytes
      have hfree : (Value.object (receiptMembers receipt)).FloatFree := by
        refine .object ?_
        simp only [receiptMembers, List.forall_mem_cons, List.not_mem_nil, false_implies,
          implies_true, and_true]
        exact ⟨.posInt _, .string _, .string _, .string _, hfloats, .string _, .string _,
          .string _, .bool _, .bool _⟩
      rw [Value.mapFloats_floatFree hfree] at hread
      show (JsonWriter.crate.serde.fromStr _).bind ofValue = _
      rw [toList_push, hread, Option.bind_some, ofValue_members]
    · simp only [receiptMembers, List.forall_mem_cons, List.not_mem_nil, false_implies,
        implies_true, and_true]
      exact ⟨.number _, .string _, .string _, .string _, hdistinct, .string _, .string _,
        .string _, .bool _, .bool _⟩
    · simp only [receiptMembers, List.forall_mem_cons, List.not_mem_nil, false_implies,
        implies_true, and_true]
      exact ⟨.number (by rw [hversion]; decide), .string _, .string _, .string _, hwithin,
        .string _, .string _, .string _, .bool _, .bool _⟩

def manager : Text := "/opt/kaleidoscope".toList
def oldManager : Text := "/old/kaleidoscope".toList
def profile : Text := "default".toList
def target : PosixPath := (PosixPath.root.join ".claude".toList).join "settings.json".toList

def noFiles : Nodes := ⟨none, none, none⟩

/-- The entries after an install, if it is not refused. -/
def installedNodes (manager : Text) (nodes : Nodes) : Option Nodes :=
  match planInstallAt crates .user manager profile target nodes with
  | .ok plan => some (plan.after crates.receipts nodes)
  | .error _ => none

/-- Settings with the manager's old element and, added by hand, its new one, and the receipt of
the old one. -/
def twoElements : Nodes where
  target := some (.file (crates.json.encode (.object [(hooksKey, .object [(event,
    .array [ownedEntry oldManager profile, ownedEntry manager profile])])])) 0o644)
  receipt := ((installedNodes oldManager noFiles).bind fun nodes => nodes.receipt)
  backup := none

/-- What an install decides, and whether a further one and a removal are accepted after it. -/
def twice (nodes : Nodes) : Option (HookAction × Bool × Bool) :=
  match planInstallAt crates .user manager profile target nodes with
  | .ok plan =>
    let nodes' := plan.after crates.receipts nodes
    some (plan.action, (planInstallAt crates .user manager profile target nodes').isOk,
      (planRemoveAt crates .user target true nodes').isOk)
  | .error _ => none

end Sample

/-! ## Top theorem -/

/-- An install leaves one element, which later installs and removals accept, iff no element but the
receipt's runs its command or is already the desired one, and what it writes can be read again. -/
theorem install_closed_iff {crates : Crates} (hcrates : crates.Lawful) {scope : Scope}
    {manager profile : Text} {target : PosixPath} {nodes : Nodes} {plan : HookPlan HookReceipt}
    (hplan : planInstallAt crates scope manager profile target nodes = .ok plan)
    {original : Snapshot} {document : Value} {receipt : Option HookReceipt}
    (hlooked : Looked crates scope nodes original document receipt) :
    Installed crates scope manager profile target plan.action nodes
        (plan.after crates.receipts nodes)
      ↔ Closed crates scope profile target (ownedEntry manager profile) original document
        receipt := by
  obtain ⟨hplaced, hprofile, original', document', receipt', action, hlooked', haction, hplans⟩ :=
    planInstallAt_eq_ok hplan
  obtain rfl : original' = original :=
    Except.ok.inj (hlooked'.settings.symm.trans hlooked.settings)
  obtain rfl : document' = document :=
    Except.ok.inj (hlooked'.document.symm.trans hlooked.document)
  obtain rfl : receipt' = receipt :=
    Except.ok.inj (hlooked'.receipt.symm.trans hlooked.receipt)
  have hkept : plan.action = action := by
    cases hplans with
    | noop hinstalled hnoop => rw [hnoop, hinstalled]
    | write _ hkept => exact hkept
  rw [hkept]
  cases installAction_eq_ok haction with
  | add howned hidentical hnone =>
    exact installed_add_iff hcrates hplaced hprofile hlooked howned hidentical hnone haction hplans
  | adopt howned hidentical =>
    subst howned
    exact installed_adopt_iff hcrates hplaced hprofile hlooked hidentical haction hplans
  | update howned hsplit hsame hothers hdiffers hindex =>
    exact installed_update_iff hcrates hplaced hprofile hlooked howned hsplit hsame hothers hdiffers
      hindex haction hplans
  | alreadyInstalled howned hsplit hsame hothers hidentical hindex =>
    have hafter : plan.after crates.receipts nodes = nodes := by
      unfold HookPlan.after
      rw [hkept]
      rfl
    rw [hafter]
    exact installed_noop_iff hcrates hplaced hprofile hlooked howned hsplit hsame hothers hidentical
      hindex

section

open Sample

theorem install_closed_iff_new : ∃ plan original document receipt,
    planInstallAt crates .user manager profile target noFiles = .ok plan
      ∧ Looked crates .user noFiles original document receipt
      ∧ (Installed crates .user manager profile target plan.action noFiles
          (plan.after crates.receipts noFiles)
        ↔ Closed crates .user profile target (ownedEntry manager profile) original document
          receipt) := by
  have hlooked : Looked crates .user noFiles (.absent crates.receipts.digestBytes) (.object [])
      none := ⟨rfl, rfl, rfl⟩
  have hok : (planInstallAt crates .user manager profile target noFiles).isOk = true := by
    decide +kernel
  cases hplan : planInstallAt crates .user manager profile target noFiles with
  | error x =>
    rw [hplan] at hok
    cases hok
  | ok plan =>
    exact ⟨plan, _, _, _, rfl, hlooked, install_closed_iff crates_lawful hplan hlooked⟩

/-- The old element is replaced by a second copy of the new one, which a further install and a
removal, even a forced one, refuse. -/
theorem update_wedges : ∃ plan,
    planInstallAt crates .user manager profile target twoElements = .ok plan
      ∧ ¬Installed crates .user manager profile target plan.action twoElements
        (plan.after crates.receipts twoElements) := by
  have hrun : twice twoElements = some (.update, false, false) := by decide +kernel
  unfold twice at hrun
  split at hrun
  next plan hplan =>
    refine ⟨plan, hplan, fun h => ?_⟩
    obtain ⟨again, hagain, -⟩ := h.again
    simp only [hagain, Option.some.injEq, Prod.mk.injEq] at hrun
    cases hrun.2.1
  next => cases hrun

end

end Kaleidoscope.Hooks
