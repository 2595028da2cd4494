import Kaleidoscope.Apply

/-!
# A target and the files beside it

What a planner reads, and what an apply that succeeds leaves for the next one.
-/

namespace Kaleidoscope

open Prog Disk

inductive Scope where
  | user
  | project
  deriving DecidableEq

/-- The entries of the file system at a target, its owner receipt and its backup. -/
structure Nodes where
  target : Option Node
  receipt : Option Node
  backup : Option Node
  deriving DecidableEq

/-- The bytes of a file. -/
def bytesIn : Option Node → Option Bytes
  | some (.file bytes _) => some bytes
  | _ => none

theorem snapshotOf_bytes {digestBytes : Bytes → Text} {maximum : Nat} {name : String}
    {node : Option Node} {snapshot : Snapshot}
    (h : snapshotOf digestBytes maximum name node = .ok snapshot) :
    snapshot.bytes = bytesIn node
      ∧ ∀ bytes, bytesIn node = some bytes → snapshot.sha256 = digestBytes bytes := by
  unfold snapshotOf at h
  split at h
  · cases h
    exact ⟨rfl, nofun⟩
  · cases h
  · split at h
    · cases h
    · cases h
      refine ⟨rfl, fun bytes hbytes => ?_⟩
      cases hbytes
      rfl
  · cases h

section

variable {Action Receipt : Type} {suffix : String} (codec : ReceiptCodec Receipt)
  (plan : Plan Action Receipt suffix)

def Plan.nodes (fs : Fs) : Nodes where
  target := fs.get plan.target
  receipt := fs.get plan.receiptPath.path
  backup := fs.get plan.backupPath.path

/-- The backup as the plan changes it. -/
def backupAfter (node : Option Node) : Option Node :=
  if plan.removeBackup then none
  else if plan.restore.isNone ∧ plan.write.isLeave = false then
    match plan.original.bytes with
    | some bytes => some (.file bytes 0o600)
    | none => node
  else node

/-- The three entries as the plan changes them. -/
def Plan.after (nodes : Nodes) : Nodes where
  target := written plan nodes.target
  receipt := receiptNode (receiptBytes codec plan)
  backup := backupAfter plan nodes.backup

end

def ConnectionPlan.after {Receipt : Type} (codec : ReceiptCodec Receipt)
    (plan : ConnectionPlan Receipt) (nodes : Nodes) : Nodes :=
  if plan.action.isNoop then nodes else Plan.after codec plan nodes

def InstructionPlan.after {Receipt : Type} (codec : ReceiptCodec Receipt)
    (plan : InstructionPlan Receipt) (nodes : Nodes) : Nodes :=
  if plan.action.isNoop then nodes else Plan.after codec plan nodes

def HookPlan.after {Receipt : Type} (codec : ReceiptCodec Receipt) (plan : HookPlan Receipt)
    (nodes : Nodes) : Nodes :=
  if plan.action.isNoop then nodes else Plan.after codec plan nodes

end Kaleidoscope
