import Umcm.Boom.Catalog

/-!
# `rob_core`

The reorder buffer: allocation, write-back, commit, precise exceptions and
squashes of memory operations, with five flags for each entry.
-/

namespace Umcm

namespace Boom

open EvaluationContext

namespace Rob

/-- An operation of `memory_ops`. -/
structure Op where
  opId : Value
  hart : Value
  programIndex : Value
  robIdx : Value
  memKind : Value
  address : Value
  writeValue : Value
  byteMask : Value

/-- A branch of `branch_events`. -/
structure Branch where
  branchOpId : Value

/-! ## Cells -/

def entry (op : Op) (field : String) : String := cellOf "ROB.entry" op.opId.pyStr field

def entryFields : List String := ["allocated", "completed", "faulted", "squashed", "committed"]

def cells (op : Op) : List StateVariable.Fields :=
  entryFields.map (fun field => ⟨entry op field, .bool, .bool false⟩)

/-! ## The module file -/

/-- `rob::${op.op_id}::name`. -/
def robSymbol (op : Op) (name : String) (sort : IrSort) : Expr :=
  .symbol ("rob::" ++ op.opId.pyStr ++ "::" ++ name) sort

def squashFields (op : Op) (reason : String) : List (String × Term) :=
  [("op_id", .value op.opId), ("hart", .value op.hart),
    ("program_index", .value op.programIndex), ("reason", .value (.str reason))]

def slots (op : Op) (index : Nat) : List EventSlot.Fields :=
  [{ id := indexed "rob_allocate" index, eventType := "ROB.Allocate", required := false
     fields := [("op_id", .value op.opId), ("hart", .value op.hart),
       ("program_index", .value op.programIndex), ("rob_idx", .value op.robIdx)] },
   { id := indexed "rob_writeback" index, eventType := "ROB.Writeback", required := false
     fields := [("op_id", .value op.opId), ("rob_idx", .value op.robIdx)] },
   { id := indexed "rob_exception_record" index, eventType := "ROB.ExceptionRecord"
     required := false
     fields := [("op_id", .value op.opId), ("rob_idx", .value op.robIdx),
       ("cause", .value (.str "page_fault"))] },
   { id := indexed "rob_commit" index, eventType := "ROB.Commit", required := false
     fields := [("op_id", .value op.opId), ("hart", .value op.hart),
       ("program_index", .value op.programIndex), ("rob_idx", .value op.robIdx),
       ("mem_kind", .value op.memKind), ("address", .value op.address),
       ("value", .expr (robSymbol op "value" valueSort)), ("write_value", .value op.writeValue),
       ("byte_mask", .value op.byteMask), ("success", .expr (robSymbol op "success" .bool))] },
   { id := indexed "rob_precise_exception" index, eventType := "ROB.PreciseException"
     required := false
     fields := [("op_id", .value op.opId), ("hart", .value op.hart),
       ("program_index", .value op.programIndex), ("cause", .value (.str "page_fault"))] },
   { id := indexed "rob_exception_squash" index, eventType := "Core.SquashMemory"
     required := false, fields := squashFields op "precise_memory_exception" },
   { id := indexed "rob_branch_squash" index, eventType := "Core.SquashMemory"
     required := false, fields := squashFields op "branch_mispredict" },
   { id := indexed "rob_branch_kill" index, eventType := "Core.BranchKill", required := false
     fields := [("op_id", .value op.opId)] }]

/-- The role is of the operation. -/
def ofOp (op : Op) (role : String) : Expr := fieldIs role "op_id" opIdSort op.opId

def robAllocatesMemoryOp (op : Op) (index : Nat) : ModuleRule.Fields where
  name := indexed "rob_allocates_memory_op" index
  inputs := [("instruction", "Core.MemoryInstruction")]
  outputs := [("allocate", "ROB.Allocate")]
  when := ofOp op "instruction"
  outputWhen := ofOp op "allocate"
  ensure := [before "instruction" "allocate"]
  stateRequirements := [⟨entry op "allocated", "allocate", .eq, isFalse⟩]
  stateUpdates := [⟨entry op "allocated", "allocate", isTrue⟩]
  isExact := true
  tags := ["rob", "allocate"]

def robCapturesCompletion (op : Op) (index : Nat) : ModuleRule.Fields where
  name := indexed "rob_captures_completion" index
  inputs := [("complete", "Core.MemoryComplete")]
  outputs := [("writeback", "ROB.Writeback")]
  when := ofOp op "complete"
  outputWhen := ofOp op "writeback"
  ensure := [before "complete" "writeback"]
  stateRequirements := [⟨entry op "allocated", "writeback", .eq, isTrue⟩,
    ⟨entry op "squashed", "writeback", .eq, isFalse⟩]
  stateUpdates := [⟨entry op "completed", "writeback", isTrue⟩]
  isExact := true
  tags := ["rob", "writeback"]

def robCommitsCompletedOp (op : Op) (index : Nat) : ModuleRule.Fields where
  name := indexed "rob_commits_completed_op" index
  inputs := [("complete", "Core.MemoryComplete"), ("writeback", "ROB.Writeback")]
  outputs := [("commit", "ROB.Commit")]
  when := allOf [ofOp op "complete", ofOp op "writeback"]
  outputWhen := ofOp op "commit"
  ensure := [before "writeback" "commit", sameField "complete" "commit" "success" .bool,
    sameField "complete" "commit" "value" valueSort]
  stateRequirements := [⟨entry op "allocated", "commit", .eq, isTrue⟩,
    ⟨entry op "completed", "commit", .eq, isTrue⟩, ⟨entry op "faulted", "commit", .eq, isFalse⟩,
    ⟨entry op "squashed", "commit", .eq, isFalse⟩]
  stateUpdates := [⟨entry op "committed", "commit", isTrue⟩]
  isExact := true
  tags := ["rob", "commit"]

def robRecordsMemoryFault (op : Op) (index : Nat) : ModuleRule.Fields where
  name := indexed "rob_records_memory_fault" index
  inputs := [("fault", "Core.MemoryFault")]
  outputs := [("record", "ROB.ExceptionRecord")]
  when := ofOp op "fault"
  outputWhen := ofOp op "record"
  ensure := [before "fault" "record"]
  stateRequirements := [⟨entry op "allocated", "record", .eq, isTrue⟩]
  stateUpdates := [⟨entry op "faulted", "record", isTrue⟩]
  isExact := true
  tags := ["rob", "exception"]

def robRaisesPreciseException (op : Op) (index : Nat) : ModuleRule.Fields where
  name := indexed "rob_raises_precise_exception" index
  inputs := [("record", "ROB.ExceptionRecord")]
  outputs := [("precise", "ROB.PreciseException")]
  when := ofOp op "record"
  outputWhen := ofOp op "precise"
  ensure := [before "record" "precise"]
  stateRequirements := [⟨entry op "faulted", "precise", .eq, isTrue⟩,
    ⟨entry op "squashed", "precise", .eq, isFalse⟩]
  isExact := true
  tags := ["rob", "precise-exception"]

def squashMarksEntry (op : Op) (index : Nat) : ModuleRule.Fields where
  name := indexed "squash_marks_entry" index
  inputs := [("squash", "Core.SquashMemory")]
  when := ofOp op "squash"
  stateUpdates := [⟨entry op "squashed", "squash", isTrue⟩]
  tags := ["rob", "squash"]

def rules (op : Op) (index : Nat) : List ModuleRule.Fields :=
  [robAllocatesMemoryOp op index, robCapturesCompletion op index, robCommitsCompletedOp op index,
    robRecordsMemoryFault op index, robRaisesPreciseException op index, squashMarksEntry op index]

/-- The role is of the target, and the other operation is older on the same hart. -/
def ofYounger (older target : Op) (role : String) : Expr :=
  allOf [ofOp target role, fieldIs role "hart" .int older.hart,
    .binary .lt (.literal older.programIndex .int) (.eventField role "program_index" .int)]

def commitWaitsForOlder (older target : Op) (index : Nat) : ModuleRule.Fields where
  name := indexed "commit_waits_for_older" index
  inputs := [("commit", "ROB.Commit")]
  when := ofYounger older target "commit"
  stateRequirements := [⟨entry older "committed", "commit", .eq, isTrue⟩]
  tags := ["rob", "in-order-commit"]

def preciseExceptionWaitsForOlder (older target : Op) (index : Nat) : ModuleRule.Fields where
  name := indexed "precise_exception_waits_for_older" index
  inputs := [("precise", "ROB.PreciseException")]
  when := ofYounger older target "precise"
  stateRequirements := [⟨entry older "committed", "precise", .eq, isTrue⟩]
  tags := ["rob", "precise-exception"]

/-- The squash of the operation has the reason. -/
def squashOf (op : Op) (reason : String) : Expr :=
  allOf [ofOp op "squash", fieldIs "squash" "reason" stringSort (.str reason)]

def preciseExceptionSquashesYounger (older target : Op) (index : Nat) : ModuleRule.Fields where
  name := indexed "precise_exception_squashes_younger" index
  inputs := [("precise", "ROB.PreciseException")]
  outputs := [("squash", "Core.SquashMemory")]
  when := allOf [ofOp older "precise", fieldIs "precise" "hart" .int target.hart,
    .binary .le (.eventField "precise" "program_index" .int) (.literal target.programIndex .int)]
  outputWhen := squashOf target "precise_memory_exception"
  ensure := [before "precise" "squash"]
  tags := ["rob", "precise-exception", "squash", "oldest-fault-forward"]

def orderRules (older target : Op) (index : Nat) : List ModuleRule.Fields :=
  [commitWaitsForOlder older target index, preciseExceptionWaitsForOlder older target index,
    preciseExceptionSquashesYounger older target index]

/-- The branch is older than the victim on its hart. -/
def branchBefore (branch : Branch) (victim : Op) : Expr :=
  allOf [fieldIs "branch" "branch_op_id" opIdSort branch.branchOpId,
    fieldIs "branch" "hart" .int victim.hart,
    .binary .lt (.eventField "branch" "program_index" .int) (.literal victim.programIndex .int)]

def branchRecoverySquashesYounger (branch : Branch) (victim : Op) (index : Nat) :
    ModuleRule.Fields where
  name := indexed "branch_recovery_squashes_younger" index
  inputs := [("branch", "Core.BranchMispredict")]
  outputs := [("squash", "Core.SquashMemory")]
  when := branchBefore branch victim
  outputWhen := squashOf victim "branch_mispredict"
  ensure := [before "branch" "squash"]
  isExact := true
  tags := ["rob", "branch-recovery", "squash"]

def branchRecoveryBroadcastsKill (branch : Branch) (victim : Op) (index : Nat) :
    ModuleRule.Fields where
  name := indexed "branch_recovery_broadcasts_kill" index
  inputs := [("branch", "Core.BranchMispredict")]
  outputs := [("kill", "Core.BranchKill")]
  when := branchBefore branch victim
  outputWhen := ofOp victim "kill"
  ensure := [before "branch" "kill"]
  isExact := true

def branchRules (branch : Branch) (victim : Op) (index : Nat) : List ModuleRule.Fields :=
  [branchRecoverySquashesYounger branch victim index,
    branchRecoveryBroadcastsKill branch victim index]

end Rob

/-- `rob.yaml`, for the operations and the branches of a trace. -/
def robCore (ops : List Rob.Op) (branches : List Rob.Branch) : ModuleFields where
  name := "rob_core"
  ports :=
    [{ name := "memory_instruction", direction := .input, eventType := "Core.MemoryInstruction"
       requiredConnection := false },
     { name := "memory_complete", direction := .input, eventType := "Core.MemoryComplete"
       requiredConnection := false },
     { name := "memory_fault", direction := .input, eventType := "Core.MemoryFault"
       requiredConnection := false },
     { name := "branch_mispredict", direction := .input, eventType := "Core.BranchMispredict"
       requiredConnection := false },
     { name := "commit", direction := .output, eventType := "ROB.Commit" },
     { name := "precise_exception", direction := .output, eventType := "ROB.PreciseException" },
     { name := "squash_memory", direction := .output, eventType := "Core.SquashMemory" },
     { name := "branch_kill", direction := .output, eventType := "Core.BranchKill" }]
  internalEvents := ["ROB.Allocate", "ROB.Writeback", "ROB.ExceptionRecord"]
  slots := repeatOver ops Rob.slots
  stateVariables := repeatOver ops (fun op _ => Rob.cells op)
  rules := repeatOver ops Rob.rules ++ repeatProduct ops ops Rob.orderRules ++
    repeatProduct branches ops Rob.branchRules

end Boom

end Umcm
