import Umcm.Xiangshan.Catalog

/-!
# `core_lifecycle`

The reorder buffer of the core: dispatch, issue, write-back, commit, precise
exceptions and redirects of memory operations, with six flags for each entry.
-/

namespace Umcm

namespace Xiangshan

open Boom

namespace Core

/-- An operation of `memory_ops`. -/
structure Op where
  opId : Value
  hart : Value
  programIndex : Value
  robIdx : Value
  memKind : Value
  vaddr : Value
  address : Value
  value : Value
  writeValue : Value
  size : Value
  byteMask : Value
  vector : Value

/-! ## Cells -/

def entry (op : Op) (field : String) : String := cellOf "Core.ROB" op.opId.pyStr field

def entryFields : List String :=
  ["allocated", "issued", "completed", "faulted", "squashed", "committed"]

def cells (op : Op) : List StateVariable.Fields :=
  entryFields.map (fun field => ⟨entry op field, .bool, .bool false⟩)

/-! ## Slots -/

/-- `core::${op.op_id}::fault_cause` -/
def faultCause (op : Op) : Expr := .symbol ("core::" ++ op.opId.pyStr ++ "::fault_cause") stringSort

def slots (op : Op) (index : Nat) : List EventSlot.Fields :=
  [{ id := indexed "dispatch_allocate" index, eventType := "Core.DispatchAllocate"
     required := false
     fields := [("op_id", .value op.opId), ("hart", .value op.hart),
       ("program_index", .value op.programIndex), ("rob_idx", .value op.robIdx),
       ("mem_kind", .value op.memKind)] },
   { id := indexed "memory_issue" index, eventType := "Core.MemoryIssue", required := false
     fields := [("op_id", .value op.opId), ("hart", .value op.hart),
       ("program_index", .value op.programIndex), ("rob_idx", .value op.robIdx),
       ("mem_kind", .value op.memKind), ("vaddr", .value op.vaddr), ("address", .value op.address),
       ("value", .value op.value), ("write_value", .value op.writeValue), ("size", .value op.size),
       ("byte_mask", .value op.byteMask), ("vector", .value op.vector)] },
   { id := indexed "rob_writeback" index, eventType := "Core.ROBWriteback", required := false
     fields := [("op_id", .value op.opId), ("hart", .value op.hart), ("rob_idx", .value op.robIdx),
       ("mem_kind", .value op.memKind), ("success", .value (.bool true))] },
   { id := indexed "rob_commit_select" index, eventType := "Core.ROBCommitSelect"
     required := false
     fields := [("op_id", .value op.opId), ("hart", .value op.hart),
       ("program_index", .value op.programIndex), ("rob_idx", .value op.robIdx),
       ("mem_kind", .value op.memKind)] },
   { id := indexed "memory_commit" index, eventType := "Core.MemoryCommit", required := false
     fields := [("op_id", .value op.opId), ("hart", .value op.hart), ("rob_idx", .value op.robIdx),
       ("mem_kind", .value op.memKind)] },
   { id := indexed "exception_record" index, eventType := "Core.ExceptionRecord"
     required := false
     fields := [("op_id", .value op.opId), ("hart", .value op.hart),
       ("program_index", .value op.programIndex), ("rob_idx", .value op.robIdx),
       ("cause", .expr (faultCause op))] },
   { id := indexed "exception_redirect" index, eventType := "Core.Redirect", required := false
     fields := [("source_op_id", .value op.opId), ("target_op_id", .value op.opId),
       ("hart", .value op.hart), ("program_index", .value op.programIndex),
       ("rob_idx", .value op.robIdx), ("cause", .expr (faultCause op)),
       ("origin", .value (.str "exception")), ("flush_self", .value (.bool true))] }]

/-- `redirect_apply` -/
def applySlots (source victim : Op) (index : Nat) : List EventSlot.Fields :=
  [{ id := indexed "redirect_apply" index, eventType := "Core.RedirectApply", required := false
     fields := [("op_id", .value victim.opId), ("source_op_id", .value source.opId),
       ("hart", .value victim.hart), ("program_index", .value victim.programIndex),
       ("rob_idx", .value victim.robIdx), ("cause", .expr (faultCause source))] }]

/-! ## Rules of an operation -/

/-- The role is of the operation. -/
def ofOp (op : Op) (role : String) : Expr := fieldIs role "op_id" opIdSort op.opId

def isOn (op : Op) (field role : String) : StateRequirement.Fields :=
  ⟨entry op field, role, .eq, isTrue⟩

def isOff (op : Op) (field role : String) : StateRequirement.Fields :=
  ⟨entry op field, role, .eq, isFalse⟩

def turnsOn (op : Op) (field role : String) : StateUpdate.Fields := ⟨entry op field, role, isTrue⟩

def dispatchAllocates (op : Op) (index : Nat) : ModuleRule.Fields where
  name := indexed "dispatch_allocates" index
  inputs := [("instruction", "Core.MemoryInstruction")]
  outputs := [("allocate", "Core.DispatchAllocate")]
  when := ofOp op "instruction"
  outputWhen := ofOp op "allocate"
  ensure := [before "instruction" "allocate"]
  stateRequirements := [isOff op "allocated" "allocate"]
  stateUpdates := [turnsOn op "allocated" "allocate"]
  isExact := true
  tags := ["dispatch", "rob", "allocate"]

def allocatedOpIssues (op : Op) (index : Nat) : ModuleRule.Fields where
  name := indexed "allocated_op_issues" index
  inputs := [("allocate", "Core.DispatchAllocate")]
  outputs := [("issue", "Core.MemoryIssue")]
  when := ofOp op "allocate"
  outputWhen := ofOp op "issue"
  ensure := [before "allocate" "issue"]
  stateRequirements := [isOn op "allocated" "issue", isOff op "squashed" "issue"]
  stateUpdates := [turnsOn op "issued" "issue"]
  isExact := true
  tags := ["dispatch", "issue"]

def robCapturesSuccessfulWriteback (op : Op) (index : Nat) : ModuleRule.Fields where
  name := indexed "rob_captures_successful_writeback" index
  inputs := [("issue", "Core.MemoryIssue"), ("complete", "Core.MemoryWriteback")]
  outputs := [("writeback", "Core.ROBWriteback")]
  when := allOf [ofOp op "issue", ofOp op "complete", flag "complete" "success"]
  outputWhen := ofOp op "writeback"
  ensure := [before "issue" "complete", before "complete" "writeback"]
  stateRequirements := [isOn op "allocated" "writeback", isOn op "issued" "writeback",
    isOff op "faulted" "writeback", isOff op "squashed" "writeback"]
  stateUpdates := [turnsOn op "completed" "writeback"]
  isExact := true
  tags := ["rob", "writeback"]

/-- An operation may commit. -/
def committable (op : Op) (role : String) : List StateRequirement.Fields :=
  [isOn op "completed" role, isOff op "faulted" role, isOff op "squashed" role,
    isOff op "committed" role]

def robSelectsCompletedOp (op : Op) (index : Nat) : ModuleRule.Fields where
  name := indexed "rob_selects_completed_op" index
  inputs := [("writeback", "Core.ROBWriteback")]
  outputs := [("select", "Core.ROBCommitSelect")]
  when := ofOp op "writeback"
  outputWhen := ofOp op "select"
  ensure := [before "writeback" "select"]
  stateRequirements := committable op "select"
  isExact := true
  tags := ["rob", "commit-select"]

def robCommitsSelectedOp (op : Op) (index : Nat) : ModuleRule.Fields where
  name := indexed "rob_commits_selected_op" index
  inputs := [("select", "Core.ROBCommitSelect")]
  outputs := [("commit", "Core.MemoryCommit")]
  when := ofOp op "select"
  outputWhen := ofOp op "commit"
  ensure := [before "select" "commit"]
  stateRequirements := committable op "commit"
  stateUpdates := [turnsOn op "committed" "commit"]
  isExact := true
  tags := ["rob", "commit"]

def exceptionGenRecordsFault (op : Op) (index : Nat) : ModuleRule.Fields where
  name := indexed "exception_gen_records_fault" index
  inputs := [("issue", "Core.MemoryIssue"), ("fault", "Core.MemoryFault")]
  outputs := [("record", "Core.ExceptionRecord")]
  when := allOf [ofOp op "issue", ofOp op "fault"]
  outputWhen := ofOp op "record"
  ensure := [before "issue" "fault", before "fault" "record",
    sameField "fault" "record" "cause" stringSort]
  stateRequirements := [isOn op "allocated" "record", isOn op "issued" "record",
    isOff op "squashed" "record", isOff op "committed" "record"]
  stateUpdates := [turnsOn op "faulted" "record"]
  isExact := true
  tags := ["exception-gen", "exception-record"]

/-- The redirect has the source and comes from an exception. -/
def exceptionOf (op : Op) (role : String) : Expr :=
  allOf [fieldIs role "source_op_id" opIdSort op.opId,
    fieldIs role "origin" stringSort (.str "exception")]

def robRaisesPreciseRedirect (op : Op) (index : Nat) : ModuleRule.Fields where
  name := indexed "rob_raises_precise_redirect" index
  inputs := [("record", "Core.ExceptionRecord")]
  outputs := [("redirect", "Core.Redirect")]
  when := ofOp op "record"
  outputWhen := exceptionOf op "redirect"
  ensure := [before "record" "redirect", sameField "record" "redirect" "cause" stringSort]
  stateRequirements := [isOn op "faulted" "redirect", isOff op "squashed" "redirect",
    isOff op "committed" "redirect"]
  isExact := true
  tags := ["rob", "precise-exception", "redirect"]

def rules (op : Op) (index : Nat) : List ModuleRule.Fields :=
  [dispatchAllocates op index, allocatedOpIssues op index,
    robCapturesSuccessfulWriteback op index, robSelectsCompletedOp op index,
    robCommitsSelectedOp op index, exceptionGenRecordsFault op index,
    robRaisesPreciseRedirect op index]

/-! ## Rules of two operations -/

/-- The program index of the first operation is smaller. -/
def olderIndex (older target : Op) : Expr :=
  .binary .lt (.literal older.programIndex .int) (.literal target.programIndex .int)

def commitWaitsForOlder (older target : Op) (index : Nat) : ModuleRule.Fields where
  name := indexed "commit_waits_for_older" index
  inputs := [("commit", "Core.MemoryCommit")]
  outputs := []
  when := allOf [ofOp target "commit", fieldIs "commit" "hart" .int older.hart,
    olderIndex older target]
  stateRequirements := [isOn older "committed" "commit"]
  tags := ["rob", "in-order-commit"]

def preciseRedirectWaitsForOlder (older target : Op) (index : Nat) : ModuleRule.Fields where
  name := indexed "precise_redirect_waits_for_older" index
  inputs := [("redirect", "Core.Redirect")]
  outputs := []
  when := allOf [fieldIs "redirect" "source_op_id" opIdSort target.opId,
    fieldIs "redirect" "origin" stringSort (.str "exception"),
    fieldIs "redirect" "hart" .int older.hart, olderIndex older target]
  stateRequirements := [isOn older "committed" "redirect"]
  tags := ["exception-gen", "oldest", "precise-exception"]

def orderRules (older target : Op) (index : Nat) : List ModuleRule.Fields :=
  [commitWaitsForOlder older target index, preciseRedirectWaitsForOlder older target index]

/-- The victim is younger than the source, or of its age when the redirect flushes itself. -/
def reaches (source victim : Op) : Expr :=
  .nary .or [olderIndex source victim,
    allOf [literalsEqual .int source.programIndex victim.programIndex,
      flag "redirect" "flush_self"]]

/-- The redirect has the source, and the role is of the victim, on the same hart. -/
def redirects (source victim : Op) (role : String) : List Expr :=
  [fieldIs "redirect" "source_op_id" opIdSort source.opId, ofOp victim role,
    sameField "redirect" role "hart" .int, reaches source victim]

def redirectSquashesSelfAndYounger (source victim : Op) (index : Nat) : ModuleRule.Fields where
  name := indexed "redirect_squashes_self_and_younger" index
  inputs := [("redirect", "Core.Redirect"), ("instruction", "Core.MemoryInstruction")]
  outputs := [("apply", "Core.RedirectApply")]
  when := allOf (redirects source victim "instruction")
  outputWhen := allOf [ofOp victim "apply", fieldIs "apply" "source_op_id" opIdSort source.opId]
  ensure := [before "redirect" "apply", sameField "redirect" "apply" "cause" stringSort]
  stateRequirements := [isOn victim "allocated" "apply", isOff victim "committed" "apply"]
  stateUpdates := [turnsOn victim "squashed" "apply"]
  isExact := true
  tags := ["rob", "redirect", "squash"]

/-- An event of the victim after the redirect finds it squashed. -/
def redirectedOpCannot (name role eventType : String) (tags : List String) (source victim : Op)
    (index : Nat) : ModuleRule.Fields where
  name := indexed name index
  inputs := [("redirect", "Core.Redirect"), (role, eventType)]
  outputs := []
  when := allOf (redirects source victim role ++ [before "redirect" role])
  stateRequirements := [isOn victim "squashed" role]
  tags := tags

def redirectedOpCannotWriteBackLate : Op → Op → Nat → ModuleRule.Fields :=
  redirectedOpCannot "redirected_op_cannot_write_back_late" "complete" "Core.MemoryWriteback"
    ["rob", "redirect", "no-ghost-writeback"]

def redirectedOpCannotCommitLate : Op → Op → Nat → ModuleRule.Fields :=
  redirectedOpCannot "redirected_op_cannot_commit_late" "commit" "Core.MemoryCommit"
    ["rob", "redirect", "no-ghost-commit"]

def redirectRules (source victim : Op) (index : Nat) : List ModuleRule.Fields :=
  [redirectSquashesSelfAndYounger source victim index,
    redirectedOpCannotWriteBackLate source victim index,
    redirectedOpCannotCommitLate source victim index]

end Core

/-- `lifecycle.yaml`, for the operations of a trace. -/
def coreLifecycle (ops : List Core.Op) : ModuleFields where
  name := "core_lifecycle"
  ports :=
    [{ name := "memory_instruction", direction := .input, eventType := "Core.MemoryInstruction"
       requiredConnection := false },
     { name := "memory_issue", direction := .output, eventType := "Core.MemoryIssue" },
     { name := "memory_writeback", direction := .input, eventType := "Core.MemoryWriteback"
       requiredConnection := false },
     { name := "memory_fault", direction := .input, eventType := "Core.MemoryFault"
       requiredConnection := false },
     { name := "memory_commit", direction := .output, eventType := "Core.MemoryCommit" },
     { name := "redirect", direction := .output, eventType := "Core.Redirect" },
     { name := "memory_order_redirect", direction := .input, eventType := "Core.Redirect"
       requiredConnection := false }]
  internalEvents := ["Core.DispatchAllocate", "Core.ROBWriteback", "Core.ExceptionRecord",
    "Core.ROBCommitSelect", "Core.RedirectApply"]
  slots := repeatOver ops Core.slots ++ repeatProduct ops ops Core.applySlots
  stateVariables := repeatOver ops (fun op _ => Core.cells op)
  rules := repeatOver ops Core.rules ++ repeatProduct ops ops Core.orderRules ++
    repeatProduct ops ops Core.redirectRules

end Xiangshan

end Umcm
