import Umcm.Boom.Catalog

/-!
# `atomic_core`

Atomic read-modify-writes and load-reserved/store-conditional pairs: the module
file, with one copy of the reservation and lock cells for each line and one copy
of the rules for each pair of an operation and a line.
-/

namespace Umcm

namespace Boom

open EvaluationContext

namespace Atomic

/-- An operation of `atomic_ops`. -/
structure Op where
  opId : Value
  hart : Value
  programIndex : Value
  robIdx : Value
  memKind : Value
  address : Value
  value : Value
  writeValue : Value
  byteMask : Value
  reservationId : Value

/-- A line of `reservation_lines`. -/
structure Line where
  reservationId : Value

/-! ## Cells -/

def valid (line : Line) : String := cellOf "Atomic.reservation" line.reservationId.pyStr "valid"

def busy (line : Line) : String := cellOf "Atomic.line" line.reservationId.pyStr "busy"

/-! ## The module file -/

def cells (line : Line) : List StateVariable.Fields :=
  [⟨valid line, .bool, .bool false⟩, ⟨busy line, .bool, .bool false⟩]

def completionFields (op : Op) (success : Bool) : List (String × Term) :=
  [("op_id", .value op.opId), ("hart", .value op.hart),
    ("program_index", .value op.programIndex), ("rob_idx", .value op.robIdx),
    ("mem_kind", .value op.memKind), ("address", .value op.address), ("value", .value op.value),
    ("write_value", .value op.writeValue), ("byte_mask", .value op.byteMask),
    ("success", .value (.bool success)), ("reservation_id", .value op.reservationId)]

/-- `atomic::${op.op_id}::sc_success`. -/
def scSuccess (op : Op) : Expr := .symbol ("atomic::" ++ op.opId.pyStr ++ "::sc_success") .bool

def slots (op : Op) (index : Nat) : List EventSlot.Fields :=
  let accessed := [("op_id", Term.value op.opId), ("reservation_id", .value op.reservationId)]
  [{ id := indexed "atomic_amo_read" index, eventType := "Atomic.AMORead", required := false
     fields := accessed ++ [("value", .value op.value)] },
   { id := indexed "atomic_amo_write" index, eventType := "Atomic.AMOWrite", required := false
     fields := accessed ++ [("value", .value op.writeValue)] },
   { id := indexed "atomic_lr_read" index, eventType := "Atomic.LRRead", required := false
     fields := accessed ++ [("value", .value op.value)] },
   { id := indexed "reservation_set" index, eventType := "Atomic.ReservationSet", required := false
     fields := accessed },
   { id := indexed "atomic_sc_decision" index, eventType := "Atomic.SCDecision", required := false
     fields := accessed ++ [("success", .expr (scSuccess op))] },
   { id := indexed "atomic_sc_write" index, eventType := "Atomic.SCWrite", required := false
     fields := accessed ++ [("value", .value op.writeValue)] },
   { id := indexed "atomic_complete_amo" index, eventType := "Core.MemoryComplete"
     required := false, fields := completionFields op true },
   { id := indexed "atomic_complete_lr" index, eventType := "Core.MemoryComplete"
     required := false, fields := completionFields op true },
   { id := indexed "atomic_complete_sc_success" index, eventType := "Core.MemoryComplete"
     required := false, fields := completionFields op true },
   { id := indexed "atomic_complete_sc_fail" index, eventType := "Core.MemoryComplete"
     required := false, fields := completionFields op false }]

def probeInvalidatesReservation (line : Line) (index : Nat) : ModuleRule.Fields where
  name := indexed "probe_invalidates_reservation" index
  inputs := [("invalidate", "Core.ReservationInvalidate")]
  when := fieldIs "invalidate" "reservation_id" stringSort line.reservationId
  stateUpdates := [⟨valid line, "invalidate", isFalse⟩]
  tags := ["lr-sc", "probe-invalidation"]

/-- The role has the operation and the line. -/
def onLine (op : Op) (line : Line) (role : String) : List Expr :=
  [fieldIs role "op_id" opIdSort op.opId,
    fieldIs role "reservation_id" stringSort line.reservationId]

/-- The translation is of the operation, its kind and the line. -/
def translatedFor (op : Op) (line : Line) (memKind : String) : Expr :=
  allOf [fieldIs "translated" "mem_kind" stringSort (.str memKind),
    fieldIs "translated" "reservation_id" stringSort line.reservationId,
    fieldIs "translated" "op_id" opIdSort op.opId]

/-- The completion is of the operation, its kind and the line. -/
def completes (op : Op) (line : Line) (memKind : String) (success : Expr) : Expr :=
  allOf [fieldIs "complete" "mem_kind" stringSort (.str memKind), success,
    fieldIs "complete" "op_id" opIdSort op.opId,
    fieldIs "complete" "reservation_id" stringSort line.reservationId]

/-- The output is a later event of the same operation. -/
def follows (role role' : String) : List Expr :=
  [sameField role role' "op_id" opIdSort, before role role']

def amoStartsRead (op : Op) (line : Line) (index : Nat) : ModuleRule.Fields where
  name := indexed "amo_starts_read" index
  inputs := [("translated", "Core.TranslatedMemory")]
  outputs := [("read", "Atomic.AMORead")]
  when := translatedFor op line "amo"
  outputWhen := allOf (onLine op line "read")
  ensure := follows "translated" "read"
  stateRequirements := [⟨busy line, "read", .eq, isFalse⟩]
  stateUpdates := [⟨busy line, "read", isTrue⟩]
  isExact := true
  tags := ["amo", "atomicity"]

def amoReadPrecedesWrite (op : Op) (line : Line) (index : Nat) : ModuleRule.Fields where
  name := indexed "amo_read_precedes_write" index
  inputs := [("read", "Atomic.AMORead")]
  outputs := [("write", "Atomic.AMOWrite")]
  when := fieldIs "read" "op_id" opIdSort op.opId
  outputWhen := allOf (onLine op line "write")
  ensure := follows "read" "write"
  stateRequirements := [⟨busy line, "write", .eq, isTrue⟩]
  stateUpdates := [⟨busy line, "write", isFalse⟩]
  isExact := true

def amoWriteCompletes (op : Op) (line : Line) (index : Nat) : ModuleRule.Fields where
  name := indexed "amo_write_completes" index
  inputs := [("write", "Atomic.AMOWrite")]
  outputs := [("complete", "Core.MemoryComplete")]
  when := fieldIs "write" "op_id" opIdSort op.opId
  outputWhen := completes op line "amo" (flag "complete" "success")
  ensure := follows "write" "complete"
  isExact := true

def lrReadsLine (op : Op) (line : Line) (index : Nat) : ModuleRule.Fields where
  name := indexed "lr_reads_line" index
  inputs := [("translated", "Core.TranslatedMemory")]
  outputs := [("read", "Atomic.LRRead")]
  when := translatedFor op line "lr"
  outputWhen := allOf (onLine op line "read")
  ensure := follows "translated" "read"
  isExact := true

def lrSetsReservation (op : Op) (line : Line) (index : Nat) : ModuleRule.Fields where
  name := indexed "lr_sets_reservation" index
  inputs := [("read", "Atomic.LRRead")]
  outputs := [("set", "Atomic.ReservationSet")]
  when := fieldIs "read" "op_id" opIdSort op.opId
  outputWhen := allOf (onLine op line "set")
  ensure := follows "read" "set"
  stateUpdates := [⟨valid line, "set", isTrue⟩]
  isExact := true

def lrCompletion (op : Op) (line : Line) (index : Nat) : ModuleRule.Fields where
  name := indexed "lr_completion" index
  inputs := [("set", "Atomic.ReservationSet")]
  outputs := [("complete", "Core.MemoryComplete")]
  when := fieldIs "set" "op_id" opIdSort op.opId
  outputWhen := completes op line "lr" (flag "complete" "success")
  ensure := follows "set" "complete"
  isExact := true

def scChecksReservation (op : Op) (line : Line) (index : Nat) : ModuleRule.Fields where
  name := indexed "sc_checks_reservation" index
  inputs := [("translated", "Core.TranslatedMemory")]
  outputs := [("decision", "Atomic.SCDecision")]
  when := translatedFor op line "sc"
  outputWhen := allOf (onLine op line "decision")
  ensure := follows "translated" "decision"
  stateRequirements := [⟨valid line, "decision", .eq, flag "decision" "success"⟩]
  stateUpdates := [⟨valid line, "decision", isFalse⟩]
  isExact := true
  tags := ["lr-sc", "state-derived-outcome"]

def successfulScWrites (op : Op) (line : Line) (index : Nat) : ModuleRule.Fields where
  name := indexed "successful_sc_writes" index
  inputs := [("decision", "Atomic.SCDecision")]
  outputs := [("write", "Atomic.SCWrite")]
  when := allOf [flag "decision" "success", fieldIs "decision" "op_id" opIdSort op.opId]
  outputWhen := allOf (onLine op line "write")
  ensure := follows "decision" "write"
  isExact := true

def successfulScCompletes (op : Op) (line : Line) (index : Nat) : ModuleRule.Fields where
  name := indexed "successful_sc_completes" index
  inputs := [("write", "Atomic.SCWrite")]
  outputs := [("complete", "Core.MemoryComplete")]
  when := fieldIs "write" "op_id" opIdSort op.opId
  outputWhen := completes op line "sc" (flag "complete" "success")
  ensure := follows "write" "complete"
  isExact := true

def failedScCompletesWithoutWrite (op : Op) (line : Line) (index : Nat) : ModuleRule.Fields where
  name := indexed "failed_sc_completes_without_write" index
  inputs := [("decision", "Atomic.SCDecision")]
  outputs := [("complete", "Core.MemoryComplete")]
  when := allOf [isNot (flag "decision" "success"), fieldIs "decision" "op_id" opIdSort op.opId]
  outputWhen := completes op line "sc" (isNot (flag "complete" "success"))
  ensure := follows "decision" "complete"
  isExact := true

def rules (op : Op) (line : Line) (index : Nat) : List ModuleRule.Fields :=
  [amoStartsRead op line index, amoReadPrecedesWrite op line index,
    amoWriteCompletes op line index, lrReadsLine op line index, lrSetsReservation op line index,
    lrCompletion op line index, scChecksReservation op line index,
    successfulScWrites op line index, successfulScCompletes op line index,
    failedScCompletesWithoutWrite op line index]

section Scopes

variable {context : EvaluationContext} {b : RoleBinding} {op : Op} {line : Line} {role : String}

theorem holds_onLine : context.Holds (b.instantiate (allOf (onLine op line role))) ↔
    context.Carries (b.apply role) "op_id" op.opId ∧
      context.Carries (b.apply role) "reservation_id" line.reservationId := by
  simp [onLine]

theorem holds_completes {memKind : String} {success : Expr} :
    context.Holds (b.instantiate (completes op line memKind success)) ↔
      context.Carries (b.apply "complete") "mem_kind" (.str memKind) ∧
        context.Holds (b.instantiate success) ∧
        context.Carries (b.apply "complete") "op_id" op.opId ∧
        context.Carries (b.apply "complete") "reservation_id" line.reservationId := by
  simp [completes]

end Scopes

end Atomic

/-- `atomic.yaml`, for the operations and the reservation lines of a trace. -/
def atomicCore (ops : List Atomic.Op) (lines : List Atomic.Line) : ModuleFields where
  name := "atomic_core"
  ports :=
    [{ name := "translated_memory", direction := .input, eventType := "Core.TranslatedMemory" },
     { name := "reservation_invalidate", direction := .input
       eventType := "Core.ReservationInvalidate", requiredConnection := false },
     { name := "memory_complete", direction := .output, eventType := "Core.MemoryComplete" }]
  internalEvents := ["Atomic.AMORead", "Atomic.AMOWrite", "Atomic.LRRead",
    "Atomic.ReservationSet", "Atomic.SCDecision", "Atomic.SCWrite"]
  slots := repeatProduct ops lines (fun op _ index => Atomic.slots op index)
  stateVariables := repeatOver lines (fun line _ => Atomic.cells line)
  rules := repeatOver lines (fun line index => [Atomic.probeInvalidatesReservation line index]) ++
    repeatProduct ops lines Atomic.rules

namespace Atomic

section Completion

variable {ops : List Op} {lines : List Line} {catalog : EventCatalog} {trace : Trace}
  {spec : CompletionSpec} {problem : BoundedProblem} {interpreter : Interpreter}
  {assignment : Dict String Value} {pre : CellStates}

theorem mem_rules {op : Op} (hop : op ∈ ops) {line : Line} (hline : line ∈ lines) :
    ∃ i, ∀ rule ∈ rules op line i, rule ∈ (atomicCore ops lines).rules := by
  obtain ⟨i, hi⟩ := exists_mem_product_zipIdx hop hline
  exact ⟨i, fun rule hrule =>
    List.mem_append_right _ (mem_repeatProduct.mpr ⟨op, line, i, hi, hrule⟩)⟩

theorem mem_cells {line : Line} (hline : line ∈ lines) {cell : StateVariable.Fields}
    (hcell : cell ∈ cells line) : cell ∈ (atomicCore ops lines).stateVariables := by
  obtain ⟨i, hi⟩ := exists_mem_zipIdx hline
  exact (mem_repeatOver (f := fun line _ => cells line)).mpr ⟨line, i, hi, hcell⟩

/-- A cell has one line. -/
theorem line_of_cell
    (h : ModuleCompletion (atomicCore ops lines) catalog trace spec problem interpreter assignment
      pre) {line line' : Line} (hline : line ∈ lines) (hline' : line' ∈ lines)
    {cell cell' : StateVariable.Fields} (hcell : cell ∈ cells line) (hcell' : cell' ∈ cells line')
    (hname : cell.name = cell'.name) : line = line' := by
  obtain ⟨i, hi⟩ := exists_mem_zipIdx hline
  obtain ⟨j, hj⟩ := exists_mem_zipIdx hline'
  exact (eq_of_mem_repeatOver (f := fun line _ => cells line) h.cells_nodup hi hj hcell hcell'
    hname).1

end Completion

theorem valid_ne_busy {line line' : Line} : valid line ≠ busy line' := by
  intro heq
  have hfield := field_of_cellOf (by decide) (by decide) heq
  exact absurd hfield (by decide)

/-! ## Runs -/

/-- An atomic operation. -/
def operation (opId memKind reservationId : String) (index : Int) : Op where
  opId := .str opId
  hart := .int index
  programIndex := .int 0
  robIdx := .int index
  memKind := .str memKind
  address := .int 4096
  value := .int 0
  writeValue := .int 1
  byteMask := .int 15
  reservationId := .str reservationId

/-- The translation of the operation, in cycle 0. -/
def translated (op : Op) (id : String) : EventFields where
  id := id
  eventType := "Core.TranslatedMemory"
  cycle := 0
  fields :=
    [("op_id", op.opId), ("hart", op.hart), ("program_index", op.programIndex),
      ("rob_idx", op.robIdx), ("mem_kind", op.memKind), ("vaddr", op.address),
      ("address", op.address), ("vpn", .int 1), ("value", op.value),
      ("write_value", op.writeValue), ("byte_mask", op.byteMask), ("cacheable", .bool true),
      ("io_id", .int 0), ("reservation_id", op.reservationId), ("uses_tlb", .bool true),
      ("execution_class", .str "atomic")]

/-- The slots of one pair of an operation and a line that do not occur. -/
def idle (index : Nat) (stems : List String) : List (String × Value) :=
  stems.flatMap (fun stem => ModuleRun.skipped (indexed stem index))

def amoStems : List String := ["atomic_amo_read", "atomic_amo_write", "atomic_complete_amo"]

def lrStems : List String := ["atomic_lr_read", "reservation_set", "atomic_complete_lr"]

def scStems : List String :=
  ["atomic_sc_decision", "atomic_sc_write", "atomic_complete_sc_success",
    "atomic_complete_sc_fail"]

/-- An AMO that reads, writes and completes in these cycles. -/
def amoAt (index read write complete : Nat) : List (String × Value) :=
  ModuleRun.chosen (indexed "atomic_amo_read" index) read ++
    ModuleRun.chosen (indexed "atomic_amo_write" index) write ++
    ModuleRun.chosen (indexed "atomic_complete_amo" index) complete ++
    idle index (lrStems ++ scStems)

def amoA : Op := operation "a" "amo" "x" 0

def amoB : Op := operation "b" "amo" "x" 1

def lineX : Line := ⟨.str "x"⟩

end Atomic

end Boom

end Umcm
