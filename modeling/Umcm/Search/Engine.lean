import Umcm.Search.Program

/-!
# The bounded architecture search

Every canonical program is checked against the graph model; one of the target
status is kept when its representative candidate passes the core-order filter.
A graph error rejects the program.
-/

namespace Umcm

/-! ## The core-order filter -/

/-- The source of a read; `rf_source[read.id]`. -/
def readSource (graph : ExecutionGraph) (rf : Relation) (read : MemoryOperation) :
    Except PyError MemoryOperation :=
  match (rfIncoming rf read.id).getLast? with
  | none => .error .keyError
  | some source =>
    match findOp graph.operations source with
    | some operation => .ok operation
    | none => .error .keyError

/-- A read of its hart's own future store, or of the initial value past an older
store of the address. -/
def readImpossible (operations : List MemoryOperation) (source read : MemoryOperation) : Bool :=
  (source.kind ≠ .initWrite && PoBefore read source) ||
    (source.kind = .initWrite && operations.any (fun write => write.kind = .write &&
      PoBefore write read && write.address.pyEq read.address))

/-- The loop over the reads, up to the first impossible one. -/
def readsPossible (graph : ExecutionGraph) (rf : Relation) : List MemoryOperation → Except PyError Bool
  | [] => .ok true
  | read :: rest => do
    let source ← readSource graph rf read
    if readImpossible graph.operations source read then return false
    else readsPossible graph rf rest

/-- Two stores of one hart and address are ordered against program order. -/
def storesReordered (operations : List MemoryOperation) (coherence : Relation) : Bool :=
  operations.any (fun older => older.kind = .write && operations.any (fun younger =>
    younger.kind = .write && PoBefore older younger && older.address.pyEq younger.address &&
      (younger.id, older.id) ∈ coherence.edges))

/-- `_core_order_candidate_possible`. -/
def coreOrderCandidatePossible (graph : ExecutionGraph) : Except PyError Bool := do
  let rf ← graph.relation "rf"
  let possible ← readsPossible graph rf (graph.operations.filter MemoryOperation.isRead)
  match graph.relations.get? "co" with
  | some coherence => return possible && !storesReordered graph.operations coherence
  | none => return possible

/-! ## Skeletons -/

inductive ArchitecturalObligation where
  | initialValue (opId : String) (address value : Value)
  | readFrom (read write : String) (address value : Value)
  | writeValue (opId : String) (address value : Value)
  | edge (kind source target : String)
deriving DecidableEq

/-- The obligations of one operation. -/
def operationObligations (graph : ExecutionGraph) (rf : Relation) (operation : MemoryOperation) :
    Except PyError (List ArchitecturalObligation) := do
  let first ←
    if operation.kind = .initWrite then
      .ok [ArchitecturalObligation.initialValue operation.id operation.address operation.value]
    else if operation.isRead then do
      let source ← readSource graph rf operation
      .ok [ArchitecturalObligation.readFrom operation.id source.id operation.address
        operation.readValue]
    else .ok []
  let second := if operation.kind = .write then
    [ArchitecturalObligation.writeValue operation.id operation.address operation.storedValue] else []
  return first ++ second

/-- `_derive_obligations`. -/
def deriveObligations (graph : ExecutionGraph) : Except PyError (List ArchitecturalObligation) := do
  let rf ← graph.relation "rf"
  let operations ← (byId graph.operations).mapM (operationObligations graph rf)
  let edges := [("po", "program_order"), ("co", "coherence_order"), ("fr", "from_read"),
    ("ppo", "preserved_order")].flatMap (fun p =>
      match graph.relations.get? p.1 with
      | some r => (sortedEdges r.edges).map (fun e => ArchitecturalObligation.edge p.2 e.1 e.2)
      | none => [])
  return operations.flatten ++ edges

structure ArchitecturalSkeleton where
  graph : ExecutionGraph
  targetStatus : MemoryModelStatus
  obligations : List ArchitecturalObligation
  violations : List AxiomResult
  trace : Trace

/-! ## The search -/

structure ArchitectureCounters where
  estimated : Nat
  examined : Nat
  rejected : Nat
  candidates : Nat

/-- What becomes of a canonical program. -/
inductive Verdict where
  | rejected
  | otherStatus
  | found (skeleton : ArchitecturalSkeleton)

/-- The verdict on a checked program. -/
def judge (target : MemoryModelStatus) (trace : Trace) (checked : MemoryModelCheck) :
    Except PyError Verdict := do
  if checked.status ≠ target then return .otherStatus
  else
    let representative ← checked.representative
    let possible ← coreOrderCandidatePossible representative.graph
    if possible then
      let obligations ← deriveObligations representative.graph
      return .found
        { graph := representative.graph, targetStatus := checked.status, obligations, trace
          violations := representative.axioms.filter (fun result => result.status = .violated) }
    else return .rejected

/-- The verdict on the trace of a program. A graph error is a rejection. -/
def examine (spec : HierarchicalSearchSpec) (model : GraphModelSpec) (trace : Trace) :
    Except PyError Verdict :=
  match checkTraceMemoryModel trace model spec.bounds.maxGraphCandidates with
  | .error (.graphError _) => .ok .rejected
  | .error e => .error e
  | .ok checked => judge spec.target trace checked

/-- Build, validate and examine one program. -/
def examineProgram (spec : HierarchicalSearchSpec) (catalog : EventCatalog) (model : GraphModelSpec)
    (raw : List RawOperation) : Except PyError Verdict := do
  let trace ← programTrace spec raw
  trace.validate catalog false
  examine spec model trace

/-- `_bounded_architecture_candidates`: the skeletons of the programs, in order.
With `first` the consumer takes one skeleton and stops. -/
def boundedArchitectureCandidates (spec : HierarchicalSearchSpec) (catalog : EventCatalog)
    (model : GraphModelSpec) (first : Bool) : List (List RawOperation) → ArchitectureCounters →
    Except PyError (List ArchitecturalSkeleton × ArchitectureCounters)
  | [], counters => .ok ([], counters)
  | raw :: rest, counters =>
    if spec.bounds.maxAssignments ≤ counters.examined then .ok ([], counters)
    else if !canonical raw then
      boundedArchitectureCandidates spec catalog model first rest
        { counters with rejected := counters.rejected + 1 }
    else do
      match ← examineProgram spec catalog model raw with
      | .rejected =>
        boundedArchitectureCandidates spec catalog model first rest
          { counters with examined := counters.examined + 1, rejected := counters.rejected + 1 }
      | .otherStatus =>
        boundedArchitectureCandidates spec catalog model first rest
          { counters with examined := counters.examined + 1 }
      | .found skeleton =>
        let counters := { counters with
          examined := counters.examined + 1, candidates := counters.candidates + 1 }
        if first then return ([skeleton], counters)
        else
          let (skeletons, counters) ←
            boundedArchitectureCandidates spec catalog model first rest counters
          return (skeleton :: skeletons, counters)

/-- The counters at the start of a search. -/
def ArchitectureCounters.start (bounds : SearchBounds) : ArchitectureCounters :=
  { estimated := estimatedPrograms bounds, examined := 0, rejected := 0, candidates := 0 }

structure ArchitectureOutcome where
  skeleton : Option ArchitecturalSkeleton
  counters : ArchitectureCounters
  exhausted : Bool

/-- `_search_bounded_architecture`. -/
def searchBoundedArchitecture (spec : HierarchicalSearchSpec) (catalog : EventCatalog)
    (model : GraphModelSpec) : Except PyError ArchitectureOutcome := do
  let (skeletons, counters) ← boundedArchitectureCandidates spec catalog model true
    (rawPrograms spec.bounds) (.start spec.bounds)
  match skeletons with
  | skeleton :: _ => return { skeleton := some skeleton, counters, exhausted := false }
  | [] => return { skeleton := none, counters
                   exhausted := counters.examined < spec.bounds.maxAssignments }

end Umcm
