import Umcm.Data.Choice
import Umcm.Graph.Checker

/-!
# Bounded programs

The raw programs of the bounded architecture search, their canonical
representatives, and the trace a program is checked on.
-/

namespace Umcm

/-- The bounds of a search; every one of them is positive. -/
structure SearchBounds where
  harts : Nat
  memoryOps : Nat
  addresses : Nat
  values : Nat
  maxAssignments : Nat
  maxGraphCandidates : Nat
  harts_pos : 0 < harts
  memoryOps_pos : 0 < memoryOps
  addresses_pos : 0 < addresses
  values_pos : 0 < values
  maxAssignments_pos : 0 < maxAssignments
  maxGraphCandidates_pos : 0 < maxGraphCandidates

structure InitWriteSpec where
  id : String
  address : String
  value : Int
deriving DecidableEq, Repr

/-- The event types of the architecture events, and default fields by kind. -/
structure ArchitectureEventMap where
  initWrite : String
  load : String
  store : String
  commitRead : String
  defaults : Dict String (Dict String Value)

/-- What the bounded generation reads of a search specification. -/
structure HierarchicalSearchSpec where
  bounds : SearchBounds
  events : ArchitectureEventMap
  target : MemoryModelStatus

inductive MemoryKind where
  | load
  | store
deriving DecidableEq, Repr

/-- One entry of a raw program. -/
structure RawOperation where
  kind : MemoryKind
  hart : Nat
  address : String
  value : Int
deriving DecidableEq, Repr

structure OperationAssignment where
  id : String
  kind : MemoryKind
  hart : Nat
  programIndex : Nat
  address : String
  value : Int
deriving DecidableEq, Repr

/-! ## Programs -/

def boundedAddress (index : Nat) : String :=
  match index with
  | 0 => "x"
  | 1 => "y"
  | 2 => "z"
  | index => s!"x{index}"

def boundedAddresses (count : Nat) : List String := (List.range count).map boundedAddress

/-- `_initial_write_id`: `Init` and the address with its first letter in upper case. -/
def initialWriteId (address : String) (index : Nat) : String :=
  match address.toList.filter Char.isAlphanum with
  | [] => s!"Init{index}"
  | c :: rest => "Init" ++ String.ofList (c.toUpper :: rest)

def boundedInitWrites (bounds : SearchBounds) : List InitWriteSpec :=
  (List.range bounds.addresses).map (fun index =>
    { id := initialWriteId (boundedAddress index) index, address := boundedAddress index
      value := 0 })

/-- The entries a program is made of: kinds, harts, addresses, values. -/
def rawChoices (bounds : SearchBounds) : List RawOperation :=
  [MemoryKind.load, .store].flatMap (fun kind =>
    (List.range bounds.harts).flatMap (fun hart =>
      (boundedAddresses bounds.addresses).flatMap (fun address =>
        (List.range bounds.values).map (fun (value : Nat) =>
          { kind, hart, address, value := value }))))

/-- The raw programs in the order of the search. -/
def rawPrograms (bounds : SearchBounds) : List (List RawOperation) :=
  (List.range bounds.memoryOps).flatMap (fun count =>
    Choice.product (List.replicate (count + 1) (rawChoices bounds)))

/-- The number of raw programs, computed from the bounds. -/
def estimatedPrograms (bounds : SearchBounds) : Nat :=
  let choiceCount := 2 * bounds.harts * (boundedAddresses bounds.addresses).length * bounds.values
  ((List.range bounds.memoryOps).map (fun count => choiceCount ^ (count + 1))).sum

/-- `_bounded_candidate_is_canonical`: both kinds occur, and the first entry is
on hart 0 at the first address. -/
def isCanonical (raw : List RawOperation) (firstAddress : String) : Bool :=
  raw.any (fun op => op.kind = .load) && raw.any (fun op => op.kind = .store) &&
    match raw with
    | first :: _ => first.hart = 0 && first.address = firstAddress
    | [] => false

/-- The candidates are tested against the first address of the bounds. -/
def canonical (raw : List RawOperation) : Bool := isCanonical raw (boundedAddress 0)

def MemoryKind.letter : MemoryKind → String
  | .load => "L"
  | .store => "W"

/-- The counters of `_materialize_bounded_operations`. -/
structure MaterializeState where
  programIndexes : Dict Nat Nat
  loads : Nat
  stores : Nat

def MaterializeState.initial : MaterializeState := ⟨Dict.empty, 0, 0⟩

/-- `kind_indexes[kind]`. -/
def MaterializeState.kindIndex (s : MaterializeState) : MemoryKind → Nat
  | .load => s.loads
  | .store => s.stores

/-- `program_indexes.get(hart, 0)`. -/
def MaterializeState.programIndex (s : MaterializeState) (hart : Nat) : Nat :=
  (s.programIndexes.get? hart).getD 0

def MaterializeState.next (s : MaterializeState) (op : RawOperation) : MaterializeState :=
  { programIndexes := s.programIndexes.insert op.hart (s.programIndex op.hart + 1)
    loads := if op.kind = .load then s.loads + 1 else s.loads
    stores := if op.kind = .store then s.stores + 1 else s.stores }

def materializeFrom (s : MaterializeState) : List RawOperation → List OperationAssignment
  | [] => []
  | op :: rest =>
    { id := s!"{op.kind.letter}{s.kindIndex op.kind}"
      kind := op.kind
      hart := op.hart
      programIndex := s.programIndex op.hart
      address := op.address
      value := op.value } :: materializeFrom (s.next op) rest

def materializeBoundedOperations (raw : List RawOperation) : List OperationAssignment :=
  materializeFrom .initial raw

/-! ## Traces -/

def ArchitectureEventMap.defaultFields (events : ArchitectureEventMap) (key : String) :
    Dict String Value := (events.defaults.get? key).getD .empty

/-- The defaults of a key, overwritten by the given fields. -/
def ArchitectureEventMap.fields (events : ArchitectureEventMap) (key : String)
    (given : List (String × Value)) : Dict String Term :=
  .ofList ((given.foldl (fun d p => d.insert p.1 p.2) (events.defaultFields key)).entries.map
    (fun p => (p.1, .value p.2)))

def initEvent (events : ArchitectureEventMap) (p : InitWriteSpec × Nat) :
    Except PyError EventInstance :=
  EventInstance.make s!"search_init_{p.2}_{p.1.id}" events.initWrite
    (events.fields "init_write"
      [("op_id", .str p.1.id), ("address", .str p.1.address), ("value", .int p.1.value)]) 0

/-- The fields that loads and stores share. -/
def operationFields (operation : OperationAssignment) : List (String × Value) :=
  [("op_id", .str operation.id), ("hart", .int operation.hart),
    ("program_index", .int operation.programIndex), ("address", .str operation.address)]

/-- The events of one operation: a store, or a load and its commit. -/
def operationEvents (events : ArchitectureEventMap) (count : Nat) (p : OperationAssignment × Nat) :
    Except PyError (List EventInstance) :=
  match p.1.kind with
  | .store => do
    let store ← EventInstance.make s!"search_store_{p.2}_{p.1.id}" events.store
      (events.fields "store" (operationFields p.1 ++ [("value", .int p.1.value)])) (p.2 + 1)
    return [store]
  | .load => do
    let load ← EventInstance.make s!"search_load_{p.2}_{p.1.id}" events.load
      (events.fields "load" (operationFields p.1)) (p.2 + 1)
    let commit ← EventInstance.make s!"search_commit_{p.2}_{p.1.id}" events.commitRead
      (events.fields "commit_read" [("op_id", .str p.1.id), ("value", .int p.1.value)])
      (count + p.2 + 1)
    return [load, commit]

/-- `_architecture_trace`. -/
def architectureTrace (events : ArchitectureEventMap) (assignments : List OperationAssignment)
    (initWrites : List InitWriteSpec) : Except PyError Trace := do
  let initial ← initWrites.zipIdx.mapM (initEvent events)
  let operations ← assignments.zipIdx.mapM (operationEvents events assignments.length)
  Trace.make (initial ++ operations.flatten) [] false

/-- The trace of a raw program. -/
def programTrace (spec : HierarchicalSearchSpec) (raw : List RawOperation) : Except PyError Trace :=
  architectureTrace spec.events (materializeBoundedOperations raw) (boundedInitWrites spec.bounds)

end Umcm
