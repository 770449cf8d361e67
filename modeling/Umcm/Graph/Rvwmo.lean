import Umcm.Graph.Footprint
import Umcm.Graph.ProgramOrder
import Umcm.Order.Kahn
import Mathlib.Data.List.MinMax

/-!
# The built-in RVWMO model

Architectural RVWMO: validation of the base relations, the thirteen rules of
preserved program order, the derived relations, one topological order of
`ppo`, `rfe`, `co` and `fr` as the global memory order, and the checks of the
completed graph. Iterations over unordered sets are taken in sorted order; the
order shows only in which of several errors is reported.
-/

namespace Umcm

open FinOrder

def rvwmoPpoRelations : List String :=
  ["ppo_rule1", "ppo_rule2", "ppo_rule3", "ppo_rule4", "ppo_rule5", "ppo_rule6", "ppo_rule7",
    "ppo_rule8", "ppo_rule9", "ppo_rule10", "ppo_rule11", "ppo_rule12", "ppo_rule13"]

def rvwmoInputRelations : List String := ["addr", "data", "ctrl", "fence", "pair", "pipeline"]

def rvwmoOrderRelations : List String := ["ppo", "rfe", "co", "fr"]

structure RvwmoOutcome where
  name : String
  satisfied : Bool
  kind : String
  relations : List String
  cycle : List LabeledEdge
  offendingEdges : List Edge
deriving DecidableEq, Repr

/-- `relations.get(name)`, the empty relation if there is none. -/
def relationOrEmpty (relations : Dict String Relation) (name : String) : Relation :=
  (relations.get? name).getD { name, edges := ∅ }

def sortEdgeList (edges : List Edge) : List Edge :=
  ((edges.map toLex).insertionSort (· ≤ ·)).map ofLex

@[simp] theorem sortEdgeList_eq_nil {edges : List Edge} : sortEdgeList edges = [] ↔ edges = [] := by
  rw [sortEdgeList, List.map_eq_nil_iff, ← List.length_eq_zero_iff, List.length_insertionSort,
    List.length_map, List.length_eq_zero_iff]

/-- The operations at the ends of an edge. -/
def endpoints (operations : List MemoryOperation) (e : Edge) :
    Option (MemoryOperation × MemoryOperation) :=
  match findOp operations e.1, findOp operations e.2 with
  | some source, some target => some (source, target)
  | _, _ => none

theorem endpoints_of_mem {operations : List MemoryOperation}
    (hnd : (operations.map MemoryOperation.id).Nodup) {a b : MemoryOperation}
    (ha : a ∈ operations) (hb : b ∈ operations) :
    endpoints operations (a.id, b.id) = some (a, b) := by
  simp [endpoints, findOp_of_mem hnd ha, findOp_of_mem hnd hb]

/-! ## Validation of the base relations -/

def canonicalPo (operations : List MemoryOperation) : Except PyError Relation :=
  programOrder (fun hart => .graphError s!"two operations on hart {hart} share a program_index")
    operations

/-- One reads-from edge. -/
def validateRfEdge (operations : List MemoryOperation) (e : Edge) : Except PyError Unit :=
  match endpoints operations e with
  | none => .error (.graphError s!"rf references unknown operation {quoted e.1}->{quoted e.2}")
  | some (source, read) => do
    Except.require (source.isWrite ∧ read.isRead ∧ e.1 ≠ e.2)
      (.graphError s!"invalid rf edge {quoted e.1}->{quoted e.2}")
    Except.require (SameLocation source read)
      (.graphError s!"rf edge {quoted e.1}->{quoted e.2} crosses locations")
    Except.require (source.storedValue.key = read.readValue.key)
      (.graphError s!"rf edge {quoted e.1}->{quoted e.2} has unequal values")

/-- The sources of the edges into `readId`. -/
def rfIncoming (rf : Relation) (readId : String) : List String :=
  ((sortedEdges rf.edges).filter (fun e => e.2 = readId)).map Prod.fst

/-- The single source of one read. -/
def rfSource (rf : Relation) (read : MemoryOperation) : Except PyError (String × String) :=
  match rfIncoming rf read.id with
  | [source] => .ok (read.id, source)
  | sources => .error (.graphError
      s!"read {quoted read.id} requires exactly one rf source, got {sources.length}")

/-- `_rf_sources`: the source of every read. -/
def rfSources (operations : List MemoryOperation) (rf : Relation) :
    Except PyError (Dict String String) := do
  (sortedEdges rf.edges).forM (validateRfEdge operations)
  let sources ← (operations.filter MemoryOperation.isRead).mapM (rfSource rf)
  return Dict.ofList sources

/-- One coherence edge. -/
def validateCoEdge (operations : List MemoryOperation) (e : Edge) : Except PyError Unit :=
  match endpoints operations e with
  | none => .error (.graphError s!"invalid co edge {quoted e.1}->{quoted e.2}")
  | some (source, target) =>
    Except.require (source.isWrite ∧ target.isWrite ∧ e.1 ≠ e.2 ∧ SameLocation source target)
      (.graphError s!"invalid co edge {quoted e.1}->{quoted e.2}")

/-- One pair of writes: exactly one direction if they share a location. -/
def validateCoPair (co : Relation) (left right : MemoryOperation) : Except PyError Unit :=
  Except.require (SameLocation left right →
      ((left.id, right.id) ∈ co.edges ↔ (right.id, left.id) ∉ co.edges))
    (.graphError s!"co is not total for writes {quoted left.id} and {quoted right.id}")

/-- `_validate_co`. -/
def validateCo (operations : List MemoryOperation) (co : Relation) : Except PyError Unit := do
  let writes := operations.filter MemoryOperation.isWrite
  (sortedEdges co.edges).forM (validateCoEdge operations)
  (orderedPairs writes).forM (fun p => validateCoPair co p.1 p.2)
  Except.require (findLabeledCycle [co] = none) (.graphError "co must be acyclic")
  (writes.filter (fun op => op.kind = .initWrite)).forM (fun init =>
    writes.forM (fun write =>
      Except.require (write.id ≠ init.id → SameLocation init write → (init.id, write.id) ∈ co.edges)
        (.graphError s!"initial write {quoted init.id} must be first in coherence order")))

/-! ## Preserved program order -/

/-- `middle` stands between the two operations on their hart. -/
def Between (source middle target : MemoryOperation) : Prop :=
  PoBefore source middle ∧ PoBefore middle target

instance (a b c : MemoryOperation) : Decidable (Between a b c) :=
  inferInstanceAs (Decidable (_ ∧ _))

/-- `_validate_input_edges`. -/
def validateInputEdges (po relation : Relation) (operations : List MemoryOperation) :
    Except PyError Unit :=
  (sortedEdges relation.edges).forM (fun e => do
    Except.require (e.1 ∈ operations.map MemoryOperation.id ∧
        e.2 ∈ operations.map MemoryOperation.id)
      (.graphError s!"relation {quoted relation.name} references unknown edge {quoted e.1} {quoted e.2}")
    Except.require (e ∈ po.edges)
      (.graphError s!"relation {quoted relation.name} edge {quoted e.1} {quoted e.2} is not in po"))

/-- What the rules look at besides the two operations of a program-order edge. -/
structure PpoContext where
  operations : List MemoryOperation
  addr : Relation
  data : Relation
  ctrl : Relation
  fence : Relation
  pair : Relation
  pipeline : Relation
  rfSources : Dict String String

/-- The input relations are looked up by name; a missing one is empty. -/
def PpoContext.of (operations : List MemoryOperation) (relations : Dict String Relation)
    (rfSources : Dict String String) : PpoContext :=
  { operations
    addr := relationOrEmpty relations "addr"
    data := relationOrEmpty relations "data"
    ctrl := relationOrEmpty relations "ctrl"
    fence := relationOrEmpty relations "fence"
    pair := relationOrEmpty relations "pair"
    pipeline := relationOrEmpty relations "pipeline"
    rfSources }

/-- Whether a relation has the edge between two operations. -/
def Relation.joins (r : Relation) (a b : MemoryOperation) : Bool := (a.id, b.id) ∈ r.edges

section Rules

variable (ctx : PpoContext) (source target : MemoryOperation)

/-- 1. Older overlapping access before a store. -/
def ppoRule1 : Bool := target.isWrite && Overlap source target

/-- 2. Same-byte loads, no intervening store, different source writes. -/
def ppoRule2 : Bool :=
  source.isRead && target.isRead && Overlap source target &&
    !(ctx.operations.any (fun middle => middle.isWrite && Between source middle target &&
      ((footprintOf source ∩ footprintOf target) ∩ footprintOf middle).Nonempty)) &&
    ctx.rfSources.get? source.id ≠ ctx.rfSources.get? target.id

/-- 3. A load reading from an older AMO or SC write. -/
def ppoRule3 : Bool :=
  (source.atomicKind = "amo" || source.atomicKind = "sc") && target.isRead &&
    ctx.rfSources.get? target.id = some source.id

/-- 4. Fence. -/
def ppoRule4 : Bool := ctx.fence.joins source target

/-- 5. Acquire. -/
def ppoRule5 : Bool := acquire source

/-- 6. Release. -/
def ppoRule6 : Bool := release target

/-- 7. RCsc annotations on both. -/
def ppoRule7 : Bool := rcsc source && rcsc target

/-- 8. Paired LR and SC. -/
def ppoRule8 : Bool := ctx.pair.joins source target

/-- 9. Address dependency. -/
def ppoRule9 : Bool := ctx.addr.joins source target

/-- 10. Data dependency into a store. -/
def ppoRule10 : Bool := target.isWrite && ctx.data.joins source target

/-- 11. Control dependency into a store. -/
def ppoRule11 : Bool := target.isWrite && ctx.ctrl.joins source target

/-- 12. A load reading from a store that depends on the older operation. -/
def ppoRule12 : Bool :=
  target.isRead && ctx.operations.any (fun middle => middle.isWrite &&
    Between source middle target && ctx.rfSources.get? target.id = some middle.id &&
    (ctx.addr.joins source middle || ctx.data.joins source middle))

/-- 13. Address dependency through an intervening operation, or a pipeline edge
that stands for one the projection omits. -/
def ppoRule13 : Bool :=
  target.isWrite && (ctx.pipeline.joins source target ||
    ctx.operations.any (fun middle => Between source middle target && ctx.addr.joins source middle))

def ppoRules : List Bool :=
  [ppoRule1 source target, ppoRule2 ctx source target, ppoRule3 ctx source target,
    ppoRule4 ctx source target, ppoRule5 source, ppoRule6 target, ppoRule7 source target,
    ppoRule8 ctx source target, ppoRule9 ctx source target, ppoRule10 ctx source target,
    ppoRule11 ctx source target, ppoRule12 ctx source target, ppoRule13 ctx source target]

end Rules

/-- Whether rule number `index` preserves an edge between regular operations. -/
def preserved (ctx : PpoContext) (index : Nat) (e : Edge) : Bool :=
  match endpoints ctx.operations e with
  | some (source, target) =>
    regular source && regular target && (ppoRules ctx source target)[index]?.getD false
  | none => false

def ppoEdges (ctx : PpoContext) (po : Relation) (index : Nat) : Finset Edge :=
  po.edges.filter (fun e => preserved ctx index e)

/-- `derive_ppo`: the thirteen rules and their union. -/
def derivePpo (operations : List MemoryOperation) (relations : Dict String Relation)
    (rfSources : Dict String String) : Except PyError (List Relation) := do
  let po := relationOrEmpty relations "po"
  rvwmoInputRelations.forM (fun name =>
    validateInputEdges po (relationOrEmpty relations name) operations)
  let ctx := PpoContext.of operations relations rfSources
  let named := rvwmoPpoRelations.mapIdx (fun index name =>
    ({ name, edges := ppoEdges ctx po index } : Relation))
  return named ++ [unionRelations "ppo" named]

/-! ## Completion -/

/-- `_topological_total_order`. -/
def topologicalTotalOrder (nodeIds : List String) (relations : List Relation) :
    Option (List String) :=
  Kahn.topologicalOrder (successors (allEdges relations)) (sortedList nodeIds.toFinset)

/-- Whether both ends of an edge are on one hart. -/
def sameHart (operations : List MemoryOperation) (e : Edge) : Bool :=
  match endpoints operations e with
  | some (source, target) => source.hart = target.hart
  | none => false

def rfiOf (operations : List MemoryOperation) (rf : Relation) : Relation :=
  { name := "rfi", edges := rf.edges.filter (fun e => sameHart operations e) }

def rfeOf (operations : List MemoryOperation) (rf : Relation) : Relation :=
  { name := "rfe", edges := rf.edges \ (rfiOf operations rf).edges }

/-- From-reads: a write other than the read itself that is coherence-after its source. -/
def frOf (rf co : Relation) : Relation :=
  { name := "fr"
    edges := rf.edges.biUnion (fun e =>
      ((targetsOf co.edges e.1).filter (fun later => later ≠ e.2)).image (fun later => (e.2, later))) }

def friOf (operations : List MemoryOperation) (rf co : Relation) : Relation :=
  { name := "fri", edges := (frOf rf co).edges.filter (fun e => sameHart operations e) }

def freOf (operations : List MemoryOperation) (rf co : Relation) : Relation :=
  { name := "fre", edges := (frOf rf co).edges \ (friOf operations rf co).edges }

/-- Store relations under their names. -/
def insertAll (relations : Dict String Relation) (items : List Relation) : Dict String Relation :=
  items.foldl (fun d r => d.insert r.name r) relations

/-- The global memory order witness as a relation; empty when there is none. -/
def gmoOf (order : Option (List String)) : Relation :=
  { name := "gmo", edges := (orderedPairs (order.getD [])).toFinset }

/-- `relations[name]`, which a completed graph must provide. -/
def requiredRelation (relations : Dict String Relation) (name : String) : Except PyError Relation :=
  match relations.get? name with
  | some r => .ok r
  | none => .error (.graphError s!"RVWMO graph requires relation {quoted name}")

/-- Validate the base relations and add the derived relations and one global
memory order. -/
def completeRvwmoRelations (graph : ExecutionGraph) : Except PyError ExecutionGraph := do
  let operations := graph.operations
  let nonRegular := (operations.filter (fun op => !regular op)).map MemoryOperation.id
  Except.require (nonRegular = []) (.graphError
    ("RVWMO v0.16 only accepts regular main-memory operations; got " ++
      ", ".intercalate (sortedList nonRegular.toFinset)))
  validateScalarLocations operations
  let po ← canonicalPo operations
  Except.require (∀ existing, graph.relations.get? "po" = some existing → existing.edges = po.edges)
    (.graphError "po relation disagrees with hart/program_index metadata")
  let base := graph.relations.insert "po" po
  let rf ← requiredRelation base "rf"
  let co ← requiredRelation base "co"
  let sources ← rfSources operations rf
  validateCo operations co
  let derived := insertAll base
    [rfiOf operations rf, rfeOf operations rf, frOf rf co, friOf operations rf co,
      freOf operations rf co]
  let ppo ← derivePpo operations derived sources
  let withPpo := insertAll derived ppo
  let order := topologicalTotalOrder (operations.map MemoryOperation.id)
    (rvwmoOrderRelations.map (relationOrEmpty withPpo))
  let relations := withPpo.insert "gmo" (gmoOf order)
  ExecutionGraph.make operations relations graph.candidateId
    { graph.metadata with builtinModel := some "rvwmo", gmoOrder := some (order.getD []) }
    graph.nodup

/-! ## Checks of a completed graph -/

/-- The writes the load-value axiom makes eligible for a read. -/
def eligibleWrites (operations : List MemoryOperation) (order : List String) (po : Relation)
    (read : MemoryOperation) : List MemoryOperation :=
  operations.filter (fun write => write.isWrite && write.id ≠ read.id && SameLocation write read &&
    (order.idxOf write.id < order.idxOf read.id || (write.id, read.id) ∈ po.edges))

/-- The read's source if it is not the latest eligible write. -/
def loadValueOffense (operations : List MemoryOperation) (order : List String) (po : Relation)
    (sources : Dict String String) (read : MemoryOperation) : Option Edge :=
  let source := (sources.get? read.id).getD ""
  match (eligibleWrites operations order po read).argmax (fun write => order.idxOf write.id) with
  | none => some (source, read.id)
  | some latest => if latest.id ≠ source then some (source, read.id) else none

/-- `_load_value_offenses`: nothing is reported without a global order. -/
def loadValueOffenses (graph : ExecutionGraph) : Except PyError (List Edge) :=
  match graph.metadata.gmoOrder.getD [] with
  | [] => .ok []
  | order => do
    let po ← graph.relation "po"
    let rf ← graph.relation "rf"
    let sources ← rfSources graph.operations rf
    return sortEdgeList ((graph.operations.filter MemoryOperation.isRead).filterMap
      (loadValueOffense graph.operations order po sources))

/-- The offense of one AMO. -/
def amoOffense (operations : List MemoryOperation) (co : Relation) (sources : Dict String String)
    (amo : MemoryOperation) : Option Edge :=
  if ¬ (amo.isRead ∧ amo.isWrite) then some (amo.id, amo.id)
  else
    let source := (sources.get? amo.id).getD ""
    if (source, amo.id) ∉ co.edges then some (source, amo.id)
    else if operations.any (fun write => write.isWrite && write.id ∉ [source, amo.id] &&
        SameLocation write amo && (source, write.id) ∈ co.edges && (write.id, amo.id) ∈ co.edges)
      then some (source, amo.id)
    else none

/-- `_amo_offenses`. -/
def amoOffenses (graph : ExecutionGraph) : Except PyError (List Edge) := do
  let co ← graph.relation "co"
  let rf ← graph.relation "rf"
  let sources ← rfSources graph.operations rf
  return sortEdgeList ((graph.operations.filter (fun op => op.atomicKind = "amo")).filterMap
    (amoOffense graph.operations co sources))

/-- The offense of one pair edge. -/
def pairOffense (operations : List MemoryOperation) (co : Relation) (sources : Dict String String)
    (e : Edge) : Except PyError (Option Edge) :=
  match endpoints operations e with
  | none => .error .keyError
  | some (lr, sc) => do
    Except.require (lr.atomicKind = "lr" ∧ sc.atomicKind = "sc")
      (.graphError s!"pair edge {quoted e.1}->{quoted e.2} is not LR->SC")
    match sources.get? lr.id with
    | none => .error .keyError
    | some source =>
      if (source, sc.id) ∉ co.edges then return some e
      else if operations.any (fun write => write.isWrite && write.id ∉ [source, sc.id] &&
          write.hart ≠ lr.hart && Overlap write lr && (source, write.id) ∈ co.edges &&
          (write.id, sc.id) ∈ co.edges)
        then return some e
      else return none

/-- `_lr_sc_offenses`: an SC without exactly one pair, and the offending pairs. -/
def lrScOffenses (graph : ExecutionGraph) : Except PyError (List Edge) := do
  let co ← graph.relation "co"
  let pair := relationOrEmpty graph.relations "pair"
  let rf ← graph.relation "rf"
  let sources ← rfSources graph.operations rf
  let unpaired := (graph.operations.filter (fun op => op.atomicKind = "sc")).filter
    (fun sc => (pair.edges.filter (fun e => e.2 = sc.id)).card ≠ 1)
  (sortedEdges pair.edges).forM (fun e =>
    Except.require ((pair.edges.filter (fun e' => e'.1 = e.1)).card = 1)
      (.graphError s!"LR {quoted e.1} is paired with multiple SC operations"))
  let broken ← (sortedEdges pair.edges).mapM (pairOffense graph.operations co sources)
  return sortEdgeList (unpaired.map (fun sc => (sc.id, sc.id)) ++ broken.filterMap id)

/-- The outcomes of the model on a completed graph. -/
def checkRvwmo (graph : ExecutionGraph) : Except PyError (List RvwmoOutcome) := do
  let orderRelations ← rvwmoOrderRelations.mapM graph.relation
  let cycle := findLabeledCycle orderRelations
  let loadValue ← loadValueOffenses graph
  let amo ← amoOffenses graph
  let lrSc ← lrScOffenses graph
  return [
    { name := "rvwmo_global_memory_order", satisfied := cycle.isNone, kind := "acyclic"
      relations := rvwmoOrderRelations, cycle := cycle.getD [], offendingEdges := [] },
    { name := "rvwmo_load_value", satisfied := loadValue.isEmpty, kind := "latest-visible-write"
      relations := ["po", "rf", "co", "gmo"], cycle := [], offendingEdges := loadValue },
    { name := "rvwmo_amo_atomicity", satisfied := amo.isEmpty, kind := "atomicity"
      relations := ["rf", "co"], cycle := [], offendingEdges := amo },
    { name := "rvwmo_lr_sc_atomicity", satisfied := lrSc.isEmpty, kind := "atomicity"
      relations := ["pair", "rf", "co"], cycle := [], offendingEdges := lrSc },
    { name := "rvwmo_progress_finite", satisfied := true, kind := "finite-progress"
      relations := ["gmo"], cycle := [], offendingEdges := [] }]

end Umcm
