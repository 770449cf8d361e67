import Umcm.Graph.Builder

/-!
# Checking a trace against a graph model

The axioms of a model on one candidate graph, and the status of a trace: it is
allowed when some candidate satisfies them all.
-/

namespace Umcm

inductive AxiomStatus where
  | satisfied
  | violated
deriving DecidableEq, Repr

structure AxiomResult where
  axiomName : String
  status : AxiomStatus
  kind : String
  relations : List String
  cycle : List LabeledEdge
  offendingEdges : List Edge
deriving DecidableEq, Repr

def AxiomStatus.of (satisfied : Bool) : AxiomStatus :=
  if satisfied then .satisfied else .violated

/-- The name of an axiom kind in a specification. -/
def AxiomKind.text : AxiomKind → String
  | .acyclic => "acyclic"
  | .irreflexive => "irreflexive"
  | .empty => "empty"

/-- The edges that offend an axiom, other than a cycle. -/
def offendingEdgesOf (kind : AxiomKind) (edges : Finset Edge) : Finset Edge :=
  match kind with
  | .acyclic => ∅
  | .irreflexive => edges.filter (fun e => e.1 = e.2)
  | .empty => edges

def checkAxiom (graph : ExecutionGraph) (spec : AxiomSpec) : Except PyError AxiomResult := do
  let relations ← spec.relations.mapM graph.relation
  match spec.kind with
  | .acyclic =>
    let cycle := findLabeledCycle relations
    return { axiomName := spec.name, status := .of cycle.isNone, kind := spec.kind.text
             relations := spec.relations, cycle := cycle.getD [], offendingEdges := [] }
  | kind =>
    let offending := sortedEdges (offendingEdgesOf kind (allEdges relations))
    return { axiomName := spec.name, status := .of offending.isEmpty, kind := kind.text
             relations := spec.relations, cycle := [], offendingEdges := offending }

structure CandidateCheck where
  graph : ExecutionGraph
  axioms : List AxiomResult

def CandidateCheck.allowed (check : CandidateCheck) : Bool :=
  check.axioms.all (fun result => result.status = .satisfied)

/-- An outcome of the built-in model as an axiom result. -/
def RvwmoOutcome.toResult (outcome : RvwmoOutcome) : AxiomResult :=
  { axiomName := outcome.name, status := .of outcome.satisfied, kind := outcome.kind
    relations := outcome.relations, cycle := outcome.cycle
    offendingEdges := outcome.offendingEdges }

/-- The results of the built-in model. -/
def builtinResults (graph : ExecutionGraph) : Option BuiltinModel → Except PyError (List AxiomResult)
  | some .rvwmo => do
    let outcomes ← checkRvwmo graph
    return outcomes.map RvwmoOutcome.toResult
  | none => .ok []

def checkExecutionGraph (graph : ExecutionGraph) (axioms : List AxiomSpec)
    (builtinModel : Option BuiltinModel) : Except PyError CandidateCheck := do
  let builtin ← builtinResults graph builtinModel
  let results ← axioms.mapM (checkAxiom graph)
  return { graph, axioms := builtin ++ results }

inductive MemoryModelStatus where
  | allowed
  | forbidden
deriving DecidableEq, Repr

structure MemoryModelCheck where
  status : MemoryModelStatus
  candidates : List CandidateCheck

/-- The first allowed candidate of an allowed trace, the first candidate of a
forbidden one. -/
def MemoryModelCheck.representative (check : MemoryModelCheck) : Except PyError CandidateCheck :=
  match check.candidates with
  | [] => .error (.graphError "memory-model check has no candidates")
  | first :: rest =>
    match check.status with
    | .forbidden => .ok first
    | .allowed =>
      match (first :: rest).find? CandidateCheck.allowed with
      | some candidate => .ok candidate
      | none => .error .stopIteration

def checkTraceMemoryModel (trace : Trace) (spec : GraphModelSpec) (maxCandidates : Int) :
    Except PyError MemoryModelCheck := do
  let candidates ← forExecutionGraphs trace spec maxCandidates
    (fun graph => checkExecutionGraph graph spec.axioms spec.builtinModel)
  Except.require (candidates ≠ []) (.graphError "trace generated no execution-graph candidates")
  return { status := if candidates.any CandidateCheck.allowed then .allowed else .forbidden
           candidates }

end Umcm
