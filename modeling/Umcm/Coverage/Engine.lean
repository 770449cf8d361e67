import Umcm.Composition.Engine
import Umcm.Coverage.Glob
import Umcm.Solver.Completion

/-!
# Path coverage

A goal is a list of probes. `coverGoal` asks for every input case whether a
completion of its bounded problem passes all probes: the probes are compiled to
a constraint and to additional state requirements.
-/

namespace Umcm

open Except

inductive CoverageStatus where
  | covered
  | uncovered
  | unreachable
  | unknown
deriving DecidableEq, Repr

inductive ProbeKind where
  | event
  | transformation
  | stateTransition
  | interface
deriving DecidableEq, Repr

/-- What stands under `fields`. -/
inductive ProbeFields where
  | scalar (v : Value)
  | mapping (fields : Dict String Value)

/-- The value of a probe: a scalar, or a mapping of scalars with fields. -/
inductive ProbeValue where
  | scalar (v : Value)
  | mapping (entries : Dict String Value) (fields : Option ProbeFields)

structure CoverageProbe where
  kind : ProbeKind
  value : ProbeValue

structure CoverageGoal where
  id : String
  probes : List CoverageProbe

/-- An input case: the modules of its composition and its bounded problem. -/
structure PreparedCase where
  name : String
  modules : List LoadedModule
  problem : BoundedProblem

structure GoalResult where
  goal : CoverageGoal
  status : CoverageStatus
  reason : String
  inputName : Option String
  witness : Option Trace
  hiddenEventCount : Nat
  activeTransformations : List String
  exploredNodes : Nat

namespace Coverage

/-- `_matches`. -/
def matchesPattern (value pattern : String) : Bool := value = pattern || fnmatchcase value pattern

/-- `Literal(value, sort)`. -/
def literal (v : Value) (s : IrSort) : Except PyError Expr :=
  if s.acceptsLiteral v then .ok (.literal v s)
  else .error (.expressionTypeError s!"literal {v.repr} is not valid for sort {s.pyStr}")

/-- What a probe adds to the problem. -/
structure CompiledProbe where
  expression : Expr
  requirements : List StateRequirementInstance

/-! ## Events -/

/-- The pattern and the fields of an event probe. -/
def eventPattern : ProbeValue → Except PyError (String × Dict String Value)
  | .scalar v => .ok (v.pyStr, .empty)
  | .mapping entries fields =>
    let pattern := ((entries.get? "type").map Value.pyStr).getD "*"
    match fields with
    | none => .ok (pattern, .empty)
    | some (.mapping fields) => .ok (pattern, fields)
    | some (.scalar _) => .error (.coverageError "event probe fields must be a mapping")

/-- The attribute of the event that a field of a probe names. -/
def probedField (event : EventInstance) (eventType : EventType) (name : String) :
    Option (Expr × IrSort) :=
  if name = "cycle" then
    if event.hasCycle then some (.eventField event.id "cycle" .int, .int) else none
  else
    match eventType.field? name with
    | some spec =>
      if (event.fields.get? name).isSome then some (.eventField event.id name spec.sort, spec.sort)
      else none
    | none => none

/-- The comparisons of the fields, up to the first field that the event lacks. -/
def fieldPredicates (event : EventInstance) (eventType : EventType) :
    List (String × Value) → Except PyError (Option (List Expr))
  | [] => .ok (some [])
  | (name, expected) :: rest =>
    match probedField event eventType name with
    | none => .ok none
    | some (actual, sort) => do
      let expected ← literal expected sort
      let predicates ← fieldPredicates event eventType rest
      return predicates.map (fun predicates => .binary .eq actual expected :: predicates)

/-- The event occurs with the fields; `none` when it cannot. -/
def eventAlternative (problem : BoundedProblem) (pattern : String) (fields : Dict String Value)
    (event : EventInstance) : Except PyError (Option Expr) :=
  if matchesPattern event.eventType pattern then do
    let eventType ← problem.catalog.resolve event.eventType
    let predicates ← fieldPredicates event eventType fields.entries
    return predicates.map (fun predicates =>
      Expr.conjunction (.eventField event.id "occurs" .bool :: predicates))
  else .ok none

/-- `_event_probe`: the expression, or the reason why there is none. -/
def eventProbe (problem : BoundedProblem) (pattern : String) (fields : Dict String Value) :
    Except PyError (Except String CompiledProbe) := do
  let alternatives ← problem.events.mapM (eventAlternative problem pattern fields)
  match alternatives.reduceOption with
  | [] => return .error s!"event {quoted pattern} has no bounded slot/input"
  | alternatives => return .ok ⟨Expr.disjunction alternatives, []⟩

/-! ## Rules -/

def transformationPattern : ProbeValue → String
  | .scalar v => v.pyStr
  | .mapping entries _ => ((entries.get? "name").map Value.pyStr).getD "*"

/-- The activations of the rules that the pattern names. -/
def candidates (problem : BoundedProblem) (pattern : String) :
    List TransformationActivationInstance :=
  problem.transformationActivations.filter (fun item => matchesPattern item.transformation pattern)

/-- The guards of an activation as requirements. -/
def guardRequirements (namePrefix : String) (p : TransformationActivationInstance × Nat) :
    List StateRequirementInstance :=
  p.1.statePredicates.zipIdx.map (fun q =>
    { name := s!"{namePrefix}.activation.{p.2}.state.{q.2}"
      state := q.1.state
      cycle := q.1.cycle
      activation := p.1.expression
      op := q.1.op
      expected := q.1.expected
      origin := namePrefix })

def transformationProbe (problem : BoundedProblem) (pattern namePrefix : String) :
    Except String CompiledProbe :=
  match candidates problem pattern with
  | [] => .error s!"transformation {quoted pattern} has no bounded role binding"
  | items => .ok
    { expression := Expr.disjunction (items.map TransformationActivationInstance.expression)
      requirements := items.zipIdx.flatMap (guardRequirements namePrefix) }

/-! ## State cells -/

/-- `state_map[name]`. -/
def stateSort (problem : BoundedProblem) (name : String) : Except PyError IrSort :=
  match problem.spec.stateVariables.find? (fun cell => cell.name = name) with
  | some cell => .ok cell.sort
  | none => .error .keyError

/-- The update is active and writes the value. -/
def reaches (update : StateUpdateInstance) (value : Expr) : Expr :=
  Expr.conjunction [update.activation, .binary .eq update.value value]

/-- The update reaches the `to` value, which requires the `from` value before its
cycle. -/
def transitionAlternative (problem : BoundedProblem) (pattern namePrefix : String)
    (target : Value) (source : Option Value) (p : StateUpdateInstance × Nat) :
    Except PyError (Option CompiledProbe) :=
  if matchesPattern p.1.state pattern then do
    let sort ← stateSort problem p.1.state
    let value ← literal target sort
    match source with
    | none => return some ⟨reaches p.1 value, []⟩
    | some source => do
      let expected ← literal source sort
      return some ⟨reaches p.1 value,
        [{ name := s!"{namePrefix}.from.{p.2}"
           state := p.1.state
           cycle := p.1.cycle
           activation := reaches p.1 value
           op := .eq
           expected
           origin := namePrefix }]⟩
  else .ok none

/-- `_state_transition_probe`. -/
def stateTransitionProbe (problem : BoundedProblem) (value : ProbeValue) (namePrefix : String) :
    Except PyError (Except String CompiledProbe) :=
  match value with
  | .scalar _ => .error (.coverageError "state_transition probe must be a mapping")
  | .mapping entries _ =>
    match entries.get? "state", entries.get? "to" with
    | some state, some target => do
      let alternatives ← problem.stateUpdates.zipIdx.mapM
        (transitionAlternative problem state.pyStr namePrefix target (entries.get? "from"))
      match alternatives.reduceOption with
      | [] => return .error s!"state {quoted state.pyStr} has no bounded writer to {target.repr}"
      | alternatives =>
        return .ok ⟨Expr.disjunction (alternatives.map CompiledProbe.expression),
          alternatives.flatMap CompiledProbe.requirements⟩
    | _, _ => .error (.coverageError "state_transition requires state and to")

/-! ## Interfaces -/

/-- The event type of a port. -/
def portType? (modules : List LoadedModule) (moduleName portName : String) : Option String :=
  (modules.find? (fun m => m.referenceName = moduleName)).bind (fun m =>
    (m.spec.port? portName).map ModulePort.eventType)

def interfaceProbe (problem : BoundedProblem) (modules : List LoadedModule) (value : ProbeValue) :
    Except PyError (Except String CompiledProbe) :=
  match value with
  | .scalar _ => .error (.coverageError "interface probe must be a mapping")
  | .mapping entries _ =>
    let moduleName := ((entries.get? "module").map Value.pyStr).getD ""
    let portName := ((entries.get? "port").map Value.pyStr).getD ""
    match portType? modules moduleName portName with
    | none => .ok (.error s!"unknown public interface {moduleName}.{portName}")
    | some eventType => eventProbe problem eventType .empty

/-! ## Goals -/

/-- `_compile_probe`. -/
def compileProbe (problem : BoundedProblem) (modules : List LoadedModule) (probe : CoverageProbe)
    (namePrefix : String) : Except PyError (Except String CompiledProbe) :=
  match probe.kind with
  | .event => do
    let (pattern, fields) ← eventPattern probe.value
    eventProbe problem pattern fields
  | .transformation =>
    .ok (transformationProbe problem (transformationPattern probe.value) namePrefix)
  | .interface => interfaceProbe problem modules probe.value
  | .stateTransition => stateTransitionProbe problem probe.value namePrefix

def compileProbes (goal : CoverageGoal) (case : PreparedCase) :
    Except PyError (List (Except String CompiledProbe)) :=
  goal.probes.zipIdx.mapM (fun p =>
    compileProbe case.problem case.modules p.1 s!"coverage.{goal.id}.{p.2}")

/-- The reasons why probes could not be compiled. -/
def reasons (compiled : List (Except String CompiledProbe)) : List String :=
  compiled.filterMap (fun
    | .error reason => some reason
    | .ok _ => none)

/-- The query: the problem with the constraint of the goal and the requirements
of its probes. -/
def query (goal : CoverageGoal) (problem : BoundedProblem) (probes : List CompiledProbe) :
    BoundedProblem where
  catalog := problem.catalog
  sourceTrace := problem.sourceTrace
  spec := problem.spec
  events := problem.events
  constraints := problem.constraints ++
    [{ name := s!"coverage.goal.{goal.id}"
       expression := Expr.conjunction (probes.map CompiledProbe.expression)
       origin := s!"coverage:{goal.id}" }]
  stateRequirements := problem.stateRequirements ++ probes.flatMap CompiledProbe.requirements
  stateUpdates := problem.stateUpdates
  guardedForwards := problem.guardedForwards
  guardedSupports := problem.guardedSupports
  transformationActivations := problem.transformationActivations
  slotIds := problem.slotIds

/-- `_compile_goal`, of a case: the query, or the reasons why there is none. -/
def compileGoal (goal : CoverageGoal) (case : PreparedCase) :
    Except PyError (Except (List String) BoundedProblem) := do
  let compiled ← compileProbes goal case
  if reasons compiled = [] then
    return .ok (query goal case.problem (compiled.filterMap Except.toOption))
  else return .error (reasons compiled)

/-! ## The search over the cases -/

/-- Fewer added events, then fewer events, then an earlier last cycle. -/
abbrev Score := Nat ×ₗ Nat ×ₗ Nat

def lastCycle (trace : Trace) : Nat :=
  (trace.events.map (fun event =>
    match event.cycle with
    | .concrete c => c
    | _ => 0)).foldl max 0

/-- The variables of the loop. -/
structure CaseSearch where
  feasible : List (Score × PreparedCase × CompletionResult)
  missingReasons : List String
  solveReasons : List String
  sawUnknown : Bool
  totalNodes : Nat

def CaseSearch.start : CaseSearch := ⟨[], [], [], false, 0⟩

/-- What the body of the `try` statement yields. -/
def attempt (interpreter : Interpreter) (backend : Backend) (goal : CoverageGoal)
    (case : PreparedCase) : Except PyError (Except (List String) CompletionResult) := do
  let compiled ← compileGoal goal case
  match compiled with
  | .error reasons => return .error reasons
  | .ok problem => .ok <$> completeProblem problem interpreter backend

/-- Record the result of a solver call. -/
def CaseSearch.record (search : CaseSearch) (case : PreparedCase) (result : CompletionResult) :
    Except PyError CaseSearch :=
  let search := { search with totalNodes := search.totalNodes + result.exploredNodes }
  match result.status with
  | .feasible =>
    match result.completedTrace with
    | none => .error .assertionError
    | some trace =>
      let score : Score :=
        toLex (result.addedEventIds.length, toLex (trace.events.length, lastCycle trace))
      .ok { search with feasible := search.feasible ++ [(score, case, result)] }
  | .unknown => .ok { search with
      sawUnknown := true
      solveReasons := search.solveReasons ++ [s!"{case.name}: {result.reason}"] }
  | .infeasible => .ok { search with
      solveReasons := search.solveReasons ++ [s!"{case.name}: {result.reason}"] }

def coverCase (interpreter : Interpreter) (backend : Backend) (goal : CoverageGoal)
    (search : CaseSearch) (case : PreparedCase) : Except PyError CaseSearch :=
  match attempt interpreter backend goal case with
  | .error e =>
    match e.umcmMessage? with
    | some message => .ok { search with
        solveReasons := search.solveReasons ++ [s!"{case.name}: {message}"] }
    | none => .error e
  | .ok (.error reasons) =>
    let listed := "; ".intercalate reasons
    .ok { search with missingReasons := search.missingReasons ++ [s!"{case.name}: {listed}"] }
  | .ok (.ok result) => search.record case result

/-- A result without a witness. -/
def missed (goal : CoverageGoal) (status : CoverageStatus) (reason : String) (nodes : Nat) :
    GoalResult :=
  { goal, status, reason, inputName := none, witness := none, hiddenEventCount := 0
    activeTransformations := [], exploredNodes := nodes }

/-- The first entry with the smallest score. -/
def best : List (Score × PreparedCase × CompletionResult) →
    Option (Score × PreparedCase × CompletionResult)
  | [] => none
  | entry :: rest => some (rest.foldl (fun b e => if e.1 < b.1 then e else b) entry)

def verdict (goal : CoverageGoal) (search : CaseSearch) : GoalResult :=
  match best search.feasible with
  | some (_, case, result) =>
    { goal
      status := .covered
      reason := "bounded witness found"
      inputName := some case.name
      witness := result.completedTrace
      hiddenEventCount := result.addedEventIds.length
      activeTransformations := sortedList
        (result.activeTransformations.map ActiveTransformation.transformation).toFinset
      exploredNodes := search.totalNodes }
  | none =>
    let missing := " | ".intercalate search.missingReasons
    let solving := " | ".intercalate search.solveReasons
    let all := " | ".intercalate (search.missingReasons ++ search.solveReasons)
    if search.missingReasons ≠ [] ∧ search.solveReasons = [] then
      missed goal .unreachable s!"no bounded producer/binding: {missing}" search.totalNodes
    else if search.sawUnknown then
      missed goal .unknown s!"solver bound or backend was inconclusive: {solving}" search.totalNodes
    else
      missed goal .uncovered s!"bindings exist but guards/state/bounds reject them: {all}"
        search.totalNodes

end Coverage

open Coverage in
/-- `_cover_goal`. -/
def coverGoal (interpreter : Interpreter) (backend : Backend) (goal : CoverageGoal)
    (cases : List PreparedCase) : Except PyError GoalResult :=
  if cases = [] then .ok (missed goal .unreachable "model has no bounded input cases" 0)
  else do
    let search ← cases.foldlM (coverCase interpreter backend goal) .start
    return verdict goal search

end Umcm
