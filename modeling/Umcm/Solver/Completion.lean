import Umcm.Solver.Z3

/-!
# Completion

The construction of a completed trace from the assignment a backend reports:
the occurring events with concrete attributes, and the rules that are active.
-/

namespace Umcm

inductive CompletionStatus where
  | feasible
  | infeasible
  | unknown
deriving DecidableEq, Repr

/-- An active rule with its binding. -/
structure ActiveTransformation where
  name : String
  transformation : String
  binding : RoleBinding
deriving DecidableEq

structure CompletionResult where
  status : CompletionStatus
  backend : String
  completedTrace : Option Trace
  assignment : Dict String Value
  addedEventIds : List String
  exploredNodes : Nat
  reason : String
  instantiatedConstraintCount : Nat
  initialState : Dict String Value
  finalState : Dict String Value
  stateSteps : List StateStep
  activeTransformations : List ActiveTransformation

/-- A backend with its parameters. -/
inductive Backend where
  | finite (nodeLimit : Nat)
  | z3 (query : SmtQuery) (maxStateRejections : Nat)

def Backend.name : Backend → String
  | finite _ => "finite"
  | z3 _ _ => "z3"

def Backend.solve (backend : Backend) (problem : BoundedProblem) (interpreter : Interpreter) :
    Except PyError FiniteSolveResult :=
  match backend with
  | finite nodeLimit => solveFinite problem interpreter nodeLimit
  | z3 query maxStateRejections => solveZ3 problem interpreter query maxStateRejections

namespace Completion

/-! ## The completed trace -/

section Materialize

variable (context : EvaluationContext)

/-- `_concrete`, of the value at a path. -/
def concrete (term : Term) (path : String) : Except PyError Value := do
  let result ← context.evaluateTerm term
  match result with
  | some v => return v
  | none => .error (.completionError s!"completion left {path} unresolved")

/-- A non-negative integer that is not a boolean. -/
def validNat : Value → Option Nat
  | .int n => if 0 ≤ n then some n.toNat else none
  | _ => none

def occursOf (event : EventInstance) : Except PyError Bool := do
  let value ← concrete context event.occursTerm s!"{event.id}.occurs"
  match value with
  | .bool b => return b
  | _ => .error (.completionError
      s!"completed occurrence value for {quoted event.id} is not boolean")

def cycleOf (event : EventInstance) : Except PyError (Option Nat) :=
  if event.hasCycle then do
    let value ← concrete context event.cycleTerm s!"{event.id}.cycle"
    match validNat value with
    | some n => return some n
    | none => .error (.completionError
        s!"completed cycle for {quoted event.id} is invalid: {value.repr}")
  else .ok none

def fieldsOf (event : EventInstance) : Except PyError (Dict String Term) := do
  let entries ← event.fields.entries.mapM (fun p => do
    let v ← concrete context p.2 s!"{event.id}.{p.1}"
    return (p.1, Term.value v))
  return .ofList entries

/-- The event with concrete attributes, if it occurs. -/
def materializeEvent (event : EventInstance) : Except PyError (Option EventInstance) := do
  let occurs ← occursOf context event
  if occurs then do
    let cycle ← cycleOf context event
    let fields ← fieldsOf context event
    return some (event.concretize fields cycle)
  else return none

/-- `_materialize_trace`. -/
def materializeTrace (problem : BoundedProblem) : Except PyError Trace := do
  let events ← problem.events.mapM (materializeEvent context)
  Trace.make (events.filterMap id) problem.sourceTrace.constraints false

end Materialize

/-! ## Active rules -/

section Active

variable (context : EvaluationContext)

/-- The state before a cycle, from the steps of the simulation. -/
def stateBefore (state : StateCheckResult) (cycle : Int) : Dict String Value :=
  match (state.steps.filter (fun step => step.cycle < cycle)).getLast? with
  | some step => step.after
  | none => state.initialState

/-- The comparison a guard names; all six are evaluated. -/
def comparison (op : CompareOp) (actual expected : Value) : Except PyError Bool := do
  let lt ← actual.pyLt expected
  let le ← actual.pyLe expected
  let gt ← expected.pyLt actual
  let ge ← expected.pyLe actual
  return match op with
    | .eq => actual.pyEq expected
    | .ne => !actual.pyEq expected
    | .lt => lt
    | .le => le
    | .gt => gt
    | .ge => ge

def statePredicateHolds (state : StateCheckResult) (predicate : GuardPredicateInstance) :
    Except PyError Bool := do
  let cycle ← context.evaluate predicate.cycle
  let expected ← context.evaluate predicate.expected
  match cycle with
  | some (.int n) =>
    match (stateBefore state n).get? predicate.state, expected with
    | some actual, some v => comparison predicate.op actual v
    | _, _ => return false
  | _ => return false

/-- `_state_predicates_hold`: up to the first predicate that does not hold. -/
def statePredicatesHold (state : StateCheckResult) :
    List GuardPredicateInstance → Except PyError Bool
  | [] => .ok true
  | predicate :: rest => do
    let holds ← statePredicateHolds context state predicate
    if holds then statePredicatesHold state rest else .ok false

/-- Without a simulation no guard holds. -/
def guardsHold (state : Option StateCheckResult) (predicates : List GuardPredicateInstance) :
    Except PyError Bool :=
  match predicates, state with
  | [], _ => .ok true
  | _, none => .ok false
  | predicates, some state => statePredicatesHold context state predicates

def activeTransformation (state : Option StateCheckResult)
    (candidate : TransformationActivationInstance) :
    Except PyError (Option ActiveTransformation) := do
  let result ← context.evaluate candidate.expression
  if result.isTrue then do
    let guards ← guardsHold context state candidate.statePredicates
    return if guards then some ⟨candidate.name, candidate.transformation, candidate.binding⟩
      else none
  else return none

/-- `_active_transformations`, in the order of the rules and their instances. -/
def activeTransformations (problem : BoundedProblem) (state : Option StateCheckResult) :
    Except PyError (List ActiveTransformation) := do
  let active ← problem.transformationActivations.mapM (activeTransformation context state)
  return (active.filterMap id).insertionSort (fun a b =>
    toLex (a.transformation, a.name) ≤ toLex (b.transformation, b.name))

end Active

end Completion

/-- The result without a completed trace. -/
def CompletionResult.failed (status : CompletionStatus) (backend : String)
    (problem : BoundedProblem) (solved : FiniteSolveResult) : CompletionResult where
  status := status
  backend := backend
  completedTrace := none
  assignment := .empty
  addedEventIds := []
  exploredNodes := solved.exploredNodes
  reason := solved.reason
  instantiatedConstraintCount := problem.constraints.length
  initialState := .empty
  finalState := .empty
  stateSteps := []
  activeTransformations := []

/-- The result for an assignment the backend reports. -/
def completeSat (problem : BoundedProblem) (interpreter : Interpreter) (backend : String)
    (solved : FiniteSolveResult) : Except PyError CompletionResult := do
  let context := problem.context interpreter solved.assignment
  let completed ← Completion.materializeTrace context problem
  completed.validate problem.catalog false
  let active ← Completion.activeTransformations context problem solved.stateResult
  return { status := .feasible
           backend
           completedTrace := some completed
           assignment := solved.assignment
           addedEventIds := (completed.events.map EventInstance.id).filter (· ∈ problem.slotIds)
           exploredNodes := solved.exploredNodes
           reason := ""
           instantiatedConstraintCount := problem.constraints.length
           initialState := (solved.stateResult.map StateCheckResult.initialState).getD .empty
           finalState := (solved.stateResult.map StateCheckResult.finalState).getD .empty
           stateSteps := (solved.stateResult.map StateCheckResult.steps).getD []
           activeTransformations := active }

/-- `complete_problem`. -/
def completeProblem (problem : BoundedProblem) (interpreter : Interpreter) (backend : Backend) :
    Except PyError CompletionResult := do
  let solved ← backend.solve problem interpreter
  match solved.status with
  | .unsat => .ok (.failed .infeasible backend.name problem solved)
  | .unknown => .ok (.failed .unknown backend.name problem solved)
  | .sat => completeSat problem interpreter backend.name solved

end Umcm
