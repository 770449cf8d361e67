import Umcm.Data.Sorted
import Umcm.Solver.Problem

/-!
# State simulation

The simulation of the state cells for one assignment. The requirements of a
cycle read the cells before it, then the updates of the cycle are applied
together, and cells that are not written keep their value. Guarded rules are
checked against the cells before the cycles of their anchors.
-/

namespace Umcm

structure StateChange where
  state : String
  before : Value
  after : Value
  origins : List String

structure StateStep where
  cycle : Nat
  before : Dict String Value
  after : Dict String Value
  activeRequirements : List String
  activeUpdates : List String
  changes : List StateChange

structure StateCheckResult where
  feasible : Bool
  initialState : Dict String Value
  finalState : Dict String Value
  steps : List StateStep
  reason : String

/-- Why the simulation stops early: an exception, or a `return` of an
infeasible result. -/
inductive StateAbort where
  | raised (e : PyError)
  | infeasible (result : StateCheckResult)

def StateCheckResult.rejected (reason : String) (initialState finalState : Dict String Value)
    (steps : List StateStep) : StateCheckResult :=
  { feasible := false, initialState, finalState, steps, reason }

def reject {α : Type} (result : StateCheckResult) : Except StateAbort α := .error (.infeasible result)

def BoundedProblem.context (problem : BoundedProblem) (interpreter : Interpreter)
    (assignment : Dict String Value) : EvaluationContext :=
  { events := problem.eventMap, assignment, interpreter }

/-- `repr` of a result. -/
def Result.repr : Result → String
  | some v => v.repr
  | none => "UNKNOWN"

namespace CompareOp

/-- `_compare_state`. -/
def compare (op : CompareOp) (actual expected : Value) : Except PyError Bool :=
  match op with
  | eq => .ok (actual.pyEq expected)
  | ne => .ok (!actual.pyEq expected)
  | lt => actual.pyLt expected
  | le => actual.pyLe expected
  | gt => expected.pyLt actual
  | ge => expected.pyLe actual

def relation : CompareOp → String
  | eq => "=="
  | ne => "!="
  | lt => "<"
  | le => "<="
  | gt => ">"
  | ge => ">="

end CompareOp

/-- `_valid_cycle`, with the cycle. -/
def validCycle (horizon : Nat) : Result → Option Nat
  | some (.int n) => if 0 ≤ n ∧ n ≤ horizon then some n.toNat else none
  | _ => none

namespace StateCheck

variable (context : EvaluationContext) (horizon : Nat)

def concrete (e : Expr) : Except StateAbort Result := (context.evaluate e).mapError .raised

def concreteTerm (t : Term) : Except StateAbort Result :=
  (context.evaluateTerm t).mapError .raised

/-! ## Initial state and active effects -/

def setInitial (state : Dict String Value) (cell : StateVariable) :
    Except StateAbort (Dict String Value) := do
  let value ← concreteTerm context cell.initial
  match value with
  | some v => return state.insert cell.name v
  | none => reject (.rejected s!"initial state {quoted cell.name} remained unresolved"
      .empty .empty [])

def initialState (cells : List StateVariable) : Except StateAbort (Dict String Value) :=
  cells.foldlM (setInitial context) .empty

/-- The cycle and the value of an effect that is known to be active. -/
def activeValue (initial : Dict String Value) (label name : String) (cycle value : Expr) :
    Except StateAbort (Nat × Value) := do
  let at_ ← concrete context cycle
  let v ← concrete context value
  match validCycle horizon at_, v with
  | some c, some v => return (c, v)
  | none, _ => reject (.rejected s!"{label} {quoted name} has invalid cycle {at_.repr}"
      initial .empty [])
  | some _, none => reject (.rejected s!"{label} {quoted name} remained unresolved"
      initial .empty [])

/-- The cycle and the value of an effect, if it is active. -/
def activeEffect (initial : Dict String Value) (label name : String)
    (activation cycle value : Expr) : Except StateAbort (Option (Nat × Value)) := do
  let active ← concrete context activation
  match active with
  | none => reject (.rejected s!"activation of {quoted name} remained unresolved"
      initial .empty [])
  | some (.bool true) => some <$> activeValue context horizon initial label name cycle value
  | some _ => return none

structure ActiveRequirement where
  requirement : StateRequirementInstance
  cycle : Nat
  expected : Value

structure ActiveUpdate where
  update : StateUpdateInstance
  cycle : Nat
  value : Value

def activeRequirement (initial : Dict String Value) (requirement : StateRequirementInstance) :
    Except StateAbort (Option ActiveRequirement) := do
  let active ← activeEffect context horizon initial "state requirement" requirement.name
    requirement.activation requirement.cycle requirement.expected
  return active.map (fun p => { requirement, cycle := p.1, expected := p.2 })

def activeUpdate (initial : Dict String Value) (update : StateUpdateInstance) :
    Except StateAbort (Option ActiveUpdate) := do
  let active ← activeEffect context horizon initial "state update" update.name
    update.activation update.cycle update.value
  return active.map (fun p => { update, cycle := p.1, value := p.2 })

/-! ## Cycles -/

/-- The state after some cycles, the steps and the states before the cycles. -/
structure Simulation where
  state : Dict String Value
  steps : List StateStep
  preStates : List (Dict String Value)

/-- `state[name]`. -/
def cell (state : Dict String Value) (name : String) : Except StateAbort Value :=
  match state.get? name with
  | some v => .ok v
  | none => .error (.raised .keyError)

def checkRequirement (initial : Dict String Value) (sim : Simulation)
    (active : ActiveRequirement) : Except StateAbort Unit := do
  let actual ← cell sim.state active.requirement.state
  let holds ← (active.requirement.op.compare actual active.expected).mapError .raised
  if holds then return ()
  else reject (.rejected
    s!"cycle {active.cycle}: {active.requirement.name} requires {active.requirement.state} {active.requirement.op.relation} {active.expected.repr}, but pre-state is {actual.repr}"
    initial sim.state sim.steps)

/-- The writes of a cycle to one cell. -/
def writesTo (updates : List ActiveUpdate) (name : String) : List ActiveUpdate :=
  updates.filter (fun active => active.update.state = name)

/-- What writing the cells has done so far. -/
structure Writing where
  state : Dict String Value
  activeUpdates : List String
  changes : List StateChange

def renderWrites (writes : List ActiveUpdate) : String :=
  ", ".intercalate (writes.map (fun active => s!"{active.update.name}={active.value.repr}"))

/-- Apply the writes to one cell, which have to agree. -/
def writeCell (initial : Dict String Value) (sim : Simulation) (cycle : Nat)
    (updates : List ActiveUpdate) (writing : Writing) (name : String) :
    Except StateAbort Writing :=
  match writesTo updates name with
  | [] => .ok writing
  | first :: rest =>
    if rest.all (fun active => active.value.pyEq first.value) then do
      let old ← cell writing.state name
      let origins := (first :: rest).map (fun active => active.update.name)
      return { state := writing.state.insert name first.value
               activeUpdates := writing.activeUpdates ++ origins
               changes := if old.pyEq first.value then writing.changes
                 else writing.changes ++
                   [{ state := name, before := old, after := first.value, origins }] }
    else reject (.rejected
      s!"cycle {cycle}: conflicting atomic writes to {name}: {renderWrites (first :: rest)}"
      initial writing.state sim.steps)

/-- One cycle: the requirements on the state before it, then the writes. -/
def simulateCycle (initial : Dict String Value) (requirements : List ActiveRequirement)
    (updates : List ActiveUpdate) (sim : Simulation) (cycle : Nat) :
    Except StateAbort Simulation := do
  let required := requirements.filter (fun active => active.cycle = cycle)
  let written := updates.filter (fun active => active.cycle = cycle)
  required.forM (checkRequirement initial sim)
  let names := sortedList (written.map (fun active => active.update.state)).toFinset
  let writing ← names.foldlM (writeCell initial sim cycle written) ⟨sim.state, [], []⟩
  let step : StateStep :=
    { cycle, before := sim.state, after := writing.state
      activeRequirements := required.map (fun active => active.requirement.name)
      activeUpdates := writing.activeUpdates, changes := writing.changes }
  return { state := writing.state
           steps := if required.isEmpty && written.isEmpty then sim.steps
             else sim.steps ++ [step]
           preStates := sim.preStates ++ [sim.state] }

def simulate (initial : Dict String Value) (requirements : List ActiveRequirement)
    (updates : List ActiveUpdate) : Except StateAbort Simulation :=
  (List.range (horizon + 1)).foldlM (simulateCycle initial requirements updates)
    ⟨initial, [], []⟩

/-! ## Guarded rules -/

/-- The infeasible result of a guarded rule. -/
def guardedError {α : Type} (initial : Dict String Value) (sim : Simulation) (reason : String) :
    Except StateAbort α := reject (.rejected reason initial sim.state sim.steps)

/-- One predicate, with the label its errors carry. -/
def guardPredicateHolds (initial : Dict String Value) (sim : Simulation) (label : String)
    (predicate : GuardPredicateInstance) : Except StateAbort Bool := do
  let at_ ← concrete context predicate.cycle
  let expected ← concrete context predicate.expected
  match validCycle horizon at_, expected with
  | some c, some v => do
    let actual ← cell ((sim.preStates[c]?).getD .empty) predicate.state
    (predicate.op.compare actual v).mapError .raised
  | _, _ => guardedError initial sim (label ++
      s!": guard predicate for {predicate.state} remained unresolved")

/-- `_guard_predicates_hold`: up to the first predicate that does not hold. -/
def guardPredicatesHold (initial : Dict String Value) (sim : Simulation) (label : String) :
    List GuardPredicateInstance → Except StateAbort Bool
  | [] => .ok true
  | predicate :: rest => do
    let holds ← guardPredicateHolds context horizon initial sim label predicate
    if holds then guardPredicatesHold initial sim label rest else .ok false

def checkForward (initial : Dict String Value) (sim : Simulation) (item : GuardedForwardInstance) :
    Except StateAbort Unit := do
  let label := s!"state-guarded transition {item.name}"
  let antecedent ← concrete context item.antecedent
  match antecedent with
  | none => guardedError initial sim s!"{label} antecedent remained unresolved"
  | some (.bool true) => do
    let guards ← guardPredicatesHold context horizon initial sim label item.predicates
    if guards then do
      let consequent ← concrete context item.consequent
      if consequent.isTrue then return ()
      else guardedError initial sim (label ++
        " is enabled by pre-state but no matching output event occurs")
    else return ()
  | some _ => return ()

/-- Whether one of the candidates holds with its guards. -/
def supported (initial : Dict String Value) (sim : Simulation) (label : String) :
    List GuardedSupportCandidate → Except StateAbort Bool
  | [] => .ok false
  | candidate :: rest => do
    let expression ← concrete context candidate.expression
    if expression.isTrue then do
      let guards ← guardPredicatesHold context horizon initial sim label candidate.predicates
      if guards then .ok true else supported initial sim label rest
    else supported initial sim label rest

def checkSupport (initial : Dict String Value) (sim : Simulation) (item : GuardedSupportInstance) :
    Except StateAbort Unit := do
  let label := s!"state-guarded support {item.name}"
  let antecedent ← concrete context item.antecedent
  match antecedent with
  | none => guardedError initial sim s!"{label} antecedent remained unresolved"
  | some (.bool true) => do
    let found ← supported context horizon initial sim label item.supports
    if found then return ()
    else guardedError initial sim (label ++
      " has an occurring output without an enabled input/state witness")
  | some _ => return ()

end StateCheck

open StateCheck in
/-- The simulation of one assignment, up to an early stop. -/
def simulateState (problem : BoundedProblem) (context : EvaluationContext) :
    Except StateAbort StateCheckResult := do
  let horizon := problem.spec.horizon
  let initial ← initialState context problem.spec.stateVariables
  let requirements ← problem.stateRequirements.mapM (activeRequirement context horizon initial)
  let updates ← problem.stateUpdates.mapM (activeUpdate context horizon initial)
  let sim ← simulate horizon initial (requirements.filterMap id) (updates.filterMap id)
  problem.guardedForwards.forM (checkForward context horizon initial sim)
  problem.guardedSupports.forM (checkSupport context horizon initial sim)
  return { feasible := true, initialState := initial, finalState := sim.state
           steps := sim.steps, reason := "" }

/-- `check_state_semantics`. -/
def checkStateSemantics (problem : BoundedProblem) (interpreter : Interpreter)
    (assignment : Dict String Value) : Except PyError StateCheckResult :=
  match simulateState problem (problem.context interpreter assignment) with
  | .ok result => .ok result
  | .error (.infeasible result) => .ok result
  | .error (.raised e) => .error e

end Umcm
