import Umcm.Data.Sorted
import Umcm.Solver.State

/-!
# The finite backend

Depth-first search over the symbols of a bounded problem and their finite
domains. A partial assignment on which a constraint is false is abandoned; a
full one on which all constraints hold is simulated.
-/

namespace Umcm

inductive FiniteStatus where
  | sat
  | unsat
  | unknown
deriving DecidableEq, Repr

structure FiniteVariable where
  name : String
  sort : IrSort
  domain : List Value

structure FiniteSolveResult where
  status : FiniteStatus
  assignment : Dict String Value
  exploredNodes : Nat
  reason : String
  stateResult : Option StateCheckResult

/-! ## Variables -/

/-- The symbols seen so far, and by sort the values seen so far. A set keeps the
first of several equal values. -/
structure Recorded where
  symbols : Dict String IrSort
  concrete : Dict IrSort (List Value)

namespace Recorded

def initial : Recorded := ⟨.empty, .empty⟩

def values (recorded : Recorded) (s : IrSort) : List Value := (recorded.concrete.get? s).getD []

/-- `concrete.setdefault(sort, set()).add(value)`. -/
def addValue (recorded : Recorded) (s : IrSort) (v : Value) : Recorded :=
  let seen := recorded.values s
  { recorded with
    concrete := recorded.concrete.insert s
      (if seen.any (fun w => w.pyEq v) then seen else seen ++ [v]) }

def addSymbol (recorded : Recorded) (reference : String × IrSort) : Except PyError Recorded := do
  let (name, sort) := reference
  let previous := (recorded.symbols.get? name).getD sort
  Except.require (previous = sort) (.solverError
    s!"symbol {quoted name} is used with incompatible sorts {previous.pyStr} and {sort.pyStr}")
  return { recorded with symbols := recorded.symbols.insert name sort }

/-- `record_expression`. -/
def addExpression (recorded : Recorded) (e : Expr) : Except PyError Recorded := do
  let recorded ← e.symbols.foldlM addSymbol recorded
  return e.literals.foldl (fun recorded p => recorded.addValue p.2 p.1) recorded

def addTerm (recorded : Recorded) (s : IrSort) : Term → Except PyError Recorded
  | .value v => .ok (recorded.addValue s v)
  | .expr e => recorded.addExpression e

def addOccurs (recorded : Recorded) : Occurs → Except PyError Recorded
  | .known b => .ok (recorded.addValue .bool (.bool b))
  | .symbolic e => recorded.addExpression e

def addCycle (recorded : Recorded) : EventCycle → Except PyError Recorded
  | .absent => .ok recorded
  | .concrete n => .ok (recorded.addValue .int (.int n))
  | .symbolic e => recorded.addExpression e

def addField (eventType : EventType) (recorded : Recorded) (p : String × Term) :
    Except PyError Recorded :=
  match eventType.field? p.1 with
  | some spec => recorded.addTerm spec.sort p.2
  | none => .error .keyError

def addEvent (catalog : EventCatalog) (recorded : Recorded) (event : EventInstance) :
    Except PyError Recorded := do
  let eventType ← catalog.resolve event.eventType
  let recorded ← recorded.addOccurs event.occurs
  let recorded ← recorded.addCycle event.cycle
  event.fields.entries.foldlM (addField eventType) recorded

/-- Everything the problem mentions. -/
def ofProblem (problem : BoundedProblem) : Except PyError Recorded := do
  let recorded ← problem.events.foldlM (addEvent problem.catalog) .initial
  let recorded ← (problem.constraints.map NamedConstraint.expression).foldlM addExpression recorded
  let recorded ← problem.spec.stateVariables.foldlM
    (fun recorded cell => recorded.addTerm cell.sort cell.initial) recorded
  let recorded ← (problem.stateRequirements.flatMap (fun requirement =>
    [requirement.activation, requirement.cycle, requirement.expected])).foldlM addExpression recorded
  (problem.stateUpdates.flatMap (fun update =>
    [update.activation, update.cycle, update.value])).foldlM addExpression recorded

end Recorded

/-- The integers among the values; booleans do not count. -/
def integersOf (values : List Value) : List Int :=
  values.filterMap (fun v => if v.isBool then none else v.asInt?)

def integerDomain (bound : Nat) (observed : List Value) : List Value :=
  (sortedList (((List.range (bound + 1)).map Int.ofNat) ++ integersOf observed).toFinset).map
    Value.int

/-- The order of a domain of names: by type, then by text. -/
def Value.nameOrder (a b : Value) : Prop :=
  toLex (a.typeName, a.repr) ≤ toLex (b.typeName, b.repr)

instance : DecidableRel Value.nameOrder := fun a b =>
  inferInstanceAs (Decidable (toLex (a.typeName, a.repr) ≤ toLex (b.typeName, b.repr)))

/-- `_domain_for`. -/
def domainFor (s : IrSort) (observed : List Value) (horizon : Nat) : Except PyError (List Value) :=
  if s.isBool then .ok [.bool false, .bool true]
  else if s.isInt then .ok (integerDomain horizon observed)
  else if s.isBitvector then .ok (integerDomain (min (2 ^ s.width.getD 0 - 1) horizon) observed)
  else if observed.isEmpty then .error (.solverError
    s!"finite backend has no concrete domain values for sort {s.pyStr}")
  else .ok (observed.insertionSort Value.nameOrder)

namespace FiniteVariable

/-- Occurrences first, bounded integers last. -/
def rank (symbol : FiniteVariable) : Nat :=
  if symbol.sort.isBool then 0
  else if symbol.sort.isBitvector then 2
  else if symbol.sort.isInt then 3
  else 1

def priority (symbol : FiniteVariable) : Nat ×ₗ Nat ×ₗ String :=
  toLex (symbol.rank, toLex (symbol.domain.length, symbol.name))

end FiniteVariable

/-- `_build_variables`. -/
def buildVariables (problem : BoundedProblem) : Except PyError (List FiniteVariable) := do
  let recorded ← Recorded.ofProblem problem
  let unsorted ← recorded.symbols.entries.mapM (fun p => do
    let domain ← domainFor p.2 (recorded.values p.2) problem.spec.horizon
    return { name := p.1, sort := p.2, domain : FiniteVariable })
  return unsorted.insertionSort (fun a b => a.priority ≤ b.priority)

/-! ## Search -/

/-- The variables that the nested functions of the search share. -/
structure SearchState where
  assignment : Dict String Value
  explored : Nat
  hitUnknownLeaf : Bool
  lastStateFailure : String
  winning : Option StateCheckResult

abbrev Found := Option (Dict String Value)

namespace FiniteSearch

variable (problem : BoundedProblem) (interpreter : Interpreter) (nodeLimit : Nat)

/-- `constraints_consistent`: no constraint is false. -/
def consistent (context : EvaluationContext) : List NamedConstraint → Except PyError Bool
  | [] => .ok true
  | c :: rest => do
    let value ← context.evaluate c.expression
    if value.isFalse then .ok false else consistent context rest

/-- A full assignment on which no constraint is false. -/
def leaf (s : SearchState) : Except PyError (Found × SearchState) := do
  let context := problem.context interpreter s.assignment
  let values ← problem.constraints.mapM (fun c => context.evaluate c.expression)
  if values.all Result.isTrue then do
    let result ← checkStateSemantics problem interpreter s.assignment
    if result.feasible then return (some s.assignment, { s with winning := some result })
    else return (none, { s with lastStateFailure := result.reason })
  else return (none, { s with hitUnknownLeaf := s.hitUnknownLeaf || values.any Option.isNone })

/-- The loop over the domain of a variable. `next` searches the remaining
variables. -/
def tryValues (next : SearchState → Except PyError (Found × SearchState)) (name : String) :
    List Value → SearchState → Except PyError (Found × SearchState)
  | [], s => .ok (none, { s with assignment := s.assignment.erase name })
  | value :: values, s =>
    next { s with assignment := s.assignment.insert name value } >>= fun p =>
      if p.1.isSome then .ok p
      else if nodeLimit < p.2.explored then
        .ok (none, { p.2 with assignment := p.2.assignment.erase name })
      else tryValues next name values p.2

/-- What every call of `search` does first; `expand` is the rest of the call. -/
def enter (expand : SearchState → Except PyError (Found × SearchState)) (s : SearchState) :
    Except PyError (Found × SearchState) :=
  let s := { s with explored := s.explored + 1 }
  if nodeLimit < s.explored then .ok (none, s)
  else
    consistent (problem.context interpreter s.assignment) problem.constraints >>= fun ok =>
      if ok then expand s else .ok (none, s)

/-- `search`, on the variables from the index on. -/
def search : List FiniteVariable → SearchState → Except PyError (Found × SearchState)
  | [] => enter problem interpreter nodeLimit (leaf problem interpreter)
  | symbol :: rest =>
    enter problem interpreter nodeLimit
      (tryValues nodeLimit (search rest) symbol.name symbol.domain)

def start : SearchState :=
  { assignment := .empty, explored := 0, hitUnknownLeaf := false, lastStateFailure := ""
    winning := none }

end FiniteSearch

/-- The result of a finished search. -/
def finiteResult (problem : BoundedProblem) (nodeLimit : Nat) (witness : Found)
    (s : SearchState) : FiniteSolveResult :=
  match witness with
  | some assignment =>
    { status := .sat, assignment, exploredNodes := s.explored, reason := ""
      stateResult := s.winning }
  | none =>
    if nodeLimit < s.explored then
      { status := .unknown, assignment := .empty, exploredNodes := s.explored
        reason := s!"finite search exceeded node limit {nodeLimit}", stateResult := none }
    else if s.hitUnknownLeaf then
      { status := .unknown, assignment := .empty, exploredNodes := s.explored
        reason := "some fully assigned constraints still contained unknown values"
        stateResult := none }
    else
      let reason := s!"no assignment within cycle horizon 0..{problem.spec.horizon} and observed finite domains"
      { status := .unsat, assignment := .empty, exploredNodes := s.explored
        reason := if s.lastStateFailure = "" then reason
          else reason ++ s!"; last state rejection: {s.lastStateFailure}"
        stateResult := none }

/-- `solve_finite`. -/
def solveFinite (problem : BoundedProblem) (interpreter : Interpreter) (nodeLimit : Nat) :
    Except PyError FiniteSolveResult := do
  let toAssign ← buildVariables problem
  let found ← FiniteSearch.search problem interpreter nodeLimit toAssign FiniteSearch.start
  return finiteResult problem nodeLimit found.1 found.2

end Umcm
