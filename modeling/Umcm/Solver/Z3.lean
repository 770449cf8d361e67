import Umcm.Solver.Finite

/-!
# The Z3 backend

The refinement loop around the SMT solver. A model that the simulation rejects
is blocked and the solver is asked again. The query for a list of blocked
models, from the encoding of the problem to the decoding of the answer, is a
parameter: what is proved about the loop holds for every answer.
-/

namespace Umcm

/-- The decoded answer to a query. -/
inductive SmtAnswer where
  | unsat
  | model (assignment : Dict String Value)
  | other (status : String)
  | raised (e : PyError)

abbrev SmtQuery := List (Dict String Value) → SmtAnswer

namespace Z3Loop

variable (problem : BoundedProblem) (interpreter : Interpreter) (query : SmtQuery)

def missing (vs : List FiniteVariable) (assignment : Dict String Value) : List String :=
  (vs.map FiniteVariable.name).filter (fun name => (assignment.get? name).isNone)

/-- The rounds from `iteration` on, of which `rounds` are left. -/
def refine (vs : List FiniteVariable) (maxStateRejections : Nat) :
    Nat → Nat → List (Dict String Value) → String → Except PyError FiniteSolveResult
  | 0, _, _, lastReason =>
    .ok { status := .unknown, assignment := .empty, exploredNodes := maxStateRejections + 1
          reason := s!"too many state-rejected SMT candidates; last: {lastReason}"
          stateResult := none }
  | rounds + 1, iteration, blocked, lastReason =>
    match query blocked with
    | .raised e => .error e
    | .unsat => .ok
      { status := .unsat, assignment := .empty, exploredNodes := iteration + 1
        reason := if lastReason = "" then "SMT constraints are unsatisfiable" else lastReason
        stateResult := none }
    | .other status => .ok
      { status := .unknown, assignment := .empty, exploredNodes := iteration + 1
        reason := s!"Z3 returned {status}", stateResult := none }
    | .model assignment => do
      Except.require (missing vs assignment = []) (.solverError "Z3 model omitted variables")
      let state ← checkStateSemantics problem interpreter assignment
      if state.feasible then
        return { status := .sat, assignment, exploredNodes := iteration + 1, reason := ""
                 stateResult := some state }
      else
        refine vs maxStateRejections rounds (iteration + 1) (blocked ++ [assignment]) state.reason

end Z3Loop

/-- `solve_z3`. -/
def solveZ3 (problem : BoundedProblem) (interpreter : Interpreter) (query : SmtQuery)
    (maxStateRejections : Nat) : Except PyError FiniteSolveResult := do
  let toAssign ← buildVariables problem
  Z3Loop.refine problem interpreter query toAssign maxStateRejections (maxStateRejections + 1) 0
    [] ""

end Umcm
