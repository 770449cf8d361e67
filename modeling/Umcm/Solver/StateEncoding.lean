import Umcm.Solver.EncodingExact
import Umcm.Solver.StateReference

/-!
# Encoding of the state cells

The state cells as constants of the SMT solver, one for every cell before every
cycle and after the last. The effects of a problem become assertions about them:
a requirement compares the cell of its cycle, the writes of a cycle determine the
next one, and a guard is a disjunction over the cycles of its anchor.
-/

namespace Umcm

open Except StateRun

/-! ## Terms -/

/-- The operator of `_state_compare_smt`. -/
def CompareOp.smt : CompareOp → Smt.Op
  | eq => .eq
  | ne => .distinct
  | lt => .lt
  | le => .le
  | gt => .gt
  | ge => .ge

namespace Codec

/-- `_state_symbol`, before it is quoted. -/
def stateSymbol (name : String) (cycle : Nat) : String := s!"__state__::{name}::pre::{cycle}"

/-- The constant of a cell before a cycle. -/
def cellTerm (name : String) (cycle : Nat) : Smt.Term := .const (stateSymbol name cycle)

/-- `_state_compare_smt`. -/
def compareTerm (op : CompareOp) (actual expected : Smt.Term) : Smt.Term :=
  .app op.smt [actual, expected]

/-- The anchor is in this cycle. -/
def inCycle (cycle : Smt.Term) (c : Nat) : Smt.Term := .app .eq [cycle, .numeral c]

/-- One operand stands for itself. -/
def groupTerm (op : NaryOp) : List Smt.Term → Smt.Term
  | [t] => t
  | ts => naryTerm op ts

/-- `range(horizon + 1)`. -/
def cycles (horizon : Nat) : List Nat := List.range (horizon + 1)

variable (codec : Codec) (interpreter : Interpreter) (events : Dict String EventInstance)

/-- `_state_predicate_smt`. -/
def guardTerm (horizon : Nat) (guard : GuardPredicateInstance) : Except PyError Smt.Term := do
  let cycle ← codec.term interpreter events guard.cycle
  let expected ← codec.term interpreter events guard.expected
  return naryTerm .or ((cycles horizon).map (fun c =>
    .app .and [inCycle cycle c, compareTerm guard.op (cellTerm guard.state c) expected]))

/-! ## Assertions -/

def initialTerm (cell : StateVariable) : Except PyError Smt.Term :=
  match cell.initial with
  | .value v => codec.literalTerm interpreter cell.sort v
  | .expr e => codec.term interpreter events e

/-- The constants of a cell and its first value. -/
def cellCommands (horizon : Nat) (cell : StateVariable) : Except PyError (List Smt.Command) := do
  let initial ← codec.initialTerm interpreter events cell
  return (List.range (horizon + 2)).map (fun c =>
      .declare (stateSymbol cell.name c) cell.sort.ty) ++
    [.assert (.app .eq [cellTerm cell.name 0, initial])]

def requirementCommands (horizon : Nat) (r : StateRequirementInstance) :
    Except PyError (List Smt.Command) := do
  let activation ← codec.term interpreter events r.activation
  let cycle ← codec.term interpreter events r.cycle
  let expected ← codec.term interpreter events r.expected
  return (cycles horizon).map (fun c => .assert (.app .implies
    [.app .and [activation, inCycle cycle c], compareTerm r.op (cellTerm r.state c) expected]))

def forwardCommand (horizon : Nat) (item : GuardedForwardInstance) :
    Except PyError Smt.Command := do
  let antecedent ← codec.term interpreter events item.antecedent
  let guards ← item.predicates.mapM (codec.guardTerm interpreter events horizon)
  let consequent ← codec.term interpreter events item.consequent
  return .assert (.app .implies [groupTerm .and (antecedent :: guards), consequent])

def candidateTerm (horizon : Nat) (candidate : GuardedSupportCandidate) :
    Except PyError Smt.Term := do
  let expression ← codec.term interpreter events candidate.expression
  let guards ← candidate.predicates.mapM (codec.guardTerm interpreter events horizon)
  return groupTerm .and (expression :: guards)

def supportCommand (horizon : Nat) (item : GuardedSupportInstance) :
    Except PyError Smt.Command := do
  let antecedent ← codec.term interpreter events item.antecedent
  let candidates ← item.supports.mapM (codec.candidateTerm interpreter events horizon)
  return .assert (.app .implies [antecedent, groupTerm .or candidates])

/-- The terms of an update, which do not depend on the cycle. -/
structure UpdateTerms where
  activation : Smt.Term
  cycle : Smt.Term
  value : Smt.Term

def UpdateTerms.active (u : UpdateTerms) (c : Nat) : Smt.Term :=
  .app .and [u.activation, inCycle u.cycle c]

def updateTerms (u : StateUpdateInstance) : Except PyError UpdateTerms := do
  let activation ← codec.term interpreter events u.activation
  let cycle ← codec.term interpreter events u.cycle
  let value ← codec.term interpreter events u.value
  return { activation, cycle, value }

/-- What becomes of a cell in a cycle. Every active update constrains the next value, so
updates that do not agree have no model. -/
def transitionCommands (name : String) (updates : List UpdateTerms) (c : Nat) :
    List Smt.Command :=
  let unchanged := Smt.Term.app .eq [cellTerm name (c + 1), cellTerm name c]
  updates.map (fun u =>
    .assert (.app .implies [u.active c, .app .eq [cellTerm name (c + 1), u.value]])) ++
  [.assert (if updates.isEmpty then unchanged
    else .app .implies [.app .not [groupTerm .or (updates.map (fun u => u.active c))], unchanged])]

/-- The updates of one cell, over all cycles. -/
def cellTransitions (problem : BoundedProblem) (cell : StateVariable) :
    Except PyError (List Smt.Command) := do
  let updates ← (problem.stateUpdates.filter (fun u => u.state = cell.name)).mapM
    (codec.updateTerms interpreter events)
  return (cycles problem.spec.horizon).flatMap (transitionCommands cell.name updates)

/-- `_state_smt_constraints`. Without cells, guarded rules are not written. -/
def stateCommands (problem : BoundedProblem) : Except PyError (List Smt.Command) :=
  if problem.spec.stateVariables.isEmpty then .ok [] else do
    let horizon := problem.spec.horizon
    let cells ← problem.spec.stateVariables.mapM (codec.cellCommands interpreter events horizon)
    let requirements ← problem.stateRequirements.mapM
      (codec.requirementCommands interpreter events horizon)
    let forwards ← problem.guardedForwards.mapM (codec.forwardCommand interpreter events horizon)
    let supports ← problem.guardedSupports.mapM (codec.supportCommand interpreter events horizon)
    problem.stateUpdates.forM (fun u => Except.require
      (u.state ∈ problem.spec.stateVariables.map StateVariable.name) .keyError)
    let transitions ← problem.spec.stateVariables.mapM
      (codec.cellTransitions interpreter events problem)
    return cells.flatten ++ requirements.flatten ++ forwards ++ supports ++ transitions.flatten

end Codec

end Umcm
