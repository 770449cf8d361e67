import Umcm.Ir.Event
import Mathlib.Data.Int.Bitwise

/-!
# Evaluation

Evaluation of an expression under a partial assignment of the symbols. A
result is a value or unknown (`none`). The connectives use three-valued logic,
so that a constraint can be false before all symbols are assigned.
-/

namespace Umcm

/-- What the evaluation leaves to the interpreter: arithmetic on operands that
are not both integers, `int(s)` of a string, and how deep event fields can be
nested in the definitions of others before the stack is exhausted. -/
structure Interpreter where
  arithmetic : BinaryOp → Value → Value → Except PyError Value
  parseInt : String → Except PyError Int
  depth : Nat

/-- An interpreter for integer problems, which do not use the arithmetic of the
other scalars. -/
def Interpreter.integers : Interpreter where
  arithmetic := fun _ _ _ => .error .typeError
  parseInt := fun _ => .error .valueError
  depth := 8

namespace Value

/-- `a < b`. Numbers are ordered by value, strings by code points; other
operands cannot be compared. -/
def pyLt (a b : Value) : Except PyError Bool :=
  match a.key, b.key with
  | .num p, .num q => .ok (p < q)
  | .str s, .str t => .ok (s < t)
  | _, _ => .error .typeError

/-- `a <= b`. -/
def pyLe (a b : Value) : Except PyError Bool := not <$> b.pyLt a

/-- `int(v)`. -/
def toInt (interpreter : Interpreter) : Value → Except PyError Int
  | none => .error .typeError
  | bool b => .ok (if b then 1 else 0)
  | int n => .ok n
  | float q _ => .ok (q.num.tdiv q.den)
  | str s => interpreter.parseInt s

/-- `-v`. The text of a float gets or loses its sign. -/
def neg : Value → Except PyError Value
  | bool b => .ok (.int (if b then -1 else 0))
  | int n => .ok (.int (-n))
  | float q text => .ok (.float (-q)
      (match text.toList with
      | '-' :: rest => String.ofList rest
      | _ => "-" ++ text))
  | none | str _ => .error .typeError

end Value

/-! ## Functions -/

/-- `_all_equal`. -/
def allEqual : List Value → Bool
  | [] => true
  | first :: rest => rest.all (fun item => item.pyEq first)

/-- Two integer addresses are compared by block, other addresses are names. -/
def sameBlockSized (left right size : Value) : Except PyError Value :=
  match left.asInt?, right.asInt?, size.asInt? with
  | some l, some r, some s =>
    if s ≤ 0 then .error (.solverError "same_block block size must be positive")
    else .ok (.bool (l.fdiv s = r.fdiv s))
  | _, _, _ => .ok (.bool (left.pyEq right))

def sameBlock : List Value → Except PyError Value
  | [left, right] => .ok (.bool (left.pyEq right))
  | [left, right, size] => sameBlockSized left right size
  | _ => .error (.solverError "same_block expects two addresses and optional block size")

def maskOverlap (interpreter : Interpreter) : List Value → Except PyError Value
  | [left, right] => do
    let l ← left.toInt interpreter
    let r ← right.toInt interpreter
    return .bool (l.land r ≠ 0)
  | _ => .error (.solverError "mask_overlap expects two integer masks")

def maskCovers (interpreter : Interpreter) : List Value → Except PyError Value
  | [provider, consumer] => do
    let p ← provider.toInt interpreter
    let c ← consumer.toInt interpreter
    return .bool (p.land c = c)
  | _ => .error (.solverError "mask_covers expects provider and consumer masks")

/-- The functions of `DEFAULT_FUNCTIONS`, by name. -/
def callFunction (interpreter : Interpreter) (function : String) (arguments : List Value) :
    Except PyError Value :=
  if function ∈ ["same_address", "same_identity", "same_op", "same_value"] then
    .ok (.bool (allEqual arguments))
  else if function = "same_block" then sameBlock arguments
  else if function = "mask_overlap" then maskOverlap interpreter arguments
  else if function = "mask_covers" then maskCovers interpreter arguments
  else .error (.solverError s!"unknown expression function: {function}")

/-! ## Operators -/

/-- A result of an evaluation: a value, or `none` for `UNKNOWN`. -/
abbrev Result := Option Value

/-- `x is True`. -/
def Result.isTrue (r : Result) : Bool := r = some (.bool true)

/-- `x is False`. -/
def Result.isFalse (r : Result) : Bool := r = some (.bool false)

def applyUnary (op : UnaryOp) (operand : Value) : Except PyError Value :=
  match op with
  | .not => .ok (.bool (!operand.truthy))
  | .neg => operand.neg

/-- Integer division and remainder round down. -/
def applyArithmetic (interpreter : Interpreter) (op : BinaryOp) (left right : Value) :
    Except PyError Value :=
  match left.asInt?, right.asInt? with
  | some m, some n =>
    match op with
    | .add => .ok (.int (m + n))
    | .sub => .ok (.int (m - n))
    | .mul => .ok (.int (m * n))
    | .div => .ok (.int (m.fdiv n))
    | _ => .ok (.int (m.fmod n))
  | _, _ => interpreter.arithmetic op left right

/-- The operators that need both operands. -/
def applyBinary (interpreter : Interpreter) (op : BinaryOp) (left right : Value) :
    Except PyError Value :=
  match op with
  | .xor => .ok (.bool (left.truthy ^^ right.truthy))
  | .eq => .ok (.bool (left.pyEq right))
  | .ne => .ok (.bool (!left.pyEq right))
  | .lt => .bool <$> left.pyLt right
  | .le => .bool <$> left.pyLe right
  | .gt => .bool <$> right.pyLt left
  | .ge => .bool <$> right.pyLe left
  | .div =>
    if right.key = .num 0 then .error (.solverError "division by zero in expression")
    else applyArithmetic interpreter op left right
  | .mod =>
    if right.key = .num 0 then .error (.solverError "modulo by zero in expression")
    else applyArithmetic interpreter op left right
  | _ => applyArithmetic interpreter op left right

/-- `_evaluate_binary` on the results of the operands. -/
def evaluateBinary (interpreter : Interpreter) (op : BinaryOp) (left right : Result) :
    Except PyError Result :=
  match op with
  | .and => .ok
      (if left.isFalse || right.isFalse then some (.bool false)
      else if left.isTrue && right.isTrue then some (.bool true)
      else none)
  | .or => .ok
      (if left.isTrue || right.isTrue then some (.bool true)
      else if left.isFalse && right.isFalse then some (.bool false)
      else none)
  | .implies => .ok
      (if left.isFalse || right.isTrue then some (.bool true)
      else if left.isTrue && right.isFalse then some (.bool false)
      else none)
  | op =>
    match left, right with
    | some l, some r => some <$> applyBinary interpreter op l r
    | _, _ => .ok none

/-- `_evaluate_nary` on the results of the operands. -/
def evaluateNary (op : NaryOp) (values : List Result) : Result :=
  match op with
  | .and =>
    if values.any Result.isFalse then some (.bool false)
    else if values.all Result.isTrue then some (.bool true)
    else none
  | .or =>
    if values.any Result.isTrue then some (.bool true)
    else if values.all Result.isFalse then some (.bool false)
    else none
  | .distinct =>
    -- a set of values holds one value of every key
    let concrete := values.filterMap id
    if ¬ (concrete.map Value.key).Nodup then some (.bool false)
    else if concrete.length = values.length then some (.bool true)
    else none

/-- The result of an `ite` whose condition is neither `True` nor `False`. -/
def mergeBranches (thenValue elseValue : Result) : Result :=
  match thenValue, elseValue with
  | some t, some e => if t.pyEq e then some t else none
  | _, _ => none

/-- A call needs all its arguments. -/
def evaluateCall (interpreter : Interpreter) (function : String) (values : List Result) :
    Except PyError Result :=
  if none ∈ values then .ok none else some <$> callFunction interpreter function (values.filterMap id)

/-! ## Evaluation -/

structure EvaluationContext where
  events : Dict String EventInstance
  assignment : Dict String Value
  interpreter : Interpreter

mutual

/-- `evaluate`, with the reading of event attributes as a parameter. -/
def evaluateWith (interpreter : Interpreter) (assignment : Dict String Value)
    (attributeOf : String → String → Except PyError Result) : Expr → Except PyError Result
  | .literal v _ => .ok (some v)
  | .symbol name _ => .ok (assignment.get? name)
  | .eventField eventId field _ => attributeOf eventId field
  | .unary op e =>
    evaluateWith interpreter assignment attributeOf e >>= fun operand =>
      match operand with
      | some v => some <$> applyUnary op v
      | none => .ok none
  | .binary op l r =>
    evaluateWith interpreter assignment attributeOf l >>= fun left =>
      evaluateWith interpreter assignment attributeOf r >>= fun right =>
        evaluateBinary interpreter op left right
  | .nary op es =>
    evaluateAll interpreter assignment attributeOf es >>= fun values => .ok (evaluateNary op values)
  | .ite c t e =>
    evaluateWith interpreter assignment attributeOf c >>= fun condition =>
      if condition.isTrue then evaluateWith interpreter assignment attributeOf t
      else if condition.isFalse then evaluateWith interpreter assignment attributeOf e
      else
        evaluateWith interpreter assignment attributeOf t >>= fun thenValue =>
          evaluateWith interpreter assignment attributeOf e >>= fun elseValue =>
            .ok (mergeBranches thenValue elseValue)
  | .call function es _ =>
    evaluateAll interpreter assignment attributeOf es >>= fun values =>
      evaluateCall interpreter function values

def evaluateAll (interpreter : Interpreter) (assignment : Dict String Value)
    (attributeOf : String → String → Except PyError Result) :
    List Expr → Except PyError (List Result)
  | [] => .ok []
  | e :: es =>
    evaluateWith interpreter assignment attributeOf e >>= fun value =>
      evaluateAll interpreter assignment attributeOf es >>= fun values => .ok (value :: values)

end

namespace EvaluationContext

/-- `event_attribute`, down to a nesting of the given depth. -/
def eventAttributeAt (context : EvaluationContext) :
    Nat → String → String → Except PyError Result
  | 0, _, _ => .error .recursionError
  | depth + 1, eventId, field =>
    match context.events.get? eventId with
    | none => .error (.traceValidationError s!"unknown event id during evaluation: {eventId}")
    | some event =>
      match event.attribute? field with
      | none => .ok none
      | some (.value v) => .ok (some v)
      | some (.expr e) =>
        evaluateWith context.interpreter context.assignment (context.eventAttributeAt depth) e

def eventAttribute (context : EvaluationContext) : String → String → Except PyError Result :=
  context.eventAttributeAt (context.interpreter.depth + 1)

def evaluate (context : EvaluationContext) (e : Expr) : Except PyError Result :=
  evaluateWith context.interpreter context.assignment context.eventAttribute e

/-- A value is itself, an expression is evaluated. -/
def evaluateTerm (context : EvaluationContext) : Term → Except PyError Result
  | .value v => .ok (some v)
  | .expr e => context.evaluate e

end EvaluationContext

end Umcm
