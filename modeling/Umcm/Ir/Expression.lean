import Umcm.Ir.Sort

/-!
# Expressions

The typed expression tree shared by trace constraints, transformations and the
solvers. `Expr.wellTyped` is what the constructors of the source check, on the
whole tree.
-/

namespace Umcm

inductive UnaryOp where
  | not
  | neg
deriving DecidableEq, Repr

inductive BinaryOp where
  | and
  | or
  | implies
  | xor
  | eq
  | ne
  | lt
  | le
  | gt
  | ge
  | add
  | sub
  | mul
  | div
  | mod
deriving DecidableEq, Repr

inductive NaryOp where
  | and
  | or
  | distinct
deriving DecidableEq, Repr

inductive Expr where
  | literal (value : Value) (sort : IrSort)
  | symbol (name : String) (sort : IrSort)
  | eventField (eventId field : String) (sort : IrSort)
  | unary (op : UnaryOp) (operand : Expr)
  | binary (op : BinaryOp) (left right : Expr)
  | nary (op : NaryOp) (operands : List Expr)
  | ite (condition thenExpr elseExpr : Expr)
  | call (function : String) (arguments : List Expr) (sort : IrSort)

namespace BinaryOp

/-- Connectives, comparisons and orderings have sort `bool`. -/
def isPredicate : BinaryOp → Bool
  | and | or | implies | xor | eq | ne | lt | le | gt | ge => true
  | add | sub | mul | div | mod => false

end BinaryOp

namespace Expr

def sort : Expr → IrSort
  | literal _ s => s
  | symbol _ s => s
  | eventField _ _ s => s
  | unary .not _ => .bool
  | unary .neg e => e.sort
  | binary op l _ => if op.isPredicate then .bool else l.sort
  | nary _ _ => .bool
  | ite _ t _ => t.sort
  | call _ _ s => s

theorem bool_of_true : (literal (.bool true) .bool).sort.isBool = true := rfl

theorem bool_of_mem_nil : ∀ e ∈ ([] : List Expr), e.sort.isBool = true := by simp

def numeric (e : Expr) : Bool := e.sort.isInt || e.sort.isBitvector

/-- The checks of one `Binary` node. -/
def binaryTyped (op : BinaryOp) (l r : Expr) : Bool :=
  match op with
  | .and | .or | .implies | .xor => l.sort.isBool && r.sort.isBool
  | .eq | .ne => l.sort.compatibleWith r.sort
  | .lt | .le | .gt | .ge | .add | .sub | .mul | .div | .mod =>
    l.sort.compatibleWith r.sort && l.numeric

/-- The checks of one `Nary` node. -/
def naryTyped (op : NaryOp) (operands : List Expr) : Bool :=
  match op, operands with
  | _, [] => false
  | .distinct, head :: rest => rest.all (fun e => head.sort.compatibleWith e.sort)
  | _, operands => operands.all (fun e => e.sort.isBool)

mutual

/-- Every node of the tree passes the checks of its constructor. -/
def wellTyped : Expr → Bool
  | literal v s => s.acceptsLiteral v
  | symbol name _ => name ≠ ""
  | eventField eventId field _ => eventId ≠ "" && field ≠ ""
  | unary .not e => e.sort.isBool && e.wellTyped
  | unary .neg e => e.numeric && e.wellTyped
  | binary op l r => binaryTyped op l r && l.wellTyped && r.wellTyped
  | nary op es => naryTyped op es && wellTypedAll es
  | ite c t e =>
    c.sort.isBool && t.sort.compatibleWith e.sort && c.wellTyped && t.wellTyped && e.wellTyped
  | call function es _ => function ≠ "" && wellTypedAll es

def wellTypedAll : List Expr → Bool
  | [] => true
  | e :: es => e.wellTyped && wellTypedAll es

end

mutual

/-- `iter_event_fields`: the event fields in the tree, from left to right. -/
def eventFields : Expr → List (String × String × IrSort)
  | eventField eventId field s => [(eventId, field, s)]
  | unary _ e => e.eventFields
  | binary _ l r => l.eventFields ++ r.eventFields
  | nary _ es => eventFieldsAll es
  | ite c t e => c.eventFields ++ t.eventFields ++ e.eventFields
  | call _ es _ => eventFieldsAll es
  | literal _ _ | symbol _ _ => []

def eventFieldsAll : List Expr → List (String × String × IrSort)
  | [] => []
  | e :: es => e.eventFields ++ eventFieldsAll es

end

mutual

/-- `iter_symbols`. -/
def symbols : Expr → List (String × IrSort)
  | symbol name s => [(name, s)]
  | unary _ e => e.symbols
  | binary _ l r => l.symbols ++ r.symbols
  | nary _ es => symbolsAll es
  | ite c t e => c.symbols ++ t.symbols ++ e.symbols
  | call _ es _ => symbolsAll es
  | literal _ _ | eventField _ _ _ => []

def symbolsAll : List Expr → List (String × IrSort)
  | [] => []
  | e :: es => e.symbols ++ symbolsAll es

end

mutual

/-- `iter_literals`. -/
def literals : Expr → List (Value × IrSort)
  | literal v s => [(v, s)]
  | unary _ e => e.literals
  | binary _ l r => l.literals ++ r.literals
  | nary _ es => literalsAll es
  | ite c t e => c.literals ++ t.literals ++ e.literals
  | call _ es _ => literalsAll es
  | symbol _ _ | eventField _ _ _ => []

def literalsAll : List Expr → List (Value × IrSort)
  | [] => []
  | e :: es => e.literals ++ literalsAll es

end

mutual

/-- Replace event and role ids. -/
def substituteEventIds (mapping : String → String) : Expr → Expr
  | eventField eventId field s => eventField (mapping eventId) field s
  | unary op e => unary op (e.substituteEventIds mapping)
  | binary op l r => binary op (l.substituteEventIds mapping) (r.substituteEventIds mapping)
  | nary op es => nary op (substituteEventIdsAll mapping es)
  | ite c t e => ite (c.substituteEventIds mapping) (t.substituteEventIds mapping)
      (e.substituteEventIds mapping)
  | call function es s => call function (substituteEventIdsAll mapping es) s
  | literal v s => literal v s
  | symbol name s => symbol name s

def substituteEventIdsAll (mapping : String → String) : List Expr → List Expr
  | [] => []
  | e :: es => e.substituteEventIds mapping :: substituteEventIdsAll mapping es

end

/-- `conjunction`: `true` for no expressions, the expression itself for one. -/
def conjunction : List Expr → Expr
  | [] => literal (.bool true) .bool
  | [e] => e
  | es => nary .and es

theorem conjunction_pair (e e' : Expr) (es : List Expr) :
    conjunction (e :: e' :: es) = nary .and (e :: e' :: es) := rfl

/-- `disjunction`: `false` for no expressions, the expression itself for one. -/
def disjunction : List Expr → Expr
  | [] => literal (.bool false) .bool
  | [e] => e
  | es => nary .or es

theorem disjunction_pair (e e' : Expr) (es : List Expr) :
    disjunction (e :: e' :: es) = nary .or (e :: e' :: es) := rfl

end Expr

end Umcm
