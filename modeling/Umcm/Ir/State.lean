import Umcm.Ir.Event

/-!
# Persistent state

A state variable declares one scalar cell. Transformations read the cells
before a cycle with requirements and write them with updates.
-/

namespace Umcm

/-- The comparison of a requirement. -/
inductive CompareOp where
  | eq
  | ne
  | lt
  | le
  | gt
  | ge
deriving DecidableEq, Repr

/-- A state cell: its qualified name and an initial value that fits its sort. -/
structure StateVariable where
  name : String
  sort : IrSort
  initial : Term
  qualified : '.' ∈ name.toList
  initial_fits : initial.fits sort = true

/-- A comparison of a cell with a value, at the cycle of the event that has the
role `atRole`. -/
structure StateRequirement where
  state : String
  atRole : String
  op : CompareOp
  value : Expr
  state_ne : state ≠ ""
  atRole_ne : atRole ≠ ""

/-- A write to a cell, visible after the cycle of the event that has the role
`atRole`. -/
structure StateUpdate where
  state : String
  atRole : String
  value : Expr
  state_ne : state ≠ ""
  atRole_ne : atRole ≠ ""

end Umcm
