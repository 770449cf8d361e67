import Umcm.Ir.Value

/-!
# Sorts

The sorts of event fields and expressions: the built-in `bool`, `int`, `string`
and `bv`, and domain names such as `address`. A sort exists only if it passes
the constructor's checks.
-/

namespace Umcm

structure IrSort where
  name : String
  width : Option Nat
  signed : Option Bool
  name_ne : name.toList.any (fun c => !c.isWhitespace) = true
  width_pos : width ≠ some 0
  no_width : name = "bool" ∨ name = "string" → width = none
  bv_width : name = "bv" → width ≠ none
  signed_only : signed ≠ none → name = "int" ∨ name = "bv"
deriving DecidableEq

namespace IrSort

theorem widthless_pos : (none : Option Nat) ≠ some 0 := by decide

def bool : IrSort where
  name := "bool"
  width := none
  signed := none
  name_ne := by decide
  width_pos := by decide
  no_width := by decide
  bv_width := by decide
  signed_only := by decide

def int : IrSort where
  name := "int"
  width := none
  signed := none
  name_ne := by decide
  width_pos := by decide
  no_width := by decide
  bv_width := by decide
  signed_only := by decide

def isBool (s : IrSort) : Bool := s.name = "bool"

def isInt (s : IrSort) : Bool := s.name = "int"

def isString (s : IrSort) : Bool := s.name = "string"

def isBitvector (s : IrSort) : Bool := s.name = "bv"

/-- `str(sort)`, the representation of the record. -/
def pyStr (s : IrSort) : String :=
  let width := match s.width with
    | some width => toString width
    | none => "None"
  let signed := match s.signed with
    | some signed => (Value.bool signed).pyStr
    | none => "None"
  s!"Sort(name={quoted s.name}, width={width}, signed={signed})"

/-- Two expressions can be compared or combined when their sorts are equal. -/
def compatibleWith (s t : IrSort) : Bool := s = t

/-- Whether a Python value is a literal of the sort. A domain sort takes every
scalar. -/
def acceptsLiteral (s : IrSort) (v : Value) : Bool :=
  if s.isBool then v.isBool
  else if s.isInt then v.asInt?.isSome && !v.isBool
  else if s.isString then
    match v with
    | .str _ => true
    | _ => false
  else if s.isBitvector then
    match v with
    | .int n => 0 ≤ n && n < 2 ^ s.width.getD 0
    | _ => false
  else true

end IrSort

/-! ## The sorts of the shipped event types -/

def stringSort : IrSort where
  name := "string"
  width := none
  signed := none
  name_ne := by decide
  width_pos := IrSort.widthless_pos
  no_width := fun _ => rfl
  bv_width := by decide
  signed_only := fun h => absurd rfl h

def opIdSort : IrSort where
  name := "op_id"
  width := none
  signed := none
  name_ne := by decide
  width_pos := IrSort.widthless_pos
  no_width := fun _ => rfl
  bv_width := by decide
  signed_only := fun h => absurd rfl h

def valueSort : IrSort where
  name := "value"
  width := some 64
  signed := none
  name_ne := by decide
  width_pos := by decide
  no_width := by decide
  bv_width := fun _ h => nomatch h
  signed_only := fun h => absurd rfl h

def addressSort : IrSort where
  name := "address"
  width := some 64
  signed := none
  name_ne := by decide
  width_pos := by decide
  no_width := by decide
  bv_width := fun _ h => nomatch h
  signed_only := fun h => absurd rfl h

def maskSort : IrSort where
  name := "bv"
  width := some 8
  signed := none
  name_ne := by decide
  width_pos := by decide
  no_width := by decide
  bv_width := fun _ h => nomatch h
  signed_only := fun h => absurd rfl h

/-- A mask of the bytes of a line. -/
def lineMaskSort : IrSort where
  name := "bv"
  width := some 64
  signed := none
  name_ne := by decide
  width_pos := by decide
  no_width := by decide
  bv_width := fun _ h => nomatch h
  signed_only := fun h => absurd rfl h

end Umcm
