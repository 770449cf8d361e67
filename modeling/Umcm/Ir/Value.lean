import Umcm.Data.Dict
import Umcm.Data.Sorted
import Mathlib.Data.Rat.Defs
import Mathlib.Data.String.Basic

/-!
# Scalar values

The scalars an event field or a literal can hold: `None`, booleans, integers,
finite floats and strings. A float carries its exact value and the text `repr`
prints for it.

Python's `==` identifies `True`, `1` and `1.0`. Two values are equal in that
sense when they have the same `key`; dictionaries and sets keyed by values are
keyed by `key`.
-/

namespace Umcm

inductive Value where
  | none
  | bool (b : Bool)
  | int (n : Int)
  | float (value : ℚ) (text : String)
  | str (s : String)
deriving DecidableEq, Repr

/-- What `==` and `hash` see of a value. -/
inductive Key where
  | none
  | num (q : ℚ)
  | str (s : String)
deriving DecidableEq, Repr

namespace Value

def key : Value → Key
  | none => .none
  | bool b => .num (if b then 1 else 0)
  | int n => .num n
  | float q _ => .num q
  | str s => .str s

/-- `a == b`. -/
def pyEq (a b : Value) : Bool := a.key = b.key

/-- `isinstance(v, int)`, with the integer; a boolean is an integer. -/
def asInt? : Value → Option Int
  | bool b => some (if b then 1 else 0)
  | int n => some n
  | _ => Option.none

/-- `isinstance(v, bool)`. -/
def isBool : Value → Bool
  | bool _ => true
  | _ => false

/-- `bool(v)`. -/
def truthy : Value → Bool
  | none => false
  | bool b => b
  | int n => n ≠ 0
  | float q _ => q ≠ 0
  | str s => s ≠ ""

/-- `str(v)`. -/
def pyStr : Value → String
  | none => "None"
  | bool true => "True"
  | bool false => "False"
  | int n => toString n
  | float _ text => text
  | str s => s

/-- `type(v).__name__`. -/
def typeName : Value → String
  | none => "NoneType"
  | bool _ => "bool"
  | int _ => "int"
  | float _ _ => "float"
  | str _ => "str"

/-- `repr(v)`: a string is quoted, with backslashes and the quote escaped. -/
def repr : Value → String
  | str s =>
    let quote := if '\'' ∈ s.toList ∧ '"' ∉ s.toList then '"' else '\''
    let escape := fun c : Char =>
      if c = '\\' ∨ c = quote then ['\\', c]
      else if c = '\n' then ['\\', 'n']
      else if c = '\r' then ['\\', 'r']
      else if c = '\t' then ['\\', 't']
      else [c]
    String.ofList (quote :: (s.toList.flatMap escape ++ [quote]))
  | v => v.pyStr

@[simp] theorem pyEq_iff {a b : Value} : a.pyEq b = true ↔ a.key = b.key := by
  simp [pyEq]

theorem asInt?_key {v : Value} {n : Int} (h : v.asInt? = some n) : v.key = .num n := by
  cases v with
  | bool b => cases b <;> simp_all [asInt?, key] <;> simp [← h]
  | int m => simp_all [asInt?, key]
  | _ => cases h

end Value

/-- `repr` of a name. -/
def quoted (name : String) : String := (Value.str name).repr

/-- The names in order, without repetitions, separated by commas. -/
def joinSorted (names : List String) : String := ", ".intercalate (sortedList names.toFinset)

/-- The names that occur more than once. -/
def repeated (names : List String) : List String :=
  names.filter (fun name => 1 < names.count name)

/-- `s.lower()` on ASCII letters. -/
def pyLower (s : String) : String := String.ofList (s.toList.map Char.toLower)

end Umcm
