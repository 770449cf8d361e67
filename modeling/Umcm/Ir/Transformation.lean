import Umcm.Ir.State

/-!
# Transformations

Operational rules over event roles: for every tuple of inputs that occurs and
satisfies `when`, some tuple of outputs occurs and satisfies `outputWhen` and
`ensure`. A rule can read and write state cells.
-/

namespace Umcm

structure EventRole where
  name : String
  eventType : String
  name_ne : name ≠ ""
  eventType_ne : eventType ≠ ""

/-- What a false state requirement does: it makes the trace infeasible, or it
disables the rule. -/
inductive StateMode where
  | require
  | guard
deriving DecidableEq, Repr

/-- A rule, as far as the constructor of the source accepts it. -/
structure Transformation where
  name : String
  inputs : List EventRole
  outputs : List EventRole
  when : Expr
  outputWhen : Expr
  ensure : List Expr
  stateRequirements : List StateRequirement
  stateUpdates : List StateUpdate
  isExact : Bool
  stateMode : StateMode
  name_ne : name ≠ ""
  roles_nodup : ((inputs ++ outputs).map EventRole.name).Nodup
  when_bool : when.sort.isBool = true
  outputWhen_bool : outputWhen.sort.isBool = true
  ensure_bool : ∀ e ∈ ensure, e.sort.isBool = true
  exact_output : isExact = true → outputs.length = 1
  guard_outputs : stateMode = .guard → outputs ≠ []
  guard_updates : stateMode = .guard → stateUpdates = []

namespace Transformation

theorem inexact_outputs : false = true → ([] : List EventRole).length = 1 := fun h => nomatch h

theorem require_outputs : StateMode.require = .guard → ([] : List EventRole) ≠ [] :=
  fun h => nomatch h

theorem require_updates : StateMode.require = .guard → ([] : List StateUpdate) = [] :=
  fun h => nomatch h

/-- `role_map[name]`. -/
def role? (t : Transformation) (name : String) : Option EventRole :=
  (t.inputs ++ t.outputs).find? (fun role => role.name = name)

def isStateful (t : Transformation) : Bool :=
  !t.stateRequirements.isEmpty || !t.stateUpdates.isEmpty

/-- The references of an expression whose role is not among the given names. -/
def illegalReferences (e : Expr) (names : List String) : List String :=
  (e.eventFields.map Prod.fst).filter (· ∉ names)

/-- The sort a rule has to use for an attribute of a role. -/
def expectedSort (t : Transformation) (role : EventRole) (eventType : EventType) (field : String) :
    Except PyError IrSort :=
  if field = "occurs" then .ok .bool
  else if field = "cycle" then .ok .int
  else
    match eventType.field? field with
    | some spec => .ok spec.sort
    | none => .error (.schemaError
        s!"transformation {quoted t.name} references unknown field {role.name}.{field}")

def validateReference (t : Transformation) (catalog : EventCatalog)
    (reference : String × String × IrSort) : Except PyError Unit := do
  let (eventId, field, sort) := reference
  match t.role? eventId with
  | none => .error (.schemaError
      s!"transformation {quoted t.name} references unknown role {quoted eventId}")
  | some role => do
    let eventType ← catalog.resolve role.eventType
    let expected ← t.expectedSort role eventType field
    Except.require (sort.compatibleWith expected) (.schemaError
      s!"transformation {quoted t.name} reference {role.name}.{field} has sort {sort.pyStr}, expected {expected.pyStr}")

/-- `_validate_role_expression`. -/
def validateRoleExpression (t : Transformation) (catalog : EventCatalog) (e : Expr) :
    Except PyError Unit :=
  e.eventFields.forM (t.validateReference catalog)

/-- `_resolve_state`. -/
def resolveState (name : String) (stateVariables : List StateVariable) :
    Except PyError StateVariable :=
  match stateVariables.find? (fun cell => cell.name = name) with
  | some cell => .ok cell
  | none => .error (.schemaError s!"unknown state variable: {name}")

/-- The checks that requirements and updates share; `effect` is the word for
the kind of the effect. -/
def validateEffect (t : Transformation) (catalog : EventCatalog)
    (stateVariables : List StateVariable) (effect state atRole : String) (value : Expr) :
    Except PyError Unit := do
  Except.require ((t.role? atRole).isSome) (.schemaError
    s!"state {effect} in {quoted t.name} anchors to unknown role {quoted atRole}")
  let cell ← resolveState state stateVariables
  Except.require (value.sort.compatibleWith cell.sort) (.schemaError
    s!"state {effect} {quoted state} in {quoted t.name} expects {cell.sort.pyStr}, got {value.sort.pyStr}")
  t.validateRoleExpression catalog value

def validate (t : Transformation) (catalog : EventCatalog) (stateVariables : List StateVariable) :
    Except PyError Unit := do
  (t.inputs ++ t.outputs).forM (fun role => discard (catalog.resolve role.eventType))
  let illegalGuard := illegalReferences t.when (t.inputs.map EventRole.name)
  Except.require (illegalGuard = []) (.schemaError
    s!"transformation {quoted t.name} guard references non-input role(s): {joinSorted illegalGuard}")
  let illegalOutput := illegalReferences t.outputWhen (t.outputs.map EventRole.name)
  Except.require (illegalOutput = []) (.schemaError
    s!"transformation {quoted t.name} output guard references non-output role(s): {joinSorted illegalOutput}")
  (t.when :: t.outputWhen :: t.ensure).forM (t.validateRoleExpression catalog)
  Except.require (t.isStateful = false ∨ stateVariables ≠ []) (.schemaError
    s!"stateful transformation {quoted t.name} requires declared state variables")
  t.stateRequirements.forM (fun requirement =>
    t.validateEffect catalog stateVariables "requirement" requirement.state requirement.atRole
      requirement.value)
  t.stateUpdates.forM (fun update =>
    t.validateEffect catalog stateVariables "update" update.state update.atRole update.value)

end Transformation

end Umcm
