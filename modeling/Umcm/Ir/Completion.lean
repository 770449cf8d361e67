import Umcm.Ir.Trace
import Umcm.Ir.Transformation

/-!
# Completion models

The bounded universe of a completion: the observed events and a finite number
of slots, the rules, the state cells and further constraints.
-/

namespace Umcm

/-- A candidate event. A required slot occurs in every completion; the cycle
`None` stands for a symbolic one. -/
structure EventSlot where
  id : String
  eventType : String
  fields : Dict String Term
  required : Bool
  cycle : Term
  id_ne : id ≠ ""
  eventType_ne : eventType ≠ ""

namespace EventSlot

def validateField (slot : EventSlot) (eventType : EventType) (name : String) (value : Term) :
    Except PyError Unit :=
  match eventType.field? name with
  | none => .error .keyError
  | some spec =>
    match value with
    | .expr e => Except.require (e.sort.compatibleWith spec.sort) (.schemaError
        s!"slot {quoted slot.id}.{name} expects {spec.sort.pyStr}, got {e.sort.pyStr}")
    | .value v => Except.require (spec.sort.acceptsLiteral v) (.schemaError
        s!"slot {quoted slot.id}.{name} value {v.repr} is invalid for {spec.sort.pyStr}")

def validate (slot : EventSlot) (catalog : EventCatalog) : Except PyError Unit := do
  let eventType ← catalog.resolve slot.eventType
  let unknown := slot.fields.keys.filter (fun name => (eventType.field? name).isNone)
  Except.require (unknown = []) (.schemaError
    s!"slot {quoted slot.id} has unknown field(s): {joinSorted unknown}")
  slot.fields.entries.forM (fun p => slot.validateField eventType p.1 p.2)

/-- A symbol for a required field that is missing. -/
def completeField (symbolPrefix : String) (fields : Dict String Term) (spec : FieldSpec) :
    Dict String Term :=
  if spec.required && (fields.get? spec.name).isNone then
    fields.insert spec.name (.expr (.symbol (symbolPrefix ++ spec.name) spec.sort))
  else fields

/-- The fields, with a symbol for every required field that is missing. -/
def completeFields (symbolPrefix : String) (eventType : EventType) (fields : Dict String Term) :
    Dict String Term :=
  eventType.fields.foldl (completeField symbolPrefix) fields

/-- `self.cycle if self.cycle is not None else Symbol(...)`. -/
def cycleTerm (slot : EventSlot) : Term :=
  match slot.cycle with
  | .value .none => .expr (.symbol s!"slot::{slot.id}::cycle" .int)
  | cycle => cycle

def occursTerm (slot : EventSlot) : Term :=
  if slot.required then .value (.bool true)
  else .expr (.symbol s!"slot::{slot.id}::occurs" .bool)

def materialize (slot : EventSlot) (catalog : EventCatalog) : Except PyError EventInstance := do
  let eventType ← catalog.resolve slot.eventType
  EventInstance.create slot.id slot.eventType
    (completeFields s!"slot::{slot.id}::field::" eventType slot.fields) slot.cycleTerm
    slot.occursTerm

end EventSlot

/-- The constructor's checks: distinct slots, rules and cells, and boolean
constraints. -/
structure CompletionSpec where
  slots : List EventSlot
  transformations : List Transformation
  stateVariables : List StateVariable
  constraints : List Expr
  horizon : Nat
  slots_nodup : (slots.map EventSlot.id).Nodup
  transformations_nodup : (transformations.map Transformation.name).Nodup
  stateVariables_nodup : (stateVariables.map StateVariable.name).Nodup
  constraints_bool : ∀ c ∈ constraints, c.sort.isBool = true

namespace CompletionSpec

/-- The constructor. -/
def create (slots : List EventSlot) (transformations : List Transformation)
    (stateVariables : List StateVariable) (constraints : List Expr) (horizon : Nat) :
    Except PyError CompletionSpec :=
  if slots_nodup : (slots.map EventSlot.id).Nodup then
    if transformations_nodup : (transformations.map Transformation.name).Nodup then
      if stateVariables_nodup : (stateVariables.map StateVariable.name).Nodup then
        if constraints_bool : ∀ c ∈ constraints, c.sort.isBool = true then
          .ok { slots, transformations, stateVariables, constraints, horizon, slots_nodup
                transformations_nodup, stateVariables_nodup, constraints_bool }
        else .error (.schemaError "completion constraints must be boolean")
      else duplicate "state variable(s)" (stateVariables.map StateVariable.name)
    else duplicate "transformation(s)" (transformations.map Transformation.name)
  else duplicate "slot id(s)" (slots.map EventSlot.id)
where
  duplicate (kind : String) (values : List String) : Except PyError CompletionSpec :=
    let duplicates := joinSorted (repeated values)
    .error (.schemaError s!"completion spec contains duplicate {kind}: {duplicates}")

theorem create_eq_ok {slots : List EventSlot} {transformations : List Transformation}
    {stateVariables : List StateVariable} {constraints : List Expr} {horizon : Nat}
    {spec : CompletionSpec}
    (h : create slots transformations stateVariables constraints horizon = .ok spec) :
    spec.slots = slots ∧ spec.transformations = transformations ∧
      spec.stateVariables = stateVariables ∧ spec.constraints = constraints ∧
      spec.horizon = horizon := by
  unfold create at h
  split_ifs at h <;> cases h
  exact ⟨rfl, rfl, rfl, rfl, rfl⟩

/-- `event_types_by_id.get(id)`, over the observed events and the slots. -/
def eventTypeOf (spec : CompletionSpec) (catalog : EventCatalog) (trace : Trace) (id : String) :
    Except PyError (Option EventType) :=
  match trace.find? id, spec.slots.find? (fun slot => slot.id = id) with
  | _, some slot => some <$> catalog.resolve slot.eventType
  | some event, none => some <$> catalog.resolve event.eventType
  | none, none => .ok none

def expectedSort (eventId : String) (eventType : EventType) (field : String) :
    Except PyError IrSort :=
  if field = "cycle" then .ok .int
  else if field = "occurs" then .ok .bool
  else
    match eventType.field? field with
    | some spec => .ok spec.sort
    | none => .error (.traceValidationError
        s!"completion constraint references unknown field {eventId}.{field}")

def validateReference (spec : CompletionSpec) (catalog : EventCatalog) (trace : Trace)
    (reference : String × String × IrSort) : Except PyError Unit := do
  let (eventId, field, sort) := reference
  let found ← spec.eventTypeOf catalog trace eventId
  match found with
  | none => .error (.traceValidationError
      s!"completion constraint references unknown event id {quoted eventId}")
  | some eventType => do
    let expected ← expectedSort eventId eventType field
    Except.require (sort.compatibleWith expected) (.traceValidationError
      s!"completion constraint reference {eventId}.{field} has sort {sort.pyStr}, expected {expected.pyStr}")

def validate (spec : CompletionSpec) (catalog : EventCatalog) (trace : Trace) :
    Except PyError Unit := do
  let observed := trace.events.map EventInstance.id
  let overlap := (spec.slots.map EventSlot.id).filter (· ∈ observed)
  Except.require (overlap = []) (.traceValidationError
    s!"completion slots collide with trace event id(s): {joinSorted overlap}")
  spec.slots.forM (fun slot => slot.validate catalog)
  spec.transformations.forM (fun t => t.validate catalog spec.stateVariables)
  trace.events.forM (fun event => discard (catalog.resolve event.eventType))
  spec.slots.forM (fun slot => discard (catalog.resolve slot.eventType))
  spec.constraints.forM (fun constraint =>
    constraint.eventFields.forM (spec.validateReference catalog trace))

end CompletionSpec

end Umcm
