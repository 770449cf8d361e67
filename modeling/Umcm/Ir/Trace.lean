import Umcm.Ir.Event

/-!
# Traces

A trace is a list of events with distinct ids and boolean constraints over
them. Validation against a catalog checks every event and every reference of
the constraints.
-/

namespace Umcm

structure Trace where
  events : List EventInstance
  constraints : List Expr
  isPartial : Bool
  nodup : (events.map EventInstance.id).Nodup
  bool_constraints : ∀ c ∈ constraints, c.sort.isBool = true

namespace Trace

/-- The error for the first constraint that is not boolean. -/
def constraintError (constraints : List Expr) : PyError :=
  match constraints.find? (fun c => !c.sort.isBool) with
  | some c => .traceValidationError s!"trace constraint must be bool, got {c.sort.pyStr}"
  | none => .traceValidationError "trace constraint must be bool"

/-- The constructor. -/
def make (events : List EventInstance) (constraints : List Expr) (isPartial : Bool) :
    Except PyError Trace :=
  let ids := events.map EventInstance.id
  if nodup : (events.map EventInstance.id).Nodup then
    if bool_constraints : ∀ c ∈ constraints, c.sort.isBool = true then
      .ok { events, constraints, isPartial, nodup, bool_constraints }
    else
      .error (constraintError constraints)
  else
    .error (.traceValidationError
      s!"trace contains duplicate event id(s): {joinSorted (repeated ids)}")

/-- `event_map.get(id)`. -/
def find? (trace : Trace) (id : String) : Option EventInstance :=
  trace.events.find? (fun event => event.id = id)

def eventsOfType (trace : Trace) (eventType : String) : List EventInstance :=
  trace.events.filter (fun event => event.eventType = eventType)

/-- The sort a constraint has to use for an attribute of an event. -/
def expectedSort (catalog : EventCatalog) (event : EventInstance) (field : String) :
    Except PyError IrSort :=
  if field = "cycle" then .ok .int
  else if field = "occurs" then .ok .bool
  else do
    let eventType ← catalog.resolve event.eventType
    match eventType.field? field with
    | some spec => return spec.sort
    | none => .error (.traceValidationError
        s!"constraint references unknown field {event.id}.{field}")

/-- One reference of a constraint. -/
def validateReference (trace : Trace) (catalog : EventCatalog)
    (reference : String × String × IrSort) : Except PyError Unit := do
  let (eventId, field, sort) := reference
  match trace.find? eventId with
  | none => .error (.traceValidationError
      s!"constraint references unknown event id {quoted eventId}")
  | some event => do
    let expected ← expectedSort catalog event field
    Except.require (sort.compatibleWith expected) (.traceValidationError
      s!"constraint reference {eventId}.{field} has sort {sort.pyStr}, expected {expected.pyStr}")

/-- `trace.validate(catalog, partial=isPartial)`. -/
def validate (trace : Trace) (catalog : EventCatalog) (isPartial : Bool) : Except PyError Unit := do
  catalog.validateEvents trace.events isPartial
  trace.constraints.forM (fun constraint =>
    constraint.eventFields.forM (trace.validateReference catalog))

end Trace

end Umcm
