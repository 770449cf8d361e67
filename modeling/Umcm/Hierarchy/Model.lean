import Umcm.Composition.Model

/-!
# Trace abstractions

An abstraction says which events of a trace stay and which are summarised. A
rule matches events, one for each of its roles, unifies fields of theirs through
variables, and emits one summary event for each match.

Traces carry annotations here. The annotations of an event are scalars and
lists of names, and a summary event carries the record of its sources.
-/

namespace Umcm

inductive Visibility where
  | internal
  | publicType
  | architectural
deriving DecidableEq, Repr

/-- `visibility.value`. -/
def Visibility.value : Visibility → String
  | internal => "internal"
  | publicType => "public"
  | architectural => "architectural"

/-- A catalog with the visibility of the event types it names. -/
structure VisibleCatalog extends EventCatalog where
  visibility : String → Visibility

/-! ## Annotated traces -/

inductive EventAnnotation where
  | plain (a : Annotation)
  | abstraction (spec rule : String) (sourceEventIds sourceEventTypes : List String)
deriving DecidableEq

structure AnnotatedEvent extends EventInstance where
  annotations : Dict String EventAnnotation

/-- A trace whose events carry their annotations. -/
structure AnnotatedTrace where
  events : List AnnotatedEvent
  constraints : List Expr
  isPartial : Bool
  nodup : ((events.map AnnotatedEvent.toEventInstance).map EventInstance.id).Nodup
  bool_constraints : ∀ c ∈ constraints, c.sort.isBool = true

namespace AnnotatedTrace

/-- The trace without the annotations, which validation does not read. -/
def toTrace (trace : AnnotatedTrace) : Trace where
  events := trace.events.map AnnotatedEvent.toEventInstance
  constraints := trace.constraints
  isPartial := trace.isPartial
  nodup := trace.nodup
  bool_constraints := trace.bool_constraints

/-- The constructor. -/
def make (events : List AnnotatedEvent) (constraints : List Expr) (isPartial : Bool) :
    Except PyError AnnotatedTrace :=
  let ids := (events.map AnnotatedEvent.toEventInstance).map EventInstance.id
  if nodup : ((events.map AnnotatedEvent.toEventInstance).map EventInstance.id).Nodup then
    if bool_constraints : ∀ c ∈ constraints, c.sort.isBool = true then
      .ok { events, constraints, isPartial, nodup, bool_constraints }
    else .error (Trace.constraintError constraints)
  else .error (.traceValidationError
    s!"trace contains duplicate event id(s): {joinSorted (repeated ids)}")

def validate (trace : AnnotatedTrace) (catalog : EventCatalog) (isPartial : Bool) :
    Except PyError Unit :=
  trace.toTrace.validate catalog isPartial

end AnnotatedTrace

/-! ## Concrete events -/

namespace EventInstance

/-- `event.occurs is True`. -/
def isOccurring (event : EventInstance) : Bool :=
  match event.occurs with
  | .known b => b
  | .symbolic _ => false

def hasSymbolicCycle (event : EventInstance) : Bool :=
  match event.cycle with
  | .symbolic _ => true
  | _ => false

def hasSymbolicFields (event : EventInstance) : Bool :=
  event.fields.values.any (fun value => match value with
    | .expr _ => true
    | .value _ => false)

end EventInstance

/-- An occurring event whose cycle, if there is one, and whose fields are concrete. -/
structure ConcreteEvent extends AnnotatedEvent where
  occurring : toEventInstance.isOccurring = true
  concrete_cycle : toEventInstance.hasSymbolicCycle = false
  concrete_fields : toEventInstance.hasSymbolicFields = false

namespace ConcreteEvent

def cycle? (event : ConcreteEvent) : Option Nat :=
  match event.cycle with
  | .concrete cycle => some cycle
  | _ => none

/-- `event.fields.get(name)`; no field is symbolic. -/
def field? (event : ConcreteEvent) (name : String) : Option Value :=
  match event.fields.get? name with
  | some (.value v) => some v
  | _ => none

end ConcreteEvent

/-! ## Specifications -/

/-- The pattern of a field: a variable to unify, or a literal. -/
inductive MatchValue where
  | var (name : String) (name_ne : name ≠ "")
  | literal (t : Term)

/-- Where a field of a summary comes from. -/
inductive OutputValue where
  | var (name : String) (name_ne : name ≠ "")
  | field (reference : String) (reference_ne : reference ≠ "")
  | literal (t : Term)

structure EventRoleSpec where
  name : String
  eventType : String
  fields : Dict String MatchValue
  name_ne : name ≠ ""
  eventType_ne : eventType ≠ ""

structure SummaryEventSpec where
  eventType : String
  idTemplate : String
  fields : Dict String OutputValue
  cycleFrom : String
  annotations : Dict String EventAnnotation
  eventType_ne : eventType ≠ ""
  idTemplate_ne : idTemplate ≠ ""
  cycleFrom_ne : cycleFrom ≠ ""

structure SummaryRuleSpec where
  name : String
  roles : List EventRoleSpec
  output : SummaryEventSpec
  ordered : Bool
  strictOrder : Bool
  distinctEvents : Bool
  hideSources : Bool
  minMatches : Nat
  maxMatches : Nat
  name_ne : name ≠ ""
  roles_ne : roles ≠ []
  roles_nodup : (roles.map EventRoleSpec.name).Nodup
  maxMatches_pos : 0 < maxMatches
  minMatches_le : minMatches ≤ maxMatches

structure RetainSpec where
  eventTypes : List String
  eventIds : List String
  visibilities : List String

/-- What happens to an event that nothing retains explicitly. -/
inductive DefaultAction where
  | hide
  | keep
deriving DecidableEq, Repr

structure AbstractionSpec where
  name : String
  sourceLevel : String
  targetLevel : String
  retain : RetainSpec
  summaries : List SummaryRuleSpec
  defaultAction : DefaultAction
  name_ne : name ≠ ""
  sourceLevel_ne : sourceLevel ≠ ""
  targetLevel_ne : targetLevel ≠ ""
  summaries_nodup : (summaries.map SummaryRuleSpec.name).Nodup

end Umcm
