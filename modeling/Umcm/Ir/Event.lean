import Umcm.Errors
import Umcm.Ir.Expression

/-!
# Event types and event instances

Event schemas with their fields, dynamic event instances whose attributes are
concrete or symbolic, and the validation of an instance against its schema.
-/

namespace Umcm

structure FieldSpec where
  name : String
  sort : IrSort
  required : Bool
  name_ne : name ≠ ""

/-- An event type: its qualified name and its fields, with distinct names. -/
structure EventType where
  name : String
  fields : List FieldSpec
  qualified : '.' ∈ name.toList
  nodup : (fields.map FieldSpec.name).Nodup

/-- `field_map[name]`. -/
def EventType.field? (t : EventType) (name : String) : Option FieldSpec :=
  t.fields.find? (fun spec => spec.name = name)

/-- A field value: a scalar or an expression. -/
inductive Term where
  | value (v : Value)
  | expr (e : Expr)

/-- Whether a field or a state cell of the sort can hold the value. -/
def Term.fits (s : IrSort) : Term → Bool
  | .value v => s.acceptsLiteral v
  | .expr e => e.sort.compatibleWith s

/-- The cycle of an event: absent, concrete or symbolic. -/
inductive EventCycle where
  | absent
  | concrete (cycle : Nat)
  | symbolic (e : Expr)

/-- Whether an event occurs. -/
inductive Occurs where
  | known (b : Bool)
  | symbolic (e : Expr)

theorem EventCycle.int_of_absent : ∀ e, EventCycle.absent = .symbolic e → e.sort = .int :=
  fun _ h => nomatch h

theorem EventCycle.int_of_start : ∀ e, EventCycle.concrete 0 = .symbolic e → e.sort = .int :=
  fun _ h => nomatch h

theorem EventCycle.int_of_concrete (cycle : Nat) :
    ∀ e, EventCycle.concrete cycle = .symbolic e → e.sort = .int :=
  fun _ h => nomatch h

theorem Occurs.bool_of_known (b : Bool) : ∀ e, Occurs.known b = .symbolic e → e.sort = .bool :=
  fun _ h => nomatch h

/-- A dynamic event. A symbolic cycle has sort `int`, a symbolic occurrence has
sort `bool`. -/
structure EventInstance where
  id : String
  eventType : String
  fields : Dict String Term
  cycle : EventCycle
  occurs : Occurs
  id_ne : id ≠ ""
  eventType_ne : eventType ≠ ""
  cycle_sort : ∀ e, cycle = .symbolic e → e.sort = .int
  occurs_sort : ∀ e, occurs = .symbolic e → e.sort = .bool

/-- The types of the events, stored under their names. -/
structure EventCatalog where
  eventTypes : Dict String EventType
  named : ∀ p ∈ eventTypes.entries, p.2.name = p.1

namespace EventInstance

/-- The constructor, of an occurring event with a concrete cycle. -/
def make (id eventType : String) (fields : Dict String Term) (cycle : Nat) :
    Except PyError EventInstance :=
  if id_ne : id = "" then .error (.traceValidationError "event id must be non-empty")
  else if eventType_ne : eventType = "" then
    .error (.traceValidationError "event_type must be non-empty")
  else
    .ok
      { id, eventType, fields, cycle := .concrete cycle, occurs := .known true, id_ne, eventType_ne
        cycle_sort := fun _ h => nomatch h
        occurs_sort := fun _ h => nomatch h }

/-- The constructor's check of a cycle. -/
def checkCycle : Term → Except PyError { c : EventCycle // ∀ e, c = .symbolic e → e.sort = .int }
  | .value .none => .ok ⟨.absent, fun _ h => nomatch h⟩
  | .value (.int n) =>
    if n < 0 then .error (.traceValidationError "event cycle must be a non-negative int")
    else .ok ⟨.concrete n.toNat, fun _ h => nomatch h⟩
  | .value (.bool _) => .error (.traceValidationError "event cycle must be a non-negative int")
  | .value _ => .error (.traceValidationError "event cycle must be int, Expr, or null")
  | .expr e =>
    if h : e.sort = .int then .ok ⟨.symbolic e, fun _ heq => by cases heq; exact h⟩
    else .error (.traceValidationError "symbolic event cycle must have int sort")

/-- The constructor's check of an occurrence. -/
def checkOccurs : Term → Except PyError { o : Occurs // ∀ e, o = .symbolic e → e.sort = .bool }
  | .value (.bool b) => .ok ⟨.known b, fun _ h => nomatch h⟩
  | .value _ => .error (.traceValidationError "occurs must be bool or Expr")
  | .expr e =>
    if h : e.sort = .bool then .ok ⟨.symbolic e, fun _ heq => by cases heq; exact h⟩
    else .error (.traceValidationError "symbolic occurs must have bool sort")

/-- The constructor. -/
def create (id eventType : String) (fields : Dict String Term) (cycle occurs : Term) :
    Except PyError EventInstance :=
  if id_ne : id = "" then .error (.traceValidationError "event id must be non-empty")
  else if eventType_ne : eventType = "" then
    .error (.traceValidationError "event_type must be non-empty")
  else do
    let cycle ← checkCycle cycle
    let occurs ← checkOccurs occurs
    return { id, eventType, fields, cycle := cycle.1, occurs := occurs.1, id_ne, eventType_ne
             cycle_sort := cycle.2, occurs_sort := occurs.2 }

theorem create_eq_ok {id eventType : String} {fields : Dict String Term} {cycle occurs : Term}
    {event : EventInstance} (h : create id eventType fields cycle occurs = .ok event) :
    event.id = id ∧ event.eventType = eventType ∧ event.fields = fields := by
  rw [create] at h
  split at h
  · cases h
  · split at h
    · cases h
    · obtain ⟨c, -, h⟩ := Except.bind_eq_ok.mp h
      obtain ⟨o, -, h⟩ := Except.bind_eq_ok.mp h
      cases h
      exact ⟨rfl, rfl, rfl⟩

def occursTerm (event : EventInstance) : Term :=
  match event.occurs with
  | .known b => .value (.bool b)
  | .symbolic e => .expr e

/-- The cycle; an absent one is `None`. -/
def cycleTerm (event : EventInstance) : Term :=
  match event.cycle with
  | .absent => .value .none
  | .concrete n => .value (.int n)
  | .symbolic e => .expr e

/-- The attribute a reference names: the occurrence, the cycle or a field. -/
def attribute? (event : EventInstance) (field : String) : Option Term :=
  if field = "occurs" then some event.occursTerm
  else if field = "cycle" then some event.cycleTerm
  else event.fields.get? field

def hasCycle (event : EventInstance) : Bool :=
  match event.cycle with
  | .absent => false
  | _ => true

/-- The occurring event with the given fields and cycle. -/
def concretize (event : EventInstance) (fields : Dict String Term) (cycle : Option Nat) :
    EventInstance where
  id := event.id
  eventType := event.eventType
  fields := fields
  cycle := match cycle with
    | some n => .concrete n
    | none => .absent
  occurs := .known true
  id_ne := event.id_ne
  eventType_ne := event.eventType_ne
  cycle_sort := by cases cycle <;> exact fun _ h => nomatch h
  occurs_sort := fun _ h => nomatch h

/-- The fields of the event that its schema does not have. -/
def unknownFields (event : EventInstance) (eventType : EventType) : List String :=
  event.fields.keys.filter (fun name => (eventType.field? name).isNone)

/-- The required fields of the schema that the event lacks. -/
def missingFields (event : EventInstance) (eventType : EventType) : List String :=
  (eventType.fields.filter (fun spec =>
    spec.required && (event.fields.get? spec.name).isNone)).map FieldSpec.name

/-- One field against its schema. -/
def validateField (event : EventInstance) (eventType : EventType) (name : String) (value : Term) :
    Except PyError Unit :=
  match eventType.field? name with
  | none => .error .keyError
  | some spec =>
    match value with
    | .expr e => Except.require (e.sort.compatibleWith spec.sort) (.traceValidationError
        s!"event {quoted event.id}.{name} expects {spec.sort.pyStr}, got {e.sort.pyStr}")
    | .value v => Except.require (spec.sort.acceptsLiteral v) (.traceValidationError
        s!"event {quoted event.id}.{name} value {v.repr} is invalid for {spec.sort.pyStr}")

def validateAgainst (event : EventInstance) (eventType : EventType) (isPartial : Bool) :
    Except PyError Unit := do
  Except.require (event.eventType = eventType.name) (.traceValidationError
    s!"event {quoted event.id} has type {quoted event.eventType}, expected {quoted eventType.name}")
  let unknown := event.unknownFields eventType
  Except.require (unknown = []) (.traceValidationError
    s!"event {quoted event.id} has unknown field(s): {joinSorted unknown}")
  let missing := event.missingFields eventType
  let listed := ", ".intercalate missing
  Except.require (isPartial = true ∨ missing = []) (.traceValidationError
    s!"event {quoted event.id} is missing required field(s): {listed}")
  event.fields.entries.forM (fun p => event.validateField eventType p.1 p.2)

end EventInstance

namespace EventCatalog

def resolve (catalog : EventCatalog) (name : String) : Except PyError EventType :=
  match catalog.eventTypes.get? name with
  | some eventType => .ok eventType
  | none => .error (.traceValidationError s!"unknown event type: {name}")

def validateEvents (catalog : EventCatalog) (events : List EventInstance) (isPartial : Bool) :
    Except PyError Unit :=
  events.forM (fun event => do
    let eventType ← catalog.resolve event.eventType
    event.validateAgainst eventType isPartial)

end EventCatalog

end Umcm
