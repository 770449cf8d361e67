import Umcm.Ir.Completion

/-!
# Modules and compositions

A module owns slots, state cells and rules and declares typed ports; a
composition names module files and connects their ports.
-/

namespace Umcm

open Except

inductive PortDirection where
  | input
  | output
deriving DecidableEq, Repr

/-- Both modules observe one event, or a rule maps the source event to the target. -/
inductive ConnectionMode where
  | sharedEvent
  | eventMap
deriving DecidableEq, Repr

structure ModulePort where
  name : String
  direction : PortDirection
  eventType : String
  requiredConnection : Bool
  name_ne : name ≠ ""
  eventType_ne : eventType ≠ ""

/-- An annotation of a slot: a scalar or a list of names. -/
inductive Annotation where
  | scalar (v : Value)
  | names (list : List String)
deriving DecidableEq

/-- A slot with its annotations. -/
structure ModuleSlot where
  slot : EventSlot
  annotations : Dict String Annotation

/-- A rule with its tags. -/
structure ModuleRule where
  transformation : Transformation
  tags : List String

/-- One module, as far as the constructor of the source accepts it. -/
structure ModuleSpec where
  name : String
  ports : List ModulePort
  internalEvents : List String
  slots : List ModuleSlot
  rules : List ModuleRule
  stateVariables : List StateVariable
  constraints : List Expr
  name_ne : name ≠ ""
  ports_nodup : (ports.map ModulePort.name).Nodup
  internalEvents_nodup : internalEvents.Nodup
  slots_nodup : (slots.map (fun s => s.slot.id)).Nodup
  rules_nodup : (rules.map (fun r => r.transformation.name)).Nodup
  stateVariables_nodup : (stateVariables.map StateVariable.name).Nodup
  constraints_bool : ∀ c ∈ constraints, c.sort.isBool = true

namespace ModuleSpec

/-- The lists a module file gives for a module. -/
structure Sections where
  ports : List ModulePort
  internalEvents : List String
  slots : List ModuleSlot
  rules : List ModuleRule
  stateVariables : List StateVariable
  constraints : List Expr

/-- The constructor. -/
def create (name : String) (sections : Sections) : Except PyError ModuleSpec :=
  if name_ne : name = "" then .error (.schemaError "module name must be non-empty")
  else if ports_nodup : (sections.ports.map ModulePort.name).Nodup then
    if internalEvents_nodup : sections.internalEvents.Nodup then
      if slots_nodup : (sections.slots.map (fun s => s.slot.id)).Nodup then
        if rules_nodup : (sections.rules.map (fun r => r.transformation.name)).Nodup then
          if stateVariables_nodup : (sections.stateVariables.map StateVariable.name).Nodup then
            if constraints_bool : ∀ c ∈ sections.constraints, c.sort.isBool = true then
              .ok { sections with
                    name, name_ne, ports_nodup, internalEvents_nodup, slots_nodup, rules_nodup
                    stateVariables_nodup, constraints_bool }
            else .error (.schemaError s!"module {quoted name} constraints must be boolean")
          else duplicate "state variable(s)" (sections.stateVariables.map StateVariable.name)
        else duplicate "transformation(s)" (sections.rules.map (fun r => r.transformation.name))
      else duplicate "slot id(s)" (sections.slots.map (fun s => s.slot.id))
    else duplicate "internal event type(s)" sections.internalEvents
  else duplicate "port(s)" (sections.ports.map ModulePort.name)
where
  duplicate (kind : String) (values : List String) : Except PyError ModuleSpec :=
    let duplicates := joinSorted (repeated values)
    .error (.compositionError s!"module {quoted name} contains duplicate {kind}: {duplicates}")

def transformations (module : ModuleSpec) : List Transformation :=
  module.rules.map ModuleRule.transformation

/-- `port_map[name]`. -/
def port? (module : ModuleSpec) (name : String) : Option ModulePort :=
  module.ports.find? (fun port => port.name = name)

/-- The event types that are part of the module's surface. -/
def declaredEventTypes (module : ModuleSpec) : List String :=
  module.ports.map ModulePort.eventType ++ module.internalEvents ++
    module.slots.map (fun s => s.slot.eventType)

/-- The event types of a rule that its module does not declare. -/
def undeclared (module : ModuleSpec) (t : Transformation) : List String :=
  ((t.inputs ++ t.outputs).map EventRole.eventType).filter (· ∉ module.declaredEventTypes)

def validate (module : ModuleSpec) (catalog : EventCatalog) : Except PyError Unit := do
  module.ports.forM (fun port => discard (catalog.resolve port.eventType))
  module.internalEvents.forM (fun eventType => discard (catalog.resolve eventType))
  module.slots.forM (fun s => s.slot.validate catalog)
  module.transformations.forM (fun t => do
    let undeclared := module.undeclared t
    Except.require (undeclared = []) (.schemaError
      s!"module {quoted module.name} transformation {quoted t.name} references event type(s) not declared by a slot or port: {joinSorted undeclared}")
    t.validate catalog module.stateVariables)

/-- A slot of the module is private when no port has its event type. -/
def IsPrivate (module : ModuleSpec) (s : ModuleSlot) : Prop :=
  s ∈ module.slots ∧ s.slot.eventType ∉ module.ports.map ModulePort.eventType

end ModuleSpec

structure ModuleReference where
  name : String
  path : String
  name_ne : name ≠ ""
  path_ne : path ≠ ""

structure PortEndpoint where
  module : String
  port : String
  module_ne : module ≠ ""
  port_ne : port ≠ ""

instance : DecidableEq PortEndpoint := fun p q =>
  decidable_of_iff (p.module = q.module ∧ p.port = q.port) (by cases p; cases q; simp)

def PortEndpoint.qualifiedName (endpoint : PortEndpoint) : String :=
  s!"{endpoint.module}.{endpoint.port}"

/-- A directed connection between ports; the map goes from target fields to
source fields. -/
structure ConnectionSpec where
  name : String
  source : PortEndpoint
  target : PortEndpoint
  mode : ConnectionMode
  fieldMap : Dict String String
  sameCycle : Bool
  exact : Bool
  name_ne : name ≠ ""
  source_ne_target : source ≠ target
  shared_no_map : mode = .sharedEvent → fieldMap.entries = []

/-- Module references and connections with distinct names, and boolean
constraints. -/
structure CompositionSpec where
  name : String
  modules : List ModuleReference
  connections : List ConnectionSpec
  constraints : List Expr
  horizon : Nat
  metadata : Dict String Value
  name_ne : name ≠ ""
  modules_nodup : (modules.map ModuleReference.name).Nodup
  connections_nodup : (connections.map ConnectionSpec.name).Nodup
  constraints_bool : ∀ c ∈ constraints, c.sort.isBool = true

/-- `str(metadata.get("encapsulation", "legacy")) == "strict"`. -/
def CompositionSpec.isStrict (composition : CompositionSpec) : Bool :=
  ((composition.metadata.get? "encapsulation").getD (.str "legacy")).pyStr = "strict"

end Umcm
