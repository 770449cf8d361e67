import Umcm.Composition.Model

/-!
# Composing modules

`composeModules` loads the modules of a composition, checks their connections
and merges their slots, cells, rules and constraints into one completion model.
Trace roles, module files and their templates enter as the two arguments
`resolve` and `load`.
-/

namespace Umcm

open Except

/-- What a module reference loads: the resolved path and the module. -/
structure ModuleFile where
  path : String
  spec : ModuleSpec

structure LoadedModule where
  referenceName : String
  path : String
  spec : ModuleSpec

/-- The completion model with the annotated slots and the tagged rules it is made of. -/
structure CompositionResult where
  modules : List LoadedModule
  slots : List ModuleSlot
  rules : List ModuleRule
  completion : CompletionSpec
  generatedTransformations : List String

namespace Compose

def loadModule (catalog : EventCatalog) (load : ModuleReference → Except PyError ModuleFile)
    (reference : ModuleReference) : Except PyError LoadedModule := do
  let file ← load reference
  Except.require (file.spec.name = reference.name) (.compositionError
    s!"module reference {quoted reference.name} loads module named {quoted file.spec.name}: {file.path}")
  file.spec.validate catalog
  return { referenceName := reference.name, path := file.path, spec := file.spec }

/-! ## Connections -/

/-- `_resolve_port`. -/
def resolvePort (modules : List LoadedModule) (endpoint : PortEndpoint) :
    Except PyError ModulePort :=
  match modules.find? (fun m => m.referenceName = endpoint.module) with
  | none => .error (.compositionError s!"unknown module in connection: {endpoint.module}")
  | some m =>
    match m.spec.port? endpoint.port with
    | none => .error (.compositionError
        s!"module {quoted endpoint.module} has no port {quoted endpoint.port}")
    | some port => .ok port

/-- The names of the fields that both types have. -/
def commonFields (sourceType targetType : EventType) : List String :=
  (sourceType.fields.map FieldSpec.name).filter (fun name => (targetType.field? name).isSome)

/-- The pairs of a target field and a source field; without a map every common
field is mapped to itself. -/
def fieldMapping (connection : ConnectionSpec) (sourceType targetType : EventType) :
    List (String × String) :=
  if connection.fieldMap.entries = [] then
    (commonFields sourceType targetType).map (fun name => (name, name))
  else connection.fieldMap.entries

def validateMappedField (connection : ConnectionSpec) (sourceType targetType : EventType)
    (p : String × String) : Except PyError Unit :=
  match targetType.field? p.1 with
  | none => .error (.compositionError
      s!"connection {quoted connection.name} maps unknown target field {quoted p.1}")
  | some target =>
    match sourceType.field? p.2 with
    | none => .error (.compositionError
        s!"connection {quoted connection.name} maps unknown source field {quoted p.2}")
    | some source => Except.require (target.sort.compatibleWith source.sort) (.compositionError
        s!"connection {quoted connection.name} field mapping {quoted p.2}->{quoted p.1} has incompatible sorts {source.sort.pyStr} and {target.sort.pyStr}")

/-- `_validate_field_map`. -/
def validateFieldMap (connection : ConnectionSpec) (sourceType targetType : EventType) :
    Except PyError Unit :=
  (fieldMapping connection sourceType targetType).forM
    (validateMappedField connection sourceType targetType)

/-- One connection; `targets` are the input ports of the connections before it. -/
def validateConnection (modules : List LoadedModule) (catalog : EventCatalog)
    (targets : List PortEndpoint) (connection : ConnectionSpec) :
    Except PyError (List PortEndpoint) := do
  let sourcePort ← resolvePort modules connection.source
  let targetPort ← resolvePort modules connection.target
  Except.require (sourcePort.direction = .output) (.compositionError
    s!"connection {quoted connection.name} source {connection.source.qualifiedName} is not an output port")
  Except.require (targetPort.direction = .input) (.compositionError
    s!"connection {quoted connection.name} target {connection.target.qualifiedName} is not an input port")
  Except.require (connection.target ∉ targets) (.compositionError
    s!"input port {quoted connection.target.qualifiedName} has more than one incoming connection")
  let sourceType ← catalog.resolve sourcePort.eventType
  let targetType ← catalog.resolve targetPort.eventType
  if connection.mode = .sharedEvent then
    Except.require (sourceType.name = targetType.name) (.compositionError
      s!"shared_event connection {quoted connection.name} requires the same event type, got {quoted sourceType.name} and {quoted targetType.name}")
  else validateFieldMap connection sourceType targetType
  return targets ++ [connection.target]

def isConnected (connections : List ConnectionSpec) (moduleName portName : String) : Bool :=
  connections.any (fun connection =>
    (connection.source.module = moduleName && connection.source.port = portName) ||
      (connection.target.module = moduleName && connection.target.port = portName))

/-- `_validate_connections`. -/
def validateConnections (modules : List LoadedModule) (connections : List ConnectionSpec)
    (catalog : EventCatalog) : Except PyError Unit := do
  discard (connections.foldlM (validateConnection modules catalog) [])
  modules.forM (fun m => m.spec.ports.forM (fun port =>
    Except.require (port.requiredConnection = false ∨
        isConnected connections m.referenceName port.name = true) (.compositionError
      s!"required port {m.referenceName}.{port.name} is unconnected")))

/-! ## Event maps -/

/-- The target field equals the source field. -/
def mappedField (sourceType targetType : EventType) (p : String × String) :
    Except PyError { e : Expr // e.sort.isBool = true } :=
  match targetType.field? p.1, sourceType.field? p.2 with
  | some target, some source =>
    .ok ⟨.binary .eq (.eventField "target" p.1 target.sort) (.eventField "source" p.2 source.sort),
      rfl⟩
  | _, _ => .error .keyError

def sameCycle : { e : Expr // e.sort.isBool = true } :=
  ⟨.binary .eq (.eventField "target" "cycle" .int) (.eventField "source" "cycle" .int), rfl⟩

/-- `sorted(mapping.items())`. -/
def sortedMapping (mapping : List (String × String)) : List (String × String) :=
  (sortedList (mapping.map toLex).toFinset).map ofLex

/-- `_mapped_connection_transformation`: the target event occurs with the mapped
fields of the source event. -/
def mappedConnectionTransformation (modules : List LoadedModule) (catalog : EventCatalog)
    (connection : ConnectionSpec) : Except PyError Transformation := do
  let sourcePort ← resolvePort modules connection.source
  let targetPort ← resolvePort modules connection.target
  let sourceType ← catalog.resolve sourcePort.eventType
  let targetType ← catalog.resolve targetPort.eventType
  let mapped ← (sortedMapping (fieldMapping connection sourceType targetType)).mapM
    (mappedField sourceType targetType)
  let ensure := (if connection.sameCycle then [sameCycle] else []) ++ mapped
  return { name := "connection." ++ connection.name
           inputs := [⟨"source", sourcePort.eventType, by decide, sourcePort.eventType_ne⟩]
           outputs := [⟨"target", targetPort.eventType, by decide, targetPort.eventType_ne⟩]
           when := .literal (.bool true) .bool
           outputWhen := .literal (.bool true) .bool
           ensure := ensure.map Subtype.val
           stateRequirements := []
           stateUpdates := []
           isExact := connection.exact
           stateMode := .require
           name_ne := by simp
           roles_nodup := by simp
           when_bool := rfl
           outputWhen_bool := rfl
           ensure_bool := by
             intro e he
             obtain ⟨e, -, rfl⟩ := List.mem_map.mp he
             exact e.2
           exact_output := fun _ => rfl
           guard_outputs := fun h => nomatch h
           guard_updates := fun h => nomatch h }

def connectionTags (connection : ConnectionSpec) : List String :=
  ["connection", s!"source:{connection.source.qualifiedName}",
    s!"target:{connection.target.qualifiedName}"]

/-! ## Merging -/

/-- `annotations.setdefault(name, value)`. -/
def setDefault (name : String) (value : Annotation) (annotations : Dict String Annotation) :
    Dict String Annotation :=
  if (annotations.get? name).isSome then annotations else annotations.insert name value

/-- The ports that expose the event type. -/
def interfacePorts (spec : ModuleSpec) (eventType : String) : List String :=
  sortedList ((spec.ports.filter (fun port => port.eventType = eventType)).map
    ModulePort.name).toFinset

/-- A slot with its owner and its visibility; the annotations that the slot
declares itself are kept. -/
def annotate (m : LoadedModule) (s : ModuleSlot) : ModuleSlot :=
  let ports := interfacePorts m.spec s.slot.eventType
  let visibility := if ports = [] then "private" else "public"
  let annotations := setDefault "module_visibility" (.scalar (.str visibility))
    (setDefault "module_spec" (.scalar (.str m.referenceName)) s.annotations)
  { s with annotations :=
      if ports = [] then annotations
      else setDefault "interface_ports" (.names ports) annotations }

/-- A rule with the tag of its module; the tags it has are kept. -/
def tagRule (m : LoadedModule) (r : ModuleRule) : ModuleRule :=
  { r with tags := (r.tags ++ ["module:" ++ m.referenceName]).eraseDups }

/-- What has been merged so far. An owner is the module that declared a name. -/
structure Merged where
  slots : List ModuleSlot
  states : List StateVariable
  rules : List ModuleRule
  constraints : List Expr
  slotOwner : Dict String String
  stateOwner : Dict String String
  transformationOwner : Dict String String

def Merged.nothing : Merged := ⟨[], [], [], [], .empty, .empty, .empty⟩

/-- Record the owner of a name that nothing has declared before. -/
def declare (kind moduleName : String) (owners : Dict String String) (name : String) :
    Except PyError (Dict String String) :=
  match owners.get? name with
  | some previous => .error (.compositionError
      s!"{kind} {quoted name} is declared by both {quoted previous} and {quoted moduleName}")
  | none => .ok (owners.insert name moduleName)

/-- One module of the composition. -/
def mergeModule (merged : Merged) (m : LoadedModule) : Except PyError Merged := do
  let slotOwner ← (m.spec.slots.map (fun s => s.slot.id)).foldlM
    (declare "slot" m.referenceName) merged.slotOwner
  let stateOwner ← (m.spec.stateVariables.map StateVariable.name).foldlM
    (declare "state" m.referenceName) merged.stateOwner
  let transformationOwner ← (m.spec.transformations.map Transformation.name).foldlM
    (declare "transformation" m.referenceName) merged.transformationOwner
  return { slots := merged.slots ++ m.spec.slots.map (annotate m)
           states := merged.states ++ m.spec.stateVariables
           rules := merged.rules ++ m.spec.rules.map (tagRule m)
           constraints := merged.constraints ++ m.spec.constraints
           slotOwner, stateOwner, transformationOwner }

/-- Add the rule of an event map. -/
def mergeConnection (modules : List LoadedModule) (catalog : EventCatalog) (merged : Merged)
    (connection : ConnectionSpec) : Except PyError Merged := do
  let generated ← mappedConnectionTransformation modules catalog connection
  Except.require ((merged.transformationOwner.get? generated.name).isNone) (.compositionError
    s!"generated connection transformation collides with {quoted generated.name}")
  return { merged with
           rules := merged.rules ++ [⟨generated, connectionTags connection⟩]
           transformationOwner := merged.transformationOwner.insert generated.name
             ("connection:" ++ connection.name) }

/-! ## Encapsulation -/

/-- The slot counts as private when its visibility says so. -/
def markedPrivate (s : ModuleSlot) : Bool :=
  s.annotations.get? "module_visibility" = some (.scalar (.str "private"))

/-- The owner that the annotations of a slot name. -/
def annotatedOwner (s : ModuleSlot) : String :=
  match s.annotations.get? "module_spec" with
  | some (.scalar v) => v.pyStr
  | some (.names names) => "[" ++ ", ".intercalate (names.map quoted) ++ "]"
  | none => "<unknown>"

/-- One reference of a composition constraint. -/
def validateReference (slots : List ModuleSlot) (reference : String × String × IrSort) :
    Except PyError Unit :=
  match slots.find? (fun s => markedPrivate s && s.slot.id = reference.1) with
  | some s => .error (.compositionError
      s!"composition constraint reaches through module boundary: {quoted reference.1} is private to module {quoted (annotatedOwner s)}")
  | none => .ok ()

/-- `_validate_composition_constraint_encapsulation`. -/
def validateConstraintEncapsulation (constraints : List Expr) (slots : List ModuleSlot) :
    Except PyError Unit :=
  constraints.forM (fun constraint => constraint.eventFields.forM (validateReference slots))

/-- The check is made in strict compositions. -/
def validateBoundaries (composition : CompositionSpec) (slots : List ModuleSlot) :
    Except PyError Unit :=
  if composition.isStrict = true then
    validateConstraintEncapsulation composition.constraints slots
  else .ok ()

end Compose

open Compose

/-- The event maps add a rule each. -/
def CompositionSpec.eventMaps (composition : CompositionSpec) : List ConnectionSpec :=
  composition.connections.filter (fun connection => connection.mode = .eventMap)

def composeModules {Context : Type} (catalog : EventCatalog) (resolve : Except PyError Context)
    (load : Context → ModuleReference → Except PyError ModuleFile)
    (composition : CompositionSpec) : Except PyError CompositionResult := do
  let context ← resolve
  let modules ← composition.modules.mapM (loadModule catalog (load context))
  validateConnections modules composition.connections catalog
  let merged ← modules.foldlM mergeModule .nothing
  let connected ← composition.eventMaps.foldlM (mergeConnection modules catalog) merged
  validateBoundaries composition connected.slots
  let completion ← CompletionSpec.create (connected.slots.map ModuleSlot.slot)
    (connected.rules.map ModuleRule.transformation) connected.states
    (connected.constraints ++ composition.constraints) composition.horizon
  return { modules
           slots := connected.slots
           rules := connected.rules
           completion
           generatedTransformations :=
             composition.eventMaps.map (fun connection => "connection." ++ connection.name) }

end Umcm
