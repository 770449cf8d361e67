import Umcm.Ir.Completion

/-!
# Constructors

The records of the model from plain data, with the checks and the errors of the
constructors in the source. Subexpressions are built before the node.
-/

namespace Umcm

open Except

/-! ## Expressions -/

namespace Expr

/-- The name of the operator. -/
def binaryName : BinaryOp → String
  | .and => "and"
  | .or => "or"
  | .implies => "implies"
  | .xor => "xor"
  | .eq => "eq"
  | .ne => "ne"
  | .lt => "lt"
  | .le => "le"
  | .gt => "gt"
  | .ge => "ge"
  | .add => "add"
  | .sub => "sub"
  | .mul => "mul"
  | .div => "div"
  | .mod => "mod"

def unaryName : UnaryOp → String
  | .not => "not"
  | .neg => "neg"

def naryName : NaryOp → String
  | .and => "and"
  | .or => "or"
  | .distinct => "distinct"

/-- `_require_bool`. -/
def requireBool (e : Expr) (label : String) : Except PyError Unit :=
  Except.require e.sort.isBool
    (.expressionTypeError s!"{label} requires bool, got {e.sort.pyStr}")

/-- `_require_numeric`. -/
def requireNumeric (e : Expr) (label : String) : Except PyError Unit :=
  Except.require e.numeric
    (.expressionTypeError s!"{label} requires int/bv, got {e.sort.pyStr}")

/-- `_require_ordered`. -/
def requireOrdered (e : Expr) (label : String) : Except PyError Unit :=
  Except.require e.numeric
    (.expressionTypeError s!"{label} requires an ordered int/bv sort, got {e.sort.pyStr}")

/-- `_require_compatible`. -/
def requireCompatible (l r : Expr) (label : String) : Except PyError Unit :=
  Except.require (l.sort.compatibleWith r.sort)
    (.expressionTypeError
      s!"{label} requires matching sorts, got {l.sort.pyStr} and {r.sort.pyStr}")

def checkUnary (op : UnaryOp) (e : Expr) : Except PyError Unit :=
  match op with
  | .not => e.requireBool "not"
  | .neg => e.requireNumeric "neg"

def checkBinary (op : BinaryOp) (l r : Expr) : Except PyError Unit :=
  match op with
  | .and | .or | .implies | .xor => do
    l.requireBool (binaryName op)
    r.requireBool (binaryName op)
  | .eq | .ne => l.requireCompatible r (binaryName op)
  | .lt | .le | .gt | .ge => do
    l.requireCompatible r (binaryName op)
    l.requireOrdered (binaryName op)
  | .add | .sub | .mul | .div | .mod => do
    l.requireCompatible r (binaryName op)
    l.requireNumeric (binaryName op)

def checkNary (op : NaryOp) (operands : List Expr) : Except PyError Unit :=
  match op, operands with
  | op, [] => .error (.expressionTypeError s!"{naryName op} requires at least one operand")
  | .distinct, head :: rest => rest.forM (fun e => head.requireCompatible e "distinct")
  | op, operands => operands.forM (fun e => e.requireBool (naryName op))

mutual

/-- The constructors of the whole tree. -/
def check : Expr → Except PyError Unit
  | .literal v s => Except.require (s.acceptsLiteral v)
      (.expressionTypeError s!"literal {v.repr} is not valid for sort {s.pyStr}")
  | .symbol name _ => Except.require (name ≠ "")
      (.expressionTypeError "symbol name must be non-empty")
  | .eventField eventId field _ => Except.require (eventId ≠ "" ∧ field ≠ "")
      (.expressionTypeError "event field requires non-empty event_id and field")
  | .unary op e => do
    e.check
    checkUnary op e
  | .binary op l r => do
    l.check
    r.check
    checkBinary op l r
  | .nary op es => do
    checkAll es
    checkNary op es
  | .ite c t e => do
    c.check
    t.check
    e.check
    c.requireBool "ite condition"
    t.requireCompatible e "ite branches"
  | .call function es _ => do
    checkAll es
    Except.require (function ≠ "")
      (.expressionTypeError "call function name must be non-empty")

def checkAll : List Expr → Except PyError Unit
  | [] => .ok ()
  | e :: es => do
    e.check
    checkAll es

end

end Expr

/-! ## Event types -/

/-- A field of an event type, from its name, its sort and whether it is required. -/
def FieldSpec.create (field : String × IrSort × Bool) : Except PyError FieldSpec :=
  if name_ne : field.1 = "" then .error (.schemaError "field name must be non-empty")
  else .ok { name := field.1, sort := field.2.1, required := field.2.2, name_ne }

structure EventType.Fields where
  name : String
  fields : List (String × IrSort × Bool)

def EventType.create (eventType : EventType.Fields) : Except PyError EventType := do
  let fields ← eventType.fields.mapM FieldSpec.create
  if qualified : '.' ∈ eventType.name.toList then
    if nodup : (fields.map FieldSpec.name).Nodup then
      .ok { name := eventType.name, fields, qualified, nodup }
    else .error (.schemaError s!"event type {quoted eventType.name} has duplicate fields")
  else .error (.schemaError "event type name must be qualified, for example 'LSU.TLBMiss'")

namespace EventCatalog

theorem named_insert (catalog : EventCatalog) (eventType : EventType) :
    ∀ p ∈ (catalog.eventTypes.insert eventType.name eventType).entries, p.2.name = p.1 := by
  intro p hp
  rcases Dict.mem_entries_insert hp with rfl | hp
  · rfl
  · exact catalog.named p hp

def register (catalog : EventCatalog) (eventType : EventType) : Except PyError EventCatalog :=
  if eventType.name ∈ catalog.eventTypes.keys then
    .error (.schemaError s!"duplicate event type: {eventType.name}")
  else
    .ok { eventTypes := catalog.eventTypes.insert eventType.name eventType
          named := catalog.named_insert eventType }

/-- The catalog of the event types, registered in order. -/
def create (eventTypes : List EventType.Fields) : Except PyError EventCatalog :=
  eventTypes.foldlM (fun catalog fields => do
    let eventType ← EventType.create fields
    catalog.register eventType) { eventTypes := .empty, named := fun _ h => nomatch h }

end EventCatalog

/-! ## Records -/

/-- A scalar needs no check. -/
def Term.check : Term → Except PyError Unit
  | .value _ => .ok ()
  | .expr e => e.check

/-- A slot as the file gives it. -/
structure EventSlot.Fields where
  id : String
  eventType : String
  required : Bool
  fields : List (String × Term)

/-- A slot with a symbolic cycle. -/
def EventSlot.create (slot : EventSlot.Fields) : Except PyError EventSlot := do
  slot.fields.forM (fun p => p.2.check)
  if id_ne : slot.id = "" then .error (.schemaError "event slot id must be non-empty")
  else if eventType_ne : slot.eventType = "" then
    .error (.schemaError "event slot type must be non-empty")
  else
    .ok { id := slot.id, eventType := slot.eventType, fields := .ofList slot.fields
          required := slot.required, cycle := .value .none, id_ne, eventType_ne }

structure StateVariable.Fields where
  name : String
  sort : IrSort
  initial : Value

def StateVariable.create (cell : StateVariable.Fields) : Except PyError StateVariable :=
  if qualified : '.' ∈ cell.name.toList then
    if initial_fits : (Term.value cell.initial).fits cell.sort = true then
      .ok { name := cell.name, sort := cell.sort, initial := .value cell.initial, qualified
            initial_fits }
    else .error (.schemaError
      s!"state variable {quoted cell.name} initial value {cell.initial.repr} is invalid for {cell.sort.pyStr}")
  else .error (.schemaError
    "state variable name must be qualified, for example 'LSU.retry_queue.valid'")

/-- A role as a pair of its name and its type. -/
def EventRole.create (role : String × String) : Except PyError EventRole :=
  if name_ne : role.1 = "" then .error (.schemaError "event role name must be non-empty")
  else if eventType_ne : role.2 = "" then
    .error (.schemaError "event role type must be non-empty")
  else .ok { name := role.1, eventType := role.2, name_ne, eventType_ne }

structure StateRequirement.Fields where
  state : String
  atRole : String
  op : CompareOp
  value : Expr

def StateRequirement.create (requirement : StateRequirement.Fields) :
    Except PyError StateRequirement := do
  requirement.value.check
  if state_ne : requirement.state = "" then
    .error (.schemaError "state requirement must name a state variable")
  else if atRole_ne : requirement.atRole = "" then
    .error (.schemaError "state requirement must name an anchor role")
  else
    .ok { state := requirement.state, atRole := requirement.atRole, op := requirement.op
          value := requirement.value, state_ne, atRole_ne }

structure StateUpdate.Fields where
  state : String
  atRole : String
  value : Expr

def StateUpdate.create (update : StateUpdate.Fields) : Except PyError StateUpdate := do
  update.value.check
  if state_ne : update.state = "" then
    .error (.schemaError "state update must name a state variable")
  else if atRole_ne : update.atRole = "" then
    .error (.schemaError "state update must name an anchor role")
  else
    .ok { state := update.state, atRole := update.atRole, value := update.value, state_ne
          atRole_ne }

/-! ## Transformations -/

namespace Transformation

/-- A rule as the file gives it; what it leaves out has a default. -/
structure Fields where
  name : String
  inputs : List (String × String)
  outputs : List (String × String) := []
  when : Expr := .literal (.bool true) .bool
  outputWhen : Expr := .literal (.bool true) .bool
  ensure : List Expr := []
  stateRequirements : List StateRequirement.Fields := []
  stateUpdates : List StateUpdate.Fields := []
  isExact : Bool := false
  stateMode : StateMode := .require

/-- The parts of a rule, built. -/
structure Parts where
  inputs : List EventRole
  outputs : List EventRole
  stateRequirements : List StateRequirement
  stateUpdates : List StateUpdate

def Fields.parts (f : Fields) : Except PyError Parts := do
  let inputs ← f.inputs.mapM EventRole.create
  let outputs ← f.outputs.mapM EventRole.create
  (f.when :: f.outputWhen :: f.ensure).forM Expr.check
  let stateRequirements ← f.stateRequirements.mapM StateRequirement.create
  let stateUpdates ← f.stateUpdates.mapM StateUpdate.create
  return { inputs, outputs, stateRequirements, stateUpdates }

/-- The constructor. -/
def construct (f : Fields) (p : Parts) : Except PyError Transformation :=
  if name_ne : f.name = "" then .error (.schemaError "transformation name must be non-empty")
  else if roles_nodup : ((p.inputs ++ p.outputs).map EventRole.name).Nodup then
    if when_bool : f.when.sort.isBool = true then
      if outputWhen_bool : f.outputWhen.sort.isBool = true then
        if ensure_bool : ∀ e ∈ f.ensure, e.sort.isBool = true then
          if exact_output : f.isExact = true → p.outputs.length = 1 then
            if guard_outputs : f.stateMode = .guard → p.outputs ≠ [] then
              if guard_updates : f.stateMode = .guard → p.stateUpdates = [] then
                .ok { name := f.name, inputs := p.inputs, outputs := p.outputs, when := f.when
                      outputWhen := f.outputWhen, ensure := f.ensure
                      stateRequirements := p.stateRequirements, stateUpdates := p.stateUpdates
                      isExact := f.isExact, stateMode := f.stateMode, name_ne, roles_nodup
                      when_bool, outputWhen_bool, ensure_bool, exact_output, guard_outputs
                      guard_updates }
              else .error (.schemaError (s!"state-guarded transformation {quoted f.name} cannot directly update state; " ++
                "attach updates to the derived output event in a separate transformation"))
            else .error (.schemaError
              s!"state-guarded transformation {quoted f.name} must have outputs")
          else .error (.schemaError
            s!"exact transformation {quoted f.name} must have exactly one output role")
        else .error (.schemaError
          s!"transformation {quoted f.name} ensure expressions must be bool")
      else .error (.schemaError s!"transformation {quoted f.name} output guard must be bool")
    else .error (.schemaError s!"transformation {quoted f.name} guard must be bool")
  else .error (.schemaError s!"transformation {quoted f.name} has duplicate role names")

def create (f : Fields) : Except PyError Transformation := do
  let p ← f.parts
  construct f p

/-! ## What is built -/

/-- The rule is built from these fields. -/
structure BuiltFrom (t : Transformation) (f : Fields) : Prop where
  name_eq : t.name = f.name
  inputs_eq : t.inputs.map (fun r => (r.name, r.eventType)) = f.inputs
  outputs_eq : t.outputs.map (fun r => (r.name, r.eventType)) = f.outputs
  when_eq : t.when = f.when
  outputWhen_eq : t.outputWhen = f.outputWhen
  ensure_eq : t.ensure = f.ensure
  requirements_eq : t.stateRequirements.map
    (fun r => StateRequirement.Fields.mk r.state r.atRole r.op r.value) = f.stateRequirements
  updates_eq : t.stateUpdates.map (fun u => StateUpdate.Fields.mk u.state u.atRole u.value) =
    f.stateUpdates
  isExact_eq : t.isExact = f.isExact
  stateMode_eq : t.stateMode = f.stateMode

end Transformation

theorem EventRole.create_eq_ok {role : String × String} {r : EventRole}
    (h : EventRole.create role = .ok r) : (r.name, r.eventType) = role := by
  unfold EventRole.create at h
  split_ifs at h
  cases h
  rfl

theorem StateRequirement.create_eq_ok {f : StateRequirement.Fields} {r : StateRequirement}
    (h : StateRequirement.create f = .ok r) :
    StateRequirement.Fields.mk r.state r.atRole r.op r.value = f := by
  obtain ⟨_, -, h⟩ := bind_eq_ok.mp h
  split_ifs at h
  cases h
  rfl

theorem StateUpdate.create_eq_ok {f : StateUpdate.Fields} {u : StateUpdate}
    (h : StateUpdate.create f = .ok u) : StateUpdate.Fields.mk u.state u.atRole u.value = f := by
  obtain ⟨_, -, h⟩ := bind_eq_ok.mp h
  split_ifs at h
  cases h
  rfl

theorem StateVariable.create_eq_ok {f : StateVariable.Fields} {cell : StateVariable}
    (h : StateVariable.create f = .ok cell) :
    cell.name = f.name ∧ cell.sort = f.sort ∧ cell.initial = .value f.initial := by
  unfold StateVariable.create at h
  split_ifs at h
  cases h
  exact ⟨rfl, rfl, rfl⟩

theorem EventSlot.create_eq_ok {f : EventSlot.Fields} {slot : EventSlot}
    (h : EventSlot.create f = .ok slot) :
    slot.id = f.id ∧ slot.eventType = f.eventType ∧ slot.required = f.required ∧
      slot.fields = .ofList f.fields := by
  obtain ⟨_, -, h⟩ := bind_eq_ok.mp h
  split_ifs at h
  cases h
  exact ⟨rfl, rfl, rfl, rfl⟩

/-- A list that is built member by member shows the data it is built from. -/
theorem map_of_mapM {γ δ : Type} {f : γ → Except PyError δ} {g : δ → γ} {l : List γ} {r : List δ}
    (h : l.mapM f = .ok r) (hg : ∀ a b, f a = .ok b → g b = a) : r.map g = l := by
  have hmap := map_mapM (p := g) (q := id) h (fun hab => hg _ _ hab)
  rwa [List.map_id] at hmap

theorem Transformation.builtFrom_of_create {f : Transformation.Fields} {t : Transformation}
    (h : Transformation.create f = .ok t) : t.BuiltFrom f := by
  obtain ⟨p, hp, h⟩ := bind_eq_ok.mp h
  obtain ⟨inputs, hinputs, hp⟩ := bind_eq_ok.mp hp
  obtain ⟨outputs, houtputs, hp⟩ := bind_eq_ok.mp hp
  obtain ⟨_, -, hp⟩ := bind_eq_ok.mp hp
  obtain ⟨requirements, hrequirements, hp⟩ := bind_eq_ok.mp hp
  obtain ⟨updates, hupdates, hp⟩ := bind_eq_ok.mp hp
  cases hp
  unfold construct at h
  split_ifs at h
  cases h
  exact
    { name_eq := rfl
      inputs_eq := map_of_mapM hinputs (fun _ _ => EventRole.create_eq_ok)
      outputs_eq := map_of_mapM houtputs (fun _ _ => EventRole.create_eq_ok)
      when_eq := rfl
      outputWhen_eq := rfl
      ensure_eq := rfl
      requirements_eq := map_of_mapM hrequirements (fun _ _ => StateRequirement.create_eq_ok)
      updates_eq := map_of_mapM hupdates (fun _ _ => StateUpdate.create_eq_ok)
      isExact_eq := rfl
      stateMode_eq := rfl }

end Umcm
