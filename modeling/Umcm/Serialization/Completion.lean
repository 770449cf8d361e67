import Umcm.Serialization.Value

/-!
# Stored completion models

`to_dict` and `from_dict` of completion specifications and of what they consist of. The
records hold every field of the source, descriptions, tags, annotations and metadata
included; `core` leaves these out.

* `completion_roundTrip`: a specification is read back as it was stored, unless the only
  field of a slot is called `$expr`.
-/

namespace Umcm

open Except

namespace Stored

/-! ## Expressions and lists of records -/

/-- `data.get(name, [])` for lists that are checked before anything is built. -/
def rawList (entries : DocEntries) (kind name : String) : Except PyError (List Doc) :=
  listOf entries name s!"{kind} {name} must be a list"

/-- The unknown keys of a record, as texts in order. -/
def unknownNames (entries : DocEntries) (allowed : List String) : List String :=
  ((entries.filter (fun p => !(p.1.text?.any (fun name => allowed.contains name)))).map
    (fun p => p.1.pyStr)).insertionSort (· ≤ ·)

def rejectUnknown (entries : DocEntries) (allowed : List String) (message : String) :
    Except PyError Unit :=
  Except.require (unknownNames entries allowed = [])
    (.serializationError (message ++ ", ".intercalate (unknownNames entries allowed)))

/-- A record with known names only. -/
theorem rejectUnknown_of_all {entries : DocEntries} {allowed : List String} {message : String}
    (h : ∀ p ∈ entries, ∃ name ∈ allowed, p.1 = .text name) :
    rejectUnknown entries allowed message = .ok () := by
  have hnone : entries.filter (fun p => !(p.1.text?.any (fun name => allowed.contains name))) = [] := by
    rw [List.filter_eq_nil_iff]
    intro p hp
    obtain ⟨name, hname, hkey⟩ := h p hp
    rw [hkey]
    simpa [DocKey.text, DocKey.text?] using hname
  unfold rejectUnknown
  rw [require_eq_ok]
  unfold unknownNames
  rw [hnone]
  rfl

theorem mem_optional {name : String} {d : Option Doc} {p : DocKey × Doc}
    (h : p ∈ DocEntries.optional name d) : p.1 = .text name := by
  unfold DocEntries.optional at h
  cases d with
  | none => cases h
  | some d => rw [List.mem_singleton.mp h]

/-! ## Roles, requirements and updates -/

def roleToDict (role : EventRole) : Doc :=
  .dict [(.text "role", .scalar (.str role.name)), (.text "type", .scalar (.str role.eventType))]

def roleFromDict : Doc → Except PyError EventRole
  | .dict entries => do
    let name ← requiredOf entries "event role" "role"
    let eventType ← requiredOf entries "event role" "type"
    EventRole.create (name.pyStr, eventType.pyStr)
  | _ => .error (.serializationError "event role must be a mapping")

def compareText : CompareOp → String
  | .eq => "eq"
  | .ne => "ne"
  | .lt => "lt"
  | .le => "le"
  | .gt => "gt"
  | .ge => "ge"

def compareOf? (text : String) : Option CompareOp :=
  [CompareOp.eq, .ne, .lt, .le, .gt, .ge].find? (fun op => compareText op = text)

theorem compareOf?_text (op : CompareOp) : compareOf? (compareText op) = some op := by
  cases op <;> rfl

structure StateRequirement extends Umcm.StateRequirement where
  description : String

namespace StateRequirement

def make (state atRole op : String) (value : Expr) (description : String) :
    Except PyError StateRequirement :=
  if state_ne : state = "" then
    .error (.schemaError "state requirement must name a state variable")
  else if atRole_ne : atRole = "" then
    .error (.schemaError "state requirement must name an anchor role")
  else
    match compareOf? op with
    | some op => .ok { state, atRole, op, value, state_ne, atRole_ne, description }
    | none => .error (.schemaError
        s!"unsupported state requirement operator {quoted op}; available: eq, ne")

def toDict (r : StateRequirement) : Doc :=
  .dict ((.text "state", .scalar (.str r.state)) :: (.text "at", .scalar (.str r.atRole)) ::
    (.text "op", .scalar (.str (compareText r.op))) :: (.text "value", exprToDict r.value) ::
    textEntry "description" r.description)

def fromDict : Doc → Except PyError StateRequirement
  | .dict entries => do
    let state ← requiredOf entries "state requirement" "state"
    let atRole ← requiredOf entries "state requirement" "at"
    let rawValue ← requiredOf entries "state requirement" "value"
    let value ← exprFromDict rawValue
    make state.pyStr atRole.pyStr (textOr entries "op" "eq") value (textOf entries "description")
  | _ => .error (.serializationError "state requirement must be a mapping")

theorem fromDict_toDict {r : StateRequirement} (h : r.value.wellTyped = true) :
    fromDict r.toDict = .ok r := by
  have hparts : fromDict r.toDict = (do
      let value ← exprFromDict (exprToDict r.value)
      make r.state r.atRole (compareText r.op) value r.description) := by
    unfold toDict textEntry
    by_cases hempty : r.description = ""
    · rw [if_pos hempty, hempty]
      rfl
    · rw [if_neg hempty]
      rfl
  rw [hparts, exprFromDict_toDict r.value h, ok_bind]
  unfold make
  rw [dif_neg r.state_ne, dif_neg r.atRole_ne, compareOf?_text]

end StateRequirement

structure StateUpdate extends Umcm.StateUpdate where
  description : String

namespace StateUpdate

def make (state atRole : String) (value : Expr) (description : String) :
    Except PyError StateUpdate :=
  if state_ne : state = "" then .error (.schemaError "state update must name a state variable")
  else if atRole_ne : atRole = "" then
    .error (.schemaError "state update must name an anchor role")
  else .ok { state, atRole, value, state_ne, atRole_ne, description }

def toDict (u : StateUpdate) : Doc :=
  .dict ((.text "state", .scalar (.str u.state)) :: (.text "at", .scalar (.str u.atRole)) ::
    (.text "value", exprToDict u.value) :: textEntry "description" u.description)

def fromDict : Doc → Except PyError StateUpdate
  | .dict entries => do
    let state ← requiredOf entries "state update" "state"
    let atRole ← requiredOf entries "state update" "at"
    let rawValue ← requiredOf entries "state update" "value"
    let value ← exprFromDict rawValue
    make state.pyStr atRole.pyStr value (textOf entries "description")
  | _ => .error (.serializationError "state update must be a mapping")

theorem fromDict_toDict {u : StateUpdate} (h : u.value.wellTyped = true) :
    fromDict u.toDict = .ok u := by
  have hparts : fromDict u.toDict = (do
      let value ← exprFromDict (exprToDict u.value)
      make u.state u.atRole value u.description) := by
    unfold toDict textEntry
    by_cases hempty : u.description = ""
    · rw [if_pos hempty, hempty]
      rfl
    · rw [if_neg hempty]
      rfl
  rw [hparts, exprFromDict_toDict u.value h, ok_bind]
  unfold make
  rw [dif_neg u.state_ne, dif_neg u.atRole_ne]

end StateUpdate

/-! ## State cells -/

/-- The sort takes the value. -/
def fitsDoc (s : IrSort) : Doc → Bool
  | .scalar v => s.acceptsLiteral v
  | .expr e => e.sort.compatibleWith s
  | _ => false

/-- A state cell; the initial value is a scalar or an expression. -/
structure StateVariable where
  name : String
  sort : IrSort
  initial : Doc
  description : String
  qualified : '.' ∈ name.toList
  initial_fits : fitsDoc sort initial = true

namespace StateVariable

def make (name : String) (sort : IrSort) (initial : Doc) (description : String) :
    Except PyError StateVariable :=
  if qualified : '.' ∈ name.toList then
    if initial_fits : fitsDoc sort initial = true then
      .ok { name, sort, initial, description, qualified, initial_fits }
    else
      match initial with
      | .expr e => .error (.schemaError
          (s!"state variable {quoted name} initial expression has sort {e.sort.pyStr}, " ++
            s!"expected {sort.pyStr}"))
      | d => .error (.schemaError
          s!"state variable {quoted name} initial value {d.repr} is invalid for {sort.pyStr}")
  else .error (.schemaError
    "state variable name must be qualified, for example 'LSU.retry_queue.valid'")

def toDict (cell : StateVariable) : Doc :=
  .dict ((.text "name", .scalar (.str cell.name)) :: (.text "sort", sortToDict cell.sort) ::
    (.text "initial", encodeValue cell.initial) :: textEntry "description" cell.description)

def fromDict : Doc → Except PyError StateVariable
  | .dict entries => do
    let name ← requiredOf entries "state variable" "name"
    let rawSort ← requiredOf entries "state variable" "sort"
    let sort ← sortFromDict rawSort
    let rawInitial ← requiredOf entries "state variable" "initial"
    let initial ← decodeValue rawInitial
    make name.pyStr sort initial (textOf entries "description")
  | _ => .error (.serializationError "state variable must be a mapping")

theorem fromDict_toDict {cell : StateVariable} (h : IsDecoded cell.initial) :
    fromDict cell.toDict = .ok cell := by
  have hparts : fromDict cell.toDict = (do
      let sort ← sortFromDict (sortToDict cell.sort)
      let initial ← decodeValue (encodeValue cell.initial)
      make cell.name sort initial cell.description) := by
    unfold toDict textEntry
    by_cases hempty : cell.description = ""
    · rw [if_pos hempty, hempty]
      rfl
    · rw [if_neg hempty]
      rfl
  rw [hparts, sortFromDict_toDict, decodeValue_encodeValue h, ok_bind, ok_bind]
  unfold make
  rw [dif_pos cell.qualified, dif_pos cell.initial_fits]

end StateVariable

/-! ## Slots -/

structure EventSlot where
  id : String
  eventType : String
  fields : Dict String Doc
  required : Bool
  cycle : Doc
  annotations : DocEntries
  id_ne : id ≠ ""
  eventType_ne : eventType ≠ ""

/-- The entries of a dictionary as those of a mapping. -/
def docEntries (d : Dict String Doc) : DocEntries := d.entries.map (fun p => (.text p.1, p.2))

namespace EventSlot

def make (id eventType : String) (fields : Dict String Doc) (required : Bool) (cycle : Doc)
    (annotations : DocEntries) : Except PyError EventSlot :=
  if id_ne : id = "" then .error (.schemaError "event slot id must be non-empty")
  else if eventType_ne : eventType = "" then
    .error (.schemaError "event slot type must be non-empty")
  else .ok { id, eventType, fields, required, cycle, annotations, id_ne, eventType_ne }

def toDict (slot : EventSlot) : Doc :=
  .dict ((.text "id", .scalar (.str slot.id)) :: (.text "type", .scalar (.str slot.eventType)) ::
    (.text "required", .scalar (.bool slot.required)) ::
    (.text "fields", encodeValue (.dict (docEntries slot.fields))) ::
    (DocEntries.optional "cycle"
        (if isNone slot.cycle then none else some (encodeValue slot.cycle)) ++
      DocEntries.optional "annotations"
        (if slot.annotations = [] then none else some (encodeValue (.dict slot.annotations)))))

/-- The fields of a decoded mapping, whose keys are texts. -/
def fieldsOf (entries : DocEntries) : Dict String Doc :=
  .ofList (entries.map (fun p => (p.1.pyStr, p.2)))

def fromDict : Doc → Except PyError EventSlot
  | .dict entries => do
    let rawFields ← decodedOf entries "fields"
    let rawAnnotations ← decodedOf entries "annotations"
    let fields ← asMapping rawFields "event slot fields must be a mapping"
    let annotations ← asMapping rawAnnotations "event slot annotations must be a mapping"
    let id ← requiredOf entries "event slot" "id"
    let eventType ← requiredOf entries "event slot" "type"
    let cycle ← decodeValue ((DocEntries.get? entries "cycle").getD (.scalar .none))
    make id.pyStr eventType.pyStr (fieldsOf fields) (flagOr entries "required" false) cycle
      annotations
  | _ => .error (.serializationError "event slot must be a mapping")

theorem fieldsOf_docEntries (d : Dict String Doc) : fieldsOf (docEntries d) = d := by
  have hpairs : (docEntries d).map (fun p => (p.1.pyStr, p.2)) = d.entries := by
    unfold docEntries
    rw [List.map_map]
    exact List.map_id _
  rw [fieldsOf, hpairs, Dict.ofList_entries]

/-- What a slot consists of is decoded. -/
structure Decoded (slot : EventSlot) : Prop where
  fields : ∀ p ∈ slot.fields.entries, IsDecoded p.2
  cycle : IsDecoded slot.cycle
  annotations : IsDecoded (.dict slot.annotations)

/-- The only field of a slot is not read as an expression. -/
def Plain (slot : EventSlot) : Prop := slot.fields.entries.map Prod.fst ≠ ["$expr"]

instance (slot : EventSlot) : Decidable slot.Plain := inferInstanceAs (Decidable (¬_))

theorem asMapping_decodeExpr {d r : Doc} {message : String} {entries : DocEntries}
    (h : decodeExpr d = .ok r) : asMapping r message ≠ .ok entries := by
  cases d with
  | dict payload =>
      have h : (.expr <$> exprFromDict (.dict payload)) = Except.ok r := h
      cases hload : exprFromDict (.dict payload) with
      | error _ =>
          rw [hload] at h
          cases h
      | ok e =>
          rw [hload] at h
          cases h
          exact fun hmapping => nomatch hmapping
  | scalar v => cases h
  | expr e => cases h
  | list items => cases h

theorem fromDict_toDict_iff {slot : EventSlot} (h : slot.Decoded) :
    fromDict slot.toDict = .ok slot ↔ slot.Plain := by
  -- what is left out is read as its default
  have hparts : fromDict slot.toDict = (do
      let rawFields ← decodeValue (encodeValue (.dict (docEntries slot.fields)))
      let rawAnnotations ← decodeValue (if slot.annotations = [] then .dict []
        else encodeValue (.dict slot.annotations))
      let fields ← asMapping rawFields "event slot fields must be a mapping"
      let annotations ← asMapping rawAnnotations "event slot annotations must be a mapping"
      let cycle ← decodeValue (if isNone slot.cycle then .scalar .none else encodeValue slot.cycle)
      make slot.id slot.eventType (fieldsOf fields) slot.required cycle annotations) := by
    unfold toDict
    by_cases hnone : isNone slot.cycle = true
    · by_cases hempty : slot.annotations = []
      · simp only [hnone, hempty, reduceIte]
        rfl
      · simp only [hnone, hempty, reduceIte]
        rfl
    · by_cases hempty : slot.annotations = []
      · simp only [hnone, hempty, reduceIte]
        rfl
      · simp only [hnone, hempty, reduceIte]
        rfl
  have hannotations : decodeValue (if slot.annotations = [] then .dict []
      else encodeValue (.dict slot.annotations)) = .ok (.dict slot.annotations) := by
    split_ifs with hempty
    · rw [hempty]
      rfl
    · exact decodeValue_encodeValue h.annotations
  have hcycle : decodeValue (if isNone slot.cycle then .scalar .none else encodeValue slot.cycle) =
      .ok slot.cycle := by
    split_ifs with hnone
    · rw [isNone_iff.mp hnone]
      rfl
    · exact decodeValue_encodeValue h.cycle
  rw [hparts]
  constructor
  · intro hload
    rw [Plain, Ne, List.map_eq_singleton_iff]
    rintro ⟨⟨name, d⟩, hentries, hname⟩
    have hname : name = "$expr" := hname
    subst hname
    -- the fields are read as an expression
    have hfields : decodeValue (encodeValue (.dict (docEntries slot.fields))) =
        decodeExpr (encodeValue d) := by
      unfold docEntries
      rw [hentries]
      rfl
    rw [hfields] at hload
    obtain ⟨rawFields, hdecode, hload⟩ := bind_eq_ok.mp hload
    obtain ⟨rawAnnotations, -, hload⟩ := bind_eq_ok.mp hload
    obtain ⟨fields, hmapping, -⟩ := bind_eq_ok.mp hload
    exact asMapping_decodeExpr hdecode hmapping
  · intro hplain
    have hfields : IsDecoded (.dict (docEntries slot.fields)) :=
      IsDecoded.dict slot.fields.entries slot.fields.nodup hplain h.fields
    rw [decodeValue_encodeValue hfields, hannotations, hcycle]
    show make slot.id slot.eventType (fieldsOf (docEntries slot.fields)) slot.required slot.cycle
      slot.annotations = _
    rw [fieldsOf_docEntries]
    unfold make
    rw [dif_neg slot.id_ne, dif_neg slot.eventType_ne]

end EventSlot

/-! ## Transformations -/

def stateModeText : StateMode → String
  | .require => "require"
  | .guard => "guard"

/-- A rule with all its texts. -/
structure Transformation where
  name : String
  inputs : List EventRole
  outputs : List EventRole
  when : Expr
  outputWhen : Expr
  ensure : List Expr
  stateRequirements : List StateRequirement
  stateUpdates : List StateUpdate
  isExact : Bool
  stateMode : StateMode
  description : String
  tags : List String
  name_ne : name ≠ ""
  roles_nodup : ((inputs ++ outputs).map EventRole.name).Nodup
  when_bool : when.sort.isBool = true
  outputWhen_bool : outputWhen.sort.isBool = true
  ensure_bool : ∀ e ∈ ensure, e.sort.isBool = true
  exact_output : isExact = true → outputs.length = 1
  guard_outputs : stateMode = .guard → outputs ≠ []
  guard_updates : stateMode = .guard → stateUpdates = []

namespace Transformation

/-- The parts of a rule that `from_dict` builds. -/
structure Parts where
  inputs : List EventRole
  outputs : List EventRole
  when : Expr
  outputWhen : Expr
  ensure : List Expr
  stateRequirements : List StateRequirement
  stateUpdates : List StateUpdate

def make (name : String) (p : Parts) (isExact : Bool) (mode description : String)
    (tags : List String) : Except PyError Transformation :=
  if name_ne : name = "" then .error (.schemaError "transformation name must be non-empty")
  else if roles_nodup : ((p.inputs ++ p.outputs).map EventRole.name).Nodup then
    if when_bool : p.when.sort.isBool = true then
      if outputWhen_bool : p.outputWhen.sort.isBool = true then
        if ensure_bool : ∀ e ∈ p.ensure, e.sort.isBool = true then
          if exact_output : isExact = true → p.outputs.length = 1 then
            if mode = "require" then
              .ok { name, inputs := p.inputs, outputs := p.outputs, when := p.when
                    outputWhen := p.outputWhen, ensure := p.ensure
                    stateRequirements := p.stateRequirements, stateUpdates := p.stateUpdates
                    isExact, stateMode := .require, description, tags, name_ne, roles_nodup
                    when_bool, outputWhen_bool, ensure_bool, exact_output
                    guard_outputs := fun h => nomatch h
                    guard_updates := fun h => nomatch h }
            else if mode = "guard" then
              if guard_outputs : p.outputs ≠ [] then
                if guard_updates : p.stateUpdates = [] then
                  .ok { name, inputs := p.inputs, outputs := p.outputs, when := p.when
                        outputWhen := p.outputWhen, ensure := p.ensure
                        stateRequirements := p.stateRequirements, stateUpdates := p.stateUpdates
                        isExact, stateMode := .guard, description, tags, name_ne, roles_nodup
                        when_bool, outputWhen_bool, ensure_bool, exact_output
                        guard_outputs := fun _ => guard_outputs
                        guard_updates := fun _ => guard_updates }
                else .error (.schemaError
                  (s!"state-guarded transformation {quoted name} cannot directly update state; " ++
                    "attach updates to the derived output event in a separate transformation"))
              else .error (.schemaError
                s!"state-guarded transformation {quoted name} must have outputs")
            else .error (.schemaError
              s!"transformation {quoted name} state_mode must be require or guard")
          else .error (.schemaError
            s!"exact transformation {quoted name} must have exactly one output role")
        else .error (.schemaError
          s!"transformation {quoted name} ensure expressions must be bool")
      else .error (.schemaError s!"transformation {quoted name} output guard must be bool")
    else .error (.schemaError s!"transformation {quoted name} guard must be bool")
  else .error (.schemaError s!"transformation {quoted name} has duplicate role names")

def trueExpr : Expr := .literal (.bool true) .bool

/-- `tuple(str(item) for item in data.get("tags", []))`, for any iterable. -/
def tagsOf : Option Doc → Except PyError (List String)
  | none => .ok []
  | some (.list items) => .ok (items.map Doc.pyStr)
  | some (.dict entries) => .ok (entries.map (fun p => p.1.pyStr))
  | some (.scalar (.str text)) => .ok (text.toList.map String.singleton)
  | some _ => .error .typeError

def listEntry (name : String) (items : List Doc) : DocEntries :=
  DocEntries.optional name (if items = [] then none else some (.list items))

def toDict (t : Transformation) : Doc :=
  .dict ((.text "name", .scalar (.str t.name)) ::
    (.text "inputs", .list (t.inputs.map roleToDict)) ::
    (.text "outputs", .list (t.outputs.map roleToDict)) :: (.text "when", exprToDict t.when) ::
    (.text "output_when", exprToDict t.outputWhen) ::
    (.text "ensure", .list (t.ensure.map exprToDict)) ::
    (listEntry "state_requirements" (t.stateRequirements.map StateRequirement.toDict) ++
    (listEntry "state_updates" (t.stateUpdates.map StateUpdate.toDict) ++
    (DocEntries.optional "exact" (if t.isExact then some (.scalar (.bool true)) else none) ++
    (DocEntries.optional "state_mode" (if t.stateMode = .require then none
      else some (.scalar (.str (stateModeText t.stateMode)))) ++
    (textEntry "description" t.description ++
    DocEntries.optional "tags" (if t.tags = [] then none else some (textList t.tags))))))))

def fromDict : Doc → Except PyError Transformation
  | .dict entries => do
    rejectUnknown entries ["name", "inputs", "outputs", "when", "output_when", "ensure",
      "state_requirements", "state_updates", "exact", "state_mode", "description", "tags"]
      "transformation contains unknown key(s): "
    let rawInputs ← rawList entries "transformation" "inputs"
    let rawOutputs ← rawList entries "transformation" "outputs"
    let rawEnsure ← rawList entries "transformation" "ensure"
    let rawRequirements ← rawList entries "transformation" "state_requirements"
    let rawUpdates ← rawList entries "transformation" "state_updates"
    let name ← requiredOf entries "transformation" "name"
    let inputs ← rawInputs.mapM roleFromDict
    let outputs ← rawOutputs.mapM roleFromDict
    let when ← exprFromDict ((DocEntries.get? entries "when").getD (exprToDict trueExpr))
    let outputWhen ← exprFromDict
      ((DocEntries.get? entries "output_when").getD (exprToDict trueExpr))
    let ensure ← rawEnsure.mapM exprFromDict
    let stateRequirements ← rawRequirements.mapM StateRequirement.fromDict
    let stateUpdates ← rawUpdates.mapM StateUpdate.fromDict
    let tags ← tagsOf (DocEntries.get? entries "tags")
    make name.pyStr
      { inputs, outputs, when, outputWhen, ensure, stateRequirements, stateUpdates }
      (flagOr entries "exact" false) (textOr entries "state_mode" "require")
      (textOf entries "description") tags
  | _ => .error (.serializationError "transformation must be a mapping")

/-- The expressions of the rule are well typed. -/
structure WellTyped (t : Transformation) : Prop where
  when : t.when.wellTyped = true
  outputWhen : t.outputWhen.wellTyped = true
  ensure : ∀ e ∈ t.ensure, e.wellTyped = true
  requirements : ∀ r ∈ t.stateRequirements, r.value.wellTyped = true
  updates : ∀ u ∈ t.stateUpdates, u.value.wellTyped = true

def parts (t : Transformation) : Parts :=
  { inputs := t.inputs, outputs := t.outputs, when := t.when, outputWhen := t.outputWhen
    ensure := t.ensure, stateRequirements := t.stateRequirements, stateUpdates := t.stateUpdates }

theorem make_self (t : Transformation) :
    make t.name t.parts t.isExact (stateModeText t.stateMode) t.description t.tags = .ok t := by
  have hnodup : ((t.parts.inputs ++ t.parts.outputs).map EventRole.name).Nodup := t.roles_nodup
  have hwhen : t.parts.when.sort.isBool = true := t.when_bool
  have houtput : t.parts.outputWhen.sort.isBool = true := t.outputWhen_bool
  have hensure : ∀ e ∈ t.parts.ensure, e.sort.isBool = true := t.ensure_bool
  have hexact : t.isExact = true → t.parts.outputs.length = 1 := t.exact_output
  unfold make
  rw [dif_neg t.name_ne, dif_pos hnodup, dif_pos hwhen, dif_pos houtput, dif_pos hensure,
    dif_pos hexact]
  rcases hmode : t.stateMode with _ | _
  · rw [if_pos (show stateModeText .require = "require" from rfl)]
    congr
    exact hmode.symm
  · have houtputs : t.parts.outputs ≠ [] := t.guard_outputs hmode
    have hupdates : t.parts.stateUpdates = [] := t.guard_updates hmode
    rw [if_neg (show stateModeText .guard ≠ "require" by decide),
      if_pos (show stateModeText .guard = "guard" from rfl), dif_pos houtputs, dif_pos hupdates]
    congr
    exact hmode.symm

theorem roleFromDict_toDict (role : EventRole) : roleFromDict (roleToDict role) = .ok role := by
  show EventRole.create (role.name, role.eventType) = .ok role
  unfold EventRole.create
  rw [dif_neg role.name_ne, dif_neg role.eventType_ne]

section Entries

variable {entries : DocEntries} {name : String}

/-- A list that is stored if it is not empty. -/
theorem rawList_of_get? {items : List Doc} {kind : String}
    (h : entries.get? name = if items = [] then none else some (.list items)) :
    rawList entries kind name = .ok items := by
  unfold rawList listOf
  rw [h]
  split_ifs with hempty
  · rw [hempty]
  · rfl

end Entries

/-- The entries that are always stored. -/
def mandatory (t : Transformation) : DocEntries :=
  [(.text "name", .scalar (.str t.name)), (.text "inputs", .list (t.inputs.map roleToDict)),
    (.text "outputs", .list (t.outputs.map roleToDict)), (.text "when", exprToDict t.when),
    (.text "output_when", exprToDict t.outputWhen),
    (.text "ensure", .list (t.ensure.map exprToDict))]

/-- The entries that are stored if they are not the default. -/
def remaining (t : Transformation) : DocEntries :=
  listEntry "state_requirements" (t.stateRequirements.map StateRequirement.toDict) ++
    (listEntry "state_updates" (t.stateUpdates.map StateUpdate.toDict) ++
    (DocEntries.optional "exact" (if t.isExact then some (.scalar (.bool true)) else none) ++
    (DocEntries.optional "state_mode" (if t.stateMode = .require then none
      else some (.scalar (.str (stateModeText t.stateMode)))) ++
    (textEntry "description" t.description ++
    DocEntries.optional "tags" (if t.tags = [] then none else some (textList t.tags))))))

theorem toDict_eq (t : Transformation) : t.toDict = .dict (t.mandatory ++ t.remaining) := rfl

theorem rejectUnknown_stored (t : Transformation) :
    rejectUnknown (t.mandatory ++ t.remaining) ["name", "inputs", "outputs", "when", "output_when",
      "ensure", "state_requirements", "state_updates", "exact", "state_mode", "description", "tags"]
      "transformation contains unknown key(s): " = .ok () := by
  refine rejectUnknown_of_all (fun p hp => ?_)
  rcases List.mem_append.mp hp with hp | hp
  · simp only [mandatory, List.mem_cons, List.not_mem_nil, or_false] at hp
    rcases hp with rfl | rfl | rfl | rfl | rfl | rfl <;> exact ⟨_, by decide, rfl⟩
  · simp only [remaining, List.mem_append, listEntry, textEntry] at hp
    rcases hp with hp | hp | hp | hp | hp | hp <;> exact ⟨_, by decide, mem_optional hp⟩

theorem get?_stored (t : Transformation) {name : String}
    (hname : name ∉ ["name", "inputs", "outputs", "when", "output_when", "ensure"]) :
    (t.mandatory ++ t.remaining).get? name = t.remaining.get? name := by
  simp only [List.mem_cons, List.not_mem_nil, or_false, not_or] at hname
  obtain ⟨h₁, h₂, h₃, h₄, h₅, h₆⟩ := hname
  simp only [mandatory, List.cons_append, List.nil_append, DocEntries.get?_cons_text,
    if_neg (Ne.symm h₁), if_neg (Ne.symm h₂), if_neg (Ne.symm h₃), if_neg (Ne.symm h₄),
    if_neg (Ne.symm h₅), if_neg (Ne.symm h₆)]

theorem fromDict_toDict {t : Transformation} (h : t.WellTyped) : fromDict t.toDict = .ok t := by
  rw [toDict_eq]
  have hrest : ∀ name, name ∉ ["name", "inputs", "outputs", "when", "output_when", "ensure"] →
      (t.mandatory ++ t.remaining).get? name = t.remaining.get? name := fun _ => t.get?_stored
  have hknown := t.rejectUnknown_stored
  set entries := t.mandatory ++ t.remaining with hentries
  -- the entries under their names
  have hname : requiredOf entries "transformation" "name" = .ok (.scalar (.str t.name)) := rfl
  have hinputs : rawList entries "transformation" "inputs" = .ok (t.inputs.map roleToDict) := rfl
  have houtputs : rawList entries "transformation" "outputs" = .ok (t.outputs.map roleToDict) := rfl
  have hwhen : (entries.get? "when").getD (exprToDict trueExpr) = exprToDict t.when := rfl
  have houtputWhen : (entries.get? "output_when").getD (exprToDict trueExpr) =
      exprToDict t.outputWhen := rfl
  have hensure : rawList entries "transformation" "ensure" = .ok (t.ensure.map exprToDict) := rfl
  have hremaining : ∀ name, t.remaining.get? name =
      (if "state_requirements" = name then
        (if t.stateRequirements.map StateRequirement.toDict = [] then none
          else some (.list (t.stateRequirements.map StateRequirement.toDict))) else none).or
      ((if "state_updates" = name then
        (if t.stateUpdates.map StateUpdate.toDict = [] then none
          else some (.list (t.stateUpdates.map StateUpdate.toDict))) else none).or
      ((if "exact" = name then (if t.isExact then some (.scalar (.bool true)) else none)
        else none).or
      ((if "state_mode" = name then (if t.stateMode = .require then none
        else some (.scalar (.str (stateModeText t.stateMode)))) else none).or
      ((if "description" = name then (if t.description = "" then none
        else some (.scalar (.str t.description))) else none).or
      (if "tags" = name then (if t.tags = [] then none else some (textList t.tags))
        else none))))) := by
    intro name
    simp only [remaining, DocEntries.get?_append, DocEntries.get?_optional, listEntry, textEntry]
  have hrequirements : rawList entries "transformation" "state_requirements" =
      .ok (t.stateRequirements.map StateRequirement.toDict) :=
    rawList_of_get? (by rw [hrest _ (by decide), hremaining]; simp)
  have hupdates : rawList entries "transformation" "state_updates" =
      .ok (t.stateUpdates.map StateUpdate.toDict) :=
    rawList_of_get? (by rw [hrest _ (by decide), hremaining]; simp)
  have hexact : flagOr entries "exact" false = t.isExact := by
    unfold flagOr
    rw [hrest _ (by decide), hremaining]
    cases t.isExact <;> rfl
  have hmode : textOr entries "state_mode" "require" = stateModeText t.stateMode := by
    unfold textOr
    rw [hrest _ (by decide), hremaining]
    cases t.stateMode <;> rfl
  have hdescription : textOf entries "description" = t.description :=
    textOf_of_get? (by rw [hrest _ (by decide), hremaining]; simp)
  have htags : tagsOf (entries.get? "tags") = .ok t.tags := by
    rw [hrest _ (by decide), hremaining]
    by_cases hempty : t.tags = []
    · simp [hempty, tagsOf]
    · simp only [hempty]
      show Except.ok _ = _
      rw [textList_map]
  -- what they are read as
  have hroles : ∀ l : List EventRole, (l.map roleToDict).mapM roleFromDict = .ok l :=
    fun _ => mapM_map_iff.mpr (fun role _ => roleFromDict_toDict role)
  have hensureRead : (t.ensure.map exprToDict).mapM exprFromDict = .ok t.ensure :=
    mapM_map_iff.mpr (fun e he => exprFromDict_toDict e (h.ensure e he))
  have hrequirementsRead : (t.stateRequirements.map StateRequirement.toDict).mapM
      StateRequirement.fromDict = .ok t.stateRequirements :=
    mapM_map_iff.mpr (fun r hr => StateRequirement.fromDict_toDict (h.requirements r hr))
  have hupdatesRead : (t.stateUpdates.map StateUpdate.toDict).mapM StateUpdate.fromDict =
      .ok t.stateUpdates :=
    mapM_map_iff.mpr (fun u hu => StateUpdate.fromDict_toDict (h.updates u hu))
  unfold fromDict
  simp only [hknown, hinputs, houtputs, hensure, hrequirements, hupdates, hname, hroles, hwhen,
    houtputWhen, exprFromDict_toDict t.when h.when, exprFromDict_toDict t.outputWhen h.outputWhen,
    hensureRead, hrequirementsRead, hupdatesRead, htags, hexact, hmode, hdescription, ok_bind]
  exact t.make_self

end Transformation

/-! ## Specifications -/

def completionSchemaVersion : String := "umcm.completion.v0.6.0"

/-- A completion specification with its metadata. -/
structure CompletionSpec where
  slots : List EventSlot
  transformations : List Transformation
  stateVariables : List StateVariable
  constraints : List Expr
  horizon : Int
  metadata : DocEntries
  schemaVersion : String
  horizon_nonneg : 0 ≤ horizon
  slots_nodup : (slots.map EventSlot.id).Nodup
  transformations_nodup : (transformations.map Transformation.name).Nodup
  stateVariables_nodup : (stateVariables.map StateVariable.name).Nodup
  constraints_bool : ∀ c ∈ constraints, c.sort.isBool = true

namespace CompletionSpec

def make (slots : List EventSlot) (transformations : List Transformation)
    (stateVariables : List StateVariable) (constraints : List Expr) (horizon : Int)
    (metadata : DocEntries) (schemaVersion : String) : Except PyError CompletionSpec :=
  if horizon_nonneg : 0 ≤ horizon then
    if slots_nodup : (slots.map EventSlot.id).Nodup then
      if transformations_nodup : (transformations.map Transformation.name).Nodup then
        if stateVariables_nodup : (stateVariables.map StateVariable.name).Nodup then
          if constraints_bool : ∀ c ∈ constraints, c.sort.isBool = true then
            .ok { slots, transformations, stateVariables, constraints, horizon, metadata
                  schemaVersion, horizon_nonneg, slots_nodup, transformations_nodup
                  stateVariables_nodup, constraints_bool }
          else .error (.schemaError "completion constraints must be boolean")
        else duplicate "state variable(s)" (stateVariables.map StateVariable.name)
      else duplicate "transformation(s)" (transformations.map Transformation.name)
    else duplicate "slot id(s)" (slots.map EventSlot.id)
  else .error (.schemaError "completion horizon must be non-negative")
where
  /-- `_reject_duplicates`. -/
  duplicate (kind : String) (values : List String) : Except PyError CompletionSpec :=
    let duplicates := joinSorted (repeated values)
    .error (.schemaError s!"completion spec contains duplicate {kind}: {duplicates}")

def toDict (spec : CompletionSpec) : Doc :=
  .dict [(.text "schema_version", .scalar (.str spec.schemaVersion)),
    (.text "horizon", .scalar (.int spec.horizon)),
    (.text "metadata", encodeValue (.dict spec.metadata)),
    (.text "slots", .list (spec.slots.map EventSlot.toDict)),
    (.text "state_variables", .list (spec.stateVariables.map StateVariable.toDict)),
    (.text "transformations", .list (spec.transformations.map Transformation.toDict)),
    (.text "constraints", .list (spec.constraints.map exprToDict))]

def fromDict : Doc → Except PyError CompletionSpec
  | .dict entries => do
    rejectUnknown entries ["schema_version", "horizon", "metadata", "slots", "state_variables",
      "transformations", "constraints"] "completion spec contains unknown top-level key(s): "
    let rawSlots ← rawList entries "completion" "slots"
    let rawTransformations ← rawList entries "completion" "transformations"
    let rawStateVariables ← rawList entries "completion" "state_variables"
    let rawConstraints ← rawList entries "completion" "constraints"
    let rawMetadata ← decodedOf entries "metadata"
    let metadata ← asMapping rawMetadata "completion metadata must be a mapping"
    let slots ← rawSlots.mapM EventSlot.fromDict
    let transformations ← rawTransformations.mapM Transformation.fromDict
    let stateVariables ← rawStateVariables.mapM StateVariable.fromDict
    let constraints ← rawConstraints.mapM exprFromDict
    let horizon ← intOr entries "horizon" 8
    make slots transformations stateVariables constraints horizon metadata
      (textOr entries "schema_version" completionSchemaVersion)
  | _ => .error (.serializationError "completion spec must be a mapping")

/-- A field value or a cycle, if it is neither a list nor a mapping. -/
def term? : Doc → Option Term
  | .scalar v => some (.value v)
  | .expr e => some (.expr e)
  | _ => none

/-- The slot without its annotations. -/
def slotCore? (slot : EventSlot) : Option Umcm.EventSlot := do
  let fields ← slot.fields.entries.mapM (fun p => (fun value => (p.1, value)) <$> term? p.2)
  let cycle ← term? slot.cycle
  return { id := slot.id, eventType := slot.eventType, fields := .ofList fields
           required := slot.required, cycle, id_ne := slot.id_ne, eventType_ne := slot.eventType_ne }

def cellCore? (cell : StateVariable) : Option Umcm.StateVariable := do
  let initial ← term? cell.initial
  if initial_fits : initial.fits cell.sort = true then
    return { name := cell.name, sort := cell.sort, initial, qualified := cell.qualified, initial_fits }
  else none

def ruleCore (t : Transformation) : Umcm.Transformation :=
  { name := t.name, inputs := t.inputs, outputs := t.outputs, when := t.when
    outputWhen := t.outputWhen, ensure := t.ensure
    stateRequirements := t.stateRequirements.map StateRequirement.toStateRequirement
    stateUpdates := t.stateUpdates.map StateUpdate.toStateUpdate, isExact := t.isExact
    stateMode := t.stateMode, name_ne := t.name_ne, roles_nodup := t.roles_nodup
    when_bool := t.when_bool, outputWhen_bool := t.outputWhen_bool, ensure_bool := t.ensure_bool
    exact_output := t.exact_output, guard_outputs := t.guard_outputs
    guard_updates := fun hmode => by rw [t.guard_updates hmode, List.map_nil] }

/-- The specification that the solver reads. -/
def core? (spec : CompletionSpec) : Option Umcm.CompletionSpec := do
  let slots ← spec.slots.mapM slotCore?
  let stateVariables ← spec.stateVariables.mapM cellCore?
  (Umcm.CompletionSpec.create slots (spec.transformations.map ruleCore) stateVariables
    spec.constraints spec.horizon.toNat).toOption

/-- `validate` accepts the specification. -/
def IsValidated (spec : CompletionSpec) (catalog : EventCatalog) (trace : Trace) : Prop :=
  ∃ core, spec.core? = some core ∧ core.validate catalog trace = .ok ()

/-- What a specification consists of is decoded and well typed. -/
structure Decoded (spec : CompletionSpec) : Prop where
  slots : ∀ slot ∈ spec.slots, slot.Decoded
  transformations : ∀ t ∈ spec.transformations, t.WellTyped
  stateVariables : ∀ cell ∈ spec.stateVariables, IsDecoded cell.initial
  constraints : ∀ c ∈ spec.constraints, c.wellTyped = true
  metadata : IsDecoded (.dict spec.metadata)

theorem make_self (spec : CompletionSpec) :
    make spec.slots spec.transformations spec.stateVariables spec.constraints spec.horizon
      spec.metadata spec.schemaVersion = .ok spec := by
  unfold make
  rw [dif_pos spec.horizon_nonneg, dif_pos spec.slots_nodup, dif_pos spec.transformations_nodup,
    dif_pos spec.stateVariables_nodup, dif_pos spec.constraints_bool]

theorem slots_of_make {slots : List EventSlot} {transformations : List Transformation}
    {stateVariables : List StateVariable} {constraints : List Expr} {horizon : Int}
    {metadata : DocEntries} {schemaVersion : String} {spec : CompletionSpec}
    (h : make slots transformations stateVariables constraints horizon metadata schemaVersion =
      .ok spec) : slots = spec.slots := by
  unfold make at h
  split_ifs at h <;> cases h
  rfl

end CompletionSpec

/-- A specification is read back as it was stored, unless the only field of a slot is called
`$expr`. -/
theorem completion_roundTrip {spec : CompletionSpec} (h : spec.Decoded) :
    CompletionSpec.fromDict spec.toDict = .ok spec ↔ ∀ slot ∈ spec.slots, slot.Plain := by
  have hparts : CompletionSpec.fromDict spec.toDict = (do
      let rawMetadata ← decodeValue (encodeValue (.dict spec.metadata))
      let metadata ← asMapping rawMetadata "completion metadata must be a mapping"
      let slots ← (spec.slots.map EventSlot.toDict).mapM EventSlot.fromDict
      let transformations ← (spec.transformations.map Transformation.toDict).mapM
        Transformation.fromDict
      let stateVariables ← (spec.stateVariables.map StateVariable.toDict).mapM
        StateVariable.fromDict
      let constraints ← (spec.constraints.map exprToDict).mapM exprFromDict
      CompletionSpec.make slots transformations stateVariables constraints spec.horizon metadata
        spec.schemaVersion) := rfl
  have hmetadata : asMapping (.dict spec.metadata) "completion metadata must be a mapping" =
      .ok spec.metadata := rfl
  have htransformations : (spec.transformations.map Transformation.toDict).mapM
      Transformation.fromDict = .ok spec.transformations :=
    mapM_map_iff.mpr (fun t ht => Transformation.fromDict_toDict (h.transformations t ht))
  have hcells : (spec.stateVariables.map StateVariable.toDict).mapM StateVariable.fromDict =
      .ok spec.stateVariables :=
    mapM_map_iff.mpr (fun cell hcell => StateVariable.fromDict_toDict (h.stateVariables cell hcell))
  have hconstraints : (spec.constraints.map exprToDict).mapM exprFromDict = .ok spec.constraints :=
    mapM_map_iff.mpr (fun c hc => exprFromDict_toDict c (h.constraints c hc))
  rw [hparts, decodeValue_encodeValue h.metadata, ok_bind, hmetadata, ok_bind, bind_eq_ok]
  constructor
  · rintro ⟨slots, hload, hmake⟩
    rw [htransformations, hcells, hconstraints, ok_bind, ok_bind, ok_bind] at hmake
    have hslots : slots = spec.slots := CompletionSpec.slots_of_make hmake
    rw [hslots] at hload
    exact fun slot hslot => (EventSlot.fromDict_toDict_iff (h.slots slot hslot)).mp
      (mapM_map_iff.mp hload slot hslot)
  · intro hplain
    refine ⟨spec.slots, mapM_map_iff.mpr (fun slot hslot => ?_), ?_⟩
    · exact (EventSlot.fromDict_toDict_iff (h.slots slot hslot)).mpr (hplain slot hslot)
    · rw [htransformations, hcells, hconstraints, ok_bind, ok_bind, ok_bind]
      exact spec.make_self

/-! ## A slot with a field `$expr` -/

namespace ExprField

theorem dataField_ne : "data" ≠ "" := by decide

theorem loadType_ne : "LSU.Load" ≠ "" := by decide

theorem loadType_qualified : '.' ∈ "LSU.Load".toList := by decide

theorem slot_id_ne : "load" ≠ "" := by decide

def loadType : EventType where
  name := "LSU.Load"
  fields := [⟨"$expr", .int, false, by decide⟩, ⟨"data", .int, false, dataField_ne⟩]
  qualified := loadType_qualified
  nodup := by decide

def catalog : EventCatalog := ⟨.ofList [("LSU.Load", loadType)], by decide +kernel⟩

def trace : Trace := ⟨[], [], false, List.nodup_nil, Expr.bool_of_mem_nil⟩

def slot (fields : Dict String Doc) : EventSlot where
  id := "load"
  eventType := "LSU.Load"
  fields := fields
  required := true
  cycle := .scalar (.int 0)
  annotations := []
  id_ne := slot_id_ne
  eventType_ne := loadType_ne

def spec (fields : Dict String Doc) : CompletionSpec where
  slots := [slot fields]
  transformations := []
  stateVariables := [⟨"LSU.queue", .int, .scalar (.int 0), "", by decide, rfl⟩]
  constraints := [Transformation.trueExpr]
  horizon := 4
  metadata := [(.text "stage", .list [.scalar (.str "lsu"), .expr Transformation.trueExpr])]
  schemaVersion := completionSchemaVersion
  horizon_nonneg := by decide
  slots_nodup := List.nodup_singleton _
  transformations_nodup := List.nodup_nil
  stateVariables_nodup := List.nodup_singleton _
  constraints_bool := by decide

theorem decoded_slot {fields : Dict String Doc} (h : ∀ p ∈ fields.entries, IsDecoded p.2) :
    (slot fields).Decoded where
  fields := h
  cycle := .scalar _
  annotations := .dict [] List.nodup_nil (by decide) (fun _ h => absurd h List.not_mem_nil)

theorem decoded_spec {fields : Dict String Doc} (h : ∀ p ∈ fields.entries, IsDecoded p.2) :
    (spec fields).Decoded where
  slots := List.forall_mem_singleton.mpr (decoded_slot h)
  transformations := fun _ h => absurd h List.not_mem_nil
  stateVariables := List.forall_mem_singleton.mpr (.scalar _)
  constraints := List.forall_mem_singleton.mpr rfl
  metadata := by
    refine .dict [("stage", _)] (List.nodup_singleton _) (by decide)
      (List.forall_mem_singleton.mpr (.list _ ?_))
    rw [List.forall_mem_cons, List.forall_mem_singleton]
    exact ⟨.scalar _, .expr _ rfl⟩

def bothFields : Dict String Doc :=
  ⟨[("$expr", .scalar (.int 1)), ("data", .expr (.symbol "x" .int))], by decide⟩

/-- Beside another field, `$expr` is an ordinary name. -/
theorem spec_roundTrip :
    CompletionSpec.fromDict (spec bothFields).toDict = .ok (spec bothFields) := by
  have hfields : ∀ p ∈ bothFields.entries, IsDecoded p.2 :=
    List.forall_mem_cons.mpr ⟨.scalar _, List.forall_mem_singleton.mpr (.expr _ rfl)⟩
  exact (completion_roundTrip (decoded_spec hfields)).mpr (List.forall_mem_singleton.mpr (by decide))

def onlyField : Dict String Doc := ⟨[("$expr", .scalar (.int 1))], by decide⟩

/-- A validated specification that cannot be loaded again. -/
theorem spec_not_loaded : (spec onlyField).Decoded ∧ (spec onlyField).IsValidated catalog trace ∧
    CompletionSpec.fromDict (spec onlyField).toDict =
      .error (.serializationError "$expr payload must be a mapping") :=
  ⟨decoded_spec (List.forall_mem_singleton.mpr (.scalar _)), ⟨_, rfl, rfl⟩, rfl⟩

end ExprField

end Stored

end Umcm
