import Umcm.Serialization.Value

/-!
# Stored abstractions

`to_data`, `to_dict` and their inverses for abstraction specifications. The records hold
every field of the source; literals are decoded values.

* `abstraction_roundTrip_iff`: a loaded specification is read back as it was stored
  exactly when none of its literals is a mapping or an expression.
-/

namespace Umcm

open Except

namespace Stored

/-! ## Checks of a mapping -/

/-- `_unknown_keys`. Names that are not texts cannot be joined. -/
def unknownKeys (entries : DocEntries) (allowed : List String) (label : String) :
    Except PyError Unit :=
  let unknown := entries.filter (fun p => !(p.1.text?.any (fun name => allowed.contains name)))
  if unknown = [] then .ok ()
  else
    match unknown.mapM (fun p => p.1.text?) with
    | some names => .error (.serializationError
        s!"{label} contains unknown field(s): {joinSorted names}")
    | none => .error .typeError

/-! ## Patterns and output values -/

/-- `text[1:]`, if the text starts with a dollar sign. -/
def variableName? (text : String) : Option String :=
  match text.toList with
  | '$' :: rest => some (String.ofList rest)
  | _ => none

/-- A pattern: a variable to unify, or a literal. -/
inductive MatchValue where
  | var (name : String) (name_ne : name ≠ "")
  | literal (d : Doc)

namespace MatchValue

/-- `cls(variable=name)`. -/
def ofVariable (name : String) : Except PyError MatchValue :=
  if name_ne : name = "" then .error (.abstractionError "abstraction variable must be non-empty")
  else .ok (.var name name_ne)

/-- `from_data`. -/
def fromData : Doc → Except PyError MatchValue
  | .scalar (.str text) =>
    match variableName? text with
    | some name => ofVariable name
    | none => .ok (.literal (.scalar (.str text)))
  | .dict entries =>
    match onlyValue? "literal" entries with
    | some d => .literal <$> decodeValue d
    | none => .error (.serializationError "abstraction match mapping must contain only 'literal'")
  | d => .literal <$> decodeValue d

/-- The literal is a text that starts with a dollar sign. -/
def isDollarText : Doc → Bool
  | .scalar (.str text) => (variableName? text).isSome
  | _ => false

/-- `to_data`. -/
def toData : MatchValue → Doc
  | .var name _ => .scalar (.str ("$" ++ name))
  | .literal d => if isDollarText d then .dict [(.text "literal", encodeValue d)] else encodeValue d

end MatchValue

/-- Where a field of a summary comes from. -/
inductive OutputValue where
  | var (name : String) (name_ne : name ≠ "")
  | field (reference : String) (reference_ne : reference ≠ "")
  | literal (d : Doc)

namespace OutputValue

def ofVariable (name : String) : Except PyError OutputValue :=
  if name_ne : name = "" then
    .error (.abstractionError "variable output reference must be non-empty")
  else .ok (.var name name_ne)

def ofField (reference : String) : Except PyError OutputValue :=
  if reference_ne : reference = "" then
    .error (.abstractionError "field output reference must be non-empty")
  else .ok (.field reference reference_ne)

/-- `from_data`. -/
def fromData : Doc → Except PyError OutputValue
  | .scalar (.str text) =>
    match variableName? text with
    | some name => ofVariable name
    | none => .ok (.literal (.scalar (.str text)))
  | .dict entries =>
    match onlyValue? "from" entries, onlyValue? "literal" entries with
    | some d, _ => ofField d.pyStr
    | none, some d => .literal <$> decodeValue d
    | none, none => .error (.serializationError
        "abstraction output mapping must contain exactly 'from' or 'literal'")
  | d => .literal <$> decodeValue d

/-- `to_data`. -/
def toData : OutputValue → Doc
  | .var name _ => .scalar (.str ("$" ++ name))
  | .field reference _ => .dict [(.text "from", .scalar (.str reference))]
  | .literal d =>
    if MatchValue.isDollarText d then .dict [(.text "literal", encodeValue d)] else encodeValue d

end OutputValue

/-! ## Records -/

/-- `{str(name): from_data(value) for name, value in entries}`. -/
def fieldsOf {α : Type} (load : Doc → Except PyError α) (entries : DocEntries) :
    Except PyError (Dict String α) := do
  let pairs ← entries.mapM (fun p => (fun v => (p.1.pyStr, v)) <$> load p.2)
  return .ofList pairs

/-- `{name: value.to_data() for name, value in fields}`. -/
def fieldsToDict {α : Type} (store : α → Doc) (fields : Dict String α) : Doc :=
  .dict (fields.entries.map (fun p => (.text p.1, store p.2)))

structure EventRoleSpec where
  name : String
  eventType : String
  fields : Dict String MatchValue
  name_ne : name ≠ ""
  eventType_ne : eventType ≠ ""

namespace EventRoleSpec

def make (name eventType : String) (fields : Dict String MatchValue) :
    Except PyError EventRoleSpec :=
  if name_ne : name = "" then
    .error (.abstractionError "abstraction role name must be non-empty")
  else if eventType_ne : eventType = "" then
    .error (.abstractionError "abstraction role event_type must be non-empty")
  else .ok { name, eventType, fields, name_ne, eventType_ne }

def fromDict : Doc → Except PyError EventRoleSpec
  | .dict entries => do
    unknownKeys entries ["name", "event_type", "fields"] "abstraction role"
    let rawFields ← mappingOf entries "fields" "abstraction role fields must be a mapping"
    let name ← requiredOf entries "abstraction role" "name"
    let eventType ← requiredOf entries "abstraction role" "event_type"
    let fields ← fieldsOf MatchValue.fromData rawFields
    make name.pyStr eventType.pyStr fields
  | _ => .error (.serializationError "abstraction role must be a mapping")

def toDict (role : EventRoleSpec) : Doc :=
  .dict [(.text "name", .scalar (.str role.name)),
    (.text "event_type", .scalar (.str role.eventType)),
    (.text "fields", fieldsToDict MatchValue.toData role.fields)]

end EventRoleSpec

structure SummaryEventSpec where
  eventType : String
  idTemplate : String
  fields : Dict String OutputValue
  cycleFrom : String
  annotations : DocEntries
  eventType_ne : eventType ≠ ""
  idTemplate_ne : idTemplate ≠ ""
  cycleFrom_ne : cycleFrom ≠ ""

namespace SummaryEventSpec

def make (eventType idTemplate : String) (fields : Dict String OutputValue) (cycleFrom : String)
    (annotations : DocEntries) : Except PyError SummaryEventSpec :=
  if eventType_ne : eventType = "" then
    .error (.abstractionError "summary event_type must be non-empty")
  else if idTemplate_ne : idTemplate = "" then
    .error (.abstractionError "summary id_template must be non-empty")
  else if cycleFrom_ne : cycleFrom = "" then
    .error (.abstractionError "summary cycle_from must be non-empty")
  else
    .ok { eventType, idTemplate, fields, cycleFrom, annotations, eventType_ne, idTemplate_ne
          cycleFrom_ne }

def fromDict : Doc → Except PyError SummaryEventSpec
  | .dict entries => do
    unknownKeys entries ["event_type", "id", "fields", "cycle_from", "annotations"]
      "summary output"
    let rawAnnotations ← decodedOf entries "annotations"
    let rawFields ← mappingOf entries "fields" "summary output fields must be a mapping"
    let annotations ← asMapping rawAnnotations "summary output annotations must be a mapping"
    let eventType ← requiredOf entries "summary output" "event_type"
    let id ← requiredOf entries "summary output" "id"
    let fields ← fieldsOf OutputValue.fromData rawFields
    make eventType.pyStr id.pyStr fields (textOr entries "cycle_from" "last") annotations
  | _ => .error (.serializationError "summary output must be a mapping")

def toDict (output : SummaryEventSpec) : Doc :=
  .dict ((.text "event_type", .scalar (.str output.eventType)) ::
    (.text "id", .scalar (.str output.idTemplate)) ::
    (.text "cycle_from", .scalar (.str output.cycleFrom)) ::
    (.text "fields", fieldsToDict OutputValue.toData output.fields) ::
    DocEntries.optional "annotations"
      (if output.annotations = [] then none else some (encodeValue (.dict output.annotations))))

end SummaryEventSpec

structure SummaryRuleSpec where
  name : String
  roles : List EventRoleSpec
  output : SummaryEventSpec
  ordered : Bool
  strictOrder : Bool
  distinctEvents : Bool
  hideSources : Bool
  minMatches : Int
  maxMatches : Int
  name_ne : name ≠ ""
  roles_ne : roles ≠ []
  roles_nodup : (roles.map EventRoleSpec.name).Nodup
  minMatches_nonneg : 0 ≤ minMatches
  maxMatches_valid : 0 < maxMatches ∧ minMatches ≤ maxMatches

namespace SummaryRuleSpec

def make (name : String) (roles : List EventRoleSpec) (output : SummaryEventSpec)
    (ordered strictOrder distinctEvents hideSources : Bool) (minMatches maxMatches : Int) :
    Except PyError SummaryRuleSpec :=
  if name_ne : name = "" then
    .error (.abstractionError "summary rule name must be non-empty")
  else if roles_ne : roles = [] then
    .error (.abstractionError s!"summary rule {quoted name} needs at least one role")
  else if roles_nodup : (roles.map EventRoleSpec.name).Nodup then
    if minMatches_nonneg : 0 ≤ minMatches then
      if maxMatches_valid : 0 < maxMatches ∧ minMatches ≤ maxMatches then
        .ok { name, roles, output, ordered, strictOrder, distinctEvents, hideSources, minMatches
              maxMatches, name_ne, roles_ne, roles_nodup, minMatches_nonneg, maxMatches_valid }
      else .error (.abstractionError "summary max_matches is invalid")
    else .error (.abstractionError "summary min_matches cannot be negative")
  else .error (.abstractionError s!"summary rule {quoted name} has duplicate roles")

def fromDict : Doc → Except PyError SummaryRuleSpec
  | .dict entries => do
    unknownKeys entries ["name", "roles", "output", "ordered", "strict_order", "distinct_events",
      "hide_sources", "min_matches", "max_matches"] "summary rule"
    let rawRoles ← listOf entries "roles" "summary rule roles must be a list"
    let name ← requiredOf entries "summary rule" "name"
    let roles ← rawRoles.mapM EventRoleSpec.fromDict
    let rawOutput ← requiredOf entries "summary rule" "output"
    let output ← SummaryEventSpec.fromDict rawOutput
    let minMatches ← intOr entries "min_matches" 0
    let maxMatches ← intOr entries "max_matches" 10000
    make name.pyStr roles output (flagOr entries "ordered" true)
      (flagOr entries "strict_order" false) (flagOr entries "distinct_events" true)
      (flagOr entries "hide_sources" true) minMatches maxMatches
  | _ => .error (.serializationError "summary rule must be a mapping")

def toDict (rule : SummaryRuleSpec) : Doc :=
  .dict [(.text "name", .scalar (.str rule.name)),
    (.text "roles", .list (rule.roles.map EventRoleSpec.toDict)),
    (.text "output", rule.output.toDict),
    (.text "ordered", .scalar (.bool rule.ordered)),
    (.text "strict_order", .scalar (.bool rule.strictOrder)),
    (.text "distinct_events", .scalar (.bool rule.distinctEvents)),
    (.text "hide_sources", .scalar (.bool rule.hideSources)),
    (.text "min_matches", .scalar (.int rule.minMatches)),
    (.text "max_matches", .scalar (.int rule.maxMatches))]

end SummaryRuleSpec

structure RetainSpec where
  eventTypes : List String
  eventIds : List String
  visibilities : List String

namespace RetainSpec

def fromDict : Doc → Except PyError RetainSpec
  | .dict entries => do
    unknownKeys entries ["event_types", "event_ids", "visibilities"] "retain"
    let eventTypes ← listOf entries "event_types" "retain.event_types must be a list"
    let eventIds ← listOf entries "event_ids" "retain.event_ids must be a list"
    let visibilities ← listOf entries "visibilities" "retain.visibilities must be a list"
    return { eventTypes := eventTypes.map Doc.pyStr, eventIds := eventIds.map Doc.pyStr
             visibilities := visibilities.map Doc.pyStr }
  | _ => .error (.serializationError "retain must be a mapping")

def toDict (retain : RetainSpec) : Doc :=
  .dict [(.text "event_types", textList retain.eventTypes),
    (.text "event_ids", textList retain.eventIds),
    (.text "visibilities", textList retain.visibilities)]

end RetainSpec

structure AbstractionSpec where
  name : String
  sourceLevel : String
  targetLevel : String
  retain : RetainSpec
  summaries : List SummaryRuleSpec
  defaultAction : String
  retainMetadata : List String
  metadata : DocEntries
  schemaVersion : String
  name_ne : name ≠ ""
  levels_ne : sourceLevel ≠ "" ∧ targetLevel ≠ ""
  defaultAction_valid : defaultAction = "hide" ∨ defaultAction = "keep"
  summaries_nodup : (summaries.map SummaryRuleSpec.name).Nodup

namespace AbstractionSpec

/-- `ABSTRACTION_SCHEMA_VERSION`. -/
def abstractionSchemaVersion : String := "umcm.abstraction.v0.1"

def make (name sourceLevel targetLevel : String) (retain : RetainSpec)
    (summaries : List SummaryRuleSpec) (defaultAction : String) (retainMetadata : List String)
    (metadata : DocEntries) (schemaVersion : String) : Except PyError AbstractionSpec :=
  if name_ne : name = "" then .error (.abstractionError "abstraction name must be non-empty")
  else if levels_ne : sourceLevel ≠ "" ∧ targetLevel ≠ "" then
    if defaultAction_valid : defaultAction = "hide" ∨ defaultAction = "keep" then
      if summaries_nodup : (summaries.map SummaryRuleSpec.name).Nodup then
        .ok { name, sourceLevel, targetLevel, retain, summaries, defaultAction, retainMetadata
              metadata, schemaVersion, name_ne, levels_ne, defaultAction_valid, summaries_nodup }
      else .error (.abstractionError "duplicate abstraction summary rule name")
    else .error (.abstractionError "default_action must be 'hide' or 'keep'")
  else .error (.abstractionError "source_level and target_level must be non-empty")

def fromDict : Doc → Except PyError AbstractionSpec
  | .dict entries => do
    unknownKeys entries ["schema_version", "name", "source_level", "target_level",
      "default_action", "retain", "retain_metadata", "summaries", "metadata"] "abstraction spec"
    let rawMetadata ← decodedOf entries "metadata"
    let rawSummaries ← listOf entries "summaries" "abstraction summaries must be a list"
    let rawRetain ← listOf entries "retain_metadata" "retain_metadata must be a list"
    let metadata ← asMapping rawMetadata "abstraction metadata must be a mapping"
    let name ← requiredOf entries "abstraction spec" "name"
    let sourceLevel ← requiredOf entries "abstraction spec" "source_level"
    let targetLevel ← requiredOf entries "abstraction spec" "target_level"
    let retain ← RetainSpec.fromDict ((DocEntries.get? entries "retain").getD (.dict []))
    let summaries ← rawSummaries.mapM SummaryRuleSpec.fromDict
    make name.pyStr sourceLevel.pyStr targetLevel.pyStr retain summaries
      (textOr entries "default_action" "hide") (rawRetain.map Doc.pyStr) metadata
      (textOr entries "schema_version" abstractionSchemaVersion)
  | _ => .error (.serializationError "abstraction spec must be a mapping")

def toDict (spec : AbstractionSpec) : Doc :=
  .dict [(.text "schema_version", .scalar (.str spec.schemaVersion)),
    (.text "name", .scalar (.str spec.name)),
    (.text "source_level", .scalar (.str spec.sourceLevel)),
    (.text "target_level", .scalar (.str spec.targetLevel)),
    (.text "default_action", .scalar (.str spec.defaultAction)),
    (.text "retain", spec.retain.toDict),
    (.text "retain_metadata", textList spec.retainMetadata),
    (.text "summaries", .list (spec.summaries.map SummaryRuleSpec.toDict)),
    (.text "metadata", encodeValue (.dict spec.metadata))]

end AbstractionSpec

/-! ## Reading back -/

/-- The document is a mapping or an expression. -/
def isShaped : Doc → Bool
  | .dict _ | .expr _ => true
  | _ => false

theorem variableName?_append (name : String) : variableName? ("$" ++ name) = some name := by
  unfold variableName?
  have hlist : ("$" ++ name).toList = '$' :: name.toList := by
    rw [String.toList_append]
    rfl
  rw [hlist]
  show some (String.ofList name.toList) = some name
  rw [String.ofList_toList]

/-- A mapping is not one of its values. -/
theorem ne_dict_self {d : Doc} {key : DocKey} : d ≠ .dict [(key, d)] := by
  intro h
  have hsize := congrArg sizeOf h
  simp at hsize
  omega

/-- The only entry of a stored mapping is the only entry of the mapping. -/
theorem onlyValue?_stored {pairs : List (String × Doc)} {name : String} {d : Doc}
    (h : onlyValue? name (pairs.map (fun p => (.text p.1, encodeValue p.2))) = some d) :
    ∃ v, pairs = [(name, v)] ∧ d = encodeValue v := by
  cases pairs with
  | nil => cases h
  | cons p rest =>
      cases rest with
      | nil =>
          have hentry : (if some p.1 = some name then some (encodeValue p.2) else none) = some d := h
          split_ifs at hentry with hname
          cases hentry
          obtain ⟨pname, v⟩ := p
          cases hname
          exact ⟨v, rfl, rfl⟩
      | cons q rest => cases h

/-- How a decoded mapping is stored. -/
theorem encodeValue_dict {pairs : List (String × Doc)} (nodup : (pairs.map Prod.fst).Nodup) :
    encodeValue (.dict (pairs.map (fun p => (.text p.1, p.2)))) =
      .dict (pairs.map (fun p => (.text p.1, encodeValue p.2))) := by
  have hencode : encodeEntries (pairs.map (fun p => (.text p.1, p.2))) =
      pairs.map (fun p => (p.1, encodeValue p.2)) := by
    rw [encodeEntries_eq, List.map_map]
    rfl
  rw [encodeValue, hencode, collect_of_nodup, List.map_map]
  · rfl
  · rw [List.map_map]
    exact nodup

namespace MatchValue

/-- The literal of a pattern is a decoded value. -/
def Decoded : MatchValue → Prop
  | .var _ _ => True
  | .literal d => IsDecoded d

/-- The literal of a pattern is no mapping and no expression. -/
def Plain : MatchValue → Prop
  | .var _ _ => True
  | .literal d => isShaped d = false

theorem fromData_text (text : String) : fromData (.scalar (.str text)) =
    match variableName? text with
    | some name => ofVariable name
    | none => .ok (.literal (.scalar (.str text))) := rfl

theorem fromData_dict (entries : DocEntries) : fromData (.dict entries) =
    match onlyValue? "literal" entries with
    | some d => .literal <$> decodeValue d
    | none =>
      .error (.serializationError "abstraction match mapping must contain only 'literal'") := rfl

theorem toData_text (text : String) : toData (.literal (.scalar (.str text))) =
    if (variableName? text).isSome then .dict [(.text "literal", .scalar (.str text))]
    else .scalar (.str text) := rfl

theorem fromData_toData_iff {m : MatchValue} (h : m.Decoded) :
    fromData m.toData = .ok m ↔ m.Plain := by
  cases m with
  | var name name_ne =>
      refine iff_of_true ?_ trivial
      show fromData (.scalar (.str ("$" ++ name))) = _
      rw [fromData_text, variableName?_append]
      exact dif_neg name_ne
  | literal d =>
      have hdecoded : IsDecoded d := h
      show fromData (toData (.literal d)) = .ok (.literal d) ↔ isShaped d = false
      cases hdecoded with
      | scalar v =>
          refine iff_of_true ?_ rfl
          cases v with
          | str text =>
              rw [toData_text]
              cases hname : variableName? text with
              | none =>
                  show fromData (.scalar (.str text)) = _
                  rw [fromData_text, hname]
              | some name => rfl
          | _ => rfl
      | expr e wellTyped => exact iff_of_false (fun h => by cases h) (by simp [isShaped])
      | list items hitems =>
          refine iff_of_true ?_ rfl
          have hdecode := decodeValue_encodeValue (IsDecoded.list items hitems)
          show (.literal <$> decodeValue (encodeValue (.list items)) : Except PyError MatchValue) = _
          rw [hdecode]
          rfl
      | dict pairs nodup not_only hvalues =>
          refine iff_of_false ?_ (by simp [isShaped])
          show fromData (encodeValue _) ≠ _
          rw [encodeValue_dict nodup, fromData_dict]
          rcases Option.eq_none_or_eq_some
            (onlyValue? "literal" (pairs.map (fun p => (.text p.1, encodeValue p.2))))
            with honly | ⟨d, honly⟩
          · rw [honly]
            exact fun heq => by cases heq
          · rw [honly]
            rcases onlyValue?_stored honly with ⟨v, rfl, rfl⟩
            have hv : IsDecoded v := hvalues _ List.mem_cons_self
            -- the value of the only key is read instead of the mapping
            show (.literal <$> decodeValue (encodeValue v) : Except PyError MatchValue) ≠ _
            rw [decodeValue_encodeValue hv]
            intro heq
            exact ne_dict_self (MatchValue.literal.inj (Except.ok.inj heq))

end MatchValue

namespace OutputValue

def Decoded : OutputValue → Prop
  | .literal d => IsDecoded d
  | _ => True

def Plain : OutputValue → Prop
  | .literal d => isShaped d = false
  | _ => True

theorem fromData_text (text : String) : fromData (.scalar (.str text)) =
    match variableName? text with
    | some name => ofVariable name
    | none => .ok (.literal (.scalar (.str text))) := rfl

theorem fromData_dict (entries : DocEntries) : fromData (.dict entries) =
    match onlyValue? "from" entries, onlyValue? "literal" entries with
    | some d, _ => ofField d.pyStr
    | none, some d => .literal <$> decodeValue d
    | none, none => .error (.serializationError
        "abstraction output mapping must contain exactly 'from' or 'literal'") := rfl

theorem toData_text (text : String) : toData (.literal (.scalar (.str text))) =
    if (variableName? text).isSome then .dict [(.text "literal", .scalar (.str text))]
    else .scalar (.str text) := rfl

theorem fromData_toData_iff {m : OutputValue} (h : m.Decoded) :
    fromData m.toData = .ok m ↔ m.Plain := by
  cases m with
  | var name name_ne =>
      refine iff_of_true ?_ trivial
      show fromData (.scalar (.str ("$" ++ name))) = _
      rw [fromData_text, variableName?_append]
      exact dif_neg name_ne
  | field reference reference_ne =>
      refine iff_of_true ?_ trivial
      exact dif_neg reference_ne
  | literal d =>
      have hdecoded : IsDecoded d := h
      show fromData (toData (.literal d)) = .ok (.literal d) ↔ isShaped d = false
      cases hdecoded with
      | scalar v =>
          refine iff_of_true ?_ rfl
          cases v with
          | str text =>
              rw [toData_text]
              cases hname : variableName? text with
              | none =>
                  show fromData (.scalar (.str text)) = _
                  rw [fromData_text, hname]
              | some name => rfl
          | _ => rfl
      | expr e wellTyped => exact iff_of_false (fun h => by cases h) (by simp [isShaped])
      | list items hitems =>
          refine iff_of_true ?_ rfl
          have hdecode := decodeValue_encodeValue (IsDecoded.list items hitems)
          show (.literal <$> decodeValue (encodeValue (.list items)) : Except PyError OutputValue) = _
          rw [hdecode]
          rfl
      | dict pairs nodup not_only hvalues =>
          refine iff_of_false ?_ (by simp [isShaped])
          show fromData (encodeValue _) ≠ _
          rw [encodeValue_dict nodup, fromData_dict]
          rcases Option.eq_none_or_eq_some
            (onlyValue? "from" (pairs.map (fun p => (.text p.1, encodeValue p.2))))
            with hfrom | ⟨d, hfrom⟩
          · rw [hfrom]
            rcases Option.eq_none_or_eq_some
              (onlyValue? "literal" (pairs.map (fun p => (.text p.1, encodeValue p.2))))
              with honly | ⟨d, honly⟩
            · rw [honly]
              exact fun heq => by cases heq
            · rw [honly]
              rcases onlyValue?_stored honly with ⟨v, rfl, rfl⟩
              have hv : IsDecoded v := hvalues _ List.mem_cons_self
              show (.literal <$> decodeValue (encodeValue v) : Except PyError OutputValue) ≠ _
              rw [decodeValue_encodeValue hv]
              intro heq
              exact ne_dict_self (OutputValue.literal.inj (Except.ok.inj heq))
          · rw [hfrom]
            -- the literal is read as a reference to a field
            show ofField d.pyStr ≠ _
            unfold ofField
            split_ifs <;> exact fun heq => by cases heq

end OutputValue

/-! ### Fields -/

section Fields

variable {α : Type} {load : Doc → Except PyError α} {store : α → Doc} {fields : Dict String α}

theorem map_pair_eq_ok {name : String} {d : Doc} {q : String × α} :
    ((fun v => (name, v)) <$> load d : Except PyError (String × α)) = .ok q ↔
      q.1 = name ∧ load d = .ok q.2 := by
  cases load d with
  | error e => simp [Functor.map, Except.map]
  | ok v =>
      obtain ⟨qname, qv⟩ := q
      simp only [Functor.map, Except.map, Except.ok.injEq, Prod.mk.injEq]
      rw [eq_comm (a := name)]

theorem fieldsOf_stored_iff :
    fieldsOf load (fields.entries.map (fun p => (.text p.1, store p.2))) = .ok fields ↔
      ∀ p ∈ fields.entries, load (store p.2) = .ok p.2 := by
  unfold fieldsOf
  rw [bind_eq_ok]
  constructor
  · rintro ⟨pairs, hpairs, h⟩
    have hforall := mapM_eq_ok.mp hpairs
    rw [List.forall₂_map_left_iff] at hforall
    -- the pairs have the names of the fields
    have hnames : pairs.map Prod.fst = fields.entries.map Prod.fst := by
      refine Eq.trans (map_mapM (p := Prod.fst) (q := fun p : DocKey × Doc => p.1.pyStr) hpairs ?_) ?_
      · intro entry pair hpair
        exact (map_pair_eq_ok.mp hpair).1
      · rw [List.map_map]
        rfl
    have hentries : pairs = fields.entries := by
      have hfields : Dict.ofList pairs = fields := Except.ok.inj h
      rw [← hfields, Dict.entries_ofList]
      rw [hnames]
      exact fields.nodup
    rw [hentries, List.forall₂_same] at hforall
    exact fun p hp => (map_pair_eq_ok.mp (hforall p hp)).2
  · intro h
    refine ⟨fields.entries, ?_, ?_⟩
    · rw [mapM_eq_ok, List.forall₂_map_left_iff, List.forall₂_same]
      exact fun p hp => map_pair_eq_ok.mpr ⟨rfl, h p hp⟩
    · rw [Dict.ofList_entries]
      rfl

end Fields

/-! ### Records -/

namespace EventRoleSpec

def Decoded (role : EventRoleSpec) : Prop := ∀ p ∈ role.fields.entries, p.2.Decoded

def Plain (role : EventRoleSpec) : Prop := ∀ p ∈ role.fields.entries, p.2.Plain

theorem make_eq_ok {role : EventRoleSpec} {fields : Dict String MatchValue} :
    make role.name role.eventType fields = .ok role ↔ fields = role.fields := by
  unfold make
  rw [dif_neg role.name_ne, dif_neg role.eventType_ne]
  constructor
  · intro h
    exact congrArg EventRoleSpec.fields (Except.ok.inj h)
  · rintro rfl
    rfl

theorem fromDict_toDict_iff {role : EventRoleSpec} (h : role.Decoded) :
    fromDict role.toDict = .ok role ↔ role.Plain := by
  have hfields : fromDict role.toDict = (do
      let fields ← fieldsOf MatchValue.fromData
        (role.fields.entries.map (fun p => (.text p.1, p.2.toData)))
      make role.name role.eventType fields) := rfl
  rw [hfields, bind_eq_ok]
  constructor
  · rintro ⟨fields, hload, hmake⟩
    rw [make_eq_ok] at hmake
    subst hmake
    exact fun p hp => (MatchValue.fromData_toData_iff (h p hp)).mp (fieldsOf_stored_iff.mp hload p hp)
  · intro hplain
    refine ⟨role.fields, fieldsOf_stored_iff.mpr ?_, make_eq_ok.mpr rfl⟩
    exact fun p hp => (MatchValue.fromData_toData_iff (h p hp)).mpr (hplain p hp)

end EventRoleSpec

namespace SummaryEventSpec

structure Decoded (output : SummaryEventSpec) : Prop where
  fields : ∀ p ∈ output.fields.entries, p.2.Decoded
  annotations : IsDecoded (.dict output.annotations)

def Plain (output : SummaryEventSpec) : Prop := ∀ p ∈ output.fields.entries, p.2.Plain

theorem make_eq_ok {output : SummaryEventSpec} {fields : Dict String OutputValue} :
    make output.eventType output.idTemplate fields output.cycleFrom output.annotations =
      .ok output ↔ fields = output.fields := by
  unfold make
  rw [dif_neg output.eventType_ne, dif_neg output.idTemplate_ne, dif_neg output.cycleFrom_ne]
  constructor
  · intro h
    exact congrArg SummaryEventSpec.fields (Except.ok.inj h)
  · rintro rfl
    rfl

/-- The record up to its fields. -/
theorem fromDict_toDict {output : SummaryEventSpec} (h : IsDecoded (.dict output.annotations)) :
    fromDict output.toDict = (do
      let fields ← fieldsOf OutputValue.fromData
        (output.fields.entries.map (fun p => (.text p.1, p.2.toData)))
      make output.eventType output.idTemplate fields output.cycleFrom output.annotations) := by
  cases hannotations : output.annotations with
  | nil =>
      unfold toDict
      rw [hannotations]
      rfl
  | cons entry rest =>
      have hdecode : decodeValue (encodeValue (.dict output.annotations)) =
          .ok (.dict output.annotations) := decodeValue_encodeValue h
      have hstored : output.toDict = .dict [(.text "event_type", .scalar (.str output.eventType)),
          (.text "id", .scalar (.str output.idTemplate)),
          (.text "cycle_from", .scalar (.str output.cycleFrom)),
          (.text "fields", fieldsToDict OutputValue.toData output.fields),
          (.text "annotations", encodeValue (.dict output.annotations))] := by
        unfold toDict
        rw [if_neg (by rw [hannotations]; exact List.cons_ne_nil _ _)]
        rfl
      rw [hstored, ← hannotations]
      show (do
        let rawAnnotations ← decodeValue (encodeValue (.dict output.annotations))
        let annotations ← asMapping rawAnnotations "summary output annotations must be a mapping"
        let fields ← fieldsOf OutputValue.fromData
          (output.fields.entries.map (fun p : String × OutputValue => (.text p.1, p.2.toData)))
        make output.eventType output.idTemplate fields output.cycleFrom annotations) = _
      rw [hdecode]
      rfl

theorem fromDict_toDict_iff {output : SummaryEventSpec} (h : output.Decoded) :
    fromDict output.toDict = .ok output ↔ output.Plain := by
  rw [fromDict_toDict h.annotations, bind_eq_ok]
  constructor
  · rintro ⟨fields, hload, hmake⟩
    rw [make_eq_ok] at hmake
    subst hmake
    exact fun p hp =>
      (OutputValue.fromData_toData_iff (h.fields p hp)).mp (fieldsOf_stored_iff.mp hload p hp)
  · intro hplain
    refine ⟨output.fields, fieldsOf_stored_iff.mpr ?_, make_eq_ok.mpr rfl⟩
    exact fun p hp => (OutputValue.fromData_toData_iff (h.fields p hp)).mpr (hplain p hp)

end SummaryEventSpec

namespace SummaryRuleSpec

structure Decoded (rule : SummaryRuleSpec) : Prop where
  roles : ∀ role ∈ rule.roles, role.Decoded
  output : rule.output.Decoded

structure Plain (rule : SummaryRuleSpec) : Prop where
  roles : ∀ role ∈ rule.roles, role.Plain
  output : rule.output.Plain

theorem make_eq_ok {rule : SummaryRuleSpec} {roles : List EventRoleSpec}
    {output : SummaryEventSpec} :
    make rule.name roles output rule.ordered rule.strictOrder rule.distinctEvents rule.hideSources
      rule.minMatches rule.maxMatches = .ok rule ↔ roles = rule.roles ∧ output = rule.output := by
  unfold make
  constructor
  · intro h
    split_ifs at h
    exact ⟨congrArg SummaryRuleSpec.roles (Except.ok.inj h),
      congrArg SummaryRuleSpec.output (Except.ok.inj h)⟩
  · rintro ⟨rfl, rfl⟩
    rw [dif_neg rule.name_ne, dif_neg rule.roles_ne, dif_pos rule.roles_nodup,
      dif_pos rule.minMatches_nonneg, dif_pos rule.maxMatches_valid]

theorem fromDict_toDict_iff {rule : SummaryRuleSpec} (h : rule.Decoded) :
    fromDict rule.toDict = .ok rule ↔ rule.Plain := by
  have hparts : fromDict rule.toDict = (do
      let roles ← (rule.roles.map EventRoleSpec.toDict).mapM EventRoleSpec.fromDict
      let output ← SummaryEventSpec.fromDict rule.output.toDict
      make rule.name roles output rule.ordered rule.strictOrder rule.distinctEvents
        rule.hideSources rule.minMatches rule.maxMatches) := rfl
  rw [hparts, bind_eq_ok]
  constructor
  · rintro ⟨roles, hroles, hrest⟩
    obtain ⟨output, houtput, hmake⟩ := bind_eq_ok.mp hrest
    obtain ⟨rfl, rfl⟩ := make_eq_ok.mp hmake
    refine ⟨fun role hrole => ?_, (SummaryEventSpec.fromDict_toDict_iff h.output).mp houtput⟩
    exact (EventRoleSpec.fromDict_toDict_iff (h.roles role hrole)).mp
      (mapM_map_iff.mp hroles role hrole)
  · intro hplain
    refine ⟨rule.roles, mapM_map_iff.mpr (fun role hrole => ?_), ?_⟩
    · exact (EventRoleSpec.fromDict_toDict_iff (h.roles role hrole)).mpr (hplain.roles role hrole)
    · rw [bind_eq_ok]
      exact ⟨rule.output, (SummaryEventSpec.fromDict_toDict_iff h.output).mpr hplain.output,
        make_eq_ok.mpr ⟨rfl, rfl⟩⟩

end SummaryRuleSpec

theorem RetainSpec.fromDict_toDict (retain : RetainSpec) : fromDict retain.toDict = .ok retain := by
  have hparts : fromDict retain.toDict = .ok
      { eventTypes := (retain.eventTypes.map (fun text => Doc.scalar (.str text))).map Doc.pyStr
        eventIds := (retain.eventIds.map (fun text => Doc.scalar (.str text))).map Doc.pyStr
        visibilities :=
          (retain.visibilities.map (fun text => Doc.scalar (.str text))).map Doc.pyStr } := rfl
  rw [hparts, textList_map, textList_map, textList_map]

namespace AbstractionSpec

structure Decoded (spec : AbstractionSpec) : Prop where
  summaries : ∀ rule ∈ spec.summaries, rule.Decoded
  metadata : IsDecoded (.dict spec.metadata)

/-- No literal of the specification is a mapping or an expression. -/
def Plain (spec : AbstractionSpec) : Prop := ∀ rule ∈ spec.summaries, rule.Plain

theorem make_eq_ok {spec : AbstractionSpec} {summaries : List SummaryRuleSpec} :
    make spec.name spec.sourceLevel spec.targetLevel spec.retain summaries spec.defaultAction
      spec.retainMetadata spec.metadata spec.schemaVersion = .ok spec ↔
      summaries = spec.summaries := by
  unfold make
  constructor
  · intro h
    split_ifs at h
    exact congrArg AbstractionSpec.summaries (Except.ok.inj h)
  · rintro rfl
    rw [dif_neg spec.name_ne, dif_pos spec.levels_ne, dif_pos spec.defaultAction_valid,
      dif_pos spec.summaries_nodup]

theorem fromDict_toDict_iff {spec : AbstractionSpec} (h : spec.Decoded) :
    fromDict spec.toDict = .ok spec ↔ spec.Plain := by
  have hparts : fromDict spec.toDict = (do
      let rawMetadata ← decodeValue (encodeValue (.dict spec.metadata))
      let metadata ← asMapping rawMetadata "abstraction metadata must be a mapping"
      let retain ← RetainSpec.fromDict spec.retain.toDict
      let summaries ← (spec.summaries.map SummaryRuleSpec.toDict).mapM SummaryRuleSpec.fromDict
      make spec.name spec.sourceLevel spec.targetLevel retain summaries spec.defaultAction
        ((spec.retainMetadata.map (fun text => Doc.scalar (.str text))).map Doc.pyStr) metadata
        spec.schemaVersion) := rfl
  have hmetadata : asMapping (.dict spec.metadata) "abstraction metadata must be a mapping" =
      .ok spec.metadata := rfl
  rw [hparts, decodeValue_encodeValue h.metadata, textList_map, RetainSpec.fromDict_toDict,
    ok_bind, hmetadata, ok_bind, ok_bind, bind_eq_ok]
  constructor
  · rintro ⟨summaries, hload, hmake⟩
    rw [make_eq_ok] at hmake
    subst hmake
    exact fun rule hrule => (SummaryRuleSpec.fromDict_toDict_iff (h.summaries rule hrule)).mp
      (mapM_map_iff.mp hload rule hrule)
  · intro hplain
    refine ⟨spec.summaries, mapM_map_iff.mpr (fun rule hrule => ?_), make_eq_ok.mpr rfl⟩
    exact (SummaryRuleSpec.fromDict_toDict_iff (h.summaries rule hrule)).mpr (hplain rule hrule)

end AbstractionSpec

/-! ## Loaded specifications -/

section FileData

variable {entries : DocEntries} {name : String} {d : Doc}

theorem isFileData_entries (h : isFileData (.dict entries) = true) :
    ∀ p ∈ entries, isFileData p.2 = true := by
  rw [isFileData, Bool.and_eq_true] at h
  exact fun p hp => (entriesFileData_iff.mp h.2 p hp).2

theorem isFileData_items {items : List Doc} (h : isFileData (.list items) = true) :
    ∀ item ∈ items, isFileData item = true := by
  induction items with
  | nil => exact fun item hitem => absurd hitem List.not_mem_nil
  | cons d ds ih =>
      rw [isFileData, itemsFileData, Bool.and_eq_true] at h
      rw [List.forall_mem_cons]
      exact ⟨h.1, ih h.2⟩

theorem isFileData_get? (h : isFileData (.dict entries) = true) (hget : entries.get? name = some d) :
    isFileData d = true := by
  rcases DocEntries.mem_of_get? hget with ⟨entry, hmem, -, rfl⟩
  exact isFileData_entries h entry hmem

theorem isFileData_onlyValue? (h : isFileData (.dict entries) = true)
    (honly : onlyValue? name entries = some d) : isFileData d = true := by
  unfold onlyValue? at honly
  split at honly
  · split_ifs at honly
    cases honly
    exact isFileData_entries h _ List.mem_cons_self
  · cases honly

theorem isFileData_listOf {items : List Doc} {message : String}
    (h : isFileData (.dict entries) = true) (hlist : listOf entries name message = .ok items) :
    ∀ item ∈ items, isFileData item = true := by
  unfold listOf at hlist
  split at hlist
  · cases hlist
    exact fun item hitem => absurd hitem List.not_mem_nil
  · next found hget =>
      cases hlist
      exact isFileData_items (isFileData_get? h hget)
  · cases hlist

theorem isFileData_mappingOf {found : DocEntries} {message : String}
    (h : isFileData (.dict entries) = true) (hmapping : mappingOf entries name message = .ok found) :
    ∀ p ∈ found, isFileData p.2 = true := by
  unfold mappingOf at hmapping
  split at hmapping
  · cases hmapping
    exact fun p hp => absurd hp List.not_mem_nil
  · next inner hget =>
      cases hmapping
      exact isFileData_entries (isFileData_get? h hget)
  · cases hmapping

/-- A decoded mapping among the entries. -/
theorem isDecoded_decodedOf {found : DocEntries} {message : String} {raw : Doc}
    (h : isFileData (.dict entries) = true) (hraw : decodedOf entries name = .ok raw)
    (hfound : asMapping raw message = .ok found) : IsDecoded (.dict found) := by
  have hdata : isFileData ((entries.get? name).getD (.dict [])) = true := by
    cases hget : entries.get? name with
    | none => rfl
    | some d => exact isFileData_get? h hget
  have hdecoded : IsDecoded raw := isDecoded_of_decodeValue _ hdata hraw
  unfold asMapping at hfound
  split at hfound
  · cases hfound
    exact hdecoded
  · cases hfound

theorem fieldsOf_all {α : Type} {load : Doc → Except PyError α} {p : α → Prop}
    {fields : Dict String α} (h : fieldsOf load entries = .ok fields)
    (hload : ∀ entry ∈ entries, ∀ v, load entry.2 = .ok v → p v) :
    ∀ q ∈ fields.entries, p q.2 := by
  obtain ⟨pairs, hpairs, hfields⟩ := bind_eq_ok.mp h
  cases hfields
  intro q hq
  rcases mapM_origin hpairs (mem_entries_ofList hq) with ⟨entry, hentry, hvalue⟩
  exact hload entry hentry q.2 (map_pair_eq_ok.mp hvalue).2

end FileData

/-- A literal that is decoded from file data. -/
theorem isDecoded_of_map {α : Type} {literal : Doc → α} {d : Doc} {a : α}
    (hdata : isFileData d = true) (h : (literal <$> decodeValue d : Except PyError α) = .ok a) :
    ∃ r, a = literal r ∧ IsDecoded r := by
  cases hdecode : decodeValue d with
  | error e =>
      rw [hdecode] at h
      cases h
  | ok r =>
      rw [hdecode] at h
      cases h
      exact ⟨r, rfl, isDecoded_of_decodeValue d hdata hdecode⟩

theorem MatchValue.decoded_of_fromData {d : Doc} {m : MatchValue} (hdata : isFileData d = true)
    (h : fromData d = .ok m) : m.Decoded := by
  unfold fromData at h
  split at h
  · split at h
    · unfold ofVariable at h
      split_ifs at h
      cases h
      trivial
    · cases h
      exact .scalar _
  · split at h
    · next honly =>
        rcases isDecoded_of_map (isFileData_onlyValue? hdata honly) h with ⟨r, rfl, hr⟩
        exact hr
    · cases h
  · rcases isDecoded_of_map hdata h with ⟨r, rfl, hr⟩
    exact hr

theorem OutputValue.decoded_of_fromData {d : Doc} {m : OutputValue} (hdata : isFileData d = true)
    (h : fromData d = .ok m) : m.Decoded := by
  unfold fromData at h
  split at h
  · split at h
    · unfold ofVariable at h
      split_ifs at h
      cases h
      trivial
    · cases h
      exact .scalar _
  · split at h
    · unfold ofField at h
      split_ifs at h
      cases h
      trivial
    · next honly =>
        rcases isDecoded_of_map (isFileData_onlyValue? hdata honly) h with ⟨r, rfl, hr⟩
        exact hr
    · cases h
  · rcases isDecoded_of_map hdata h with ⟨r, rfl, hr⟩
    exact hr

theorem EventRoleSpec.decoded_of_fromDict {d : Doc} {role : EventRoleSpec}
    (hdata : isFileData d = true) (h : fromDict d = .ok role) : role.Decoded := by
  unfold fromDict at h
  split at h
  · obtain ⟨_, -, h⟩ := bind_eq_ok.mp h
    obtain ⟨rawFields, hraw, h⟩ := bind_eq_ok.mp h
    obtain ⟨name, -, h⟩ := bind_eq_ok.mp h
    obtain ⟨eventType, -, h⟩ := bind_eq_ok.mp h
    obtain ⟨fields, hfields, h⟩ := bind_eq_ok.mp h
    have hrole : role.fields = fields := by
      unfold make at h
      split_ifs at h
      cases h
      rfl
    unfold Decoded
    rw [hrole]
    refine fieldsOf_all hfields (fun entry hentry v hv => ?_)
    exact MatchValue.decoded_of_fromData (isFileData_mappingOf hdata hraw entry hentry) hv
  · cases h

theorem SummaryEventSpec.decoded_of_fromDict {d : Doc} {output : SummaryEventSpec}
    (hdata : isFileData d = true) (h : fromDict d = .ok output) : output.Decoded := by
  unfold fromDict at h
  split at h
  · obtain ⟨_, -, h⟩ := bind_eq_ok.mp h
    obtain ⟨rawAnnotations, hrawAnnotations, h⟩ := bind_eq_ok.mp h
    obtain ⟨rawFields, hraw, h⟩ := bind_eq_ok.mp h
    obtain ⟨annotations, hannotations, h⟩ := bind_eq_ok.mp h
    obtain ⟨eventType, -, h⟩ := bind_eq_ok.mp h
    obtain ⟨id, -, h⟩ := bind_eq_ok.mp h
    obtain ⟨fields, hfields, h⟩ := bind_eq_ok.mp h
    have houtput : output.fields = fields ∧ output.annotations = annotations := by
      unfold make at h
      split_ifs at h
      cases h
      exact ⟨rfl, rfl⟩
    constructor
    · rw [houtput.1]
      refine fieldsOf_all hfields (fun entry hentry v hv => ?_)
      exact OutputValue.decoded_of_fromData (isFileData_mappingOf hdata hraw entry hentry) hv
    · rw [houtput.2]
      exact isDecoded_decodedOf hdata hrawAnnotations hannotations
  · cases h

theorem isFileData_requiredOf {entries : DocEntries} {label name : String} {d : Doc}
    (h : isFileData (.dict entries) = true) (hd : requiredOf entries label name = .ok d) :
    isFileData d = true := by
  unfold requiredOf at hd
  split at hd
  · next hget =>
      cases hd
      exact isFileData_get? h hget
  · cases hd

theorem SummaryRuleSpec.decoded_of_fromDict {d : Doc} {rule : SummaryRuleSpec}
    (hdata : isFileData d = true) (h : fromDict d = .ok rule) : rule.Decoded := by
  unfold fromDict at h
  split at h
  · obtain ⟨_, -, h⟩ := bind_eq_ok.mp h
    obtain ⟨rawRoles, hrawRoles, h⟩ := bind_eq_ok.mp h
    obtain ⟨name, -, h⟩ := bind_eq_ok.mp h
    obtain ⟨roles, hroles, h⟩ := bind_eq_ok.mp h
    obtain ⟨rawOutput, hrawOutput, h⟩ := bind_eq_ok.mp h
    obtain ⟨output, houtput, h⟩ := bind_eq_ok.mp h
    obtain ⟨minMatches, -, h⟩ := bind_eq_ok.mp h
    obtain ⟨maxMatches, -, h⟩ := bind_eq_ok.mp h
    have hrule : rule.roles = roles ∧ rule.output = output := by
      unfold make at h
      split_ifs at h
      cases h
      exact ⟨rfl, rfl⟩
    constructor
    · rw [hrule.1]
      intro role hrole
      rcases mapM_origin hroles hrole with ⟨raw, hraw, hload⟩
      exact EventRoleSpec.decoded_of_fromDict (isFileData_listOf hdata hrawRoles raw hraw) hload
    · rw [hrule.2]
      exact SummaryEventSpec.decoded_of_fromDict (isFileData_requiredOf hdata hrawOutput) houtput
  · cases h

theorem AbstractionSpec.decoded_of_fromDict {d : Doc} {spec : AbstractionSpec}
    (hdata : isFileData d = true) (h : fromDict d = .ok spec) : spec.Decoded := by
  unfold fromDict at h
  split at h
  · obtain ⟨_, -, h⟩ := bind_eq_ok.mp h
    obtain ⟨rawMetadata, hrawMetadata, h⟩ := bind_eq_ok.mp h
    obtain ⟨rawSummaries, hrawSummaries, h⟩ := bind_eq_ok.mp h
    obtain ⟨rawRetain, -, h⟩ := bind_eq_ok.mp h
    obtain ⟨metadata, hmetadata, h⟩ := bind_eq_ok.mp h
    obtain ⟨name, -, h⟩ := bind_eq_ok.mp h
    obtain ⟨sourceLevel, -, h⟩ := bind_eq_ok.mp h
    obtain ⟨targetLevel, -, h⟩ := bind_eq_ok.mp h
    obtain ⟨retain, -, h⟩ := bind_eq_ok.mp h
    obtain ⟨summaries, hsummaries, h⟩ := bind_eq_ok.mp h
    have hspec : spec.summaries = summaries ∧ spec.metadata = metadata := by
      unfold make at h
      split_ifs at h
      cases h
      exact ⟨rfl, rfl⟩
    constructor
    · rw [hspec.1]
      intro rule hrule
      rcases mapM_origin hsummaries hrule with ⟨raw, hraw, hload⟩
      exact SummaryRuleSpec.decoded_of_fromDict (isFileData_listOf hdata hrawSummaries raw hraw) hload
    · rw [hspec.2]
      exact isDecoded_decodedOf hdata hrawMetadata hmetadata
  · cases h

/-- A loaded specification is read back as it was stored exactly when none of its patterns
and output values is a literal mapping or a literal expression. -/
theorem abstraction_roundTrip_iff (data : Doc) (hdata : isFileData data = true)
    (spec : AbstractionSpec) (h : AbstractionSpec.fromDict data = .ok spec) :
    AbstractionSpec.fromDict spec.toDict = .ok spec ↔ spec.Plain :=
  AbstractionSpec.fromDict_toDict_iff (AbstractionSpec.decoded_of_fromDict hdata h)

/-! ## A literal mapping -/

namespace Literals

def text (name value : String) : DocKey × Doc := (.text name, .scalar (.str value))

/-- A specification with one rule; the pattern and the output value are given. -/
def data (pattern output : Doc) : Doc :=
  .dict [text "name" "summary", text "source_level" "micro", text "target_level" "macro",
    (.text "summaries", .list [.dict [text "name" "access",
      (.text "roles", .list [.dict [text "name" "load", text "event_type" "LSU.Load",
        (.text "fields", .dict [(.text "line", pattern)])]]),
      (.text "output", .dict [text "event_type" "LSU.Access", text "id" "access",
        (.text "fields", .dict [(.text "line", output)])])]])]

/-- `{literal: {tag: 1}}`. -/
def tagged : Doc := .dict [(.text "literal", .dict [(.text "tag", .scalar (.int 1))])]

/-- `{literal: {from: load.line}}`. -/
def quotedField : Doc := .dict [(.text "literal", .dict [text "from" "load.line"])]

/-- A literal pattern that is a mapping is rejected after encoding, and a literal output value
that looks like a reference becomes one. -/
theorem shaped_literals :
    isFileData (data tagged (.scalar (.int 0))) = true ∧
    isFileData (data (.scalar (.int 0)) quotedField) = true ∧
    (∃ spec, AbstractionSpec.fromDict (data tagged (.scalar (.int 0))) = .ok spec ∧
      AbstractionSpec.fromDict spec.toDict =
        .error (.serializationError "abstraction match mapping must contain only 'literal'")) ∧
    ∃ spec spec', AbstractionSpec.fromDict (data (.scalar (.int 0)) quotedField) = .ok spec ∧
      AbstractionSpec.fromDict spec.toDict = .ok spec' ∧
      spec.summaries.map (fun rule => rule.output.fields.values) =
        [[.literal (.dict [text "from" "load.line"])]] ∧
      spec'.summaries.map (fun rule => rule.output.fields.values) =
        [[.field "load.line" (by decide)]] := by
  exact ⟨rfl, rfl, ⟨_, rfl, rfl⟩, ⟨_, _, rfl, rfl, rfl, rfl⟩⟩

theorem tagged_roundTrip_iff : ∃ spec,
    AbstractionSpec.fromDict (data tagged (.scalar (.int 0))) = .ok spec ∧
      (AbstractionSpec.fromDict spec.toDict = .ok spec ↔ spec.Plain) :=
  ⟨_, rfl, abstraction_roundTrip_iff (data tagged (.scalar (.int 0))) rfl _ rfl⟩

end Literals

end Stored

end Umcm
