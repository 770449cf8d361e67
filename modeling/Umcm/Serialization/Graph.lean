import Umcm.Serialization.Entries

/-!
# Stored execution graphs

`to_dict` and `from_dict` of execution graphs. The records hold every field of the
source: addresses and values are those of documents, metadata are whole mappings.

* `graph_roundTrip`: a graph is read back as it was stored.
-/

namespace Umcm

open Except

namespace OperationKind

/-- `kind.value`. -/
def value : OperationKind → String
  | initWrite => "init_write"
  | read => "read"
  | write => "write"
  | amo => "amo"

/-- `OperationKind(text)`. -/
def ofValue? (text : String) : Option OperationKind :=
  if text = "init_write" then some .initWrite
  else if text = "read" then some .read
  else if text = "write" then some .write
  else if text = "amo" then some .amo
  else none

theorem ofValue?_value (kind : OperationKind) : ofValue? kind.value = some kind := by
  cases kind <;> rfl

end OperationKind

namespace Stored

/-! ## Operations -/

/-- A memory operation with all its fields. -/
structure MemoryOperation where
  id : String
  kind : OperationKind
  address : Doc
  value : Doc
  writeValue : Doc
  hart : Option Int
  programIndex : Option Int
  sourceEventId : String
  commitEventId : String
  metadata : DocEntries
  id_ne : id ≠ ""
  amo_writeValue : kind = .amo → isNone writeValue = false
  placed : kind ≠ .initWrite → hart ≠ none ∧ programIndex ≠ none
  committed : kind = .read ∨ kind = .amo → commitEventId ≠ ""

namespace MemoryOperation

theorem placed_of_not {kind : OperationKind} {hart programIndex : Option Int}
    (h : ¬(kind ≠ .initWrite ∧ (hart = none ∨ programIndex = none))) :
    kind ≠ .initWrite → hart ≠ none ∧ programIndex ≠ none :=
  fun hk => ⟨fun hh => h ⟨hk, .inl hh⟩, fun hp => h ⟨hk, .inr hp⟩⟩

theorem committed_of_not {kind : OperationKind} {commitEventId : String}
    (h : ¬((kind = .read ∨ kind = .amo) ∧ commitEventId = "")) :
    kind = .read ∨ kind = .amo → commitEventId ≠ "" :=
  fun hk hc => h ⟨hk, hc⟩

/-- The constructor: its checks in the order of `__post_init__`. -/
def make (id : String) (kind : OperationKind) (address value writeValue : Doc)
    (hart programIndex : Option Int) (sourceEventId commitEventId : String)
    (metadata : DocEntries) : Except PyError MemoryOperation :=
  if hid : id = "" then
    .error (.graphError "memory operation id must be non-empty")
  else if hwrite : kind = .amo ∧ isNone writeValue = true then
    .error (.graphError s!"AMO {quoted id} requires write_value")
  else if hplaced : kind ≠ .initWrite ∧ (hart = none ∨ programIndex = none) then
    .error (.graphError s!"operation {quoted id} requires hart and program_index")
  else if hcommit : (kind = .read ∨ kind = .amo) ∧ commitEventId = "" then
    .error (.graphError s!"read {quoted id} requires a commit event")
  else
    .ok
      { id, kind, address, value, writeValue, hart, programIndex, sourceEventId, commitEventId,
        metadata
        id_ne := hid
        amo_writeValue := fun hk => by simpa [hk] using hwrite
        placed := placed_of_not hplaced
        committed := committed_of_not hcommit }

/-- The constructor accepts the fields of an operation. -/
theorem make_self (op : MemoryOperation) :
    make op.id op.kind op.address op.value op.writeValue op.hart op.programIndex op.sourceEventId
      op.commitEventId op.metadata = .ok op := by
  unfold make
  rw [dif_neg op.id_ne, dif_neg, dif_neg, dif_neg]
  · rintro ⟨hk, hc⟩
    exact op.committed hk hc
  · rintro ⟨hk, hnone⟩
    have hplaced := op.placed hk
    rcases hnone with hnone | hnone
    · exact hplaced.1 hnone
    · exact hplaced.2 hnone
  · rintro ⟨hk, hnone⟩
    rw [op.amo_writeValue hk] at hnone
    cases hnone

def toDict (op : MemoryOperation) : Doc :=
  .dict ((.text "id", .scalar (.str op.id)) :: (.text "kind", .scalar (.str op.kind.value)) ::
    (.text "address", op.address) :: (.text "value", op.value) ::
    (DocEntries.optional "write_value" (if op.kind = .amo then some op.writeValue else none) ++
      (intEntry "hart" op.hart ++ (intEntry "program_index" op.programIndex ++
      (textEntry "source_event_id" op.sourceEventId ++
      (textEntry "commit_event_id" op.commitEventId ++
      DocEntries.optional "metadata"
        (if op.metadata = [] then none else some (.dict op.metadata))))))))

/-- The error that `except (KeyError, ValueError)` raises instead. -/
def invalid (text : String) : PyError :=
  .serializationError s!"invalid execution-graph operation: {text}"

/-- `data[name]`. -/
def required (entries : DocEntries) (name : String) : Except PyError Doc :=
  match entries.get? name with
  | some d => .ok d
  | none => .error (invalid (quoted name))

/-- `OperationKind(str(data["kind"]))`. -/
def kindOf (text : String) : Except PyError OperationKind :=
  match OperationKind.ofValue? text with
  | some kind => .ok kind
  | none => .error (invalid s!"{quoted text} is not a valid OperationKind")

/-- `None if data.get(name) is None else int(data[name])`. -/
def optionalInt (entries : DocEntries) (name : String) : Except PyError (Option Int) :=
  match entries.get? name with
  | none => .ok none
  | some d =>
    if isNone d then .ok none
    else match intOf d with
      | .ok n => .ok (some n)
      | .error .valueError =>
        .error (invalid s!"invalid literal for int() with base 10: {d.repr}")
      | .error e => .error e

/-- `data.get("metadata", {})`, which must be a mapping. -/
def metadataOf (entries : DocEntries) (message : String) : Except PyError DocEntries :=
  match entries.get? "metadata" with
  | none => .ok []
  | some (.dict metadata) => .ok metadata
  | some _ => .error (.serializationError message)

def fromDict : Doc → Except PyError MemoryOperation
  | .dict entries => do
    let metadata ← metadataOf entries "operation metadata must be a mapping"
    let id ← required entries "id"
    let kindText ← required entries "kind"
    let kind ← kindOf kindText.pyStr
    let address ← required entries "address"
    let value ← required entries "value"
    let hart ← optionalInt entries "hart"
    let programIndex ← optionalInt entries "program_index"
    make id.pyStr kind address value
      ((DocEntries.get? entries "write_value").getD (.scalar .none)) hart programIndex
      (textOf entries "source_event_id") (textOf entries "commit_event_id") metadata
  | _ => .error (.serializationError "execution-graph operation must be a mapping")

/-! ### Reading an operation back -/

section RoundTrip

variable {entries : DocEntries} {name : String}

theorem required_of_get? {d : Doc} (h : entries.get? name = some d) :
    required entries name = .ok d := by
  unfold required
  rw [h]

/-- What a stored integer is read as. -/
theorem optionalInt_of_get? {n : Option Int}
    (h : entries.get? name = n.map (fun n => .scalar (.int n))) : optionalInt entries name = .ok n := by
  unfold optionalInt
  rw [h]
  cases n <;> rfl

theorem metadataOf_of_get? {metadata : DocEntries} {message : String}
    (h : entries.get? "metadata" = if metadata = [] then none else some (.dict metadata)) :
    metadataOf entries message = .ok metadata := by
  unfold metadataOf
  rw [h]
  split_ifs with hempty
  · rw [hempty]
  · rfl

end RoundTrip

/-- Only an AMO writes something else than its value. -/
def OnlyAmosWrite (op : MemoryOperation) : Prop := op.kind ≠ .amo → op.writeValue = .scalar .none

theorem fromDict_toDict {op : MemoryOperation} (h : op.OnlyAmosWrite) :
    fromDict op.toDict = .ok op := by
  unfold toDict
  set entries : DocEntries := (.text "id", .scalar (.str op.id)) ::
    (.text "kind", .scalar (.str op.kind.value)) :: (.text "address", op.address) ::
    (.text "value", op.value) :: (_ : DocEntries) with hentries
  -- the entries under their names
  have hid : entries.get? "id" = some (.scalar (.str op.id)) := rfl
  have hkind : entries.get? "kind" = some (.scalar (.str op.kind.value)) := rfl
  have haddress : entries.get? "address" = some op.address := rfl
  have hvalue : entries.get? "value" = some op.value := rfl
  have hrest : ∀ name, name ∉ ["id", "kind", "address", "value"] → entries.get? name =
      ((((if "write_value" = name then (if op.kind = .amo then some op.writeValue else none)
          else none).or
        (if "hart" = name then op.hart.map (fun n => .scalar (.int n)) else none)).or
        (if "program_index" = name then op.programIndex.map (fun n => .scalar (.int n)) else none)).or
        (if "source_event_id" = name then
          (if op.sourceEventId = "" then none else some (.scalar (.str op.sourceEventId)))
          else none)).or
        ((if "commit_event_id" = name then
          (if op.commitEventId = "" then none else some (.scalar (.str op.commitEventId)))
          else none).or
        (if "metadata" = name then (if op.metadata = [] then none else some (.dict op.metadata))
          else none)) := by
    intro name hname
    simp only [List.mem_cons, List.not_mem_nil, or_false, not_or] at hname
    obtain ⟨h₁, h₂, h₃, h₄⟩ := hname
    rw [hentries]
    simp only [DocEntries.get?_cons_text, DocEntries.get?_append, DocEntries.get?_optional, intEntry,
      textEntry, if_neg (Ne.symm h₁), if_neg (Ne.symm h₂), if_neg (Ne.symm h₃), if_neg (Ne.symm h₄),
      Option.or_assoc]
  have hwrite : (entries.get? "write_value").getD (.scalar .none) = op.writeValue := by
    rw [hrest _ (by decide)]
    by_cases hamo : op.kind = .amo
    · simp [hamo]
    · simp [hamo, h hamo]
  have hhart : optionalInt entries "hart" = .ok op.hart :=
    optionalInt_of_get? (by rw [hrest _ (by decide)]; simp)
  have hindex : optionalInt entries "program_index" = .ok op.programIndex :=
    optionalInt_of_get? (by rw [hrest _ (by decide)]; simp)
  have hsource : textOf entries "source_event_id" = op.sourceEventId :=
    textOf_of_get? (by rw [hrest _ (by decide)]; simp)
  have hcommit : textOf entries "commit_event_id" = op.commitEventId :=
    textOf_of_get? (by rw [hrest _ (by decide)]; simp)
  have hmetadata := @metadataOf_of_get? entries op.metadata
    "operation metadata must be a mapping" (by rw [hrest _ (by decide)]; simp)
  have hkindOf : kindOf op.kind.value = .ok op.kind := by
    unfold kindOf
    rw [OperationKind.ofValue?_value]
  unfold fromDict
  simp only [hmetadata, required_of_get? hid, required_of_get? hkind, required_of_get? haddress,
    required_of_get? hvalue, Doc.pyStr, Value.pyStr, hkindOf, hhart, hindex, hwrite, hsource,
    hcommit, ok_bind]
  exact make_self op

end MemoryOperation

/-! ## Relations -/

/-- A relation as its constructor admits it. -/
structure NamedRelation extends Relation where
  name_ne : name ≠ ""
  edges_ne : ∀ e ∈ edges, e.1 ≠ "" ∧ e.2 ≠ ""

namespace NamedRelation

/-- `Relation.from_edges`. The message names the first invalid edge of the set, here in
increasing order. -/
def fromEdges (name : String) (edges : List Edge) : Except PyError NamedRelation :=
  if hname : name = "" then .error (.graphError "relation name must be non-empty")
  else if hedges : ∀ e ∈ edges.toFinset, e.1 ≠ "" ∧ e.2 ≠ "" then
    .ok { name, edges := edges.toFinset, name_ne := hname, edges_ne := hedges }
  else
    let invalid := (sortedEdges edges.toFinset).find? (fun e => e.1 = "" ∨ e.2 = "")
    let shown := invalid.elim "" (fun e => s!"({quoted e.1}, {quoted e.2})")
    .error (.graphError s!"invalid edge in relation {quoted name}: {shown}")

theorem fromEdges_sortedEdges (r : NamedRelation) :
    fromEdges r.name (sortedEdges r.edges) = .ok r := by
  have hedges : (sortedEdges r.edges).toFinset = r.edges := by
    ext e
    rw [List.mem_toFinset, mem_sortedEdges]
  unfold fromEdges
  rw [dif_neg r.name_ne, dif_pos (by rw [hedges]; exact r.edges_ne)]
  simp only [hedges]

def edgeDict (e : Edge) : Doc :=
  .dict [(.text "from", .scalar (.str e.1)), (.text "to", .scalar (.str e.2))]

def toDict (r : NamedRelation) : Doc :=
  .dict [(.text "name", .scalar (.str r.name)),
    (.text "edges", .list ((sortedEdges r.edges).map edgeDict))]

/-- One edge of a stored relation. -/
def edgeOf : Doc → Except PyError Edge
  | .dict entries =>
    match DocEntries.get? entries "from", DocEntries.get? entries "to" with
    | some source, some target => .ok (source.pyStr, target.pyStr)
    | _, _ => .error (.serializationError "relation edge requires from/to")
  | _ => .error (.serializationError "relation edge must be a mapping")

/-- The body of the loop over the stored relations. -/
def fromDict : Doc → Except PyError NamedRelation
  | .dict entries =>
    match DocEntries.get? entries "edges" with
    | none => fromEdges (textOf entries "name") []
    | some (.list rawEdges) => do
      let edges ← rawEdges.mapM edgeOf
      fromEdges (textOf entries "name") edges
    | some _ => .error (.serializationError "relation edges must be a list")
  | _ => .error (.serializationError "execution-graph relation must be a mapping")

theorem mapM_edgeOf (edges : List Edge) : (edges.map edgeDict).mapM edgeOf = .ok edges := by
  rw [mapM_eq_ok, List.forall₂_map_left_iff]
  exact List.forall₂_same.mpr (fun _ _ => rfl)

theorem fromDict_toDict (r : NamedRelation) : fromDict r.toDict = .ok r := by
  unfold toDict fromDict
  simp only [show DocEntries.get? [(DocKey.text "name", Doc.scalar (.str r.name)),
      (.text "edges", .list ((sortedEdges r.edges).map edgeDict))] "edges" =
    some (.list ((sortedEdges r.edges).map edgeDict)) from rfl, mapM_edgeOf, ok_bind]
  exact fromEdges_sortedEdges r

end NamedRelation

/-! ## Graphs -/

/-- `EXECUTION_GRAPH_SCHEMA_VERSION`. -/
def graphSchemaVersion : String := "umcm.execution_graph.v0.2"

/-- An execution graph with all its fields; operations and relations are stored under
their ids and names. -/
structure ExecutionGraph where
  operations : Dict String MemoryOperation
  relations : Dict String NamedRelation
  candidateId : Int
  metadata : DocEntries
  schemaVersion : String
  keyed : ∀ p ∈ operations.entries, p.1 = p.2.id
  named : ∀ p ∈ relations.entries, p.1 = p.2.name
  known : ∀ p ∈ relations.entries, ∀ e ∈ p.2.edges,
    (operations.get? e.1).isSome ∧ (operations.get? e.2).isSome

namespace ExecutionGraph

/-- The first operation that is not stored under its id. -/
def operationError? (operations : Dict String MemoryOperation) : Option String :=
  operations.entries.findSome? (fun p =>
    if p.1 = p.2.id then none
    else some s!"operation key {quoted p.1} does not match id {quoted p.2.id}")

/-- What is wrong with a relation that is stored under the name. -/
def relationError? (operations : Dict String MemoryOperation) (p : String × NamedRelation) :
    Option String :=
  if p.1 = p.2.name then
    (sortedEdges p.2.edges).findSome? (fun e =>
      if (operations.get? e.1).isSome ∧ (operations.get? e.2).isSome then none
      else some s!"relation {quoted p.1} references unknown edge {quoted e.1}->{quoted e.2}")
  else some s!"relation key {quoted p.1} does not match name {quoted p.2.name}"

theorem operationError?_eq_none {operations : Dict String MemoryOperation} :
    operationError? operations = none ↔ ∀ p ∈ operations.entries, p.1 = p.2.id := by
  simp [operationError?, List.findSome?_eq_none_iff]

theorem relationError?_eq_none {operations : Dict String MemoryOperation}
    {p : String × NamedRelation} : relationError? operations p = none ↔ p.1 = p.2.name ∧
      ∀ e ∈ p.2.edges, (operations.get? e.1).isSome ∧ (operations.get? e.2).isSome := by
  unfold relationError?
  split_ifs with hname
  · simp only [List.findSome?_eq_none_iff, mem_sortedEdges, hname, true_and]
    refine forall₂_congr (fun e _ => ?_)
    split_ifs <;> simp_all
  · simp [hname]

/-- The constructor: its checks in the order of `__post_init__`. -/
def make (operations : Dict String MemoryOperation) (relations : Dict String NamedRelation)
    (candidateId : Int) (metadata : DocEntries) (schemaVersion : String) :
    Except PyError ExecutionGraph :=
  match hoperations : operationError? operations with
  | some message => .error (.graphError message)
  | none =>
    match hrelations : relations.entries.findSome? (relationError? operations) with
    | some message => .error (.graphError message)
    | none =>
      have hall := fun p hp =>
        relationError?_eq_none.mp (List.findSome?_eq_none_iff.mp hrelations p hp)
      .ok
        { operations, relations, candidateId, metadata, schemaVersion
          keyed := operationError?_eq_none.mp hoperations
          named := fun p hp => (hall p hp).1
          known := fun p hp => (hall p hp).2 }

def toDict (g : ExecutionGraph) : Doc :=
  .dict [(.text "schema_version", .scalar (.str g.schemaVersion)),
    (.text "candidate_id", .scalar (.int g.candidateId)),
    (.text "metadata", .dict g.metadata),
    (.text "operations", .list ((sortedList g.operations.keys.toFinset).filterMap (fun id =>
      (g.operations.get? id).map MemoryOperation.toDict))),
    (.text "relations", .list ((sortedList g.relations.keys.toFinset).filterMap (fun name =>
      (g.relations.get? name).map NamedRelation.toDict)))]

/-- `data.get(name, [])`, which must be a list. -/
def listOf (entries : DocEntries) (name : String) : Except PyError (List Doc) :=
  match entries.get? name with
  | none => .ok []
  | some (.list items) => .ok items
  | some _ => .error (.serializationError "execution graph operations/relations must be lists")

def fromDict : Doc → Except PyError ExecutionGraph
  | .dict entries => do
    let rawOperations ← listOf entries "operations"
    let rawRelations ← listOf entries "relations"
    let operations ← rawOperations.mapM MemoryOperation.fromDict
    let relations ← rawRelations.mapM NamedRelation.fromDict
    let metadata ← MemoryOperation.metadataOf entries "execution graph metadata must be a mapping"
    let candidateId ← ((DocEntries.get? entries "candidate_id").map intOf).getD (.ok 0)
    make (.ofList (operations.map (fun op => (op.id, op))))
      (.ofList (relations.map (fun r => (r.name, r)))) candidateId metadata
      (((DocEntries.get? entries "schema_version").map Doc.pyStr).getD graphSchemaVersion)
  | _ => .error (.serializationError "execution graph must be a mapping")

/-- `a == b`: dictionaries are compared without their order. -/
structure Equal (g h : ExecutionGraph) : Prop where
  operations : ∀ id, g.operations.get? id = h.operations.get? id
  relations : ∀ name, g.relations.get? name = h.relations.get? name
  candidateId : g.candidateId = h.candidateId
  metadata : g.metadata = h.metadata
  schemaVersion : g.schemaVersion = h.schemaVersion

/-! ### Reading a graph back -/

theorem make_rebuilt (g : ExecutionGraph) {operations : Dict String MemoryOperation}
    {relations : Dict String NamedRelation}
    (hoperations : ∀ id, operations.get? id = g.operations.get? id)
    (hrelations : ∀ name, relations.get? name = g.relations.get? name) :
    ∃ g', make operations relations g.candidateId g.metadata g.schemaVersion = .ok g' ∧
      g'.Equal g := by
  have hkeyed : operationError? operations = none := by
    rw [operationError?_eq_none]
    intro p hp
    exact g.keyed p (Dict.get?_eq_some_iff.mp
      ((hoperations p.1).symm.trans (Dict.get?_eq_some_iff.mpr hp)))
  have hnamed : relations.entries.findSome? (relationError? operations) = none := by
    rw [List.findSome?_eq_none_iff]
    intro p hp
    have hmem : p ∈ g.relations.entries := Dict.get?_eq_some_iff.mp
      ((hrelations p.1).symm.trans (Dict.get?_eq_some_iff.mpr hp))
    refine relationError?_eq_none.mpr ⟨g.named p hmem, fun e he => ?_⟩
    rw [hoperations, hoperations]
    exact g.known p hmem e he
  unfold make
  split
  · next message h => simp [hkeyed] at h
  · split
    · next message h => simp [hnamed] at h
    · exact ⟨_, rfl, ⟨hoperations, hrelations, rfl, rfl, rfl⟩⟩

end ExecutionGraph

/-- A graph in which only AMOs carry a write value is read back as it was stored. -/
theorem graph_roundTrip (g : ExecutionGraph)
    (hwrites : ∀ id op, g.operations.get? id = some op → op.OnlyAmosWrite) :
    ∃ g', ExecutionGraph.fromDict g.toDict = .ok g' ∧ g'.Equal g := by
  set rawOperations := (sortedList g.operations.keys.toFinset).filterMap (fun id =>
    (g.operations.get? id).map MemoryOperation.toDict) with hrawOperations
  set rawRelations := (sortedList g.relations.keys.toFinset).filterMap (fun name =>
    (g.relations.get? name).map NamedRelation.toDict) with hrawRelations
  have hoperations : rawOperations.mapM MemoryOperation.fromDict =
      .ok ((sortedList g.operations.keys.toFinset).filterMap g.operations.get?) := by
    refine mapM_stored (fun p hp => ?_) _
    exact MemoryOperation.fromDict_toDict (hwrites p.1 p.2 (Dict.get?_eq_some_iff.mpr hp))
  have hrelations : rawRelations.mapM NamedRelation.fromDict =
      .ok ((sortedList g.relations.keys.toFinset).filterMap g.relations.get?) :=
    mapM_stored (fun p _ => NamedRelation.fromDict_toDict p.2) _
  obtain ⟨g', hg', hequal⟩ := ExecutionGraph.make_rebuilt g
    (@get?_rebuilt _ (fun op => op.id) g.operations g.keyed)
    (@get?_rebuilt _ (fun r => r.name) g.relations g.named)
  refine ⟨g', ?_, hequal⟩
  rw [← hg']
  unfold ExecutionGraph.toDict ExecutionGraph.fromDict
  rw [← hrawOperations, ← hrawRelations]
  set entries : DocEntries := [(.text "schema_version", .scalar (.str g.schemaVersion)),
    (.text "candidate_id", .scalar (.int g.candidateId)), (.text "metadata", .dict g.metadata),
    (.text "operations", .list rawOperations), (.text "relations", .list rawRelations)]
  -- the lists under their names
  have hlistOperations : ExecutionGraph.listOf entries "operations" = .ok rawOperations := rfl
  have hlistRelations : ExecutionGraph.listOf entries "relations" = .ok rawRelations := rfl
  simp only [hlistOperations, hlistRelations, hoperations, hrelations, ok_bind]
  rfl

/-! ## A graph of three operations -/

theorem initWrite_id_ne : "init" ≠ "" := by decide

theorem initWrite_placed : OperationKind.initWrite ≠ .initWrite →
    (none : Option Int) ≠ none ∧ (none : Option Int) ≠ none := fun h => absurd rfl h

theorem initWrite_committed :
    OperationKind.initWrite = .read ∨ OperationKind.initWrite = .amo → "" ≠ "" := by decide

/-- The initial value of location 8. -/
def initWrite : MemoryOperation where
  id := "init"
  kind := .initWrite
  address := .scalar (.int 8)
  value := .scalar (.int 0)
  writeValue := .scalar .none
  hart := none
  programIndex := none
  sourceEventId := ""
  commitEventId := ""
  metadata := []
  id_ne := initWrite_id_ne
  amo_writeValue := nofun
  placed := initWrite_placed
  committed := initWrite_committed

theorem swap_id_ne : "swap" ≠ "" := by decide

/-- A swap that reads the initial value. -/
def swap : MemoryOperation where
  id := "swap"
  kind := .amo
  address := .scalar (.int 8)
  value := .scalar (.int 0)
  writeValue := .scalar (.int 1)
  hart := some 0
  programIndex := some 0
  sourceEventId := "issue"
  commitEventId := "commit"
  metadata := [(.text "aq", .scalar (.bool true))]
  id_ne := swap_id_ne
  amo_writeValue := fun _ => rfl
  placed := by decide
  committed := by decide

def readsFrom : NamedRelation where
  name := "rf"
  edges := {("init", "swap")}
  name_ne := by decide
  edges_ne := by decide

def noFence : NamedRelation where
  name := "fence"
  edges := ∅
  name_ne := by decide
  edges_ne := by decide

def swapGraph : ExecutionGraph where
  operations := .ofList [("swap", swap), ("init", initWrite)]
  relations := .ofList [("rf", readsFrom), ("fence", noFence)]
  candidateId := 3
  metadata := []
  schemaVersion := graphSchemaVersion
  keyed := by decide +kernel
  named := by decide +kernel
  known := by decide +kernel

theorem swapGraph_roundTrip :
    ∃ g', ExecutionGraph.fromDict swapGraph.toDict = .ok g' ∧ g'.Equal swapGraph := by
  refine graph_roundTrip swapGraph ?_
  intro id op hget
  have hmem : (id, op) ∈ swapGraph.operations.entries := Dict.get?_eq_some_iff.mp hget
  have hcases : op = swap ∨ op = initWrite := by
    rcases List.mem_cons.mp hmem with h | h
    · exact .inl (Prod.mk.inj h).2
    · exact .inr (Prod.mk.inj (List.mem_singleton.mp h)).2
  rcases hcases with rfl | rfl
  · exact fun h => absurd rfl h
  · exact fun _ => rfl

end Stored

end Umcm
