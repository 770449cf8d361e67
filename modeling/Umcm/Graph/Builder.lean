import Umcm.Data.Choice
import Umcm.Graph.Model

/-!
# From traces to candidate execution graphs

Projection of a concrete trace to memory operations, collection of the hints,
the space of reads-from choices and coherence orders, and the enumeration of
the candidate execution graphs in that space.
-/

namespace Umcm

open FinOrder

/-! ## Reading events -/

/-- `_concrete_event`: whether the event is known to occur; its fields must then
be concrete. -/
def concreteEvent (event : EventInstance) : Except PyError Bool :=
  match event.occurs with
  | .known true =>
    if event.fields.values.any (fun t => match t with | .expr _ => true | .value _ => false) then
      .error (.graphError s!"event {quoted event.id} has symbolic fields")
    else .ok true
  | _ => .ok false

def concreteEvents : List EventInstance → Except PyError (List EventInstance)
  | [] => .ok []
  | event :: rest => do
    let concrete ← concreteEvent event
    let events ← concreteEvents rest
    return if concrete then event :: events else events

/-- `_field`, of an event whose fields are concrete. -/
def field (event : EventInstance) (name : String) : Except PyError Value :=
  match event.fields.get? name with
  | some (.value v) => .ok v
  | _ => .error (.graphError
      s!"event {quoted event.id} ({event.eventType}) is missing field {quoted name}")

/-- The digits of a decimal numeral; single underscores may separate digits. -/
def parseDigits : Nat → List Char → Option Nat
  | acc, [] => some acc
  | acc, '_' :: c :: rest =>
    if c.isDigit then parseDigits (acc * 10 + (c.toNat - '0'.toNat)) rest else none
  | acc, c :: rest =>
    if c.isDigit then parseDigits (acc * 10 + (c.toNat - '0'.toNat)) rest else none

def parseNat : List Char → Option Nat
  | c :: rest => if c.isDigit then parseDigits 0 (c :: rest) else none
  | [] => none

/-- `int(text)`: surrounding blanks, a sign and decimal digits. -/
def parseInt (text : List Char) : Option Int :=
  let trimmed := ((text.dropWhile Char.isWhitespace).reverse.dropWhile Char.isWhitespace).reverse
  match trimmed with
  | '-' :: rest => (parseNat rest).map (fun n => -(n : Int))
  | '+' :: rest => (parseNat rest).map (fun n => (n : Int))
  | rest => (parseNat rest).map (fun n => (n : Int))

/-- `int(v)`. -/
def pyInt : Value → Except PyError Int
  | .none => .error .typeError
  | .bool b => .ok (if b then 1 else 0)
  | .int n => .ok n
  | .float q _ => .ok (if 0 ≤ q then ⌊q⌋ else ⌈q⌉)
  | .str s =>
    match parseInt s.toList with
    | some n => .ok n
    | none => .error .valueError

/-! ## Projection -/

/-- The load commits by operation id. -/
def loadCommits (projection : ProjectionSpec) (events : List EventInstance) :
    Except PyError (Dict String EventInstance) :=
  (events.filter (fun event => event.eventType = projection.loadCommitEvent)).foldlM
    (fun commits event => do
      let opId := (← field event projection.idField).pyStr
      Except.require (commits.get? opId).isNone
        (.graphError s!"multiple load commits for operation {quoted opId}")
      return commits.insert opId event) Dict.empty

/-- The metadata entries an event provides, with the atomic kind if given. -/
def projectedMetadata (projection : ProjectionSpec) (event : EventInstance)
    (atomicKind : Option String) : Dict String MetaValue :=
  let entries := projection.metadataFields.entries.filterMap (fun p =>
    match event.fields.get? p.2 with
    | some (.value v) => some (p.1, MetaValue.scalar v)
    | _ => none)
  let result := Dict.ofList entries
  match atomicKind with
  | some kind => result.insert "atomic_kind" (.scalar (.str kind))
  | none => result

/-- The commit of a read; a missing one is an error or skips the operation. -/
def commitOf (projection : ProjectionSpec) (commits : Dict String EventInstance) (what opId : String) :
    Except PyError (Option EventInstance) :=
  match commits.get? opId with
  | some commit => .ok (some commit)
  | none =>
    if projection.requireCommittedLoads then
      .error (.graphError s!"{what} {quoted opId} has no {projection.loadCommitEvent}")
    else .ok none

def projectInit (projection : ProjectionSpec) (event : EventInstance) :
    Except PyError (Option MemoryOperation) := do
  let opId := (← field event projection.idField).pyStr
  let address ← field event projection.addressField
  let value ← field event projection.valueField
  let operation ← MemoryOperation.make opId .initWrite address value .none none none event.id ""
    (projectedMetadata projection event none)
  return some operation

def projectAmo (projection : ProjectionSpec) (commits : Dict String EventInstance)
    (event : EventInstance) : Except PyError (Option MemoryOperation) := do
  let opId := (← field event projection.idField).pyStr
  match ← commitOf projection commits "AMO" opId with
  | none => return none
  | some commit =>
    let address ← field event projection.addressField
    let value ← field commit projection.valueField
    let writeValue ← field event projection.writeValueField
    let hart ← pyInt (← field event projection.hartField)
    let programIndex ← pyInt (← field event projection.programIndexField)
    let operation ← MemoryOperation.make opId .amo address value writeValue (some hart)
      (some programIndex) event.id commit.id (projectedMetadata projection event (some "amo"))
    return some operation

def projectStore (projection : ProjectionSpec) (event : EventInstance) :
    Except PyError (Option MemoryOperation) := do
  let opId := (← field event projection.idField).pyStr
  let address ← field event projection.addressField
  let value ← field event projection.valueField
  let hart ← pyInt (← field event projection.hartField)
  let programIndex ← pyInt (← field event projection.programIndexField)
  let atomicKind := if projection.scEvent = some event.eventType then some "sc" else none
  let operation ← MemoryOperation.make opId .write address value .none (some hart)
    (some programIndex) event.id "" (projectedMetadata projection event atomicKind)
  return some operation

def projectLoad (projection : ProjectionSpec) (commits : Dict String EventInstance)
    (event : EventInstance) : Except PyError (Option MemoryOperation) := do
  let opId := (← field event projection.idField).pyStr
  match ← commitOf projection commits "load" opId with
  | none => return none
  | some commit =>
    let value ← field commit projection.valueField
    let address ← field event projection.addressField
    let hart ← pyInt (← field event projection.hartField)
    let programIndex ← pyInt (← field event projection.programIndexField)
    let atomicKind := if projection.lrEvent = some event.eventType then some "lr" else none
    let operation ← MemoryOperation.make opId .read address value .none (some hart)
      (some programIndex) event.id commit.id (projectedMetadata projection event atomicKind)
    return some operation

/-- The operation of one event, if its type projects to one. -/
def projectEvent (projection : ProjectionSpec) (commits : Dict String EventInstance)
    (event : EventInstance) : Except PyError (Option MemoryOperation) :=
  if event.eventType = projection.initWriteEvent then projectInit projection event
  else if projection.amoEvent = some event.eventType then projectAmo projection commits event
  else if event.eventType = projection.storeEvent ∨ projection.scEvent = some event.eventType then
    projectStore projection event
  else if event.eventType = projection.loadEvent ∨ projection.lrEvent = some event.eventType then
    projectLoad projection commits event
  else .ok none

/-- Operations under their ids, in the order of their events. -/
structure Operations where
  list : List MemoryOperation
  nodup : (list.map MemoryOperation.id).Nodup

def Operations.add (operations : Operations) (operation : MemoryOperation) :
    Except PyError Operations :=
  if h : operation.id ∈ operations.list.map MemoryOperation.id then
    .error (.graphError s!"duplicate architectural operation id: {operation.id}")
  else
    .ok
      { list := operations.list ++ [operation]
        nodup := by
          rw [List.map_append, List.map_singleton, List.nodup_append]
          refine ⟨operations.nodup, List.nodup_singleton _, ?_⟩
          rintro a ha b hb rfl
          exact h (List.mem_singleton.mp hb ▸ ha) }

def projectEvents (projection : ProjectionSpec) (commits : Dict String EventInstance) :
    Operations → List EventInstance → Except PyError Operations
  | operations, [] => .ok operations
  | operations, event :: rest => do
    match ← projectEvent projection commits event with
    | none => projectEvents projection commits operations rest
    | some operation => projectEvents projection commits (← operations.add operation) rest

def projectOperations (trace : Trace) (projection : ProjectionSpec) : Except PyError Operations := do
  let events ← concreteEvents trace.events
  let commits ← loadCommits projection events
  let operations ← projectEvents projection commits ⟨[], List.nodup_nil⟩ events
  Except.require (operations.list ≠ [])
    (.graphError "trace projects to no architectural memory operations")
  return operations

/-! ## Hints -/

/-- What a reads-from hint says about a read. -/
structure RfEvidence where
  writeId : String
  address : Value
  value : Value
  eventId : String

/-- `semantic_key`. -/
def RfEvidence.semanticKey (e : RfEvidence) : String × Key × Key :=
  (e.writeId, e.address.key, e.value.key)

def readRfEvidence (spec : RfHintSpec) (event : EventInstance) :
    Except PyError (String × RfEvidence) := do
  let readId := (← field event spec.readIdField).pyStr
  let writeId := (← field event spec.writeIdField).pyStr
  let address ← field event spec.addressField
  let value ← field event spec.valueField
  return (readId, { writeId, address, value, eventId := event.id })

/-- The events of the type a hint names, paired with it. -/
def hintEvents {Spec : Type} (eventType : Spec → String) (specs : List Spec) (trace : Trace) :
    List (Spec × EventInstance) :=
  specs.flatMap (fun spec => (trace.eventsOfType (eventType spec)).map (fun event => (spec, event)))

/-- One event of `_rf_hints`. -/
def addRfHint (hints : Dict String RfEvidence) (p : RfHintSpec × EventInstance) :
    Except PyError (Dict String RfEvidence) := do
  if ← concreteEvent p.2 then
    let (readId, evidence) ← readRfEvidence p.1 p.2
    Except.require (∀ previous, hints.get? readId = some previous →
        previous.semanticKey = evidence.semanticKey)
      (.graphError s!"conflicting rf hints for read {quoted readId}: {quoted evidence.writeId}")
    return hints.insert readId evidence
  else return hints

def rfHints (trace : Trace) (spec : GraphModelSpec) : Except PyError (Dict String RfEvidence) :=
  (hintEvents RfHintSpec.eventType spec.projection.rfHints trace).foldlM addRfHint Dict.empty

/-- What a coherence hint says. -/
structure CoEvidence where
  beforeWriteId : String
  afterWriteId : String
  address : Value
  eventId : String

def CoEvidence.semanticKey (e : CoEvidence) : String × String × Key :=
  (e.beforeWriteId, e.afterWriteId, e.address.key)

/-- `repr(semantic_key)`. -/
def CoEvidence.keyRepr (e : CoEvidence) : String :=
  s!"({quoted e.beforeWriteId}, {quoted e.afterWriteId}, {e.address.repr})"

def readCoEvidence (spec : CoHintSpec) (event : EventInstance) : Except PyError CoEvidence := do
  let beforeWriteId := (← field event spec.beforeWriteIdField).pyStr
  let afterWriteId := (← field event spec.afterWriteIdField).pyStr
  let address ← field event spec.addressField
  return { beforeWriteId, afterWriteId, address, eventId := event.id }

/-- One event of `_co_hints`; the first evidence of a key is kept. -/
def addCoHint (hints : List CoEvidence) (p : CoHintSpec × EventInstance) :
    Except PyError (List CoEvidence) := do
  if ← concreteEvent p.2 then
    let evidence ← readCoEvidence p.1 p.2
    if hints.any (fun e => e.semanticKey = evidence.semanticKey) then return hints
    else return hints ++ [evidence]
  else return hints

def coHints (trace : Trace) (spec : GraphModelSpec) : Except PyError (List CoEvidence) := do
  let hints ← (hintEvents CoHintSpec.eventType spec.projection.coHints trace).foldlM addCoHint []
  return hints.insertionSort (fun a b => a.keyRepr ≤ b.keyRepr)

/-- One event of `_relation_hints`. -/
def addRelationHint (operations : List MemoryOperation) (edges : List (String × Edge))
    (p : RelationHintSpec × EventInstance) : Except PyError (List (String × Edge)) := do
  if ← concreteEvent p.2 then
    let source := (← field p.2 p.1.sourceIdField).pyStr
    let target := (← field p.2 p.1.targetIdField).pyStr
    Except.require (source ∈ operations.map MemoryOperation.id ∧
        target ∈ operations.map MemoryOperation.id) (.graphError
      s!"relation hint event {quoted p.2.id} references unknown operation {quoted source}->{quoted target}")
    return edges ++ [(p.1.name, (source, target))]
  else return edges

def relationHints (trace : Trace) (spec : GraphModelSpec) (operations : List MemoryOperation) :
    Except PyError (List Relation) := do
  let edges ← (hintEvents RelationHintSpec.eventType spec.projection.relationHints trace).foldlM
    (addRelationHint operations) []
  let declared := sortedList (spec.projection.relationHints.map RelationHintSpec.name).toFinset
  return declared.map (fun name =>
    { name, edges := ((edges.filter (fun p => p.1 = name)).map Prod.snd).toFinset })

/-! ## The candidate space -/

/-- The choices of the enumeration: sources of each read, and orders of the
writes of each address. -/
structure CandidateSpace where
  operations : Operations
  rfChoices : List (String × List String)
  coOrders : List (Value × List (List String))
  relationHints : List Relation

def CandidateSpace.estimatedCandidates (space : CandidateSpace) : Nat :=
  (space.rfChoices.map (fun p => p.2.length)).prod * (space.coOrders.map (fun p => p.2.length)).prod

def byId (operations : List MemoryOperation) : List MemoryOperation :=
  operations.insertionSort (fun a b => a.id ≤ b.id)

def sortIds (ids : List String) : List String := ids.insertionSort (· ≤ ·)

/-- The writes a read may take its value from. -/
def rfCandidates (operations : List MemoryOperation) (read : MemoryOperation) : List String :=
  ((operations.filter MemoryOperation.isWrite).filter (fun write =>
    write.id ≠ read.id && write.address.pyEq read.address &&
      write.storedValue.pyEq read.readValue)).map MemoryOperation.id

/-- A hint narrows the candidates of a read to the hinted write. -/
def hintedSource (operations : List MemoryOperation) (read : MemoryOperation)
    (candidates : List String) (evidence : RfEvidence) : Except PyError (List String) := do
  match (findOp operations evidence.writeId).filter MemoryOperation.isWrite with
  | none => .error (.graphError
      s!"rf hint for read {quoted read.id} names non-write {quoted evidence.writeId}")
  | some write =>
    Except.require (evidence.address.pyEq read.address ∧ evidence.address.pyEq write.address)
      (.graphError s!"rf hint event {quoted evidence.eventId} has inconsistent address")
    Except.require (evidence.value.pyEq read.readValue ∧ evidence.value.pyEq write.storedValue)
      (.graphError s!"rf hint event {quoted evidence.eventId} has inconsistent value")
    Except.require (evidence.writeId ∈ candidates) (.graphError
      s!"rf hint {quoted evidence.writeId}->{quoted read.id} disagrees with address/value")
    return [evidence.writeId]

/-- The candidates of a read, or the hinted one if `read.id in hints`. -/
def hintedCandidates (operations : List MemoryOperation) (hints : Dict String RfEvidence)
    (read : MemoryOperation) : Except PyError (List String) :=
  match hints.get? read.id with
  | some evidence => hintedSource operations read (rfCandidates operations read) evidence
  | none => .ok (rfCandidates operations read)

/-- The source choices of one read. -/
def rfChoice (operations : List MemoryOperation) (hints : Dict String RfEvidence)
    (read : MemoryOperation) : Except PyError (String × List String) := do
  let candidates ← hintedCandidates operations hints read
  Except.require (candidates ≠ []) (.graphError
    s!"read {quoted read.id} value {read.value.repr} at {read.address.repr} has no candidate source write")
  return (read.id, sortIds candidates)

/-- The addresses of the writes, in the order of their first write. -/
def writeAddresses (operations : List MemoryOperation) : List Value :=
  (operations.filter MemoryOperation.isWrite).foldl (fun addresses write =>
    if addresses.any (fun a => a.pyEq write.address) then addresses
    else addresses ++ [write.address]) []

/-- The writes of an address. -/
def writesAt (operations : List MemoryOperation) (address : Value) : List MemoryOperation :=
  (operations.filter MemoryOperation.isWrite).filter (fun write => write.address.pyEq address)

def initWritesAt (operations : List MemoryOperation) (address : Value) : List String :=
  sortIds (((writesAt operations address).filter (fun op => op.kind = .initWrite)).map
    MemoryOperation.id)

/-- The writes that are permuted: those of kind `write`. -/
def ordinaryWritesAt (operations : List MemoryOperation) (address : Value) : List String :=
  sortIds (((writesAt operations address).filter (fun op => op.kind = .write)).map
    MemoryOperation.id)

/-- The orders of the permuted writes, after the initial write if there is one. -/
def orderCandidates (operations : List MemoryOperation) (address : Value) : List (List String) :=
  (Choice.permutations (ordinaryWritesAt operations address)).map
    (fun order => initWritesAt operations address ++ order)

/-- The hints about an address. -/
def hintsAt (hints : List CoEvidence) (address : Value) : List CoEvidence :=
  hints.filter (fun hint => hint.address.pyEq address)

/-- One end of a coherence hint. -/
def validateHintedWrite (operations : List MemoryOperation) (address : Value) (hint : CoEvidence)
    (writeId : String) : Except PyError Unit :=
  match (findOp operations writeId).filter MemoryOperation.isWrite with
  | none => .error (.graphError
      s!"co hint event {quoted hint.eventId} names non-write {quoted writeId}")
  | some operation => Except.require (operation.address.pyEq address)
      (.graphError s!"co hint event {quoted hint.eventId} has inconsistent address")

def validateCoHint (operations : List MemoryOperation) (address : Value) (hint : CoEvidence) :
    Except PyError Unit := do
  validateHintedWrite operations address hint hint.beforeWriteId
  validateHintedWrite operations address hint hint.afterWriteId
  Except.require (hint.beforeWriteId ≠ hint.afterWriteId)
    (.graphError s!"co hint event {quoted hint.eventId} orders a write before itself")

/-- Whether an order respects the hints, tried one after the other until one
fails. `order.index` raises on a write that the order does not list. -/
def respectsHints (order : List String) : List CoEvidence → Except PyError Bool
  | [] => .ok true
  | hint :: rest =>
    if hint.beforeWriteId ∉ order ∨ hint.afterWriteId ∉ order then .error .valueError
    else if order.idxOf hint.beforeWriteId < order.idxOf hint.afterWriteId then
      respectsHints order rest
    else .ok false

/-- The orders that respect the hints. -/
def filterOrders (hints : List CoEvidence) : List (List String) → Except PyError (List (List String))
  | [] => .ok []
  | order :: rest => do
    let keep ← respectsHints order hints
    let orders ← filterOrders hints rest
    return if keep then order :: orders else orders

/-- The coherence orders of one address. -/
def coChoice (operations : List MemoryOperation) (hints : List CoEvidence) (address : Value) :
    Except PyError (Value × List (List String)) := do
  Except.require ((initWritesAt operations address).length ≤ 1)
    (.graphError s!"address {address.repr} has multiple initial writes")
  (hintsAt hints address).forM (validateCoHint operations address)
  let orders ← filterOrders (hintsAt hints address) (orderCandidates operations address)
  Except.require (orders ≠ []) (.graphError
    s!"co hints for address {address.repr} are inconsistent")
  return (address, orders)

def buildCandidateSpace (trace : Trace) (spec : GraphModelSpec) : Except PyError CandidateSpace := do
  let operations ← projectOperations trace spec.projection
  let hints ← rfHints trace spec
  let coHints ← coHints trace spec
  let rfChoices ← (byId (operations.list.filter MemoryOperation.isRead)).mapM
    (rfChoice operations.list hints)
  let coOrders ← (writeAddresses operations.list).mapM (coChoice operations.list coHints)
  Except.require (∀ hint ∈ coHints, ∃ address ∈ writeAddresses operations.list,
      hint.address.pyEq address) (.graphError "co hints reference address(es) without writes")
  let relationHints ← relationHints trace spec operations.list
  return { operations, rfChoices, coOrders, relationHints }

/-! ## Execution graphs -/

def builderPo (operations : List MemoryOperation) : Except PyError Relation :=
  programOrder (fun _ => .graphError "two architectural operations share a hart/program_index")
    operations

/-- `_co_relation`. -/
def coRelation (orders : List (List String)) : Relation :=
  { name := "co", edges := (orders.flatMap orderedPairs).toFinset }

/-- The reads-from relation of a choice of sources. -/
def rfRelation (sources : List (String × String)) : Relation :=
  { name := "rf", edges := (sources.map Prod.swap).toFinset }

/-- `_rfe_relation`. -/
def rfeRelation (rf : Relation) (operations : List MemoryOperation) : Relation :=
  { name := "rfe", edges := rf.edges.filter (fun e => !sameHart operations e) }

/-- Whether the load-load rule of the generic model preserves an edge. -/
def loadLoadPreserved (operations : List MemoryOperation) (sources : List (String × String))
    (e : Edge) : Bool :=
  match endpoints operations e with
  | none => false
  | some (source, target) =>
    source.isRead && target.isRead && source.address.pyEq target.address &&
      Dict.lookup source.id sources ≠ Dict.lookup target.id sources &&
      !(operations.any (fun op => op.kind = .write && op.hart = source.hart &&
        op.address.pyEq source.address && Between source op target))

/-- `_ppo_relation`. -/
def ppoRelation (po : Relation) (sources : List (String × String))
    (operations : List MemoryOperation) (rules : List PpoRule) : Relation :=
  { name := "ppo"
    edges := if .loadLoadDifferentWrite ∈ rules then
      po.edges.filter (fun e => loadLoadPreserved operations sources e) else ∅ }

/-- `_derive_relation`. -/
def deriveRelation (spec : DerivedRelationSpec) (relations : Dict String Relation) :
    Except PyError Relation := do
  let operands ← spec.relations.mapM (fun name =>
    match relations.get? name with
    | some r => .ok r
    | none => .error (.graphError
        s!"derived relation {quoted spec.name} references unknown relation {quoted name}"))
  match spec.op, operands with
  | .union, operands => return unionRelations spec.name operands
  | .intersection, [a, b] => return a.intersection b spec.name
  | .difference, [a, b] => return a.difference b spec.name
  | .inverse, [a] => return a.inverse spec.name
  | .compose, [a, b] => return a.compose b spec.name
  | .transitiveClosure, [a] => return a.transitiveClosure spec.name
  | _, _ => .error (.graphError "unsupported derived relation op")

/-- Add the derived relations, each of which may use the earlier ones. -/
def deriveRelations : List DerivedRelationSpec → Dict String Relation →
    Except PyError (Dict String Relation)
  | [], relations => .ok relations
  | spec :: rest, relations => do
    let relation ← deriveRelation spec relations
    Except.require (relations.get? relation.name).isNone
      (.graphError s!"derived relation overwrites {quoted relation.name}")
    deriveRelations rest (relations.insert relation.name relation)

/-- One choice of the enumeration. -/
structure Candidate where
  sources : List (String × String)
  orders : List (Value × List String)

/-- The addresses in the order of their text. -/
def orderedAddresses (space : CandidateSpace) : List (Value × List (List String)) :=
  space.coOrders.insertionSort (fun a b => a.1.repr ≤ b.1.repr)

/-- The choices in the order of the enumeration: reads by id, and for each
choice of sources every choice of orders. -/
def CandidateSpace.candidates (space : CandidateSpace) : List Candidate :=
  let readIds := space.rfChoices.map Prod.fst
  let addresses := orderedAddresses space
  (Choice.product (space.rfChoices.map Prod.snd)).flatMap (fun writes =>
    (Choice.product (addresses.map Prod.snd)).map (fun selected =>
      { sources := readIds.zip writes, orders := (addresses.map Prod.fst).zip selected }))

/-- The base graph of a candidate. -/
def candidateGraph (space : CandidateSpace) (spec : GraphModelSpec) (po : Relation)
    (candidateId : Nat) (candidate : Candidate) : Except PyError ExecutionGraph :=
  let operations := space.operations.list
  let rf := rfRelation candidate.sources
  let co := coRelation (candidate.orders.map Prod.snd)
  let fr := (rf.inverse "rf_inv").compose co "fr"
  let ppo := ppoRelation po candidate.sources operations spec.ppoRules
  let base := insertAll Dict.empty [po, rf, rfeRelation rf operations, co, fr, ppo]
  ExecutionGraph.make operations (insertAll base space.relationHints) candidateId
    { graphModel := some spec.model
      rfAssignment := candidate.sources
      coOrders := Dict.ofList (candidate.orders.map (fun p => (p.1.pyStr, p.2)))
      builtinModel := none
      gmoOrder := none } space.operations.nodup

/-- The graph of a candidate, completed by the built-in model and with the
derived relations. -/
def buildGraph (space : CandidateSpace) (spec : GraphModelSpec) (po : Relation)
    (candidateId : Nat) (candidate : Candidate) : Except PyError ExecutionGraph := do
  let graph ← candidateGraph space spec po candidateId candidate
  let graph ← match spec.builtinModel with
    | some .rvwmo => completeRvwmoRelations graph
    | none => .ok graph
  let relations ← deriveRelations spec.derivedRelations graph.relations
  ExecutionGraph.make space.operations.list relations candidateId graph.metadata
    space.operations.nodup

/-- A loop over the generated graphs: `body` runs on each of them before the
next one is built. -/
def forExecutionGraphs {α : Type} (trace : Trace) (spec : GraphModelSpec) (maxCandidates : Int)
    (body : ExecutionGraph → Except PyError α) : Except PyError (List α) := do
  Except.require (0 < maxCandidates) (.graphError "max_candidates must be positive")
  let space ← buildCandidateSpace trace spec
  Except.require ((space.estimatedCandidates : Int) ≤ maxCandidates) (.graphError
    s!"candidate space {space.estimatedCandidates} exceeds limit {maxCandidates}")
  let po ← builderPo space.operations.list
  space.candidates.zipIdx.mapM (fun p => buildGraph space spec po p.2 p.1 >>= body)

/-- The generated graphs themselves. -/
def iterExecutionGraphs (trace : Trace) (spec : GraphModelSpec) (maxCandidates : Int) :
    Except PyError (List ExecutionGraph) :=
  forExecutionGraphs trace spec maxCandidates .ok

end Umcm
