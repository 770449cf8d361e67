import Umcm.Errors
import Umcm.Graph.Relation
import Umcm.Ir.Event

/-!
# Execution graphs

The nodes of an execution graph are the memory operations a trace projects to,
its edges are named relations over the operation ids. Both are built through
`make`, which raises what the constructor of the source raises; a value that
exists satisfies the checks, which are its fields.
-/

namespace Umcm

inductive OperationKind where
  | initWrite
  | read
  | write
  | amo
deriving DecidableEq, Repr

/-- A metadata entry: a scalar, or a list, tuple or set of scalars. -/
inductive MetaValue where
  | scalar (value : Value)
  | sequence (items : List Value)
deriving DecidableEq, Repr

namespace MetaValue

/-- `isinstance(value, int)`, with the integer. -/
def asInt? : MetaValue → Option Int
  | scalar v => v.asInt?
  | sequence _ => none

def truthy : MetaValue → Bool
  | scalar v => v.truthy
  | sequence items => !items.isEmpty

def pyStr : MetaValue → String
  | scalar v => v.pyStr
  | sequence items => "[" ++ ", ".intercalate (items.map Value.repr) ++ "]"

end MetaValue

/-- An architectural memory operation. `writeValue` is what an AMO stores; the
`value` of an AMO is what it reads. -/
structure MemoryOperation where
  id : String
  kind : OperationKind
  address : Value
  value : Value
  writeValue : Value
  hart : Option Int
  programIndex : Option Int
  sourceEventId : String
  commitEventId : String
  metadata : Dict String MetaValue
  id_ne : id ≠ ""
  amo_writeValue : kind = .amo → writeValue ≠ .none
  placed : kind ≠ .initWrite → hart ≠ none ∧ programIndex ≠ none
  committed : kind = .read ∨ kind = .amo → commitEventId ≠ ""
deriving DecidableEq

namespace MemoryOperation

/-! ### Operations without metadata -/

/-- The initial value of a location. -/
def initial (id : String) (address value : Value) (sourceEventId : String) (id_ne : id ≠ "") :
    MemoryOperation :=
  { id, kind := .initWrite, address, value, writeValue := .none, hart := none
    programIndex := none, sourceEventId, commitEventId := "", metadata := .empty, id_ne
    amo_writeValue := fun h => nomatch h
    placed := fun h => absurd rfl h
    committed := by simp }

def load (id : String) (hart programIndex : Int) (address value : Value)
    (sourceEventId commitEventId : String) (id_ne : id ≠ "") (commit_ne : commitEventId ≠ "") :
    MemoryOperation :=
  { id, kind := .read, address, value, writeValue := .none, hart := some hart
    programIndex := some programIndex, sourceEventId, commitEventId, metadata := .empty, id_ne
    amo_writeValue := fun h => nomatch h
    placed := fun _ => ⟨Option.some_ne_none _, Option.some_ne_none _⟩
    committed := fun _ => commit_ne }

def store (id : String) (hart programIndex : Int) (address value : Value) (sourceEventId : String)
    (id_ne : id ≠ "") : MemoryOperation :=
  { id, kind := .write, address, value, writeValue := .none, hart := some hart
    programIndex := some programIndex, sourceEventId, commitEventId := "", metadata := .empty, id_ne
    amo_writeValue := fun h => nomatch h
    placed := fun _ => ⟨Option.some_ne_none _, Option.some_ne_none _⟩
    committed := by simp }

/-- An AMO that writes an integer. -/
def amo (id : String) (hart programIndex : Int) (address value : Value) (writeValue : Int)
    (sourceEventId commitEventId : String) (id_ne : id ≠ "") (commit_ne : commitEventId ≠ "") :
    MemoryOperation :=
  { id, kind := .amo, address, value, writeValue := .int writeValue, hart := some hart
    programIndex := some programIndex, sourceEventId, commitEventId, metadata := .empty, id_ne
    amo_writeValue := fun _ h => nomatch h
    placed := fun _ => ⟨Option.some_ne_none _, Option.some_ne_none _⟩
    committed := fun _ => commit_ne }

/-! ### The constructor -/

/-- The constructor: its checks in the order of `__post_init__`. -/
def make (id : String) (kind : OperationKind) (address value writeValue : Value)
    (hart programIndex : Option Int) (sourceEventId commitEventId : String)
    (metadata : Dict String MetaValue) : Except PyError MemoryOperation :=
  if h₁ : id = "" then
    .error (.graphError "memory operation id must be non-empty")
  else if h₂ : kind = .amo ∧ writeValue = .none then
    .error (.graphError s!"AMO {quoted id} requires write_value")
  else if h₃ : kind ≠ .initWrite ∧ (hart = none ∨ programIndex = none) then
    .error (.graphError s!"operation {quoted id} requires hart and program_index")
  else if h₄ : (kind = .read ∨ kind = .amo) ∧ commitEventId = "" then
    .error (.graphError s!"read {quoted id} requires a commit event")
  else
    .ok
      { id, kind, address, value, writeValue, hart, programIndex, sourceEventId, commitEventId,
        metadata
        id_ne := h₁
        amo_writeValue := fun hk hw => h₂ ⟨hk, hw⟩
        placed := fun hk => ⟨fun hh => h₃ ⟨hk, Or.inl hh⟩, fun hp => h₃ ⟨hk, Or.inr hp⟩⟩
        committed := fun hk hc => h₄ ⟨hk, hc⟩ }

def isRead (op : MemoryOperation) : Bool := op.kind = .read ∨ op.kind = .amo

def isWrite (op : MemoryOperation) : Bool :=
  op.kind = .write ∨ op.kind = .initWrite ∨ op.kind = .amo

/-- What a read returned; asked of reads only. -/
def readValue (op : MemoryOperation) : Value := op.value

/-- What a write stores; asked of writes only. -/
def storedValue (op : MemoryOperation) : Value :=
  if op.kind = .amo then op.writeValue else op.value

def atomicKind (op : MemoryOperation) : String :=
  if op.kind = .amo then "amo"
  else pyLower ((op.metadata.get? "atomic_kind").elim "ordinary" MetaValue.pyStr)

theorem read_or_write (op : MemoryOperation) : op.isRead ∨ op.isWrite := by
  cases h : op.kind <;> simp [isRead, isWrite, h]

theorem isRead_kind {op : MemoryOperation} (h : op.isRead) : op.kind ≠ .initWrite := by
  intro hk
  simp [isRead, hk] at h

/-- A read belongs to a hart. -/
theorem hart_of_isRead {op : MemoryOperation} (h : op.isRead) : ∃ hart, op.hart = some hart :=
  Option.ne_none_iff_exists'.mp (op.placed (isRead_kind h)).1

end MemoryOperation

/-- The metadata entries that the builder and the built-in model record. -/
structure GraphMetadata where
  graphModel : Option String
  rfAssignment : List (String × String)
  coOrders : Dict String (List String)
  builtinModel : Option String
  gmoOrder : Option (List String)

/-- An execution graph: operations with distinct ids, and relations between
them, stored under their names. -/
structure ExecutionGraph where
  operations : List MemoryOperation
  relations : Dict String Relation
  candidateId : Nat
  metadata : GraphMetadata
  nodup : (operations.map MemoryOperation.id).Nodup
  named : ∀ p ∈ relations.entries, p.2.name = p.1
  known : ∀ p ∈ relations.entries, ∀ e ∈ p.2.edges,
    e.1 ∈ operations.map MemoryOperation.id ∧ e.2 ∈ operations.map MemoryOperation.id

namespace ExecutionGraph

/-- The constructor. The operations come as the values of a dictionary keyed by
their ids, so their ids are distinct. -/
def make (operations : List MemoryOperation) (relations : Dict String Relation)
    (candidateId : Nat) (metadata : GraphMetadata)
    (nodup : (operations.map MemoryOperation.id).Nodup) : Except PyError ExecutionGraph :=
  if named : ∀ p ∈ relations.entries, p.2.name = p.1 then
    if known : ∀ p ∈ relations.entries, ∀ e ∈ p.2.edges,
        e.1 ∈ operations.map MemoryOperation.id ∧ e.2 ∈ operations.map MemoryOperation.id then
      .ok { operations, relations, candidateId, metadata, nodup, named, known }
    else
      .error (.graphError "relation references unknown edge")
  else
    .error (.graphError "relation key does not match name")

theorem make_eq_ok {operations : List MemoryOperation} {relations : Dict String Relation}
    {candidateId : Nat} {metadata : GraphMetadata}
    {nodup : (operations.map MemoryOperation.id).Nodup} {g : ExecutionGraph}
    (h : make operations relations candidateId metadata nodup = .ok g) :
    g.operations = operations ∧ g.relations = relations ∧ g.candidateId = candidateId ∧
      g.metadata = metadata := by
  unfold make at h
  split at h
  · split at h
    · cases h
      exact ⟨rfl, rfl, rfl, rfl⟩
    · cases h
  · cases h

/-- `graph.relation(name)`. -/
def relation (g : ExecutionGraph) (name : String) : Except PyError Relation :=
  match g.relations.get? name with
  | some r => .ok r
  | none => .error (.graphError s!"unknown relation: {name}")

/-- The operations, as a type. -/
abbrev Op (g : ExecutionGraph) : Type := {op : MemoryOperation // op ∈ g.operations}

/-- Operations of a graph are told apart by their ids. -/
theorem op_ext {g : ExecutionGraph} {a b : MemoryOperation} (ha : a ∈ g.operations)
    (hb : b ∈ g.operations) (h : a.id = b.id) : a = b :=
  List.inj_on_of_nodup_map g.nodup ha hb h

/-- The endpoints of an edge are operations of the graph. -/
theorem edge_ops (g : ExecutionGraph) {name : String} {r : Relation}
    (hr : g.relations.get? name = some r) {e : Edge} (he : e ∈ r.edges) :
    ∃ a ∈ g.operations, ∃ b ∈ g.operations, e = (a.id, b.id) := by
  obtain ⟨h₁, h₂⟩ := g.known _ (Dict.get?_eq_some_iff.mp hr) e he
  obtain ⟨a, ha, hid⟩ := List.mem_map.mp h₁
  obtain ⟨b, hb, hid'⟩ := List.mem_map.mp h₂
  exact ⟨a, ha, b, hb, by rw [hid, hid']⟩

end ExecutionGraph

/-- `operations[id]`. -/
def findOp (operations : List MemoryOperation) (id : String) : Option MemoryOperation :=
  operations.find? (fun op => op.id = id)

theorem findOp_eq_some {operations : List MemoryOperation} {id : String} {op : MemoryOperation}
    (h : findOp operations id = some op) : op ∈ operations ∧ op.id = id :=
  ⟨List.mem_of_find?_eq_some h, by simpa using List.find?_some h⟩

theorem findOp_of_mem {operations : List MemoryOperation}
    (hnd : (operations.map MemoryOperation.id).Nodup) {op : MemoryOperation}
    (h : op ∈ operations) : findOp operations op.id = some op := by
  have hsome : (findOp operations op.id).isSome := List.find?_isSome.mpr ⟨op, h, by simp⟩
  obtain ⟨op', hop'⟩ := Option.isSome_iff_exists.mp hsome
  obtain ⟨hmem, hid⟩ := findOp_eq_some hop'
  rw [hop', List.inj_on_of_nodup_map hnd hmem h hid]

end Umcm
