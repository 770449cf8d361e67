import Umcm.Search.Exhaustion

/-!
# The shipped search configuration

The event map, catalog entries and graph model of the bounded BOOM search, and
a small search on them that ends exhausted although it has not checked its
programs.
-/

namespace Umcm

open Except

/-! ## Events -/

/-- The architecture events of the search specification. -/
def boomEvents : ArchitectureEventMap where
  initWrite := "Arch.InitWrite"
  load := "Arch.Load"
  store := "Arch.Store"
  commitRead := "Arch.CommitLoad"
  defaults := .ofList
    [("load", .ofList [("byte_mask", .int 255)]), ("store", .ofList [("byte_mask", .int 255)])]

def opIdField : FieldSpec := ⟨"op_id", opIdSort, true, by decide⟩

def addressField : FieldSpec := ⟨"address", addressSort, true, by decide⟩

def valueField (required : Bool) : FieldSpec := ⟨"value", valueSort, required, by decide⟩

/-- The fields that `Arch.Load` and `Arch.Store` share. -/
def accessFields (valueRequired : Bool) : List FieldSpec :=
  [opIdField, ⟨"hart", .int, true, by decide⟩, ⟨"program_index", .int, true, by decide⟩,
    addressField, valueField valueRequired, ⟨"byte_mask", maskSort, true, by decide⟩]

def archInitWrite : EventType :=
  ⟨"Arch.InitWrite", [opIdField, addressField, valueField true], by decide, by decide⟩

def archLoad : EventType := ⟨"Arch.Load", accessFields false, by decide, by decide⟩

def archStore : EventType := ⟨"Arch.Store", accessFields true, by decide, by decide⟩

def archCommitLoad : EventType :=
  ⟨"Arch.CommitLoad", [opIdField, valueField true], by decide, by decide⟩

/-- The catalog entries of the architecture events. -/
def boomCatalog : EventCatalog where
  eventTypes := .ofList [("Arch.CommitLoad", archCommitLoad), ("Arch.InitWrite", archInitWrite),
    ("Arch.Load", archLoad), ("Arch.Store", archStore)]
  named := by
    intro p hp
    have hentries : p ∈ [("Arch.CommitLoad", archCommitLoad), ("Arch.InitWrite", archInitWrite),
        ("Arch.Load", archLoad), ("Arch.Store", archStore)] := hp
    simp only [List.mem_cons, List.not_mem_nil, or_false] at hentries
    rcases hentries with rfl | rfl | rfl | rfl <;> rfl

/-! ## The graph model -/

def boomProjection : ProjectionSpec where
  initWriteEvent := "Arch.InitWrite"
  loadEvent := "Arch.Load"
  storeEvent := "Arch.Store"
  loadCommitEvent := "Arch.CommitLoad"
  idField := "op_id"
  addressField := "address"
  valueField := "value"
  hartField := "hart"
  programIndexField := "program_index"
  requireCommittedLoads := false
  amoEvent := some "Arch.AMO"
  lrEvent := some "Arch.LR"
  scEvent := some "Arch.SC"
  writeValueField := "write_value"
  metadataFields := .empty
  rfHints :=
    [⟨"MSHR.GrantData", "op_id", "source_op_id", "address", "value"⟩,
      ⟨"Hierarchy.ReadFromEvidence", "read_op_id", "write_op_id", "address", "value"⟩]
  coHints :=
    [⟨"Hierarchy.CoherenceOrderEvidence", "before_write_id", "after_write_id", "address"⟩]
  relationHints :=
    [⟨"pair", "Arch.LRSCPair", "source_op_id", "target_op_id", by decide, by decide⟩]

/-- The built-in model on the projection of the BOOM events. -/
def boomModel : GraphModelSpec where
  model := "rvwmo-v2.0-boom-projection-v0.17"
  projection := boomProjection
  derivedRelations := []
  axioms := []
  builtinModel := some .rvwmo
  ppoRules := []
  model_ne := by decide
  derived_nodup := List.nodup_nil
  axioms_nodup := List.nodup_nil

/-! ## A search that is not exhausted -/

/-- One hart, address and value, two operations, one candidate per program. -/
def abandonedBounds : SearchBounds where
  harts := 1
  memoryOps := 2
  addresses := 1
  values := 1
  maxAssignments := 10000
  maxGraphCandidates := 1
  harts_pos := by decide
  memoryOps_pos := by decide
  addresses_pos := by decide
  values_pos := by decide
  maxAssignments_pos := by decide
  maxGraphCandidates_pos := by decide

def abandonedSearch : HierarchicalSearchSpec where
  bounds := abandonedBounds
  events := boomEvents
  target := .allowed

/-- The search ends without a skeleton and calls itself exhausted. -/
theorem abandonedSearch_exhausted : ∃ outcome,
    searchBoundedArchitecture abandonedSearch boomCatalog boomModel = .ok outcome ∧
      outcome.skeleton = none ∧ outcome.exhausted = true := by
  have h : (do
      let outcome ← searchBoundedArchitecture abandonedSearch boomCatalog boomModel
      return (outcome.skeleton.isNone && outcome.exhausted) : Except PyError Bool) = .ok true := by
    decide +kernel
  obtain ⟨outcome, houtcome, h⟩ := bind_eq_ok.mp h
  have hboth : outcome.skeleton.isNone = true ∧ outcome.exhausted = true := by
    simpa [pure, Except.pure] using h
  exact ⟨outcome, houtcome, Option.isNone_iff_eq_none.mp hboth.1, hboth.2⟩

/-- A load and a store of the only value: the load may read the initial value. -/
def abandonedProgram : List RawOperation := [⟨.load, 0, "x", 0⟩, ⟨.store, 0, "x", 0⟩]

/-- The evaluated form of having a candidate that passes the filter. -/
theorem somePossible_of_any {checked : MemoryModelCheck}
    (h : checked.candidates.any (fun candidate =>
      (coreOrderCandidatePossible candidate.graph).toOption == some true) = true) :
    SomePossible checked := by
  obtain ⟨candidate, hcandidate, hpossible⟩ := List.any_eq_true.mp h
  refine ⟨candidate, hcandidate, ?_⟩
  cases hresult : coreOrderCandidatePossible candidate.graph with
  | error e => simp [hresult, Except.toOption] at hpossible
  | ok possible =>
      rw [hresult] at hpossible
      have htrue : possible = true := by simpa [Except.toOption] using hpossible
      rw [htrue]

/-- The program has two candidates, one more than the limit, and it is allowed. -/
theorem abandonedProgram_keepable : ∃ trace checked,
    programTrace abandonedSearch abandonedProgram = .ok trace ∧
      checkAllCandidates trace boomModel = .ok checked ∧
      checked.status = abandonedSearch.target ∧ SomePossible checked := by
  have h : (do
      let trace ← programTrace abandonedSearch abandonedProgram
      let checked ← checkAllCandidates trace boomModel
      return (checked.status, checked.candidates.any (fun candidate =>
        (coreOrderCandidatePossible candidate.graph).toOption == some true)) :
          Except PyError (MemoryModelStatus × Bool)) =
      .ok (.allowed, true) := by decide +kernel
  obtain ⟨trace, htrace, h⟩ := bind_eq_ok.mp h
  obtain ⟨checked, hchecked, h⟩ := bind_eq_ok.mp h
  have hboth := Prod.mk.inj (Except.ok.inj h)
  exact ⟨trace, checked, htrace, hchecked, hboth.1, somePossible_of_any hboth.2⟩

end Umcm
