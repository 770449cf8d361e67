import Umcm.Graph.RvwmoCheck

/-!
# Atomicity of AMO nodes

An AMO is one node that reads and writes. On an acyclic graph without load-value
offenses such a node follows its source in coherence order, with no write between
the two. What the atomicity check can still report are operations that only carry
the annotation of an AMO.

* `amoOffenses_of_acyclic`: the reported operations, and the place of every AMO.
-/

namespace Umcm

open FinOrder Axiomatic

/-- An operation with the annotation of an AMO that is no AMO. -/
def MemoryOperation.labelledAmo (op : MemoryOperation) : Bool :=
  op.atomicKind = "amo" && op.kind ≠ .amo

/-- The source of the operation is its immediate coherence predecessor. -/
def ImmediateSource (g : ExecutionGraph) (a : g.Op) : Prop :=
  ∃ w : g.Op, g.related "rf" w a ∧ g.related "co" w a ∧
    ∀ m : g.Op, ¬ (g.related "co" w m ∧ g.related "co" m a)

theorem amo_reads_and_writes {op : MemoryOperation} :
    (op.isRead ∧ op.isWrite) ↔ op.kind = .amo := by
  cases h : op.kind <;> simp [MemoryOperation.isRead, MemoryOperation.isWrite, h]

namespace Completed

variable {g : ExecutionGraph} {sources : Dict String String} (hc : Completed g sources)

include hc

theorem immediateSource (hacyclic : Acyclic g.toExecution.order)
    (hload : loadValueOffenses g = .ok []) {a : g.Op} (ha : a.1.kind = .amo) :
    ImmediateSource g a := by
  obtain ⟨order, horder⟩ := Option.isSome_iff_exists.mp (hc.order_isSome_iff.mpr hacyclic)
  obtain ⟨hall, hsub⟩ := hc.order_sound horder
  obtain ⟨offenses, hoffenses, hiff⟩ := hc.loadValueOffenses_of_order horder
  rw [hload] at hoffenses
  cases hoffenses
  obtain ⟨hread, hwrite⟩ := amo_reads_and_writes.mpr ha
  obtain ⟨w, hw, hrf, -⟩ := hc.rf_source a.2 hread
  have hrf' : g.toExecution.rf ⟨w, hw⟩ a := hrf
  obtain ⟨hco, hnone⟩ := Execution.immediate_of_loadValueAt hc.wellFormed
    (listOrder_strictTotal hall) hsub hrf' hwrite (hiff.mp rfl _ _ hrf')
  exact ⟨⟨w, hw⟩, hrf, hco, hnone⟩

end Completed

/-- Without a cycle and without load-value offenses, the atomicity check reports
the mislabelled operations and nothing else. -/
theorem amoOffenses_of_acyclic {graph completed : ExecutionGraph}
    (haccepted : completeRvwmoRelations graph = .ok completed)
    (hacyclic : Acyclic (fun x y =>
      ∃ name ∈ rvwmoOrderRelations, (x, y) ∈ (completed.rel name).edges))
    (hload : loadValueOffenses completed = .ok []) :
    amoOffenses completed = .ok (sortEdgeList
      ((completed.operations.filter MemoryOperation.labelledAmo).map (fun op => (op.id, op.id)))) ∧
      ∀ a : completed.Op, a.1.kind = .amo → ImmediateSource completed a := by
  obtain ⟨⟨sources, hc⟩, -⟩ := completed_of_complete haccepted
  have hacyclic' : Acyclic completed.toExecution.order := by
    rw [hc.order_acyclic_iff]
    simpa using hacyclic
  have himmediate : ∀ a : completed.Op, a.1.kind = .amo → ImmediateSource completed a :=
    fun a ha => hc.immediateSource hacyclic' hload ha
  refine ⟨?_, himmediate⟩
  have hoffense : ∀ op ∈ completed.operations,
      amoOffense completed.operations (completed.rel "co") sources op =
        if op.kind = .amo then none else some (op.id, op.id) := by
    intro op hop
    by_cases hkind : op.kind = .amo
    · rw [if_pos hkind]
      exact (hc.amoOffense_eq_none_iff ⟨op, hop⟩).mpr (himmediate ⟨op, hop⟩ hkind)
    · rw [if_neg hkind, amoOffense, if_pos]
      rw [amo_reads_and_writes]
      exact hkind
  unfold amoOffenses
  simp only [hc.relation_ok "co" (by decide), hc.relation_ok "rf" (by decide), Except.ok_bind,
    hc.rf]
  show Except.ok _ = _
  congr 2
  -- one operation at a time: an AMO reports nothing, a mislabelled operation itself
  have hlist : ∀ ops : List MemoryOperation, (∀ op ∈ ops, op ∈ completed.operations) →
      (ops.filter (fun op => op.atomicKind = "amo")).filterMap
        (amoOffense completed.operations (completed.rel "co") sources) =
      (ops.filter MemoryOperation.labelledAmo).map (fun op => (op.id, op.id)) := by
    intro ops hops
    induction ops with
    | nil => rfl
    | cons op rest ih =>
        have ih := ih (fun op hop => hops op (List.mem_cons_of_mem _ hop))
        have hop := hoffense op (hops op List.mem_cons_self)
        by_cases hlabel : op.atomicKind = "amo"
        · by_cases hkind : op.kind = .amo
          · simp [MemoryOperation.labelledAmo, hlabel, hkind, hop, ih]
          · simp [MemoryOperation.labelledAmo, hlabel, hkind, hop, ih]
        · simp [MemoryOperation.labelledAmo, hlabel, ih]
  exact hlist _ (fun _ h => h)

/-! ## An AMO, and a load with its annotation -/

theorem atomicInit_id_ne : "init" ≠ "" := by decide

theorem swapOperation_id_ne : "swap" ≠ "" := by decide

theorem labelledLoad_id_ne : "load" ≠ "" := by decide

theorem atomicCommit_ne : "c1" ≠ "" := by decide

def atomicInit : MemoryOperation := .initial "init" (.int 8) (.int 0) "e0" atomicInit_id_ne

def swapOperation : MemoryOperation :=
  .amo "swap" 0 0 (.int 8) (.int 0) 1 "e1" "c1" swapOperation_id_ne atomicCommit_ne

/-- A load that is annotated as an AMO. -/
def labelledLoad : MemoryOperation :=
  { MemoryOperation.load "load" 0 0 (.int 8) (.int 0) "e1" "c1" labelledLoad_id_ne
      atomicCommit_ne with
    metadata := .ofList [("atomic_kind", .scalar (.str "amo"))] }

def swapGraph : ExecutionGraph where
  operations := [atomicInit, swapOperation]
  relations := .ofList
    [("rf", { name := "rf", edges := {("init", "swap")} }),
      ("co", { name := "co", edges := {("init", "swap")} })]
  candidateId := 0
  metadata :=
    { graphModel := none, rfAssignment := [], coOrders := .empty, builtinModel := none
      gmoOrder := none }
  nodup := by decide
  named := by decide
  known := by decide

def labelledGraph : ExecutionGraph where
  operations := [atomicInit, labelledLoad]
  relations := .ofList
    [("rf", { name := "rf", edges := {("init", "load")} }),
      ("co", { name := "co", edges := ∅ })]
  candidateId := 0
  metadata :=
    { graphModel := none, rfAssignment := [], coOrders := .empty, builtinModel := none
      gmoOrder := none }
  nodup := by decide
  named := by decide
  known := by decide

/-- The graph is accepted, has no cycle and no load-value offense. -/
def checkedAtomics (graph : ExecutionGraph) : Except PyError (Bool × List Edge × List Edge) := do
  let completed ← completeRvwmoRelations graph
  let load ← loadValueOffenses completed
  let amo ← amoOffenses completed
  return ((findLabeledCycle (rvwmoOrderRelations.map completed.rel)).isNone, load, amo)

theorem exists_checked {graph : ExecutionGraph} {amo : List Edge}
    (h : checkedAtomics graph = .ok (true, [], amo)) :
    ∃ completed, completeRvwmoRelations graph = .ok completed ∧
      Acyclic (fun x y => ∃ name ∈ rvwmoOrderRelations, (x, y) ∈ (completed.rel name).edges) ∧
      loadValueOffenses completed = .ok [] ∧ amoOffenses completed = .ok amo := by
  obtain ⟨completed, hcompleted, h⟩ := Except.bind_eq_ok.mp h
  obtain ⟨load, hload, h⟩ := Except.bind_eq_ok.mp h
  obtain ⟨amo', hamo, h⟩ := Except.bind_eq_ok.mp h
  simp only [pure, Except.pure, Except.ok.injEq, Prod.mk.injEq, Option.isNone_iff_eq_none] at h
  obtain ⟨hcycle, rfl, rfl⟩ := h
  rw [findLabeledCycle_eq_none_iff] at hcycle
  exact ⟨completed, hcompleted, by simpa using hcycle, hload, hamo⟩

theorem swapGraph_atomic : ∃ completed, completeRvwmoRelations swapGraph = .ok completed ∧
    amoOffenses completed = .ok (sortEdgeList
      ((completed.operations.filter MemoryOperation.labelledAmo).map (fun op => (op.id, op.id)))) ∧
      ∀ a : completed.Op, a.1.kind = .amo → ImmediateSource completed a := by
  have h : checkedAtomics swapGraph = .ok (true, [], []) := by decide +kernel
  obtain ⟨completed, hcompleted, hacyclic, hload, -⟩ := exists_checked h
  exact ⟨completed, hcompleted, amoOffenses_of_acyclic hcompleted hacyclic hload⟩

/-- The annotated load is reported although nothing is wrong with its source. -/
theorem labelledGraph_reported : ∃ completed,
    completeRvwmoRelations labelledGraph = .ok completed ∧
      Acyclic (fun x y => ∃ name ∈ rvwmoOrderRelations, (x, y) ∈ (completed.rel name).edges) ∧
      loadValueOffenses completed = .ok [] ∧ amoOffenses completed = .ok [("load", "load")] := by
  have h : checkedAtomics labelledGraph = .ok (true, [], [("load", "load")]) := by decide +kernel
  exact exists_checked h

end Umcm
