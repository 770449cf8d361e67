import Umcm.Graph.RvwmoCheck
import Umcm.Search.Engine

/-!
# The core-order filter

The filter of the bounded search looks for three patterns: a read of a later store
of its hart, a read of the initial value past an older store, and stores that are
ordered against program order. Each of them is a cycle that coherence excludes.

* `forbidden_of_filtered`: the built-in model forbids what the filter rejects.
-/

namespace Umcm

open Except FinOrder

/-- Operations with one address have one location. -/
def OneLocationPerAddress (operations : List MemoryOperation) : Prop :=
  ∀ a ∈ operations, ∀ b ∈ operations, a.address.pyEq b.address = true → SameLocation a b

/-- What the filter rejects: one of its three patterns. -/
inductive Reordered (g : ExecutionGraph) : Prop where
  | futureStore (read source : g.Op) (hrf : g.related "rf" source read)
      (hpo : PoBefore read.1 source.1)
  | staleInitial (read source write : g.Op) (hrf : g.related "rf" source read)
      (hinit : source.1.kind = .initWrite) (hwrite : write.1.kind = .write)
      (hpo : PoBefore write.1 read.1) (hloc : SameLocation write.1 read.1)
  | stores (older younger : g.Op) (hpo : PoBefore older.1 younger.1)
      (hloc : SameLocation older.1 younger.1) (hco : g.related "co" younger older)

namespace Completed

variable {g : ExecutionGraph} {sources : Dict String String} (hc : Completed g sources)
include hc

/-- Each pattern is a cycle at one location. -/
theorem not_acyclic_of_reordered (h : Reordered g) :
    ∃ location, ¬ Acyclic (coherenceEdge g location) := by
  cases h with
  | futureStore read source hrf hpo =>
      have hloc := (hc.rf_edge source.2 read.2 hrf).2.2.2
      have hforward : coherenceEdge g (footprintOf read.1) read source :=
        .inl ⟨(hc.po_iff read.2 source.2).mpr hpo, rfl, hloc⟩
      have hback : coherenceEdge g (footprintOf read.1) source read := .inr (.inl hrf)
      exact ⟨_, fun hacyclic => hacyclic read (.head hforward (.single hback))⟩
  | staleInitial read source write hrf hinit hwrite hpo hloc =>
      have hsource := (hc.rf_edge source.2 read.2 hrf).2.2.2
      have hne : write.1 ≠ source.1 := by
        intro heq
        rw [heq, hinit] at hwrite
        cases hwrite
      have hco : g.related "co" source write :=
        hc.co_of_initial source.2 write.2 hinit (by simp [MemoryOperation.isWrite, hwrite]) hne
          (hsource.trans hloc.symm)
      have hread : write.1 ≠ read.1 := by
        intro heq
        rw [heq] at hpo
        exact PoBefore.irrefl _ hpo
      have hfr : g.related "fr" read write :=
        (hc.fr_iff read.2 write.2).mpr ⟨source.1, source.2, hrf, hco, hread⟩
      have hforward : coherenceEdge g (footprintOf read.1) read write := .inr (.inr (.inr hfr))
      have hback : coherenceEdge g (footprintOf read.1) write read :=
        .inl ⟨(hc.po_iff write.2 read.2).mpr hpo, hloc, rfl⟩
      exact ⟨_, fun hacyclic => hacyclic read (.head hforward (.single hback))⟩
  | stores older younger hpo hloc hco =>
      have hforward : coherenceEdge g (footprintOf older.1) older younger :=
        .inl ⟨(hc.po_iff older.2 younger.2).mpr hpo, rfl, hloc.symm⟩
      have hback : coherenceEdge g (footprintOf older.1) younger older := .inr (.inr (.inl hco))
      exact ⟨_, fun hacyclic => hacyclic older (.head hforward (.single hback))⟩

end Completed

/-! ## The filter -/

section Filter

variable {g : ExecutionGraph} {rf : Relation}

/-- The source of a read is an operation that it reads from. -/
theorem readSource_eq_ok {read source : MemoryOperation} (h : readSource g rf read = .ok source) :
    source ∈ g.operations ∧ (source.id, read.id) ∈ rf.edges := by
  unfold readSource at h
  split at h
  · cases h
  · rename_i id hlast
    split at h
    · rename_i operation hfind
      cases h
      obtain ⟨hmem, rfl⟩ := findOp_eq_some hfind
      have hincoming := List.mem_of_getLast? hlast
      refine ⟨hmem, ?_⟩
      simpa [rfIncoming] using hincoming
    · cases h

/-- The loop over the reads stops at an impossible one. -/
theorem exists_of_readsPossible {reads : List MemoryOperation}
    (h : readsPossible g rf reads = .ok false) :
    ∃ read ∈ reads, ∃ source, readSource g rf read = .ok source ∧
      readImpossible g.operations source read = true := by
  induction reads with
  | nil => cases h
  | cons read rest ih =>
      rw [readsPossible] at h
      obtain ⟨source, hsource, h⟩ := bind_eq_ok.mp h
      split_ifs at h with himpossible
      · exact ⟨read, List.mem_cons_self, source, hsource, himpossible⟩
      · obtain ⟨read', hmem, hfound⟩ := ih h
        exact ⟨read', List.mem_cons_of_mem _ hmem, hfound⟩

theorem reordered_of_read (haddress : OneLocationPerAddress g.operations) (read source : g.Op)
    (hrf : g.related "rf" source read) (h : readImpossible g.operations source.1 read.1 = true) :
    Reordered g := by
  simp only [readImpossible, Bool.or_eq_true, Bool.and_eq_true, decide_eq_true_eq,
    List.any_eq_true] at h
  rcases h with ⟨-, hpo⟩ | ⟨hinit, write, hwrite, ⟨hkind, hpo⟩, heq⟩
  · exact .futureStore read source hrf hpo
  · exact .staleInitial read source ⟨write, hwrite⟩ hrf hinit hkind hpo
      (haddress write hwrite read.1 read.2 heq)

/-- A rejected graph has one of the patterns. -/
theorem reordered_of_filtered (haddress : OneLocationPerAddress g.operations)
    (h : coreOrderCandidatePossible g = .ok false) : Reordered g := by
  obtain ⟨rf, hrf, h⟩ := bind_eq_ok.mp h
  obtain ⟨possible, hpossible, h⟩ := bind_eq_ok.mp h
  have hrel : g.rel "rf" = rf := by
    unfold ExecutionGraph.relation at hrf
    split at hrf
    · rename_i r hget
      cases hrf
      exact relationOrEmpty_of_get? hget
    · cases hrf
  cases possible with
  | false =>
      obtain ⟨read, hread, source, hsource, himpossible⟩ := exists_of_readsPossible hpossible
      obtain ⟨hmem, hedge⟩ := readSource_eq_ok hsource
      have hread' := (List.mem_filter.mp hread).1
      refine reordered_of_read haddress ⟨read, hread'⟩ ⟨source, hmem⟩ ?_ himpossible
      rw [ExecutionGraph.related, hrel]
      exact hedge
  | true =>
      split at h
      · rename_i co hco
        have hstores : storesReordered g.operations co = true := by
          simpa [pure, Except.pure] using h
        simp only [storesReordered, List.any_eq_true, Bool.and_eq_true, decide_eq_true_eq]
          at hstores
        obtain ⟨older, holder, -, younger, hyounger, ⟨⟨-, hpo⟩, heq⟩, hedge⟩ := hstores
        refine .stores ⟨older, holder⟩ ⟨younger, hyounger⟩ hpo
          (haddress older holder younger hyounger heq) ?_
        rw [ExecutionGraph.related, ExecutionGraph.rel, relationOrEmpty_of_get? hco]
        exact hedge
      · cases h

end Filter

/-- Completing a graph leaves what the filter looks at. -/
theorem coreOrderCandidatePossible_completed {graph completed : ExecutionGraph}
    (h : completeRvwmoRelations graph = .ok completed) :
    coreOrderCandidatePossible completed = coreOrderCandidatePossible graph := by
  obtain ⟨-, hops, -, hsame⟩ := completed_of_complete h
  have hsource : ∀ rf read, readSource completed rf read = readSource graph rf read := by
    intro rf read
    unfold readSource
    rw [hops]
  have hreads : ∀ rf reads, readsPossible completed rf reads = readsPossible graph rf reads := by
    intro rf reads
    induction reads with
    | nil => rfl
    | cons read rest ih => rw [readsPossible, readsPossible, hsource, ih, hops]
  have hrelation : completed.relation "rf" = graph.relation "rf" := by
    unfold ExecutionGraph.relation
    rw [hsame "rf" (by decide)]
  unfold coreOrderCandidatePossible
  simp only [hrelation, hreads, hops, hsame "co" (by decide)]

/-- The built-in model forbids what the filter rejects, where operations with one address
have one location. -/
theorem forbidden_of_filtered (graph completed : ExecutionGraph)
    (haccepted : completeRvwmoRelations graph = .ok completed) (hpairs : PairsWellFormed graph)
    (haddress : OneLocationPerAddress graph.operations)
    (hfilter : coreOrderCandidatePossible graph = .ok false) :
    ∃ outcomes, checkRvwmo completed = .ok outcomes ∧ ∃ o ∈ outcomes, o.satisfied = false := by
  obtain ⟨⟨sources, hc⟩, hops, -, hsame⟩ := completed_of_complete haccepted
  have hp := pairsWellFormed_of_eq hops (hsame "pair" (by decide)) hpairs
  obtain ⟨outcomes, hcheck⟩ := hc.exists_outcomes hp
  refine ⟨outcomes, hcheck, ?_⟩
  by_contra hnone
  have hallowed : ∀ o ∈ outcomes, o.satisfied = true := by
    intro o ho
    by_contra hunsatisfied
    exact hnone ⟨o, ho, by simpa using hunsatisfied⟩
  rw [← coreOrderCandidatePossible_completed haccepted] at hfilter
  rw [← hops] at haddress
  obtain ⟨location, hcyclic⟩ :=
    hc.not_acyclic_of_reordered (reordered_of_filtered haddress hfilter)
  exact hcyclic (hc.coherent hcheck hallowed location)

/-! ## A read of a later store -/

theorem futureInit_ne : "i" ≠ "" := by decide

theorem futureLoad_ne : "load" ≠ "" := by decide

theorem futureStore_ne : "store" ≠ "" := by decide

theorem futureCommit_ne : "c1" ≠ "" := by decide

/-- A load that reads from the store behind it. -/
def futureGraph : ExecutionGraph where
  operations :=
    [.initial "i" (.str "x") (.int 0) "e0" futureInit_ne,
      .load "load" 0 0 (.str "x") (.int 1) "e1" "c1" futureLoad_ne futureCommit_ne,
      .store "store" 0 1 (.str "x") (.int 1) "e2" futureStore_ne]
  relations := .ofList
    [("rf", { name := "rf", edges := {("store", "load")} }),
      ("co", { name := "co", edges := {("i", "store")} })]
  candidateId := 0
  metadata :=
    { graphModel := none, rfAssignment := [], coOrders := .empty, builtinModel := none
      gmoOrder := none }
  nodup := by decide
  named := by decide
  known := by decide

theorem futureGraph_forbidden : ∃ completed outcomes,
    completeRvwmoRelations futureGraph = .ok completed ∧ checkRvwmo completed = .ok outcomes ∧
      ∃ o ∈ outcomes, o.satisfied = false := by
  have haccepted : (completeRvwmoRelations futureGraph).toOption.isSome = true := by decide +kernel
  obtain ⟨completed, hcompleted⟩ := Option.isSome_iff_exists.mp haccepted
  rw [toOption_eq_some] at hcompleted
  have hpairs : PairsWellFormed futureGraph := by
    constructor <;> (unfold ExecutionGraph.related; decide +kernel)
  have haddress : OneLocationPerAddress futureGraph.operations := by
    unfold OneLocationPerAddress
    decide +kernel
  obtain ⟨outcomes, hcheck, hforbidden⟩ :=
    forbidden_of_filtered futureGraph completed hcompleted hpairs haddress (by decide +kernel)
  exact ⟨completed, outcomes, hcompleted, hcheck, hforbidden⟩

end Umcm
