import Umcm.Graph.RvwmoCheck

/-!
# The choice of the global memory order

The checker evaluates the load-value axiom on the one topological order that
the completion has recorded. Every other order that contains `ppo`, `rfe`, `co`
and `fr` gives the same report.

* `Completed.loadValueOffense_eq_none_iff_settled`: a read is reported for a
  reason that does not mention the order.
* `checkRvwmo_order_independent`: the reported loads and the outcomes are the
  same for every linear extension.
-/

namespace Umcm

open FinOrder Axiomatic Except

namespace ExecutionGraph

/-- The edges every global memory order respects. -/
def OrderEdge (g : ExecutionGraph) (x y : String) : Prop :=
  (x, y) ∈ allEdges (rvwmoOrderRelations.map g.rel)

/-- A list of the operations along `ppo`, `rfe`, `co` and `fr`. -/
def GlobalOrder (g : ExecutionGraph) (order : List String) : Prop :=
  LinearExtension g.OrderEdge (g.operations.map MemoryOperation.id).toFinset order

/-- The graph with another global memory order recorded in place of its own. -/
def useOrder (g : ExecutionGraph) (order : List String) : Except PyError ExecutionGraph :=
  make g.operations (g.relations.insert "gmo" (gmoOf (some order))) g.candidateId
    { g.metadata with gmoOrder := some order } g.nodup

theorem make_ok {operations : List MemoryOperation} {relations : Dict String Relation}
    {candidateId : Nat} {metadata : GraphMetadata}
    {nodup : (operations.map MemoryOperation.id).Nodup}
    (hnamed : ∀ p ∈ relations.entries, p.2.name = p.1)
    (hknown : ∀ p ∈ relations.entries, ∀ e ∈ p.2.edges,
      e.1 ∈ operations.map MemoryOperation.id ∧ e.2 ∈ operations.map MemoryOperation.id) :
    ∃ g, make operations relations candidateId metadata nodup = .ok g := by
  unfold make
  rw [dif_pos hnamed, dif_pos hknown]
  exact ⟨_, rfl⟩

/-- A list of the operations can be recorded. -/
theorem useOrder_ok (g : ExecutionGraph) {order : List String}
    (hids : ∀ id ∈ order, id ∈ g.operations.map MemoryOperation.id) :
    ∃ g', g.useOrder order = .ok g' := by
  apply make_ok
  · intro p hp
    rcases Dict.mem_entries_insert hp with rfl | hp
    · rfl
    · exact g.named p hp
  · intro p hp e he
    rcases Dict.mem_entries_insert hp with rfl | hp
    · have hmem : e ∈ orderedPairs order := List.mem_toFinset.mp he
      obtain ⟨hfirst, hsecond⟩ := mem_of_mem_orderedPairs hmem
      exact ⟨hids e.1 hfirst, hids e.2 hsecond⟩
    · exact g.known p hp e he

/-- Every operation is on a global order. -/
theorem GlobalOrder.mem {g : ExecutionGraph} {order : List String} (h : g.GlobalOrder order)
    (a : g.Op) : a.1.id ∈ order := by
  rw [h.mem_iff, List.mem_toFinset]
  exact List.mem_map_of_mem a.2

end ExecutionGraph

namespace Completed

variable {g : ExecutionGraph} {sources : Dict String String} (hc : Completed g sources)
include hc

/-- A global order respects the order relations. -/
theorem order_sub_globalOrder {order : List String} (h : g.GlobalOrder order) (a b : g.Op)
    (hab : g.toExecution.order a b) : listOrder g order a b :=
  h.extends_rel _ _ ((hc.order_iff a b).mp hab)

/-- A read is not reported exactly when it takes its value neither from a later
write of its hart nor from one that an older store of its hart overwrites. -/
theorem loadValueOffense_eq_none_iff_settled {order : List String} (h : g.GlobalOrder order)
    {r : g.Op} (hread : r.1.isRead) :
    loadValueOffense g.operations order (g.rel "po") sources r.1 = none ↔
      ∃ w : g.Op, g.related "rf" w r ∧ g.toExecution.SettledAt w r := by
  have hall := h.mem
  have hstrict := listOrder_strictTotal hall
  have hsub := hc.order_sub_globalOrder h
  rw [hc.loadValueOffense_eq_none_iff hall hread]
  constructor
  · intro ⟨w, hrf, hvalue⟩
    exact ⟨w, hrf, (Execution.settledAt_iff_loadValueAt hc.wellFormed hstrict hsub hrf).mpr hvalue⟩
  · intro ⟨w, hrf, hsettled⟩
    exact ⟨w, hrf, (Execution.settledAt_iff_loadValueAt hc.wellFormed hstrict hsub hrf).mp hsettled⟩

omit hc in
/-- The report of a read, if there is one, does not mention the order. -/
theorem loadValueOffense_eq {operations : List MemoryOperation} {order order' : List String}
    {po : Relation} {read : MemoryOperation}
    (h : loadValueOffense operations order po sources read = none ↔
      loadValueOffense operations order' po sources read = none) :
    loadValueOffense operations order po sources read =
      loadValueOffense operations order' po sources read := by
  have hreport : ∀ order, loadValueOffense operations order po sources read = none ∨
      loadValueOffense operations order po sources read =
        some ((sources.get? read.id).getD "", read.id) := by
    intro order
    unfold loadValueOffense
    split
    · exact Or.inr rfl
    · dsimp only
      split
      · exact Or.inr rfl
      · exact Or.inl rfl
  rcases hreport order with hnone | hsome
  · rw [hnone, h.mp hnone]
  · rcases hreport order' with hnone' | hsome'
    · rw [h.mpr hnone', hnone']
    · rw [hsome, hsome']

/-- The reported loads of a graph with the operations and base relations of the
completed graph and some global order. -/
theorem loadValueOffenses_eq {g' : ExecutionGraph} {order : List String} (h : g.GlobalOrder order)
    (hops : g'.operations = g.operations) (hpo : g'.relation "po" = .ok (g.rel "po"))
    (hrf : g'.relation "rf" = .ok (g.rel "rf")) (horder : g'.metadata.gmoOrder = some order) :
    loadValueOffenses g' = .ok (sortEdgeList ((g.operations.filter MemoryOperation.isRead).filterMap
      (loadValueOffense g.operations order (g.rel "po") sources))) := by
  unfold loadValueOffenses
  rw [horder, Option.getD_some]
  cases order with
  | nil =>
      -- no operations at all
      have hnil : g.operations = [] := by
        apply List.eq_nil_iff_forall_not_mem.mpr
        intro a ha
        cases h.mem ⟨a, ha⟩
      rw [hnil]
      rfl
  | cons first rest => simp only [hpo, hrf, hops, hc.rf, ok_bind]; rfl

end Completed

/-- The outcomes depend on the global order through the reported loads only. -/
theorem checkRvwmo_congr {g g' : ExecutionGraph} (hops : g'.operations = g.operations)
    (hrels : ∀ name, name ≠ "gmo" → g'.relations.get? name = g.relations.get? name)
    (hload : loadValueOffenses g' = loadValueOffenses g) : checkRvwmo g' = checkRvwmo g := by
  have hrel : ∀ name, name ≠ "gmo" → g'.relation name = g.relation name := by
    intro name hname
    rw [ExecutionGraph.relation, ExecutionGraph.relation, hrels name hname]
  have horder : rvwmoOrderRelations.mapM g'.relation = rvwmoOrderRelations.mapM g.relation := by
    apply mapM_congr
    intro name hname
    exact hrel name (by revert name; decide)
  have hamo : amoOffenses g' = amoOffenses g := by
    unfold amoOffenses
    rw [hrel "co" (by decide), hrel "rf" (by decide), hops]
  have hlrSc : lrScOffenses g' = lrScOffenses g := by
    unfold lrScOffenses
    rw [hrel "co" (by decide), hrel "rf" (by decide), hops, relationOrEmpty, relationOrEmpty,
      hrels "pair" (by decide)]
  unfold checkRvwmo
  rw [horder, hload, hamo, hlrSc]

/-- The recorded order of a completed graph with acyclic order relations is a
global order. -/
theorem Completed.recorded {g : ExecutionGraph} {sources : Dict String String}
    (hc : Completed g sources) (hacyclic : Acyclic g.OrderEdge) :
    ∃ order, g.metadata.gmoOrder = some order ∧ g.GlobalOrder order := by
  have hsome := hc.order_isSome_iff.mpr (hc.order_acyclic_iff.mpr hacyclic)
  obtain ⟨order, horder⟩ := Option.isSome_iff_exists.mp hsome
  have hext := Kahn.topologicalOrder_linearExtension (nodup_sortedList _)
    (fun _ => nodup_sortedList _) kahn_nodes horder
  refine ⟨order, ?_, hext.nodup, ?_, ?_⟩
  · rw [hc.order, horder, Option.getD_some]
  · intro id
    rw [hext.mem_iff, List.mem_toFinset, mem_sortedList]
  · intro x y hxy
    exact hext.extends_rel x y (mem_successors.mpr hxy)

/-- With acyclic order relations no load is reported exactly when the order-free
part of the load-value axiom holds. -/
theorem Completed.loadValueOffenses_settled {g : ExecutionGraph} {sources : Dict String String}
    (hc : Completed g sources) : ∃ offenses, loadValueOffenses g = .ok offenses ∧
      (Acyclic g.toExecution.order → (offenses = [] ↔ g.toExecution.Settled)) := by
  cases horder : topologicalTotalOrder (g.operations.map MemoryOperation.id)
      (rvwmoOrderRelations.map g.rel) with
  | none =>
      refine ⟨[], hc.loadValueOffenses_of_no_order horder, ?_⟩
      intro hacyclic
      have hsome := hc.order_isSome_iff.mpr hacyclic
      rw [horder] at hsome
      cases hsome
  | some order =>
      obtain ⟨hall, hsub⟩ := hc.order_sound horder
      obtain ⟨offenses, hok, hiff⟩ := hc.loadValueOffenses_of_order horder
      refine ⟨offenses, hok, fun _ => ?_⟩
      rw [hiff, Execution.settled_iff_loadValue hc.wellFormed (listOrder_strictTotal hall) hsub]

/-- The choice of the global memory order is invisible: on every linear
extension of the acyclic union of `ppo`, `rfe`, `co` and `fr`, the recorded one
among them, the checker reports the same loads and returns the same outcomes. -/
theorem checkRvwmo_order_independent {graph completed : ExecutionGraph}
    (haccepted : completeRvwmoRelations graph = .ok completed)
    (hacyclic : Acyclic completed.OrderEdge) :
    (∃ order, completed.metadata.gmoOrder = some order ∧ completed.GlobalOrder order) ∧
    ∃ offenses, loadValueOffenses completed = .ok offenses ∧
      ∀ order, completed.GlobalOrder order → ∃ g, completed.useOrder order = .ok g ∧
        loadValueOffenses g = .ok offenses ∧ checkRvwmo g = checkRvwmo completed := by
  obtain ⟨⟨sources, hc⟩, -⟩ := completed_of_complete haccepted
  obtain ⟨recorded, hrecorded, hglobal⟩ := hc.recorded hacyclic
  have hload := hc.loadValueOffenses_eq hglobal rfl (hc.relation_ok "po" (by decide))
    (hc.relation_ok "rf" (by decide)) hrecorded
  refine ⟨⟨recorded, hrecorded, hglobal⟩, _, hload, ?_⟩
  intro order horder
  have hids : ∀ id ∈ order, id ∈ completed.operations.map MemoryOperation.id := by
    intro id hid
    exact List.mem_toFinset.mp ((horder.mem_iff id).mp hid)
  obtain ⟨g, hg⟩ := completed.useOrder_ok hids
  obtain ⟨hops, hrels, -, hmeta⟩ := ExecutionGraph.make_eq_ok hg
  have hget : ∀ name, name ≠ "gmo" → g.relations.get? name = completed.relations.get? name := by
    intro name hname
    rw [hrels, Dict.get?_insert_of_ne _ hname]
  have hrel : ∀ name ∈ ["po", "rf", "co", "ppo", "rfe", "fr"],
      g.relation name = .ok (completed.rel name) := by
    intro name hname
    rw [ExecutionGraph.relation, hget name (by revert name; decide)]
    exact hc.relation_ok name hname
  have hmeta' : g.metadata.gmoOrder = some order := by rw [hmeta]
  have hload' := hc.loadValueOffenses_eq horder hops (hrel "po" (by decide)) (hrel "rf" (by decide))
    hmeta'
  -- both reports hold the same loads, read by read
  have hsame : loadValueOffenses g = loadValueOffenses completed := by
    rw [hload, hload']
    congr 2
    apply List.filterMap_congr
    intro r hr
    obtain ⟨hmem, hread⟩ := List.mem_filter.mp hr
    apply Completed.loadValueOffense_eq
    rw [hc.loadValueOffense_eq_none_iff_settled horder (r := ⟨r, hmem⟩) hread,
      hc.loadValueOffense_eq_none_iff_settled hglobal (r := ⟨r, hmem⟩) hread]
  exact ⟨g, hg, hsame.trans hload, checkRvwmo_congr hops hget hsame⟩

/-- An LR/SC pair that another hart reads from. -/
theorem pairGraph_order_independent : ∃ completed, completeRvwmoRelations pairGraph = .ok completed ∧
    ∃ offenses, loadValueOffenses completed = .ok offenses ∧
      ∀ order, completed.GlobalOrder order → ∃ g, completed.useOrder order = .ok g ∧
        loadValueOffenses g = .ok offenses ∧ checkRvwmo g = checkRvwmo completed := by
  obtain ⟨completed, outcomes, haccepted, hcheck, hallowed⟩ := pairGraph_allowed
  obtain ⟨⟨sources, hc⟩, -⟩ := completed_of_complete haccepted
  obtain ⟨gmo, hstrict, hsub, -⟩ := hc.allowed hcheck hallowed
  have hacyclic : Acyclic completed.toExecution.order :=
    acyclic_of_subrelation hsub hstrict.irrefl (fun _ _ _ => hstrict.trans)
  exact ⟨completed, haccepted,
    (checkRvwmo_order_independent haccepted (hc.order_acyclic_iff.mp hacyclic)).2⟩

end Umcm
