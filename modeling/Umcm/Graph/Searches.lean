import Umcm.Graph.Rvwmo

/-!
# The two graph searches

The search for a labelled cycle and the topological order work on the same
union of relations, one along a path of open nodes, the other by in-degrees.

* `findLabeledCycle_reports`: a reported cycle is a closed walk without repeated
  nodes, every edge with its first relation.
* `searches_agree`: exactly one of the two searches finds something.
-/

namespace Umcm

open FinOrder

/-- The relation is the first that contains the edge, in the given order. -/
def FirstWith (relations : List Relation) (edge : Edge) (name : String) : Prop :=
  ∃ before r after, relations = before ++ r :: after ∧ r.name = name ∧ edge ∈ r.edges ∧
    ∀ s ∈ before, edge ∉ s.edges

/-- A closed walk without repeated nodes along edges of the relations. -/
structure ReportedCycle (relations : List Relation) (cycle : List LabeledEdge) : Prop where
  nonempty : cycle ≠ []
  nodup : (cycle.map LabeledEdge.source).Nodup
  chain : cycle.IsChain (fun e e' => e.target = e'.source)
  closed : cycle.getLast?.map LabeledEdge.target = cycle.head?.map LabeledEdge.source
  labels : ∀ e ∈ cycle, FirstWith relations (e.source, e.target) e.relation

/-- An order of the nodes, each of them once, that respects every edge. -/
structure TotalOrder (relations : List Relation) (nodeIds order : List String) : Prop where
  nodup : order.Nodup
  mem_iff : ∀ x, x ∈ order ↔ x ∈ nodeIds
  respects : ∀ r ∈ relations, ∀ e ∈ r.edges, Precedes order e.1 e.2

/-! ## Labels -/

theorem firstWith_labelOf {relations : List Relation} {edge : Edge}
    (h : edge ∈ allEdges relations) : FirstWith relations edge (labelOf relations edge) := by
  obtain ⟨r, hr, hedge⟩ := mem_allEdges.mp h
  have hsome : (relations.find? (fun r => edge ∈ r.edges)).isSome :=
    List.find?_isSome.mpr ⟨r, hr, by simpa using hedge⟩
  obtain ⟨first, hfirst⟩ := Option.isSome_iff_exists.mp hsome
  obtain ⟨hmem, before, after, hsplit, hbefore⟩ := List.find?_eq_some_iff_append.mp hfirst
  refine ⟨before, first, after, hsplit, ?_, by simpa using hmem, ?_⟩
  · simp [labelOf, hfirst]
  · intro s hs
    simpa using hbefore s hs

section Path

variable (relations : List Relation)

/-- The edges along a path start at all its nodes but the last. -/
theorem sources_labeledPath (path : List String) :
    (labeledPath relations path).map LabeledEdge.source = path.dropLast := by
  induction path with
  | nil => rfl
  | cons a rest ih =>
      cases rest with
      | nil => rfl
      | cons b rest =>
          rw [labeledPath, List.map_cons, ih]
          rfl

theorem targets_labeledPath (path : List String) :
    (labeledPath relations path).map LabeledEdge.target = path.tail := by
  induction path with
  | nil => rfl
  | cons a rest ih =>
      cases rest with
      | nil => rfl
      | cons b rest =>
          rw [labeledPath, List.map_cons, ih]
          rfl

theorem chain_labeledPath (path : List String) :
    (labeledPath relations path).IsChain (fun e e' => e.target = e'.source) := by
  induction path with
  | nil => exact .nil
  | cons a rest ih =>
      match rest with
      | [] => exact .nil
      | [b] => exact .singleton _
      | b :: c :: rest =>
          rw [labeledPath, labeledPath, List.isChain_cons_cons]
          refine ⟨rfl, ?_⟩
          rw [labeledPath] at ih
          exact ih

theorem labels_labeledPath {path : List String}
    (h : path.IsChain (fun a b => (a, b) ∈ allEdges relations)) :
    ∀ e ∈ labeledPath relations path, FirstWith relations (e.source, e.target) e.relation := by
  induction path with
  | nil => simp [labeledPath]
  | cons a rest ih =>
      cases rest with
      | nil => simp [labeledPath]
      | cons b rest =>
          rw [List.isChain_cons_cons] at h
          rw [labeledPath, List.forall_mem_cons]
          exact ⟨firstWith_labelOf h.1, ih h.2⟩

end Path

/-! ## The two searches -/

theorem findLabeledCycle_reports {relations : List Relation} {cycle : List LabeledEdge}
    (h : findLabeledCycle relations = some cycle) : ReportedCycle relations cycle := by
  obtain ⟨path, hpath, rfl⟩ := Option.map_eq_some_iff.mp h
  obtain ⟨a, l, rfl, hnodup, hchain⟩ := DepthFirst.findCycle_isCycle (closed_nodesOf _) hpath
  have hsources := sources_labeledPath relations (a :: (l ++ [a]))
  have htargets := targets_labeledPath relations (a :: (l ++ [a]))
  have hdrop : (a :: (l ++ [a])).dropLast = a :: l := by
    rw [← List.cons_append, List.dropLast_concat]
  rw [hdrop] at hsources
  refine ⟨?_, by rw [hsources]; exact hnodup, chain_labeledPath relations _, ?_,
    labels_labeledPath relations ?_⟩
  · intro hnil
    rw [hnil] at hsources
    cases hsources
  · rw [← List.getLast?_map, ← List.head?_map, hsources, htargets]
    simp
  · exact hchain.imp (fun _ _ hab => mem_successors.mp hab)

theorem kahnEdge_successors (edges : Finset Edge) :
    Kahn.Edge (successors edges) = fun a b => (a, b) ∈ edges := by
  funext a b
  exact propext mem_successors

section TotalOrder

variable {relations : List Relation} {nodeIds : List String}
  (hnodes : ∀ r ∈ relations, ∀ e ∈ r.edges, e.1 ∈ nodeIds ∧ e.2 ∈ nodeIds)

include hnodes

theorem kahnEdge_mem (a b : String) (h : Kahn.Edge (successors (allEdges relations)) a b) :
    a ∈ sortedList nodeIds.toFinset ∧ b ∈ sortedList nodeIds.toFinset := by
  obtain ⟨r, hr, hab⟩ := mem_allEdges.mp (mem_successors.mp h)
  obtain ⟨ha, hb⟩ := hnodes r hr (a, b) hab
  simpa using ⟨ha, hb⟩

theorem topologicalTotalOrder_isSome_iff :
    (topologicalTotalOrder nodeIds relations).isSome ↔
      Acyclic (fun a b => (a, b) ∈ allEdges relations) := by
  rw [← kahnEdge_successors]
  exact Kahn.topologicalOrder_isSome_iff (nodup_sortedList _) (fun _ => nodup_sortedList _)
    (kahnEdge_mem hnodes)

theorem topologicalTotalOrder_totalOrder {order : List String}
    (h : topologicalTotalOrder nodeIds relations = some order) :
    TotalOrder relations nodeIds order := by
  have hext := Kahn.topologicalOrder_linearExtension (nodup_sortedList _)
    (fun _ => nodup_sortedList _) (kahnEdge_mem hnodes) h
  refine ⟨hext.nodup, fun x => ?_, fun r hr e he => ?_⟩
  · rw [hext.mem_iff]
    simp
  · exact hext.extends_rel e.1 e.2 (mem_successors.mpr (mem_allEdges.mpr ⟨r, hr, he⟩))

end TotalOrder

/-- The cycle search and the topological order are exact, and exactly one of them
finds something. -/
theorem searches_agree (relations : List Relation) :
    (findLabeledCycle relations = none ↔
        Acyclic (fun a b => ∃ r ∈ relations, (a, b) ∈ r.edges)) ∧
      (∀ cycle, findLabeledCycle relations = some cycle → ReportedCycle relations cycle) ∧
      ∀ nodeIds, (∀ r ∈ relations, ∀ e ∈ r.edges, e.1 ∈ nodeIds ∧ e.2 ∈ nodeIds) →
        (topologicalTotalOrder nodeIds relations = none ↔
          ∃ cycle, findLabeledCycle relations = some cycle) ∧
        ∀ order, topologicalTotalOrder nodeIds relations = some order →
          TotalOrder relations nodeIds order := by
  have hacyclic : findLabeledCycle relations = none ↔
      Acyclic (fun a b => (a, b) ∈ allEdges relations) := findLabeledCycle_eq_none_iff relations
  refine ⟨?_, fun cycle => findLabeledCycle_reports, fun nodeIds hnodes => ⟨?_, fun order =>
    topologicalTotalOrder_totalOrder hnodes⟩⟩
  · simpa only [mem_allEdges] using hacyclic
  · rw [← Option.not_isSome_iff_eq_none, topologicalTotalOrder_isSome_iff hnodes, ← hacyclic,
      ← ne_eq, Option.ne_none_iff_exists']

end Umcm
