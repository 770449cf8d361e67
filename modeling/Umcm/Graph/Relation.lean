import Umcm.Data.Sorted
import Umcm.Order.DepthFirst
import Umcm.Order.Reach
import Mathlib.Data.Prod.Lex
import Mathlib.Data.String.Basic

/-!
# Finite relations over operation ids

Named finite relations, the small relation algebra over them, and the search
for a cycle across several relations.

`findLabeledCycle_eq_none_iff`: the search finds nothing exactly when the union
of the relations is acyclic.
-/

namespace Umcm

open Relation

abbrev Edge := String × String

/-- A named finite relation. Ids and names are non-empty wherever a relation
belongs to an execution graph, since its edges relate operations of the graph. -/
structure Relation where
  name : String
  edges : Finset Edge
deriving DecidableEq

namespace Relation

/-- Membership as a relation on ids. -/
def Holds (r : Relation) (source target : String) : Prop := (source, target) ∈ r.edges

instance (r : Relation) (a b : String) : Decidable (r.Holds a b) :=
  inferInstanceAs (Decidable (_ ∈ _))

def contains (r : Relation) (source target : String) : Bool := r.Holds source target

end Relation

/-- The edges of a set in lexicographic order. -/
def sortedEdges (edges : Finset Edge) : List Edge :=
  (sortedList (edges.map toLex.toEmbedding)).map ofLex

@[simp] theorem mem_sortedEdges {edges : Finset Edge} {e : Edge} :
    e ∈ sortedEdges edges ↔ e ∈ edges := by
  simp [sortedEdges]

theorem nodup_sortedEdges (edges : Finset Edge) : (sortedEdges edges).Nodup :=
  (nodup_sortedList _).map ofLex.injective

/-- `adjacency[source]`. -/
def targetsOf (edges : Finset Edge) (source : String) : Finset String :=
  (edges.filter (fun e => e.1 = source)).image Prod.snd

@[simp] theorem mem_targetsOf {edges : Finset Edge} {a b : String} :
    b ∈ targetsOf edges a ↔ (a, b) ∈ edges := by
  simp [targetsOf]

/-- The endpoints of the edges. -/
def nodesOf (edges : Finset Edge) : Finset String :=
  edges.image Prod.fst ∪ edges.image Prod.snd

theorem source_mem_nodesOf {edges : Finset Edge} {a b : String} (h : (a, b) ∈ edges) :
    a ∈ nodesOf edges :=
  Finset.mem_union_left _ (Finset.mem_image_of_mem Prod.fst h)

theorem target_mem_nodesOf {edges : Finset Edge} {a b : String} (h : (a, b) ∈ edges) :
    b ∈ nodesOf edges :=
  Finset.mem_union_right _ (Finset.mem_image_of_mem Prod.snd h)

/-- The sorted successors of a node, as the searches visit them. -/
def successors (edges : Finset Edge) (source : String) : List String :=
  sortedList (targetsOf edges source)

@[simp] theorem mem_successors {edges : Finset Edge} {a b : String} :
    b ∈ successors edges a ↔ (a, b) ∈ edges := by
  simp [successors]

namespace Relation

/-! ## Relation algebra -/

def inverse (r : Relation) (name : String) : Relation :=
  { name, edges := r.edges.image Prod.swap }

def union (r : Relation) (others : List Relation) (name : String) : Relation :=
  { name, edges := others.foldl (fun edges other => edges ∪ other.edges) r.edges }

def intersection (r other : Relation) (name : String) : Relation :=
  { name, edges := r.edges ∩ other.edges }

def difference (r other : Relation) (name : String) : Relation :=
  { name, edges := r.edges \ other.edges }

/-- Relational composition `r ; other`. -/
def compose (r other : Relation) (name : String) : Relation :=
  { name
    edges := r.edges.biUnion (fun e => (targetsOf other.edges e.2).image (fun target => (e.1, target))) }

/-- The pairs connected by one or more edges. -/
def transitiveClosure (r : Relation) (name : String) : Relation :=
  let nodes := nodesOf r.edges
  { name
    edges := nodes.biUnion (fun source =>
      (Reach.reachable (successors r.edges) (sortedList nodes) source).image
        (fun target => (source, target))) }

@[simp] theorem mem_inverse {r : Relation} {name : String} {a b : String} :
    (a, b) ∈ (r.inverse name).edges ↔ (b, a) ∈ r.edges := by
  simp [inverse]

@[simp] theorem mem_compose {r other : Relation} {name : String} {a c : String} :
    (a, c) ∈ (r.compose other name).edges ↔ ∃ b, (a, b) ∈ r.edges ∧ (b, c) ∈ other.edges := by
  simp only [compose, Finset.mem_biUnion, Finset.mem_image, mem_targetsOf, Prod.mk.injEq]
  constructor
  · rintro ⟨⟨a', b⟩, hab, c', hbc, rfl, rfl⟩
    exact ⟨b, hab, hbc⟩
  · rintro ⟨b, hab, hbc⟩
    exact ⟨(a, b), hab, c, hbc, rfl, rfl⟩

theorem foldl_union {s : Finset Edge} {others : List Relation} {e : Edge} :
    e ∈ others.foldl (fun edges other => edges ∪ other.edges) s ↔
      e ∈ s ∨ ∃ r ∈ others, e ∈ r.edges := by
  induction others generalizing s with
  | nil => simp
  | cons r rest ih =>
      rw [List.foldl_cons, ih, Finset.mem_union, List.exists_mem_cons_iff, or_assoc]

@[simp] theorem mem_union {r : Relation} {others : List Relation} {name : String} {e : Edge} :
    e ∈ (r.union others name).edges ↔ e ∈ r.edges ∨ ∃ s ∈ others, e ∈ s.edges :=
  foldl_union

theorem mem_transitiveClosure {r : Relation} {name : String} {a b : String} :
    (a, b) ∈ (r.transitiveClosure name).edges ↔ TransGen r.Holds a b := by
  have hnodes : (sortedList (nodesOf r.edges)).Nodup := nodup_sortedList _
  have hclosed : ∀ x ∈ sortedList (nodesOf r.edges), ∀ y ∈ successors r.edges x,
      y ∈ sortedList (nodesOf r.edges) := by
    intro x _ y hy
    exact mem_sortedList.mpr (target_mem_nodesOf (mem_successors.mp hy))
  have hedge : Reach.Edge (successors r.edges) = r.Holds := by
    funext x y
    exact propext mem_successors
  simp only [transitiveClosure, Finset.mem_biUnion, Finset.mem_image, Prod.mk.injEq]
  constructor
  · rintro ⟨source, hsource, target, htarget, rfl, rfl⟩
    rw [← hedge]
    exact (Reach.mem_reachable_iff hnodes hclosed (mem_sortedList.mpr hsource) _).mp htarget
  · intro h
    obtain ⟨y, hy, -⟩ := TransGen.head'_iff.mp h
    have ha : a ∈ nodesOf r.edges := source_mem_nodesOf hy
    refine ⟨a, ha, b, ?_, rfl, rfl⟩
    rw [← hedge] at h
    exact (Reach.mem_reachable_iff hnodes hclosed (mem_sortedList.mpr ha) _).mpr h

end Relation

/-! ## Cycles across several relations -/

structure LabeledEdge where
  source : String
  relation : String
  target : String
deriving DecidableEq, Repr

/-- The edges of all the relations. -/
def allEdges (relations : List Relation) : Finset Edge :=
  relations.foldl (fun edges r => edges ∪ r.edges) ∅

@[simp] theorem mem_allEdges {relations : List Relation} {e : Edge} :
    e ∈ allEdges relations ↔ ∃ r ∈ relations, e ∈ r.edges := by
  simp [allEdges, Relation.foldl_union]

def unionRelations (name : String) (relations : List Relation) : Relation :=
  { name, edges := allEdges relations }

/-- The first relation that has the edge labels it. -/
def labelOf (relations : List Relation) (edge : Edge) : String :=
  match relations.find? (fun r => edge ∈ r.edges) with
  | some r => r.name
  | none => ""

/-- The labelled edges along a path of nodes. -/
def labeledPath (relations : List Relation) : List String → List LabeledEdge
  | source :: target :: rest =>
    { source, relation := labelOf relations (source, target), target } ::
      labeledPath relations (target :: rest)
  | _ => []

/-- A cycle across the union of the relations, found by depth-first search from
the nodes in increasing order. -/
def findLabeledCycle (relations : List Relation) : Option (List LabeledEdge) :=
  let edges := allEdges relations
  (DepthFirst.findCycle (successors edges) (sortedList (nodesOf edges))).map
    (labeledPath relations)

theorem labelOf_mem {relations : List Relation} {edge : Edge} (h : edge ∈ allEdges relations) :
    ∃ r ∈ relations, r.name = labelOf relations edge ∧ edge ∈ r.edges := by
  obtain ⟨r, hr, hmem⟩ := mem_allEdges.mp h
  have hsome : (relations.find? (fun r => edge ∈ r.edges)).isSome :=
    List.find?_isSome.mpr ⟨r, hr, by simpa using hmem⟩
  obtain ⟨r', hr'⟩ := Option.isSome_iff_exists.mp hsome
  refine ⟨r', List.mem_of_find?_eq_some hr', by simp [labelOf, hr'], ?_⟩
  simpa using List.find?_some hr'

theorem closed_nodesOf (edges : Finset Edge) :
    ∀ x ∈ sortedList (nodesOf edges), ∀ y ∈ successors edges x, y ∈ sortedList (nodesOf edges) := by
  intro x _ y hy
  exact mem_sortedList.mpr (target_mem_nodesOf (mem_successors.mp hy))

/-- Every edge of a reported cycle belongs to the relation it is labelled with. -/
theorem findLabeledCycle_edges {relations : List Relation} {cycle : List LabeledEdge}
    (h : findLabeledCycle relations = some cycle) :
    ∀ e ∈ cycle, ∃ r ∈ relations, r.name = e.relation ∧ (e.source, e.target) ∈ r.edges := by
  obtain ⟨path, hpath, rfl⟩ := Option.map_eq_some_iff.mp h
  obtain ⟨-, -, -, -, hchain⟩ := DepthFirst.findCycle_isCycle (closed_nodesOf _) hpath
  clear hpath h
  induction path with
  | nil => simp [labeledPath]
  | cons a rest ih =>
      cases rest with
      | nil => simp [labeledPath]
      | cons b rest =>
          rw [List.isChain_cons_cons] at hchain
          intro e he
          rcases List.mem_cons.mp he with rfl | he
          · exact labelOf_mem (mem_successors.mp hchain.1)
          · exact ih hchain.2 e he

/-- The search finds no cycle exactly when the union of the relations has none. -/
theorem findLabeledCycle_eq_none_iff (relations : List Relation) :
    findLabeledCycle relations = none ↔
      FinOrder.Acyclic (fun a b => (a, b) ∈ allEdges relations) := by
  have hedge : DepthFirst.Edge (successors (allEdges relations)) =
      fun a b => (a, b) ∈ allEdges relations := by
    funext x y
    exact propext mem_successors
  rw [findLabeledCycle, Option.map_eq_none_iff,
    DepthFirst.findCycle_eq_none_iff (closed_nodesOf _) ?_, hedge]
  intro x y hxy
  exact mem_sortedList.mpr (source_mem_nodesOf (mem_successors.mp hxy))

end Umcm
