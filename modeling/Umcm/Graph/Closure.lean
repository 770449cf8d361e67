import Umcm.Graph.Relation

/-!
# Transitive closure

The closure of a relation is collected by one search from each node. The searches
read the successors of a node from a set, whose order of iteration is not
determined; a `Listing` is one such order.

* `transitiveClosure_least`: every search ends, and the closure is the least
  transitive relation that contains the relation.
-/

open Relation

namespace Umcm

/-- The sets of successors, each listed in the order in which it is iterated. -/
structure Listing (edges : Finset Edge) where
  targets : String → List String
  nodup : ∀ source, (targets source).Nodup
  mem_targets : ∀ source target, target ∈ targets source ↔ (source, target) ∈ edges

/-- Every set in increasing order. -/
def sortedListing (edges : Finset Edge) : Listing edges where
  targets := successors edges
  nodup := fun _ => nodup_sortedList _
  mem_targets := fun _ _ => mem_successors

namespace Relation

/-- The nodes that are searched from: those given and the endpoints of the edges. -/
def closureNodes (r : Relation) (nodes : Finset String) : Finset String := nodes ∪ nodesOf r.edges

/-- `transitive_closure`. -/
def transitiveClosureOf (r : Relation) (listing : Listing r.edges) (nodes : Finset String)
    (name : String) : Relation :=
  { name
    edges := (r.closureNodes nodes).biUnion (fun source =>
      (Reach.reachable listing.targets (sortedList (r.closureNodes nodes)) source).image
        (fun target => (source, target))) }

section Closure

variable {r : Relation} {listing : Listing r.edges} {nodes : Finset String}

theorem listing_closed : ∀ x ∈ sortedList (r.closureNodes nodes), ∀ y ∈ listing.targets x,
    y ∈ sortedList (r.closureNodes nodes) := by
  intro x _ y hy
  rw [mem_sortedList]
  exact Finset.mem_union_right _ (target_mem_nodesOf ((listing.mem_targets x y).mp hy))

theorem edge_listing : Reach.Edge listing.targets = r.Holds := by
  funext x y
  exact propext (listing.mem_targets x y)

theorem mem_transitiveClosureOf {name : String} {a b : String} :
    (a, b) ∈ (r.transitiveClosureOf listing nodes name).edges ↔ TransGen r.Holds a b := by
  have hnodes : (sortedList (r.closureNodes nodes)).Nodup := nodup_sortedList _
  unfold transitiveClosureOf
  rw [Finset.mem_biUnion, ← edge_listing]
  constructor
  · rintro ⟨source, hsource, hmem⟩
    rcases Finset.mem_image.mp hmem with ⟨target, htarget, heq⟩
    cases heq
    exact (Reach.mem_reachable_iff hnodes listing_closed (mem_sortedList.mpr hsource) _).mp htarget
  · intro h
    rcases TransGen.head'_iff.mp h with ⟨y, hy, -⟩
    have ha : a ∈ r.closureNodes nodes :=
      Finset.mem_union_right _ (source_mem_nodesOf ((listing.mem_targets a y).mp hy))
    refine ⟨a, ha, Finset.mem_image_of_mem _ ?_⟩
    exact (Reach.mem_reachable_iff hnodes listing_closed (mem_sortedList.mpr ha) _).mpr h

/-- The edges from a node are what its search has seen at its end. -/
theorem search_ends {name source : String} (hsource : source ∈ r.closureNodes nodes) :
    ∃ seen, Reach.Ends listing.targets (listing.targets source).reverse ∅ seen ∧
      ∀ target, (source, target) ∈ (r.transitiveClosureOf listing nodes name).edges ↔
        target ∈ seen := by
  have hnodes : (sortedList (r.closureNodes nodes)).Nodup := nodup_sortedList _
  have hroot : source ∈ sortedList (r.closureNodes nodes) := mem_sortedList.mpr hsource
  refine ⟨_, Reach.ends_reachable hnodes listing_closed hroot, ?_⟩
  intro target
  have hedge : Reach.Edge listing.targets = r.Holds := edge_listing
  rw [mem_transitiveClosureOf, ← hedge, Reach.mem_reachable_iff hnodes listing_closed hroot]

end Closure

/-- The closure that the other modules use visits the successors in increasing order. -/
theorem transitiveClosure_eq (r : Relation) (name : String) :
    r.transitiveClosure name = r.transitiveClosureOf (sortedListing r.edges) ∅ name := by
  unfold transitiveClosure transitiveClosureOf closureNodes
  rw [Finset.empty_union]
  rfl

end Relation

/-- For every relation, every order in which its sets are iterated and any further nodes, the
search from each node ends, and the closure is the least transitive relation that contains
the relation. -/
theorem transitiveClosure_least (r : Relation) (listing : Listing r.edges)
    (nodes : Finset String) (name : String) :
    (∀ source ∈ r.closureNodes nodes, ∃ seen,
      Reach.Ends listing.targets (listing.targets source).reverse ∅ seen ∧
        ∀ target, (r.transitiveClosureOf listing nodes name).Holds source target ↔
          target ∈ seen) ∧
    (∀ a b, r.Holds a b → (r.transitiveClosureOf listing nodes name).Holds a b) ∧
    IsTrans String (r.transitiveClosureOf listing nodes name).Holds ∧
    ∀ other : String → String → Prop, IsTrans String other → (∀ a b, r.Holds a b → other a b) →
      ∀ a b, (r.transitiveClosureOf listing nodes name).Holds a b → other a b := by
  refine ⟨fun source hsource => Relation.search_ends hsource, ?_, ?_, ?_⟩
  · intro a b hab
    exact Relation.mem_transitiveClosureOf.mpr (.single hab)
  · constructor
    intro a b c hab hbc
    exact Relation.mem_transitiveClosureOf.mpr
      ((Relation.mem_transitiveClosureOf.mp hab).trans (Relation.mem_transitiveClosureOf.mp hbc))
  · intro other htrans hsub a b hab
    have hpath : TransGen r.Holds a b := Relation.mem_transitiveClosureOf.mp hab
    -- along the path, every edge is one of the other relation
    induction hpath with
    | single hedge => exact hsub _ _ hedge
    | tail hfront hedge ih =>
        exact htrans.trans _ _ _ (ih (Relation.mem_transitiveClosureOf.mpr hfront)) (hsub _ _ hedge)

end Umcm
