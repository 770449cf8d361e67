import Umcm.Data.Choice
import Umcm.Order.Kahn
import Mathlib.Data.Prod.Lex
import Mathlib.Data.List.Lex

/-!
# Orders ranked by violated edges

All orders of some nodes, those first that violate the fewest edges.

* `violations_head_of_acyclic`: where the edges have no cycle, the first order
  violates none.
-/

namespace FinOrder

open Choice

variable {α : Type*} [LinearOrder α] {edges : Finset (α × α)} {nodes order : List α}

/-- How many edges the order does not respect. -/
def violations (edges : Finset (α × α)) (order : List α) : Nat :=
  (edges.filter (fun e => order.idxOf e.2 ≤ order.idxOf e.1)).card

/-- What an order is ranked by. -/
def rankKey (edges : Finset (α × α)) (order : List α) : Nat ×ₗ List α :=
  toLex (violations edges order, order)

/-- The orders of the nodes, by violated edges and then by their elements. -/
def rankedOrders (edges : Finset (α × α)) (nodes : List α) : List (List α) :=
  (permutations nodes).insertionSort (fun a b => rankKey edges a ≤ rankKey edges b)

theorem mem_rankedOrders : order ∈ rankedOrders edges nodes ↔ order.Perm nodes := by
  rw [rankedOrders, List.mem_insertionSort, mem_permutations]

theorem nodup_rankedOrders (hnd : nodes.Nodup) : (rankedOrders edges nodes).Nodup :=
  (List.perm_insertionSort _ _).nodup_iff.mpr (nodup_permutations hnd)

theorem length_rankedOrders (hnd : nodes.Nodup) :
    (rankedOrders edges nodes).length = nodes.length.factorial := by
  have hperm : (rankedOrders edges nodes).Perm nodes.permutations := by
    rw [List.perm_ext_iff_of_nodup (nodup_rankedOrders hnd) (List.nodup_permutations _ hnd)]
    intro order
    rw [mem_rankedOrders, List.mem_permutations]
  rw [hperm.length_eq, List.length_permutations]

theorem pairwise_rankedOrders :
    (rankedOrders edges nodes).Pairwise (fun a b => violations edges a ≤ violations edges b) := by
  have htotal : Std.Total (fun a b : List α => rankKey edges a ≤ rankKey edges b) :=
    ⟨fun a b => le_total _ _⟩
  have htrans : IsTrans (List α) (fun a b => rankKey edges a ≤ rankKey edges b) :=
    ⟨fun _ _ _ => le_trans⟩
  refine (List.pairwise_insertionSort (fun a b => rankKey edges a ≤ rankKey edges b) _).imp ?_
  intro a b hab
  rcases (Prod.Lex.toLex_le_toLex).mp hab with hlt | ⟨heq, -⟩
  · exact Nat.le_of_lt hlt
  · exact Nat.le_of_eq heq

theorem violations_eq_zero_iff (hnodes : ∀ e ∈ edges, e.1 ∈ order ∧ e.2 ∈ order) :
    violations edges order = 0 ↔ ∀ e ∈ edges, Precedes order e.1 e.2 := by
  rw [violations, Finset.card_eq_zero, Finset.filter_eq_empty_iff]
  constructor
  · intro h e he
    exact ⟨(hnodes e he).1, (hnodes e he).2, Nat.lt_of_not_le (h he)⟩
  · intro h e he
    exact Nat.not_le_of_lt (h e he).2.2

/-- Edges without a cycle are all respected by some order. -/
theorem exists_order_of_acyclic (hnd : nodes.Nodup) (hnodes : ∀ e ∈ edges, e.1 ∈ nodes ∧ e.2 ∈ nodes)
    (h : Acyclic (fun a b => (a, b) ∈ edges)) :
    ∃ order, order.Perm nodes ∧ violations edges order = 0 := by
  -- the successors of a node, as the topological sort reads them
  let succ : α → List α := fun a => nodes.filter (fun b => (a, b) ∈ edges)
  have hedge : ∀ a b, Kahn.Edge succ a b ↔ (a, b) ∈ edges := by
    intro a b
    show b ∈ nodes.filter _ ↔ _
    rw [List.mem_filter, decide_eq_true_eq]
    exact ⟨fun hb => hb.2, fun hb => ⟨(hnodes _ hb).2, hb⟩⟩
  have hends : ∀ a b, Kahn.Edge succ a b → a ∈ nodes ∧ b ∈ nodes := by
    intro a b hab
    exact hnodes _ ((hedge a b).mp hab)
  have hacyclic : Acyclic (Kahn.Edge succ) := h.mono (fun a b hab => (hedge a b).mp hab)
  have hsome := (Kahn.topologicalOrder_isSome_iff hnd (fun x => hnd.filter _) hends).mpr hacyclic
  obtain ⟨order, horder⟩ := Option.isSome_iff_exists.mp hsome
  have hext := Kahn.topologicalOrder_linearExtension hnd (fun x => hnd.filter _) hends horder
  refine ⟨order, ?_, ?_⟩
  · rw [List.perm_ext_iff_of_nodup hext.nodup hnd]
    intro a
    rw [hext.mem_iff, List.mem_toFinset]
  · have hmem : ∀ a, a ∈ nodes → a ∈ order := by
      intro a ha
      exact (hext.mem_iff a).mpr (List.mem_toFinset.mpr ha)
    rw [violations_eq_zero_iff (fun e he => ⟨hmem _ (hnodes e he).1, hmem _ (hnodes e he).2⟩)]
    intro e he
    exact hext.extends_rel e.1 e.2 ((hedge e.1 e.2).mpr he)

/-- Where the edges have no cycle, the first order violates none. -/
theorem violations_head_of_acyclic (hnd : nodes.Nodup)
    (hnodes : ∀ e ∈ edges, e.1 ∈ nodes ∧ e.2 ∈ nodes)
    (h : Acyclic (fun a b => (a, b) ∈ edges)) {first : List α}
    (hfirst : (rankedOrders edges nodes).head? = some first) : violations edges first = 0 := by
  obtain ⟨order, hperm, hzero⟩ := exists_order_of_acyclic hnd hnodes h
  have hmem : order ∈ rankedOrders edges nodes := mem_rankedOrders.mpr hperm
  have hsorted := @pairwise_rankedOrders _ _ edges nodes
  cases horders : rankedOrders edges nodes with
  | nil =>
      rw [horders] at hmem
      cases hmem
  | cons a rest =>
      rw [horders] at hmem hsorted hfirst
      cases hfirst
      rcases List.mem_cons.mp hmem with rfl | hrest
      · exact hzero
      · have hle := (List.pairwise_cons.mp hsorted).1 order hrest
        omega

end FinOrder
