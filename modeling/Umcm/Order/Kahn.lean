import Umcm.Order.Acyclic
import Mathlib.Data.List.Sort

/-!
# Topological order by repeated removal of sources

Keep for every node the number of predecessors not yet emitted, emit the least
ready node, and release its successors. `topologicalOrder_isSome_iff`: an order
of all nodes comes out exactly when the graph has no cycle;
`topologicalOrder_linearExtension`: it lists every node once and respects every
edge.
-/

namespace Kahn

open Relation FinOrder

variable {α : Type*}

/-- Open predecessors of each node, nodes ready to be emitted, emitted nodes. -/
structure State (α : Type*) where
  indegree : α → Nat
  ready : List α
  order : List α

/-- There is an edge from `a` to `b`. -/
def Edge (succ : α → List α) (a b : α) : Prop := b ∈ succ a

variable [LinearOrder α]

/-- One predecessor of `target` has been emitted. -/
def release (st : State α) (target : α) : State α :=
  let degree := st.indegree target - 1
  { st with
    indegree := Function.update st.indegree target degree
    ready := if degree = 0 then (st.ready ++ [target]).insertionSort (· ≤ ·) else st.ready }

/-- The main loop; every round emits one node. -/
def run (succ : α → List α) : Nat → State α → State α
  | 0, st => st
  | fuel + 1, st =>
    match st.ready with
    | [] => st
    | node :: rest =>
      run succ fuel ((succ node).foldl release
        { st with ready := rest, order := st.order ++ [node] })

/-- The number of listed predecessors of `target`. -/
def indegreeOf (succ : α → List α) (nodes : List α) (target : α) : Nat :=
  (nodes.filter (fun source => target ∈ succ source)).length

/-- Before the loop: the nodes without predecessors are ready, in order. -/
def start (succ : α → List α) (nodes : List α) : State α :=
  { indegree := indegreeOf succ nodes
    ready := (nodes.filter (fun node => indegreeOf succ nodes node = 0)).insertionSort (· ≤ ·)
    order := [] }

/-- A topological order of `nodes`, if every node could be emitted. -/
def topologicalOrder (succ : α → List α) (nodes : List α) : Option (List α) :=
  let order := (run succ nodes.length (start succ nodes)).order
  if order.length = nodes.length then some order else none

/-! ## Invariant of the loop -/

/-- Predecessors of `target` that are not in `order`. -/
def openPreds (succ : α → List α) (nodes order : List α) (target : α) : List α :=
  nodes.filter (fun source => target ∈ succ source ∧ source ∉ order)

structure Inv (succ : α → List α) (nodes : List α) (st : State α) : Prop where
  nodup : (st.order ++ st.ready).Nodup
  mem_nodes : ∀ x ∈ st.order ++ st.ready, x ∈ nodes
  indegree_eq : ∀ t, st.indegree t = (openPreds succ nodes st.order t).length
  emitted_or_ready : ∀ t ∈ nodes, t ∈ st.order ++ st.ready ↔ st.indegree t = 0
  respects : ∀ a b, Edge succ a b → b ∈ st.order → Precedes st.order a b

variable {succ : α → List α} {nodes : List α}

theorem mem_openPreds {order : List α} {target x : α} :
    x ∈ openPreds succ nodes order target ↔ x ∈ nodes ∧ target ∈ succ x ∧ x ∉ order := by
  simp [openPreds]

theorem openPreds_eq_nil {order : List α} {target : α} :
    (openPreds succ nodes order target).length = 0 ↔
      ∀ x ∈ nodes, target ∈ succ x → x ∈ order := by
  rw [List.length_eq_zero_iff, List.eq_nil_iff_forall_not_mem]
  constructor
  · intro h x hx hedge
    by_contra hnot
    exact h x (mem_openPreds.mpr ⟨hx, hedge, hnot⟩)
  · intro h x hx
    obtain ⟨hx, hedge, hnot⟩ := mem_openPreds.mp hx
    exact hnot (h x hx hedge)

/-- Emitting `node` closes it as a predecessor of exactly its successors. -/
theorem openPreds_snoc {order : List α} {node : α} (hnodes : nodes.Nodup) (hmem : node ∈ nodes)
    (hnot : node ∉ order) (t : α) :
    (openPreds succ nodes (order ++ [node]) t).length =
      (openPreds succ nodes order t).length - (if t ∈ succ node then 1 else 0) := by
  have herase : openPreds succ nodes (order ++ [node]) t =
      (openPreds succ nodes order t).filter (fun x => x ≠ node) := by
    unfold openPreds
    rw [List.filter_filter]
    apply List.filter_congr
    intro x _
    by_cases hedge : t ∈ succ x <;> by_cases hx : x ∈ order <;> by_cases hn : x = node <;>
      simp [hedge, hx, hn]
  have hnd : (openPreds succ nodes order t).Nodup := hnodes.filter _
  rw [herase]
  split
  · next hedge =>
      have hin : node ∈ openPreds succ nodes order t := mem_openPreds.mpr ⟨hmem, hedge, hnot⟩
      have heq : (openPreds succ nodes order t).filter (fun x => x ≠ node) =
          (openPreds succ nodes order t).erase node := by
        rw [hnd.erase_eq_filter]
        apply List.filter_congr
        intro x _
        simp [bne, beq_eq_decide]
      rw [heq, List.length_erase_of_mem hin]
  · next hedge =>
      rw [List.filter_eq_self.mpr]
      · simp
      · intro x hx
        have hne : x ≠ node := fun h => hedge (h ▸ (mem_openPreds.mp hx).2.1)
        simp [hne]

/-- Releasing a list of distinct targets that all have an open predecessor. -/
theorem foldl_release (targets : List α) :
    ∀ (st : State α), targets.Nodup → (∀ t ∈ targets, 1 ≤ st.indegree t) → st.ready.Nodup →
      (∀ t ∈ targets, t ∉ st.ready) →
      (targets.foldl release st).order = st.order ∧
      (∀ t, (targets.foldl release st).indegree t =
        st.indegree t - (if t ∈ targets then 1 else 0)) ∧
      (targets.foldl release st).ready.Nodup ∧
      ∀ x, x ∈ (targets.foldl release st).ready ↔
        x ∈ st.ready ∨ (x ∈ targets ∧ st.indegree x = 1) := by
  induction targets with
  | nil =>
      intro st _ _ hready _
      simp [hready]
  | cons target rest ih =>
      intro st hnd hpos hready hnot
      obtain ⟨htarget, hrest⟩ := List.nodup_cons.mp hnd
      have hmemReady : ∀ x, x ∈ (release st target).ready ↔
          x ∈ st.ready ∨ (x = target ∧ st.indegree target = 1) := by
        intro x
        have h1 := hpos target List.mem_cons_self
        unfold release
        by_cases hdeg : st.indegree target - 1 = 0
        · have hone : st.indegree target = 1 := by omega
          simp [hone]
        · have hone : st.indegree target ≠ 1 := by omega
          simp [hdeg, hone]
      have hindeg : ∀ t, t ≠ target → (release st target).indegree t = st.indegree t := by
        intro t ht
        simp [release, ht]
      have hready' : (release st target).ready.Nodup := by
        simp only [release]
        split
        · rw [(List.perm_insertionSort _ _).nodup_iff]
          refine List.nodup_append.mpr ⟨hready, by simp, ?_⟩
          intro a ha b hb
          have hb' : b = target := by simpa using hb
          subst hb'
          exact fun hab => hnot b List.mem_cons_self (hab ▸ ha)
        · exact hready
      have hne : ∀ t ∈ rest, t ≠ target := fun t ht h => htarget (h ▸ ht)
      obtain ⟨h1, h2, h3, h4⟩ := ih (release st target) hrest
        (fun t ht => by
          rw [hindeg t (hne t ht)]
          exact hpos t (List.mem_cons_of_mem _ ht))
        hready'
        (fun t ht hmem => by
          rcases (hmemReady t).mp hmem with hmem | ⟨heq, _⟩
          · exact hnot t (List.mem_cons_of_mem _ ht) hmem
          · exact hne t ht heq)
      refine ⟨h1, ?_, h3, ?_⟩
      · intro t
        rw [List.foldl_cons, h2 t]
        by_cases ht : t = target
        · subst ht
          simp [release, htarget]
        · simp [hindeg t ht, ht]
      · intro x
        rw [List.foldl_cons, h4 x, hmemReady x]
        by_cases hx : x = target
        · subst hx
          simp [htarget]
        · simp [hindeg x hx, hx]

theorem inv_start (hnodes : nodes.Nodup) : Inv succ nodes (start succ nodes) := by
  have hopen : ∀ t, indegreeOf succ nodes t = (openPreds succ nodes [] t).length := by
    intro t
    simp [indegreeOf, openPreds]
  refine ⟨?_, ?_, hopen, ?_, ?_⟩
  · rw [start, List.nil_append, (List.perm_insertionSort _ _).nodup_iff]
    exact hnodes.filter _
  · intro x hx
    have hx' : x ∈ nodes ∧ indegreeOf succ nodes x = 0 := by simpa [start] using hx
    exact hx'.1
  · intro t ht
    simp [start, ht]
  · intro a b _ hb
    simp [start] at hb

/-- One round of the loop keeps the invariant. -/
theorem Inv.step {st : State α} (hi : Inv succ nodes st) (hnodes : nodes.Nodup)
    (hsucc : ∀ x, (succ x).Nodup) (hedges : ∀ a b, Edge succ a b → a ∈ nodes ∧ b ∈ nodes)
    {node : α} {rest : List α} (hready : st.ready = node :: rest) :
    Inv succ nodes ((succ node).foldl release
      { st with ready := rest, order := st.order ++ [node] }) := by
  have hnd := hi.nodup
  rw [hready, List.nodup_append] at hnd
  obtain ⟨hndOrder, hndReady, hdisj⟩ := hnd
  obtain ⟨hnodeRest, hndRest⟩ := List.nodup_cons.mp hndReady
  have hnodeOrder : node ∉ st.order :=
    fun h => hdisj node h node List.mem_cons_self rfl
  have hnode : node ∈ nodes := hi.mem_nodes node (by simp [hready])
  -- a successor of the node still waits for it
  have hwait : ∀ t ∈ succ node, 1 ≤ st.indegree t ∧ t ∉ st.order ++ st.ready := by
    intro t ht
    have hpos : st.indegree t ≠ 0 := by
      rw [hi.indegree_eq t]
      intro hzero
      exact hnodeOrder (openPreds_eq_nil.mp hzero node hnode ht)
    refine ⟨by omega, ?_⟩
    intro hmem
    exact hpos ((hi.emitted_or_ready t (hedges node t ht).2).mp hmem)
  obtain ⟨horder, hindeg, hndReady', hmemReady⟩ := foldl_release (succ node)
    { st with ready := rest, order := st.order ++ [node] } (hsucc node)
    (fun t ht => (hwait t ht).1) hndRest
    (fun t ht hmem => (hwait t ht).2 (by simp [hready, hmem]))
  simp only at hindeg hmemReady horder
  refine ⟨?_, ?_, ?_, ?_, ?_⟩
  · rw [horder]
    refine List.nodup_append.mpr ⟨?_, hndReady', ?_⟩
    · refine List.nodup_append.mpr ⟨hndOrder, by simp, ?_⟩
      intro a ha b hb
      have hb' : b = node := by simpa using hb
      subst hb'
      exact fun hab => hnodeOrder (hab ▸ ha)
    · intro a ha b hb hab
      subst hab
      rcases (hmemReady a).mp hb with hb | ⟨hb, _⟩
      · rcases List.mem_append.mp ha with ha | ha
        · exact hdisj a ha a (List.mem_cons_of_mem _ hb) rfl
        · have ha' : a = node := by simpa using ha
          exact hnodeRest (ha' ▸ hb)
      · have hfresh := (hwait a hb).2
        rw [hready] at hfresh
        rcases List.mem_append.mp ha with ha | ha
        · exact hfresh (List.mem_append_left _ ha)
        · have ha' : a = node := by simpa using ha
          exact hfresh (by simp [ha'])
  · intro x hx
    rw [horder] at hx
    rcases List.mem_append.mp hx with hx | hx
    · rcases List.mem_append.mp hx with hx | hx
      · exact hi.mem_nodes x (List.mem_append_left _ hx)
      · have hx' : x = node := by simpa using hx
        exact hx' ▸ hnode
    · rcases (hmemReady x).mp hx with hx | ⟨hx, _⟩
      · exact hi.mem_nodes x (by simp [hready, hx])
      · exact (hedges node x hx).2
  · intro t
    rw [hindeg t, horder, openPreds_snoc hnodes hnode hnodeOrder, hi.indegree_eq t]
  · intro t ht
    have hold := hi.emitted_or_ready t ht
    rw [horder, hindeg t]
    simp only [List.mem_append, List.mem_singleton, hmemReady t]
    rw [hready] at hold
    simp only [List.mem_append, List.mem_cons] at hold
    by_cases hts : t ∈ succ node
    · have hfresh := (hwait t hts).2
      rw [hready] at hfresh
      simp only [List.mem_append, List.mem_cons, not_or] at hfresh
      have hpos := (hwait t hts).1
      simp only [hfresh.1, hfresh.2.1, hfresh.2.2, hts, if_true, or_self, false_or, true_and]
      omega
    · simp only [hts, if_false, Nat.sub_zero, false_and, or_false]
      rw [← hold]
      tauto
  · intro a b hab hb
    rw [horder] at hb ⊢
    by_cases hbo : b ∈ st.order
    · exact (hi.respects a b hab hbo).append _
    · have hbn : b = node := by
        rcases List.mem_append.mp hb with hb | hb
        · exact absurd hb hbo
        · simpa using hb
      subst hbn
      -- the node was ready, so all its predecessors have been emitted
      have hzero : st.indegree b = 0 := (hi.emitted_or_ready b hnode).mp (by simp [hready])
      rw [hi.indegree_eq b] at hzero
      have ha := openPreds_eq_nil.mp hzero a (hedges a b hab).1 hab
      exact precedes_append ha (by simp) hnodeOrder

theorem foldl_release_order (targets : List α) (st : State α) :
    (targets.foldl release st).order = st.order := by
  induction targets generalizing st with
  | nil => rfl
  | cons target rest ih => exact ih (release st target)

/-- The loop keeps the invariant and ends with nothing ready or everything emitted. -/
theorem run_spec (hnodes : nodes.Nodup) (hsucc : ∀ x, (succ x).Nodup)
    (hedges : ∀ a b, Edge succ a b → a ∈ nodes ∧ b ∈ nodes) :
    ∀ (fuel : Nat) (st : State α), Inv succ nodes st → nodes.length ≤ st.order.length + fuel →
      Inv succ nodes (run succ fuel st) ∧
      ((run succ fuel st).ready = [] ∨ nodes.length ≤ (run succ fuel st).order.length) := by
  intro fuel
  induction fuel with
  | zero =>
      intro st hi hlen
      exact ⟨hi, Or.inr (by simpa [run] using hlen)⟩
  | succ fuel ih =>
      intro st hi hlen
      cases hready : st.ready with
      | nil =>
          have hrun : run succ (fuel + 1) st = st := by simp [run, hready]
          rw [hrun]
          exact ⟨hi, Or.inl hready⟩
      | cons node rest =>
          have hrun : run succ (fuel + 1) st = run succ fuel ((succ node).foldl release
              { st with ready := rest, order := st.order ++ [node] }) := by simp [run, hready]
          rw [hrun]
          refine ih _ (hi.step hnodes hsucc hedges hready) ?_
          rw [foldl_release_order]
          simp
          omega

/-- When everything is emitted, the order is a linear extension of the edges. -/
theorem Inv.linearExtension {st : State α} (hi : Inv succ nodes st)
    (hedges : ∀ a b, Edge succ a b → a ∈ nodes ∧ b ∈ nodes)
    (hlen : nodes.length ≤ st.order.length) :
    LinearExtension (Edge succ) nodes.toFinset st.order := by
  have hsub : ∀ x ∈ st.order, x ∈ nodes :=
    fun x hx => hi.mem_nodes x (List.mem_append_left _ hx)
  have hnd : st.order.Nodup := (List.nodup_append.mp hi.nodup).1
  have hperm : st.order.Perm nodes :=
    (List.subperm_of_subset hnd hsub).perm_of_length_le hlen
  refine ⟨hnd, ?_, ?_⟩
  · intro a
    rw [hperm.mem_iff, List.mem_toFinset]
  · intro a b hab
    exact hi.respects a b hab (hperm.mem_iff.mpr (hedges a b hab).2)

/-- The order that comes out lists every node once and respects every edge. -/
theorem topologicalOrder_linearExtension (hnodes : nodes.Nodup) (hsucc : ∀ x, (succ x).Nodup)
    (hedges : ∀ a b, Edge succ a b → a ∈ nodes ∧ b ∈ nodes) {order : List α}
    (h : topologicalOrder succ nodes = some order) :
    LinearExtension (Edge succ) nodes.toFinset order := by
  have hspec := run_spec hnodes hsucc hedges nodes.length _ (inv_start hnodes) (by simp)
  unfold topologicalOrder at h
  simp only at h
  split at h
  · next hlen =>
      have heq : (run succ nodes.length (start succ nodes)).order = order := by simpa using h
      rw [← heq]
      exact hspec.1.linearExtension hedges (by omega)
  · cases h

/-- An order of all nodes comes out exactly when the graph has no cycle. -/
theorem topologicalOrder_isSome_iff (hnodes : nodes.Nodup) (hsucc : ∀ x, (succ x).Nodup)
    (hedges : ∀ a b, Edge succ a b → a ∈ nodes ∧ b ∈ nodes) :
    (topologicalOrder succ nodes).isSome ↔ Acyclic (Edge succ) := by
  constructor
  · intro h
    obtain ⟨order, horder⟩ := Option.isSome_iff_exists.mp h
    exact (topologicalOrder_linearExtension hnodes hsucc hedges horder).acyclic
  · intro hac
    obtain ⟨hi, hend⟩ := run_spec hnodes hsucc hedges nodes.length _ (inv_start hnodes) (by simp)
    set st := run succ nodes.length (start succ nodes) with hst
    have hnd : st.order.Nodup := (List.nodup_append.mp hi.nodup).1
    have hsub : st.order ⊆ nodes := fun x hx => hi.mem_nodes x (List.mem_append_left _ hx)
    have hle : st.order.length ≤ nodes.length := (List.subperm_of_subset hnd hsub).length_le
    have hge : nodes.length ≤ st.order.length := by
      rcases hend with hready | hge
      · -- a source among the nodes left over would be ready
        have hall : ∀ x ∈ nodes, x ∈ st.order := by
          by_contra hleft
          push Not at hleft
          obtain ⟨x, hx, hxo⟩ := hleft
          obtain ⟨m, hm, hmin⟩ := hac.exists_source
            (nodes.toFinset.filter (fun y => y ∉ st.order)) ⟨x, by simp [hx, hxo]⟩
          have hm' : m ∈ nodes ∧ m ∉ st.order := by simpa using hm
          have hzero : st.indegree m = 0 := by
            rw [hi.indegree_eq m, openPreds_eq_nil]
            intro y hy hedge
            by_contra hyo
            exact hmin y (by simp [hy, hyo]) hedge
          have hmem := (hi.emitted_or_ready m hm'.1).mpr hzero
          rw [hready, List.append_nil] at hmem
          exact hm'.2 hmem
        exact (List.subperm_of_subset hnodes hall).length_le
      · exact hge
    unfold topologicalOrder
    simp only [← hst]
    rw [if_pos (Nat.le_antisymm hle hge)]
    rfl

end Kahn
