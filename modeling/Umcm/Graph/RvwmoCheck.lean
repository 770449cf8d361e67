import Umcm.Graph.RvwmoExecution

/-!
# What the checks of the built-in model decide

The checker tests one union of relations for a cycle, evaluates the load-value
axiom on one topological order, and decides atomicity on the coherence order
alone.

* `checkRvwmo_satisfied_iff`: all outcomes are satisfied exactly when some
  global memory order satisfies the RVWMO axioms.
* `checkRvwmo_coherent`: an execution with satisfied outcomes is coherent at
  every location.
-/

namespace Umcm

open FinOrder Axiomatic

/-- The axioms of RVWMO for one global memory order. -/
structure RvwmoAxioms (g : ExecutionGraph) (gmo : g.Op → g.Op → Prop) : Prop where
  total : Execution.StrictTotal gmo
  ppo : ∀ a b : g.Op, g.related "ppo" a b → gmo a b
  co : ∀ a b : g.Op, g.related "co" a b → gmo a b
  /-- Every read takes its value from the gmo-latest write of its location among
  those that are gmo-before or program-order-before it. -/
  loadValue : ∀ r : g.Op, r.1.isRead → ∃ w : g.Op, g.related "rf" w r ∧
    g.toExecution.Visible gmo w r ∧
    ∀ w' : g.Op, g.toExecution.Visible gmo w' r → w' ≠ w → gmo w' w
  /-- Every AMO reads from its immediate coherence predecessor. -/
  amo : ∀ a : g.Op, a.1.atomicKind = "amo" → ∃ w : g.Op, g.related "rf" w a ∧
    g.related "co" w a ∧ ∀ m : g.Op, ¬ (g.related "co" w m ∧ g.related "co" m a)
  /-- Every SC has one paired LR, and no write of another hart to the location
  stands between the source of the LR and the SC. -/
  lrSc : ∀ sc : g.Op, sc.1.atomicKind = "sc" → ∃ lr : g.Op, g.related "pair" lr sc ∧
    (∀ lr' : g.Op, g.related "pair" lr' sc → lr' = lr) ∧
    ∃ w : g.Op, g.related "rf" w lr ∧ gmo w sc ∧
      ∀ m : g.Op, m.1.isWrite → SameLocation m lr → m.1.hart ≠ lr.1.hart → ¬ (gmo w m ∧ gmo m sc)

/-- Every pair edge joins an LR to a later SC of its hart and location, and no
LR has two pairs. -/
structure PairsWellFormed (g : ExecutionGraph) : Prop where
  lr : ∀ a ∈ g.operations, ∀ b ∈ g.operations, g.related "pair" a b →
    a.isRead ∧ a.atomicKind = "lr"
  sc : ∀ a ∈ g.operations, ∀ b ∈ g.operations, g.related "pair" a b →
    b.isWrite ∧ b.atomicKind = "sc"
  later : ∀ a ∈ g.operations, ∀ b ∈ g.operations, g.related "pair" a b → PoBefore a b
  location : ∀ a ∈ g.operations, ∀ b ∈ g.operations, g.related "pair" a b → SameLocation a b
  single : ∀ a ∈ g.operations, ∀ b ∈ g.operations, ∀ b' ∈ g.operations,
    g.related "pair" a b → g.related "pair" a b' → b = b'

/-- The order in which a list of ids lists the operations. -/
def listOrder (g : ExecutionGraph) (order : List String) (a b : g.Op) : Prop :=
  Precedes order a.1.id b.1.id

theorem listOrder_strictTotal {g : ExecutionGraph} {order : List String}
    (h : ∀ a : g.Op, a.1.id ∈ order) : Execution.StrictTotal (listOrder g order) where
  irrefl a := Precedes.irrefl order a.1.id
  trans hab hbc := Precedes.trans hab hbc
  total {a b} hne := precedes_total (h a) (h b)
    (fun heq => hne (Subtype.ext (g.op_ext a.2 b.2 heq)))

/-- The topological order runs on the order relations as they are. -/
theorem kahn_edge (g : ExecutionGraph) : Kahn.Edge (successors (allEdges (rvwmoOrderRelations.map g.rel))) =
    fun x y => (x, y) ∈ allEdges (rvwmoOrderRelations.map g.rel) := by
  funext x y
  exact propext mem_successors

theorem kahn_nodes {g : ExecutionGraph} (x y : String)
    (h : Kahn.Edge (successors (allEdges (rvwmoOrderRelations.map g.rel))) x y) :
    x ∈ sortedList (g.operations.map MemoryOperation.id).toFinset ∧
      y ∈ sortedList (g.operations.map MemoryOperation.id).toFinset := by
  rw [kahn_edge] at h
  obtain ⟨rel, hrel, he⟩ := mem_allEdges.mp h
  obtain ⟨name, -, rfl⟩ := List.mem_map.mp hrel
  obtain ⟨a, ha, b, hb, heq⟩ := g.rel_edge_ops he
  rw [Prod.mk.injEq] at heq
  rw [mem_sortedList, mem_sortedList, List.mem_toFinset, List.mem_toFinset, heq.1, heq.2]
  exact ⟨List.mem_map_of_mem ha, List.mem_map_of_mem hb⟩

theorem mem_eligibleWrites {g : ExecutionGraph} {order : List String} (hall : ∀ a : g.Op, a.1.id ∈ order) (w r : g.Op) :
    w.1 ∈ eligibleWrites g.operations order (g.rel "po") r.1 ↔
      g.toExecution.Visible (listOrder g order) w r := by
  have hne : w.1.id ≠ r.1.id ↔ w ≠ r :=
    ⟨fun h heq => h (congrArg (fun a : g.Op => a.1.id) heq),
      fun h heq => h (Subtype.ext (g.op_ext w.2 r.2 heq))⟩
  have hlt : order.idxOf w.1.id < order.idxOf r.1.id ↔ listOrder g order w r :=
    ⟨fun h => ⟨hall w, hall r, h⟩, fun h => h.2.2⟩
  simp only [eligibleWrites, List.mem_filter, Bool.and_eq_true, Bool.or_eq_true, decide_eq_true_eq,
    hne, hlt]
  constructor
  · rintro ⟨-, ⟨⟨hw, hwr⟩, hloc⟩, hvis⟩
    exact ⟨hw, hwr, hloc, hvis⟩
  · rintro ⟨hw, hwr, hloc, hvis⟩
    exact ⟨w.2, ⟨⟨hw, hwr⟩, hloc⟩, hvis⟩

namespace Completed

variable {g : ExecutionGraph} {sources : Dict String String} (hc : Completed g sources)
include hc

theorem relation_ok (name : String) (h : name ∈ ["po", "rf", "co", "ppo", "rfe", "fr"]) :
    g.relation name = .ok (g.rel name) := by
  rw [ExecutionGraph.relation, hc.has name h]

/-! ## The global memory order witness -/

/-- The topological order exists exactly when the order relations are acyclic. -/
theorem order_isSome_iff :
    (topologicalTotalOrder (g.operations.map MemoryOperation.id)
      (rvwmoOrderRelations.map g.rel)).isSome ↔ Acyclic g.toExecution.order := by
  rw [hc.order_acyclic_iff, ← kahn_edge]
  exact Kahn.topologicalOrder_isSome_iff (nodup_sortedList _) (fun _ => nodup_sortedList _)
    kahn_nodes

/-- A topological order lists all operations and respects the order relations. -/
theorem order_sound {order : List String}
    (h : topologicalTotalOrder (g.operations.map MemoryOperation.id)
      (rvwmoOrderRelations.map g.rel) = some order) :
    (∀ a : g.Op, a.1.id ∈ order) ∧
      ∀ a b : g.Op, g.toExecution.order a b → listOrder g order a b := by
  have hext := Kahn.topologicalOrder_linearExtension (nodup_sortedList _)
    (fun _ => nodup_sortedList _) kahn_nodes h
  constructor
  · intro a
    rw [hext.mem_iff, List.mem_toFinset, mem_sortedList, List.mem_toFinset]
    exact List.mem_map_of_mem a.2
  · intro a b hab
    have hedge := (hc.order_iff a b).mp hab
    rw [← mem_successors] at hedge
    exact hext.extends_rel _ _ hedge

/-! ## Load values -/

/-- A read is not reported exactly when its source is the latest eligible write. -/
theorem loadValueOffense_eq_none_iff {order : List String} (hall : ∀ a : g.Op, a.1.id ∈ order)
    {r : g.Op} (hread : r.1.isRead) :
    loadValueOffense g.operations order (g.rel "po") sources r.1 = none ↔
      ∃ w : g.Op, g.related "rf" w r ∧ g.toExecution.Visible (listOrder g order) w r ∧
        ∀ w' : g.Op, g.toExecution.Visible (listOrder g order) w' r → w' ≠ w →
          listOrder g order w' w := by
  obtain ⟨w, hw, hrf, hget, honly⟩ := hc.rf_source r.2 hread
  have hmem : ∀ x ∈ eligibleWrites g.operations order (g.rel "po") r.1, x ∈ g.operations :=
    fun x hx => (List.mem_filter.mp hx).1
  unfold loadValueOffense
  rw [hget, Option.getD_some]
  cases hmax : (eligibleWrites g.operations order (g.rel "po") r.1).argmax
      (fun write => order.idxOf write.id) with
  | none =>
      simp only [reduceCtorEq, false_iff]
      rintro ⟨w', -, hvis, -⟩
      have hin := (mem_eligibleWrites hall w' r).mpr hvis
      rw [List.argmax_eq_none.mp hmax] at hin
      cases hin
  | some latest =>
      obtain ⟨hlatest, hle, -⟩ := List.argmax_eq_some_iff.mp hmax
      have hops := hmem latest hlatest
      have hvis := (mem_eligibleWrites hall ⟨latest, hops⟩ r).mp hlatest
      have hafter : ∀ w' : g.Op, g.toExecution.Visible (listOrder g order) w' r →
          w' ≠ ⟨latest, hops⟩ → listOrder g order w' ⟨latest, hops⟩ := by
        intro w' hw' hne
        have hidx := hle _ ((mem_eligibleWrites hall w' r).mpr hw')
        rcases (listOrder_strictTotal hall).total hne with h | h
        · exact h
        · exact absurd h.2.2 (Nat.not_lt.mpr hidx)
      simp only [ne_eq, ite_eq_right_iff, reduceCtorEq, imp_false, not_not]
      constructor
      · intro hid
        have heq : latest = w := g.op_ext hops hw hid
        subst heq
        exact ⟨⟨latest, hops⟩, hrf, hvis, hafter⟩
      · rintro ⟨w', hrf', hvis', hlast⟩
        have heq := honly w' w'.2 hrf'
        by_contra hne
        have hdiff : (⟨latest, hops⟩ : g.Op) ≠ w' := by
          intro h
          exact hne (by rw [← heq, ← h])
        have hto := hlast _ hvis hdiff
        exact (listOrder_strictTotal hall).asymm hto (hafter w' hvis' hdiff.symm)

/-- The axiom in the form of the abstract executions. -/
theorem loadValue_iff {gmo : g.Op → g.Op → Prop} : g.toExecution.LoadValue gmo ↔
    ∀ r : g.Op, r.1.isRead → ∃ w : g.Op, g.related "rf" w r ∧ g.toExecution.Visible gmo w r ∧
      ∀ w' : g.Op, g.toExecution.Visible gmo w' r → w' ≠ w → gmo w' w := by
  constructor
  · intro h r hread
    obtain ⟨w, hw, hrf, -⟩ := hc.rf_source r.2 hread
    exact ⟨⟨w, hw⟩, hrf, h ⟨w, hw⟩ r hrf⟩
  · intro h w r hrf
    obtain ⟨w', hrf', hlatest⟩ := h r (hc.rf_edge w.2 r.2 hrf).2.1
    have heq : w = w' := Subtype.ext (hc.rf_unique r.2 w.2 w'.2 hrf hrf')
    rw [heq]
    exact hlatest

/-- With a global order the reported loads are those that break the axiom on it. -/
theorem loadValueOffenses_of_order {order : List String}
    (h : topologicalTotalOrder (g.operations.map MemoryOperation.id)
      (rvwmoOrderRelations.map g.rel) = some order) :
    ∃ offenses, loadValueOffenses g = .ok offenses ∧
      (offenses = [] ↔ g.toExecution.LoadValue (listOrder g order)) := by
  obtain ⟨hall, -⟩ := hc.order_sound h
  unfold loadValueOffenses
  rw [hc.order, h, Option.getD_some, Option.getD_some]
  rw [hc.loadValue_iff]
  cases order with
  | nil =>
      -- no operations at all
      refine ⟨[], rfl, ?_⟩
      simp only [true_iff]
      intro r
      have hnot := hall r
      cases hnot
  | cons first rest =>
      refine ⟨_, by simp only [hc.relation_ok "po" (by decide),
        hc.relation_ok "rf" (by decide), Except.ok_bind, hc.rf]; rfl, ?_⟩
      rw [sortEdgeList_eq_nil, List.filterMap_eq_nil_iff]
      constructor
      · intro hnone r hread
        exact (hc.loadValueOffense_eq_none_iff hall hread).mp
          (hnone r.1 (List.mem_filter.mpr ⟨r.2, hread⟩))
      · intro hlv r hr
        obtain ⟨hmem, hread⟩ := List.mem_filter.mp hr
        exact (hc.loadValueOffense_eq_none_iff hall (r := ⟨r, hmem⟩) hread).mpr
          (hlv ⟨r, hmem⟩ hread)

/-- Without a global order no load is reported. -/
theorem loadValueOffenses_of_no_order
    (h : topologicalTotalOrder (g.operations.map MemoryOperation.id)
      (rvwmoOrderRelations.map g.rel) = none) : loadValueOffenses g = .ok [] := by
  unfold loadValueOffenses
  rw [hc.order, h]
  rfl

/-! ## Atomicity of AMOs -/

theorem amoOffense_eq_none_iff (a : g.Op) :
    amoOffense g.operations (g.rel "co") sources a.1 = none ↔
      ∃ w : g.Op, g.related "rf" w a ∧ g.related "co" w a ∧
        ∀ m : g.Op, ¬ (g.related "co" w m ∧ g.related "co" m a) := by
  unfold amoOffense
  by_cases hrw : a.1.isRead ∧ a.1.isWrite
  · obtain ⟨w, hw, hrf, hget, honly⟩ := hc.rf_source a.2 hrw.1
    rw [if_neg (not_not.mpr hrw), hget, Option.getD_some]
    by_cases hco : (w.id, a.1.id) ∈ (g.rel "co").edges
    · have hany : (g.operations.any (fun write => write.isWrite && write.id ∉ [w.id, a.1.id] &&
          SameLocation write a.1 && (w.id, write.id) ∈ (g.rel "co").edges &&
          (write.id, a.1.id) ∈ (g.rel "co").edges)) = true ↔
          ∃ m : g.Op, g.related "co" w m ∧ g.related "co" m a := by
        simp only [List.any_eq_true, Bool.and_eq_true, decide_eq_true_eq]
        constructor
        · rintro ⟨m, hm, ⟨-, hwm⟩, hma⟩
          exact ⟨⟨m, hm⟩, hwm, hma⟩
        · rintro ⟨m, hwm, hma⟩
          obtain ⟨-, hmw, hne, -⟩ := hc.co_edge hw m.2 hwm
          obtain ⟨-, -, hne', hloc⟩ := hc.co_edge m.2 a.2 hma
          refine ⟨m, m.2, ⟨⟨⟨hmw, ?_⟩, hloc⟩, hwm⟩, hma⟩
          simp only [List.mem_cons, List.not_mem_nil, or_false, not_or]
          exact ⟨fun heq => hne (g.op_ext hw m.2 heq.symm), fun heq => hne' (g.op_ext m.2 a.2 heq)⟩
      simp only
      rw [if_neg (not_not.mpr hco)]
      simp only [ite_eq_right_iff, reduceCtorEq, imp_false, hany]
      constructor
      · intro hno
        exact ⟨⟨w, hw⟩, hrf, hco, fun m hm => hno ⟨m, hm⟩⟩
      · rintro ⟨w', hrf', -, hno⟩ ⟨m, hm⟩
        rw [honly w' w'.2 hrf'] at hno
        exact hno m hm
    · simp only
      rw [if_pos hco]
      simp only [reduceCtorEq, false_iff]
      rintro ⟨w', hrf', hco', -⟩
      rw [honly w' w'.2 hrf'] at hco'
      exact hco hco'
  · rw [if_pos hrw]
    simp only [reduceCtorEq, false_iff]
    rintro ⟨w, hrf, hco, -⟩
    exact hrw ⟨(hc.rf_edge w.2 a.2 hrf).2.1, (hc.co_edge w.2 a.2 hco).2.1⟩

theorem amoOffenses_eq : ∃ offenses, amoOffenses g = .ok offenses ∧
    (offenses = [] ↔ ∀ a : g.Op, a.1.atomicKind = "amo" →
      ∃ w : g.Op, g.related "rf" w a ∧ g.related "co" w a ∧
        ∀ m : g.Op, ¬ (g.related "co" w m ∧ g.related "co" m a)) := by
  unfold amoOffenses
  refine ⟨_, by simp only [hc.relation_ok "co" (by decide),
    hc.relation_ok "rf" (by decide), Except.ok_bind, hc.rf]; rfl, ?_⟩
  rw [sortEdgeList_eq_nil, List.filterMap_eq_nil_iff]
  constructor
  · intro hnone a hkind
    exact (hc.amoOffense_eq_none_iff a).mp
      (hnone a.1 (List.mem_filter.mpr ⟨a.2, by simpa using hkind⟩))
  · intro h a ha
    obtain ⟨hmem, hkind⟩ := List.mem_filter.mp ha
    have hkind' : a.atomicKind = "amo" := by simpa using hkind
    exact (hc.amoOffense_eq_none_iff ⟨a, hmem⟩).mpr (h ⟨a, hmem⟩ hkind')

/-! ## Atomicity of LR/SC pairs -/

/-- One pair edge is not reported exactly when no write of another hart stands
between the source of the LR and the SC in coherence order. -/
theorem pairOffense_eq (hp : PairsWellFormed g) {lr sc : g.Op} (hpair : g.related "pair" lr sc) :
    ∃ offense, pairOffense g.operations (g.rel "co") sources (lr.1.id, sc.1.id) = .ok offense ∧
      (offense = none ↔ ∃ w : g.Op, g.related "rf" w lr ∧ g.related "co" w sc ∧
        ∀ m : g.Op, m.1.isWrite → SameLocation m lr → m.1.hart ≠ lr.1.hart →
          ¬ (g.related "co" w m ∧ g.related "co" m sc)) := by
  obtain ⟨hread, hlr⟩ := hp.lr lr lr.2 sc sc.2 hpair
  obtain ⟨-, hsc⟩ := hp.sc lr lr.2 sc sc.2 hpair
  obtain ⟨w, hw, hrf, hget, honly⟩ := hc.rf_source lr.2 hread
  have hrequire : Except.require (lr.1.atomicKind = "lr" ∧ sc.1.atomicKind = "sc") (PyError.graphError
      s!"pair edge {quoted lr.1.id}->{quoted sc.1.id} is not LR->SC") = .ok () :=
    Except.require_eq_ok.mpr ⟨hlr, hsc⟩
  simp only [pairOffense, endpoints_of_mem g.nodup lr.2 sc.2, hrequire, Except.ok_bind, hget]
  by_cases hco : (w.id, sc.1.id) ∈ (g.rel "co").edges
  · rw [if_neg (not_not.mpr hco)]
    have hany : (g.operations.any (fun write => write.isWrite && write.id ∉ [w.id, sc.1.id] &&
        write.hart ≠ lr.1.hart && Overlap write lr.1 && (w.id, write.id) ∈ (g.rel "co").edges &&
        (write.id, sc.1.id) ∈ (g.rel "co").edges)) = true ↔
        ∃ m : g.Op, m.1.isWrite ∧ SameLocation m lr ∧ m.1.hart ≠ lr.1.hart ∧
          g.related "co" w m ∧ g.related "co" m sc := by
      simp only [List.any_eq_true, Bool.and_eq_true, decide_eq_true_eq]
      constructor
      · rintro ⟨m, hm, ⟨⟨⟨⟨hwrite, -⟩, hhart⟩, hov⟩, hwm⟩, hms⟩
        have hne : m ≠ lr.1 := fun heq => hhart (congrArg _ heq)
        exact ⟨⟨m, hm⟩, hwrite, (hc.scalar.overlap_iff hm lr.2 hne).mp hov, hhart, hwm, hms⟩
      · rintro ⟨m, hwrite, hloc, hhart, hwm, hms⟩
        have hne : m.1 ≠ lr.1 := fun heq => hhart (congrArg _ heq)
        obtain ⟨-, -, hwne, -⟩ := hc.co_edge hw m.2 hwm
        obtain ⟨-, -, hsne, -⟩ := hc.co_edge m.2 sc.2 hms
        refine ⟨m, m.2, ⟨⟨⟨⟨hwrite, ?_⟩, hhart⟩, (hc.scalar.overlap_iff m.2 lr.2 hne).mpr hloc⟩,
          hwm⟩, hms⟩
        simp only [List.mem_cons, List.not_mem_nil, or_false, not_or]
        exact ⟨fun heq => hwne (g.op_ext hw m.2 heq.symm), fun heq => hsne (g.op_ext m.2 sc.2 heq)⟩
    split
    · rename_i hbad
      refine ⟨_, rfl, ?_⟩
      simp only [reduceCtorEq, false_iff]
      rintro ⟨w', hrf', -, hno⟩
      obtain ⟨m, hwrite, hloc, hhart, hbetween⟩ := hany.mp hbad
      rw [honly w' w'.2 hrf'] at hno
      exact hno m hwrite hloc hhart hbetween
    · rename_i hgood
      refine ⟨_, rfl, ?_⟩
      simp only [true_iff]
      refine ⟨⟨w, hw⟩, hrf, hco, ?_⟩
      intro m hwrite hloc hhart hbetween
      exact hgood (hany.mpr ⟨m, hwrite, hloc, hhart, hbetween⟩)
  · rw [if_pos hco]
    refine ⟨_, rfl, ?_⟩
    simp only [reduceCtorEq, false_iff]
    rintro ⟨w', hrf', hco', -⟩
    rw [honly w' w'.2 hrf'] at hco'
    exact hco hco'

omit hc in
/-- An SC has exactly one incoming pair edge when it has one paired LR. -/
theorem card_pairs_eq_one (sc : g.Op) :
    ((g.rel "pair").edges.filter (fun e => e.2 = sc.1.id)).card = 1 ↔
      ∃ lr : g.Op, g.related "pair" lr sc ∧ ∀ lr' : g.Op, g.related "pair" lr' sc → lr' = lr := by
  rw [Finset.card_eq_one]
  constructor
  · rintro ⟨e, he⟩
    have hmem : ∀ x, x ∈ (g.rel "pair").edges ∧ x.2 = sc.1.id ↔ x = e := by
      intro x
      have hx := Finset.ext_iff.mp he x
      rwa [Finset.mem_filter, Finset.mem_singleton] at hx
    obtain ⟨hin, hsc⟩ := (hmem e).mpr rfl
    obtain ⟨a, ha, b, hb, rfl⟩ := g.rel_edge_ops hin
    simp only at hsc
    rw [hsc] at hin hmem
    refine ⟨⟨a, ha⟩, hin, ?_⟩
    intro lr' hlr'
    have heq := (hmem (lr'.1.id, sc.1.id)).mp ⟨hlr', rfl⟩
    exact Subtype.ext (g.op_ext lr'.2 ha (Prod.mk.inj heq).1)
  · rintro ⟨lr, hlr, honly⟩
    refine ⟨(lr.1.id, sc.1.id), ?_⟩
    ext x
    rw [Finset.mem_filter, Finset.mem_singleton]
    constructor
    · rintro ⟨hx, hsc⟩
      obtain ⟨a, ha, b, hb, rfl⟩ := g.rel_edge_ops hx
      simp only at hsc
      rw [hsc] at hx ⊢
      have heq := honly ⟨a, ha⟩ hx
      rw [← heq]
    · rintro rfl
      exact ⟨hlr, rfl⟩

omit hc in
/-- No LR has two pairs, so the check for multiple pairs passes. -/
theorem card_paired_eq_one (hp : PairsWellFormed g) {e : Edge} (he : e ∈ (g.rel "pair").edges) :
    ((g.rel "pair").edges.filter (fun e' => e'.1 = e.1)).card = 1 := by
  rw [Finset.card_eq_one]
  refine ⟨e, ?_⟩
  ext x
  rw [Finset.mem_filter, Finset.mem_singleton]
  constructor
  · rintro ⟨hx, hfst⟩
    obtain ⟨a, ha, b, hb, rfl⟩ := g.rel_edge_ops he
    obtain ⟨a', ha', b', hb', rfl⟩ := g.rel_edge_ops hx
    simp only at hfst
    rw [hfst] at hx ⊢
    rw [hp.single a ha b' hb' b hb hx he]
  · rintro rfl
    exact ⟨he, rfl⟩

/-- Nothing is reported exactly when every SC has one pair and that pair is atomic. -/
theorem lrScOffenses_eq (hp : PairsWellFormed g) : ∃ offenses, lrScOffenses g = .ok offenses ∧
    (offenses = [] ↔ ∀ sc : g.Op, sc.1.atomicKind = "sc" → ∃ lr : g.Op, g.related "pair" lr sc ∧
      (∀ lr' : g.Op, g.related "pair" lr' sc → lr' = lr) ∧
      ∃ w : g.Op, g.related "rf" w lr ∧ g.related "co" w sc ∧
        ∀ m : g.Op, m.1.isWrite → SameLocation m lr → m.1.hart ≠ lr.1.hart →
          ¬ (g.related "co" w m ∧ g.related "co" m sc)) := by
  have hedge : ∀ e ∈ sortedEdges (g.rel "pair").edges, ∃ lr sc : g.Op,
      e = (lr.1.id, sc.1.id) ∧ g.related "pair" lr sc := by
    intro e he
    have he' := mem_sortedEdges.mp he
    obtain ⟨a, ha, b, hb, rfl⟩ := g.rel_edge_ops he'
    exact ⟨⟨a, ha⟩, ⟨b, hb⟩, rfl, he'⟩
  obtain ⟨broken, hbroken⟩ : ∃ broken, (sortedEdges (g.rel "pair").edges).mapM
      (pairOffense g.operations (g.rel "co") sources) = .ok broken := by
    apply Except.exists_mapM
    intro e he
    obtain ⟨lr, sc, rfl, hpair⟩ := hedge e he
    obtain ⟨offense, hok, -⟩ := hc.pairOffense_eq hp hpair
    exact ⟨offense, hok⟩
  have hsingle : (sortedEdges (g.rel "pair").edges).forM (fun e =>
      Except.require (((g.rel "pair").edges.filter (fun e' => e'.1 = e.1)).card = 1)
        (PyError.graphError s!"LR {quoted e.1} is paired with multiple SC operations")) = .ok () := by
    rw [Except.forM_eq_ok]
    intro e he
    exact Except.require_eq_ok.mpr (card_paired_eq_one hp (mem_sortedEdges.mp he))
  have hpairRel : relationOrEmpty g.relations "pair" = g.rel "pair" := rfl
  unfold lrScOffenses
  rw [hc.relation_ok "co" (by decide), hc.relation_ok "rf" (by decide)]
  simp only [Except.ok_bind, hc.rf, hpairRel, hsingle, hbroken]
  refine ⟨_, rfl, ?_⟩
  rw [sortEdgeList_eq_nil, List.append_eq_nil_iff, List.map_eq_nil_iff, List.filter_eq_nil_iff,
    List.filterMap_eq_nil_iff]
  constructor
  · rintro ⟨hunpaired, hnone⟩ sc hsc
    have hcard : ((g.rel "pair").edges.filter (fun e => e.2 = sc.1.id)).card = 1 := by
      simpa using hunpaired sc.1 (List.mem_filter.mpr ⟨sc.2, by simpa using hsc⟩)
    obtain ⟨lr, hpair, honly⟩ := (card_pairs_eq_one sc).mp hcard
    obtain ⟨offense, hok, hiff⟩ := hc.pairOffense_eq hp hpair
    obtain ⟨offense', hmem, hok'⟩ := Except.mapM_result hbroken (mem_sortedEdges.mpr hpair)
    rw [hok] at hok'
    cases hok'
    exact ⟨lr, hpair, honly, hiff.mp (by simpa using hnone offense hmem)⟩
  · intro h
    constructor
    · intro sc hsc
      obtain ⟨hmem, hkind⟩ := List.mem_filter.mp hsc
      obtain ⟨lr, hpair, honly, -⟩ := h ⟨sc, hmem⟩ (by simpa using hkind)
      have hcard := (card_pairs_eq_one ⟨sc, hmem⟩).mpr ⟨lr, hpair, honly⟩
      simpa using hcard
    · intro offense hmem
      obtain ⟨e, he, hok⟩ := Except.mapM_origin hbroken hmem
      obtain ⟨lr, sc, rfl, hpair⟩ := hedge e he
      obtain ⟨offense', hok', hiff⟩ := hc.pairOffense_eq hp hpair
      rw [hok] at hok'
      cases hok'
      obtain ⟨lr', hpair', honly', hatomic⟩ := h sc (hp.sc lr lr.2 sc sc.2 hpair).2
      rw [honly' lr hpair] at hiff
      simpa using hiff.mpr hatomic

/-- On a global order that contains the coherence order, the condition on an SC
is the one on the coherence order. -/
theorem lrSc_gmo_iff (hp : PairsWellFormed g) {gmo : g.Op → g.Op → Prop}
    (hg : Execution.StrictTotal gmo) (hco : ∀ a b : g.Op, g.related "co" a b → gmo a b)
    {lr sc w : g.Op} (hpair : g.related "pair" lr sc) (hrf : g.related "rf" w lr) :
    (g.related "co" w sc ∧ ∀ m : g.Op, m.1.isWrite → SameLocation m lr → m.1.hart ≠ lr.1.hart →
      ¬ (g.related "co" w m ∧ g.related "co" m sc)) ↔
    (gmo w sc ∧ ∀ m : g.Op, m.1.isWrite → SameLocation m lr → m.1.hart ≠ lr.1.hart →
      ¬ (gmo w m ∧ gmo m sc)) := by
  have hwf := hc.wellFormed
  obtain ⟨hsc, -⟩ := hp.sc lr lr.2 sc sc.2 hpair
  have hloc : SameLocation lr.1 sc.1 := hp.location lr lr.2 sc sc.2 hpair
  obtain ⟨hw, -, -, hwloc⟩ := hc.rf_edge w.2 lr.2 hrf
  -- the source, the SC and the writes in between share one location
  have hback : ∀ {a b : g.Op}, a.1.isWrite → b.1.isWrite → SameLocation a.1 lr.1 →
      SameLocation b.1 lr.1 → gmo a b → g.related "co" a b := by
    intro a b ha hb hal hbl hab
    exact Execution.co_of_gmo hwf hg hco ha hb (hal.trans hbl.symm) hab
  constructor
  · rintro ⟨hws, hno⟩
    refine ⟨hco w sc hws, ?_⟩
    rintro m hm hml hhart ⟨hwm, hms⟩
    exact hno m hm hml hhart ⟨hback hw hm hwloc hml hwm, hback hm hsc hml hloc.symm hms⟩
  · rintro ⟨hws, hno⟩
    refine ⟨hback hw hsc hwloc hloc.symm hws, ?_⟩
    rintro m hm hml hhart ⟨hwm, hms⟩
    exact hno m hm hml hhart ⟨hco w m hwm, hco m sc hms⟩

end Completed

/-! ## The verdict -/

theorem checkRvwmo_ok {g : ExecutionGraph} {sources : Dict String String}
    (hc : Completed g sources) {loadValue amo lrSc : List Edge}
    (hlv : loadValueOffenses g = .ok loadValue) (hamo : amoOffenses g = .ok amo)
    (hlr : lrScOffenses g = .ok lrSc) :
    ∃ outcomes, checkRvwmo g = .ok outcomes ∧ ((∀ o ∈ outcomes, o.satisfied) ↔
      Acyclic g.toExecution.order ∧ loadValue = [] ∧ amo = [] ∧ lrSc = []) := by
  have hrels : rvwmoOrderRelations.mapM g.relation = .ok (rvwmoOrderRelations.map g.rel) := by
    rw [Except.mapM_eq_ok, List.forall₂_map_right_iff, List.forall₂_same]
    intro name hname
    exact hc.relation_ok name (by revert name; decide)
  unfold checkRvwmo
  simp only [hrels, hlv, hamo, hlr, Except.ok_bind]
  refine ⟨_, rfl, ?_⟩
  rw [hc.order_acyclic_iff, ← findLabeledCycle_eq_none_iff]
  simp [List.isEmpty_iff]

/-- The checks return where the pair edges are well formed. -/
theorem Completed.exists_outcomes {g : ExecutionGraph} {sources : Dict String String}
    (hc : Completed g sources) (hp : PairsWellFormed g) :
    ∃ outcomes, checkRvwmo g = .ok outcomes := by
  obtain ⟨amo, hamo, -⟩ := hc.amoOffenses_eq
  obtain ⟨lrSc, hlr, -⟩ := hc.lrScOffenses_eq hp
  have hload : ∃ loadValue, loadValueOffenses g = .ok loadValue := by
    cases horder : topologicalTotalOrder (g.operations.map MemoryOperation.id)
        (rvwmoOrderRelations.map g.rel) with
    | none => exact ⟨[], hc.loadValueOffenses_of_no_order horder⟩
    | some order =>
        obtain ⟨loadValue, hlv, -⟩ := hc.loadValueOffenses_of_order horder
        exact ⟨loadValue, hlv⟩
  obtain ⟨loadValue, hlv⟩ := hload
  obtain ⟨outcomes, hok, -⟩ := checkRvwmo_ok hc hlv hamo hlr
  exact ⟨outcomes, hok⟩

theorem pairsWellFormed_of_eq {g g' : ExecutionGraph} (hops : g'.operations = g.operations)
    (hpair : g'.relations.get? "pair" = g.relations.get? "pair") (hp : PairsWellFormed g) :
    PairsWellFormed g' := by
  have hrel : ∀ a b, g'.related "pair" a b ↔ g.related "pair" a b := by
    intro a b
    simp [ExecutionGraph.related, ExecutionGraph.rel, relationOrEmpty, hpair]
  constructor
  · simpa only [hrel, hops] using hp.lr
  · simpa only [hrel, hops] using hp.sc
  · simpa only [hrel, hops] using hp.later
  · simpa only [hrel, hops] using hp.location
  · simpa only [hrel, hops] using hp.single

/-- The verdict of the checker is the existence of a global memory order: all
outcomes are satisfied exactly when some strict total order of the operations
satisfies the axioms, whichever topological order the checker evaluated. -/
theorem checkRvwmo_satisfied_iff {graph completed : ExecutionGraph}
    (haccepted : completeRvwmoRelations graph = .ok completed) (hpairs : PairsWellFormed graph) :
    ∃ outcomes, checkRvwmo completed = .ok outcomes ∧
      ((∀ o ∈ outcomes, o.satisfied) ↔
        ∃ gmo : completed.Op → completed.Op → Prop, RvwmoAxioms completed gmo) := by
  obtain ⟨⟨sources, hc⟩, hops, -, hsame⟩ := completed_of_complete haccepted
  have hp := pairsWellFormed_of_eq hops (hsame "pair" (by decide)) hpairs
  have hwf := hc.wellFormed
  obtain ⟨amo, hamo, hamoiff⟩ := hc.amoOffenses_eq
  obtain ⟨lrSc, hlr, hlriff⟩ := hc.lrScOffenses_eq hp
  cases horder : topologicalTotalOrder (completed.operations.map MemoryOperation.id)
      (rvwmoOrderRelations.map completed.rel) with
  | none =>
      have hcyclic : ¬ Acyclic completed.toExecution.order := by
        rw [← hc.order_isSome_iff, horder]
        simp
      obtain ⟨outcomes, hok, hiff⟩ := checkRvwmo_ok hc (hc.loadValueOffenses_of_no_order horder)
        hamo hlr
      refine ⟨outcomes, hok, ?_⟩
      rw [hiff]
      constructor
      · rintro ⟨hac, -⟩
        exact absurd hac hcyclic
      · rintro ⟨gmo, hax⟩
        have hsub := Execution.order_sub_gmo hwf hax.total hax.ppo hax.co
          (hc.loadValue_iff.mpr hax.loadValue)
        exact absurd (acyclic_of_subrelation hsub hax.total.irrefl
          (fun _ _ _ => hax.total.trans)) hcyclic
  | some order =>
      obtain ⟨hall, hsub⟩ := hc.order_sound horder
      have hstrict := listOrder_strictTotal hall
      have hacyclic : Acyclic completed.toExecution.order := by
        rw [← hc.order_isSome_iff, horder]
        rfl
      obtain ⟨loadValue, hlv, hlviff⟩ := hc.loadValueOffenses_of_order horder
      obtain ⟨outcomes, hok, hiff⟩ := checkRvwmo_ok hc hlv hamo hlr
      refine ⟨outcomes, hok, ?_⟩
      rw [hiff, hlviff, hamoiff, hlriff]
      constructor
      · -- the topological order is the witness
        rintro ⟨-, hload, hatomic, hlrsc⟩
        have hco : ∀ a b : completed.Op, completed.related "co" a b → listOrder completed order a b :=
          fun a b h => hsub a b (Or.inr (Or.inr (Or.inl h)))
        refine ⟨listOrder completed order, hstrict, fun a b h => hsub a b (Or.inl h), hco,
          hc.loadValue_iff.mp hload, hatomic, ?_⟩
        intro sc hsc
        obtain ⟨lr, hpair, honly, w, hrf, hatomic'⟩ := hlrsc sc hsc
        exact ⟨lr, hpair, honly, w, hrf, (hc.lrSc_gmo_iff hp hstrict hco hpair hrf).mp hatomic'⟩
      · -- every other order decides the load values alike
        rintro ⟨gmo, hax⟩
        have hload := hc.loadValue_iff.mpr hax.loadValue
        have hsettled := hload.settled hwf hax.total hax.ppo hax.co
        refine ⟨hacyclic, (Execution.settled_iff_loadValue hwf hstrict hsub).mp hsettled,
          hax.amo, ?_⟩
        intro sc hsc
        obtain ⟨lr, hpair, honly, w, hrf, hatomic⟩ := hax.lrSc sc hsc
        exact ⟨lr, hpair, honly, w, hrf, (hc.lrSc_gmo_iff hp hax.total hax.co hpair hrf).mpr hatomic⟩

/-- An LR/SC pair on one hart, and a load of the other hart that reads the SC. -/
def pairOperations : List MemoryOperation :=
  [.initial "init" (.int 8) (.int 0) "e0" (by decide),
    { MemoryOperation.load "lr" 0 0 (.int 8) (.int 0) "e1" "c1" (by decide) (by decide) with
      metadata := .ofList [("atomic_kind", .scalar (.str "lr"))] },
    { MemoryOperation.store "sc" 0 1 (.int 8) (.int 1) "e2" (by decide) with
      metadata := .ofList [("atomic_kind", .scalar (.str "sc"))] },
    .load "load" 1 0 (.int 8) (.int 1) "e3" "c3" (by decide) (by decide)]

/-- The reads-from and coherence choice in which the SC succeeds. -/
def pairGraph : ExecutionGraph where
  operations := pairOperations
  relations := .ofList
    [("rf", { name := "rf", edges := {("init", "lr"), ("sc", "load")} }),
      ("co", { name := "co", edges := {("init", "sc")} }),
      ("pair", { name := "pair", edges := {("lr", "sc")} })]
  candidateId := 0
  metadata :=
    { graphModel := none, rfAssignment := [], coOrders := .empty, builtinModel := none
      gmoOrder := none }
  nodup := by decide
  named := by decide
  known := by decide

theorem pairGraph_pairs : PairsWellFormed pairGraph := by
  constructor <;> (unfold ExecutionGraph.related; decide +kernel)

theorem pairGraph_allowed : ∃ completed outcomes, completeRvwmoRelations pairGraph = .ok completed ∧
    checkRvwmo completed = .ok outcomes ∧ ∀ o ∈ outcomes, o.satisfied := by
  have h : (do
      let completed ← completeRvwmoRelations pairGraph
      let outcomes ← checkRvwmo completed
      return outcomes.all (fun o => o.satisfied) : Except PyError Bool) = .ok true := by decide +kernel
  obtain ⟨completed, hcompleted, h⟩ := Except.bind_eq_ok.mp h
  obtain ⟨outcomes, houtcomes, h⟩ := Except.bind_eq_ok.mp h
  exact ⟨completed, outcomes, hcompleted, houtcomes, by simpa [pure, Except.pure] using h⟩

/-- On this graph the order the checker evaluated stands for a global memory order. -/
theorem pairGraph_gmo : ∃ completed, completeRvwmoRelations pairGraph = .ok completed ∧
    ∃ gmo : completed.Op → completed.Op → Prop, RvwmoAxioms completed gmo := by
  obtain ⟨completed, outcomes, haccepted, hcheck, hallowed⟩ := pairGraph_allowed
  obtain ⟨outcomes', hcheck', hiff⟩ := checkRvwmo_satisfied_iff haccepted pairGraph_pairs
  rw [hcheck] at hcheck'
  cases hcheck'
  exact ⟨completed, haccepted, hiff.mp hallowed⟩

/-! ## Coherence -/

/-- Program order of one location, reads-from, coherence order and from-reads. -/
def coherenceEdge (g : ExecutionGraph) (location : Finset Key) (a b : g.Op) : Prop :=
  (g.related "po" a b ∧ footprintOf a.1 = location ∧ footprintOf b.1 = location) ∨
    g.related "rf" a b ∨ g.related "co" a b ∨ g.related "fr" a b

/-- What satisfied outcomes say about the order relations and the load values. -/
theorem Completed.allowed {g : ExecutionGraph} {sources : Dict String String}
    (hc : Completed g sources) {outcomes : List RvwmoOutcome}
    (hcheck : checkRvwmo g = .ok outcomes) (hallowed : ∀ o ∈ outcomes, o.satisfied) :
    ∃ gmo : g.Op → g.Op → Prop, Execution.StrictTotal gmo ∧
      (∀ a b, g.toExecution.order a b → gmo a b) ∧ g.toExecution.LoadValue gmo := by
  have hcheck' := hcheck
  simp only [checkRvwmo, Except.bind_eq_ok] at hcheck'
  obtain ⟨_, -, loadValue, hlv, amo, hamo, lrSc, hlr, -⟩ := hcheck'
  obtain ⟨outcomes', hok, hiff⟩ := checkRvwmo_ok hc hlv hamo hlr
  rw [hcheck] at hok
  cases hok
  obtain ⟨hacyclic, hnil, -⟩ := hiff.mp hallowed
  obtain ⟨order, horder⟩ := Option.isSome_iff_exists.mp (hc.order_isSome_iff.mpr hacyclic)
  obtain ⟨hall, hsub⟩ := hc.order_sound horder
  obtain ⟨loadValue', hlv', hlviff⟩ := hc.loadValueOffenses_of_order horder
  rw [hlv] at hlv'
  cases hlv'
  exact ⟨listOrder g order, listOrder_strictTotal hall, hsub, hlviff.mp hnil⟩

/-- Satisfied outcomes leave no cycle through program order of one location, reads-from,
coherence order and from-reads. -/
theorem Completed.coherent {g : ExecutionGraph} {sources : Dict String String}
    (hc : Completed g sources) {outcomes : List RvwmoOutcome}
    (hcheck : checkRvwmo g = .ok outcomes) (hallowed : ∀ o ∈ outcomes, o.satisfied)
    (location : Finset Key) : Acyclic (coherenceEdge g location) := by
  obtain ⟨gmo, hstrict, hsub, hload⟩ := hc.allowed hcheck hallowed
  have hcoherent := Execution.sc_per_location hc.wellFormed hstrict
    (fun a b h => hsub a b (Or.inl h)) (fun a b h => hsub a b (Or.inr (Or.inr (Or.inl h)))) hload
    hc.loadLoadPreserved
  refine hcoherent.mono ?_
  rintro a b (⟨hpo, ha, hb⟩ | hrf | hco | hfr)
  · exact Or.inl ⟨hpo, ha.trans hb.symm⟩
  · exact Or.inr (Or.inl hrf)
  · exact Or.inr (Or.inr (Or.inl hco))
  · obtain ⟨w, hw, hrf, hco, hne⟩ := (hc.fr_iff a.2 b.2).mp hfr
    exact Or.inr (Or.inr (Or.inr ⟨⟨w, hw⟩, hrf, hco, fun heq => hne (congrArg _ heq)⟩))

/-- An allowed execution is coherent at every location, although store-to-load
pairs and loads with one source are not in preserved program order. -/
theorem checkRvwmo_coherent {graph completed : ExecutionGraph}
    (haccepted : completeRvwmoRelations graph = .ok completed) {outcomes : List RvwmoOutcome}
    (hcheck : checkRvwmo completed = .ok outcomes) (hallowed : ∀ o ∈ outcomes, o.satisfied)
    (location : Finset Key) : Acyclic (coherenceEdge completed location) := by
  obtain ⟨⟨sources, hc⟩, -⟩ := completed_of_complete haccepted
  exact hc.coherent hcheck hallowed location

theorem pairGraph_coherent : ∃ completed, completeRvwmoRelations pairGraph = .ok completed ∧
    Acyclic (coherenceEdge completed {.num 8}) := by
  obtain ⟨completed, outcomes, haccepted, hcheck, hallowed⟩ := pairGraph_allowed
  exact ⟨completed, haccepted, checkRvwmo_coherent haccepted hcheck hallowed {.num 8}⟩

end Umcm
