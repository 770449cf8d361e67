import Umcm.Graph.Completed

/-!
# Completed graphs as axiomatic executions

The execution a completed graph stands for, and that it is well formed: the
checks that `completeRvwmoRelations` makes are the structural conditions of
`Axiomatic.Execution.WellFormed`, and rules 1 and 2 of preserved program order
are what coherence needs.
-/

namespace Umcm

open FinOrder Axiomatic

/-- Two operations are related by a relation of the graph. -/
def ExecutionGraph.related (g : ExecutionGraph) (name : String) (a b : MemoryOperation) : Prop :=
  (a.id, b.id) ∈ (g.rel name).edges

/-- The candidate execution a graph stands for. -/
def ExecutionGraph.toExecution (g : ExecutionGraph) :
    Execution g.Op (Finset Key) (Option Int) where
  isRead a := a.1.isRead
  isWrite a := a.1.isWrite
  loc a := footprintOf a.1
  hart a := a.1.hart
  po a b := g.related "po" a b
  ppo a b := g.related "ppo" a b
  rf a b := g.related "rf" a b
  co a b := g.related "co" a b

/-- An edge of a relation of the graph joins two operations of the graph. -/
theorem ExecutionGraph.rel_edge_ops (g : ExecutionGraph) {name : String} {e : Edge}
    (he : e ∈ (g.rel name).edges) :
    ∃ a ∈ g.operations, ∃ b ∈ g.operations, e = (a.id, b.id) := by
  cases hget : g.relations.get? name with
  | none =>
      rw [ExecutionGraph.rel, relationOrEmpty, hget] at he
      simp at he
  | some r =>
      rw [ExecutionGraph.rel, relationOrEmpty_of_get? hget] at he
      exact g.edge_ops hget he

/-- The sources are recorded once for each read. -/
theorem rfSources_pairs {operations : List MemoryOperation} {rf : Relation}
    {sources : Dict String String} (hnd : (operations.map MemoryOperation.id).Nodup)
    (hsources : rfSources operations rf = .ok sources) :
    ∃ pairs : List (String × String), sources = Dict.ofList pairs ∧
      pairs.map Prod.fst = (operations.filter MemoryOperation.isRead).map MemoryOperation.id ∧
      (pairs.map Prod.fst).Nodup ∧
      ∀ r ∈ operations, r.isRead → ∃ source, (r.id, source) ∈ pairs ∧
        rfIncoming rf r.id = [source] := by
  obtain ⟨_, -, h⟩ := Except.bind_eq_ok.mp hsources
  obtain ⟨pairs, hpairs, h⟩ := Except.bind_eq_ok.mp h
  cases h
  have hsource : ∀ {op p}, rfSource rf op = .ok p →
      p.1 = op.id ∧ rfIncoming rf op.id = [p.2] := by
    intro op p hp
    unfold rfSource at hp
    split at hp
    · cases hp
      exact ⟨rfl, by assumption⟩
    · cases hp
  have hkeys : pairs.map Prod.fst = (operations.filter MemoryOperation.isRead).map
      MemoryOperation.id := Except.map_mapM hpairs (fun hp => (hsource hp).1)
  have hnodup : (pairs.map Prod.fst).Nodup := by
    rw [hkeys]
    exact hnd.sublist (List.Sublist.map _ List.filter_sublist)
  refine ⟨pairs, rfl, hkeys, hnodup, ?_⟩
  intro r hr hread
  obtain ⟨⟨id, source⟩, hmem, hp⟩ :=
    Except.mapM_result hpairs (List.mem_filter.mpr ⟨hr, hread⟩)
  obtain ⟨hid, hincoming⟩ := hsource hp
  simp only at hid hincoming
  subst hid
  exact ⟨source, hmem, hincoming⟩

namespace Completed

variable {g : ExecutionGraph} {sources : Dict String String} (hc : Completed g sources)
  {a b w r : MemoryOperation}
include hc

/-! ## Program order -/

theorem po_iff (ha : a ∈ g.operations) (hb : b ∈ g.operations) :
    g.related "po" a b ↔ PoBefore a b := by
  rw [ExecutionGraph.related, mem_programOrder g.nodup hc.po]
  constructor
  · rintro ⟨a', ha', b', hb', hab, heq⟩
    rw [Prod.mk.injEq] at heq
    rw [g.op_ext ha ha' heq.1, g.op_ext hb hb' heq.2]
    exact hab
  · intro hab
    exact ⟨a, ha, b, hb, hab, rfl⟩

theorem po_total (ha : a ∈ g.operations) (hr : r ∈ g.operations) (hh : a.hart = r.hart)
    (hread : r.isRead) (hne : a ≠ r) : g.related "po" a r ∨ g.related "po" r a := by
  obtain ⟨hart, hhart⟩ := MemoryOperation.hart_of_isRead hread
  rw [hc.po_iff ha hr, hc.po_iff hr ha]
  exact programOrder_total g.nodup hc.po ha hr hh (by simp [hh, hhart]) hne

/-! ## Reads-from -/

/-- What `_rf_sources` checks of one edge. -/
theorem rf_edge (hw : w ∈ g.operations) (hr : r ∈ g.operations) (h : g.related "rf" w r) :
    w.isWrite ∧ r.isRead ∧ w ≠ r ∧ SameLocation w r := by
  obtain ⟨_, hedges, -⟩ := Except.bind_eq_ok.mp hc.rf
  have hedge := Except.forM_eq_ok.mp hedges _ (mem_sortedEdges.mpr h)
  simp only [validateRfEdge, endpoints_of_mem g.nodup hw hr, Except.bind_eq_ok,
    Except.require_eq_ok] at hedge
  obtain ⟨-, ⟨hwrite, hread, hne⟩, -, hloc, -⟩ := hedge
  exact ⟨hwrite, hread, fun heq => hne (congrArg _ heq), hloc⟩

/-- The recorded source of a read is its only reads-from source. -/
theorem rf_source (hr : r ∈ g.operations) (hread : r.isRead) :
    ∃ w ∈ g.operations, g.related "rf" w r ∧ sources.get? r.id = some w.id ∧
      ∀ w' ∈ g.operations, g.related "rf" w' r → w' = w := by
  obtain ⟨pairs, rfl, -, hnd, hpairs⟩ := rfSources_pairs g.nodup hc.rf
  obtain ⟨source, hmem, hincoming⟩ := hpairs r hr hread
  have hin : ∀ x, (x, r.id) ∈ (g.rel "rf").edges ↔ x = source := by
    intro x
    have hx : x ∈ rfIncoming (g.rel "rf") r.id ↔ (x, r.id) ∈ (g.rel "rf").edges := by
      simp [rfIncoming]
    rw [← hx, hincoming, List.mem_singleton]
  obtain ⟨w, hw, r', hr', heq⟩ := g.rel_edge_ops ((hin source).mpr rfl)
  rw [Prod.mk.injEq] at heq
  refine ⟨w, hw, ?_, ?_, ?_⟩
  · exact (hin w.id).mpr heq.1.symm
  · rw [Dict.get?_ofList_of_mem hnd hmem, heq.1]
  · intro w' hw' h'
    exact g.op_ext hw' hw (((hin w'.id).mp h').trans heq.1)

theorem rf_unique (hr : r ∈ g.operations) {w' : MemoryOperation} (hw : w ∈ g.operations)
    (hw' : w' ∈ g.operations) (h : g.related "rf" w r) (h' : g.related "rf" w' r) : w = w' := by
  obtain ⟨w₀, -, -, -, honly⟩ := hc.rf_source hr (hc.rf_edge hw hr h).2.1
  rw [honly w hw h, honly w' hw' h']

theorem sources_get (hw : w ∈ g.operations) (hr : r ∈ g.operations) (h : g.related "rf" w r) :
    sources.get? r.id = some w.id := by
  obtain ⟨w₀, -, -, hget, honly⟩ := hc.rf_source hr (hc.rf_edge hw hr h).2.1
  rw [hget, honly w hw h]

/-- The recorded sources are the reads-from edges. -/
theorem sources_get?_iff {id x : String} :
    sources.get? id = some x ↔ (x, id) ∈ (g.rel "rf").edges := by
  constructor
  · intro hget
    obtain ⟨pairs, hsources, hkeys, hnd, -⟩ := rfSources_pairs g.nodup hc.rf
    have hmem : id ∈ pairs.map Prod.fst := by
      rw [hsources, Dict.get?_eq_some_iff, Dict.entries_ofList hnd] at hget
      exact List.mem_map_of_mem (f := Prod.fst) hget
    rw [hkeys] at hmem
    obtain ⟨r, hr, rfl⟩ := List.mem_map.mp hmem
    obtain ⟨hr, hread⟩ := List.mem_filter.mp hr
    obtain ⟨w, hw, hrf, hget', -⟩ := hc.rf_source hr hread
    rw [hget'] at hget
    cases hget
    exact hrf
  · intro hedge
    obtain ⟨w, hw, r, hr, heq⟩ := g.rel_edge_ops hedge
    rw [Prod.mk.injEq] at heq
    rw [heq.1, heq.2] at hedge ⊢
    exact hc.sources_get hw hr hedge

/-! ## Coherence order -/

theorem co_valid :
    (∀ e ∈ (g.rel "co").edges, validateCoEdge g.operations e = .ok ()) ∧
    (∀ p ∈ orderedPairs (g.operations.filter MemoryOperation.isWrite),
      validateCoPair (g.rel "co") p.1 p.2 = .ok ()) ∧
    findLabeledCycle [g.rel "co"] = none := by
  have h := hc.co
  simp only [validateCo, Except.bind_eq_ok, Except.require_eq_ok] at h
  obtain ⟨_, hedges, _, hpairs, _, hcycle, -⟩ := h
  exact ⟨fun e he => Except.forM_eq_ok.mp hedges e (mem_sortedEdges.mpr he),
    Except.forM_eq_ok.mp hpairs, hcycle⟩

/-- An initial write is first in coherence order. -/
theorem co_of_initial (hw : w ∈ g.operations) (hb : b ∈ g.operations) (hinit : w.kind = .initWrite)
    (hwrite : b.isWrite) (hne : b ≠ w) (hloc : SameLocation w b) : g.related "co" w b := by
  have h := hc.co
  simp only [validateCo, Except.bind_eq_ok, Except.require_eq_ok] at h
  obtain ⟨_, -, _, -, _, -, hinits⟩ := h
  have hwmem : w ∈ g.operations.filter MemoryOperation.isWrite := by
    rw [List.mem_filter]
    exact ⟨hw, by simp [MemoryOperation.isWrite, hinit]⟩
  have hwrites := Except.forM_eq_ok.mp hinits w
    (List.mem_filter.mpr ⟨hwmem, by simpa using hinit⟩)
  have hrequired := Except.forM_eq_ok.mp hwrites b (List.mem_filter.mpr ⟨hb, hwrite⟩)
  exact Except.require_eq_ok.mp hrequired (fun heq => hne (g.op_ext hb hw heq)) hloc

theorem co_edge (ha : a ∈ g.operations) (hb : b ∈ g.operations) (h : g.related "co" a b) :
    a.isWrite ∧ b.isWrite ∧ a ≠ b ∧ SameLocation a b := by
  have hedge := hc.co_valid.1 _ h
  simp only [validateCoEdge, endpoints_of_mem g.nodup ha hb, Except.require_eq_ok] at hedge
  obtain ⟨hwa, hwb, hne, hloc⟩ := hedge
  exact ⟨hwa, hwb, fun heq => hne (congrArg _ heq), hloc⟩

theorem co_total (ha : a ∈ g.operations) (hb : b ∈ g.operations) (hwa : a.isWrite)
    (hwb : b.isWrite) (hloc : SameLocation a b) (hne : a ≠ b) :
    g.related "co" a b ∨ g.related "co" b a := by
  have hpair := hc.co_valid.2.1
  unfold ExecutionGraph.related
  rcases orderedPairs_total (List.mem_filter.mpr ⟨ha, hwa⟩) (List.mem_filter.mpr ⟨hb, hwb⟩) hne
    with h | h
  · have hiff := Except.require_eq_ok.mp (hpair _ h) hloc
    tauto
  · have hiff := Except.require_eq_ok.mp (hpair _ h) hloc.symm
    tauto

theorem co_acyclic : Acyclic (fun a b : g.Op => g.related "co" a b) := by
  have h := (findLabeledCycle_eq_none_iff _).mp hc.co_valid.2.2
  have hco : Acyclic (fun x y => (x, y) ∈ (g.rel "co").edges) := h.mono (by simp)
  intro a ha
  exact hco a.1.id (Relation.TransGen.lift (fun a : g.Op => a.1.id) (fun _ _ hab => hab) _ _ ha)

/-! ## Derived relations -/

theorem rfe_iff (ha : a ∈ g.operations) (hb : b ∈ g.operations) :
    g.related "rfe" a b ↔ g.related "rf" a b ∧ a.hart ≠ b.hart := by
  have hsame : sameHart g.operations (a.id, b.id) = decide (a.hart = b.hart) := by
    simp [sameHart, endpoints_of_mem g.nodup ha hb]
  unfold ExecutionGraph.related
  rw [hc.rfe, rfeOf, rfiOf, Finset.mem_sdiff, Finset.mem_filter, hsame, decide_eq_true_eq]
  tauto

theorem fr_iff (ha : a ∈ g.operations) (hb : b ∈ g.operations) :
    g.related "fr" a b ↔
      ∃ w ∈ g.operations, g.related "rf" w a ∧ g.related "co" w b ∧ b ≠ a := by
  have hne : b.id ≠ a.id ↔ b ≠ a :=
    ⟨fun h heq => h (congrArg _ heq), fun h heq => h (g.op_ext hb ha heq)⟩
  unfold ExecutionGraph.related
  rw [hc.fr, frOf]
  simp only [Finset.mem_biUnion, Finset.mem_image, Finset.mem_filter, mem_targetsOf, Prod.mk.injEq]
  constructor
  · rintro ⟨⟨x, y⟩, hrf, later, ⟨hco, hlater⟩, rfl, rfl⟩
    obtain ⟨w, hw, _, _, heq⟩ := g.rel_edge_ops hrf
    rw [Prod.mk.injEq] at heq
    obtain ⟨rfl, -⟩ := heq
    exact ⟨w, hw, hrf, hco, hne.mp hlater⟩
  · rintro ⟨w, -, hrf, hco, hba⟩
    exact ⟨(w.id, a.id), hrf, b.id, ⟨hco, hne.mpr hba⟩, rfl, rfl⟩

/-- Preserved program order is the program-order edges that some rule preserves. -/
theorem ppo_iff (ha : a ∈ g.operations) (hb : b ∈ g.operations) :
    g.related "ppo" a b ↔ PoBefore a b ∧ true ∈ ppoRules (g.ppoContext sources) a b := by
  have hpreserved : ∀ index, preserved (g.ppoContext sources) index (a.id, b.id) =
      (ppoRules (g.ppoContext sources) a b)[index]?.getD false := by
    intro index
    have hends : endpoints (g.ppoContext sources).operations (a.id, b.id) = some (a, b) :=
      endpoints_of_mem g.nodup ha hb
    simp [preserved, hends, hc.regular a ha, hc.regular b hb]
  unfold ExecutionGraph.related
  rw [hc.ppo, ← ExecutionGraph.related, hc.po_iff ha hb]
  simp only [hpreserved]
  refine and_congr_right (fun _ => ?_)
  constructor
  · rintro ⟨index, hlt, hrule⟩
    have hlen : index < (ppoRules (g.ppoContext sources) a b).length := hlt
    rw [List.getElem?_eq_getElem hlen, Option.getD_some] at hrule
    exact hrule ▸ List.getElem_mem hlen
  · intro hmem
    obtain ⟨index, hlen, hrule⟩ := List.getElem_of_mem hmem
    exact ⟨index, hlen, by rw [List.getElem?_eq_getElem hlen, Option.getD_some, hrule]⟩

theorem overlap_of_same (ha : a ∈ g.operations) (hb : b ∈ g.operations) (hab : PoBefore a b)
    (hloc : SameLocation a b) : Overlap a b := by
  refine (hc.scalar.overlap_iff ha hb ?_).mpr hloc
  rintro rfl
  exact PoBefore.irrefl a hab

/-- Rule 1. -/
theorem ppo_store (ha : a ∈ g.operations) (hb : b ∈ g.operations) (hpo : g.related "po" a b)
    (hloc : SameLocation a b) (hwrite : b.isWrite) : g.related "ppo" a b := by
  have hab := (hc.po_iff ha hb).mp hpo
  rw [hc.ppo_iff ha hb]
  have hrule : ppoRule1 a b = true := by
    simp [ppoRule1, hwrite, hc.overlap_of_same ha hb hab hloc]
  exact ⟨hab, by simp [ppoRules, hrule]⟩

/-- Rule 2. -/
theorem ppo_loads {w' : MemoryOperation} (ha : a ∈ g.operations) (hb : b ∈ g.operations)
    (hw : w ∈ g.operations) (hw' : w' ∈ g.operations) (hpo : g.related "po" a b)
    (hloc : SameLocation a b) (hrf : g.related "rf" w a) (hrf' : g.related "rf" w' b) (hne : w ≠ w')
    (hbetween : ∀ m ∈ g.operations, m.isWrite → SameLocation m a → g.related "po" a m →
      ¬ g.related "po" m b) : g.related "ppo" a b := by
  have hab := (hc.po_iff ha hb).mp hpo
  rw [hc.ppo_iff ha hb]
  have hsource : sources.get? a.id ≠ sources.get? b.id := by
    rw [hc.sources_get hw ha hrf, hc.sources_get hw' hb hrf']
    intro heq
    exact hne (g.op_ext hw hw' (Option.some.inj heq))
  have hnone : g.operations.any (fun middle => middle.isWrite && Between a middle b &&
      ((footprintOf a ∩ footprintOf b) ∩ footprintOf middle).Nonempty) = false := by
    rw [List.any_eq_false]
    intro m hm hcond
    simp only [Bool.and_eq_true, decide_eq_true_eq] at hcond
    obtain ⟨⟨hwrite, ham, hmb⟩, hcommon⟩ := hcond
    have hne' : m ≠ a := by
      rintro rfl
      exact PoBefore.irrefl m ham
    have hsame : SameLocation m a := by
      refine (hc.scalar.overlap_iff hm ha hne').mp (hcommon.mono ?_)
      intro byte hbyte
      simp only [Finset.mem_inter] at hbyte ⊢
      exact ⟨hbyte.2, hbyte.1.1⟩
    exact hbetween m hm hwrite hsame ((hc.po_iff ha hm).mpr ham) ((hc.po_iff hm hb).mpr hmb)
  have hrule : ppoRule2 (g.ppoContext sources) a b = true := by
    have hra := (hc.rf_edge hw ha hrf).2.1
    have hrb := (hc.rf_edge hw' hb hrf').2.1
    simp only [ppoRule2, Bool.and_eq_true, Bool.not_eq_true', decide_eq_true_eq]
    exact ⟨⟨⟨⟨hra, hrb⟩, hc.overlap_of_same ha hb hab hloc⟩, hnone⟩, hsource⟩
  exact ⟨hab, by simp [ppoRules, hrule]⟩

/-! ## The execution -/

/-- A completed graph is a well-formed candidate execution. -/
theorem wellFormed : g.toExecution.WellFormed where
  read_or_write a := a.1.read_or_write
  po_irrefl a h := PoBefore.irrefl a.1 ((hc.po_iff a.2 a.2).mp h)
  po_trans {a b c} hab hbc := (hc.po_iff a.2 c.2).mpr
    (((hc.po_iff a.2 b.2).mp hab).trans ((hc.po_iff b.2 c.2).mp hbc))
  po_hart {a b} h := ((hc.po_iff a.2 b.2).mp h).1
  po_total {a r} hh hread hne := hc.po_total a.2 r.2 hh hread (fun heq => hne (Subtype.ext heq))
  ppo_store {a b} hpo hloc hwrite := hc.ppo_store a.2 b.2 hpo hloc hwrite
  rf_write {w r} h := (hc.rf_edge w.2 r.2 h).1
  rf_read {w r} h := (hc.rf_edge w.2 r.2 h).2.1
  rf_ne {w r} h heq := (hc.rf_edge w.2 r.2 h).2.2.1 (congrArg _ heq)
  rf_loc {w r} h := (hc.rf_edge w.2 r.2 h).2.2.2
  rf_unique {w w' r} h h' := Subtype.ext (hc.rf_unique r.2 w.2 w'.2 h h')
  rf_exists {r} hread := by
    obtain ⟨w, hw, hrf, -⟩ := hc.rf_source r.2 hread
    exact ⟨⟨w, hw⟩, hrf⟩
  co_source {a b} h := (hc.co_edge a.2 b.2 h).1
  co_target {a b} h := (hc.co_edge a.2 b.2 h).2.1
  co_loc {a b} h := (hc.co_edge a.2 b.2 h).2.2.2
  co_total {a b} hwa hwb hloc hne := hc.co_total a.2 b.2 hwa hwb hloc
    (fun heq => hne (Subtype.ext heq))
  co_acyclic := hc.co_acyclic

theorem loadLoadPreserved : Execution.LoadLoadPreserved g.toExecution := by
  intro a b w w' hpo hloc hrf hrf' hne hbetween
  refine hc.ppo_loads a.2 b.2 w.2 w'.2 hpo hloc hrf hrf' (fun heq => hne (Subtype.ext heq)) ?_
  intro m hm hwrite hsame ham
  exact hbetween ⟨m, hm⟩ hwrite hsame ham

/-! ## The order relations -/

theorem order_iff (a b : g.Op) :
    g.toExecution.order a b ↔ (a.1.id, b.1.id) ∈ allEdges (rvwmoOrderRelations.map g.rel) := by
  have hrfe : g.related "rfe" a.1 b.1 ↔ g.toExecution.rfe a b := hc.rfe_iff a.2 b.2
  have hfr : g.related "fr" a.1 b.1 ↔ g.toExecution.fr a b := by
    rw [hc.fr_iff a.2 b.2]
    constructor
    · rintro ⟨w, hw, hrf, hco, hne⟩
      exact ⟨⟨w, hw⟩, hrf, hco, fun heq => hne (congrArg _ heq)⟩
    · rintro ⟨w, hrf, hco, hne⟩
      exact ⟨w.1, w.2, hrf, hco, fun heq => hne (Subtype.ext heq)⟩
  rw [Execution.order, ← hrfe, ← hfr]
  simp only [mem_allEdges, rvwmoOrderRelations, List.map_cons, List.map_nil, List.exists_mem_cons_iff,
    List.not_mem_nil, false_and, exists_false, or_false]
  rfl

theorem order_acyclic_iff : Acyclic g.toExecution.order ↔
    Acyclic (fun x y => (x, y) ∈ allEdges (rvwmoOrderRelations.map g.rel)) := by
  have hinj : Function.Injective (fun a : g.Op => a.1.id) :=
    fun a b h => Subtype.ext (g.op_ext a.2 b.2 h)
  rw [← acyclic_preimage_iff hinj ?_]
  · have hiff : g.toExecution.order =
        fun a b : g.Op => (a.1.id, b.1.id) ∈ allEdges (rvwmoOrderRelations.map g.rel) := by
      funext a b
      exact propext (hc.order_iff a b)
    rw [hiff]
  · intro x y hxy
    obtain ⟨rel, hrel, he⟩ := mem_allEdges.mp hxy
    obtain ⟨name, -, rfl⟩ := List.mem_map.mp hrel
    obtain ⟨a, ha, b, hb, heq⟩ := g.rel_edge_ops he
    rw [Prod.mk.injEq] at heq
    exact ⟨⟨a, ha⟩, ⟨b, hb⟩, heq⟩

end Completed

end Umcm
