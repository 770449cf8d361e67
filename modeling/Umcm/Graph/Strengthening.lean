import Umcm.Graph.OrderChoice

/-!
# More synchronization

Two graphs with the same operations up to their ordering annotations and the
same `rf`, `co` and `pair`, of which the second has more dependency, fence or
pipeline edges and more acquire, release or RCsc annotations.

* `Strengthened.ppo_mono`: the second preserves every edge the first preserves.
* `checkRvwmo_mono`: if the first is forbidden, the second is.
-/

namespace Umcm

open FinOrder Axiomatic Except

/-- The metadata that says how an operation is ordered. -/
def orderingKeys : List String := ["acquire", "release", "rcsc", "ordering"]

/-- `b` is the operation `a` with further annotations. -/
structure Annotates (a b : MemoryOperation) : Prop where
  id : b.id = a.id
  kind : b.kind = a.kind
  address : b.address = a.address
  value : b.value = a.value
  writeValue : b.writeValue = a.writeValue
  hart : b.hart = a.hart
  programIndex : b.programIndex = a.programIndex
  metadata : ∀ key, key ∉ orderingKeys → b.metadata.get? key = a.metadata.get? key
  acquire : acquire a → acquire b
  release : release a → release b
  rcsc : rcsc a → rcsc b

/-- The second graph has the operations of the first up to annotations, its
reads-from, coherence and pair edges, and no fewer input edges. -/
structure Strengthened (g g' : ExecutionGraph) : Prop where
  forward : ∀ a ∈ g.operations, ∃ b ∈ g'.operations, Annotates a b
  backward : ∀ b ∈ g'.operations, ∃ a ∈ g.operations, Annotates a b
  same : ∀ name ∈ ["rf", "co", "pair"], (g'.rel name).edges = (g.rel name).edges
  more : ∀ name ∈ ["addr", "data", "ctrl", "fence", "pipeline"],
    (g.rel name).edges ⊆ (g'.rel name).edges

/-! ## What annotations do not change -/

namespace Annotates

variable {a b c a' b' c' : MemoryOperation} (h : Annotates a a') (hb : Annotates b b')
  (hc : Annotates c c')
include h

theorem isRead : a'.isRead = a.isRead := by
  simp [MemoryOperation.isRead, h.kind]

theorem isWrite : a'.isWrite = a.isWrite := by
  simp [MemoryOperation.isWrite, h.kind]

theorem atomicKind : a'.atomicKind = a.atomicKind := by
  rw [MemoryOperation.atomicKind, MemoryOperation.atomicKind, h.kind,
    h.metadata "atomic_kind" (by decide)]

theorem footprint : footprint a' = Umcm.footprint a := by
  unfold Umcm.footprint addressFootprint
  rw [h.id, h.address, h.metadata "byte_addresses" (by decide), h.metadata "byte_mask" (by decide),
    h.metadata "size" (by decide)]

theorem footprintOf : footprintOf a' = Umcm.footprintOf a := by
  rw [Umcm.footprintOf, Umcm.footprintOf, h.footprint]

include hb

theorem overlap : Overlap a' b' ↔ Overlap a b := by
  rw [Overlap, Overlap, h.footprintOf, hb.footprintOf]

theorem sameLocation : SameLocation a' b' ↔ SameLocation a b := by
  rw [SameLocation, SameLocation, h.footprintOf, hb.footprintOf]

theorem poBefore : PoBefore a' b' ↔ PoBefore a b := by
  rw [PoBefore, PoBefore, h.hart, hb.hart, h.programIndex, hb.programIndex]

include hc

theorem between : Between a' b' c' ↔ Between a b c := by
  rw [Between, Between, h.poBefore hb, hb.poBefore hc]

end Annotates

/-! ## Preserved program order -/

/-- What the rules look at in the second graph. -/
structure StrengthenedContext (ctx ctx' : PpoContext) : Prop where
  forward : ∀ a ∈ ctx.operations, ∃ b ∈ ctx'.operations, Annotates a b
  backward : ∀ b ∈ ctx'.operations, ∃ a ∈ ctx.operations, Annotates a b
  addr : ctx.addr.edges ⊆ ctx'.addr.edges
  data : ctx.data.edges ⊆ ctx'.data.edges
  ctrl : ctx.ctrl.edges ⊆ ctx'.ctrl.edges
  fence : ctx.fence.edges ⊆ ctx'.fence.edges
  pair : ctx.pair.edges ⊆ ctx'.pair.edges
  pipeline : ctx.pipeline.edges ⊆ ctx'.pipeline.edges
  rfSources : ∀ id, ctx'.rfSources.get? id = ctx.rfSources.get? id

theorem Relation.joins_mono {r r' : Relation} (hr : r.edges ⊆ r'.edges)
    {a b a' b' : MemoryOperation} (ha : Annotates a a') (hb : Annotates b b')
    (h : r.joins a b = true) : r'.joins a' b' = true := by
  simp only [Relation.joins, decide_eq_true_eq] at h ⊢
  rw [ha.id, hb.id]
  exact hr h

namespace StrengthenedContext

variable {ctx ctx' : PpoContext} (hctx : StrengthenedContext ctx ctx')
  {a b a' b' : MemoryOperation} (ha : Annotates a a') (hb : Annotates b b')
include hctx

/-- Some operation of the second graph has what one of the first has. -/
theorem any_mono {p p' : MemoryOperation → Bool}
    (hp : ∀ m m', Annotates m m' → p m = true → p' m' = true)
    (h : ctx.operations.any p = true) : ctx'.operations.any p' = true := by
  obtain ⟨m, hm, hpm⟩ := List.any_eq_true.mp h
  obtain ⟨m', hm', ham⟩ := hctx.forward m hm
  exact List.any_eq_true.mpr ⟨m', hm', hp m m' ham hpm⟩

/-- Some operation of the first graph has what one of the second has. -/
theorem any_back {p p' : MemoryOperation → Bool}
    (hp : ∀ m m', Annotates m m' → p' m' = true → p m = true)
    (h : ctx'.operations.any p' = true) : ctx.operations.any p = true := by
  obtain ⟨m', hm', hpm⟩ := List.any_eq_true.mp h
  obtain ⟨m, hm, ham⟩ := hctx.backward m' hm'
  exact List.any_eq_true.mpr ⟨m, hm, hp m m' ham hpm⟩

include ha hb

omit hctx in
theorem rule1_mono (h : ppoRule1 a b = true) : ppoRule1 a' b' = true := by
  simp only [ppoRule1, Bool.and_eq_true, decide_eq_true_eq] at h ⊢
  exact ⟨hb.isWrite ▸ h.1, (ha.overlap hb).mpr h.2⟩

/-- The second graph has no further intervening stores. -/
theorem rule2_mono (h : ppoRule2 ctx a b = true) : ppoRule2 ctx' a' b' = true := by
  simp only [ppoRule2, Bool.and_eq_true, Bool.not_eq_true', decide_eq_true_eq] at h ⊢
  obtain ⟨⟨⟨⟨hread, hread'⟩, hoverlap⟩, hnone⟩, hsource⟩ := h
  refine ⟨⟨⟨⟨ha.isRead ▸ hread, hb.isRead ▸ hread'⟩, (ha.overlap hb).mpr hoverlap⟩, ?_⟩, ?_⟩
  · rw [← Bool.not_eq_true] at hnone ⊢
    intro hany
    apply hnone
    refine hctx.any_back ?_ hany
    intro m m' hm hmiddle
    simp only [Bool.and_eq_true, decide_eq_true_eq] at hmiddle ⊢
    rw [hm.isWrite, ha.between hm hb, ha.footprintOf, hb.footprintOf, hm.footprintOf] at hmiddle
    exact hmiddle
  · rw [hctx.rfSources, hctx.rfSources, ha.id, hb.id]
    exact hsource

theorem rule3_mono (h : ppoRule3 ctx a b = true) : ppoRule3 ctx' a' b' = true := by
  rw [ppoRule3, ha.atomicKind, hb.isRead, hctx.rfSources, ha.id, hb.id]
  exact h

omit hctx hb in
theorem rule5_mono (h : ppoRule5 a = true) : ppoRule5 a' = true := ha.acquire h

omit hctx ha in
theorem rule6_mono (h : ppoRule6 b = true) : ppoRule6 b' = true := hb.release h

omit hctx in
theorem rule7_mono (h : ppoRule7 a b = true) : ppoRule7 a' b' = true := by
  simp only [ppoRule7, Bool.and_eq_true] at h ⊢
  exact ⟨ha.rcsc h.1, hb.rcsc h.2⟩

theorem rule10_mono (h : ppoRule10 ctx a b = true) : ppoRule10 ctx' a' b' = true := by
  simp only [ppoRule10, Bool.and_eq_true] at h ⊢
  exact ⟨hb.isWrite ▸ h.1, Relation.joins_mono hctx.data ha hb h.2⟩

theorem rule11_mono (h : ppoRule11 ctx a b = true) : ppoRule11 ctx' a' b' = true := by
  simp only [ppoRule11, Bool.and_eq_true] at h ⊢
  exact ⟨hb.isWrite ▸ h.1, Relation.joins_mono hctx.ctrl ha hb h.2⟩

theorem rule12_mono (h : ppoRule12 ctx a b = true) : ppoRule12 ctx' a' b' = true := by
  simp only [ppoRule12, Bool.and_eq_true] at h ⊢
  refine ⟨hb.isRead ▸ h.1, hctx.any_mono ?_ h.2⟩
  intro m m' hm hmiddle
  simp only [Bool.and_eq_true, Bool.or_eq_true, decide_eq_true_eq] at hmiddle ⊢
  obtain ⟨⟨⟨hwrite, hbetween⟩, hsource⟩, hdep⟩ := hmiddle
  refine ⟨⟨⟨hm.isWrite ▸ hwrite, (ha.between hm hb).mpr hbetween⟩, ?_⟩, ?_⟩
  · rw [hctx.rfSources, hb.id, hm.id]
    exact hsource
  · rcases hdep with haddr | hdata
    · exact Or.inl (Relation.joins_mono hctx.addr ha hm haddr)
    · exact Or.inr (Relation.joins_mono hctx.data ha hm hdata)

theorem rule13_mono (h : ppoRule13 ctx a b = true) : ppoRule13 ctx' a' b' = true := by
  simp only [ppoRule13, Bool.and_eq_true, Bool.or_eq_true] at h ⊢
  refine ⟨hb.isWrite ▸ h.1, ?_⟩
  rcases h.2 with hpipeline | hmiddle
  · exact Or.inl (Relation.joins_mono hctx.pipeline ha hb hpipeline)
  · refine Or.inr (hctx.any_mono ?_ hmiddle)
    intro m m' hm hbetween
    simp only [Bool.and_eq_true, decide_eq_true_eq] at hbetween ⊢
    exact ⟨(ha.between hm hb).mpr hbetween.1, Relation.joins_mono hctx.addr ha hm hbetween.2⟩

/-- Every rule that applies in the first graph applies in the second. -/
theorem ppoRules_mono : List.Forall₂ (fun x y => x = true → y = true)
    (ppoRules ctx a b) (ppoRules ctx' a' b') := by
  refine .cons (rule1_mono ha hb) <| .cons (hctx.rule2_mono ha hb) <|
    .cons (hctx.rule3_mono ha hb) <| .cons (Relation.joins_mono hctx.fence ha hb) <|
    .cons (rule5_mono ha) <| .cons (rule6_mono hb) <| .cons (rule7_mono ha hb) <|
    .cons (Relation.joins_mono hctx.pair ha hb) <| .cons (Relation.joins_mono hctx.addr ha hb) <|
    .cons (hctx.rule10_mono ha hb) <| .cons (hctx.rule11_mono ha hb) <|
    .cons (hctx.rule12_mono ha hb) <| .cons (hctx.rule13_mono ha hb) .nil

theorem true_mem_ppoRules (h : true ∈ ppoRules ctx a b) : true ∈ ppoRules ctx' a' b' := by
  obtain ⟨index, hlt, hrule⟩ := List.getElem_of_mem h
  have hrules := hctx.ppoRules_mono ha hb
  have hlt' : index < (ppoRules ctx' a' b').length := hrules.length_eq ▸ hlt
  have hrule' := hrules.get hlt hlt' hrule
  exact List.mem_of_getElem hrule'

end StrengthenedContext

/-! ## Completed graphs -/

theorem Strengthened.completed {g g' c c' : ExecutionGraph} (hs : Strengthened g g')
    (h : completeRvwmoRelations g = .ok c) (h' : completeRvwmoRelations g' = .ok c') :
    Strengthened c c' := by
  obtain ⟨-, hops, -, hrels⟩ := completed_of_complete h
  obtain ⟨-, hops', -, hrels'⟩ := completed_of_complete h'
  have hrel : ∀ name ∈ ["rf", "co"] ++ rvwmoInputRelations, c.rel name = g.rel name ∧
      c'.rel name = g'.rel name := by
    intro name hname
    constructor
    · rw [ExecutionGraph.rel, relationOrEmpty, hrels name hname, ExecutionGraph.rel, relationOrEmpty]
    · rw [ExecutionGraph.rel, relationOrEmpty, hrels' name hname, ExecutionGraph.rel, relationOrEmpty]
  constructor
  · rw [hops, hops']
    exact hs.forward
  · rw [hops, hops']
    exact hs.backward
  · intro name hname
    obtain ⟨hc, hc'⟩ := hrel name (by revert name; decide)
    rw [hc, hc']
    exact hs.same name hname
  · intro name hname
    obtain ⟨hc, hc'⟩ := hrel name (by revert name; decide)
    rw [hc, hc']
    exact hs.more name hname

namespace Strengthened

variable {g g' : ExecutionGraph} {sources sources' : Dict String String}
  (hs : Strengthened g g') (hc : Completed g sources) (hc' : Completed g' sources')
include hs

/-- Edges that both graphs share join the same operations. -/
theorem related_iff {name : String} (hname : name ∈ ["rf", "co", "pair"])
    {a b a' b' : MemoryOperation} (ha : Annotates a a') (hb : Annotates b b') :
    g'.related name a' b' ↔ g.related name a b := by
  rw [ExecutionGraph.related, ExecutionGraph.related, hs.same name hname, ha.id, hb.id]

include hc hc'

theorem sources_eq (id : String) : sources'.get? id = sources.get? id := by
  apply Option.ext
  intro x
  rw [hc'.sources_get?_iff, hc.sources_get?_iff, hs.same "rf" (by decide)]

theorem context : StrengthenedContext (g.ppoContext sources) (g'.ppoContext sources') where
  forward := hs.forward
  backward := hs.backward
  addr := hs.more "addr" (by decide)
  data := hs.more "data" (by decide)
  ctrl := hs.more "ctrl" (by decide)
  fence := hs.more "fence" (by decide)
  pair := (hs.same "pair" (by decide)).ge
  pipeline := hs.more "pipeline" (by decide)
  rfSources := hs.sources_eq hc hc'

/-- What the first graph preserves, the second preserves. -/
theorem ppo_mono {a b a' b' : MemoryOperation} (ha : a ∈ g.operations) (hb : b ∈ g.operations)
    (ha' : a' ∈ g'.operations) (hb' : b' ∈ g'.operations) (haa : Annotates a a')
    (hbb : Annotates b b') (h : g.related "ppo" a b) : g'.related "ppo" a' b' := by
  rw [hc.ppo_iff ha hb] at h
  rw [hc'.ppo_iff ha' hb']
  exact ⟨(haa.poBefore hbb).mpr h.1, (hs.context hc hc').true_mem_ppoRules haa hbb h.2⟩

/-- An edge of the first graph's order relations is one of the second's. -/
theorem order_mono {a b : g.Op} {a' b' : g'.Op} (haa : Annotates a.1 a'.1) (hbb : Annotates b.1 b'.1)
    (h : g.toExecution.order a b) : g'.toExecution.order a' b' := by
  rcases h with hppo | ⟨hrf, hhart⟩ | hco | ⟨w, hrf, hco, hne⟩
  · exact Or.inl (hs.ppo_mono hc hc' a.2 b.2 a'.2 b'.2 haa hbb hppo)
  · have hhart' : a'.1.hart ≠ b'.1.hart := by
      rw [haa.hart, hbb.hart]
      exact hhart
    exact Or.inr (Or.inl ⟨(hs.related_iff (by decide) haa hbb).mpr hrf, hhart'⟩)
  · exact Or.inr (Or.inr (Or.inl ((hs.related_iff (by decide) haa hbb).mpr hco)))
  · obtain ⟨w', hw', hww⟩ := hs.forward w.1 w.2
    refine Or.inr (Or.inr (Or.inr ⟨⟨w', hw'⟩, (hs.related_iff (by decide) hww haa).mpr hrf,
      (hs.related_iff (by decide) hww hbb).mpr hco, ?_⟩))
    intro heq
    apply hne
    apply Subtype.ext
    apply g.op_ext b.2 a.2
    rw [← hbb.id, ← haa.id, heq]

theorem order_acyclic (h : Acyclic g'.toExecution.order) : Acyclic g.toExecution.order := by
  rw [hc'.order_acyclic_iff] at h
  rw [hc.order_acyclic_iff]
  refine h.mono ?_
  intro x y hxy
  obtain ⟨rel, hrel, he⟩ := mem_allEdges.mp hxy
  obtain ⟨name, -, rfl⟩ := List.mem_map.mp hrel
  obtain ⟨a, ha, b, hb, heq⟩ := g.rel_edge_ops he
  rw [Prod.mk.injEq] at heq
  obtain ⟨rfl, rfl⟩ := heq
  obtain ⟨a', ha', haa⟩ := hs.forward a ha
  obtain ⟨b', hb', hbb⟩ := hs.forward b hb
  have horder := (hc.order_iff ⟨a, ha⟩ ⟨b, hb⟩).mpr hxy
  have horder' := (hc'.order_iff ⟨a', ha'⟩ ⟨b', hb'⟩).mp (hs.order_mono hc hc' haa hbb horder)
  rwa [haa.id, hbb.id] at horder'

/-- The order-free part of the load-value axiom is the same for both graphs. -/
theorem settled (h : g'.toExecution.Settled) : g.toExecution.Settled := by
  intro w r hrf
  obtain ⟨w', hw', hww⟩ := hs.forward w.1 w.2
  obtain ⟨r', hr', hrr⟩ := hs.forward r.1 r.2
  obtain ⟨hnopo, hnewer⟩ := h ⟨w', hw'⟩ ⟨r', hr'⟩ ((hs.related_iff (by decide) hww hrr).mpr hrf)
  have hpo : ∀ {a b : g.Op} {a' b' : g'.Op}, Annotates a.1 a'.1 → Annotates b.1 b'.1 →
      g.related "po" a b → g'.related "po" a' b' := by
    intro a b a' b' haa hbb hab
    rw [hc.po_iff a.2 b.2] at hab
    rw [hc'.po_iff a'.2 b'.2]
    exact (haa.poBefore hbb).mpr hab
  constructor
  · intro hab
    exact hnopo (hpo (a := r) (b := w) hrr hww hab)
  · intro m hco hne hab
    obtain ⟨m', hm', hmm⟩ := hs.forward m.1 m.2
    refine hnewer ⟨m', hm'⟩ ((hs.related_iff (by decide) hww hmm).mpr hco) ?_
      (hpo (a := m) (b := r) hmm hrr hab)
    intro heq
    apply hne
    apply Subtype.ext
    apply g.op_ext m.2 r.2
    have hid : m'.id = r'.id := congrArg (fun op : g'.Op => op.1.id) heq
    rw [← hmm.id, ← hrr.id, hid]

/-! ## Atomicity -/

theorem pairOffense_eq {e : Edge} (he : e ∈ (g.rel "pair").edges) :
    pairOffense g'.operations (g'.rel "co") sources' e =
      pairOffense g.operations (g.rel "co") sources e := by
  obtain ⟨lr, hlr, sc, hsc, rfl⟩ := g.rel_edge_ops he
  obtain ⟨lr', hlr', hll⟩ := hs.forward lr hlr
  obtain ⟨sc', hsc', hss⟩ := hs.forward sc hsc
  have hends : endpoints g'.operations (lr.id, sc.id) = some (lr', sc') := by
    rw [← hll.id, ← hss.id]
    exact endpoints_of_mem g'.nodup hlr' hsc'
  have hany : ∀ source, g'.operations.any (fun write => write.isWrite && write.id ∉ [source, sc'.id] &&
        write.hart ≠ lr'.hart && Overlap write lr' && (source, write.id) ∈ (g'.rel "co").edges &&
        (write.id, sc'.id) ∈ (g'.rel "co").edges) =
      g.operations.any (fun write => write.isWrite && write.id ∉ [source, sc.id] &&
        write.hart ≠ lr.hart && Overlap write lr && (source, write.id) ∈ (g.rel "co").edges &&
        (write.id, sc.id) ∈ (g.rel "co").edges) := by
    intro source
    have hctx := hs.context hc hc'
    have hsame : ∀ m m', Annotates m m' →
        (m'.isWrite && m'.id ∉ [source, sc'.id] && m'.hart ≠ lr'.hart && Overlap m' lr' &&
          (source, m'.id) ∈ (g'.rel "co").edges && (m'.id, sc'.id) ∈ (g'.rel "co").edges) =
        (m.isWrite && m.id ∉ [source, sc.id] && m.hart ≠ lr.hart && Overlap m lr &&
          (source, m.id) ∈ (g.rel "co").edges && (m.id, sc.id) ∈ (g.rel "co").edges) := by
      intro m m' hm
      simp only [hm.isWrite, hm.id, hm.hart, hll.hart, hss.id, hm.overlap hll,
        hs.same "co" (by decide)]
    rw [Bool.eq_iff_iff]
    constructor
    · exact hctx.any_back (fun m m' hm h => (hsame m m' hm) ▸ h)
    · exact hctx.any_mono (fun m m' hm h => (hsame m m' hm).symm ▸ h)
  unfold pairOffense
  rw [hends, endpoints_of_mem g.nodup hlr hsc]
  simp only [hll.atomicKind, hss.atomicKind, hll.id, hs.sources_eq hc hc', hany]
  rw [hss.id, hs.same "co" (by decide)]

/-- The LR/SC check raises in neither or in both, and reports nothing in the
second graph only if it reports nothing in the first. -/
theorem lrScOffenses_ok {offenses : List Edge} (h : lrScOffenses g = .ok offenses) :
    ∃ offenses', lrScOffenses g' = .ok offenses' ∧ (offenses' = [] → offenses = []) := by
  have hpair := hs.same "pair" (by decide)
  have hedges : (relationOrEmpty g'.relations "pair").edges = (g.rel "pair").edges := hpair
  have hedges' : relationOrEmpty g.relations "pair" = g.rel "pair" := rfl
  unfold lrScOffenses at h ⊢
  simp only [hc.relation_ok "co" (by decide), hc.relation_ok "rf" (by decide), ok_bind, hc.rf,
    hedges', bind_eq_ok] at h
  obtain ⟨_, hsingle, broken, hbroken, h⟩ := h
  cases h
  have hbroken' : (sortedEdges (g.rel "pair").edges).mapM
      (pairOffense g'.operations (g'.rel "co") sources') = .ok broken := by
    rw [← hbroken]
    apply mapM_congr
    intro e he
    exact hs.pairOffense_eq hc hc' (mem_sortedEdges.mp he)
  simp only [hc'.relation_ok "co" (by decide), hc'.relation_ok "rf" (by decide), ok_bind, hc'.rf,
    hedges, hsingle, hbroken']
  refine ⟨_, rfl, ?_⟩
  rw [sortEdgeList_eq_nil, sortEdgeList_eq_nil, List.append_eq_nil_iff, List.append_eq_nil_iff,
    List.map_eq_nil_iff, List.map_eq_nil_iff]
  rintro ⟨hunpaired, hnone⟩
  refine ⟨?_, hnone⟩
  rw [List.filter_eq_nil_iff] at hunpaired ⊢
  intro sc hsc
  obtain ⟨hmem, hkind⟩ := List.mem_filter.mp hsc
  obtain ⟨sc', hsc', hss⟩ := hs.forward sc hmem
  have hkind' : decide (sc'.atomicKind = "sc") = true := by
    rw [hss.atomicKind]
    exact hkind
  have hunpaired' := hunpaired sc' (List.mem_filter.mpr ⟨hsc', hkind'⟩)
  rwa [hss.id] at hunpaired'

omit hc hc' in
theorem amo_atomic (h : ∀ a : g'.Op, a.1.atomicKind = "amo" → ∃ w : g'.Op, g'.related "rf" w a ∧
      g'.related "co" w a ∧ ∀ m : g'.Op, ¬ (g'.related "co" w m ∧ g'.related "co" m a)) :
    ∀ a : g.Op, a.1.atomicKind = "amo" → ∃ w : g.Op, g.related "rf" w a ∧ g.related "co" w a ∧
      ∀ m : g.Op, ¬ (g.related "co" w m ∧ g.related "co" m a) := by
  intro a hkind
  obtain ⟨a', ha', haa⟩ := hs.forward a.1 a.2
  obtain ⟨w', hrf, hco, hnone⟩ := h ⟨a', ha'⟩ (haa.atomicKind.trans hkind)
  obtain ⟨w, hw, hww⟩ := hs.backward w'.1 w'.2
  refine ⟨⟨w, hw⟩, (hs.related_iff (by decide) hww haa).mp hrf,
    (hs.related_iff (by decide) hww haa).mp hco, ?_⟩
  rintro m ⟨hwm, hma⟩
  obtain ⟨m', hm', hmm⟩ := hs.forward m.1 m.2
  exact hnone ⟨m', hm'⟩ ⟨(hs.related_iff (by decide) hww hmm).mpr hwm,
    (hs.related_iff (by decide) hmm haa).mpr hma⟩

end Strengthened

/-- The check returns an outcome that is not satisfied. -/
def Forbidden (g : ExecutionGraph) : Prop :=
  ∃ outcomes, checkRvwmo g = .ok outcomes ∧ ∃ o ∈ outcomes, o.satisfied = false

theorem not_satisfied_iff {outcomes : List RvwmoOutcome} :
    (∃ o ∈ outcomes, o.satisfied = false) ↔ ¬ ∀ o ∈ outcomes, o.satisfied = true := by
  simp only [not_forall, Bool.not_eq_true, exists_prop]

/-- More dependencies, fences and annotations preserve more of program order,
and never make a forbidden execution allowed. -/
theorem checkRvwmo_mono {g g' c c' : ExecutionGraph} (h : completeRvwmoRelations g = .ok c)
    (h' : completeRvwmoRelations g' = .ok c') (hs : Strengthened g g') :
    (c.rel "ppo").edges ⊆ (c'.rel "ppo").edges ∧ (Forbidden c → Forbidden c') := by
  obtain ⟨⟨sources, hc⟩, -⟩ := completed_of_complete h
  obtain ⟨⟨sources', hc'⟩, -⟩ := completed_of_complete h'
  have hs := hs.completed h h'
  constructor
  · intro e he
    obtain ⟨a, ha, b, hb, rfl⟩ := c.rel_edge_ops he
    obtain ⟨a', ha', haa⟩ := hs.forward a ha
    obtain ⟨b', hb', hbb⟩ := hs.forward b hb
    have hppo := hs.ppo_mono hc hc' ha hb ha' hb' haa hbb he
    rwa [ExecutionGraph.related, haa.id, hbb.id] at hppo
  · rintro ⟨outcomes, hcheck, hforbidden⟩
    rw [not_satisfied_iff] at hforbidden
    have hsteps := hcheck
    simp only [checkRvwmo, bind_eq_ok] at hsteps
    obtain ⟨_, -, _, -, _, -, lrSc, hlrSc, -⟩ := hsteps
    obtain ⟨lrSc', hlrSc', hlrScNil⟩ := hs.lrScOffenses_ok hc hc' hlrSc
    obtain ⟨load, hload, hloadIff⟩ := hc.loadValueOffenses_settled
    obtain ⟨load', hload', hloadIff'⟩ := hc'.loadValueOffenses_settled
    obtain ⟨amo, hamo, hamoIff⟩ := hc.amoOffenses_eq
    obtain ⟨amo', hamo', hamoIff'⟩ := hc'.amoOffenses_eq
    obtain ⟨outcomes₁, hcheck₁, hiff⟩ := checkRvwmo_ok hc hload hamo hlrSc
    obtain ⟨outcomes', hcheck', hiff'⟩ := checkRvwmo_ok hc' hload' hamo' hlrSc'
    rw [hcheck] at hcheck₁
    cases hcheck₁
    refine ⟨outcomes', hcheck', not_satisfied_iff.mpr ?_⟩
    intro hallowed
    apply hforbidden
    obtain ⟨hacyclic', hloadNil', hamoNil', hlrScNil'⟩ := hiff'.mp hallowed
    have hacyclic := hs.order_acyclic hc hc' hacyclic'
    have hsettled := hs.settled hc hc' ((hloadIff' hacyclic').mp hloadNil')
    have hatomic := hs.amo_atomic (hamoIff'.mp hamoNil')
    exact hiff.mpr ⟨hacyclic, (hloadIff hacyclic).mpr hsettled, hamoIff.mpr hatomic,
      hlrScNil hlrScNil'⟩

/-! ## Message passing -/

theorem initial_writeValue : OperationKind.initWrite = .amo → Value.none ≠ .none := by decide

theorem initial_placed :
    OperationKind.initWrite ≠ .initWrite → (none : Option Int) ≠ none ∧ (none : Option Int) ≠ none :=
  by decide

theorem initial_committed : OperationKind.initWrite = .read ∨ OperationKind.initWrite = .amo →
    "" ≠ "" := by decide

def initialZero (id : String) (address : Int) (hid : id ≠ "") : MemoryOperation where
  id := id
  kind := .initWrite
  address := .int address
  value := .int 0
  writeValue := .none
  hart := none
  programIndex := none
  sourceEventId := id
  commitEventId := ""
  metadata := .empty
  id_ne := hid
  amo_writeValue := initial_writeValue
  placed := initial_placed
  committed := initial_committed

def access (id : String) (kind : OperationKind) (address value hart index : Int)
    (metadata : Dict String MetaValue) (hid : id ≠ "") (hkind : kind ≠ .amo) : MemoryOperation where
  id := id
  kind := kind
  address := .int address
  value := .int value
  writeValue := .none
  hart := some hart
  programIndex := some index
  sourceEventId := id
  commitEventId := id
  metadata := metadata
  id_ne := hid
  amo_writeValue := fun h => absurd h hkind
  placed := fun _ => ⟨Option.some_ne_none hart, Option.some_ne_none index⟩
  committed := fun _ => hid

/-- Data and flag are written by one hart; the other sees the flag but old data. -/
def messageOperations (flagMetadata : Dict String MetaValue) : List MemoryOperation :=
  [ initialZero "ix" 8 (by decide), initialZero "iy" 16 (by decide),
    access "wx" .write 8 1 0 0 .empty (by decide) (by decide),
    access "wy" .write 16 1 0 1 .empty (by decide) (by decide),
    access "ry" .read 16 1 1 0 flagMetadata (by decide) (by decide),
    access "rx" .read 8 0 1 1 .empty (by decide) (by decide) ]

/-- Fences between the writes and between the reads. -/
def fencedMessage : ExecutionGraph where
  operations := messageOperations .empty
  relations := .ofList
    [("rf", { name := "rf", edges := {("wy", "ry"), ("ix", "rx")} }),
      ("co", { name := "co", edges := {("ix", "wx"), ("iy", "wy")} }),
      ("fence", { name := "fence", edges := {("wx", "wy"), ("ry", "rx")} })]
  candidateId := 0
  metadata :=
    { graphModel := none, rfAssignment := [], coOrders := .empty, builtinModel := none
      gmoOrder := none }
  nodup := by decide
  named := by decide
  known := by decide

/-- The read of the flag is also an acquire, on which the read of the data depends. -/
def acquiredMessage : ExecutionGraph where
  operations := messageOperations (.ofList [("acquire", .scalar (.bool true))])
  relations := .ofList
    [("rf", { name := "rf", edges := {("wy", "ry"), ("ix", "rx")} }),
      ("co", { name := "co", edges := {("ix", "wx"), ("iy", "wy")} }),
      ("fence", { name := "fence", edges := {("wx", "wy"), ("ry", "rx")} }),
      ("addr", { name := "addr", edges := {("ry", "rx")} })]
  candidateId := 0
  metadata :=
    { graphModel := none, rfAssignment := [], coOrders := .empty, builtinModel := none
      gmoOrder := none }
  nodup := by decide
  named := by decide
  known := by decide

theorem Annotates.refl (a : MemoryOperation) : Annotates a a :=
  ⟨rfl, rfl, rfl, rfl, rfl, rfl, rfl, fun _ _ => rfl, fun h => h, fun h => h, fun h => h⟩

theorem annotates_flag : List.Forall₂ Annotates (messageOperations .empty)
    (messageOperations (.ofList [("acquire", .scalar (.bool true))])) := by
  refine .cons (.refl _) <| .cons (.refl _) <| .cons (.refl _) <| .cons (.refl _) <|
    .cons ?_ <| .cons (.refl _) .nil
  constructor
  case metadata =>
    intro key hkey
    have hne : key ≠ "acquire" := by
      rintro rfl
      exact hkey (by decide)
    exact Dict.get?_insert_of_ne .empty hne _
  all_goals decide

theorem strengthened_message : Strengthened fencedMessage acquiredMessage where
  forward _ ha := exists_right_of_forall₂ annotates_flag ha
  backward _ hb := exists_left_of_forall₂ annotates_flag hb
  same := by decide +kernel
  more := by decide +kernel

/-- The fences forbid the outcome, so it stays forbidden. -/
theorem acquiredMessage_forbidden : ∃ c c', completeRvwmoRelations fencedMessage = .ok c ∧
    completeRvwmoRelations acquiredMessage = .ok c' ∧
    (c.rel "ppo").edges ⊆ (c'.rel "ppo").edges ∧ Forbidden c' := by
  have h : (do
      let c ← completeRvwmoRelations fencedMessage
      let _ ← completeRvwmoRelations acquiredMessage
      let outcomes ← checkRvwmo c
      return outcomes.any (fun o => !o.satisfied) : Except PyError Bool) = .ok true := by
    decide +kernel
  obtain ⟨c, hc, h⟩ := bind_eq_ok.mp h
  obtain ⟨c', hc', h⟩ := bind_eq_ok.mp h
  obtain ⟨outcomes, hcheck, h⟩ := bind_eq_ok.mp h
  have hforbidden : Forbidden c := ⟨outcomes, hcheck, by simpa [pure, Except.pure] using h⟩
  obtain ⟨hppo, hmono⟩ := checkRvwmo_mono hc hc' strengthened_message
  exact ⟨c, c', hc, hc', hppo, hmono hforbidden⟩

end Umcm
