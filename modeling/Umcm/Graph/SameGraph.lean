import Umcm.Graph.Checker
import Umcm.Graph.RvwmoCheck

/-!
# Graphs with the same operations and relations

The order in which a graph lists its operations is invisible: the built-in
model completes two such graphs to two such graphs, and checks them with the
same results.

* `completeRvwmoRelations_same`: completion keeps the graphs the same.
* `checkExecutionGraph_same`: the checks have the same results.
-/

namespace Umcm

open FinOrder Except

/-! ## Operations in another order -/

section Operations

variable {operations operations' : List MemoryOperation}
  (hnd : (operations.map MemoryOperation.id).Nodup) (hperm : operations.Perm operations')

include hperm in
theorem any_perm (p : MemoryOperation → Bool) : operations'.any p = operations.any p := by
  rw [Bool.eq_iff_iff, List.any_eq_true, List.any_eq_true]
  simp only [hperm.mem_iff]

include hperm in
theorem mem_ids_perm (id : String) :
    id ∈ operations'.map MemoryOperation.id ↔ id ∈ operations.map MemoryOperation.id :=
  (hperm.map _).mem_iff.symm

include hnd in
theorem findOp_eq_some_iff {id : String} {op : MemoryOperation} :
    findOp operations id = some op ↔ op ∈ operations ∧ op.id = id := by
  constructor
  · exact findOp_eq_some
  · rintro ⟨hop, rfl⟩
    exact findOp_of_mem hnd hop

include hnd hperm

theorem findOp_perm (id : String) : findOp operations' id = findOp operations id := by
  refine Option.ext (fun op => ?_)
  rw [findOp_eq_some_iff hnd, findOp_eq_some_iff ((hperm.map _).nodup_iff.mp hnd), hperm.mem_iff]

theorem endpoints_perm (e : Edge) : endpoints operations' e = endpoints operations e := by
  rw [endpoints, endpoints, findOp_perm hnd hperm, findOp_perm hnd hperm]

theorem sameHart_perm (e : Edge) : sameHart operations' e = sameHart operations e := by
  rw [sameHart, sameHart, endpoints_perm hnd hperm]

/-! ## Program order -/

omit hnd in
theorem hartPo_perm {duplicate : Int → PyError} {hart : Int} {edges : List Edge}
    (h : hartPo duplicate operations hart = .ok edges) :
    ∃ edges', hartPo duplicate operations' hart = .ok edges' := by
  simp only [hartPo, bind_eq_ok, require_eq_ok] at h ⊢
  obtain ⟨_, hnone, _, hdistinct, -⟩ := h
  have hindexes := (hperm.filter (fun op => op.hart = some hart)).map MemoryOperation.programIndex
  refine ⟨_, (), ?_, (), hindexes.nodup_iff.mp hdistinct, rfl⟩
  simpa only [hindexes.mem_iff] using hnone

theorem programOrder_perm {duplicate : Int → PyError} {po : Relation}
    (h : programOrder duplicate operations = .ok po) :
    programOrder duplicate operations' = .ok po := by
  have hnd' := (hperm.map MemoryOperation.id).nodup_iff.mp hnd
  have hexists : ∃ po', programOrder duplicate operations' = .ok po' := by
    obtain ⟨edges, hall, -⟩ := bind_eq_ok.mp h
    have hharts : ∀ hart ∈ hartsOf operations', ∃ es, hartPo duplicate operations' hart = .ok es := by
      intro hart hhart
      obtain ⟨op, hop, heq⟩ := mem_hartsOf.mp hhart
      obtain ⟨es, -, hes⟩ := mapM_result hall (mem_hartsOf.mpr ⟨op, hperm.mem_iff.mpr hop, heq⟩)
      exact hartPo_perm hperm hes
    obtain ⟨edges', hall'⟩ := exists_mapM hharts
    exact ⟨_, bind_eq_ok.mpr ⟨edges', hall', rfl⟩⟩
  obtain ⟨po', h'⟩ := hexists
  have hedges : po.edges = po'.edges := by
    ext e
    rw [mem_programOrder hnd h, mem_programOrder hnd' h']
    simp only [hperm.mem_iff]
  have hname : ∀ {ops : List MemoryOperation} {r : Relation},
      programOrder duplicate ops = .ok r → r.name = "po" := by
    intro ops r hr
    obtain ⟨_, -, hr⟩ := bind_eq_ok.mp hr
    cases hr
    rfl
  rw [h']
  cases po
  cases po'
  have hname₁ := hname h
  have hname₂ := hname h'
  simp only at hedges hname₁ hname₂
  rw [hedges, hname₁, hname₂]

/-! ## Validation -/

omit hnd in
theorem validateScalarLocations_perm (hops : operations.Nodup) {u : Unit}
    (h : validateScalarLocations operations = .ok u) :
    validateScalarLocations operations' = .ok () := by
  rw [validateScalarLocations, forM_eq_ok] at h ⊢
  refine forall_orderedPairs_of_perm (p := fun a b => validatePair a b = .ok ()) hops hperm ?_ h
  intro a b hab
  simp only [validatePair, bind_eq_ok, require_eq_ok] at hab ⊢
  obtain ⟨s, hs, t, ht, hsame⟩ := hab
  exact ⟨t, ht, s, hs, fun hoverlap => (hsame (overlap_comm.mp hoverlap)).symm⟩

theorem validateRfEdge_perm (e : Edge) : validateRfEdge operations' e = validateRfEdge operations e := by
  rw [validateRfEdge, validateRfEdge, endpoints_perm hnd hperm]

theorem rfSources_perm {rf : Relation} {sources : Dict String String}
    (h : rfSources operations rf = .ok sources) : ∃ sources',
      rfSources operations' rf = .ok sources' ∧ ∀ id, sources'.get? id = sources.get? id := by
  simp only [rfSources, bind_eq_ok] at h ⊢
  obtain ⟨_, hedges, pairs, hpairs, h⟩ := h
  cases h
  obtain ⟨pairs', hpairs', hpairsPerm⟩ :=
    mapM_perm (hperm.filter MemoryOperation.isRead) hpairs
  refine ⟨_, ⟨⟨⟩, ?_, pairs', hpairs', rfl⟩, fun id => ?_⟩
  · rw [forM_eq_ok] at hedges ⊢
    intro e he
    rw [validateRfEdge_perm hnd hperm]
    exact hedges e he
  · have hkeys : pairs.map Prod.fst =
        (operations.filter MemoryOperation.isRead).map MemoryOperation.id := by
      refine map_mapM hpairs (fun {r p} hp => ?_)
      unfold rfSource at hp
      split at hp
      · cases hp
        rfl
      · cases hp
    have hkeysNodup : (pairs.map Prod.fst).Nodup := by
      rw [hkeys]
      exact hnd.sublist (List.Sublist.map _ List.filter_sublist)
    have hkeysNodup' := (hpairsPerm.map Prod.fst).nodup_iff.mp hkeysNodup
    refine Option.ext (fun source => ?_)
    rw [Dict.get?_eq_some_iff, Dict.get?_eq_some_iff, Dict.entries_ofList hkeysNodup,
      Dict.entries_ofList hkeysNodup', hpairsPerm.mem_iff]

theorem validateCoEdge_perm (e : Edge) : validateCoEdge operations' e = validateCoEdge operations e := by
  rw [validateCoEdge, validateCoEdge, endpoints_perm hnd hperm]

theorem validateCo_perm {co : Relation} {u : Unit} (h : validateCo operations co = .ok u) :
    validateCo operations' co = .ok () := by
  have hwrites := hperm.filter MemoryOperation.isWrite
  simp only [validateCo, bind_eq_ok, require_eq_ok, forM_eq_ok] at h ⊢
  obtain ⟨_, hedges, _, hpairs, _, hacyclic, hinit⟩ := h
  refine ⟨⟨⟩, ?_, ⟨⟩, ?_, (), hacyclic, ?_⟩
  · intro e he
    rw [validateCoEdge_perm hnd hperm]
    exact hedges e he
  · have hops : operations.Nodup := List.Nodup.of_map _ hnd
    refine forall_orderedPairs_of_perm (p := fun a b => validateCoPair co a b = .ok ())
      (hops.filter _) hwrites ?_ hpairs
    intro a b hab
    simp only [validateCoPair, require_eq_ok] at hab ⊢
    intro hsame
    have hiff := hab hsame.symm
    tauto
  · intro init hmem write hwrite
    exact hinit init ((hwrites.filter _).mem_iff.mpr hmem) write (hwrites.mem_iff.mpr hwrite)

omit hnd in
theorem validateInputEdges_perm (po relation : Relation) :
    validateInputEdges po relation operations' = validateInputEdges po relation operations := by
  simp only [validateInputEdges, mem_ids_perm hperm]

/-! ## Preserved program order -/

omit hnd in
theorem ppoRules_perm {relations : Dict String Relation} {sources sources' : Dict String String}
    (hsources : ∀ id, sources'.get? id = sources.get? id) (source target : MemoryOperation) :
    ppoRules (PpoContext.of operations' relations sources') source target =
      ppoRules (PpoContext.of operations relations sources) source target := by
  have hget : sources'.get? = sources.get? := funext hsources
  dsimp only [PpoContext.of, ppoRules, ppoRule2, ppoRule3, ppoRule4, ppoRule8, ppoRule9, ppoRule10,
    ppoRule11, ppoRule12, ppoRule13]
  rw [hget]
  simp only [any_perm hperm]

theorem preserved_perm {relations : Dict String Relation} {sources sources' : Dict String String}
    (hsources : ∀ id, sources'.get? id = sources.get? id) (index : Nat) (e : Edge) :
    preserved (PpoContext.of operations' relations sources') index e =
      preserved (PpoContext.of operations relations sources) index e := by
  have hends : endpoints (PpoContext.of operations' relations sources').operations e =
      endpoints (PpoContext.of operations relations sources).operations e :=
    endpoints_perm hnd hperm e
  rw [preserved, preserved, hends]
  cases endpoints (PpoContext.of operations relations sources).operations e with
  | none => rfl
  | some ends => simp only [ppoRules_perm hperm hsources]

theorem derivePpo_perm {relations : Dict String Relation} {sources sources' : Dict String String}
    (hsources : ∀ id, sources'.get? id = sources.get? id) :
    derivePpo operations' relations sources' = derivePpo operations relations sources := by
  simp only [derivePpo, validateInputEdges_perm hperm, ppoEdges,
    preserved_perm hnd hperm hsources]

omit hnd in
theorem topologicalTotalOrder_perm (relations : List Relation) :
    topologicalTotalOrder (operations'.map MemoryOperation.id) relations =
      topologicalTotalOrder (operations.map MemoryOperation.id) relations := by
  rw [topologicalTotalOrder, topologicalTotalOrder,
    List.toFinset_eq_of_perm _ _ (hperm.map MemoryOperation.id).symm]

theorem rfiOf_perm (rf : Relation) : rfiOf operations' rf = rfiOf operations rf := by
  simp only [rfiOf, sameHart_perm hnd hperm]

theorem rfeOf_perm (rf : Relation) : rfeOf operations' rf = rfeOf operations rf := by
  rw [rfeOf, rfeOf, rfiOf_perm hnd hperm]

theorem friOf_perm (rf co : Relation) : friOf operations' rf co = friOf operations rf co := by
  simp only [friOf, sameHart_perm hnd hperm]

theorem freOf_perm (rf co : Relation) : freOf operations' rf co = freOf operations rf co := by
  rw [freOf, freOf, friOf_perm hnd hperm]

end Operations

/-! ## Graphs -/

/-- The graphs have the same operations, in some order, the same relations and
the same recorded global order, which lists all operations if it lists any. -/
structure SameGraph (g g' : ExecutionGraph) : Prop where
  operations : g.operations.Perm g'.operations
  relations : g.relations = g'.relations
  order : g.metadata.gmoOrder = g'.metadata.gmoOrder
  listed : g.metadata.gmoOrder.getD [] = [] ∨
    ∀ op ∈ g.operations, op.id ∈ g.metadata.gmoOrder.getD []

/-- The constructor accepts the operations in any order. -/
theorem make_perm {operations operations' : List MemoryOperation}
    {relations : Dict String Relation} {candidateId : Nat} {metadata : GraphMetadata}
    {nodup : (operations.map MemoryOperation.id).Nodup} {g : ExecutionGraph}
    (hperm : operations.Perm operations')
    (h : ExecutionGraph.make operations relations candidateId metadata nodup = .ok g)
    (candidateId' : Nat) (metadata' : GraphMetadata)
    (nodup' : (operations'.map MemoryOperation.id).Nodup) :
    ∃ g', ExecutionGraph.make operations' relations candidateId' metadata' nodup' = .ok g' := by
  obtain ⟨hops, hrels, -, -⟩ := ExecutionGraph.make_eq_ok h
  have hnamed := g.named
  have hknown := g.known
  rw [hrels] at hnamed hknown
  rw [hops] at hknown
  unfold ExecutionGraph.make
  rw [dif_pos hnamed, dif_pos]
  · exact ⟨_, rfl⟩
  · intro p hp e he
    rw [mem_ids_perm hperm, mem_ids_perm hperm]
    exact hknown p hp e he

/-- The recorded order of a completed graph lists all operations, or nothing. -/
theorem Completed.listed {g : ExecutionGraph} {sources : Dict String String}
    (hc : Completed g sources) : g.metadata.gmoOrder.getD [] = [] ∨
      ∀ op ∈ g.operations, op.id ∈ g.metadata.gmoOrder.getD [] := by
  rw [hc.order, Option.getD_some]
  cases horder : topologicalTotalOrder (g.operations.map MemoryOperation.id)
      (rvwmoOrderRelations.map g.rel) with
  | none => exact Or.inl rfl
  | some order => exact Or.inr (fun op hop => (hc.order_sound horder).1 ⟨op, hop⟩)

/-- The built-in model completes the same graphs to the same graphs. -/
theorem completeRvwmoRelations_same {g g' completed : ExecutionGraph} (hsame : SameGraph g g')
    (h : completeRvwmoRelations g = .ok completed) :
    ∃ completed', completeRvwmoRelations g' = .ok completed' ∧ SameGraph completed completed' := by
  have hperm := hsame.operations
  obtain ⟨⟨_, hcompleted⟩, -, -, -⟩ := completed_of_complete h
  simp only [completeRvwmoRelations, bind_eq_ok, require_eq_ok] at h
  obtain ⟨_, hregular, _, hscalar, po, hpo, _, hagree, rf, hrf, co, hco, sources, hsources, _, hvalid,
    ppo, hppo, h⟩ := h
  obtain ⟨sources', hsources', hget⟩ := rfSources_perm g.nodup hperm hsources
  have hregular' : (g'.operations.filter (fun op => !regular op)).map MemoryOperation.id = [] := by
    have hids := (hperm.filter (fun op => !regular op)).map MemoryOperation.id
    rw [hregular] at hids
    exact hids.symm.eq_nil
  have hscalar' := validateScalarLocations_perm hperm (List.Nodup.of_map _ g.nodup) hscalar
  have hpo' : canonicalPo g'.operations = .ok po := programOrder_perm g.nodup hperm hpo
  have hvalid' := validateCo_perm g.nodup hperm hvalid
  obtain ⟨hops, hrels, -, hmeta⟩ := ExecutionGraph.make_eq_ok h
  obtain ⟨completed', h'⟩ := make_perm hperm h g'.candidateId
    { g'.metadata with builtinModel := some "rvwmo", gmoOrder := completed.metadata.gmoOrder } g'.nodup
  obtain ⟨hops', hrels', -, hmeta'⟩ := ExecutionGraph.make_eq_ok h'
  refine ⟨completed', ?_, ⟨?_, hrels.trans hrels'.symm, ?_, hcompleted.listed⟩⟩
  · simp only [completeRvwmoRelations, bind_eq_ok, require_eq_ok, ← hsame.relations]
    refine ⟨(), hregular', (), hscalar', po, hpo', (), hagree, rf, hrf, co, hco, sources', hsources',
      (), hvalid', ppo, ?_, ?_⟩
    · rw [rfiOf_perm g.nodup hperm, rfeOf_perm g.nodup hperm, friOf_perm g.nodup hperm,
        freOf_perm g.nodup hperm, derivePpo_perm g.nodup hperm hget]
      exact hppo
    · rw [rfiOf_perm g.nodup hperm, rfeOf_perm g.nodup hperm, friOf_perm g.nodup hperm,
        freOf_perm g.nodup hperm, topologicalTotalOrder_perm hperm]
      rw [hmeta] at h'
      exact h'
  · rw [hops, hops']
    exact hperm
  · rw [hmeta']

/-! ## The checks -/

/-- The reported edges do not depend on the order they are found in. -/
theorem sortEdgeList_perm {edges edges' : List Edge} (h : edges.Perm edges') :
    sortEdgeList edges = sortEdgeList edges' := by
  rw [sortEdgeList, sortEdgeList, insertionSort_eq_of_perm (h.map toLex)]

section Checks

variable {g g' : ExecutionGraph} (hsame : SameGraph g g')
include hsame

theorem relation_same (name : String) : g'.relation name = g.relation name := by
  rw [ExecutionGraph.relation, ExecutionGraph.relation, hsame.relations]

theorem eligibleWrites_same {order : List String} {po : Relation} (read : MemoryOperation) :
    (eligibleWrites g.operations order po read).Perm (eligibleWrites g'.operations order po read) :=
  hsame.operations.filter _

/-- A read is reported in both graphs or in neither. -/
theorem loadValueOffense_same {order : List String} {po : Relation}
    (hlisted : ∀ op ∈ g.operations, op.id ∈ order) {sources sources' : Dict String String}
    (hsources : ∀ id, sources'.get? id = sources.get? id) (read : MemoryOperation) :
    loadValueOffense g'.operations order po sources' read =
      loadValueOffense g.operations order po sources read := by
  have hinj : ∀ a ∈ eligibleWrites g.operations order po read,
      ∀ b ∈ eligibleWrites g.operations order po read,
      order.idxOf a.id = order.idxOf b.id → a = b := by
    intro a ha b hb heq
    have ha' := (List.mem_filter.mp ha).1
    have hb' := (List.mem_filter.mp hb).1
    exact ExecutionGraph.op_ext ha' hb' ((List.idxOf_inj (hlisted a ha')).mp heq)
  rw [loadValueOffense, loadValueOffense, hsources,
    argmax_eq_of_perm (eligibleWrites_same hsame read) hinj]

theorem loadValueOffenses_same {offenses : List Edge} (h : loadValueOffenses g = .ok offenses) :
    loadValueOffenses g' = .ok offenses := by
  have hlisted := hsame.listed
  unfold loadValueOffenses at h ⊢
  rw [← hsame.order]
  cases horder : g.metadata.gmoOrder.getD [] with
  | nil =>
      rw [horder] at h
      exact h
  | cons first rest =>
      rw [horder] at h hlisted
      have hlisted' := hlisted.resolve_left (List.cons_ne_nil _ _)
      simp only [bind_eq_ok, relation_same hsame] at h ⊢
      obtain ⟨po, hpo, rf, hrf, sources, hsources, h⟩ := h
      obtain ⟨sources', hsources', hget⟩ := rfSources_perm g.nodup hsame.operations hsources
      refine ⟨po, hpo, rf, hrf, sources', hsources', ?_⟩
      have hfun : loadValueOffense g'.operations (first :: rest) po sources' =
          loadValueOffense g.operations (first :: rest) po sources :=
        funext (loadValueOffense_same hsame hlisted' hget)
      have hperm := (hsame.operations.filter MemoryOperation.isRead).filterMap
        (loadValueOffense g.operations (first :: rest) po sources)
      rw [hfun, ← sortEdgeList_perm hperm]
      exact h

theorem amoOffenses_same {offenses : List Edge} (h : amoOffenses g = .ok offenses) :
    amoOffenses g' = .ok offenses := by
  simp only [amoOffenses, bind_eq_ok, relation_same hsame] at h ⊢
  obtain ⟨co, hco, rf, hrf, sources, hsources, h⟩ := h
  obtain ⟨sources', hsources', hget⟩ := rfSources_perm g.nodup hsame.operations hsources
  refine ⟨co, hco, rf, hrf, sources', hsources', ?_⟩
  have hfun : amoOffense g'.operations co sources' = amoOffense g.operations co sources := by
    funext amo
    simp only [amoOffense, hget, any_perm hsame.operations]
  have hperm := (hsame.operations.filter (fun op => op.atomicKind = "amo")).filterMap
    (amoOffense g.operations co sources)
  rw [hfun, ← sortEdgeList_perm hperm]
  exact h

theorem pairOffense_same {co : Relation} {sources sources' : Dict String String}
    (hsources : ∀ id, sources'.get? id = sources.get? id) (e : Edge) :
    pairOffense g'.operations co sources' e = pairOffense g.operations co sources e := by
  have hany := any_perm hsame.operations
  rw [pairOffense, pairOffense, endpoints_perm g.nodup hsame.operations]
  cases endpoints g.operations e with
  | none => rfl
  | some ends => simp only [hsources, hany]

theorem lrScOffenses_same {offenses : List Edge} (h : lrScOffenses g = .ok offenses) :
    lrScOffenses g' = .ok offenses := by
  simp only [lrScOffenses, bind_eq_ok, relation_same hsame, ← hsame.relations] at h ⊢
  obtain ⟨co, hco, rf, hrf, sources, hsources, _, hpaired, broken, hbroken, h⟩ := h
  obtain ⟨sources', hsources', hget⟩ := rfSources_perm g.nodup hsame.operations hsources
  refine ⟨co, hco, rf, hrf, sources', hsources', ⟨⟩, hpaired, broken, ?_, ?_⟩
  · rw [← hbroken]
    exact mapM_congr (fun e _ => pairOffense_same hsame hget e)
  · set pair := relationOrEmpty g.relations "pair"
    have hperm := ((((hsame.operations.filter (fun op => op.atomicKind = "sc")).filter
      (fun sc => (pair.edges.filter (fun e => e.2 = sc.id)).card ≠ 1)).map
        (fun sc => (sc.id, sc.id))).append_right (broken.filterMap id))
    rw [← sortEdgeList_perm hperm]
    exact h

theorem checkRvwmo_same {outcomes : List RvwmoOutcome} (h : checkRvwmo g = .ok outcomes) :
    checkRvwmo g' = .ok outcomes := by
  have hrelation : g'.relation = g.relation := funext (relation_same hsame)
  simp only [checkRvwmo, bind_eq_ok, hrelation] at h ⊢
  obtain ⟨orderRelations, horderRelations, loadValue, hload, amo, hamo, lrSc, hlrSc, h⟩ := h
  exact ⟨orderRelations, horderRelations, loadValue, loadValueOffenses_same hsame hload, amo,
    amoOffenses_same hsame hamo, lrSc, lrScOffenses_same hsame hlrSc, h⟩

theorem checkAxiom_same (spec : AxiomSpec) : checkAxiom g' spec = checkAxiom g spec := by
  have hrelation : g'.relation = g.relation := funext (relation_same hsame)
  rw [checkAxiom, checkAxiom, hrelation]

/-- The checks of the same graphs have the same results. -/
theorem checkExecutionGraph_same {axioms : List AxiomSpec} {builtinModel : Option BuiltinModel}
    {check : CandidateCheck} (h : checkExecutionGraph g axioms builtinModel = .ok check) :
    ∃ check', checkExecutionGraph g' axioms builtinModel = .ok check' ∧ check.graph = g ∧
      check'.graph = g' ∧ check'.axioms = check.axioms := by
  simp only [checkExecutionGraph, bind_eq_ok] at h ⊢
  obtain ⟨builtin, hbuiltin, results, hresults, h⟩ := h
  cases h
  have hbuiltin' : builtinResults g' builtinModel = .ok builtin := by
    cases builtinModel with
    | none => exact hbuiltin
    | some model =>
        cases model
        obtain ⟨outcomes, houtcomes, h⟩ := bind_eq_ok.mp hbuiltin
        exact bind_eq_ok.mpr ⟨outcomes, checkRvwmo_same hsame houtcomes, h⟩
  have hresults' : axioms.mapM (checkAxiom g') = .ok results := by
    rw [← hresults]
    exact mapM_congr (fun spec _ => checkAxiom_same hsame spec)
  exact ⟨_, ⟨builtin, hbuiltin', results, hresults', rfl⟩, rfl, rfl, rfl⟩

end Checks

end Umcm
