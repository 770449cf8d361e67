import Umcm.Graph.Enumeration

/-!
# When the enumeration is exact

* `buildGraph_pair`: a graph keeps the edges it was enumerated for, whatever
  the built-in model and the derived relations add.
* `enumerationExact_of_amoFree`: without AMOs the enumeration is exact.
* `graphError_sound`: a graph error means that a hint is inconsistent or that
  there is no candidate.
* `not_enumerationExact_of_amo`: an enumeration that is reached with an AMO
  misses every candidate.
* `enumerationExact_iff`: the exact condition.
-/

namespace Umcm

open FinOrder Except

/-! ## From candidates to graphs -/

theorem candidates_eq (space : CandidateSpace) : space.candidates =
    (Choice.assignments space.rfChoices).flatMap (fun sources =>
      (Choice.assignments (orderedAddresses space)).map (fun orders => { sources, orders })) := by
  simp only [CandidateSpace.candidates, Choice.assignments, List.flatMap_map, List.map_map]
  rfl

theorem mem_candidates {space : CandidateSpace} {c : Candidate} : c ∈ space.candidates ↔
    c.sources ∈ Choice.assignments space.rfChoices ∧
      c.orders ∈ Choice.assignments (orderedAddresses space) := by
  rw [candidates_eq]
  simp only [List.mem_flatMap, List.mem_map]
  constructor
  · rintro ⟨sources, hsources, orders, horders, rfl⟩
    exact ⟨hsources, horders⟩
  · rintro ⟨hsources, horders⟩
    exact ⟨c.sources, hsources, c.orders, horders, rfl⟩

theorem length_candidates (space : CandidateSpace) :
    space.candidates.length = space.estimatedCandidates := by
  have hperm : (orderedAddresses space).Perm space.coOrders := List.perm_insertionSort _ _
  rw [candidates_eq, List.length_flatMap]
  simp only [List.length_map, List.map_const', List.sum_replicate, smul_eq_mul,
    Choice.length_assignments, CandidateSpace.estimatedCandidates]
  rw [(hperm.map _).prod_eq]

theorem nodup_candidates {space : CandidateSpace} (hrf : ∀ q ∈ space.rfChoices, q.2.Nodup)
    (hco : ∀ q ∈ space.coOrders, q.2.Nodup) : space.candidates.Nodup := by
  rw [candidates_eq, List.nodup_flatMap]
  constructor
  · intro sources _
    refine (Choice.nodup_assignments ?_).map (fun _ _ h => (Candidate.mk.inj h).2)
    exact fun q hq => hco q ((List.mem_insertionSort _).mp hq)
  · refine (Choice.nodup_assignments hrf).imp ?_
    intro sources sources' hne c hc hc'
    obtain ⟨_, -, rfl⟩ := List.mem_map.mp hc
    obtain ⟨_, -, heq⟩ := List.mem_map.mp hc'
    exact hne (Candidate.mk.inj heq).1.symm

/-- Derived relations leave the relations they start from. -/
theorem get?_deriveRelations {specs : List DerivedRelationSpec}
    {relations relations' : Dict String Relation} (h : deriveRelations specs relations = .ok relations')
    {name : String} {r : Relation} (hget : relations.get? name = some r) :
    relations'.get? name = some r := by
  induction specs generalizing relations with
  | nil =>
      cases h
      exact hget
  | cons spec rest ih =>
      obtain ⟨relation, -, h⟩ := bind_eq_ok.mp h
      obtain ⟨_, hfresh, h⟩ := bind_eq_ok.mp h
      refine ih h ?_
      have hne : name ≠ relation.name := by
        rintro rfl
        rw [require_eq_ok, hget] at hfresh
        cases hfresh
      rw [Dict.get?_insert_of_ne _ hne, hget]

theorem builderPo_name {operations : List MemoryOperation} {po : Relation}
    (h : builderPo operations = .ok po) : po.name = "po" := by
  obtain ⟨_, -, h⟩ := bind_eq_ok.mp h
  cases h
  rfl

/-- Relation hints have names of their own. -/
theorem relationHints_names {trace : Trace} {spec : GraphModelSpec}
    {operations : List MemoryOperation} {hints : List Relation}
    (h : relationHints trace spec operations = .ok hints) :
    ∀ r ∈ hints, reservedRelation r.name = false := by
  obtain ⟨edges, -, h⟩ := bind_eq_ok.mp h
  cases h
  intro r hr
  obtain ⟨name, hname, rfl⟩ := List.mem_map.mp hr
  rw [mem_sortedList, List.mem_toFinset, List.mem_map] at hname
  obtain ⟨hint, -, rfl⟩ := hname
  exact hint.not_reserved

theorem candidateGraph_eq_ok {space : CandidateSpace} {spec : GraphModelSpec} {po : Relation}
    {candidateId : Nat} {c : Candidate} {g : ExecutionGraph}
    (hhints : ∀ r ∈ space.relationHints, reservedRelation r.name = false) (hpo : po.name = "po")
    (h : candidateGraph space spec po candidateId c = .ok g) :
    g.operations = space.operations.list ∧
      g.relations.get? "rf" = some (rfRelation c.sources) ∧
      g.relations.get? "co" = some (coRelation (c.orders.map Prod.snd)) ∧
      g.relations.get? "fr" = some (((rfRelation c.sources).inverse "rf_inv").compose
        (coRelation (c.orders.map Prod.snd)) "fr") := by
  obtain ⟨hops, hrels, -, -⟩ := ExecutionGraph.make_eq_ok h
  have hhint : ∀ name, reservedRelation name = true →
      name ∉ space.relationHints.map Relation.name := by
    intro name hname hmem
    obtain ⟨r, hr, rfl⟩ := List.mem_map.mp hmem
    rw [hhints r hr] at hname
    cases hname
  have hnames : ([po, rfRelation c.sources,
      rfeRelation (rfRelation c.sources) space.operations.list, coRelation (c.orders.map Prod.snd),
      ((rfRelation c.sources).inverse "rf_inv").compose (coRelation (c.orders.map Prod.snd)) "fr",
      ppoRelation po c.sources space.operations.list spec.ppoRules].map Relation.name).Nodup := by
    show [po.name, "rf", "rfe", "co", "fr", "ppo"].Nodup
    rw [hpo]
    decide
  refine ⟨hops, ?_, ?_, ?_⟩
  · rw [hrels, get?_insertAll_of_ne (hhint "rf" (by decide))]
    exact get?_insertAll_of_mem (r := rfRelation c.sources) hnames (by simp)
  · rw [hrels, get?_insertAll_of_ne (hhint "co" (by decide))]
    exact get?_insertAll_of_mem (r := coRelation (c.orders.map Prod.snd)) hnames (by simp)
  · rw [hrels, get?_insertAll_of_ne (hhint "fr" (by decide))]
    exact get?_insertAll_of_mem (r := ((rfRelation c.sources).inverse "rf_inv").compose
      (coRelation (c.orders.map Prod.snd)) "fr") hnames (by simp)

/-- The operations and the base relations of the graph of a candidate. The built-in
model leaves the read itself out of `fr`. -/
structure BuiltFromCandidate (space : CandidateSpace) (c : Candidate) (g : ExecutionGraph) : Prop where
  operations : g.operations = space.operations.list
  rf : g.relations.get? "rf" = some (rfRelation c.sources)
  co : g.relations.get? "co" = some (coRelation (c.orders.map Prod.snd))
  fr : g.relations.get? "fr" = some (((rfRelation c.sources).inverse "rf_inv").compose
      (coRelation (c.orders.map Prod.snd)) "fr") ∨
    g.relations.get? "fr" =
      some (frOf (rfRelation c.sources) (coRelation (c.orders.map Prod.snd)))

/-- The derived relations leave the base relations. -/
theorem BuiltFromCandidate.derive {space : CandidateSpace} {c : Candidate} {specs : List DerivedRelationSpec}
    {candidateId : Nat} {g₁ g : ExecutionGraph} (hbuilt : BuiltFromCandidate space c g₁)
    (h : (deriveRelations specs g₁.relations >>= fun relations =>
      ExecutionGraph.make space.operations.list relations candidateId g₁.metadata
        space.operations.nodup) = .ok g) : BuiltFromCandidate space c g := by
  obtain ⟨relations, hderive, h⟩ := bind_eq_ok.mp h
  obtain ⟨hops, hrels, -, -⟩ := ExecutionGraph.make_eq_ok h
  have hkeep : ∀ {name r}, g₁.relations.get? name = some r → g.relations.get? name = some r := by
    intro name r hget
    rw [hrels]
    exact get?_deriveRelations hderive hget
  exact ⟨hops, hkeep hbuilt.rf, hkeep hbuilt.co, hbuilt.fr.imp hkeep hkeep⟩

/-- A graph keeps the operations and the base relations of its candidate. -/
theorem builtFromCandidate_of_buildGraph {space : CandidateSpace} {spec : GraphModelSpec} {po : Relation}
    {candidateId : Nat} {c : Candidate} {g : ExecutionGraph}
    (hhints : ∀ r ∈ space.relationHints, reservedRelation r.name = false) (hpo : po.name = "po")
    (h : buildGraph space spec po candidateId c = .ok g) : BuiltFromCandidate space c g := by
  obtain ⟨g₀, hg₀, h⟩ := bind_eq_ok.mp h
  obtain ⟨hops, hrf, hco, hfr⟩ := candidateGraph_eq_ok hhints hpo hg₀
  cases hmodel : spec.builtinModel with
  | none =>
      simp only [hmodel] at h
      exact BuiltFromCandidate.derive ⟨hops, hrf, hco, Or.inl hfr⟩ h
  | some model =>
      cases model
      simp only [hmodel] at h
      obtain ⟨g₁, hcomplete, h⟩ := bind_eq_ok.mp h
      obtain ⟨⟨sources, hcompleted⟩, hops', -, hkeep⟩ := completed_of_complete hcomplete
      have hrf₁ := (hkeep "rf" (by simp)).trans hrf
      have hco₁ := (hkeep "co" (by simp)).trans hco
      have hfr₁ := hcompleted.has "fr" (by simp)
      rw [hcompleted.fr, ExecutionGraph.rel, ExecutionGraph.rel, relationOrEmpty_of_get? hrf₁,
        relationOrEmpty_of_get? hco₁] at hfr₁
      exact BuiltFromCandidate.derive ⟨hops'.trans hops, hrf₁, hco₁, Or.inr hfr₁⟩ h

/-- A graph keeps the edges of its candidate. -/
theorem buildGraph_pair {space : CandidateSpace} {spec : GraphModelSpec} {po : Relation}
    {candidateId : Nat} {c : Candidate} {g : ExecutionGraph}
    (hhints : ∀ r ∈ space.relationHints, reservedRelation r.name = false) (hpo : po.name = "po")
    (h : buildGraph space spec po candidateId c = .ok g) :
    g.pair = ((rfRelation c.sources).edges, (coRelation (c.orders.map Prod.snd)).edges) := by
  have hbuilt := builtFromCandidate_of_buildGraph hhints hpo h
  rw [ExecutionGraph.pair, ExecutionGraph.rel, ExecutionGraph.rel, relationOrEmpty_of_get? hbuilt.rf,
    relationOrEmpty_of_get? hbuilt.co]

/-- Every graph is built from a candidate of the space. -/
theorem builtFromCandidate_of_iterExecutionGraphs {trace : Trace} {spec : GraphModelSpec}
    {space : CandidateSpace} {maxCandidates : Int} {graphs : List ExecutionGraph}
    (hspace : buildCandidateSpace trace spec = .ok space)
    (hhints : ∀ r ∈ space.relationHints, reservedRelation r.name = false)
    (h : iterExecutionGraphs trace spec maxCandidates = .ok graphs) {g : ExecutionGraph}
    (hg : g ∈ graphs) : ∃ c ∈ space.candidates, BuiltFromCandidate space c g := by
  rw [iterExecutionGraphs, forExecutionGraphs] at h
  obtain ⟨_, -, h⟩ := bind_eq_ok.mp h
  rw [hspace, ok_bind] at h
  obtain ⟨_, -, h⟩ := bind_eq_ok.mp h
  obtain ⟨po, hpo, h⟩ := bind_eq_ok.mp h
  obtain ⟨p, hp, hbuild⟩ := mapM_origin h hg
  have hc : p.1 ∈ space.candidates := by
    have hmem := List.mem_map_of_mem (f := Prod.fst) hp
    rwa [List.zipIdx_map_fst] at hmem
  exact ⟨p.1, hc, builtFromCandidate_of_buildGraph hhints (builderPo_name hpo) (by rwa [bind_ok] at hbuild)⟩

/-- The graphs are those of the enumeration, in its order. -/
theorem iterExecutionGraphs_pairs {trace : Trace} {spec : GraphModelSpec} {space : CandidateSpace}
    {maxCandidates : Int} {graphs : List ExecutionGraph}
    (hspace : buildCandidateSpace trace spec = .ok space)
    (hhints : ∀ r ∈ space.relationHints, reservedRelation r.name = false)
    (h : iterExecutionGraphs trace spec maxCandidates = .ok graphs) :
    graphs.map ExecutionGraph.pair = space.pairs := by
  rw [iterExecutionGraphs, forExecutionGraphs] at h
  obtain ⟨_, -, h⟩ := bind_eq_ok.mp h
  rw [hspace, ok_bind] at h
  obtain ⟨_, -, h⟩ := bind_eq_ok.mp h
  obtain ⟨po, hpo, h⟩ := bind_eq_ok.mp h
  have hpairs := map_mapM (p := ExecutionGraph.pair) (q := fun p : Candidate × Nat =>
    ((rfRelation p.1.sources).edges, (coRelation (p.1.orders.map Prod.snd)).edges)) h
    (fun hg => buildGraph_pair hhints (builderPo_name hpo) (by rwa [bind_ok] at hg))
  have hfst : space.candidates.zipIdx.map Prod.fst = space.candidates := List.zipIdx_map_fst 0 _
  rw [hpairs, CandidateSpace.pairs]
  conv_rhs => rw [← hfst]
  rw [List.map_map]
  rfl

/-- Past the candidate space only a rejected graph raises. -/
theorem rejectedGraph_of_error {trace : Trace} {spec : GraphModelSpec} {space : CandidateSpace}
    {maxCandidates : Int} (hspace : buildCandidateSpace trace spec = .ok space)
    (hpos : 0 < maxCandidates) (hlimit : space.estimatedCandidates ≤ maxCandidates) {e : PyError}
    (h : iterExecutionGraphs trace spec maxCandidates = .error e) : RejectedGraph space spec e := by
  rw [iterExecutionGraphs, forExecutionGraphs, require, if_pos hpos, ok_bind, hspace, ok_bind,
    require, if_pos hlimit, ok_bind] at h
  cases hpo : builderPo space.operations.list with
  | error e' =>
      rw [hpo, error_bind] at h
      cases h
      exact Or.inl hpo
  | ok po =>
      rw [hpo, ok_bind] at h
      simp only [bind_ok] at h
      have hfails : Fails (fun e' => e' = e) (space.candidates.zipIdx.mapM
          (fun p => buildGraph space spec po p.2 p.1)) := ⟨e, h, rfl⟩
      obtain ⟨before, p, after, hsplit, -, e', he', rfl⟩ := fails_mapM.mp hfails
      have hmem : p ∈ space.candidates.zipIdx := by
        rw [hsplit]
        exact List.mem_append_right _ List.mem_cons_self
      exact Or.inr ⟨po, hpo, p.1, List.fst_mem_of_mem_zipIdx hmem, p.2, he'⟩

/-! ## The candidate space -/

/-- At most one initial write per address. -/
def OneInitialWrite (operations : List MemoryOperation) : Prop :=
  ∀ x ∈ operations, ∀ y ∈ operations, x.kind = .initWrite → y.kind = .initWrite →
    x.address.key = y.address.key → x = y

theorem length_initWritesAt {operations : List MemoryOperation}
    (hnd : (operations.map MemoryOperation.id).Nodup) (hone : OneInitialWrite operations)
    (address : Value) : (initWritesAt operations address).length ≤ 1 := by
  have hperm : (initWritesAt operations address).Perm
      (((writesAt operations address).filter (fun op => op.kind = .initWrite)).map
        MemoryOperation.id) := List.perm_insertionSort _ _
  have hnodup : (initWritesAt operations address).Nodup :=
    hperm.nodup_iff.mpr ((nodup_writeIdsAt hnd address).sublist
      (List.Sublist.map _ List.filter_sublist))
  have heq : ∀ x ∈ initWritesAt operations address, ∀ y ∈ initWritesAt operations address,
      x = y := by
    intro x hx y hy
    obtain ⟨v, hv, hvkind, rfl⟩ := mem_initWritesAt.mp hx
    obtain ⟨w, hw, hwkind, rfl⟩ := mem_initWritesAt.mp hy
    obtain ⟨hv, -, hvaddr⟩ := mem_writesAt.mp hv
    obtain ⟨hw, -, hwaddr⟩ := mem_writesAt.mp hw
    rw [hone v hv w hw hvkind hwkind (hvaddr.trans hwaddr.symm)]
  rw [← List.toFinset_card_of_nodup hnodup, Finset.card_le_one]
  intro x hx y hy
  exact heq x (List.mem_toFinset.mp hx) y (List.mem_toFinset.mp hy)

theorem concrete_of_concreteEvents {events concrete : List EventInstance}
    (h : concreteEvents events = .ok concrete) :
    ∀ event ∈ events, ∃ b, concreteEvent event = .ok b := by
  induction events generalizing concrete with
  | nil => simp
  | cons event rest ih =>
      obtain ⟨b, hb, h⟩ := bind_eq_ok.mp h
      obtain ⟨_, hrest, -⟩ := bind_eq_ok.mp h
      exact List.forall_mem_cons.mpr ⟨⟨b, hb⟩, ih hrest⟩

/-- Operations are projected only from traces whose events are concrete. -/
theorem concrete_of_projectOperations {trace : Trace} {projection : ProjectionSpec}
    {operations : Operations} (h : projectOperations trace projection = .ok operations) :
    ∀ event ∈ trace.events, ∃ b, concreteEvent event = .ok b := by
  obtain ⟨_, hevents, -⟩ := bind_eq_ok.mp h
  exact concrete_of_concreteEvents hevents

/-- What the space is made of. -/
structure SpaceParts (trace : Trace) (spec : GraphModelSpec) (operations : List MemoryOperation)
    (space : CandidateSpace) (rfTable : Dict String RfEvidence) (hints : List CoEvidence) : Prop where
  rfHints : rfHints trace spec = .ok rfTable
  coHints : coHints trace spec = .ok hints
  rfChoices : (byId (operations.filter MemoryOperation.isRead)).mapM (rfChoice operations rfTable) =
    .ok space.rfChoices
  valid : ∀ a ∈ writeAddresses operations, HintsValidAt operations hints a
  free : ∀ a ∈ writeAddresses operations, ∀ order ∈ orderCandidates operations a,
    ¬ Stuck order (hintsAt hints a)
  nonempty : ∀ a ∈ writeAddresses operations, coherentOrders operations hints a ≠ []
  coOrders : space.coOrders =
    (writeAddresses operations).map (fun a => (a, coherentOrders operations hints a))
  located : ∀ hint ∈ hints, ∃ a ∈ writeAddresses operations, hint.address.key = a.key
  relationHints : relationHints trace spec operations = .ok space.relationHints
  operations : space.operations.list = operations

section Space

variable {trace : Trace} {spec : GraphModelSpec} {operations : Operations} {space : CandidateSpace}
  (hops : projectOperations trace spec.projection = .ok operations)
  (hone : OneInitialWrite operations.list)
include hops hone

theorem spaceParts_of_ok (h : buildCandidateSpace trace spec = .ok space) :
    ∃ rfTable hints, SpaceParts trace spec operations.list space rfTable hints := by
  have hinit := length_initWritesAt operations.nodup hone
  simp only [buildCandidateSpace, bind_eq_ok, hops, require_eq_ok, Value.pyEq_iff] at h
  obtain ⟨_, heq, rfTable, hrf, hints, hco, rfChoices, hrfChoices, coOrders, hcoOrders, _, hlocated,
    rel, hrel, h⟩ := h
  cases heq
  cases h
  have hchoice : ∀ a ∈ writeAddresses operations.list, HintsValidAt operations.list hints a ∧
      (∀ order ∈ orderCandidates operations.list a, ¬ Stuck order (hintsAt hints a)) ∧
      coherentOrders operations.list hints a ≠ [] := by
    intro a ha
    obtain ⟨p, -, hp⟩ := mapM_result hcoOrders ha
    obtain ⟨hvalid, hfree, hne, -⟩ := (coChoice_eq_ok operations.nodup (hinit a)).mp hp
    exact ⟨hvalid, hfree, hne⟩
  have htable : coOrders = (writeAddresses operations.list).map
      (fun a => (a, coherentOrders operations.list hints a)) := by
    have hmap := map_mapM (p := id) hcoOrders
      (fun hp => ((coChoice_eq_ok operations.nodup (hinit _)).mp hp).2.2.2)
    rwa [List.map_id] at hmap
  exact ⟨rfTable, hints, hrf, hco, hrfChoices, fun a ha => (hchoice a ha).1,
    fun a ha => (hchoice a ha).2.1, fun a ha => (hchoice a ha).2.2, htable, hlocated, hrel, rfl⟩

end Space

/-! ## Exactness without AMOs -/

theorem CoHintValid.congr {operations : List MemoryOperation} {e e' : CoEvidence}
    (h : CoHintValid operations e) (heq : e.semanticKey = e'.semanticKey) :
    CoHintValid operations e' := by
  simp only [CoEvidence.semanticKey, Prod.mk.injEq] at heq
  obtain ⟨a, ha, b, hb, hida, hidb, hsame, haddress⟩ := h
  exact ⟨a, ha, b, hb, hida.trans heq.1, hidb.trans heq.2.1, hsame, haddress.trans heq.2.2⟩

namespace SpaceParts

variable {trace : Trace} {spec : GraphModelSpec} {operations : List MemoryOperation}
  {space : CandidateSpace} {rfTable : Dict String RfEvidence} {hints : List CoEvidence}

theorem coHintValid (hp : SpaceParts trace spec operations space rfTable hints) :
    ∀ hint ∈ hints, CoHintValid operations hint := by
  intro hint hhint
  obtain ⟨a, ha, hkey⟩ := hp.located hint hhint
  exact hp.valid a ha hint (mem_hintsAt.mpr ⟨hhint, hkey⟩)

theorem hintsConsistent (hp : SpaceParts trace spec operations space rfTable hints)
    (hnd : (operations.map MemoryOperation.id).Nodup)
    (hconcrete : ∀ event ∈ trace.events, ∃ b, concreteEvent event = .ok b) :
    HintsConsistent trace spec operations := by
  obtain ⟨hreadable, hagree⟩ := (rfHints_isOk_iff hconcrete).mp ⟨_, hp.rfHints⟩
  refine ⟨⟨hreadable, (coHints_isOk_iff hconcrete).mp ⟨_, hp.coHints⟩⟩, hagree, ?_, ?_,
    (relationHints_isOk_iff hconcrete).mp ⟨_, hp.relationHints⟩⟩
  · intro r hr hread
    have hmem : r ∈ byId (operations.filter MemoryOperation.isRead) :=
      (List.mem_insertionSort _).mpr (List.mem_filter.mpr ⟨hr, hread⟩)
    obtain ⟨q, -, hq⟩ := mapM_result hp.rfChoices hmem
    exact (rfChoice_eq_ok hnd hp.rfHints hr hq).2.2.2.2
  · intro evidence hevidence
    obtain ⟨hint, hhint, hkey⟩ := mem_of_coHinted hp.coHints hevidence
    exact (hp.coHintValid hint hhint).congr hkey

/-- The addresses in the order of the enumeration. -/
theorem exists_addresses (hp : SpaceParts trace spec operations space rfTable hints) :
    ∃ addresses, Addresses operations addresses ∧ addresses.Perm (writeAddresses operations) ∧
      orderedAddresses space =
        addresses.map (fun a => (a, coherentOrders operations hints a)) := by
  have hperm : (orderedAddresses space).Perm space.coOrders := List.perm_insertionSort _ _
  have hfst : ((orderedAddresses space).map Prod.fst).Perm (writeAddresses operations) := by
    refine (hperm.map _).trans ?_
    rw [hp.coOrders, List.map_map]
    exact List.Perm.of_eq (List.map_id _)
  refine ⟨(orderedAddresses space).map Prod.fst,
    (addresses_writeAddresses operations).perm hfst, hfst, ?_⟩
  rw [List.map_map]
  refine (List.map_id _).symm.trans (List.map_congr_left (fun q hq => ?_))
  have hq' := hperm.subset hq
  rw [hp.coOrders] at hq'
  obtain ⟨a, -, rfl⟩ := List.mem_map.mp hq'
  rfl

theorem rfTable_choices (hp : SpaceParts trace spec operations space rfTable hints)
    (hnd : (operations.map MemoryOperation.id).Nodup) :
    RfChoices trace spec operations space.rfChoices :=
  rfChoices_of_mapM hnd hp.rfHints hp.rfChoices

/-- There is something to enumerate. -/
theorem exists_candidate (hp : SpaceParts trace spec operations space rfTable hints)
    (hnd : (operations.map MemoryOperation.id).Nodup) : ∃ c, c ∈ space.candidates := by
  obtain ⟨sources, hsources⟩ := Choice.exists_mem_assignments (hp.rfTable_choices hnd).choices_ne
  obtain ⟨addresses, -, hperm, hordered⟩ := hp.exists_addresses
  have hne : ∀ q ∈ orderedAddresses space, q.2 ≠ [] := by
    rw [hordered]
    intro q hq
    obtain ⟨a, ha, rfl⟩ := List.mem_map.mp hq
    exact hp.nonempty a (hperm.subset ha)
  obtain ⟨orders, horders⟩ := Choice.exists_mem_assignments hne
  exact ⟨⟨sources, orders⟩, mem_candidates.mpr ⟨hsources, horders⟩⟩

theorem mem_pairs (hp : SpaceParts trace spec operations space rfTable hints)
    (hnd : (operations.map MemoryOperation.id).Nodup) (hone : OneInitialWrite operations)
    (hamo : AmoFree operations) (rf co : Finset Edge) :
    (rf, co) ∈ space.pairs ↔ IsCandidate trace spec operations rf co := by
  obtain ⟨addresses, hcover, -, hordered⟩ := hp.exists_addresses
  have hrf := (hp.rfTable_choices hnd).exists_iff rf
  have hco := coAssignments_iff hnd hcover hamo (fun a _ => length_initWritesAt hnd hone a)
    hp.coHints hp.coHintValid co
  rw [IsCandidate, ← hrf, ← hco, ← hordered, CandidateSpace.pairs, List.mem_map]
  constructor
  · rintro ⟨c, hc, heq⟩
    obtain ⟨hsources, horders⟩ := mem_candidates.mp hc
    obtain ⟨rfl, rfl⟩ := Prod.mk.inj heq
    exact ⟨⟨c.sources, hsources, rfl⟩, ⟨c.orders, horders, rfl⟩⟩
  · rintro ⟨⟨sources, hsources, rfl⟩, ⟨orders, horders, rfl⟩⟩
    exact ⟨⟨sources, orders⟩, mem_candidates.mpr ⟨hsources, horders⟩, rfl⟩

/-- Different choices of orders are different coherence orders. -/
theorem orders_unique (hp : SpaceParts trace spec operations space rfTable hints)
    (hnd : (operations.map MemoryOperation.id).Nodup) (hone : OneInitialWrite operations)
    (hamo : AmoFree operations) {l l' : List (Value × List String)}
    (hl : l ∈ Choice.assignments (orderedAddresses space))
    (hl' : l' ∈ Choice.assignments (orderedAddresses space))
    (h : (coRelation (l.map Prod.snd)).edges = (coRelation (l'.map Prod.snd)).edges) : l = l' := by
  obtain ⟨addresses, hcover, -, hordered⟩ := hp.exists_addresses
  have hlisting : ∀ {m}, m ∈ Choice.assignments (orderedAddresses space) →
      List.Forall₂ List.Perm (m.map Prod.snd) (addresses.map (writeIdsAt operations)) := by
    intro m hm
    rw [hordered, Choice.mem_assignments, List.forall₂_map_right_iff] at hm
    rw [List.forall₂_map_left_iff, List.forall₂_map_right_iff]
    refine hm.imp (fun q a hq => ?_)
    have horder := (mem_coherentOrders.mp hq.2).1
    exact ((mem_orderCandidates_of_amoFree hnd hamo (length_initWritesAt hnd hone a)).mp horder).1
  have hsnd := listing_unique (blocks_writeIdsAt hnd hcover) (hlisting hl) (hlisting hl') h
  have hfst := (Choice.keys_of_mem_assignments hl).trans (Choice.keys_of_mem_assignments hl').symm
  rw [← List.zip_unzip l, ← List.zip_unzip l', List.unzip_fst, List.unzip_snd, List.unzip_fst,
    List.unzip_snd, hfst, hsnd]

theorem nodup_pairs (hp : SpaceParts trace spec operations space rfTable hints)
    (hnd : (operations.map MemoryOperation.id).Nodup) (hone : OneInitialWrite operations)
    (hamo : AmoFree operations) : space.pairs.Nodup := by
  have hchoices := hp.rfTable_choices hnd
  have hcandidates : space.candidates.Nodup := by
    refine nodup_candidates hchoices.choices_nodup (fun q hq => ?_)
    rw [hp.coOrders] at hq
    obtain ⟨a, -, rfl⟩ := List.mem_map.mp hq
    exact (nodup_orderCandidates hnd a).filter _
  refine hcandidates.map_on (fun c hc c' hc' heq => ?_)
  obtain ⟨hsources, horders⟩ := mem_candidates.mp hc
  obtain ⟨hsources', horders'⟩ := mem_candidates.mp hc'
  obtain ⟨hrf, hco⟩ := Prod.mk.inj heq
  have h₁ := hchoices.unique hsources hsources' hrf
  have h₂ := hp.orders_unique hnd hone hamo horders horders' hco
  cases c
  cases c'
  simp only at h₁ h₂
  rw [h₁, h₂]

end SpaceParts

/-! ## Graph errors -/

section Errors

variable {trace : Trace} {spec : GraphModelSpec} {operations : Operations}

/-- A graph error is raised. -/
abbrev FailsGraph {α : Type} (x : Except PyError α) : Prop :=
  Fails (fun e => e.isGraphError = true) x

/-- An address that can be listed is not rejected. -/
theorem not_rejectedAt_of_candidate {operations : List MemoryOperation} {hints : List CoEvidence}
    {co : Finset Edge} (hnd : (operations.map MemoryOperation.id).Nodup)
    (hone : OneInitialWrite operations) (hhints : coHints trace spec = .ok hints)
    (hvalid : ∀ hint ∈ hints, CoHintValid operations hint)
    (hco : IsCoherenceOrder trace spec operations co) (a : Value) :
    ¬ RejectedAt operations hints a := by
  rintro (hinvalid | hbreaks)
  · exact hinvalid (fun hint hhint => hvalid hint (mem_hintsAt.mp hhint).1)
  · let listed := initWritesAt operations a ++ ordinaryWritesAt operations a
    have hwrite : ∀ x ∈ listed, ∃ w ∈ writesAt operations a, w.id = x := by
      intro x hx
      rcases List.mem_append.mp hx with hx | hx
      · obtain ⟨w, hw, -, hid⟩ := mem_initWritesAt.mp hx
        exact ⟨w, hw, hid⟩
      · obtain ⟨w, hw, -, hid⟩ := mem_ordinaryWritesAt.mp hx
        exact ⟨w, hw, hid⟩
    have hirr : ∀ x, ¬ (x, x) ∈ co := by
      intro x hx
      obtain ⟨v, hv, w, hw, heq, hsame⟩ := hco.edge _ hx
      obtain ⟨hxv, hxw⟩ := Prod.mk.inj heq
      exact hsame.ne (List.inj_on_of_nodup_map hnd hv hw (hxv.symm.trans hxw))
    have hinitNd : (initWritesAt operations a).Nodup := by
      rcases nil_or_singleton (length_initWritesAt hnd hone a) with hnil | ⟨x, hx⟩
      · rw [hnil]
        exact List.nodup_nil
      · rw [hx]
        exact List.nodup_singleton x
    have hlistedNd : listed.Nodup := by
      refine List.nodup_append.mpr ⟨hinitNd, nodup_ordinaryWritesAt hnd a, ?_⟩
      rintro x hx y hy rfl
      obtain ⟨v, hv, hvkind, hvid⟩ := mem_initWritesAt.mp hx
      obtain ⟨w, hw, hwkind, rfl⟩ := mem_ordinaryWritesAt.mp hy
      rw [List.inj_on_of_nodup_map hnd (mem_writesAt.mp hv).1 (mem_writesAt.mp hw).1 hvid,
        hwkind] at hvkind
      cases hvkind
    obtain ⟨order, hperm, hsorted⟩ := exists_sorted (r := fun x y => (x, y) ∈ co) hlistedNd
      (fun x _ => hirr x) (fun x _ y _ z _ => hco.trans x y z) (by
        intro x hx y hy hne
        obtain ⟨v, hv, rfl⟩ := hwrite x hx
        obtain ⟨w, hw, rfl⟩ := hwrite y hy
        obtain ⟨hv, hvwrite, hvaddr⟩ := mem_writesAt.mp hv
        obtain ⟨hw, hwwrite, hwaddr⟩ := mem_writesAt.mp hw
        exact hco.total v hv w hw ⟨hvwrite, hwwrite, hvaddr.trans hwaddr.symm,
          (id_ne_iff hnd hv hw).mp hne⟩)
    -- whatever coherence orders, the sorted order lists in that order
    have hlists : ∀ {x y}, x ∈ order → y ∈ order → (x, y) ∈ co → Precedes order x y := by
      intro x y hx hy hxy
      have hne : x ≠ y := fun heq => hirr y (heq ▸ hxy)
      have hordNd := hperm.nodup_iff.mpr hlistedNd
      rcases orderedPairs_total hx hy hne with h | h
      · exact (mem_orderedPairs hordNd).mp h
      · exact absurd (hco.trans x y x hxy (rel_of_mem_orderedPairs hsorted h)) (hirr x)
    have horder : order ∈ orderCandidates operations a := by
      rw [mem_orderCandidates (length_initWritesAt hnd hone a) hlistedNd]
      refine ⟨hperm, fun x hx y hy => ?_⟩
      have hx' := hperm.symm.subset (List.mem_append_left (ordinaryWritesAt operations a) hx)
      have hy' := hperm.symm.subset (List.mem_append_right (initWritesAt operations a) hy)
      obtain ⟨v, hv, hvkind, rfl⟩ := mem_initWritesAt.mp hx
      obtain ⟨w, hw, hwkind, rfl⟩ := mem_ordinaryWritesAt.mp hy
      obtain ⟨hv, hvwrite, hvaddr⟩ := mem_writesAt.mp hv
      obtain ⟨hw, hwwrite, hwaddr⟩ := mem_writesAt.mp hw
      refine hlists hx' hy' (hco.initial v hv w hw hvkind
        ⟨hvwrite, hwwrite, hvaddr.trans hwaddr.symm, ?_⟩)
      rintro rfl
      rw [hvkind] at hwkind
      cases hwkind
    obtain ⟨tested, hint, rest, heq, -, hbefore, hafter, hnot⟩ := hbreaks order horder
    have hhint : hint ∈ hintsAt hints a := by
      rw [heq]
      exact List.mem_append_right _ List.mem_cons_self
    exact hnot (hlists hbefore hafter
      (hco.hinted hint (coHinted_of_mem hhints (mem_hintsAt.mp hhint).1)))

/-- The trace runs into a graph error before, or instead of, a hint that names a
write which is not permuted. -/
def EarlierError (trace : Trace) (spec : GraphModelSpec) (operations : List MemoryOperation) : Prop :=
  ¬ HintsReadable trace spec ∨ ¬ RfHintsAgree trace spec ∨
  (∃ r ∈ operations, r.isRead = true ∧
    ¬ ((∀ evidence, RfHinted trace spec r.id evidence → RfHintValid operations r evidence) ∧
      ∃ w, Source trace spec operations r w)) ∨
  ∃ hints, coHints trace spec = .ok hints ∧
    ((∃ before a after, writeAddresses operations = before ++ a :: after ∧
        (∀ b ∈ before, ¬ StuckAt operations hints b) ∧ RejectedAt operations hints a) ∨
      (∀ a ∈ writeAddresses operations, ¬ StuckAt operations hints a) ∧
        ((∃ hint ∈ hints, ∀ a ∈ writeAddresses operations, hint.address.key ≠ a.key) ∨
          ¬ RelationHintsKnown trace spec operations))

/-- Short of getting stuck, the choices of an address raise graph errors only. -/
theorem raises_coChoice_iff {operations : List MemoryOperation} {hints : List CoEvidence}
    (hnd : (operations.map MemoryOperation.id).Nodup) (hone : OneInitialWrite operations)
    {a : Value} : GraphRaises (coChoice operations hints a) ↔ ¬ StuckAt operations hints a := by
  rw [← coChoice_eq_valueError hnd (length_initWritesAt hnd hone a)]
  constructor
  · intro h hvalue
    cases h _ hvalue
  · intro h e he
    exact (coChoice_raises e he).resolve_right (fun heq => h (heq ▸ he))

theorem fails_coChoice_iff {operations : List MemoryOperation} {hints : List CoEvidence}
    (hnd : (operations.map MemoryOperation.id).Nodup) (hone : OneInitialWrite operations)
    {a : Value} : FailsGraph (coChoice operations hints a) ↔ RejectedAt operations hints a := by
  rw [← coChoice_eq_graphError hnd (length_initWritesAt hnd hone a)]
  constructor
  · rintro ⟨e, he, hgraph⟩
    obtain ⟨message, rfl⟩ := PyError.isGraphError_iff.mp hgraph
    exact ⟨message, he⟩
  · rintro ⟨m, h⟩
    exact ⟨_, h, rfl⟩

theorem rfChoices_isOk_iff {operations : List MemoryOperation} {rfTable : Dict String RfEvidence}
    (hnd : (operations.map MemoryOperation.id).Nodup) (hrf : rfHints trace spec = .ok rfTable) :
    (∃ table, (byId (operations.filter MemoryOperation.isRead)).mapM (rfChoice operations rfTable) =
      .ok table) ↔ ∀ r ∈ operations, r.isRead = true →
        (∀ evidence, RfHinted trace spec r.id evidence → RfHintValid operations r evidence) ∧
          ∃ w, Source trace spec operations r w := by
  have hmem : ∀ r, r ∈ byId (operations.filter MemoryOperation.isRead) ↔
      r ∈ operations ∧ r.isRead = true := by
    intro r
    rw [byId, List.mem_insertionSort, List.mem_filter]
  constructor
  · rintro ⟨table, h⟩ r hr hread
    obtain ⟨q, -, hq⟩ := mapM_result h ((hmem r).mpr ⟨hr, hread⟩)
    exact (rfChoice_isOk_iff hnd hrf hr).mp ⟨q, hq⟩
  · intro h
    refine exists_mapM (fun r hr => ?_)
    obtain ⟨hr, hread⟩ := (hmem r).mp hr
    exact (rfChoice_isOk_iff hnd hrf hr).mpr (h r hr hread)

/-- When a graph error is raised instead of a candidate space. -/
theorem failsGraph_buildCandidateSpace_iff
    (hops : projectOperations trace spec.projection = .ok operations)
    (hone : OneInitialWrite operations.list) :
    FailsGraph (buildCandidateSpace trace spec) ↔ EarlierError trace spec operations.list := by
  have hconcrete := concrete_of_projectOperations hops
  have hnd := operations.nodup
  have hrfIff : (∃ rfTable, rfHints trace spec = .ok rfTable) ↔ _ := rfHints_isOk_iff hconcrete
  have hcoIff : (∃ hints, coHints trace spec = .ok hints) ↔ _ := coHints_isOk_iff hconcrete
  rw [FailsGraph, buildCandidateSpace, hops, ok_bind, fails_bind, (rfHints_raises trace spec).fails_iff]
  by_cases hrf : ∃ rfTable, rfHints trace spec = .ok rfTable
  case neg =>
    rw [iff_true_left (Or.inl hrf), EarlierError]
    by_cases hread : HintsReadable trace spec
    · exact Or.inr (Or.inl (fun hagree => hrf (hrfIff.mpr ⟨hread.rf, hagree⟩)))
    · exact Or.inl hread
  obtain ⟨rfTable, hrf⟩ := hrf
  obtain ⟨hreadRf, hagree⟩ := hrfIff.mp ⟨rfTable, hrf⟩
  rw [hrf]
  simp only [ok.injEq, exists_eq', not_true_eq_false, false_or, exists_eq_left']
  rw [fails_bind, (coHints_raises trace spec).fails_iff]
  by_cases hco : ∃ hints, coHints trace spec = .ok hints
  case neg =>
    rw [iff_true_left (Or.inl hco)]
    exact Or.inl (fun hread => hco (hcoIff.mpr hread.co))
  obtain ⟨hints, hco⟩ := hco
  have hread : HintsReadable trace spec := ⟨hreadRf, hcoIff.mp ⟨hints, hco⟩⟩
  rw [hco, EarlierError, hco]
  simp only [ok.injEq, exists_eq', not_true_eq_false, false_or, exists_eq_left', hread, hagree]
  -- the sources of the reads
  have hrfRaises : GraphRaises ((byId (operations.list.filter MemoryOperation.isRead)).mapM
      (rfChoice operations.list rfTable)) := Raises.mapM (fun r _ => rfChoice_raises r)
  rw [fails_bind, hrfRaises.fails_iff, rfChoices_isOk_iff hnd hrf]
  by_cases hsources : ∀ r ∈ operations.list, r.isRead = true →
      (∀ evidence, RfHinted trace spec r.id evidence → RfHintValid operations.list r evidence) ∧
        ∃ w, Source trace spec operations.list r w
  case neg =>
    rw [iff_true_left (Or.inl hsources)]
    push Not at hsources
    obtain ⟨r, hr, hread, hnot⟩ := hsources
    exact Or.inl ⟨r, hr, hread, fun h => by obtain ⟨w, hw⟩ := h.2; exact hnot h.1 w hw⟩
  obtain ⟨table, htable⟩ := (rfChoices_isOk_iff hnd hrf).mpr hsources
  have hno : ¬ ∃ r ∈ operations.list, r.isRead = true ∧
      ¬ ((∀ evidence, RfHinted trace spec r.id evidence → RfHintValid operations.list r evidence) ∧
        ∃ w, Source trace spec operations.list r w) := by
    rintro ⟨r, hr, hread, hnot⟩
    exact hnot (hsources r hr hread)
  rw [htable]
  simp only [ok.injEq, hno, false_or, exists_eq_left']
  rw [or_iff_right (not_not_intro hsources)]
  -- the orders of the addresses
  have hsplit : FailsGraph ((writeAddresses operations.list).mapM (coChoice operations.list hints)) ↔
      ∃ before a after, writeAddresses operations.list = before ++ a :: after ∧
        (∀ b ∈ before, ¬ StuckAt operations.list hints b) ∧ RejectedAt operations.list hints a := by
    rw [FailsGraph, fails_mapM]
    simp only [raises_coChoice_iff hnd hone, fails_coChoice_iff hnd hone]
  rw [fails_bind, ← hsplit]
  by_cases hfails : FailsGraph ((writeAddresses operations.list).mapM (coChoice operations.list hints))
  · exact iff_of_true (Or.inl hfails) (Or.inl hfails)
  rw [or_iff_right hfails, or_iff_right hfails]
  have hmapM : (∃ coOrders, (writeAddresses operations.list).mapM (coChoice operations.list hints) =
      .ok coOrders) ↔ ∀ a ∈ writeAddresses operations.list, ¬ StuckAt operations.list hints a := by
    constructor
    · rintro ⟨coOrders, h⟩ a ha
      obtain ⟨p, -, hp⟩ := mapM_result h ha
      rw [← raises_coChoice_iff hnd hone, hp]
      exact raises_ok p
    · intro hfree
      have hraises : GraphRaises ((writeAddresses operations.list).mapM
          (coChoice operations.list hints)) :=
        Raises.mapM (fun a ha => (raises_coChoice_iff hnd hone).mpr (hfree a ha))
      exact not_not.mp (mt hraises.fails_iff.mpr hfails)
  -- the addresses of the hints and the relation hints
  rw [← hmapM, ← exists_and_right]
  refine exists_congr (fun coOrders => and_congr_right (fun _ => ?_))
  rw [fails_bind, fails_require (p := fun e : PyError => e.isGraphError = true) rfl, fails_bind,
    (relationHints_raises _ _ _).fails_iff,
    relationHints_isOk_iff hconcrete]
  by_cases hlocated : ∀ hint ∈ hints, ∃ address ∈ writeAddresses operations.list,
      hint.address.pyEq address = true
  · have hnone : ¬ ∃ hint ∈ hints, ∀ a ∈ writeAddresses operations.list,
        hint.address.key ≠ a.key := by
      rintro ⟨hint, hhint, hne⟩
      obtain ⟨a, ha, heq⟩ := hlocated hint hhint
      exact hne a ha (Value.pyEq_iff.mp heq)
    rw [or_iff_right (not_not_intro hlocated), or_iff_right hnone]
    constructor
    · rintro ⟨_, -, hunknown | ⟨_, -, h⟩⟩
      · exact hunknown
      · exact absurd h (not_fails_ok _)
    · exact fun hunknown => ⟨(), require_eq_ok.mpr hlocated, Or.inl hunknown⟩
  · refine iff_of_true (Or.inl hlocated) (Or.inl ?_)
    push Not at hlocated
    obtain ⟨hint, hhint, hne⟩ := hlocated
    exact ⟨hint, hhint, fun a ha heq => hne a ha (Value.pyEq_iff.mpr heq)⟩

/-- A graph error means that a hint is inconsistent or that there is no candidate. -/
theorem graphError_sound (hone : OneInitialWrite operations.list) (h : EarlierError trace spec operations.list) :
    ¬ HintsConsistent trace spec operations.list ∨
      ¬ ∃ rf co, IsCandidate trace spec operations.list rf co := by
  by_contra hcontra
  rw [not_or, not_not, not_not] at hcontra
  obtain ⟨hconsistent, rf, co, hrf, hco⟩ := hcontra
  rcases h with h | h | ⟨r, hr, hread, h⟩ | ⟨hints, hhints, h⟩
  · exact h hconsistent.readable
  · exact h hconsistent.agree
  · refine h ⟨hconsistent.rf r hr hread, ?_⟩
    obtain ⟨x, hx⟩ := hrf.source r hr hread
    obtain ⟨w, hw, r', hr', heq, -, hmay, hhinted⟩ := hrf.edge _ hx
    obtain ⟨-, hid⟩ := Prod.mk.inj heq
    rw [← List.inj_on_of_nodup_map operations.nodup hr hr' hid] at hmay hhinted
    exact ⟨w, hw, hmay, hhinted⟩
  · have hvalid : ∀ hint ∈ hints, CoHintValid operations.list hint :=
      fun hint hhint => hconsistent.co hint (coHinted_of_mem hhints hhint)
    rcases h with ⟨-, a, -, -, -, hrejected⟩ | ⟨-, ⟨hint, hhint, hne⟩ | hunknown⟩
    · exact not_rejectedAt_of_candidate operations.nodup hone hhints hvalid hco a hrejected
    · obtain ⟨v, hv, _, _, _, _, hsame, haddress⟩ := hvalid hint hhint
      obtain ⟨a, ha, hkey⟩ := exists_writeAddress hv hsame.left
      exact hne a ha (haddress.symm.trans hkey.symm)
    · exact hunknown hconsistent.relation

/-- Errors other than graph errors come from a hint that gets an address stuck. -/
theorem stuck_of_error (hops : projectOperations trace spec.projection = .ok operations)
    (hone : OneInitialWrite operations.list) {e : PyError}
    (h : buildCandidateSpace trace spec = .error e) (hgraph : e.isGraphError = false) :
    ∃ hints, ∃ a ∈ writeAddresses operations.list, StuckAt operations.list hints a := by
  have hraises : Raises (fun e => e.isGraphError = true ∨
      ∃ hints, ∃ a ∈ writeAddresses operations.list, StuckAt operations.list hints a)
      (buildCandidateSpace trace spec) := by
    rw [buildCandidateSpace, hops, ok_bind]
    refine Raises.bind (fun e he => Or.inl (rfHints_raises trace spec e he)) (fun rfTable _ => ?_)
    refine Raises.bind (fun e he => Or.inl (coHints_raises trace spec e he)) (fun hints _ => ?_)
    refine Raises.bind (Raises.mapM (fun r _ e he => Or.inl (rfChoice_raises r e he)))
      (fun _ _ => ?_)
    refine Raises.bind (Raises.mapM (fun a ha e he => ?_)) (fun _ _ => ?_)
    · by_cases hstuck : StuckAt operations.list hints a
      · exact Or.inr ⟨hints, a, ha, hstuck⟩
      · exact Or.inl ((raises_coChoice_iff operations.nodup hone).mpr hstuck e he)
    · refine Raises.bind ?_ (fun _ _ => ?_)
      · exact raises_require (Or.inl rfl)
      · exact Raises.bind (fun e he => Or.inl (relationHints_raises _ _ _ e he))
          (fun _ _ => raises_ok _)
  rcases hraises e h with hgraph' | hstuck
  · rw [hgraph] at hgraph'
    cases hgraph'
  · exact hstuck

/-! ## The exact condition -/

theorem not_stuckAt_of_amoFree {operations : List MemoryOperation} {hints : List CoEvidence}
    (hnd : (operations.map MemoryOperation.id).Nodup) (hone : OneInitialWrite operations)
    (hamo : AmoFree operations) (a : Value) : ¬ StuckAt operations hints a := by
  rintro ⟨hvalid, order, horder, hstuck⟩
  refine not_stuck_of_listed (fun hint hhint => ?_) hstuck
  have hperm := ((mem_orderCandidates_of_amoFree hnd hamo
    (length_initWritesAt hnd hone a)).mp horder).1
  obtain ⟨v, hv, w, hw, hidv, hidw, hsame, haddress⟩ := hvalid hint hhint
  have hkey := haddress.trans (mem_hintsAt.mp hhint).2
  rw [← hidv, ← hidw]
  exact ⟨hperm.symm.subset ((mem_writeIdsAt_of_mem hnd hv).mpr ⟨hsame.left, hkey⟩),
    hperm.symm.subset ((mem_writeIdsAt_of_mem hnd hw).mpr
      ⟨hsame.right, hsame.address.symm.trans hkey⟩)⟩

/-- Without AMOs the enumeration is exact. -/
theorem enumerationExact_of_amoFree (hops : projectOperations trace spec.projection = .ok operations)
    (hone : OneInitialWrite operations.list) (hamo : AmoFree operations.list) :
    EnumerationExact trace spec operations.list := by
  rw [EnumerationExact]
  cases hspace : buildCandidateSpace trace spec with
  | ok space =>
      obtain ⟨rfTable, hints, hp⟩ := spaceParts_of_ok hops hone hspace
      have hnames := relationHints_names hp.relationHints
      have hmem := hp.mem_pairs operations.nodup hone hamo
      obtain ⟨c, hc⟩ := hp.exists_candidate operations.nodup
      refine ⟨hp.hintsConsistent operations.nodup (concrete_of_projectOperations hops),
        ⟨_, _, (hmem _ _).mp (List.mem_map_of_mem hc)⟩, hmem,
        hp.nodup_pairs operations.nodup hone hamo, ?_, ?_⟩
      · rw [CandidateSpace.pairs, List.length_map, length_candidates]
      · exact fun limit hpos hlimit => ⟨fun graphs h => iterExecutionGraphs_pairs hspace hnames h,
          fun e h => rejectedGraph_of_error hspace hpos hlimit h⟩
  | error e =>
      cases hgraph : e.isGraphError
      · obtain ⟨hints, a, -, hstuck⟩ := stuck_of_error hops hone hspace hgraph
        exact absurd hstuck (not_stuckAt_of_amoFree operations.nodup hone hamo a)
      · have hearlier := (failsGraph_buildCandidateSpace_iff hops hone).mp ⟨e, hspace, hgraph⟩
        obtain ⟨message, rfl⟩ := PyError.isGraphError_iff.mp hgraph
        exact graphError_sound hone hearlier

/-- An enumeration that is reached with an AMO misses every candidate. -/
theorem not_enumerationExact_of_amo {space : CandidateSpace}
    (hops : projectOperations trace spec.projection = .ok operations)
    (hone : OneInitialWrite operations.list) (hspace : buildCandidateSpace trace spec = .ok space)
    {m : MemoryOperation} (hm : m ∈ operations.list) (hkind : m.kind = .amo) :
    ¬ EnumerationExact trace spec operations.list := by
  rw [EnumerationExact, hspace]
  rintro ⟨-, ⟨rf, co, hcandidate⟩, hmem, -⟩
  obtain ⟨rfTable, hints, hp⟩ := spaceParts_of_ok hops hone hspace
  obtain ⟨addresses, -, -, hordered⟩ := hp.exists_addresses
  have hread : m.isRead = true := by simp [MemoryOperation.isRead, hkind]
  have hwrite : m.isWrite = true := by simp [MemoryOperation.isWrite, hkind]
  -- the AMO and its source are two writes of one address
  obtain ⟨x, hx⟩ := hcandidate.1.source m hm hread
  obtain ⟨w, hw, m', hm', heq, -, hmay, -⟩ := hcandidate.1.edge _ hx
  obtain ⟨-, hid⟩ := Prod.mk.inj heq
  rw [← List.inj_on_of_nodup_map operations.nodup hm hm' hid] at hmay
  have hedge := hcandidate.2.total w hw m hm ⟨hmay.write, hwrite, hmay.address, hmay.ne⟩
  -- the listed orders have no AMO
  obtain ⟨c, hc, hpair⟩ := List.mem_map.mp ((hmem rf co).mpr hcandidate)
  obtain ⟨-, rfl⟩ := Prod.mk.inj hpair
  have hlisted : ∀ y z, (y, z) ∈ (coRelation (c.orders.map Prod.snd)).edges → y ≠ m.id ∧ z ≠ m.id := by
    intro y z hyz
    obtain ⟨l, hl, hyz⟩ := mem_pairsOf.mp hyz
    obtain ⟨p, hp', rfl⟩ := List.mem_map.mp hl
    obtain ⟨q, hq, -, horder⟩ := Choice.table_of_mem (mem_candidates.mp hc).2 hp'
    rw [hordered] at hq
    obtain ⟨a, -, rfl⟩ := List.mem_map.mp hq
    have hnot : ∀ u ∈ p.2, u ≠ m.id := by
      rintro u hu rfl
      obtain ⟨v, hv, hvkind, hvid⟩ := kind_of_mem_orderCandidates (mem_coherentOrders.mp horder).1 hu
      rw [List.inj_on_of_nodup_map operations.nodup (mem_writesAt.mp hv).1 hm hvid] at hvkind
      exact hvkind hkind
    obtain ⟨hy, hz⟩ := mem_of_mem_orderedPairs hyz
    exact ⟨hnot y hy, hnot z hz⟩
  rcases hedge with h | h
  · exact (hlisted _ _ h).2 rfl
  · exact (hlisted _ _ h).1 rfl

end Errors

/-- The enumeration is exact exactly when there is no AMO, or when an error
that has nothing to do with the AMO comes first. -/
theorem enumerationExact_iff {trace : Trace} {spec : GraphModelSpec} {operations : Operations}
    (hops : projectOperations trace spec.projection = .ok operations)
    (hone : OneInitialWrite operations.list) : EnumerationExact trace spec operations.list ↔
      AmoFree operations.list ∨ EarlierError trace spec operations.list := by
  constructor
  · intro hexact
    by_contra hcontra
    rw [not_or, AmoFree] at hcontra
    push Not at hcontra
    obtain ⟨⟨m, hm, hkind⟩, hearlier⟩ := hcontra
    cases hspace : buildCandidateSpace trace spec with
    | ok space => exact not_enumerationExact_of_amo hops hone hspace hm hkind hexact
    | error e =>
        have hnot : e.isGraphError ≠ true := fun hgraph =>
          hearlier ((failsGraph_buildCandidateSpace_iff hops hone).mp ⟨e, hspace, hgraph⟩)
        rw [EnumerationExact, hspace] at hexact
        cases e <;> simp_all [PyError.isGraphError]
  · rintro (hamo | hearlier)
    · exact enumerationExact_of_amoFree hops hone hamo
    · obtain ⟨e, he, hgraph⟩ := (failsGraph_buildCandidateSpace_iff hops hone).mpr hearlier
      obtain ⟨message, rfl⟩ := PyError.isGraphError_iff.mp hgraph
      rw [EnumerationExact, he]
      exact graphError_sound hone hearlier

/-! ## An AMO that reads the initial value -/

/-- A projection under the names of the built-in model, without hints. -/
def amoProjection : ProjectionSpec where
  initWriteEvent := "Arch.InitWrite"
  loadEvent := "Arch.Load"
  storeEvent := "Arch.Store"
  loadCommitEvent := "Arch.CommitRead"
  idField := "op_id"
  addressField := "address"
  valueField := "value"
  hartField := "hart"
  programIndexField := "program_index"
  requireCommittedLoads := true
  amoEvent := some "Arch.AMO"
  lrEvent := some "Arch.LR"
  scEvent := some "Arch.SC"
  writeValueField := "write_value"
  metadataFields := .empty
  rfHints := []
  coHints := []
  relationHints := []

def amoSpec : GraphModelSpec where
  model := "rvwmo"
  projection := amoProjection
  derivedRelations := []
  axioms := []
  builtinModel := some .rvwmo
  ppoRules := []
  model_ne := by decide
  derived_nodup := by decide
  axioms_nodup := by decide

theorem append_ne_empty (s t u : String) (h : t ≠ "") : s ++ t ++ u ≠ "" := by
  intro heq
  rw [String.append_eq_empty_iff, String.append_eq_empty_iff] at heq
  exact h heq.1.2

/-- An occurring event with concrete fields. -/
def occurring (number : Nat) (layer kind : String) (fields : List (String × Value)) :
    EventInstance where
  id := "" ++ "e" ++ toString number
  eventType := layer ++ "." ++ kind
  fields := .ofList (fields.map (fun p => (p.1, .value p.2)))
  cycle := .absent
  occurs := .known true
  id_ne := append_ne_empty "" "e" _ (by decide)
  eventType_ne := append_ne_empty layer "." kind (by decide)
  cycle_sort := EventCycle.int_of_absent
  occurs_sort := Occurs.bool_of_known true

/-- `x = 0` initially, and one AMO that reads 0 and writes 1. -/
def amoTrace : Trace where
  events :=
    [ occurring 0 "Arch" "InitWrite"
        [("op_id", .str "i"), ("address", .int 8), ("value", .int 0)],
      occurring 1 "Arch" "AMO"
        [("op_id", .str "m"), ("address", .int 8), ("write_value", .int 1), ("hart", .int 0),
          ("program_index", .int 0)],
      occurring 2 "Arch" "CommitRead" [("op_id", .str "m"), ("value", .int 0)] ]
  constraints := []
  isPartial := false
  nodup := by decide
  bool_constraints := Expr.bool_of_mem_nil

/-- The operations of the trace: an initial write and the AMO. -/
theorem amoTrace_projects : ∃ operations, projectOperations amoTrace amoSpec.projection = .ok operations ∧
    operations.list.map (fun op => (op.id, op.kind)) = [("i", .initWrite), ("m", .amo)] := by
  have h : (do
      let operations ← projectOperations amoTrace amoSpec.projection
      return operations.list.map (fun op => (op.id, op.kind)) : Except PyError _) =
        .ok [("i", .initWrite), ("m", .amo)] := by decide +kernel
  obtain ⟨operations, hops, h⟩ := bind_eq_ok.mp h
  exact ⟨operations, hops, by simpa [pure, Except.pure] using h⟩

theorem amoTrace_space : ∃ space, buildCandidateSpace amoTrace amoSpec = .ok space := by
  have h : (buildCandidateSpace amoTrace amoSpec).isOk = true := by decide +kernel
  cases hspace : buildCandidateSpace amoTrace amoSpec with
  | ok space => exact ⟨space, rfl⟩
  | error e => simp [hspace, Except.isOk, Except.toBool] at h

theorem amoTrace_oneInitialWrite {operations : Operations}
    (h : operations.list.map (fun op => (op.id, op.kind)) = [("i", .initWrite), ("m", .amo)]) :
    OneInitialWrite operations.list := by
  have hid : ∀ x ∈ operations.list, x.kind = .initWrite → x.id = "i" := by
    intro x hx hkind
    have hmem := List.mem_map_of_mem (f := fun op => (op.id, op.kind)) hx
    rw [h, hkind] at hmem
    simpa using hmem
  intro x hx y hy hxkind hykind _
  exact List.inj_on_of_nodup_map operations.nodup hx hy ((hid x hx hxkind).trans (hid y hy hykind).symm)

/-- The condition on this trace. -/
theorem amoTrace_exact_iff : ∃ operations, projectOperations amoTrace amoSpec.projection = .ok operations ∧
    (EnumerationExact amoTrace amoSpec operations.list ↔
      AmoFree operations.list ∨ EarlierError amoTrace amoSpec operations.list) := by
  obtain ⟨operations, hops, hlist⟩ := amoTrace_projects
  exact ⟨operations, hops, enumerationExact_iff hops (amoTrace_oneInitialWrite hlist)⟩

/-- The only coherence order has the edge from the initial write to the AMO; the
enumerated one is empty. -/
theorem amoTrace_not_exact : ∃ operations,
    projectOperations amoTrace amoSpec.projection = .ok operations ∧
      OneInitialWrite operations.list ∧ ¬ EnumerationExact amoTrace amoSpec operations.list := by
  obtain ⟨operations, hops, hlist⟩ := amoTrace_projects
  obtain ⟨space, hspace⟩ := amoTrace_space
  have hone := amoTrace_oneInitialWrite hlist
  have hmem : ("m", OperationKind.amo) ∈ operations.list.map (fun op => (op.id, op.kind)) := by
    rw [hlist]
    simp
  obtain ⟨m, hm, heq⟩ := List.mem_map.mp hmem
  exact ⟨operations, hops, hone, not_enumerationExact_of_amo hops hone hspace hm (Prod.mk.inj heq).2⟩

end Umcm
