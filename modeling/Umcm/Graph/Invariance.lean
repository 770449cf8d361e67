import Umcm.Graph.Locations
import Umcm.Graph.Rearranged
import Umcm.Graph.SameGraph

/-!
# The order of the events is invisible

Two traces with the same named events have the same candidate executions and
the same verdict.

* `buildCandidateSpace_rearranged`: the candidate spaces have the same choices.
* `buildGraph_same`: the candidates give the same graphs.
* `checkTraceMemoryModel_invariant`: the check returns the same verdict, or
  raises an error on both traces.

Which error is raised may depend on the order when an event is malformed in a
way that the projection does not turn into a graph error
(`misplacedTrace_not_invariant`).
-/

namespace Umcm

open FinOrder Except

/-! ## The candidate space -/

section Choices

variable {operations operations' : List MemoryOperation}
  (hnd : (operations.map MemoryOperation.id).Nodup) (hperm : operations.Perm operations')

theorem sortIds_perm {ids ids' : List String} (h : ids.Perm ids') : sortIds ids = sortIds ids' :=
  insertionSort_eq_of_perm h

include hnd hperm in
/-- The operations in the order of their ids. -/
theorem byId_perm (p : MemoryOperation → Bool) :
    byId (operations'.filter p) = byId (operations.filter p) := by
  have hsorted : ∀ ops : List MemoryOperation, (byId ops).Pairwise (fun a b => a.id ≤ b.id) :=
    fun ops => List.pairwise_insertionSort (fun a b : MemoryOperation => a.id ≤ b.id) ops
  have hlisted : ∀ ops : List MemoryOperation, (byId ops).Perm ops :=
    fun ops => List.perm_insertionSort _ ops
  refine List.Perm.eq_of_pairwise ?_ (hsorted _) (hsorted _)
    (((hlisted _).trans (hperm.filter p).symm).trans (hlisted _).symm)
  intro a b ha hb hab hba
  have ha' := (List.mem_filter.mp ((hlisted _).mem_iff.mp ha)).1
  have hb' := (List.mem_filter.mp ((hlisted _).mem_iff.mp hb)).1
  exact List.inj_on_of_nodup_map hnd (hperm.mem_iff.mpr ha') hb' (le_antisymm hab hba)

variable {a a' : Value} (haddress : a.key = a'.key)

include hperm haddress in
theorem writesAt_perm : (writesAt operations a).Perm (writesAt operations' a') := by
  have hsame : ∀ write : MemoryOperation, write.address.pyEq a = write.address.pyEq a' := by
    intro write
    rw [Bool.eq_iff_iff, Value.pyEq_iff, Value.pyEq_iff, haddress]
  simp only [writesAt, hsame]
  exact (hperm.filter _).filter _

include hperm haddress in
theorem initWritesAt_perm : initWritesAt operations a = initWritesAt operations' a' :=
  sortIds_perm (((writesAt_perm hperm haddress).filter _).map _)

include hperm haddress in
theorem orderCandidates_perm : orderCandidates operations a = orderCandidates operations' a' := by
  have hordinary : ordinaryWritesAt operations a = ordinaryWritesAt operations' a' :=
    sortIds_perm (((writesAt_perm hperm haddress).filter _).map _)
  rw [orderCandidates, orderCandidates, initWritesAt_perm hperm haddress, hordinary]

variable {hints hints' : List CoEvidence} (hhints : SameHints hints hints')

include hhints haddress in
theorem SameHints.exists_hintsAt {e : CoEvidence} (he : e ∈ hintsAt hints a) :
    ∃ e' ∈ hintsAt hints' a', e'.semanticKey = e.semanticKey := by
  obtain ⟨hmem, hkey⟩ := mem_hintsAt.mp he
  obtain ⟨e', hmem', heq⟩ := hhints.exists_mem hmem
  have hkeys := (Prod.mk.inj (Prod.mk.inj heq).2).2
  exact ⟨e', mem_hintsAt.mpr ⟨hmem', (hkeys.trans hkey).trans haddress⟩, heq⟩

include hhints haddress in
theorem respects_same {order : List String} (h : Respects order (hintsAt hints a)) :
    Respects order (hintsAt hints' a') := by
  intro e' he'
  obtain ⟨e, he, heq⟩ := hhints.symm.exists_hintsAt haddress.symm he'
  have hbefore : e.beforeWriteId = e'.beforeWriteId := (Prod.mk.inj heq).1
  have hafter : e.afterWriteId = e'.afterWriteId := (Prod.mk.inj (Prod.mk.inj heq).2).1
  have hprecedes := h e he
  rwa [hbefore, hafter] at hprecedes

include hperm hhints haddress in
theorem coherentOrders_same :
    coherentOrders operations hints a = coherentOrders operations' hints' a' := by
  rw [coherentOrders, coherentOrders, orderCandidates_perm hperm haddress]
  refine List.filter_congr (fun order _ => ?_)
  rw [decide_eq_decide]
  exact ⟨respects_same haddress hhints, respects_same haddress.symm hhints.symm⟩

include hperm in
theorem CoHintValid.perm {e : CoEvidence} (h : CoHintValid operations e) :
    CoHintValid operations' e := by
  obtain ⟨v, hv, w, hw, hrest⟩ := h
  exact ⟨v, hperm.mem_iff.mp hv, w, hperm.mem_iff.mp hw, hrest⟩

/-- Two orders of an address list the same writes. -/
theorem mem_order_iff {order order' : List String} (horder : order ∈ orderCandidates operations a)
    (horder' : order' ∈ orderCandidates operations a) (x : String) : x ∈ order ↔ x ∈ order' := by
  obtain ⟨permuted, hpermuted, rfl⟩ := mem_orderCandidates_iff.mp horder
  obtain ⟨permuted', hpermuted', rfl⟩ := mem_orderCandidates_iff.mp horder'
  rw [List.mem_append, List.mem_append, hpermuted.mem_iff, hpermuted'.mem_iff]

include hnd hperm hhints haddress in
/-- The choices of an address are returned for both traces or for neither: where
an order respects the hints, they name listed writes only. -/
theorem coChoice_same {p : Value × List (List String)}
    (h : coChoice operations hints a = .ok p) :
    coChoice operations' hints' a' = .ok (a', coherentOrders operations' hints' a') := by
  have hinit : (initWritesAt operations a).length ≤ 1 := by
    obtain ⟨_, hlength, -⟩ := bind_eq_ok.mp h
    exact require_eq_ok.mp hlength
  obtain ⟨hvalid, -, hne, -⟩ := (coChoice_eq_ok hnd hinit).mp h
  have hinit' : (initWritesAt operations' a').length ≤ 1 := by
    rwa [← initWritesAt_perm hperm haddress]
  refine (coChoice_eq_ok ((hperm.map _).nodup_iff.mp hnd) hinit').mpr ⟨?_, ?_, ?_, rfl⟩
  · intro e' he'
    obtain ⟨e, he, heq⟩ := hhints.symm.exists_hintsAt haddress.symm he'
    exact ((hvalid e he).congr heq).perm hperm
  · obtain ⟨kept, hkept⟩ := List.exists_mem_of_ne_nil _ hne
    obtain ⟨hkept, hrespects⟩ := mem_coherentOrders.mp hkept
    have hrespects' := respects_same haddress hhints hrespects
    rw [orderCandidates_perm hperm haddress] at hkept
    intro order horder
    refine not_stuck_of_listed (fun hint hhint => ?_)
    have hprecedes := hrespects' hint hhint
    exact ⟨(mem_order_iff hkept horder _).mp hprecedes.1,
      (mem_order_iff hkept horder _).mp hprecedes.2.1⟩
  · rwa [← coherentOrders_same hperm haddress hhints]

end Choices

section Space

variable {trace trace' : Trace} {spec : GraphModelSpec} (hre : Rearranged spec trace trace')

include hre in
theorem source_iff {operations operations' : List MemoryOperation}
    (hperm : operations.Perm operations') {r w : MemoryOperation} :
    Source trace spec operations r w ↔ Source trace' spec operations' r w := by
  simp only [Source, hperm.mem_iff, rfHinted_iff hre]

theorem rfHintValid_iff {operations operations' : List MemoryOperation}
    (hperm : operations.Perm operations') {r : MemoryOperation} {e : RfEvidence} :
    RfHintValid operations r e ↔ RfHintValid operations' r e := by
  simp only [RfHintValid, hperm.mem_iff]

theorem rfChoice_sorted {operations : List MemoryOperation} {hints : Dict String RfEvidence}
    {r : MemoryOperation} {p : String × List String} (h : rfChoice operations hints r = .ok p) :
    p.2.Pairwise (· ≤ ·) := by
  obtain ⟨candidates, -, h⟩ := bind_eq_ok.mp h
  obtain ⟨_, -, h⟩ := bind_eq_ok.mp h
  cases h
  exact List.pairwise_insertionSort _ _

include hre in
/-- A read has the same choices. -/
theorem rfChoice_same {operations operations' : List MemoryOperation}
    (hnd : (operations.map MemoryOperation.id).Nodup) (hperm : operations.Perm operations')
    {hints hints' : Dict String RfEvidence} (hrf : rfHints trace spec = .ok hints)
    (hrf' : rfHints trace' spec = .ok hints') {r : MemoryOperation} (hr : r ∈ operations)
    {p : String × List String} (h : rfChoice operations hints r = .ok p) :
    rfChoice operations' hints' r = .ok p := by
  have hnd' := (hperm.map MemoryOperation.id).nodup_iff.mp hnd
  have hr' : r ∈ operations' := hperm.mem_iff.mp hr
  obtain ⟨hvalid, w, hw⟩ := (rfChoice_isOk_iff hnd hrf hr).mp ⟨p, h⟩
  obtain ⟨p', h'⟩ := (rfChoice_isOk_iff hnd' hrf' hr').mpr
    ⟨fun e he => (rfHintValid_iff hperm).mp (hvalid e ((rfHinted_iff hre).mpr he)),
      w, (source_iff hre hperm).mp hw⟩
  obtain ⟨hid, -, hnodup, hmem, -⟩ := rfChoice_eq_ok hnd hrf hr h
  obtain ⟨hid', -, hnodup', hmem', -⟩ := rfChoice_eq_ok hnd' hrf' hr' h'
  have hsources : p.2.Perm p'.2 := by
    refine (List.perm_ext_iff_of_nodup hnodup hnodup').mpr (fun x => ?_)
    rw [hmem, hmem']
    simp only [source_iff hre hperm]
  have hsnd : p.2 = p'.2 :=
    List.Perm.eq_of_pairwise (fun _ _ _ _ => le_antisymm) (rfChoice_sorted h) (rfChoice_sorted h')
      hsources
  rw [h', Prod.ext (hid.trans hid'.symm) hsnd]

/-- The spaces have the same operations, sources and relation hints, and the
same orders up to the order of the addresses. -/
structure SameSpace (space space' : CandidateSpace) : Prop where
  operations : space.operations.list.Perm space'.operations.list
  rfChoices : space.rfChoices = space'.rfChoices
  coOrders : (space.coOrders.map Prod.snd).Perm (space'.coOrders.map Prod.snd)
  relationHints : space.relationHints = space'.relationHints

/-- The addresses of the writes, by their keys. -/
theorem mem_writeAddresses_keys {operations operations' : List MemoryOperation}
    (hperm : operations.Perm operations') {key : Key}
    (h : key ∈ (writeAddresses operations).map Value.key) :
    key ∈ (writeAddresses operations').map Value.key := by
  obtain ⟨a, ha, rfl⟩ := List.mem_map.mp h
  obtain ⟨w, hw, hwrite, hkey⟩ := write_of_mem_writeAddresses ha
  obtain ⟨a', ha', hkey'⟩ := exists_writeAddress (hperm.mem_iff.mp hw) hwrite
  exact List.mem_map.mpr ⟨a', ha', by rw [hkey', ← hkey]⟩

/-- Choices that depend on the key of the address only. -/
theorem map_writeAddresses_perm {β : Type} {operations operations' : List MemoryOperation}
    (hperm : operations.Perm operations') {f f' : Value → β}
    (hf : ∀ a ∈ writeAddresses operations, ∀ a' ∈ writeAddresses operations', a.key = a'.key →
      f a = f' a') :
    ((writeAddresses operations).map f).Perm ((writeAddresses operations').map f') := by
  classical
  have hnd := nodup_writeAddresses operations
  have hnd' := nodup_writeAddresses operations'
  have hkeys : ((writeAddresses operations).map Value.key).Perm
      ((writeAddresses operations').map Value.key) :=
    (List.perm_ext_iff_of_nodup hnd hnd').mpr (fun key =>
      ⟨mem_writeAddresses_keys hperm, mem_writeAddresses_keys hperm.symm⟩)
  -- both are read off the keys through the second trace's addresses
  let byKey : Key → Option β := fun key =>
    ((writeAddresses operations').find? (fun a' => a'.key = key)).map f'
  have hfind : ∀ a' ∈ writeAddresses operations', ∀ key, a'.key = key →
      byKey key = some (f' a') := by
    intro a' ha' key hkey
    have hsome : ((writeAddresses operations').find? (fun a' => a'.key = key)).isSome :=
      List.find?_isSome.mpr ⟨a', ha', by simpa using hkey⟩
    obtain ⟨a'', ha''⟩ := Option.isSome_iff_exists.mp hsome
    have hmem := List.mem_of_find?_eq_some ha''
    have hkey' : a''.key = key := by simpa using List.find?_some ha''
    show Option.map f' _ = _
    rw [ha'', List.inj_on_of_nodup_map hnd' hmem ha' (hkey'.trans hkey.symm), Option.map_some]
  have hmap' : ((writeAddresses operations').map Value.key).map byKey =
      ((writeAddresses operations').map f').map some := by
    rw [List.map_map, List.map_map]
    exact List.map_congr_left (fun a' ha' => hfind a' ha' _ rfl)
  have hmap : ((writeAddresses operations).map Value.key).map byKey =
      ((writeAddresses operations).map f).map some := by
    rw [List.map_map, List.map_map]
    refine List.map_congr_left (fun a ha => ?_)
    obtain ⟨a', ha', hkey⟩ :=
      List.mem_map.mp (mem_writeAddresses_keys hperm (List.mem_map_of_mem ha))
    show byKey a.key = some (f a)
    rw [hfind a' ha' _ hkey, hf a ha a' ha' hkey.symm]
  have hsome := hkeys.map byKey
  rw [hmap, hmap'] at hsome
  exact (List.map_perm_map_iff (Option.some_injective β)).mp hsome

include hre in
/-- The named events give the same candidate space, whatever their order. -/
theorem buildCandidateSpace_rearranged {space : CandidateSpace}
    (h : buildCandidateSpace trace spec = .ok space) :
    ∃ space', buildCandidateSpace trace' spec = .ok space' ∧ SameSpace space space' := by
  obtain ⟨operations, hops, -⟩ := bind_eq_ok.mp h
  obtain ⟨operations', hops', hperm⟩ := projectOperations_rearranged hre hops
  have hnd := operations.nodup
  simp only [buildCandidateSpace, bind_eq_ok, hops, require_eq_ok, Value.pyEq_iff] at h
  obtain ⟨_, heq, rfTable, hrf, hints, hco, rfChoices, hrfChoices, coOrders, hcoOrders, _, hlocated,
    relations, hrelations, h⟩ := h
  cases heq
  cases h
  obtain ⟨rfTable', hrf'⟩ := rfHints_rearranged hre hrf
  obtain ⟨hints', hco', hhints⟩ := coHints_rearranged hre hco
  have hrfChoices' : (byId (operations'.list.filter MemoryOperation.isRead)).mapM
      (rfChoice operations'.list rfTable') = .ok rfChoices := by
    rw [byId_perm hnd hperm]
    refine mapM_imp hrfChoices (fun r hr p hp => ?_)
    have hmem := (List.mem_filter.mp ((List.mem_insertionSort _).mp hr)).1
    exact rfChoice_same hre hnd hperm hrf hrf' hmem hp
  have hchoice' : ∀ a' ∈ writeAddresses operations'.list, coChoice operations'.list hints' a' =
      .ok (a', coherentOrders operations'.list hints' a') := by
    intro a' ha'
    obtain ⟨a, ha, hkey⟩ :=
      List.mem_map.mp (mem_writeAddresses_keys hperm.symm (List.mem_map_of_mem ha'))
    obtain ⟨p, -, hp⟩ := mapM_result hcoOrders ha
    exact coChoice_same hnd hperm hkey hhints hp
  have hcoOrders' : (writeAddresses operations'.list).mapM (coChoice operations'.list hints') =
      .ok ((writeAddresses operations'.list).map
        (fun a' => (a', coherentOrders operations'.list hints' a'))) := by
    rw [mapM_eq_ok, List.forall₂_map_right_iff, List.forall₂_same]
    exact hchoice'
  have hcoOrdersEq : coOrders = (writeAddresses operations.list).map
      (fun a => (a, coherentOrders operations.list hints a)) := by
    have hmap := map_mapM (p := id) (q := fun a => (a, coherentOrders operations.list hints a))
      hcoOrders (fun {a p} hp => ?_)
    · rwa [List.map_id] at hmap
    · obtain ⟨_, hlength, -⟩ := bind_eq_ok.mp hp
      exact ((coChoice_eq_ok hnd (require_eq_ok.mp hlength)).mp hp).2.2.2
  have hlocated' : ∀ hint ∈ hints', ∃ address ∈ writeAddresses operations'.list,
      hint.address.key = address.key := by
    intro hint' hhint'
    obtain ⟨hint, hhint, hsemantic⟩ := hhints.symm.exists_mem hhint'
    obtain ⟨a, ha, hkey⟩ := hlocated hint hhint
    obtain ⟨a', ha', hkey'⟩ :=
      List.mem_map.mp (mem_writeAddresses_keys hperm (List.mem_map_of_mem ha))
    have haddress : hint.address.key = hint'.address.key := (Prod.mk.inj (Prod.mk.inj hsemantic).2).2
    exact ⟨a', ha', haddress.symm.trans (hkey.trans hkey'.symm)⟩
  refine ⟨⟨operations', rfChoices, (writeAddresses operations'.list).map
    (fun a' => (a', coherentOrders operations'.list hints' a')), relations⟩, ?_, hperm, rfl, ?_, rfl⟩
  · simp only [buildCandidateSpace, bind_eq_ok, require_eq_ok, Value.pyEq_iff]
    exact ⟨operations', hops', rfTable', hrf', hints', hco', rfChoices, hrfChoices', _, hcoOrders',
      (), hlocated', relations, relationHints_rearranged hre hperm hrelations, rfl⟩
  · rw [hcoOrdersEq, List.map_map, List.map_map]
    refine map_writeAddresses_perm hperm (fun a _ a' _ hkey => ?_)
    exact coherentOrders_same hperm hkey hhints

end Space

/-! ## The candidates -/

/-- The completion by the built-in model, if there is one. -/
def completeBy (model : Option BuiltinModel) (graph : ExecutionGraph) :
    Except PyError ExecutionGraph :=
  match model with
  | some .rvwmo => completeRvwmoRelations graph
  | none => .ok graph

section Candidates

variable {space space' : CandidateSpace} (hsame : SameSpace space space')

theorem SameSpace.symm (h : SameSpace space space') : SameSpace space' space :=
  ⟨h.operations.symm, h.rfChoices.symm, h.coOrders.symm, h.relationHints.symm⟩

include hsame

theorem estimatedCandidates_same : space'.estimatedCandidates = space.estimatedCandidates := by
  have hlengths : ∀ table : List (Value × List (List String)),
      table.map (fun p => p.2.length) = (table.map Prod.snd).map List.length := by
    intro table
    rw [List.map_map]
    rfl
  rw [CandidateSpace.estimatedCandidates, CandidateSpace.estimatedCandidates, hsame.rfChoices,
    hlengths, hlengths, (hsame.coOrders.map List.length).prod_eq]

/-- Every candidate has a counterpart with the same sources and coherence edges. -/
theorem exists_candidate_same {c : Candidate} (hc : c ∈ space.candidates) :
    ∃ c' ∈ space'.candidates, c'.sources = c.sources ∧
      coRelation (c'.orders.map Prod.snd) = coRelation (c.orders.map Prod.snd) := by
  obtain ⟨hsources, horders⟩ := mem_candidates.mp hc
  have hordered : ∀ s : CandidateSpace, (orderedAddresses s).Perm s.coOrders :=
    fun s => List.perm_insertionSort _ _
  have htables : ((orderedAddresses space).map Prod.snd).Perm
      ((orderedAddresses space').map Prod.snd) :=
    (((hordered space).map Prod.snd).trans hsame.coOrders).trans ((hordered space').map Prod.snd).symm
  obtain ⟨orders', horders', hperm⟩ := Choice.exists_assignment_perm htables horders
  refine ⟨⟨c.sources, orders'⟩, mem_candidates.mpr ⟨?_, horders'⟩, rfl, ?_⟩
  · rw [← hsame.rfChoices]
    exact hsources
  · rw [coRelation, coRelation,
      List.toFinset_eq_of_perm _ _ (hperm.symm.flatMap_right orderedPairs)]

theorem loadLoadPreserved_same (sources : List (String × String)) (e : Edge) :
    loadLoadPreserved space'.operations.list sources e =
      loadLoadPreserved space.operations.list sources e := by
  rw [loadLoadPreserved, loadLoadPreserved, endpoints_perm space.operations.nodup hsame.operations]
  cases endpoints space.operations.list e with
  | none => rfl
  | some ends => simp only [any_perm hsame.operations]

theorem ppoRelation_same (po : Relation) (sources : List (String × String)) (rules : List PpoRule) :
    ppoRelation po sources space'.operations.list rules =
      ppoRelation po sources space.operations.list rules := by
  simp only [ppoRelation, loadLoadPreserved_same hsame]

theorem rfeRelation_same (rf : Relation) :
    rfeRelation rf space'.operations.list = rfeRelation rf space.operations.list := by
  simp only [rfeRelation, sameHart_perm space.operations.nodup hsame.operations]

omit hsame in
/-- The steps from a candidate to its graph. -/
theorem buildGraph_eq_ok {spec : GraphModelSpec} {po : Relation} {candidateId : Nat} {c : Candidate}
    {g : ExecutionGraph} : buildGraph space spec po candidateId c = .ok g ↔
      ∃ base completed relations, candidateGraph space spec po candidateId c = .ok base ∧
        completeBy spec.builtinModel base = .ok completed ∧
        deriveRelations spec.derivedRelations completed.relations = .ok relations ∧
        ExecutionGraph.make space.operations.list relations candidateId completed.metadata
          space.operations.nodup = .ok g := by
  unfold buildGraph completeBy
  cases spec.builtinModel with
  | none => simp [bind_eq_ok]
  | some model =>
      cases model
      simp [bind_eq_ok]

/-- The base graphs of a candidate and its counterpart are the same. -/
theorem candidateGraph_same {spec : GraphModelSpec} {po : Relation} {candidateId : Nat}
    {c c' : Candidate} {g : ExecutionGraph} (h : candidateGraph space spec po candidateId c = .ok g)
    (hsources : c'.sources = c.sources)
    (horders : coRelation (c'.orders.map Prod.snd) = coRelation (c.orders.map Prod.snd))
    (candidateId' : Nat) :
    ∃ g', candidateGraph space' spec po candidateId' c' = .ok g' ∧ SameGraph g g' := by
  have hperm := hsame.operations
  simp only [candidateGraph, hsources, horders, rfeRelation_same hsame, ppoRelation_same hsame,
    ← hsame.relationHints] at h ⊢
  obtain ⟨hops, hrels, -, hmeta⟩ := ExecutionGraph.make_eq_ok h
  obtain ⟨g', h'⟩ := make_perm hperm h candidateId'
    { graphModel := some spec.model
      rfAssignment := c.sources
      coOrders := Dict.ofList (c'.orders.map (fun p => (p.1.pyStr, p.2)))
      builtinModel := none
      gmoOrder := none } space'.operations.nodup
  obtain ⟨hops', hrels', -, hmeta'⟩ := ExecutionGraph.make_eq_ok h'
  refine ⟨g', h', ?_, hrels.trans hrels'.symm, by rw [hmeta, hmeta'], ?_⟩
  · rw [hops, hops']
    exact hperm
  · rw [hmeta]
    exact Or.inl rfl

omit hsame in
theorem completeBy_same {model : Option BuiltinModel} {g g' completed : ExecutionGraph}
    (hg : SameGraph g g') (h : completeBy model g = .ok completed) :
    ∃ completed', completeBy model g' = .ok completed' ∧ SameGraph completed completed' ∧
      completed.operations = g.operations := by
  cases model with
  | none =>
      cases h
      exact ⟨g', rfl, hg, rfl⟩
  | some model =>
      cases model
      obtain ⟨completed', h', hsame⟩ := completeRvwmoRelations_same hg h
      exact ⟨completed', h', hsame, (completed_of_complete h).2.1⟩

/-- A candidate and its counterpart have the same graph. -/
theorem buildGraph_same {spec : GraphModelSpec} {po : Relation} {candidateId : Nat} {c : Candidate}
    {g : ExecutionGraph} (h : buildGraph space spec po candidateId c = .ok g) {c' : Candidate}
    (hsources : c'.sources = c.sources)
    (horders : coRelation (c'.orders.map Prod.snd) = coRelation (c.orders.map Prod.snd))
    (candidateId' : Nat) :
    ∃ g', buildGraph space' spec po candidateId' c' = .ok g' ∧ SameGraph g g' := by
  have hperm := hsame.operations
  obtain ⟨base, completed, relations, hbase, hcompleted, hderive, h⟩ := buildGraph_eq_ok.mp h
  obtain ⟨base', hbase', hsameBase⟩ :=
    candidateGraph_same hsame hbase hsources horders candidateId'
  obtain ⟨completed', hcompleted', hsameCompleted, hkept⟩ := completeBy_same hsameBase hcompleted
  obtain ⟨hops, hrels, -, hmeta⟩ := ExecutionGraph.make_eq_ok h
  obtain ⟨g', h'⟩ := make_perm hperm h candidateId' completed'.metadata space'.operations.nodup
  obtain ⟨hops', hrels', -, hmeta'⟩ := ExecutionGraph.make_eq_ok h'
  have hderive' : deriveRelations spec.derivedRelations completed'.relations = .ok relations := by
    rw [← hsameCompleted.relations]
    exact hderive
  have hbaseOps : base.operations = space.operations.list := (ExecutionGraph.make_eq_ok hbase).1
  refine ⟨g', buildGraph_eq_ok.mpr ⟨base', completed', relations, hbase', hcompleted', hderive', h'⟩,
    ?_, hrels.trans hrels'.symm, ?_, ?_⟩
  · rw [hops, hops']
    exact hperm
  · rw [hmeta, hmeta']
    exact hsameCompleted.order
  · rw [hmeta, hops, ← hbaseOps, ← hkept]
    exact hsameCompleted.listed

end Candidates

/-! ## The verdict -/

/-- Two checked candidates with the same operations, relations and results. -/
structure SameCandidate (c c' : CandidateCheck) : Prop where
  operations : c.graph.operations.Perm c'.graph.operations
  relations : c.graph.relations = c'.graph.relations
  axioms : c.axioms = c'.axioms

/-- The same status and the same set of candidates. -/
structure SameCheck (check check' : MemoryModelCheck) : Prop where
  status : check.status = check'.status
  forward : ∀ c ∈ check.candidates, ∃ c' ∈ check'.candidates, SameCandidate c c'
  backward : ∀ c' ∈ check'.candidates, ∃ c ∈ check.candidates, SameCandidate c c'

theorem forExecutionGraphs_eq_ok {α : Type} {trace : Trace} {spec : GraphModelSpec}
    {maxCandidates : Int} {body : ExecutionGraph → Except PyError α} {results : List α} :
    forExecutionGraphs trace spec maxCandidates body = .ok results ↔ 0 < maxCandidates ∧
      ∃ space, buildCandidateSpace trace spec = .ok space ∧
        (space.estimatedCandidates : Int) ≤ maxCandidates ∧
        ∃ po, builderPo space.operations.list = .ok po ∧
          space.candidates.zipIdx.mapM (fun p => buildGraph space spec po p.2 p.1 >>= body) =
            .ok results := by
  simp only [forExecutionGraphs, bind_eq_ok, require_eq_ok]
  constructor
  · rintro ⟨_, hpos, space, hspace, _, hlimit, po, hpo, h⟩
    exact ⟨hpos, space, hspace, hlimit, po, hpo, h⟩
  · rintro ⟨hpos, space, hspace, hlimit, po, hpo, h⟩
    exact ⟨(), hpos, space, hspace, (), hlimit, po, hpo, h⟩

/-- The result of a candidate is the result of its counterpart. -/
theorem exists_check_same {space space' : CandidateSpace} {spec : GraphModelSpec} {po : Relation}
    (hsame : SameSpace space space') {results : List CandidateCheck}
    (h : space.candidates.zipIdx.mapM (fun p => buildGraph space spec po p.2 p.1 >>=
      fun graph => checkExecutionGraph graph spec.axioms spec.builtinModel) = .ok results)
    {p' : Candidate × Nat} (hp' : p' ∈ space'.candidates.zipIdx) :
    ∃ check', (buildGraph space' spec po p'.2 p'.1 >>= fun graph =>
      checkExecutionGraph graph spec.axioms spec.builtinModel) = .ok check' ∧
      ∃ check ∈ results, SameCandidate check check' := by
  obtain ⟨c, hc, hsources, horders⟩ :=
    exists_candidate_same hsame.symm (List.fst_mem_of_mem_zipIdx hp')
  obtain ⟨i, hi, hci⟩ := List.mem_iff_getElem.mp hc
  have hmem : (c, i) ∈ space.candidates.zipIdx := by
    rw [List.mem_zipIdx_iff_getElem?, List.getElem?_eq_getElem hi, hci]
  obtain ⟨check, hcheck, hok⟩ := mapM_result h hmem
  obtain ⟨g, hg, hok⟩ := bind_eq_ok.mp hok
  obtain ⟨g', hg', hgraph⟩ := buildGraph_same hsame hg hsources.symm horders.symm p'.2
  obtain ⟨check', hok', hfst, hfst', haxioms⟩ := checkExecutionGraph_same hgraph hok
  refine ⟨check', bind_eq_ok.mpr ⟨g', hg', hok'⟩, check, hcheck, ?_, ?_, haxioms.symm⟩
  · rw [hfst, hfst']
    exact hgraph.operations
  · rw [hfst, hfst']
    exact hgraph.relations

theorem SameCandidate.symm {c c' : CandidateCheck} (h : SameCandidate c c') : SameCandidate c' c :=
  ⟨h.operations.symm, h.relations.symm, h.axioms.symm⟩

/-- The results of the candidates of one trace are those of the other. -/
theorem checks_rearranged {trace trace' : Trace} {spec : GraphModelSpec} {maxCandidates : Int}
    (hre : Rearranged spec trace trace') {results : List CandidateCheck}
    (h : forExecutionGraphs trace spec maxCandidates
      (fun graph => checkExecutionGraph graph spec.axioms spec.builtinModel) = .ok results) :
    ∃ results', forExecutionGraphs trace' spec maxCandidates
        (fun graph => checkExecutionGraph graph spec.axioms spec.builtinModel) = .ok results' ∧
      (∀ c ∈ results, ∃ c' ∈ results', SameCandidate c c') ∧
      ∀ c' ∈ results', ∃ c ∈ results, SameCandidate c c' := by
  obtain ⟨hpos, space, hspace, hlimit, po, hpo, hresults⟩ := forExecutionGraphs_eq_ok.mp h
  obtain ⟨space', hspace', hsame⟩ := buildCandidateSpace_rearranged hre hspace
  have hpo' : builderPo space'.operations.list = .ok po :=
    programOrder_perm space.operations.nodup hsame.operations hpo
  have hlimit' : (space'.estimatedCandidates : Int) ≤ maxCandidates := by
    rwa [estimatedCandidates_same hsame]
  obtain ⟨results', hresults'⟩ := exists_mapM (fun p' hp' =>
    (exists_check_same hsame hresults hp').imp (fun _ h => h.1))
  refine ⟨results', forExecutionGraphs_eq_ok.mpr ⟨hpos, space', hspace', hlimit', po, hpo', hresults'⟩,
    fun c hc => ?_, fun c' hc' => ?_⟩
  · obtain ⟨p, hp, hok⟩ := mapM_origin hresults hc
    obtain ⟨check, hok', c', hc', hcandidate⟩ := exists_check_same hsame.symm hresults' hp
    rw [hok] at hok'
    cases hok'
    exact ⟨c', hc', hcandidate.symm⟩
  · obtain ⟨p', hp', hok'⟩ := mapM_origin hresults' hc'
    obtain ⟨check', hok, c, hc, hcandidate⟩ := exists_check_same hsame hresults hp'
    rw [hok'] at hok
    cases hok
    exact ⟨c, hc, hcandidate⟩

theorem allowed_same {c c' : CandidateCheck} (h : SameCandidate c c') : c.allowed = c'.allowed := by
  rw [CandidateCheck.allowed, CandidateCheck.allowed, h.axioms]

/-- What is returned for one trace is returned for the other. -/
theorem checkTraceMemoryModel_rearranged {trace trace' : Trace} {spec : GraphModelSpec}
    {maxCandidates : Int} (hre : Rearranged spec trace trace') {check : MemoryModelCheck}
    (h : checkTraceMemoryModel trace spec maxCandidates = .ok check) :
    ∃ check', checkTraceMemoryModel trace' spec maxCandidates = .ok check' ∧
      SameCheck check check' := by
  simp only [checkTraceMemoryModel, bind_eq_ok, require_eq_ok] at h ⊢
  obtain ⟨results, hresults, _, hne, h⟩ := h
  cases h
  obtain ⟨results', hresults', hforward, hbackward⟩ := checks_rearranged hre hresults
  have hne' : results' ≠ [] := by
    obtain ⟨c, hc⟩ := List.exists_mem_of_ne_nil _ hne
    obtain ⟨c', hc', -⟩ := hforward c hc
    exact List.ne_nil_of_mem hc'
  have hallowed : results.any CandidateCheck.allowed = results'.any CandidateCheck.allowed := by
    rw [Bool.eq_iff_iff, List.any_eq_true, List.any_eq_true]
    constructor
    · rintro ⟨c, hc, hc'⟩
      obtain ⟨c', hmem, hcandidate⟩ := hforward c hc
      exact ⟨c', hmem, allowed_same hcandidate ▸ hc'⟩
    · rintro ⟨c', hc, hc'⟩
      obtain ⟨c, hmem, hcandidate⟩ := hbackward c' hc
      exact ⟨c, hmem, (allowed_same hcandidate).symm ▸ hc'⟩
  refine ⟨_, ⟨results', hresults', (), hne', rfl⟩, ?_, hforward, hbackward⟩
  show (if results.any CandidateCheck.allowed then _ else _) = _
  rw [hallowed]

/-- Some events are left out, but none of a named type, and the rest comes in
some order. -/
structure Selects (spec : GraphModelSpec) (trace trace' : Trace) : Prop where
  kept : ∃ kept : List EventInstance, kept.Sublist trace.events ∧ kept.Perm trace'.events
  named : ∀ event ∈ trace.events, spec.names event.eventType = true → event ∈ trace'.events

theorem Selects.rearranged {spec : GraphModelSpec} {trace trace' : Trace}
    (h : Selects spec trace trace') (hconcrete : ConcreteTrace trace) :
    Rearranged spec trace trace' := by
  obtain ⟨kept, hsub, hperm⟩ := h.kept
  have hmem : ∀ event ∈ trace'.events, event ∈ trace.events :=
    fun event hevent => hsub.subset (hperm.mem_iff.mpr hevent)
  refine ⟨hconcrete, fun event hevent => hconcrete event (hmem event hevent), ?_⟩
  have hnd : trace.events.Nodup := List.Nodup.of_map _ trace.nodup
  have hnd' : trace'.events.Nodup := List.Nodup.of_map _ trace'.nodup
  refine (List.perm_ext_iff_of_nodup (hnd.filter _) (hnd'.filter _)).mpr (fun event => ?_)
  rw [List.mem_filter, List.mem_filter]
  constructor
  · rintro ⟨hevent, hnamed⟩
    exact ⟨h.named event hevent hnamed, hnamed⟩
  · rintro ⟨hevent, hnamed⟩
    exact ⟨hmem event hevent, hnamed⟩

/-- The same verdict, or an error from both checks; where neither raises anything
but a graph error, it is a graph error from both. -/
def SameOutcome (result result' : Except PyError MemoryModelCheck) : Prop :=
  (∀ check, result = .ok check → ∃ check', result' = .ok check' ∧ SameCheck check check') ∧
  (∀ check', result' = .ok check' → ∃ check, result = .ok check ∧ SameCheck check check') ∧
  (GraphRaises result → GraphRaises result' → (FailsGraph result ↔ FailsGraph result'))

theorem SameCheck.symm {check check' : MemoryModelCheck} (h : SameCheck check check') :
    SameCheck check' check := by
  refine ⟨h.status.symm, fun c hc => ?_, fun c hc => ?_⟩
  · obtain ⟨c', hc', hcandidate⟩ := h.backward c hc
    exact ⟨c', hc', hcandidate.symm⟩
  · obtain ⟨c', hc', hcandidate⟩ := h.forward c hc
    exact ⟨c', hc', hcandidate.symm⟩

/-- Neither the order of the events nor events of other types change the
outcome of the check. -/
theorem checkTraceMemoryModel_invariant {trace trace' : Trace} (spec : GraphModelSpec)
    (maxCandidates : Int) (hconcrete : ConcreteTrace trace) (hselects : Selects spec trace trace') :
    SameOutcome (checkTraceMemoryModel trace spec maxCandidates)
      (checkTraceMemoryModel trace' spec maxCandidates) := by
  have hre := hselects.rearranged hconcrete
  have hforward := fun check (h : checkTraceMemoryModel trace spec maxCandidates = .ok check) =>
    checkTraceMemoryModel_rearranged hre h
  have hbackward : ∀ check', checkTraceMemoryModel trace' spec maxCandidates = .ok check' →
      ∃ check, checkTraceMemoryModel trace spec maxCandidates = .ok check ∧
        SameCheck check check' := by
    intro check' h
    obtain ⟨check, hcheck, hsame⟩ := checkTraceMemoryModel_rearranged hre.symm h
    exact ⟨check, hcheck, hsame.symm⟩
  refine ⟨hforward, hbackward, fun hraises hraises' => ?_⟩
  rw [FailsGraph, FailsGraph, hraises.fails_iff, hraises'.fails_iff, not_iff_not]
  constructor
  · rintro ⟨check, h⟩
    obtain ⟨check', h', -⟩ := hforward check h
    exact ⟨check', h'⟩
  · rintro ⟨check', h'⟩
    obtain ⟨check, h, -⟩ := hbackward check' h'
    exact ⟨check, h⟩

/-! ## An event that is not looked at -/

/-- `x = 0` initially. -/
def initialEvent : EventInstance :=
  occurring 0 "Arch" "InitWrite" [("op_id", .str "i"), ("address", .int 8), ("value", .int 0)]

/-- A micro-architectural event. -/
def issueEvent : EventInstance :=
  occurring 1 "Core" "Issue" [("op_id", .str "w")]

/-- `x = 1`. -/
def storeEvent : EventInstance :=
  occurring 2 "Arch" "Store"
    [("op_id", .str "w"), ("address", .int 8), ("value", .int 1), ("hart", .int 0),
      ("program_index", .int 0)]

def issuedTrace : Trace where
  events := [initialEvent, issueEvent, storeEvent]
  constraints := []
  isPartial := false
  nodup := by decide
  bool_constraints := Expr.bool_of_mem_nil

/-- The store first, and no issue. -/
def reorderedTrace : Trace where
  events := [storeEvent, initialEvent]
  constraints := []
  isPartial := false
  nodup := by decide
  bool_constraints := Expr.bool_of_mem_nil

theorem issuedTrace_selects : Selects amoSpec issuedTrace reorderedTrace := by
  refine ⟨⟨[initialEvent, storeEvent], .cons_cons _ (.cons _ (.cons_cons _ .slnil)), .swap _ _ _⟩, ?_⟩
  show ∀ event ∈ [initialEvent, issueEvent, storeEvent], _
  simp only [List.forall_mem_cons]
  refine ⟨fun _ => ?_, fun h => ?_, fun _ => ?_, fun _ h => ?_⟩
  · exact List.mem_cons_of_mem _ List.mem_cons_self
  · exact absurd h (by decide)
  · exact List.mem_cons_self
  · cases h

/-- The two traces have one candidate each, and it is allowed. -/
theorem issuedTrace_invariant :
    SameOutcome (checkTraceMemoryModel issuedTrace amoSpec 16)
      (checkTraceMemoryModel reorderedTrace amoSpec 16) :=
  checkTraceMemoryModel_invariant amoSpec 16 (by decide) issuedTrace_selects

/-! ## A store without a hart -/

/-- A store whose hart is `None`, which `int` rejects. -/
def unplacedEvent : EventInstance :=
  occurring 3 "Arch" "Store"
    [("op_id", .str "u"), ("address", .int 8), ("value", .int 1), ("hart", .none),
      ("program_index", .int 0)]

/-- A store without an address. -/
def nowhereEvent : EventInstance :=
  occurring 4 "Arch" "Store"
    [("op_id", .str "v"), ("value", .int 1), ("hart", .int 0), ("program_index", .int 0)]

def misplacedTrace : Trace where
  events := [unplacedEvent, nowhereEvent]
  constraints := []
  isPartial := false
  nodup := by decide
  bool_constraints := Expr.bool_of_mem_nil

def misplacedTrace' : Trace where
  events := [nowhereEvent, unplacedEvent]
  constraints := []
  isPartial := false
  nodup := by decide
  bool_constraints := Expr.bool_of_mem_nil

/-- The first malformed event decides which error is raised. -/
theorem misplacedTrace_not_invariant : ConcreteTrace misplacedTrace ∧
    misplacedTrace.events.Perm misplacedTrace'.events ∧
    ¬ (FailsGraph (checkTraceMemoryModel misplacedTrace amoSpec 16) ↔
      FailsGraph (checkTraceMemoryModel misplacedTrace' amoSpec 16)) :=
  ⟨by decide, .swap _ _ _, by decide +kernel⟩

end Umcm
