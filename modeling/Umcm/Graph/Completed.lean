import Umcm.Axiomatic.Execution
import Umcm.Graph.Rvwmo

/-!
# Graphs completed by the built-in model

`Completed g sources` collects what holds of every graph `g` that
`completeRvwmoRelations` returns, `sources` being the reads-from source of each
read. `completed_of_complete` derives it from the code once; everything else
about completed graphs follows from it.
-/

namespace Umcm

open FinOrder

/-- The relation stored under a name, empty if there is none. -/
def ExecutionGraph.rel (g : ExecutionGraph) (name : String) : Relation :=
  relationOrEmpty g.relations name

/-- What the rules of preserved program order look at in a graph. -/
def ExecutionGraph.ppoContext (g : ExecutionGraph) (sources : Dict String String) : PpoContext :=
  PpoContext.of g.operations g.relations sources

/-- The invariant of completed graphs. -/
structure Completed (g : ExecutionGraph) (sources : Dict String String) : Prop where
  regular : ∀ op ∈ g.operations, regular op
  scalar : ScalarLocations g.operations
  has : ∀ name ∈ ["po", "rf", "co", "ppo", "rfe", "fr"], g.relations.get? name = some (g.rel name)
  po : canonicalPo g.operations = .ok (g.rel "po")
  rf : rfSources g.operations (g.rel "rf") = .ok sources
  co : validateCo g.operations (g.rel "co") = .ok ()
  inputs : ∀ name ∈ rvwmoInputRelations,
    validateInputEdges (g.rel "po") (g.rel name) g.operations = .ok ()
  rfe : g.rel "rfe" = rfeOf g.operations (g.rel "rf")
  fr : g.rel "fr" = frOf (g.rel "rf") (g.rel "co")
  ppo : ∀ e, e ∈ (g.rel "ppo").edges ↔
    e ∈ (g.rel "po").edges ∧ ∃ index < 13, preserved (g.ppoContext sources) index e
  order : g.metadata.gmoOrder = some ((topologicalTotalOrder
    (g.operations.map MemoryOperation.id) (rvwmoOrderRelations.map g.rel)).getD [])

/-! ## Storing relations -/

theorem get?_insertAll_of_ne {d : Dict String Relation} {items : List Relation} {name : String}
    (h : name ∉ items.map Relation.name) : (insertAll d items).get? name = d.get? name := by
  induction items generalizing d with
  | nil => rfl
  | cons r rest ih =>
      rw [List.map_cons, List.mem_cons, not_or] at h
      exact (ih h.2).trans (Dict.get?_insert_of_ne d h.1 r)

theorem get?_insertAll_of_mem {d : Dict String Relation} {items : List Relation} {r : Relation}
    (hnd : (items.map Relation.name).Nodup) (h : r ∈ items) :
    (insertAll d items).get? r.name = some r := by
  induction items generalizing d with
  | nil => cases h
  | cons r' rest ih =>
      rw [List.map_cons, List.nodup_cons] at hnd
      rcases List.mem_cons.mp h with rfl | h
      · exact (get?_insertAll_of_ne hnd.1).trans (Dict.get?_insert_self d _ r)
      · exact ih hnd.2 h

theorem relationOrEmpty_of_get? {d : Dict String Relation} {name : String} {r : Relation}
    (h : d.get? name = some r) : relationOrEmpty d name = r := by
  simp [relationOrEmpty, h]

theorem requiredRelation_eq_ok {d : Dict String Relation} {name : String} {r : Relation} :
    requiredRelation d name = .ok r ↔ d.get? name = some r := by
  unfold requiredRelation
  cases d.get? name <;> simp

/-! ## The derived relations -/

/-- Names of the relations `derivePpo` returns. -/
theorem derivePpo_names {operations : List MemoryOperation} {relations : Dict String Relation}
    {sources : Dict String String} {ppo : List Relation}
    (h : derivePpo operations relations sources = .ok ppo) :
    ppo.map Relation.name = rvwmoPpoRelations ++ ["ppo"] := by
  simp only [derivePpo, Except.bind_eq_ok] at h
  obtain ⟨-, -, h⟩ := h
  cases h
  rfl

theorem derivePpo_eq_ok {operations : List MemoryOperation} {relations : Dict String Relation}
    {sources : Dict String String} {ppo : List Relation}
    (h : derivePpo operations relations sources = .ok ppo) :
    (∀ name ∈ rvwmoInputRelations, validateInputEdges (relationOrEmpty relations "po")
      (relationOrEmpty relations name) operations = .ok ()) ∧
    ∃ union ∈ ppo, union.name = "ppo" ∧ ∀ e, e ∈ union.edges ↔
      e ∈ (relationOrEmpty relations "po").edges ∧
        ∃ index < 13, preserved (PpoContext.of operations relations sources) index e := by
  simp only [derivePpo, Except.bind_eq_ok] at h
  obtain ⟨_, hinputs, h⟩ := h
  cases h
  refine ⟨Except.forM_eq_ok.mp hinputs, _, List.mem_append_right _ (List.mem_singleton_self _), rfl, ?_⟩
  intro e
  simp only [unionRelations, mem_allEdges, List.mem_mapIdx, ppoEdges]
  constructor
  · rintro ⟨r, ⟨index, hlt, rfl⟩, he⟩
    obtain ⟨hpo, hpres⟩ := Finset.mem_filter.mp he
    exact ⟨hpo, index, hlt, hpres⟩
  · rintro ⟨hpo, index, hlt, hpres⟩
    exact ⟨_, ⟨index, hlt, rfl⟩, Finset.mem_filter.mpr ⟨hpo, hpres⟩⟩

/-- A completed graph satisfies the invariant, and has the operations, the base
relations and the input relations of the graph it comes from. -/
theorem completed_of_complete {g g' : ExecutionGraph} (h : completeRvwmoRelations g = .ok g') :
    (∃ sources, Completed g' sources) ∧ g'.operations = g.operations ∧
      g'.candidateId = g.candidateId ∧
      ∀ name ∈ ["rf", "co"] ++ rvwmoInputRelations, g'.relations.get? name = g.relations.get? name := by
  simp only [completeRvwmoRelations, Except.bind_eq_ok, Except.require_eq_ok] at h
  obtain ⟨_, hregular, _, hscalar, po, hpo, _, _, rf, hrf, co, hco, sources, hsources, _, hvalid,
    ppo, hppo, h⟩ := h
  obtain ⟨hops, hrels, hid, hmeta⟩ := ExecutionGraph.make_eq_ok h
  set derived := insertAll (g.relations.insert "po" po)
    [rfiOf g.operations rf, rfeOf g.operations rf, frOf rf co, friOf g.operations rf co,
      freOf g.operations rf co] with hderived
  have hnames := derivePpo_names hppo
  obtain ⟨hinputs, union, hunion, huname, hedges⟩ := derivePpo_eq_ok hppo
  set withPpo := insertAll derived ppo with hwithPpo
  have hgmo : ∀ name, name ≠ "gmo" → g'.relations.get? name = withPpo.get? name := by
    intro name hname
    rw [hrels, Dict.get?_insert_of_ne _ hname]
  have houter : ∀ name, name ≠ "gmo" → name ∉ rvwmoPpoRelations ++ ["ppo"] →
      g'.relations.get? name = derived.get? name := by
    intro name hname hnot
    rw [hgmo name hname, hwithPpo, get?_insertAll_of_ne (by rwa [hnames])]
  have hinner : ∀ name, name ∉ ["rfi", "rfe", "fr", "fri", "fre"] →
      derived.get? name = (g.relations.insert "po" po).get? name :=
    fun name hnot => get?_insertAll_of_ne hnot
  have hrfget := (hinner "rf" (by decide)).trans (requiredRelation_eq_ok.mp hrf)
  have hcoget := (hinner "co" (by decide)).trans (requiredRelation_eq_ok.mp hco)
  have hpoget := (hinner "po" (by decide)).trans (Dict.get?_insert_self g.relations "po" po)
  have hdistinct : (["rfi", "rfe", "fr", "fri", "fre"] : List String).Nodup := by decide
  have hrfeget : derived.get? "rfe" = some (rfeOf g.operations rf) :=
    get?_insertAll_of_mem (r := rfeOf g.operations rf) hdistinct (by simp)
  have hfrget : derived.get? "fr" = some (frOf rf co) :=
    get?_insertAll_of_mem (r := frOf rf co) hdistinct (by simp)
  have hppoget : withPpo.get? "ppo" = some union := by
    rw [← huname]
    exact get?_insertAll_of_mem (by rw [hnames]; decide) hunion
  -- relations of the completed graph
  have hpo' := (houter "po" (by decide) (by decide)).trans hpoget
  have hrf' := (houter "rf" (by decide) (by decide)).trans hrfget
  have hco' := (houter "co" (by decide) (by decide)).trans hcoget
  have hrfe' := (houter "rfe" (by decide) (by decide)).trans hrfeget
  have hfr' := (houter "fr" (by decide) (by decide)).trans hfrget
  have hppo' := (hgmo "ppo" (by decide)).trans hppoget
  have hinput : ∀ name ∈ rvwmoInputRelations, g'.relations.get? name = derived.get? name := by
    intro name hname
    refine houter name ?_ ?_ <;> revert name <;> decide
  have hrel : ∀ {name r}, g'.relations.get? name = some r → g'.rel name = r :=
    fun hget => relationOrEmpty_of_get? hget
  have hinputRel : ∀ name ∈ rvwmoInputRelations, g'.rel name = relationOrEmpty derived name := by
    intro name hname
    rw [ExecutionGraph.rel, relationOrEmpty, hinput name hname, relationOrEmpty]
  refine ⟨⟨sources, ?_, ?_, ?_, ?_, ?_, ?_, ?_, ?_, ?_, ?_, ?_⟩, hops, hid, ?_⟩
  · intro op hop
    rw [hops] at hop
    simpa using List.filter_eq_nil_iff.mp (List.map_eq_nil_iff.mp hregular) op hop
  · rw [hops]
    exact scalarLocations_of_validate hscalar
  · intro name hname
    have hsome : ∀ {r}, g'.relations.get? name = some r →
        g'.relations.get? name = some (g'.rel name) := fun hget => by rw [hget, hrel hget]
    simp only [List.mem_cons, List.not_mem_nil, or_false] at hname
    rcases hname with rfl | rfl | rfl | rfl | rfl | rfl
    · exact hsome hpo'
    · exact hsome hrf'
    · exact hsome hco'
    · exact hsome hppo'
    · exact hsome hrfe'
    · exact hsome hfr'
  · rw [hops, hrel hpo', hpo]
  · rw [hops, hrel hrf', hsources]
  · rw [hops, hrel hco']
    exact hvalid
  · intro name hname
    rw [hops, hrel hpo', hinputRel name hname, ← relationOrEmpty_of_get? hpoget]
    exact hinputs name hname
  · rw [hops, hrel hrfe', hrel hrf']
  · rw [hrel hfr', hrel hrf', hrel hco']
  · intro e
    have hctx : g'.ppoContext sources = PpoContext.of g.operations derived sources := by
      have hr : ∀ name ∈ rvwmoInputRelations,
          relationOrEmpty g'.relations name = relationOrEmpty derived name := hinputRel
      rw [ExecutionGraph.ppoContext, hops, PpoContext.of, PpoContext.of, hr "addr" (by decide),
        hr "data" (by decide), hr "ctrl" (by decide), hr "fence" (by decide),
        hr "pair" (by decide), hr "pipeline" (by decide)]
    rw [hrel hppo', hedges e, relationOrEmpty_of_get? hpoget, hrel hpo', hctx]
  · have horder : rvwmoOrderRelations.map g'.rel =
        rvwmoOrderRelations.map (relationOrEmpty withPpo) := by
      apply List.map_congr_left
      intro name hname
      rw [ExecutionGraph.rel, relationOrEmpty, relationOrEmpty, hgmo name (by revert name; decide)]
    rw [hmeta, hops, horder]
  · intro name hname
    have hname' : name ∉ ["rfi", "rfe", "fr", "fri", "fre"] := by revert name; decide
    have hpo' : name ≠ "po" := by revert name; decide
    rw [houter name (by revert name; decide) (by revert name; decide), hinner name hname',
      Dict.get?_insert_of_ne _ hpo']

end Umcm
