import Umcm.Composition.Engine
import Umcm.Solver.Instances
import Umcm.Solver.WellBuilt

/-!
# Private slots

A slot is private to its module when no port has its event type. What other
parts of a composition can say about it depends on three things that
`compose_modules` does not check: a visibility that the slot declares itself,
the constraints of other modules, and rules of other modules that use the same
event type.

* `encapsulated_iff`: an accepted strict composition keeps its boundaries
  exactly when none of the three names a private slot.
-/

namespace Umcm

open Except Compose

/-! ## What an accepted composition is -/

/-- The rule of an event map, with its tags. -/
def IsConnectionRule (modules : List LoadedModule) (catalog : EventCatalog)
    (connection : ConnectionSpec) (r : ModuleRule) : Prop :=
  mappedConnectionTransformation modules catalog connection = .ok r.transformation ∧
    r.tags = connectionTags connection

/-- The parts of an accepted composition. -/
structure Composed (catalog : EventCatalog) (composition : CompositionSpec)
    (result : CompositionResult) : Prop where
  names : result.modules.map LoadedModule.referenceName =
    composition.modules.map ModuleReference.name
  valid : ∀ m ∈ result.modules, m.spec.validate catalog = .ok ()
  slots : result.slots = result.modules.flatMap (fun m => m.spec.slots.map (annotate m))
  rules : ∃ generated,
    List.Forall₂ (IsConnectionRule result.modules catalog) composition.eventMaps generated ∧
    result.rules = result.modules.flatMap (fun m => m.spec.rules.map (tagRule m)) ++ generated
  completionSlots : result.completion.slots = result.slots.map ModuleSlot.slot
  completionRules : result.completion.transformations =
    result.rules.map ModuleRule.transformation
  states : result.completion.stateVariables =
    result.modules.flatMap (fun m => m.spec.stateVariables)
  constraints : result.completion.constraints =
    result.modules.flatMap (fun m => m.spec.constraints) ++ composition.constraints
  strict : composition.isStrict = true →
    validateConstraintEncapsulation composition.constraints result.slots = .ok ()

/-- The lists that a merge has collected from the modules so far. -/
structure MergedFrom (modules : List LoadedModule) (merged : Merged) : Prop where
  slots : merged.slots = modules.flatMap (fun m => m.spec.slots.map (annotate m))
  states : merged.states = modules.flatMap (fun m => m.spec.stateVariables)
  rules : merged.rules = modules.flatMap (fun m => m.spec.rules.map (tagRule m))
  constraints : merged.constraints = modules.flatMap (fun m => m.spec.constraints)

theorem mergedFrom_mergeModule {seen : List LoadedModule} {m : LoadedModule}
    {merged merged' : Merged} (hseen : MergedFrom seen merged)
    (h : mergeModule merged m = .ok merged') : MergedFrom (seen ++ [m]) merged' := by
  obtain ⟨_, -, h⟩ := bind_eq_ok.mp h
  obtain ⟨_, -, h⟩ := bind_eq_ok.mp h
  obtain ⟨_, -, h⟩ := bind_eq_ok.mp h
  cases h
  constructor
  · simp [hseen.slots]
  · simp [hseen.states]
  · simp [hseen.rules]
  · simp [hseen.constraints]

theorem mergedFrom_modules {modules : List LoadedModule} {merged : Merged}
    (h : modules.foldlM mergeModule .nothing = .ok merged) : MergedFrom modules merged :=
  foldlM_invariant MergedFrom (fun _ _ _ _ hseen hstep => mergedFrom_mergeModule hseen hstep)
    ⟨rfl, rfl, rfl, rfl⟩ h

/-- The event maps add one rule each, and nothing else. -/
structure ConnectedFrom (modules : List LoadedModule) (catalog : EventCatalog) (merged : Merged)
    (connections : List ConnectionSpec) (connected : Merged) : Prop where
  slots : connected.slots = merged.slots
  states : connected.states = merged.states
  constraints : connected.constraints = merged.constraints
  rules : ∃ generated, List.Forall₂ (IsConnectionRule modules catalog) connections generated ∧
    connected.rules = merged.rules ++ generated

theorem connectedFrom_mergeConnection {modules : List LoadedModule} {catalog : EventCatalog}
    {merged before after : Merged} {seen : List ConnectionSpec} {connection : ConnectionSpec}
    (hseen : ConnectedFrom modules catalog merged seen before)
    (h : mergeConnection modules catalog before connection = .ok after) :
    ConnectedFrom modules catalog merged (seen ++ [connection]) after := by
  obtain ⟨rule, hrule, h⟩ := bind_eq_ok.mp h
  obtain ⟨_, -, h⟩ := bind_eq_ok.mp h
  cases h
  obtain ⟨generated, hgenerated, hrules⟩ := hseen.rules
  refine ⟨hseen.slots, hseen.states, hseen.constraints, ?_⟩
  refine ⟨generated ++ [⟨rule, connectionTags connection⟩], ?_, ?_⟩
  · exact List.rel_append hgenerated (.cons ⟨hrule, rfl⟩ .nil)
  · simp [hrules]

theorem connectedFrom_connections {modules : List LoadedModule} {catalog : EventCatalog}
    {connections : List ConnectionSpec} {merged connected : Merged}
    (h : connections.foldlM (mergeConnection modules catalog) merged = .ok connected) :
    ConnectedFrom modules catalog merged connections connected :=
  foldlM_invariant (ConnectedFrom modules catalog merged)
    (fun _ _ _ _ hseen hstep => connectedFrom_mergeConnection hseen hstep)
    ⟨rfl, rfl, rfl, [], .nil, by simp⟩ h

theorem loadModule_eq_ok {catalog : EventCatalog}
    {load : ModuleReference → Except PyError ModuleFile} {reference : ModuleReference}
    {m : LoadedModule} (h : loadModule catalog load reference = .ok m) :
    m.referenceName = reference.name ∧ m.spec.name = reference.name ∧
      m.spec.validate catalog = .ok () := by
  obtain ⟨file, -, h⟩ := bind_eq_ok.mp h
  obtain ⟨_, hname, h⟩ := bind_eq_ok.mp h
  obtain ⟨_, hvalid, h⟩ := bind_eq_ok.mp h
  cases h
  exact ⟨rfl, require_eq_ok.mp hname, hvalid⟩

/-- Annotations and tags aside, the parts are those of the modules. -/
theorem map_slot_annotate {m : LoadedModule} :
    (m.spec.slots.map (annotate m)).map ModuleSlot.slot = m.spec.slots.map ModuleSlot.slot := by
  rw [List.map_map]
  rfl

theorem map_transformation_tagRule {m : LoadedModule} :
    (m.spec.rules.map (tagRule m)).map ModuleRule.transformation = m.spec.transformations := by
  rw [List.map_map]
  rfl

section Accepted

variable {Context : Type} {catalog : EventCatalog} {resolve : Except PyError Context}
  {load : Context → ModuleReference → Except PyError ModuleFile} {composition : CompositionSpec}
  {result : CompositionResult}

theorem composed_of_composeModules
    (h : composeModules catalog resolve load composition = .ok result) :
    Composed catalog composition result := by
  obtain ⟨context, -, h⟩ := bind_eq_ok.mp h
  obtain ⟨modules, hmodules, h⟩ := bind_eq_ok.mp h
  obtain ⟨_, -, h⟩ := bind_eq_ok.mp h
  obtain ⟨merged, hmerged, h⟩ := bind_eq_ok.mp h
  obtain ⟨connected, hconnected, h⟩ := bind_eq_ok.mp h
  have hfrom := mergedFrom_modules hmerged
  have hadded := connectedFrom_connections hconnected
  obtain ⟨_, hboundaries, h⟩ := bind_eq_ok.mp h
  obtain ⟨completion, hcompletion, h⟩ := bind_eq_ok.mp h
  cases h
  obtain ⟨hslots, hrules, hstates, hconstraints, -⟩ := CompletionSpec.create_eq_ok hcompletion
  constructor
  case names => exact map_mapM hmodules (fun hm => (loadModule_eq_ok hm).1)
  case valid =>
    intro m hm
    obtain ⟨reference, -, hm⟩ := mapM_origin hmodules hm
    exact (loadModule_eq_ok hm).2.2
  case slots => exact hadded.slots.trans hfrom.slots
  case rules =>
    obtain ⟨generated, hgenerated, heq⟩ := hadded.rules
    exact ⟨generated, hgenerated, heq.trans (by rw [hfrom.rules])⟩
  case completionSlots => exact hslots
  case completionRules => exact hrules
  case states => exact hstates.trans (hadded.states.trans hfrom.states)
  case constraints =>
    refine hconstraints.trans ?_
    rw [hadded.constraints, hfrom.constraints]
  case strict =>
    intro hstrict
    rwa [validateBoundaries, if_pos hstrict] at hboundaries

/-- The slots of the completion model are those of the modules. -/
theorem Composed.slots_eq (h : Composed catalog composition result) :
    result.completion.slots =
      result.modules.flatMap (fun m => m.spec.slots.map ModuleSlot.slot) := by
  rw [h.completionSlots, h.slots, List.map_flatMap]
  exact List.flatMap_congr (fun m _ => map_slot_annotate)

/-- The rules of the completion model are those of the modules and of the event maps. -/
theorem Composed.transformations_eq (h : Composed catalog composition result) :
    ∃ generated, List.Forall₂ (IsConnectionRule result.modules catalog) composition.eventMaps
      generated ∧ result.completion.transformations =
        result.modules.flatMap (fun m => m.spec.transformations) ++
          generated.map ModuleRule.transformation := by
  obtain ⟨generated, hgenerated, hrules⟩ := h.rules
  refine ⟨generated, hgenerated, ?_⟩
  rw [h.completionRules, hrules, List.map_append, List.map_flatMap]
  congr 1
  exact List.flatMap_congr (fun m _ => map_transformation_tagRule)

theorem modules_of_composeModules
    (h : composeModules catalog resolve load composition = .ok result) :
    ∃ context, resolve = .ok context ∧
      composition.modules.mapM (loadModule catalog (load context)) = .ok result.modules := by
  obtain ⟨context, hcontext, h⟩ := bind_eq_ok.mp h
  obtain ⟨modules, hmodules, h⟩ := bind_eq_ok.mp h
  obtain ⟨_, -, h⟩ := bind_eq_ok.mp h
  obtain ⟨merged, -, h⟩ := bind_eq_ok.mp h
  obtain ⟨connected, -, h⟩ := bind_eq_ok.mp h
  obtain ⟨_, -, h⟩ := bind_eq_ok.mp h
  obtain ⟨completion, -, h⟩ := bind_eq_ok.mp h
  cases h
  exact ⟨context, hcontext, hmodules⟩

end Accepted

/-! ## Which rules can bind an event -/

section Bindings

variable {events : List EventInstance}

/-- The types of the roles of a rule. -/
def Transformation.roleTypes (t : Transformation) : List String :=
  (t.inputs ++ t.outputs).map EventRole.eventType

/-- A binding is a choice of an event of the right type for every role. -/
theorem binds_iff_picks {roles : List EventRole} {b : RoleBinding} :
    b.Binds events roles ↔ b.map Prod.fst = roles.map EventRole.name ∧
      ∃ picks : List EventInstance, picks ⊆ events ∧
        picks.map EventInstance.eventType = roles.map EventRole.eventType ∧
        picks.map EventInstance.id = b.ids := by
  rw [RoleBinding.Binds]
  induction roles generalizing b with
  | nil =>
      rw [List.forall₂_nil_right_iff]
      constructor
      · rintro rfl
        exact ⟨rfl, [], List.nil_subset _, rfl, rfl⟩
      · rintro ⟨h, -⟩
        simpa using h
  | cons role rest ih =>
      rw [List.forall₂_cons_right_iff]
      constructor
      · rintro ⟨p, b, ⟨hname, event, hevent, htype, hid⟩, hrest, rfl⟩
        obtain ⟨hnames, picks, hsub, htypes, hids⟩ := ih.mp hrest
        refine ⟨by simp [hname, hnames], event :: picks, List.cons_subset.mpr ⟨hevent, hsub⟩, ?_, ?_⟩
        · simp [htype, htypes]
        · simp only [List.map_cons, hids, hid, RoleBinding.ids]
      · rintro ⟨hnames, picks, hsub, htypes, hids⟩
        cases b with
        | nil => simp at hnames
        | cons p b =>
            cases picks with
            | nil => simp at htypes
            | cons event picks =>
                simp only [List.map_cons, List.cons.injEq, RoleBinding.ids] at hnames htypes hids
                obtain ⟨hevent, hsub⟩ := List.cons_subset.mp hsub
                exact ⟨p, b, ⟨hnames.1, event, hevent, htypes.1, hids.1⟩,
                  ih.mpr ⟨hnames.2, picks, hsub, htypes.2, hids.2⟩, rfl⟩

theorem binds_of_firing {t : Transformation} {input output : RoleBinding}
    (h : t.IsFiring events input output) :
    RoleBinding.Binds events (t.inputs ++ t.outputs) (input ++ output) :=
  List.rel_append h.inputs h.outputs

/-- A rule whose roles ask for no more events than there are binds every event of
the type of one of its roles. -/
theorem exists_firing {t : Transformation} (hnodup : (events.map EventInstance.id).Nodup)
    {event : EventInstance} (hevent : event ∈ events) (htype : event.eventType ∈ t.roleTypes)
    (hcount : ∀ type, t.roleTypes.count type ≤
      (events.map EventInstance.eventType).count type) :
    ∃ input output, t.IsFiring events input output ∧
      event.id ∈ RoleBinding.ids (input ++ output) := by
  classical
  obtain ⟨picks, htypes, hsub, hmem⟩ := Choice.exists_picks_through hevent htype hcount
  have hnodupPicks : (picks.map EventInstance.id).Nodup := by
    obtain ⟨l, hperm, hl⟩ := hsub
    exact ((hperm.map _).nodup_iff).mp (hnodup.sublist (hl.map _))
  have hlength : picks.length = (t.inputs ++ t.outputs).length := by
    simpa [Transformation.roleTypes] using congrArg List.length htypes
  set b : RoleBinding :=
    ((t.inputs ++ t.outputs).map EventRole.name).zip (picks.map EventInstance.id) with hb
  have hids : b.ids = picks.map EventInstance.id :=
    List.map_snd_zip (by simp [hlength])
  have hbinds : b.Binds events (t.inputs ++ t.outputs) :=
    binds_iff_picks.mpr ⟨List.map_fst_zip (by simp [hlength]), picks, hsub.subset, htypes, hids.symm⟩
  have happend : b.take t.inputs.length ++ b.drop t.inputs.length = b := List.take_append_drop ..
  refine ⟨b.take t.inputs.length, b.drop t.inputs.length, ⟨List.forall₂_take_append _ _ _ hbinds,
    List.forall₂_drop_append _ _ _ hbinds, ?_⟩, ?_⟩
  · rw [happend, RoleBinding.distinct, hids]
    exact decide_eq_true hnodupPicks
  · rw [happend, hids]
    exact List.mem_map_of_mem hmem

/-- A firing asks for no more events than there are, and only for events of the
types of its roles. -/
theorem roleTypes_of_firing {t : Transformation} (hnodup : (events.map EventInstance.id).Nodup)
    {input output : RoleBinding} (h : t.IsFiring events input output) :
    (∀ type, t.roleTypes.count type ≤ (events.map EventInstance.eventType).count type) ∧
    ∀ event ∈ events, event.id ∈ RoleBinding.ids (input ++ output) →
      event.eventType ∈ t.roleTypes := by
  obtain ⟨-, picks, hsub, htypes, hids⟩ := binds_iff_picks.mp (binds_of_firing h)
  have hdistinct : (picks.map EventInstance.id).Nodup := by
    rw [hids]
    exact of_decide_eq_true h.distinct
  constructor
  · intro type
    rw [Transformation.roleTypes, ← htypes]
    exact Choice.count_le_of_picks (hdistinct.of_map.subperm hsub) type
  · intro event hevent hid
    rw [← hids] at hid
    obtain ⟨pick, hpick, hsame⟩ := List.mem_map.mp hid
    have heq : pick = event := List.inj_on_of_nodup_map hnodup (hsub hpick) hevent hsame
    rw [Transformation.roleTypes, ← htypes, ← heq]
    exact List.mem_map_of_mem hpick

end Bindings

/-! ## Boundaries -/

/-- The expression reads an attribute of the event. -/
def Expr.Reads (e : Expr) (id : String) : Prop := ∃ ref ∈ e.eventFields, ref.1 = id

/-- The slot is private to the module of the composition. -/
structure Hides (result : CompositionResult) (m : LoadedModule) (s : ModuleSlot) : Prop where
  loaded : m ∈ result.modules
  isPrivate : m.spec.IsPrivate s

/-- Another module of the composition. -/
def Other (result : CompositionResult) (m m' : LoadedModule) : Prop :=
  m' ∈ result.modules ∧ m'.referenceName ≠ m.referenceName

/-- Nothing outside a module refers to its private slots: no constraint of the
composition, no constraint of another module and no firing of a rule of another
module, whatever the trace. -/
structure Encapsulated (catalog : EventCatalog) (composition : CompositionSpec)
    (result : CompositionResult) : Prop where
  compositionConstraints : ∀ m s, Hides result m s → ∀ c ∈ composition.constraints,
    ¬ c.Reads s.slot.id
  moduleConstraints : ∀ m s m', Hides result m s → Other result m m' →
    ∀ c ∈ m'.spec.constraints, ¬ c.Reads s.slot.id
  instances : ∀ trace problem, buildProblem catalog trace result.completion = .ok problem →
    ∀ m s m', Hides result m s → Other result m m' → ∀ t ∈ m'.spec.transformations,
    ∀ a ∈ problem.transformationActivations, a.transformation = t.name →
      s.slot.id ∉ a.binding.ids

/-- What keeps the boundaries: private slots that declare another visibility are
not constrained, modules constrain their own slots, and a rule that uses the type
of a private slot of another module never has an event for each of its roles. -/
structure BoundariesKept (catalog : EventCatalog) (composition : CompositionSpec)
    (result : CompositionResult) : Prop where
  declaredVisibility : ∀ m s, Hides result m s → ∀ v,
    s.annotations.get? "module_visibility" = some v → v ≠ .scalar (.str "private") →
    ∀ c ∈ composition.constraints, ¬ c.Reads s.slot.id
  moduleConstraints : ∀ m s m', Hides result m s → Other result m m' →
    ∀ c ∈ m'.spec.constraints, ¬ c.Reads s.slot.id
  roles : ∀ trace problem, buildProblem catalog trace result.completion = .ok problem →
    ∀ m s m', Hides result m s → Other result m m' → ∀ t ∈ m'.spec.transformations,
    s.slot.eventType ∈ t.roleTypes → ∃ type,
      (problem.events.map EventInstance.eventType).count type < t.roleTypes.count type

theorem get?_setDefault {name name' : String} {v : Annotation} {annotations : Dict String Annotation} :
    (setDefault name v annotations).get? name' =
      if name' = name then some ((annotations.get? name).getD v) else annotations.get? name' := by
  rw [setDefault]
  split_ifs with hsome hname hname
  · subst hname
    obtain ⟨w, hw⟩ := Option.isSome_iff_exists.mp hsome
    simp [hw]
  · rfl
  · subst hname
    simp [Option.not_isSome_iff_eq_none.mp hsome]
  · exact Dict.get?_insert_of_ne _ hname _

theorem interfacePorts_eq_nil {spec : ModuleSpec} {eventType : String} :
    interfacePorts spec eventType = [] ↔ eventType ∉ spec.ports.map ModulePort.eventType := by
  rw [List.eq_nil_iff_forall_not_mem]
  simp only [interfacePorts, mem_sortedList, List.mem_toFinset, List.mem_map, List.mem_filter,
    decide_eq_true_eq, not_exists, not_and]
  constructor
  · intro h port hport htype
    exact h port.name port ⟨hport, htype⟩ rfl
  · rintro h _ port ⟨hport, htype⟩ -
    exact h port hport htype

/-- A private slot counts as private unless it declares another visibility. -/
theorem markedPrivate_annotate {m : LoadedModule} {s : ModuleSlot} (h : m.spec.IsPrivate s) :
    markedPrivate (annotate m s) = true ↔ ∀ v,
      s.annotations.get? "module_visibility" = some v → v = .scalar (.str "private") := by
  have hports : interfacePorts m.spec s.slot.eventType = [] := interfacePorts_eq_nil.mpr h.2
  simp only [markedPrivate, annotate, hports, if_true, get?_setDefault, decide_eq_true_eq,
    Option.some.injEq]
  cases hget : s.annotations.get? "module_visibility" with
  | none => simp
  | some v => simp

section Boundaries

variable {catalog : EventCatalog} {composition : CompositionSpec} {result : CompositionResult}

/-- The check rejects a constraint on a slot that counts as private. -/
theorem not_reads_of_markedPrivate (h : Composed catalog composition result)
    (hstrict : composition.isStrict = true) {m : LoadedModule} {s : ModuleSlot}
    (hhides : Hides result m s) (hmarked : markedPrivate (annotate m s) = true) {c : Expr}
    (hc : c ∈ composition.constraints) : ¬ c.Reads s.slot.id := by
  rintro ⟨ref, href, hid⟩
  have hok := forM_eq_ok.mp (forM_eq_ok.mp (h.strict hstrict) c hc) ref href
  rw [validateReference] at hok
  split at hok
  · cases hok
  · rename_i hnone
    have hmem : annotate m s ∈ result.slots := by
      rw [h.slots]
      exact List.mem_flatMap.mpr ⟨m, hhides.loaded, List.mem_map_of_mem hhides.isPrivate.1⟩
    have hno := List.find?_eq_none.mp hnone _ hmem
    refine hno ?_
    rw [hmarked, Bool.true_and, decide_eq_true_eq]
    exact hid.symm

/-- The event of a slot of the composition. -/
theorem exists_event (h : Composed catalog composition result) {trace : Trace}
    {problem : BoundedProblem} (hbuild : buildProblem catalog trace result.completion = .ok problem)
    {m : LoadedModule} {s : ModuleSlot} (hhides : Hides result m s) :
    ∃ event ∈ problem.events, event.id = s.slot.id ∧ event.eventType = s.slot.eventType := by
  obtain ⟨observed, slots, -, hslots, hevents⟩ := events_of_buildProblem hbuild
  have hmem : s.slot ∈ result.completion.slots := by
    rw [h.slots_eq]
    exact List.mem_flatMap.mpr ⟨m, hhides.loaded, List.mem_map_of_mem hhides.isPrivate.1⟩
  obtain ⟨event, hevent, hok⟩ := mapM_result hslots hmem
  obtain ⟨hid, htype, -⟩ := materialize_eq_ok hok
  exact ⟨event, hevents ▸ List.mem_append_right _ hevent, hid, htype⟩

/-- The activations of a rule of the composition are its firings. -/
theorem activation_of_rule (h : Composed catalog composition result) {trace : Trace}
    {problem : BoundedProblem} (hbuild : buildProblem catalog trace result.completion = .ok problem)
    {m : LoadedModule} (hm : m ∈ result.modules) {t : Transformation}
    (ht : t ∈ m.spec.transformations) {ids : List String} :
    (∃ a ∈ problem.transformationActivations, a.transformation = t.name ∧ a.binding.ids = ids) ↔
      ∃ input output, t.IsFiring problem.events input output ∧
        RoleBinding.ids (input ++ output) = ids := by
  obtain ⟨parts, hparts⟩ := builtFrom_of_buildProblem hbuild
  have hmem : t ∈ result.completion.transformations := by
    obtain ⟨generated, -, hrules⟩ := h.transformations_eq
    rw [hrules]
    exact List.mem_append_left _ (List.mem_flatMap.mpr ⟨m, hm, ht⟩)
  constructor
  · rintro ⟨a, ha, hname, rfl⟩
    rw [hparts.activations_eq] at ha
    obtain ⟨part, hpart, ha⟩ := List.mem_flatMap.mp ha
    obtain ⟨t', ht', hok⟩ := mapM_origin hparts.instantiated hpart
    obtain ⟨input, output, hfiring, his⟩ := Transformation.activation_origin hok ha
    have heq : t' = t := by
      refine List.inj_on_of_nodup_map result.completion.transformations_nodup ht' hmem ?_
      rw [← his.transformation_eq, hname]
    subst heq
    exact ⟨input, output, hfiring, by rw [his.binding_eq]⟩
  · rintro ⟨input, output, hfiring, rfl⟩
    obtain ⟨part, hpart, hok⟩ := mapM_result hparts.instantiated hmem
    obtain ⟨a, ha, his⟩ := Transformation.exists_activation hok hfiring
    refine ⟨a, ?_, his.transformation_eq, by rw [his.binding_eq]⟩
    rw [hparts.activations_eq]
    exact List.mem_flatMap.mpr ⟨part, hpart, ha⟩

/-- No firing of a rule binds a private slot exactly when the rule does not use
its type or lacks an event for one of its roles. -/
theorem not_bound_iff (h : Composed catalog composition result) {trace : Trace}
    {problem : BoundedProblem} (hbuild : buildProblem catalog trace result.completion = .ok problem)
    {m m' : LoadedModule} {s : ModuleSlot} (hhides : Hides result m s) (hm' : m' ∈ result.modules)
    {t : Transformation} (ht : t ∈ m'.spec.transformations) :
    (∀ a ∈ problem.transformationActivations, a.transformation = t.name →
      s.slot.id ∉ a.binding.ids) ↔
    (s.slot.eventType ∈ t.roleTypes → ∃ type,
      (problem.events.map EventInstance.eventType).count type < t.roleTypes.count type) := by
  have hnodup := (wellBuilt_of_buildProblem hbuild).nodup
  obtain ⟨event, hevent, hid, htype⟩ := exists_event h hbuild hhides
  rw [← hid, ← htype]
  constructor
  · intro hnone hused
    by_contra hfew
    simp only [not_exists, not_lt] at hfew
    obtain ⟨input, output, hfiring, hbound⟩ := exists_firing hnodup hevent hused hfew
    obtain ⟨a, ha, hname, hids⟩ :=
      (activation_of_rule h hbuild hm' ht).mpr ⟨input, output, hfiring, rfl⟩
    exact hnone a ha hname (hids ▸ hbound)
  · intro hfew a ha hname hbound
    obtain ⟨input, output, hfiring, hids⟩ :=
      (activation_of_rule h hbuild hm' ht).mp ⟨a, ha, hname, rfl⟩
    obtain ⟨hcount, hroles⟩ := roleTypes_of_firing hnodup hfiring
    obtain ⟨type, hlt⟩ := hfew (hroles event hevent (hids ▸ hbound))
    exact absurd (hcount type) (by omega)

end Boundaries

/-- An accepted strict composition hides the private slots of its modules exactly
when these three kinds of references are absent. -/
theorem encapsulated_iff {Context : Type} (catalog : EventCatalog)
    (resolve : Except PyError Context)
    (load : Context → ModuleReference → Except PyError ModuleFile) (composition : CompositionSpec)
    (result : CompositionResult) (hstrict : composition.isStrict = true)
    (haccepted : composeModules catalog resolve load composition = .ok result) :
    Encapsulated catalog composition result ↔ BoundariesKept catalog composition result := by
  have h := composed_of_composeModules haccepted
  constructor
  · intro hencapsulated
    refine ⟨?_, hencapsulated.moduleConstraints, ?_⟩
    · exact fun m s hhides _ _ _ => hencapsulated.compositionConstraints m s hhides
    · intro trace problem hbuild m s m' hhides hother t ht
      exact (not_bound_iff h hbuild hhides hother.1 ht).mp
        (hencapsulated.instances trace problem hbuild m s m' hhides hother t ht)
  · intro hkept
    refine ⟨?_, hkept.moduleConstraints, ?_⟩
    · intro m s hhides c hc
      by_cases hmarked : markedPrivate (annotate m s) = true
      · exact not_reads_of_markedPrivate h hstrict hhides hmarked hc
      · rw [markedPrivate_annotate hhides.isPrivate] at hmarked
        push Not at hmarked
        obtain ⟨v, hv, hne⟩ := hmarked
        exact hkept.declaredVisibility m s hhides v hv hne c hc
    · intro trace problem hbuild m s m' hhides hother t ht
      exact (not_bound_iff h hbuild hhides hother.1 ht).mpr
        (hkept.roles trace problem hbuild m s m' hhides hother t ht)

/-! ## A composition that leaks -/

def hiddenType : EventType := ⟨"A.Hidden", [], by decide, List.nodup_nil⟩

def leakCatalog : EventCatalog := ⟨.ofList [("A.Hidden", hiddenType)], by decide +kernel⟩

/-- A slot without a port, which declares itself public. -/
def hiddenSlot : ModuleSlot where
  slot :=
    { id := "hidden", eventType := "A.Hidden", fields := .empty, required := true
      cycle := .value (.int 0), id_ne := by decide, eventType_ne := by decide }
  annotations := .ofList [("module_visibility", .scalar (.str "public"))]

/-- What the constraints of the other parts read. -/
def hiddenOccurs : Expr := .eventField "hidden" "occurs" .bool

theorem watchRole_ne : "event" ≠ "" := by decide

/-- A rule of the other module over the type of the slot. -/
def watchRule : Transformation where
  name := "watch"
  inputs := [⟨"event", "A.Hidden", watchRole_ne, by decide⟩]
  outputs := []
  when := .literal (.bool true) .bool
  outputWhen := .literal (.bool true) .bool
  ensure := []
  stateRequirements := []
  stateUpdates := []
  isExact := false
  stateMode := .require
  name_ne := by decide
  roles_nodup := by decide
  when_bool := Expr.bool_of_true
  outputWhen_bool := Expr.bool_of_true
  ensure_bool := Expr.bool_of_mem_nil
  exact_output := Transformation.inexact_outputs
  guard_outputs := Transformation.require_outputs
  guard_updates := Transformation.require_updates

theorem leakName_ne : "a" ≠ "" := by decide

theorem leakPath_ne : "a.yaml" ≠ "" := by decide

theorem leakOtherName_ne : "b" ≠ "" := by decide

def leakModule (name : String) : Except PyError ModuleSpec :=
  if name = "a" then
    ModuleSpec.create "a"
      { ports := [], internalEvents := [], slots := [hiddenSlot], rules := []
        stateVariables := [], constraints := [] }
  else
    ModuleSpec.create "b"
      { ports := [], internalEvents := ["A.Hidden"], slots := []
        rules := [⟨watchRule, []⟩], stateVariables := [], constraints := [hiddenOccurs] }

def leakLoad (_ : Unit) (reference : ModuleReference) : Except PyError ModuleFile := do
  let spec ← leakModule reference.name
  return { path := reference.path, spec }

def leakComposition : CompositionSpec where
  name := "leak"
  modules :=
    [⟨"a", "a.yaml", leakName_ne, leakPath_ne⟩, ⟨"b", "b.yaml", leakOtherName_ne, by decide⟩]
  connections := []
  constraints := [hiddenOccurs]
  horizon := 0
  metadata := .ofList [("encapsulation", .str "strict")]
  name_ne := by decide
  modules_nodup := by decide
  connections_nodup := List.nodup_nil
  constraints_bool := by simp [hiddenOccurs, Expr.sort, IrSort.isBool, IrSort.bool]

theorem leakComposition_accepted :
    ∃ result, composeModules leakCatalog (.ok ()) leakLoad leakComposition = .ok result := by
  have h : (composeModules leakCatalog (.ok ()) leakLoad leakComposition).toOption.isSome = true := by
    decide +kernel
  cases hcompose : composeModules leakCatalog (.ok ()) leakLoad leakComposition with
  | error e =>
      rw [hcompose] at h
      cases h
  | ok result => exact ⟨result, rfl⟩

theorem hides_hiddenSlot {result : CompositionResult}
    (h : composeModules leakCatalog (.ok ()) leakLoad leakComposition = .ok result) :
    ∃ m, Hides result m hiddenSlot := by
  obtain ⟨_, -, hmodules⟩ := modules_of_composeModules h
  obtain ⟨m, hm, hok⟩ := mapM_result hmodules (List.mem_cons_self)
  refine ⟨m, hm, ?_⟩
  obtain ⟨file, hfile, hok⟩ := bind_eq_ok.mp hok
  obtain ⟨spec, hspec, hfile⟩ := bind_eq_ok.mp hfile
  cases hfile
  obtain ⟨_, -, hok⟩ := bind_eq_ok.mp hok
  obtain ⟨_, -, hok⟩ := bind_eq_ok.mp hok
  cases hok
  cases hspec
  exact ⟨List.mem_singleton_self _, List.not_mem_nil⟩

theorem leakComposition_isStrict : leakComposition.isStrict = true := by decide +kernel

/-- The slot is accepted under a constraint of the composition, since it declares
itself public. -/
theorem leakComposition_not_encapsulated :
    leakComposition.isStrict = true ∧ ∃ result,
      composeModules leakCatalog (.ok ()) leakLoad leakComposition = .ok result ∧
      ¬ Encapsulated leakCatalog leakComposition result := by
  refine ⟨leakComposition_isStrict, ?_⟩
  obtain ⟨result, hresult⟩ := leakComposition_accepted
  refine ⟨result, hresult, fun h => ?_⟩
  obtain ⟨m, hm⟩ := hides_hiddenSlot hresult
  exact h.compositionConstraints m hiddenSlot hm hiddenOccurs (List.mem_singleton_self _)
    ⟨("hidden", "occurs", .bool), List.mem_singleton_self _, rfl⟩

theorem leakComposition_encapsulated_iff : ∃ result,
    composeModules leakCatalog (.ok ()) leakLoad leakComposition = .ok result ∧
      (Encapsulated leakCatalog leakComposition result ↔
        BoundariesKept leakCatalog leakComposition result) := by
  obtain ⟨result, hresult⟩ := leakComposition_accepted
  exact ⟨result, hresult, encapsulated_iff leakCatalog (.ok ()) leakLoad leakComposition result
    leakComposition_isStrict hresult⟩

end Umcm
