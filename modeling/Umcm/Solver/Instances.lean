import Umcm.Solver.Instantiation

/-!
# The contents of a built problem

Every rule contributes its effects, guards and activations once for each of its
firings: a binding of the inputs and one of the outputs that share no event.
-/

namespace Umcm

open Except

namespace Transformation

/-- Bindings of the inputs and of the outputs that share no event. -/
structure IsFiring (t : Transformation) (events : List EventInstance) (input output : RoleBinding) :
    Prop where
  inputs : input.Binds events t.inputs
  outputs : output.Binds events t.outputs
  distinct : RoleBinding.distinct (input ++ output) = true

/-- The requirement of a firing. -/
structure IsRequirement (t : Transformation) (input output : RoleBinding)
    (requirement : StateRequirement) (r : StateRequirementInstance) : Prop where
  state_eq : r.state = requirement.state
  op_eq : r.op = requirement.op
  activation_eq : r.activation = Expr.conjunction (t.activationItems input output)
  expected_eq : r.expected = RoleBinding.instantiate (input ++ output) requirement.value
  anchor : ∃ id, RoleBinding.getItem (input ++ output) requirement.atRole = .ok id ∧
    r.cycle = .eventField id "cycle" .int

/-- The update of a firing. -/
structure IsUpdate (t : Transformation) (input output : RoleBinding) (update : StateUpdate)
    (u : StateUpdateInstance) : Prop where
  state_eq : u.state = update.state
  activation_eq : u.activation = Expr.conjunction (t.activationItems input output)
  value_eq : u.value = RoleBinding.instantiate (input ++ output) update.value
  anchor : ∃ id, RoleBinding.getItem (input ++ output) update.atRole = .ok id ∧
    u.cycle = .eventField id "cycle" .int

variable {t : Transformation} {events : List EventInstance}

theorem IsFiring.input_distinct {input output : RoleBinding} (h : t.IsFiring events input output) :
    input.distinct = true := by
  have hdistinct := h.distinct
  simp only [RoleBinding.distinct, RoleBinding.ids, List.map_append, decide_eq_true_eq]
    at hdistinct
  exact decide_eq_true (List.nodup_append.mp hdistinct).1

theorem mem_outputsFor {input output : RoleBinding} {outputs : List RoleBinding} {i : Nat} :
    (output, i) ∈ outputsFor input outputs ↔
      (output, i) ∈ outputs.zipIdx ∧ RoleBinding.distinct (input ++ output) = true := by
  simp [outputsFor, List.mem_filter]

/-- The activation of a firing. -/
structure IsActivation (t : Transformation) (input output : RoleBinding)
    (a : TransformationActivationInstance) : Prop where
  transformation_eq : a.transformation = t.name
  binding_eq : a.binding = input ++ output
  expression_eq : a.expression = Expr.conjunction (t.activationItems input output)
  predicates : t.statePredicates (input ++ output) = .ok a.statePredicates

/-- What an input binding of a state-guarded rule forces. -/
structure IsGuardedForward (t : Transformation) (events : List EventInstance) (input : RoleBinding)
    (item : GuardedForwardInstance) : Prop where
  antecedent_eq : item.antecedent = Expr.conjunction (t.antecedentItems input)
  predicates : t.guardPredicates input = .ok item.predicates
  consequent_eq : item.consequent =
    Expr.disjunction (t.alternatives input (roleBindings t.outputs events))

/-- What an output binding of an exact state-guarded rule needs. -/
structure IsGuardedSupport (t : Transformation) (events : List EventInstance)
    (output : RoleBinding) (item : GuardedSupportInstance) : Prop where
  antecedent_eq : item.antecedent = Expr.conjunction (t.scopeItems output)
  supports : (inputsFor output (roleBindings t.inputs events)).mapM
    (t.guardedSupportCandidate output) = .ok item.supports

/-! ## One binding of the inputs -/

section Part

variable {p : RoleBinding × Nat} {outputs : List RoleBinding} {part : TransformationInstantiation}

theorem isActivation_of_ok {q : RoleBinding × Nat} {a : TransformationActivationInstance}
    (h : t.activationInstance p.1 p.2 q = .ok a) : t.IsActivation p.1 q.1 a := by
  obtain ⟨predicates, hpredicates, h⟩ := bind_eq_ok.mp h
  cases h
  exact ⟨rfl, rfl, rfl, hpredicates⟩

/-- The requirement instances of a firing are those of its requirements. -/
theorem requirementInstances_parts {input output : RoleBinding} {effectPrefix : String}
    {rs : List StateRequirementInstance}
    (h : t.requirementInstances input output effectPrefix = .ok rs) :
    (∀ r ∈ rs, ∃ requirement ∈ t.stateRequirements, t.IsRequirement input output requirement r) ∧
    ∀ requirement ∈ t.stateRequirements, ∃ r ∈ rs, t.IsRequirement input output requirement r := by
  constructor
  · intro r hr
    obtain ⟨q, hq, hok⟩ := mapM_origin h hr
    obtain ⟨id, hid, hok⟩ := bind_eq_ok.mp hok
    cases hok
    exact ⟨q.1, List.fst_mem_of_mem_zipIdx hq, rfl, rfl, rfl, rfl, id, hid, rfl⟩
  · intro requirement hrequirement
    obtain ⟨q, hq, rfl⟩ := Choice.mem_zipIdx_fst.mpr hrequirement
    obtain ⟨r, hr, hok⟩ := mapM_result h hq
    obtain ⟨id, hid, hok⟩ := bind_eq_ok.mp hok
    cases hok
    exact ⟨_, hr, rfl, rfl, rfl, rfl, id, hid, rfl⟩

theorem updateInstances_parts {input output : RoleBinding} {effectPrefix : String}
    {us : List StateUpdateInstance}
    (h : t.updateInstances input output effectPrefix = .ok us) :
    (∀ u ∈ us, ∃ update ∈ t.stateUpdates, t.IsUpdate input output update u) ∧
    ∀ update ∈ t.stateUpdates, ∃ u ∈ us, t.IsUpdate input output update u := by
  constructor
  · intro u hu
    obtain ⟨q, hq, hok⟩ := mapM_origin h hu
    obtain ⟨id, hid, hok⟩ := bind_eq_ok.mp hok
    cases hok
    exact ⟨q.1, List.fst_mem_of_mem_zipIdx hq, rfl, rfl, rfl, id, hid, rfl⟩
  · intro update hupdate
    obtain ⟨q, hq, rfl⟩ := Choice.mem_zipIdx_fst.mpr hupdate
    obtain ⟨u, hu, hok⟩ := mapM_result h hq
    obtain ⟨id, hid, hok⟩ := bind_eq_ok.mp hok
    cases hok
    exact ⟨_, hu, rfl, rfl, rfl, id, hid, rfl⟩

/-- The parts of a state-requiring rule for one input binding. -/
theorem requireForward_parts (h : t.requireForward outputs p = .ok part) :
    (outputsFor p.1 outputs).mapM (t.activationInstance p.1 p.2) = .ok part.activations ∧
    (∃ effects, (outputsFor p.1 outputs).mapM (t.effectInstances p.1 p.2) = .ok effects ∧
      part.requirements = effects.flatMap Prod.fst ∧ part.updates = effects.flatMap Prod.snd) ∧
    part.guardedForwards = [] ∧ part.guardedSupports = [] := by
  obtain ⟨activations, hactivations, h⟩ := bind_eq_ok.mp h
  obtain ⟨effects, heffects, h⟩ := bind_eq_ok.mp h
  cases h
  exact ⟨hactivations, ⟨effects, heffects, rfl, rfl⟩, rfl, rfl⟩

theorem guardForward_parts (h : t.guardForward outputs p = .ok part) :
    (outputsFor p.1 outputs).mapM (t.activationInstance p.1 p.2) = .ok part.activations ∧
    part.requirements = [] ∧ part.updates = [] ∧
    t.guardedForwards outputs p = .ok part.guardedForwards ∧ part.guardedSupports = [] ∧
    part.constraints = [] := by
  obtain ⟨activations, hactivations, h⟩ := bind_eq_ok.mp h
  obtain ⟨guarded, hguarded, h⟩ := bind_eq_ok.mp h
  cases h
  exact ⟨hactivations, rfl, rfl, hguarded, rfl, rfl⟩

theorem support_parts {inputs : List RoleBinding} (h : t.support inputs p = .ok part) :
    part.activations = [] ∧ part.requirements = [] ∧ part.updates = [] ∧
      part.guardedForwards = [] := by
  rw [support] at h
  split_ifs at h
  · obtain ⟨supports, -, h⟩ := bind_eq_ok.mp h
    cases h
    exact ⟨rfl, rfl, rfl, rfl⟩
  · cases h
    exact ⟨rfl, rfl, rfl, rfl⟩

end Part

/-! ## All bindings -/

section Instantiate

variable {part : TransformationInstantiation}

/-- The parts of the input bindings and those of the output bindings. -/
theorem instantiate_parts (h : instantiateTransformation t events = .ok part) :
    ∃ forwards supports,
      t.forwards (roleBindings t.inputs events) (roleBindings t.outputs events) = .ok forwards ∧
      t.supports (roleBindings t.inputs events) (roleBindings t.outputs events) = .ok supports ∧
      part = .concat (forwards ++ supports) := by
  obtain ⟨forwards, hforwards, h⟩ := bind_eq_ok.mp h
  obtain ⟨supports, hsupports, h⟩ := bind_eq_ok.mp h
  cases h
  exact ⟨forwards, supports, hforwards, hsupports, rfl⟩

theorem supports_parts {inputs outputs : List RoleBinding}
    {supports : List TransformationInstantiation} (h : t.supports inputs outputs = .ok supports)
    {part : TransformationInstantiation} (hpart : part ∈ supports) :
    part.activations = [] ∧ part.requirements = [] ∧ part.updates = [] ∧
      part.guardedForwards = [] := by
  rw [Transformation.supports] at h
  split_ifs at h
  · obtain ⟨p, -, hok⟩ := mapM_origin h hpart
    exact support_parts hok
  · cases h
    cases hpart

/-- A list of a rule comes from its input bindings when its supports add nothing to it. -/
theorem mem_concat_iff {γ : Type} {g : TransformationInstantiation → List γ}
    {forwards supports : List TransformationInstantiation} (hnil : ∀ part ∈ supports, g part = [])
    {a : γ} : a ∈ (forwards ++ supports).flatMap g ↔ ∃ part ∈ forwards, a ∈ g part := by
  rw [List.flatMap_append, List.mem_append, List.mem_flatMap, List.mem_flatMap]
  refine or_iff_left ?_
  rintro ⟨part, hpart, ha⟩
  rw [hnil part hpart] at ha
  cases ha

theorem IsFiring.indexes {input output : RoleBinding} (h : t.IsFiring events input output) :
    ∃ i j, (input, i) ∈ (roleBindings t.inputs events).zipIdx.filter (fun p => p.1.distinct) ∧
      (output, j) ∈ outputsFor input (roleBindings t.outputs events) := by
  obtain ⟨p, hp, rfl⟩ := Choice.mem_zipIdx_fst.mpr (mem_roleBindings.mpr h.inputs)
  obtain ⟨q, hq, rfl⟩ := Choice.mem_zipIdx_fst.mpr (mem_roleBindings.mpr h.outputs)
  exact ⟨p.2, q.2, List.mem_filter.mpr ⟨hp, h.input_distinct⟩, mem_outputsFor.mpr ⟨hq, h.distinct⟩⟩

theorem isFiring_of_mem {p q : RoleBinding × Nat}
    (hp : p ∈ (roleBindings t.inputs events).zipIdx.filter (fun p => p.1.distinct))
    (hq : q ∈ outputsFor p.1 (roleBindings t.outputs events)) : t.IsFiring events p.1 q.1 := by
  obtain ⟨hmem, hdistinct⟩ := mem_outputsFor.mp hq
  exact ⟨mem_roleBindings.mp (List.fst_mem_of_mem_zipIdx (List.mem_filter.mp hp).1),
    mem_roleBindings.mp (List.fst_mem_of_mem_zipIdx hmem), hdistinct⟩

/-- The activations of one input binding, in either mode. -/
theorem forward_activations {outputs : List RoleBinding} {p : RoleBinding × Nat}
    {forward : TransformationInstantiation}
    (h : (if t.stateMode = .guard then t.guardForward outputs else t.requireForward outputs) p =
      .ok forward) :
    (outputsFor p.1 outputs).mapM (t.activationInstance p.1 p.2) = .ok forward.activations := by
  split_ifs at h
  · exact (guardForward_parts h).1
  · exact (requireForward_parts h).1

theorem activation_origin (h : instantiateTransformation t events = .ok part)
    {a : TransformationActivationInstance} (ha : a ∈ part.activations) :
    ∃ input output, t.IsFiring events input output ∧ t.IsActivation input output a := by
  obtain ⟨forwards, supports, hforwards, hsupports, rfl⟩ := instantiate_parts h
  obtain ⟨forward, hforward, ha⟩ :=
    (mem_concat_iff (fun part hpart => (supports_parts hsupports hpart).1)).mp ha
  obtain ⟨p, hp, hok⟩ := mapM_origin hforwards hforward
  obtain ⟨q, hq, hok⟩ := mapM_origin (forward_activations hok) ha
  exact ⟨p.1, q.1, isFiring_of_mem hp hq, isActivation_of_ok hok⟩

theorem exists_activation (h : instantiateTransformation t events = .ok part)
    {input output : RoleBinding} (hfiring : t.IsFiring events input output) :
    ∃ a ∈ part.activations, t.IsActivation input output a := by
  obtain ⟨forwards, supports, hforwards, hsupports, rfl⟩ := instantiate_parts h
  obtain ⟨i, j, hi, hj⟩ := hfiring.indexes
  obtain ⟨forward, hforward, hok⟩ := mapM_result hforwards hi
  obtain ⟨a, ha, hok⟩ := mapM_result (forward_activations hok) hj
  exact ⟨a, List.mem_flatMap.mpr ⟨forward, List.mem_append_left _ hforward, ha⟩,
    isActivation_of_ok hok⟩

theorem effect_parts {input : RoleBinding} {i : Nat} {q : RoleBinding × Nat}
    {effects : List StateRequirementInstance × List StateUpdateInstance}
    (h : t.effectInstances input i q = .ok effects) :
    (∃ pre, t.requirementInstances input q.1 pre = .ok effects.1) ∧
      ∃ pre, t.updateInstances input q.1 pre = .ok effects.2 := by
  obtain ⟨requirements, hrequirements, h⟩ := bind_eq_ok.mp h
  obtain ⟨updates, hupdates, h⟩ := bind_eq_ok.mp h
  cases h
  exact ⟨⟨_, hrequirements⟩, ⟨_, hupdates⟩⟩

theorem requirement_origin (h : instantiateTransformation t events = .ok part)
    {r : StateRequirementInstance} (hr : r ∈ part.requirements) :
    t.stateMode = .require ∧ ∃ input output, t.IsFiring events input output ∧
      ∃ requirement ∈ t.stateRequirements, t.IsRequirement input output requirement r := by
  obtain ⟨forwards, supports, hforwards, hsupports, rfl⟩ := instantiate_parts h
  obtain ⟨forward, hforward, hr⟩ :=
    (mem_concat_iff (fun part hpart => (supports_parts hsupports hpart).2.1)).mp hr
  obtain ⟨p, hp, hok⟩ := mapM_origin hforwards hforward
  split_ifs at hok with hmode
  · rw [(guardForward_parts hok).2.1] at hr
    cases hr
  · obtain ⟨-, ⟨effects, heffects, hrequirements, -⟩, -⟩ := requireForward_parts hok
    rw [hrequirements] at hr
    obtain ⟨effect, heffect, hr⟩ := List.mem_flatMap.mp hr
    obtain ⟨q, hq, hok⟩ := mapM_origin heffects heffect
    obtain ⟨⟨_, hinstances⟩, -⟩ := effect_parts hok
    refine ⟨?_, p.1, q.1, isFiring_of_mem hp hq, (requirementInstances_parts hinstances).1 r hr⟩
    cases hm : t.stateMode with
    | require => rfl
    | guard => exact absurd hm hmode

theorem update_origin (h : instantiateTransformation t events = .ok part)
    {u : StateUpdateInstance} (hu : u ∈ part.updates) :
    ∃ input output, t.IsFiring events input output ∧
      ∃ update ∈ t.stateUpdates, t.IsUpdate input output update u := by
  obtain ⟨forwards, supports, hforwards, hsupports, rfl⟩ := instantiate_parts h
  obtain ⟨forward, hforward, hu⟩ :=
    (mem_concat_iff (fun part hpart => (supports_parts hsupports hpart).2.2.1)).mp hu
  obtain ⟨p, hp, hok⟩ := mapM_origin hforwards hforward
  split_ifs at hok with hmode
  · rw [(guardForward_parts hok).2.2.1] at hu
    cases hu
  · obtain ⟨-, ⟨effects, heffects, -, hupdates⟩, -⟩ := requireForward_parts hok
    rw [hupdates] at hu
    obtain ⟨effect, heffect, hu⟩ := List.mem_flatMap.mp hu
    obtain ⟨q, hq, hok⟩ := mapM_origin heffects heffect
    obtain ⟨-, _, hinstances⟩ := effect_parts hok
    exact ⟨p.1, q.1, isFiring_of_mem hp hq, (updateInstances_parts hinstances).1 u hu⟩

/-- The effects of a firing are among those of its rule. -/
theorem exists_effects (hmode : t.stateMode = .require)
    (h : instantiateTransformation t events = .ok part) {input output : RoleBinding}
    (hfiring : t.IsFiring events input output) :
    (∀ requirement ∈ t.stateRequirements,
      ∃ r ∈ part.requirements, t.IsRequirement input output requirement r) ∧
    ∀ update ∈ t.stateUpdates, ∃ u ∈ part.updates, t.IsUpdate input output update u := by
  obtain ⟨forwards, supports, hforwards, hsupports, rfl⟩ := instantiate_parts h
  obtain ⟨i, j, hi, hj⟩ := hfiring.indexes
  obtain ⟨forward, hforward, hok⟩ := mapM_result hforwards hi
  rw [if_neg (by simp [hmode])] at hok
  obtain ⟨-, ⟨effects, heffects, hrequirements, hupdates⟩, -⟩ := requireForward_parts hok
  obtain ⟨effect, heffect, hok⟩ := mapM_result heffects hj
  obtain ⟨⟨_, hrs⟩, _, hus⟩ := effect_parts hok
  constructor
  · intro requirement hrequirement
    obtain ⟨r, hr, his⟩ := (requirementInstances_parts hrs).2 requirement hrequirement
    refine ⟨r, List.mem_flatMap.mpr ⟨forward, List.mem_append_left _ hforward, ?_⟩, his⟩
    rw [hrequirements]
    exact List.mem_flatMap.mpr ⟨effect, heffect, hr⟩
  · intro update hupdate
    obtain ⟨u, hu, his⟩ := (updateInstances_parts hus).2 update hupdate
    refine ⟨u, List.mem_flatMap.mpr ⟨forward, List.mem_append_left _ hforward, ?_⟩, his⟩
    rw [hupdates]
    exact List.mem_flatMap.mpr ⟨effect, heffect, hu⟩

theorem binds_keys {roles : List EventRole} {b : RoleBinding} (h : b.Binds events roles) :
    b.map Prod.fst = roles.map EventRole.name := by
  rw [RoleBinding.Binds] at h
  induction h with
  | nil => rfl
  | cons hp _ ih => rw [List.map_cons, List.map_cons, hp.1, ih]

theorem guardedForward_origin (h : instantiateTransformation t events = .ok part)
    {item : GuardedForwardInstance} (hitem : item ∈ part.guardedForwards) :
    t.stateMode = .guard ∧ ∃ input : RoleBinding, input.Binds events t.inputs ∧
      input.distinct = true ∧ t.IsGuardedForward events input item := by
  obtain ⟨forwards, supports, hforwards, hsupports, rfl⟩ := instantiate_parts h
  obtain ⟨forward, hforward, hitem⟩ :=
    (mem_concat_iff (fun part hpart => (supports_parts hsupports hpart).2.2.2)).mp hitem
  obtain ⟨p, hp, hok⟩ := mapM_origin hforwards hforward
  obtain ⟨hmem, hdistinct⟩ := List.mem_filter.mp hp
  split_ifs at hok with hmode
  · have hguarded := (guardForward_parts hok).2.2.2.1
    rw [Transformation.guardedForwards] at hguarded
    split_ifs at hguarded
    · obtain ⟨predicates, hpredicates, hguarded⟩ := bind_eq_ok.mp hguarded
      simp only [pure, Except.pure, Except.ok.injEq] at hguarded
      rw [← hguarded, List.mem_singleton] at hitem
      subst hitem
      exact ⟨hmode, p.1, mem_roleBindings.mp (List.fst_mem_of_mem_zipIdx hmem), hdistinct, rfl,
        hpredicates, rfl⟩
    · simp only [Except.ok.injEq] at hguarded
      rw [← hguarded] at hitem
      cases hitem
  · rw [(requireForward_parts hok).2.2.1] at hitem
    cases hitem

theorem exists_guardedForward (hmode : t.stateMode = .guard)
    (h : instantiateTransformation t events = .ok part) {input : RoleBinding}
    (hinput : input.Binds events t.inputs) (hdistinct : input.distinct = true)
    (hanchored : ∀ requirement ∈ t.stateRequirements,
      requirement.atRole ∈ t.inputs.map EventRole.name) :
    ∃ item ∈ part.guardedForwards, t.IsGuardedForward events input item := by
  obtain ⟨forwards, supports, hforwards, hsupports, rfl⟩ := instantiate_parts h
  obtain ⟨p, hp, rfl⟩ := Choice.mem_zipIdx_fst.mpr (mem_roleBindings.mpr hinput)
  obtain ⟨forward, hforward, hok⟩ := mapM_result hforwards (List.mem_filter.mpr ⟨hp, hdistinct⟩)
  rw [if_pos hmode] at hok
  have hguarded := (guardForward_parts hok).2.2.2.1
  rw [Transformation.guardedForwards, if_pos (by rwa [binds_keys hinput])] at hguarded
  obtain ⟨predicates, hpredicates, hguarded⟩ := bind_eq_ok.mp hguarded
  simp only [pure, Except.pure, Except.ok.injEq] at hguarded
  have hmem := List.mem_singleton_self (GuardedForwardInstance.mk (t.forwardName p.1 p.2)
    (Expr.conjunction (t.antecedentItems p.1)) predicates
    (Expr.disjunction (t.alternatives p.1 (roleBindings t.outputs events))) t.origin)
  rw [hguarded] at hmem
  exact ⟨_, List.mem_flatMap.mpr ⟨forward, List.mem_append_left _ hforward, hmem⟩, rfl,
    hpredicates, rfl⟩

theorem exists_guardedSupport (hmode : t.stateMode = .guard) (hexact : t.isExact = true)
    (h : instantiateTransformation t events = .ok part) {output : RoleBinding}
    (houtput : output.Binds events t.outputs) (hdistinct : output.distinct = true) :
    ∃ item ∈ part.guardedSupports, t.IsGuardedSupport events output item := by
  obtain ⟨forwards, supports, hforwards, hsupports, rfl⟩ := instantiate_parts h
  obtain ⟨p, hp, rfl⟩ := Choice.mem_zipIdx_fst.mpr (mem_roleBindings.mpr houtput)
  rw [Transformation.supports, if_pos hexact] at hsupports
  obtain ⟨part, hpart, hok⟩ := mapM_result hsupports (List.mem_filter.mpr ⟨hp, hdistinct⟩)
  rw [support, if_pos hmode] at hok
  obtain ⟨candidates, hcandidates, hok⟩ := bind_eq_ok.mp hok
  cases hok
  exact ⟨_, List.mem_flatMap.mpr ⟨_, List.mem_append_right _ hpart, List.mem_singleton_self _⟩,
    rfl, hcandidates⟩

end Instantiate

end Transformation

/-! ## Problems -/

/-- The lists of a built problem are those of its rules. -/
structure BuiltFrom (problem : BoundedProblem) (trace : Trace) (spec : CompletionSpec)
    (parts : List TransformationInstantiation) : Prop where
  trace_eq : problem.sourceTrace = trace
  spec_eq : problem.spec = spec
  instantiated : spec.transformations.mapM
    (fun t => instantiateTransformation t problem.events) = .ok parts
  constraints_eq : problem.constraints =
    namedConstraints "trace.constraint." "trace" trace.constraints ++
      namedConstraints "completion.constraint." "completion" spec.constraints ++
      (problem.events.filter EventInstance.hasCycle).map (cycleBound spec.horizon) ++
      parts.flatMap TransformationInstantiation.constraints
  requirements_eq : problem.stateRequirements =
    parts.flatMap TransformationInstantiation.requirements
  updates_eq : problem.stateUpdates = parts.flatMap TransformationInstantiation.updates
  forwards_eq : problem.guardedForwards = parts.flatMap TransformationInstantiation.guardedForwards
  supports_eq : problem.guardedSupports = parts.flatMap TransformationInstantiation.guardedSupports
  activations_eq : problem.transformationActivations =
    parts.flatMap TransformationInstantiation.activations

theorem builtFrom_of_buildProblem {catalog : EventCatalog} {trace : Trace} {spec : CompletionSpec}
    {problem : BoundedProblem} (h : buildProblem catalog trace spec = .ok problem) :
    ∃ parts, BuiltFrom problem trace spec parts := by
  obtain ⟨_, -, h⟩ := bind_eq_ok.mp h
  obtain ⟨_, -, h⟩ := bind_eq_ok.mp h
  obtain ⟨observed, -, h⟩ := bind_eq_ok.mp h
  obtain ⟨slots, -, h⟩ := bind_eq_ok.mp h
  obtain ⟨parts, hparts, h⟩ := bind_eq_ok.mp h
  cases h
  exact ⟨parts, rfl, rfl, hparts, rfl, rfl, rfl, rfl, rfl, rfl⟩

/-- Of the events of a built problem, the observed ones come first. -/
theorem events_of_buildProblem {catalog : EventCatalog} {trace : Trace} {spec : CompletionSpec}
    {problem : BoundedProblem} (h : buildProblem catalog trace spec = .ok problem) :
    ∃ observed slots, trace.events.mapM (materializePartialEvent catalog) = .ok observed ∧
      spec.slots.mapM (fun slot => slot.materialize catalog) = .ok slots ∧
      problem.events = observed ++ slots := by
  obtain ⟨_, -, h⟩ := bind_eq_ok.mp h
  obtain ⟨_, -, h⟩ := bind_eq_ok.mp h
  obtain ⟨observed, hobserved, h⟩ := bind_eq_ok.mp h
  obtain ⟨slots, hslots, h⟩ := bind_eq_ok.mp h
  obtain ⟨parts, -, h⟩ := bind_eq_ok.mp h
  cases h
  exact ⟨observed, slots, hobserved, hslots, rfl⟩

end Umcm
