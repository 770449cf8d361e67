import Umcm.Solver.Observation

/-!
# Firings in a completion

What a completion says about the rules of its model: inputs that occur have a
firing, outputs of exact rules have one, a firing finds its requirements met
before the cycle of their anchors and its updates visible after it, and a cell
changes only because of a firing.

* `Completion.forward`, `Completion.support`: the firings there have to be.
* `Completion.requirement`, `Completion.update`, `Completion.changed`: what
  firings mean for the cells.
-/

namespace Umcm

open Except EvaluationContext

/-! ## One cycle of a cell -/

namespace StateRun

variable {problem : BoundedProblem} {context : EvaluationContext} {pre : CellStates}

/-- An active update is visible after its cycle; writes that agree with it can
take its place. -/
theorem written (h : StateRun problem context pre) {u : StateUpdateInstance}
    (hu : u ∈ problem.stateUpdates) {c : Nat} {v : Value}
    (hactive : context.ActiveAt problem.spec.horizon u.activation u.cycle u.value c v) :
    ∃ w, pre (c + 1) u.state = some w ∧ w.key = v.key := by
  have hwrite : activeWrite context c u.state u = some v := by
    rw [activeWrite, if_pos ⟨rfl, hactive.holds, hactive.cycle_eq⟩, hactive.value_eq]
    rfl
  have hmem : v ∈ problem.stateUpdates.filterMap (activeWrite context c u.state) :=
    List.mem_filterMap.mpr ⟨u, hu, hwrite⟩
  have hwritten := h.writes c hactive.inside u.state
  cases hwrites : problem.stateUpdates.filterMap (activeWrite context c u.state) with
  | nil =>
      rw [hwrites] at hmem
      cases hmem
  | cons w rest =>
      rw [hwrites] at hwritten hmem
      obtain ⟨hagree, -, hafter⟩ := hwritten
      refine ⟨w, hafter, ?_⟩
      rcases List.mem_cons.mp hmem with rfl | hrest
      · rfl
      · exact (Value.pyEq_iff.mp (hagree v hrest)).symm

/-- A cell that is not written keeps its value. -/
theorem kept (h : StateRun problem context pre) {c : Nat} (hc : c ≤ problem.spec.horizon)
    {name : String} (hnone : ∀ u ∈ problem.stateUpdates, u.state = name → ∀ v,
      ¬ context.ActiveAt problem.spec.horizon u.activation u.cycle u.value c v) :
    pre (c + 1) name = pre c name := by
  have hwritten := h.writes c hc name
  have hnil : problem.stateUpdates.filterMap (activeWrite context c name) = [] := by
    rw [List.filterMap_eq_nil_iff]
    intro u hu
    rw [activeWrite]
    split_ifs with hactive
    · obtain ⟨hname, hholds, hcycle⟩ := hactive
      rcases h.update u hu with hidle | ⟨c', v, hat⟩
      · exact absurd hidle hholds.not_idle
      · have heq : c' = c := by
          have hsame := hat.cycle_eq.symm.trans hcycle
          simpa using hsame
        subst heq
        exact absurd hat (hnone u hu hname v)
    · rfl
  rw [hnil] at hwritten
  exact hwritten

/-- A cell that changes has the value of an active update. -/
theorem changed (h : StateRun problem context pre) {c : Nat} (hc : c ≤ problem.spec.horizon)
    {name : String} (hne : pre (c + 1) name ≠ pre c name) :
    ∃ u ∈ problem.stateUpdates, u.state = name ∧ ∃ v,
      context.ActiveAt problem.spec.horizon u.activation u.cycle u.value c v ∧
        pre (c + 1) name = some v := by
  have hwritten := h.writes c hc name
  cases hwrites : problem.stateUpdates.filterMap (activeWrite context c name) with
  | nil =>
      rw [hwrites] at hwritten
      exact absurd hwritten hne
  | cons v rest =>
      rw [hwrites] at hwritten
      have hmem : v ∈ problem.stateUpdates.filterMap (activeWrite context c name) := by
        rw [hwrites]
        exact List.mem_cons_self
      obtain ⟨u, hu, hwrite⟩ := List.mem_filterMap.mp hmem
      rw [activeWrite] at hwrite
      split_ifs at hwrite with hactive
      obtain ⟨hname, hholds, hcycle⟩ := hactive
      rcases h.update u hu with hidle | ⟨c', v', hat⟩
      · exact absurd hidle hholds.not_idle
      · have heq : c' = c := by
          have hsame := hat.cycle_eq.symm.trans hcycle
          simpa using hsame
        subst heq
        rw [hat.value_eq] at hwrite
        cases hwrite
        exact ⟨u, hu, hname, v, hat, hwritten.2.2⟩

theorem setInitial_eq_ok {state state' : Dict String Value} {cell : StateVariable}
    (h : StateCheck.setInitial context state cell = .ok state') {v : Value}
    (hv : cell.initial = .value v) : state' = state.insert cell.name v := by
  rw [StateCheck.setInitial, bind_eq_ok, hv] at h
  obtain ⟨result, hresult, h⟩ := h
  cases hresult
  cases h
  rfl

theorem get?_setInitial_of_ne {state state' : Dict String Value} {cell : StateVariable}
    (h : StateCheck.setInitial context state cell = .ok state') {name : String}
    (hne : name ≠ cell.name) : state'.get? name = state.get? name := by
  obtain ⟨result, -, h⟩ := bind_eq_ok.mp h
  cases result with
  | none => cases h
  | some w =>
      cases h
      exact Dict.get?_insert_of_ne _ hne _

/-- A cell that starts with a value has it before the first cycle. -/
theorem start (h : StateRun problem context pre)
    (hnodup : (problem.spec.stateVariables.map StateVariable.name).Nodup) {cell : StateVariable}
    (hcell : cell ∈ problem.spec.stateVariables) {v : Value} (hv : cell.initial = .value v) :
    pre 0 cell.name = some v := by
  obtain ⟨state, hinitial, hstate⟩ := h.initial
  rw [← hstate]
  have hall := foldlM_invariant (fun seen state => (seen.map StateVariable.name).Nodup →
    ∀ cell ∈ seen, ∀ v, cell.initial = .value v → state.get? cell.name = some v) ?_ ?_ hinitial
  · exact hall hnodup cell hcell v hv
  · intro seen last state state' hseen hstep hnodup cell hcell v hv
    rw [List.map_append, List.nodup_append] at hnodup
    rcases List.mem_append.mp hcell with hcell | hcell
    · have hne : cell.name ≠ last.name := by
        intro heq
        refine hnodup.2.2 cell.name (List.mem_map_of_mem hcell) last.name ?_ heq
        exact List.mem_map_of_mem (List.mem_singleton_self last)
      rw [get?_setInitial_of_ne hstep hne]
      exact hseen hnodup.1 cell hcell v hv
    · rw [List.mem_singleton] at hcell
      subst hcell
      rw [setInitial_eq_ok hstep hv]
      exact Dict.get?_insert_self _ _ _
  · intro _ cell hcell
    cases hcell

end StateRun

/-! ## Firings -/

/-- A firing whose inputs and outputs occur and satisfy the rule. -/
structure Transformation.Fires (t : Transformation) (context : EvaluationContext)
    (events : List EventInstance) (input output : RoleBinding) : Prop where
  firing : t.IsFiring events input output
  holds : ∀ e ∈ t.activationItems input output, context.Holds e

theorem RoleBinding.apply_of_getItem {b : RoleBinding} {name id : String}
    (h : b.getItem name = .ok id) : b.apply name = id := by
  rw [RoleBinding.getItem] at h
  split at h
  · rename_i id' hlookup
    cases h
    rw [RoleBinding.apply, hlookup]
    rfl
  · cases h

theorem RoleBinding.apply_append_left {b b' : RoleBinding} {name : String}
    (h : name ∈ b.map Prod.fst) : RoleBinding.apply (b ++ b') name = b.apply name := by
  induction b with
  | nil => cases h
  | cons p b ih =>
      obtain ⟨role, id⟩ := p
      rw [List.cons_append, apply_cons, apply_cons]
      split_ifs with heq
      · rfl
      · refine ih ((List.mem_cons.mp h).resolve_left ?_)
        exact fun hname => heq hname

theorem RoleBinding.apply_append_right {b b' : RoleBinding} {name : String}
    (h : name ∉ b.map Prod.fst) : RoleBinding.apply (b ++ b') name = b'.apply name := by
  induction b with
  | nil => rfl
  | cons p b ih =>
      obtain ⟨role, id⟩ := p
      rw [List.map_cons, List.mem_cons, not_or] at h
      rw [List.cons_append, apply_cons, if_neg h.1]
      exact ih h.2

/-- The guard of a validated rule reads its inputs, the output guard its outputs. -/
theorem Transformation.references_of_validate {t : Transformation} {catalog : EventCatalog}
    {stateVariables : List StateVariable} {u : Unit}
    (h : t.validate catalog stateVariables = .ok u) :
    (∀ ref ∈ t.when.eventFields, ref.1 ∈ t.inputs.map EventRole.name) ∧
      ∀ ref ∈ t.outputWhen.eventFields, ref.1 ∈ t.outputs.map EventRole.name := by
  have hlegal : ∀ {e : Expr} {names : List String}, Transformation.illegalReferences e names = [] →
      ∀ ref ∈ e.eventFields, ref.1 ∈ names := by
    intro e names hnil ref href
    rw [Transformation.illegalReferences, List.filter_eq_nil_iff] at hnil
    have hlegal := hnil ref.1 (List.mem_map_of_mem href)
    simpa using hlegal
  obtain ⟨_, -, h⟩ := bind_eq_ok.mp h
  obtain ⟨_, hwhen, h⟩ := bind_eq_ok.mp h
  obtain ⟨_, houtputWhen, -⟩ := bind_eq_ok.mp h
  exact ⟨hlegal (require_eq_ok.mp hwhen), hlegal (require_eq_ok.mp houtputWhen)⟩

/-- The guards of a firing on the whole binding are those on its halves. -/
theorem Transformation.IsFiring.instantiate_guards {t : Transformation}
    {events : List EventInstance} {input output : RoleBinding}
    (h : t.IsFiring events input output)
    (hwhen : ∀ ref ∈ t.when.eventFields, ref.1 ∈ t.inputs.map EventRole.name)
    (houtputWhen : ∀ ref ∈ t.outputWhen.eventFields, ref.1 ∈ t.outputs.map EventRole.name) :
    RoleBinding.instantiate (input ++ output) t.when = input.instantiate t.when ∧
      RoleBinding.instantiate (input ++ output) t.outputWhen =
        output.instantiate t.outputWhen := by
  have hinput := Transformation.binds_keys h.inputs
  have hnodup := t.roles_nodup
  rw [List.map_append, List.nodup_append] at hnodup
  constructor
  · refine Expr.substituteEventIds_congr _ (fun ref href => ?_)
    refine RoleBinding.apply_append_left ?_
    rw [hinput]
    exact hwhen ref href
  · refine Expr.substituteEventIds_congr _ (fun ref href => ?_)
    refine RoleBinding.apply_append_right ?_
    rw [hinput]
    intro hmem
    exact hnodup.2.2 ref.1 hmem ref.1 (houtputWhen ref href) rfl

/-! ## Completions -/

/-- The states of a completion of a trace. -/
structure Completion (catalog : EventCatalog) (trace : Trace) (spec : CompletionSpec)
    (problem : BoundedProblem) (interpreter : Interpreter) (assignment : Dict String Value)
    (pre : CellStates) : Prop where
  built : buildProblem catalog trace spec = .ok problem
  completes : Completes problem interpreter assignment pre

namespace Completion

variable {catalog : EventCatalog} {trace : Trace} {spec : CompletionSpec} {problem : BoundedProblem}
  {interpreter : Interpreter} {assignment : Dict String Value} {pre : CellStates}
  {t : Transformation}

theorem spec_eq (h : Completion catalog trace spec problem interpreter assignment pre) :
    problem.spec = spec := by
  obtain ⟨_, hparts⟩ := builtFrom_of_buildProblem h.built
  exact hparts.spec_eq

/-- The part of a rule in the problem. -/
structure HasPart (problem : BoundedProblem) (context : EvaluationContext) (t : Transformation)
    (part : TransformationInstantiation) : Prop where
  instantiated : instantiateTransformation t problem.events = .ok part
  constraints : ∀ c ∈ part.constraints, context.Holds c.expression
  requirements : part.requirements ⊆ problem.stateRequirements
  updates : part.updates ⊆ problem.stateUpdates
  forwards : part.guardedForwards ⊆ problem.guardedForwards
  supports : part.guardedSupports ⊆ problem.guardedSupports

theorem part (h : Completion catalog trace spec problem interpreter assignment pre)
    (ht : t ∈ spec.transformations) :
    ∃ part, HasPart problem (problem.context interpreter assignment) t part := by
  obtain ⟨parts, hparts⟩ := builtFrom_of_buildProblem h.built
  obtain ⟨part, hpart, hok⟩ := mapM_result hparts.instantiated ht
  refine ⟨part, hok, ?_, ?_, ?_, ?_, ?_⟩
  · intro c hc
    refine h.completes.1 c ?_
    rw [hparts.constraints_eq]
    exact List.mem_append_right _ (List.mem_flatMap.mpr ⟨part, hpart, hc⟩)
  · rw [hparts.requirements_eq]
    exact fun r hr => List.mem_flatMap.mpr ⟨part, hpart, hr⟩
  · rw [hparts.updates_eq]
    exact fun u hu => List.mem_flatMap.mpr ⟨part, hpart, hu⟩
  · rw [hparts.forwards_eq]
    exact fun item hitem => List.mem_flatMap.mpr ⟨part, hpart, hitem⟩
  · rw [hparts.supports_eq]
    exact fun item hitem => List.mem_flatMap.mpr ⟨part, hpart, hitem⟩

theorem validated (h : Completion catalog trace spec problem interpreter assignment pre)
    (ht : t ∈ spec.transformations) : t.validate catalog spec.stateVariables = .ok () := by
  obtain ⟨_, -, hbuilt⟩ := bind_eq_ok.mp h.built
  obtain ⟨_, hvalidate, -⟩ := bind_eq_ok.mp hbuilt
  obtain ⟨_, -, hvalidate⟩ := bind_eq_ok.mp hvalidate
  obtain ⟨_, -, hvalidate⟩ := bind_eq_ok.mp hvalidate
  obtain ⟨_, hrules, -⟩ := bind_eq_ok.mp hvalidate
  exact forM_eq_ok.mp hrules t ht

/-- The three-valued meaning of a rule without guards holds. -/
theorem kleeneMeaning (h : Completion catalog trace spec problem interpreter assignment pre)
    (ht : t ∈ spec.transformations) (hmode : t.stateMode = .require) :
    t.KleeneMeaning (problem.context interpreter assignment) problem.events := by
  obtain ⟨part, hpart⟩ := h.part ht
  refine (Transformation.constraints_hold_iff_kleene hmode hpart.instantiated ?_).mp
    hpart.constraints
  exact fun c hc => (hpart.constraints c hc).returns

/-- The guard of a rule has a result at every binding of distinct inputs. -/
theorem guard_returns (h : Completion catalog trace spec problem interpreter assignment pre)
    (ht : t ∈ spec.transformations) (hmode : t.stateMode = .require) {input : RoleBinding}
    (hbinds : input.Binds problem.events t.inputs) (hdistinct : input.distinct = true) :
    (problem.context interpreter assignment).Returns (input.instantiate t.when) := by
  obtain ⟨part, hpart⟩ := h.part ht
  have hmem := (Transformation.mem_constraints hmode hpart.instantiated).mpr
    (Or.inl ⟨input, hbinds, hdistinct, rfl⟩)
  obtain ⟨c, hc, heq⟩ := List.mem_map.mp hmem
  have hreturns := (hpart.constraints c hc).returns
  rw [heq, Transformation.forwardExpression] at hreturns
  have hantecedent := EvaluationContext.returns_conjunction.mp
    (EvaluationContext.returns_implies.mp hreturns).1
  exact hantecedent _ (List.mem_append_right _ (List.mem_singleton_self _))

/-- Inputs that occur and satisfy the guard have a firing. -/
theorem forward (h : Completion catalog trace spec problem interpreter assignment pre)
    (ht : t ∈ spec.transformations) (hmode : t.stateMode = .require) {input : RoleBinding}
    (hbinds : input.Binds problem.events t.inputs) (hdistinct : input.distinct = true)
    (hholds : ∀ e ∈ t.antecedentItems input, (problem.context interpreter assignment).Holds e) :
    ∃ output, t.Fires (problem.context interpreter assignment) problem.events input output := by
  rcases (h.kleeneMeaning ht hmode).1 input hbinds hdistinct with ⟨e, he, hfails⟩ | hfires
  · exact absurd hfails (hholds e he).not_fails
  · obtain ⟨output, houtput, hdistinct', hitems⟩ := hfires
    refine ⟨output, ⟨hbinds, houtput, hdistinct'⟩, ?_⟩
    exact List.forall_mem_append.mpr ⟨hholds, hitems⟩

/-- The items of a firing from those of its inputs and those of its output. -/
theorem fires_of_support (h : Completion catalog trace spec problem interpreter assignment pre)
    (ht : t ∈ spec.transformations) {input output : RoleBinding}
    (hfiring : t.IsFiring problem.events input output)
    (hoccurs : ∀ e ∈ output.occurs, (problem.context interpreter assignment).Holds e)
    (hscope : (problem.context interpreter assignment).Holds (output.instantiate t.outputWhen))
    (hitems : ∀ e ∈ t.supportItems input output,
      (problem.context interpreter assignment).Holds e) :
    t.Fires (problem.context interpreter assignment) problem.events input output := by
  obtain ⟨hwhen, houtputWhen⟩ := Transformation.references_of_validate (h.validated ht)
  obtain ⟨hguard, hout⟩ := hfiring.instantiate_guards hwhen houtputWhen
  obtain ⟨hinputs, hrest⟩ := List.forall_mem_append.mp hitems
  obtain ⟨hwhenHolds, hensure⟩ := List.forall_mem_cons.mp hrest
  rw [hguard] at hwhenHolds
  refine ⟨hfiring, List.forall_mem_append.mpr ⟨?_, ?_⟩⟩
  · exact List.forall_mem_append.mpr ⟨hinputs, List.forall_mem_singleton.mpr hwhenHolds⟩
  · refine List.forall_mem_append.mpr ⟨hoccurs, List.forall_mem_cons.mpr ⟨?_, hensure⟩⟩
    rw [hout]
    exact hscope

/-- An output of an exact rule that occurs within its scope has a firing. -/
theorem support (h : Completion catalog trace spec problem interpreter assignment pre)
    (ht : t ∈ spec.transformations) (hmode : t.stateMode = .require) (hexact : t.isExact = true)
    {output : RoleBinding} (hbinds : output.Binds problem.events t.outputs)
    (hdistinct : output.distinct = true)
    (hoccurs : ∀ e ∈ output.occurs, (problem.context interpreter assignment).Holds e)
    (hscope : (problem.context interpreter assignment).Holds (output.instantiate t.outputWhen)) :
    ∃ input, t.Fires (problem.context interpreter assignment) problem.events input output := by
  rcases (h.kleeneMeaning ht hmode).2 hexact output hbinds hdistinct with hfails | hfires
  · rcases hfails with ⟨e, he, hfails⟩ | hfails
    · exact absurd hfails (hoccurs e he).not_fails
    · exact absurd hfails hscope.not_fails
  · obtain ⟨input, hinput, hdistinct', hitems⟩ := hfires
    exact ⟨input, h.fires_of_support ht ⟨hinput, hbinds, hdistinct'⟩ hoccurs hscope hitems⟩

/-- A firing finds its requirements met before the cycle of their anchors. -/
theorem requirement (h : Completion catalog trace spec problem interpreter assignment pre)
    (ht : t ∈ spec.transformations) (hmode : t.stateMode = .require) {input output : RoleBinding}
    (hfires : t.Fires (problem.context interpreter assignment) problem.events input output)
    {requirement : StateRequirement} (hrequirement : requirement ∈ t.stateRequirements) :
    ∃ c v actual, c ≤ spec.horizon ∧
      (problem.context interpreter assignment).AtCycle
        (RoleBinding.apply (input ++ output) requirement.atRole) c ∧
      (problem.context interpreter assignment).evaluate
        (RoleBinding.instantiate (input ++ output) requirement.value) = .ok (some v) ∧
      pre c requirement.state = some actual ∧ requirement.op.compare actual v = .ok true := by
  obtain ⟨part, hpart⟩ := h.part ht
  obtain ⟨hrequirements, -⟩ :=
    Transformation.exists_effects hmode hpart.instantiated hfires.firing
  obtain ⟨r, hr, his⟩ := hrequirements requirement hrequirement
  have hactive : (problem.context interpreter assignment).Holds r.activation := by
    rw [his.activation_eq]
    exact holds_conjunction.mpr hfires.holds
  rcases h.completes.2.requirement r (hpart.requirements hr) with hidle | hmet
  · exact absurd hidle hactive.not_idle
  · obtain ⟨c, v, actual, hat, hactual, hcompare⟩ := hmet
    obtain ⟨id, hid, hcycle⟩ := his.anchor
    have happly := RoleBinding.apply_of_getItem hid
    have hcycle' := hat.cycle_eq
    rw [hcycle, evaluate_eventField] at hcycle'
    rw [happly, ← his.expected_eq, ← his.state_eq, ← his.op_eq]
    exact ⟨c, v, actual, h.spec_eq ▸ hat.inside, hcycle', hat.value_eq, hactual, hcompare⟩

/-- A firing has its updates visible after the cycle of their anchors. -/
theorem update (h : Completion catalog trace spec problem interpreter assignment pre)
    (ht : t ∈ spec.transformations) (hmode : t.stateMode = .require) {input output : RoleBinding}
    (hfires : t.Fires (problem.context interpreter assignment) problem.events input output)
    {update : StateUpdate} (hupdate : update ∈ t.stateUpdates) :
    ∃ c v w, c ≤ spec.horizon ∧
      (problem.context interpreter assignment).AtCycle
        (RoleBinding.apply (input ++ output) update.atRole) c ∧
      (problem.context interpreter assignment).evaluate
        (RoleBinding.instantiate (input ++ output) update.value) = .ok (some v) ∧
      pre (c + 1) update.state = some w ∧ w.key = v.key := by
  obtain ⟨part, hpart⟩ := h.part ht
  obtain ⟨-, hupdates⟩ := Transformation.exists_effects hmode hpart.instantiated hfires.firing
  obtain ⟨u, hu, his⟩ := hupdates update hupdate
  have hactive : (problem.context interpreter assignment).Holds u.activation := by
    rw [his.activation_eq]
    exact holds_conjunction.mpr hfires.holds
  rcases h.completes.2.update u (hpart.updates hu) with hidle | ⟨c, v, hat⟩
  · exact absurd hidle hactive.not_idle
  · obtain ⟨w, hw, hkey⟩ := h.completes.2.written (hpart.updates hu) hat
    obtain ⟨id, hid, hcycle⟩ := his.anchor
    have happly := RoleBinding.apply_of_getItem hid
    have hcycle' := hat.cycle_eq
    rw [hcycle, evaluate_eventField] at hcycle'
    rw [happly, ← his.value_eq, ← his.state_eq]
    exact ⟨c, v, w, h.spec_eq ▸ hat.inside, hcycle', hat.value_eq, hw, hkey⟩

/-- A cell that changes has the value of an update of a firing. -/
theorem changed (h : Completion catalog trace spec problem interpreter assignment pre) {c : Nat}
    (hc : c ≤ spec.horizon) {name : String} (hne : pre (c + 1) name ≠ pre c name) :
    ∃ t ∈ spec.transformations, ∃ input output,
      t.Fires (problem.context interpreter assignment) problem.events input output ∧
      ∃ update ∈ t.stateUpdates, update.state = name ∧
        (problem.context interpreter assignment).AtCycle
          (RoleBinding.apply (input ++ output) update.atRole) c ∧
        ∃ v, (problem.context interpreter assignment).evaluate
          (RoleBinding.instantiate (input ++ output) update.value) = .ok (some v) ∧
          pre (c + 1) name = some v := by
  obtain ⟨u, hu, hname, v, hat, hafter⟩ := h.completes.2.changed (h.spec_eq ▸ hc) hne
  obtain ⟨parts, hparts⟩ := builtFrom_of_buildProblem h.built
  rw [hparts.updates_eq] at hu
  obtain ⟨part, hpart, hu⟩ := List.mem_flatMap.mp hu
  obtain ⟨t, ht, hok⟩ := mapM_origin hparts.instantiated hpart
  obtain ⟨input, output, hfiring, update, hupdate, his⟩ := Transformation.update_origin hok hu
  have hholds := hat.holds
  rw [his.activation_eq] at hholds
  have hcycle := hat.cycle_eq
  obtain ⟨id, hid, hid'⟩ := his.anchor
  have happly := RoleBinding.apply_of_getItem hid
  rw [hid', evaluate_eventField] at hcycle
  refine ⟨t, ht, input, output, ⟨hfiring, holds_conjunction.mp hholds⟩, update, hupdate, ?_, ?_,
    v, ?_, hafter⟩
  · rw [← his.state_eq, hname]
  · rw [happly]
    exact hcycle
  · rw [← his.value_eq]
    exact hat.value_eq

end Completion

end Umcm
