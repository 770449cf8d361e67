import Umcm.Composition.Sighting
import Umcm.Solver.Guarded

/-!
# State-guarded rules of a file

What the state-guarded rules of a module file mean in a completion that
includes the module.

* `ModuleCompletion.guarded_forward_one`, `.guarded_support_one`: rules with one
  input and one output.
-/

namespace Umcm

open Except EvaluationContext

/-! ## Requirements -/

namespace StateRequirement.Fields.Meets

variable {r : StateRequirement.Fields} {context : EvaluationContext} {horizon c : Nat}
  {pre : CellStates} {b : RoleBinding} {result : Bool} {v : Value}

/-- What a requirement compares, when its cycle and its value are known. -/
theorem compared (h : r.Meets context horizon pre b result)
    (hc : context.AtCycle (b.apply r.atRole) c)
    (hv : context.evaluate (b.instantiate r.value) = .ok (some v)) :
    ∃ actual, pre c r.state = some actual ∧ r.op.compare actual v = .ok result := by
  obtain ⟨c', v', actual, -, hc', hv', hactual, hcompare⟩ := h
  cases hc.unique hc'
  rw [hv] at hv'
  cases hv'
  exact ⟨actual, hactual, hcompare⟩

theorem eq_iff (h : r.Meets context horizon pre b result) (hop : r.op = .eq)
    (hc : context.AtCycle (b.apply r.atRole) c)
    (hv : context.evaluate (b.instantiate r.value) = .ok (some v)) :
    decide (CellIs pre c r.state v) = result := by
  obtain ⟨actual, hactual, hcompare⟩ := h.compared hc hv
  rw [hop] at hcompare
  cases hcompare
  simp [CellIs, hactual, Value.pyEq]

/-- A requirement of a value finds the cell with it or not. -/
theorem exists_cycle {state role : String} {sort : IrSort}
    (h : Meets ⟨state, role, .eq, .literal v sort⟩ context horizon pre b result) :
    ∃ c ≤ horizon, context.AtCycle (b.apply role) c ∧ decide (CellIs pre c state v) = result := by
  obtain ⟨c, -, -, hc, hcycle, -⟩ := id h
  refine ⟨c, hc, hcycle, h.eq_iff rfl hcycle ?_⟩
  rw [RoleBinding.instantiate_literal, evaluate_literal]

theorem ne_iff (h : r.Meets context horizon pre b result) (hop : r.op = .ne)
    (hc : context.AtCycle (b.apply r.atRole) c)
    (hv : context.evaluate (b.instantiate r.value) = .ok (some v)) :
    (!decide (CellIs pre c r.state v)) = result := by
  obtain ⟨actual, hactual, hcompare⟩ := h.compared hc hv
  rw [hop] at hcompare
  cases hcompare
  simp [CellIs, hactual, Value.pyEq]

end StateRequirement.Fields.Meets

namespace ModuleCompletion

variable {file : ModuleFields} {catalog : EventCatalog} {trace : Trace} {spec : CompletionSpec}
  {problem : BoundedProblem} {interpreter : Interpreter} {assignment : Dict String Value}
  {pre : CellStates}

/-- The requirements of a built rule are those of the file. -/
theorem requirements_of_built {t : Transformation} {f : Transformation.Fields}
    (hbuilt : t.BuiltFrom f) :
    t.stateRequirements.map StateRequirement.toFields = f.stateRequirements :=
  hbuilt.requirements_eq

/-- The guard of a state-guarded rule has a result when its inputs occur. -/
theorem guarded_guard_returns
    (h : ModuleCompletion file catalog trace spec problem interpreter assignment pre)
    {rule : ModuleRule.Fields} (hrule : rule ∈ file.rules) (hmode : rule.stateMode = .guard)
    (hanchored : ∀ r ∈ rule.stateRequirements, r.atRole ∈ rule.inputs.map Prod.fst)
    {ins : List String}
    (hins : List.Forall₂ (fun role id =>
      Occurring problem (problem.context interpreter assignment) role.2 id) rule.inputs ins)
    (hnodup : ins.Nodup) :
    (problem.context interpreter assignment).Returns
      (RoleBinding.instantiate ((rule.inputs.map Prod.fst).zip ins) rule.when) := by
  obtain ⟨t, ht, hbuilt⟩ := h.rule hrule
  rw [← hbuilt.when_eq]
  refine h.toCompletion.guarded_guard_returns ht (hbuilt.stateMode_eq.trans hmode)
    (binds_zip hbuilt.inputs_eq hins)
    (by rw [RoleBinding.distinct, ids_zip hins.length_eq]; exact decide_eq_true hnodup) ?_
  intro requirement hrequirement
  rw [hbuilt.input_names]
  refine hanchored requirement.toFields ?_
  rw [← requirements_of_built hbuilt]
  exact List.mem_map_of_mem hrequirement

/-- Events that occur and satisfy the guard of a rule have a firing when the
requirements are met. -/
theorem guarded_forward
    (h : ModuleCompletion file catalog trace spec problem interpreter assignment pre)
    {rule : ModuleRule.Fields} (hrule : rule ∈ file.rules) (hmode : rule.stateMode = .guard)
    (hanchored : ∀ r ∈ rule.stateRequirements, r.atRole ∈ rule.inputs.map Prod.fst)
    {ins : List String}
    (hins : List.Forall₂ (fun role id =>
      Occurring problem (problem.context interpreter assignment) role.2 id) rule.inputs ins)
    (hnodup : ins.Nodup)
    (hwhen : (problem.context interpreter assignment).Holds
      (RoleBinding.instantiate ((rule.inputs.map Prod.fst).zip ins) rule.when)) :
    (∃ r ∈ rule.stateRequirements, r.Meets (problem.context interpreter assignment) spec.horizon
      pre ((rule.inputs.map Prod.fst).zip ins) false) ∨
    (∀ r ∈ rule.stateRequirements, r.Meets (problem.context interpreter assignment) spec.horizon
      pre ((rule.inputs.map Prod.fst).zip ins) true) ∧
    ∃ outs, rule.Fires problem (problem.context interpreter assignment) ins outs := by
  obtain ⟨t, ht, hbuilt⟩ := h.rule hrule
  have hlength := hins.length_eq
  have hrequirements := requirements_of_built hbuilt
  have hroles : ∀ requirement ∈ t.stateRequirements,
      requirement.atRole ∈ t.inputs.map EventRole.name := by
    intro requirement hrequirement
    rw [hbuilt.input_names]
    refine hanchored requirement.toFields ?_
    rw [← hrequirements]
    exact List.mem_map_of_mem hrequirement
  rw [← hrequirements, List.forall_mem_map]
  rcases h.toCompletion.guarded_forward ht (hbuilt.stateMode_eq.trans hmode)
      (binds_zip hbuilt.inputs_eq hins)
      (by rw [RoleBinding.distinct, ids_zip hlength]; exact decide_eq_true hnodup) hroles
      (List.forall_mem_append.mpr ⟨holds_occurs_of_occurring hins,
        List.forall_mem_singleton.mpr (by rw [hbuilt.when_eq]; exact hwhen)⟩)
    with ⟨requirement, hrequirement, hunmet⟩ | ⟨hmet, output, hfires⟩
  · exact Or.inl ⟨requirement.toFields, List.mem_map_of_mem hrequirement, hunmet⟩
  · have hfields := (h.fires_of_built ht hbuilt hfires).1
    rw [ids_zip hlength] at hfields
    exact Or.inr ⟨hmet, output.ids, hfields⟩

/-- Outputs of an exact rule that occur within its scope have a firing whose
requirements are met. -/
theorem guarded_support
    (h : ModuleCompletion file catalog trace spec problem interpreter assignment pre)
    {rule : ModuleRule.Fields} (hrule : rule ∈ file.rules) (hmode : rule.stateMode = .guard)
    (hexact : rule.isExact = true) {outs : List String}
    (houts : List.Forall₂ (fun role id =>
      Occurring problem (problem.context interpreter assignment) role.2 id) rule.outputs outs)
    (hnodup : outs.Nodup)
    (hscope : (problem.context interpreter assignment).Holds
      (RoleBinding.instantiate (rule.outputBinding outs) rule.outputWhen)) :
    ∃ ins, rule.Fires problem (problem.context interpreter assignment) ins outs ∧
      ∀ r ∈ rule.stateRequirements, r.Meets (problem.context interpreter assignment) spec.horizon
        pre (rule.binding (ins ++ outs)) true := by
  obtain ⟨t, ht, hbuilt⟩ := h.rule hrule
  have hlength := houts.length_eq
  obtain ⟨input, hfires, hmet⟩ := h.toCompletion.guarded_support ht
    (hbuilt.stateMode_eq.trans hmode) (hbuilt.isExact_eq.trans hexact)
    (binds_zip hbuilt.outputs_eq houts)
    (by rw [RoleBinding.distinct, ids_zip hlength]; exact decide_eq_true hnodup)
    (holds_occurs_of_occurring houts) (by rw [hbuilt.outputWhen_eq]; exact hscope)
  obtain ⟨hfields, hbinding⟩ := h.fires_of_built ht hbuilt hfires
  rw [hbinding] at hmet
  rw [ids_zip hlength] at hfields hmet
  refine ⟨input.ids, hfields, ?_⟩
  rw [← requirements_of_built hbuilt, List.forall_mem_map]
  exact hmet

/-- The input of a rule has an output when the requirements are met. -/
theorem guarded_forward_one
    (h : ModuleCompletion file catalog trace spec problem interpreter assignment pre)
    {rule : ModuleRule.Fields} (hrule : rule ∈ file.rules) (hmode : rule.stateMode = .guard)
    {input output : String × String} (hinputs : rule.inputs = [input])
    (houtputs : rule.outputs = [output])
    (hanchored : ∀ r ∈ rule.stateRequirements, r.atRole = input.1) {a : String}
    (ha : Occurring problem (problem.context interpreter assignment) input.2 a)
    (hwhen : (problem.context interpreter assignment).Holds
      (RoleBinding.instantiate [(input.1, a)] rule.when)) :
    (∃ r ∈ rule.stateRequirements, r.Meets (problem.context interpreter assignment) spec.horizon
      pre [(input.1, a)] false) ∨
    (∀ r ∈ rule.stateRequirements, r.Meets (problem.context interpreter assignment) spec.horizon
      pre [(input.1, a)] true) ∧
    ∃ b, Occurring problem (problem.context interpreter assignment) output.2 b ∧
      rule.Links problem (problem.context interpreter assignment) a b := by
  have hforward := h.guarded_forward hrule hmode
    (by rw [hinputs]; exact fun r hr => List.mem_singleton.mpr (hanchored r hr))
    (by rw [hinputs]; exact .cons ha .nil) (List.nodup_singleton a)
    (by rw [hinputs]; exact hwhen)
  rw [hinputs] at hforward
  rcases hforward with hunmet | ⟨hmet, outs, hfires⟩
  · exact Or.inl hunmet
  · obtain ⟨a', b, heq, rfl, hlinks, -, hb⟩ := hfires.links hinputs houtputs
    cases heq
    exact Or.inr ⟨hmet, b, hb, hlinks⟩

/-- The output of an exact rule has an input that meets the requirements. -/
theorem guarded_support_one
    (h : ModuleCompletion file catalog trace spec problem interpreter assignment pre)
    {rule : ModuleRule.Fields} (hrule : rule ∈ file.rules) (hmode : rule.stateMode = .guard)
    (hexact : rule.isExact = true) {role role' eventType eventType' : String}
    (hinputs : rule.inputs = [(role, eventType)]) (houtputs : rule.outputs = [(role', eventType')])
    {b : String} (hb : Occurring problem (problem.context interpreter assignment) eventType' b)
    (hscope : (problem.context interpreter assignment).Holds
      (RoleBinding.instantiate [(role', b)] rule.outputWhen)) :
    ∃ a, Occurring problem (problem.context interpreter assignment) eventType a ∧
      rule.Links problem (problem.context interpreter assignment) a b ∧
      ∀ r ∈ rule.stateRequirements, r.Meets (problem.context interpreter assignment) spec.horizon
        pre [(role, a), (role', b)] true := by
  have houts : List.Forall₂ (fun role id =>
      Occurring problem (problem.context interpreter assignment) role.2 id) rule.outputs [b] := by
    rw [houtputs]
    exact .cons hb .nil
  obtain ⟨ins, hfires, hmet⟩ := h.guarded_support hrule hmode hexact houts
    (List.nodup_singleton b)
    (by rw [Transformation.Fields.outputBinding, houtputs]; exact hscope)
  obtain ⟨a, b', rfl, heq, hlinks, ha, -⟩ := hfires.links hinputs houtputs
  cases heq
  rw [Transformation.Fields.Links.binding_eq hinputs houtputs] at hmet
  exact ⟨a, ha, hlinks, hmet⟩

end ModuleCompletion

end Umcm
