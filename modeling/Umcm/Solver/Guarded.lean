import Umcm.Ir.Constructor
import Umcm.Solver.Firing

/-!
# State-guarded rules in a completion

The requirements of a state-guarded rule decide whether it fires: inputs whose
requirements are met have a firing, and an output of an exact rule has a firing
whose requirements are met.

* `Completion.guarded_forward`, `Completion.guarded_support`: the firings there
  have to be.
-/

namespace Umcm

open Except EvaluationContext

/-- The comparison of the cell with the value returns the result, before the
cycle of the anchor. -/
def StateRequirement.Fields.Meets (r : StateRequirement.Fields) (context : EvaluationContext)
    (horizon : Nat) (pre : CellStates) (b : RoleBinding) (result : Bool) : Prop :=
  ∃ c v actual, c ≤ horizon ∧ context.AtCycle (b.apply r.atRole) c ∧
    context.evaluate (b.instantiate r.value) = .ok (some v) ∧ pre c r.state = some actual ∧
    r.op.compare actual v = .ok result

/-- A requirement is met or not. -/
theorem StateRequirement.Fields.Meets.unique {r : StateRequirement.Fields}
    {context : EvaluationContext} {horizon : Nat} {pre : CellStates} {b : RoleBinding}
    {result result' : Bool} (h : r.Meets context horizon pre b result)
    (h' : r.Meets context horizon pre b result') : result = result' := by
  obtain ⟨c, v, actual, -, hc, hv, hactual, hcompare⟩ := h
  obtain ⟨c', v', actual', -, hc', hv', hactual', hcompare'⟩ := h'
  cases hc.unique hc'
  rw [hv] at hv'
  cases hv'
  rw [hactual] at hactual'
  cases hactual'
  rw [hcompare] at hcompare'
  cases hcompare'
  rfl

def StateRequirement.toFields (r : StateRequirement) : StateRequirement.Fields :=
  ⟨r.state, r.atRole, r.op, r.value⟩

namespace StateRun

variable {t : Transformation} {context : EvaluationContext} {horizon : Nat} {pre : CellStates}
  {b : RoleBinding} {predicates : List GuardPredicateInstance}

theorem meets_of_compared {requirement : StateRequirement} {guard : GuardPredicateInstance}
    (h : (do
      let anchor ← b.getItem requirement.atRole
      return { state := requirement.state, cycle := .eventField anchor "cycle" .int
               op := requirement.op, expected := b.instantiate requirement.value } :
        Except PyError GuardPredicateInstance) = .ok guard) {result : Bool}
    (hcompared : Compared context horizon pre guard result) :
    requirement.toFields.Meets context horizon pre b result := by
  obtain ⟨anchor, hanchor, h⟩ := bind_eq_ok.mp h
  cases h
  obtain ⟨c, v, actual, hcycle, hc, hv, hactual, hcompare⟩ := hcompared
  rw [evaluate_eventField] at hcycle
  refine ⟨c, v, actual, hc, ?_, hv, hactual, hcompare⟩
  rw [show requirement.toFields.atRole = requirement.atRole from rfl,
    RoleBinding.apply_of_getItem hanchor]
  exact hcycle

theorem GuardsReturn.all_compared (h : GuardsReturn context horizon pre predicates true) :
    ∀ guard ∈ predicates, Compared context horizon pre guard true := by
  induction predicates with
  | nil => exact fun guard hguard => absurd hguard List.not_mem_nil
  | cons guard rest ih =>
      rcases h with ⟨-, hfalse⟩ | ⟨hcompared, hrest⟩
      · cases hfalse
      · exact List.forall_mem_cons.mpr ⟨hcompared, ih hrest⟩

theorem GuardsReturn.exists_compared (h : GuardsReturn context horizon pre predicates false) :
    ∃ guard ∈ predicates, Compared context horizon pre guard false := by
  induction predicates with
  | nil => cases h
  | cons guard rest ih =>
      rcases h with ⟨hcompared, -⟩ | ⟨-, hrest⟩
      · exact ⟨guard, List.mem_cons_self, hcompared⟩
      · obtain ⟨guard', hguard', hcompared⟩ := ih hrest
        exact ⟨guard', List.mem_cons_of_mem _ hguard', hcompared⟩

/-- Guards that return true are the requirements, met. -/
theorem all_meet_of_guardsReturn (hpredicates : t.guardPredicates b = .ok predicates)
    (h : GuardsReturn context horizon pre predicates true) :
    ∀ requirement ∈ t.stateRequirements,
      requirement.toFields.Meets context horizon pre b true := by
  intro requirement hrequirement
  obtain ⟨guard, hguard, hok⟩ := mapM_result hpredicates hrequirement
  exact meets_of_compared hok (h.all_compared guard hguard)

/-- Guards that return false have a requirement that is not met. -/
theorem exists_meets_of_guardsReturn (hpredicates : t.guardPredicates b = .ok predicates)
    (h : GuardsReturn context horizon pre predicates false) :
    ∃ requirement ∈ t.stateRequirements,
      requirement.toFields.Meets context horizon pre b false := by
  obtain ⟨guard, hguard, hcompared⟩ := h.exists_compared
  obtain ⟨requirement, hrequirement, hok⟩ := mapM_origin hpredicates hguard
  exact ⟨requirement, hrequirement, meets_of_compared hok hcompared⟩

/-- A supported output has a candidate that holds with its guards. -/
theorem Supported.exists_candidate {candidates : List GuardedSupportCandidate}
    (h : Supported context horizon pre candidates) :
    ∃ candidate ∈ candidates, context.Holds candidate.expression ∧
      GuardsReturn context horizon pre candidate.predicates true := by
  induction candidates with
  | nil => cases h
  | cons candidate rest ih =>
      rcases h with hcandidate | ⟨-, hrest⟩
      · exact ⟨candidate, List.mem_cons_self, hcandidate⟩
      · obtain ⟨candidate', hcandidate', hholds⟩ := ih hrest
        exact ⟨candidate', List.mem_cons_of_mem _ hcandidate', hholds⟩

end StateRun

namespace Completion

variable {catalog : EventCatalog} {trace : Trace} {spec : CompletionSpec} {problem : BoundedProblem}
  {interpreter : Interpreter} {assignment : Dict String Value} {pre : CellStates}
  {t : Transformation}

/-- The guard of a state-guarded rule has a result at every binding of distinct inputs. -/
theorem guarded_guard_returns
    (h : Completion catalog trace spec problem interpreter assignment pre)
    (ht : t ∈ spec.transformations) (hmode : t.stateMode = .guard) {input : RoleBinding}
    (hbinds : input.Binds problem.events t.inputs) (hdistinct : input.distinct = true)
    (hanchored : ∀ requirement ∈ t.stateRequirements,
      requirement.atRole ∈ t.inputs.map EventRole.name) :
    (problem.context interpreter assignment).Returns (input.instantiate t.when) := by
  obtain ⟨part, hpart⟩ := h.part ht
  obtain ⟨item, hitem, his⟩ :=
    Transformation.exists_guardedForward hmode hpart.instantiated hbinds hdistinct hanchored
  have hreturns : (problem.context interpreter assignment).Returns item.antecedent := by
    rcases h.completes.2.forward item (hpart.forwards hitem) with ⟨v, hv, -⟩ | ⟨hholds, -⟩
    · exact ⟨_, hv⟩
    · exact hholds.returns
  rw [his.antecedent_eq] at hreturns
  exact returns_conjunction.mp hreturns _
    (List.mem_append_right _ (List.mem_singleton_self _))

/-- Inputs that occur and satisfy the guard have a firing when the requirements
are met. -/
theorem guarded_forward (h : Completion catalog trace spec problem interpreter assignment pre)
    (ht : t ∈ spec.transformations) (hmode : t.stateMode = .guard) {input : RoleBinding}
    (hbinds : input.Binds problem.events t.inputs) (hdistinct : input.distinct = true)
    (hanchored : ∀ requirement ∈ t.stateRequirements,
      requirement.atRole ∈ t.inputs.map EventRole.name)
    (hholds : ∀ e ∈ t.antecedentItems input, (problem.context interpreter assignment).Holds e) :
    (∃ requirement ∈ t.stateRequirements, requirement.toFields.Meets
      (problem.context interpreter assignment) spec.horizon pre input false) ∨
    (∀ requirement ∈ t.stateRequirements, requirement.toFields.Meets
      (problem.context interpreter assignment) spec.horizon pre input true) ∧
    ∃ output, t.Fires (problem.context interpreter assignment) problem.events input output := by
  obtain ⟨part, hpart⟩ := h.part ht
  obtain ⟨item, hitem, his⟩ :=
    Transformation.exists_guardedForward hmode hpart.instantiated hbinds hdistinct hanchored
  have hactive : (problem.context interpreter assignment).Holds item.antecedent := by
    rw [his.antecedent_eq]
    exact holds_conjunction.mpr hholds
  rcases h.completes.2.forward item (hpart.forwards hitem) with hidle | ⟨-, hfalse | htrue⟩
  · exact absurd hidle hactive.not_idle
  · left
    rw [← h.spec_eq]
    exact StateRun.exists_meets_of_guardsReturn his.predicates hfalse
  · obtain ⟨hguards, hconsequent⟩ := htrue
    right
    rw [← h.spec_eq]
    refine ⟨StateRun.all_meet_of_guardsReturn his.predicates hguards, ?_⟩
    rw [his.consequent_eq, holds_disjunction_iff] at hconsequent
    obtain ⟨-, e, he, hholds'⟩ := hconsequent
    obtain ⟨output, hout, hdistinct', rfl⟩ := Transformation.mem_alternatives.mp he
    refine ⟨output, ⟨hbinds, hout, hdistinct'⟩, ?_⟩
    exact List.forall_mem_append.mpr ⟨hholds, holds_conjunction.mp hholds'⟩

/-- An output of an exact rule that occurs within its scope has a firing whose
requirements are met. -/
theorem guarded_support (h : Completion catalog trace spec problem interpreter assignment pre)
    (ht : t ∈ spec.transformations) (hmode : t.stateMode = .guard) (hexact : t.isExact = true)
    {output : RoleBinding} (hbinds : output.Binds problem.events t.outputs)
    (hdistinct : output.distinct = true)
    (hoccurs : ∀ e ∈ output.occurs, (problem.context interpreter assignment).Holds e)
    (hscope : (problem.context interpreter assignment).Holds (output.instantiate t.outputWhen)) :
    ∃ input, t.Fires (problem.context interpreter assignment) problem.events input output ∧
      ∀ requirement ∈ t.stateRequirements, requirement.toFields.Meets
        (problem.context interpreter assignment) spec.horizon pre (input ++ output) true := by
  obtain ⟨part, hpart⟩ := h.part ht
  obtain ⟨item, hitem, his⟩ :=
    Transformation.exists_guardedSupport hmode hexact hpart.instantiated hbinds hdistinct
  have hactive : (problem.context interpreter assignment).Holds item.antecedent := by
    rw [his.antecedent_eq, Transformation.scopeItems]
    refine holds_conjunction.mpr (List.forall_mem_cons.mpr ⟨holds_conjunction.mpr hoccurs, ?_⟩)
    exact List.forall_mem_singleton.mpr hscope
  rcases h.completes.2.support item (hpart.supports hitem) with hidle | ⟨-, hsupported⟩
  · exact absurd hidle hactive.not_idle
  · obtain ⟨candidate, hcandidate, hholds, hguards⟩ := hsupported.exists_candidate
    obtain ⟨input, hinput, hok⟩ := mapM_origin his.supports hcandidate
    obtain ⟨predicates, hpredicates, hok⟩ := bind_eq_ok.mp hok
    cases hok
    obtain ⟨hmem, hdistinct'⟩ := List.mem_filter.mp hinput
    have hfires := h.fires_of_support ht
      ⟨mem_roleBindings.mp hmem, hbinds, hdistinct'⟩ hoccurs hscope
      (holds_conjunction.mp hholds)
    rw [← h.spec_eq]
    exact ⟨input, hfires, StateRun.all_meet_of_guardsReturn hpredicates hguards⟩

end Completion

end Umcm
