import Umcm.Solver.Truth
import Umcm.Solver.Problem

/-!
# What the instances of a rule mean

A state-requiring rule is instantiated to implications between conjunctions of
instances. Three-valued logic makes an implication hold when a premise fails or
the conclusion holds; a premise that stays unknown is not enough.

* `constraints_hold_iff`: the instances hold exactly when every binding of the
  inputs has a premise that fails or an output that holds, and likewise for the
  outputs of an exact rule. If all premises are decided, this is the documented
  meaning.
-/

namespace Umcm

open Except

/-- The binding gives every role an event of its type. -/
def RoleBinding.Binds (events : List EventInstance) (roles : List EventRole) (b : RoleBinding) :
    Prop :=
  List.Forall₂ (fun p role => p.1 = role.name ∧
    ∃ event ∈ events, event.eventType = role.eventType ∧ event.id = p.2) b roles

theorem mem_roleBindings {roles : List EventRole} {events : List EventInstance} {b : RoleBinding} :
    b ∈ roleBindings roles events ↔ b.Binds events roles := by
  rw [roleBindings, Choice.mem_assignments, List.forall₂_map_right_iff, RoleBinding.Binds]
  simp only [List.mem_map, List.mem_filter, decide_eq_true_eq, and_assoc]

/-! ## The meaning of a rule -/

namespace Transformation

variable (t : Transformation) (context : EvaluationContext)

/-- The documented meaning: inputs that occur and satisfy `when` have outputs
that occur and satisfy `outputWhen` and `ensure`. -/
def ForwardMeaning (events : List EventInstance) : Prop :=
  ∀ input : RoleBinding, input.Binds events t.inputs → input.distinct = true →
    (∀ e ∈ t.antecedentItems input, context.Holds e) →
    ∃ output : RoleBinding, output.Binds events t.outputs ∧
      RoleBinding.distinct (input ++ output) = true ∧
      ∀ e ∈ t.outputItems input output, context.Holds e

/-- The documented meaning of an exact rule: an output that occurs and satisfies
`outputWhen` has inputs that occur and satisfy `when` and `ensure`. -/
def SupportMeaning (events : List EventInstance) : Prop :=
  ∀ output : RoleBinding, output.Binds events t.outputs → output.distinct = true →
    (∀ e ∈ output.occurs, context.Holds e) → context.Holds (output.instantiate t.outputWhen) →
    ∃ input : RoleBinding, input.Binds events t.inputs ∧
      RoleBinding.distinct (input ++ output) = true ∧
      ∀ e ∈ t.supportItems input output, context.Holds e

def DocumentedMeaning (events : List EventInstance) : Prop :=
  t.ForwardMeaning context events ∧ (t.isExact = true → t.SupportMeaning context events)

/-- Inputs have outputs unless a premise fails. -/
def ForwardUnlessFailed (events : List EventInstance) : Prop :=
  ∀ input : RoleBinding, input.Binds events t.inputs → input.distinct = true →
    (∃ e ∈ t.antecedentItems input, context.FailsOn e) ∨
    ∃ output : RoleBinding, output.Binds events t.outputs ∧
      RoleBinding.distinct (input ++ output) = true ∧
      ∀ e ∈ t.outputItems input output, context.Holds e

/-- Outputs have inputs unless a premise fails. -/
def SupportUnlessFailed (events : List EventInstance) : Prop :=
  ∀ output : RoleBinding, output.Binds events t.outputs → output.distinct = true →
    ((∃ e ∈ output.occurs, context.FailsOn e) ∨
      context.FailsOn (output.instantiate t.outputWhen)) ∨
    ∃ input : RoleBinding, input.Binds events t.inputs ∧
      RoleBinding.distinct (input ++ output) = true ∧
      ∀ e ∈ t.supportItems input output, context.Holds e

def KleeneMeaning (events : List EventInstance) : Prop :=
  t.ForwardUnlessFailed context events ∧ (t.isExact = true → t.SupportUnlessFailed context events)

/-- Every premise of an instance evaluates to a truth value. -/
def PremisesDecided (events : List EventInstance) : Prop :=
  (∀ input : RoleBinding, input.Binds events t.inputs → input.distinct = true →
    ∀ e ∈ t.antecedentItems input, context.Decided e) ∧
  (t.isExact = true → ∀ output : RoleBinding, output.Binds events t.outputs →
    output.distinct = true → ∀ e ∈ output.instantiate t.outputWhen :: output.occurs,
      context.Decided e)

/-! ## The constraints of a rule -/

/-- The implication for one input binding. -/
def forwardExpression (input : RoleBinding) (outputs : List RoleBinding) : Expr :=
  .binary .implies (Expr.conjunction (t.antecedentItems input))
    (Expr.disjunction (t.alternatives input outputs))

/-- The implication for one output binding. -/
def supportExpression (inputs : List RoleBinding) (output : RoleBinding) : Expr :=
  .binary .implies (Expr.conjunction (t.scopeItems output))
    (Expr.disjunction ((inputsFor output inputs).map (fun input =>
      Expr.conjunction (t.supportItems input output))))

variable {t context} {events : List EventInstance}

theorem requireForward_constraints {outputs : List RoleBinding} {p : RoleBinding × Nat}
    {part : TransformationInstantiation} (h : t.requireForward outputs p = .ok part) :
    part.constraints.map NamedConstraint.expression = [t.forwardExpression p.1 outputs] := by
  obtain ⟨activations, -, h⟩ := bind_eq_ok.mp h
  obtain ⟨effects, -, h⟩ := bind_eq_ok.mp h
  cases h
  rfl

theorem support_constraints (hmode : t.stateMode = .require) {inputs : List RoleBinding}
    {p : RoleBinding × Nat} {part : TransformationInstantiation}
    (h : t.support inputs p = .ok part) :
    part.constraints.map NamedConstraint.expression = [t.supportExpression inputs p.1] := by
  rw [support, if_neg (by simp [hmode])] at h
  cases h
  rfl

/-- The constraints of several parts, when each of them has one. -/
theorem mem_constraints_iff {parts : List TransformationInstantiation}
    {sources : List (RoleBinding × Nat)}
    {f : RoleBinding × Nat → Except PyError TransformationInstantiation} {g : RoleBinding → Expr}
    (h : sources.mapM f = .ok parts)
    (hf : ∀ {p part}, f p = .ok part → part.constraints.map NamedConstraint.expression = [g p.1])
    {e : Expr} :
    e ∈ (parts.flatMap TransformationInstantiation.constraints).map NamedConstraint.expression ↔
      ∃ p ∈ sources, e = g p.1 := by
  rw [mapM_eq_ok] at h
  induction h with
  | nil => simp
  | cons hp _ ih =>
      rw [List.flatMap_cons, List.map_append, List.mem_append, ih, hf hp, List.mem_singleton,
        List.exists_mem_cons_iff]

theorem exists_distinct_iff {bindings : List RoleBinding} {q : RoleBinding → Prop} :
    (∃ p ∈ bindings.zipIdx.filter (fun p => p.1.distinct), q p.1) ↔
      ∃ b ∈ bindings, b.distinct = true ∧ q b := by
  constructor
  · rintro ⟨p, hp, hq⟩
    obtain ⟨hmem, hdistinct⟩ := List.mem_filter.mp hp
    exact ⟨p.1, List.fst_mem_of_mem_zipIdx hmem, hdistinct, hq⟩
  · rintro ⟨b, hb, hdistinct, hq⟩
    obtain ⟨i, hi, rfl⟩ := List.mem_iff_getElem.mp hb
    exact ⟨(bindings[i], i), List.mem_filter.mpr ⟨List.mk_mem_zipIdx_iff_getElem?.mpr (by simp),
      hdistinct⟩, hq⟩

/-- The constraints that a state-requiring rule yields: one for every input
binding and, for an exact rule, one for every output binding. -/
theorem mem_constraints (hmode : t.stateMode = .require) {parts : TransformationInstantiation}
    (h : instantiateTransformation t events = .ok parts) {e : Expr} :
    e ∈ parts.constraints.map NamedConstraint.expression ↔
      (∃ input : RoleBinding, input.Binds events t.inputs ∧ input.distinct = true ∧
        e = t.forwardExpression input (roleBindings t.outputs events)) ∨
      (t.isExact = true ∧ ∃ output : RoleBinding, output.Binds events t.outputs ∧
        output.distinct = true ∧
        e = t.supportExpression (roleBindings t.inputs events) output) := by
  obtain ⟨forwards, hforwards, h⟩ := bind_eq_ok.mp h
  obtain ⟨supports, hsupports, h⟩ := bind_eq_ok.mp h
  cases h
  rw [Transformation.forwards, if_neg (by simp [hmode])] at hforwards
  have hleft := mem_constraints_iff hforwards (e := e)
    (g := fun b => t.forwardExpression b (roleBindings t.outputs events))
    (fun hp => requireForward_constraints hp)
  have hright : e ∈ (supports.flatMap TransformationInstantiation.constraints).map
      NamedConstraint.expression ↔ t.isExact = true ∧
      ∃ output ∈ roleBindings t.outputs events, output.distinct = true ∧
        e = t.supportExpression (roleBindings t.inputs events) output := by
    by_cases hexact : t.isExact = true
    · rw [Transformation.supports, if_pos hexact] at hsupports
      rw [mem_constraints_iff hsupports
          (g := fun b => t.supportExpression (roleBindings t.inputs events) b)
          (fun hp => support_constraints hmode hp),
        exists_distinct_iff (q := fun b => e = t.supportExpression _ b)]
      simp [hexact]
    · rw [Transformation.supports, if_neg hexact] at hsupports
      cases hsupports
      simp [hexact]
  change e ∈ ((forwards ++ supports).flatMap _).map _ ↔ _
  rw [List.flatMap_append, List.map_append, List.mem_append, hleft, hright,
    exists_distinct_iff (q := fun b => e = t.forwardExpression b _)]
  simp only [mem_roleBindings]

/-! ## When a constraint holds -/

theorem mem_alternatives {input : RoleBinding} {e : Expr} :
    e ∈ t.alternatives input (roleBindings t.outputs events) ↔
      ∃ output : RoleBinding, output.Binds events t.outputs ∧
        RoleBinding.distinct (input ++ output) = true ∧
        e = Expr.conjunction (t.outputItems input output) := by
  simp only [alternatives, outputsFor, List.mem_map, List.mem_filter]
  constructor
  · rintro ⟨p, ⟨hmem, hdistinct⟩, rfl⟩
    exact ⟨p.1, mem_roleBindings.mp (List.fst_mem_of_mem_zipIdx hmem), hdistinct, rfl⟩
  · rintro ⟨output, hbinds, hdistinct, rfl⟩
    obtain ⟨i, hi, rfl⟩ := List.mem_iff_getElem.mp (mem_roleBindings.mpr hbinds)
    exact ⟨(_, i), ⟨List.mk_mem_zipIdx_iff_getElem?.mpr (by simp), hdistinct⟩, rfl⟩

theorem forwardExpression_holds_iff {input : RoleBinding}
    (h : context.Returns (t.forwardExpression input (roleBindings t.outputs events))) :
    context.Holds (t.forwardExpression input (roleBindings t.outputs events)) ↔
      (∃ e ∈ t.antecedentItems input, context.FailsOn e) ∨
      ∃ output : RoleBinding, output.Binds events t.outputs ∧
        RoleBinding.distinct (input ++ output) = true ∧
        ∀ e ∈ t.outputItems input output, context.Holds e := by
  obtain ⟨hl, hr⟩ := EvaluationContext.returns_implies.mp h
  rw [forwardExpression, EvaluationContext.holds_implies hl hr,
    EvaluationContext.fails_conjunction (EvaluationContext.returns_conjunction.mp hl),
    EvaluationContext.holds_disjunction (EvaluationContext.returns_disjunction.mp hr)]
  simp only [mem_alternatives]
  constructor
  · rintro (hfail | ⟨e, ⟨output, hbinds, hdistinct, rfl⟩, hholds⟩)
    · exact Or.inl hfail
    · exact Or.inr ⟨output, hbinds, hdistinct, EvaluationContext.holds_conjunction.mp hholds⟩
  · rintro (hfail | ⟨output, hbinds, hdistinct, hholds⟩)
    · exact Or.inl hfail
    · exact Or.inr ⟨_, ⟨output, hbinds, hdistinct, rfl⟩,
        EvaluationContext.holds_conjunction.mpr hholds⟩

theorem supportExpression_holds_iff {output : RoleBinding}
    (h : context.Returns (t.supportExpression (roleBindings t.inputs events) output)) :
    context.Holds (t.supportExpression (roleBindings t.inputs events) output) ↔
      ((∃ e ∈ output.occurs, context.FailsOn e) ∨
        context.FailsOn (output.instantiate t.outputWhen)) ∨
      ∃ input : RoleBinding, input.Binds events t.inputs ∧
        RoleBinding.distinct (input ++ output) = true ∧
        ∀ e ∈ t.supportItems input output, context.Holds e := by
  obtain ⟨hl, hr⟩ := EvaluationContext.returns_implies.mp h
  have hscope := EvaluationContext.returns_conjunction.mp hl
  have hoccurs := EvaluationContext.returns_conjunction.mp
    (hscope (Expr.conjunction output.occurs) (by simp [scopeItems]))
  rw [supportExpression, EvaluationContext.holds_implies hl hr,
    EvaluationContext.fails_conjunction hscope,
    EvaluationContext.holds_disjunction (EvaluationContext.returns_disjunction.mp hr)]
  have hscoped : (∃ e ∈ t.scopeItems output, context.FailsOn e) ↔
      (∃ e ∈ output.occurs, context.FailsOn e) ∨
        context.FailsOn (output.instantiate t.outputWhen) := by
    simp only [scopeItems, List.exists_mem_cons_iff, List.not_mem_nil, false_and, exists_false,
      or_false]
    rw [EvaluationContext.fails_conjunction hoccurs]
  rw [hscoped]
  refine or_congr_right ?_
  simp only [List.mem_map, inputsFor, List.mem_filter, mem_roleBindings]
  constructor
  · rintro ⟨e, ⟨input, ⟨hbinds, hdistinct⟩, rfl⟩, hholds⟩
    exact ⟨input, hbinds, hdistinct, EvaluationContext.holds_conjunction.mp hholds⟩
  · rintro ⟨input, hbinds, hdistinct, hholds⟩
    exact ⟨_, ⟨input, ⟨hbinds, hdistinct⟩, rfl⟩, EvaluationContext.holds_conjunction.mpr hholds⟩

/-- The instances of a rule hold exactly when its three-valued meaning does. -/
theorem constraints_hold_iff_kleene (hmode : t.stateMode = .require)
    {parts : TransformationInstantiation} (h : instantiateTransformation t events = .ok parts)
    (hreturns : ∀ c ∈ parts.constraints, context.Returns c.expression) :
    (∀ c ∈ parts.constraints, context.Holds c.expression) ↔ t.KleeneMeaning context events := by
  have hall : ∀ {p : Expr → Prop}, (∀ c ∈ parts.constraints, p c.expression) ↔
      ∀ e ∈ parts.constraints.map NamedConstraint.expression, p e := by simp
  rw [hall] at hreturns ⊢
  simp only [mem_constraints hmode h] at hreturns ⊢
  constructor
  · intro hholds
    constructor
    · intro input hbinds hdistinct
      exact (forwardExpression_holds_iff (hreturns _ (Or.inl ⟨input, hbinds, hdistinct, rfl⟩))).mp
        (hholds _ (Or.inl ⟨input, hbinds, hdistinct, rfl⟩))
    · intro hexact output hbinds hdistinct
      exact (supportExpression_holds_iff
        (hreturns _ (Or.inr ⟨hexact, output, hbinds, hdistinct, rfl⟩))).mp
        (hholds _ (Or.inr ⟨hexact, output, hbinds, hdistinct, rfl⟩))
  · rintro ⟨hforward, hsupport⟩ e he
    have hret := hreturns e he
    rcases he with ⟨input, hbinds, hdistinct, rfl⟩ | ⟨hexact, output, hbinds, hdistinct, rfl⟩
    · exact (forwardExpression_holds_iff hret).mpr (hforward input hbinds hdistinct)
    · exact (supportExpression_holds_iff hret).mpr (hsupport hexact output hbinds hdistinct)

/-- An implication whose premises are decided is two-valued. -/
theorem unlessFailed_iff {items : List Expr} {q : Prop}
    (h : ∀ e ∈ items, context.Decided e) :
    ((∃ e ∈ items, context.FailsOn e) ∨ q) ↔ ((∀ e ∈ items, context.Holds e) → q) := by
  constructor
  · rintro (⟨e, he, hfail⟩ | hq) hholds
    · exact absurd hfail (hholds e he).not_fails
    · exact hq
  · intro himp
    by_cases hfail : ∃ e ∈ items, context.FailsOn e
    · exact Or.inl hfail
    · refine Or.inr (himp (fun e he => (h e he).resolve_right ?_))
      exact fun hf => hfail ⟨e, he, hf⟩

theorem kleeneMeaning_iff (h : t.PremisesDecided context events) :
    t.KleeneMeaning context events ↔ t.DocumentedMeaning context events := by
  have hforward : t.ForwardUnlessFailed context events ↔ t.ForwardMeaning context events := by
    refine forall_congr' (fun input => imp_congr_right (fun hbinds =>
      imp_congr_right (fun hdistinct => ?_)))
    exact unlessFailed_iff (h.1 input hbinds hdistinct)
  have hsupport : t.isExact = true →
      (t.SupportUnlessFailed context events ↔ t.SupportMeaning context events) := by
    intro hexact
    refine forall_congr' (fun output => imp_congr_right (fun hbinds =>
      imp_congr_right (fun hdistinct => ?_)))
    have hdecided := h.2 hexact output hbinds hdistinct
    rw [← and_imp, and_comm, ← List.forall_mem_cons, ← unlessFailed_iff hdecided,
      List.exists_mem_cons_iff, or_comm (a := ∃ e ∈ output.occurs, context.FailsOn e)]
  rw [KleeneMeaning, DocumentedMeaning, hforward]
  exact and_congr_right (fun _ => imp_congr_right hsupport)

end Transformation

open Transformation in
/-- The constraints of a state-requiring rule hold exactly when every binding of
distinct inputs has an occurrence or a guard that is false or outputs that
occur and satisfy the rule, and for an exact rule likewise for the outputs. When
all these occurrences and guards are decided, that is the documented meaning. -/
theorem constraints_hold_iff (t : Transformation) (hmode : t.stateMode = .require)
    (events : List EventInstance) (parts : TransformationInstantiation)
    (h : instantiateTransformation t events = .ok parts) (context : EvaluationContext)
    (hreturns : ∀ c ∈ parts.constraints, context.Returns c.expression) :
    ((∀ c ∈ parts.constraints, context.Holds c.expression) ↔ t.KleeneMeaning context events) ∧
    (t.PremisesDecided context events →
      ((∀ c ∈ parts.constraints, context.Holds c.expression) ↔
        t.DocumentedMeaning context events)) := by
  refine ⟨constraints_hold_iff_kleene hmode h hreturns, fun hdecided => ?_⟩
  rw [constraints_hold_iff_kleene hmode h hreturns, kleeneMeaning_iff hdecided]

/-! ## A guard over a missing field -/

/-- A rule whose guard reads the field `hit` of its input. -/
def hitRule : Transformation where
  name := "hit_rule"
  inputs := [⟨"a", "L1.Access", by decide, by decide⟩]
  outputs := [⟨"b", "L1.Hit", by decide, by decide⟩]
  when := .eventField "a" "hit" .bool
  outputWhen := .literal (.bool true) .bool
  ensure := []
  stateRequirements := []
  stateUpdates := []
  isExact := false
  stateMode := .require
  name_ne := by decide
  roles_nodup := by decide
  when_bool := by decide
  outputWhen_bool := by decide
  ensure_bool := Expr.bool_of_mem_nil
  exact_output := by decide
  guard_outputs := by decide
  guard_updates := Transformation.require_updates

/-- An access without the field `hit`, which its type does not require. -/
def hitlessAccess : EventInstance where
  id := "access"
  eventType := "L1.Access"
  fields := .empty
  cycle := .concrete 0
  occurs := .known true
  id_ne := by decide
  eventType_ne := by decide
  cycle_sort := EventCycle.int_of_start
  occurs_sort := Occurs.bool_of_known true

def hitlessContext : EvaluationContext where
  events := .ofList [("access", hitlessAccess)]
  assignment := .empty
  interpreter := .integers

theorem binds_hitRule {input : RoleBinding} :
    input.Binds [hitlessAccess] hitRule.inputs ↔ input = [("a", "access")] := by
  rw [← mem_roleBindings]
  exact List.mem_singleton

/-- Without outputs the instance of the rule stays unknown, although no access
satisfies the guard. -/
theorem hitRule_not_documented :
    ∃ parts, instantiateTransformation hitRule [hitlessAccess] = .ok parts ∧
      (∀ c ∈ parts.constraints, hitlessContext.Returns c.expression) ∧
      ¬ ((∀ c ∈ parts.constraints, hitlessContext.Holds c.expression) ↔
        hitRule.DocumentedMeaning hitlessContext [hitlessAccess]) := by
  refine ⟨_, rfl, ?_, ?_⟩
  · intro c hc
    obtain rfl := List.mem_singleton.mp hc
    exact ⟨none, by decide +kernel⟩
  · intro hiff
    have hmeaning : hitRule.DocumentedMeaning hitlessContext [hitlessAccess] := by
      refine ⟨fun input hbinds _ hholds => ?_, fun hexact => by cases hexact⟩
      obtain rfl := binds_hitRule.mp hbinds
      have hguard := hholds (.eventField "access" "hit" .bool)
        (List.mem_append_right _ List.mem_cons_self)
      exact absurd hguard (by decide +kernel)
    have hheld := hiff.mpr hmeaning _ List.mem_cons_self
    exact absurd hheld (by decide +kernel)

theorem hitRule_constraints_hold_iff :
    ∃ parts, instantiateTransformation hitRule [hitlessAccess] = .ok parts ∧
      ((∀ c ∈ parts.constraints, hitlessContext.Holds c.expression) ↔
        hitRule.KleeneMeaning hitlessContext [hitlessAccess]) := by
  refine ⟨_, rfl, (constraints_hold_iff hitRule rfl [hitlessAccess] _ rfl hitlessContext ?_).1⟩
  intro c hc
  obtain rfl := List.mem_singleton.mp hc
  exact ⟨none, by decide +kernel⟩

end Umcm
