import Umcm.Solver.StateModels

/-!
# Anchors within the horizon

In a built problem the anchors of everything that is active are within the
horizon: they are events that occur, and the constraints bound the cycles of such
events. Only the terms of the anchors are needed, since the encoding has none for
an event without a cycle.

* `anchored_of_constraints`: constraints that hold keep the anchors within the horizon.
-/

namespace Umcm

open Except EvaluationContext

/-! ## Bound events -/

theorem RoleBinding.mem_ids_of_getItem {b : RoleBinding} {name id : String}
    (h : b.getItem name = .ok id) : id ∈ b.ids := by
  rw [RoleBinding.getItem] at h
  split at h
  · rename_i id' hlookup
    cases h
    exact List.mem_map_of_mem (Dict.mem_of_lookup hlookup)
  · cases h

theorem RoleBinding.Binds.exists_event {events : List EventInstance} {roles : List EventRole}
    {b : RoleBinding} (h : b.Binds events roles) {id : String} (hid : id ∈ b.ids) :
    ∃ event ∈ events, event.id = id := by
  obtain ⟨p, hp, rfl⟩ := List.mem_map.mp hid
  obtain ⟨role, -, -, event, hevent, -, heq⟩ := exists_right_of_forall₂ h hp
  exact ⟨event, hevent, heq⟩

theorem RoleBinding.Binds.append {events : List EventInstance} {roles roles' : List EventRole}
    {b b' : RoleBinding} (h : b.Binds events roles) (h' : b'.Binds events roles') :
    RoleBinding.Binds events (roles ++ roles') (b ++ b') := List.rel_append h h'

theorem RoleBinding.holds_occurs {b : RoleBinding} {context : EvaluationContext}
    (h : ∀ e ∈ b.occurs, context.Holds e) {id : String} (hid : id ∈ b.ids) :
    context.Holds (.eventField id "occurs" .bool) :=
  h _ (List.mem_map_of_mem hid)

namespace EvaluationContext

variable {context : EvaluationContext}

theorem Holds.of_implies {l r : Expr} (h : context.Holds (.binary .implies l r))
    (hl : context.Holds l) : context.Holds r := by
  obtain ⟨hleft, hright⟩ := returns_implies.mp h.returns
  rcases (holds_implies hleft hright).mp h with hfails | hr
  · exact absurd hfails hl.not_fails
  · exact hr

theorem Holds.of_le {l r : Expr} {m n : Int} (h : context.Holds (.binary .le l r))
    (hl : context.evaluate l = .ok (some (.int m))) (hr : context.evaluate r = .ok (some (.int n))) :
    m ≤ n := by
  obtain ⟨left, right, hleft, hright, hle⟩ := evaluate_binary_eq_ok.mp h
  rw [hl] at hleft
  cases hleft
  rw [hr] at hright
  cases hright
  have hle' : (!decide ((n : ℚ) < m)) = true := by
    simpa [evaluateBinary, applyBinary, pyLe_int, Functor.map, Except.map] using hle
  rw [Bool.not_eq_true', decide_eq_false_iff_not, Int.cast_lt, not_lt] at hle'
  exact hle'

end EvaluationContext

/-! ## The bound on the cycle of an event -/

section Bound

variable {codec : Codec} {problem : BoundedProblem} {interpreter : Interpreter}
  {assignment : Dict String Value} {I : Smt.Interpretation}

/-- An event whose cycle has a term has a cycle. -/
theorem hasCycle_of_term (hbuilt : WellBuilt problem) {event : EventInstance}
    (hevent : event ∈ problem.events) {s : IrSort} {t : Smt.Term}
    (h : codec.term interpreter problem.eventMap (.eventField event.id "cycle" s) = .ok t) :
    event.hasCycle = true := by
  rw [Codec.term, Codec.termWith, Codec.attributeTermAt, get?_eventMap hbuilt hevent] at h
  unfold EventInstance.attribute? EventInstance.cycleTerm at h
  unfold EventInstance.hasCycle
  cases hcycle : event.cycle with
  | absent =>
      simp only [hcycle] at h
      cases h
  | concrete n => rfl
  | symbolic e => rfl

/-- An event that occurs is within the horizon. -/
theorem anchored_of_occurs (hbuilt : WellBuilt problem)
    (hbounds : ∀ event ∈ problem.events, event.hasCycle = true →
      cycleBound problem.spec.horizon event ∈ problem.constraints)
    (hinterprets : codec.Interprets (problem.context interpreter assignment) I)
    (hholds : ∀ c ∈ problem.constraints,
      (problem.context interpreter assignment).Holds c.expression)
    {event : EventInstance} (hevent : event ∈ problem.events)
    (hoccurs : (problem.context interpreter assignment).Holds (.eventField event.id "occurs" .bool))
    (hwrites : codec.WritesCycle problem.eventMap (.eventField event.id "cycle" .int))
    {t : Smt.Term}
    (h : codec.term interpreter problem.eventMap (.eventField event.id "cycle" .int) = .ok t) :
    (problem.context interpreter assignment).Anchored problem.spec.horizon
      (.eventField event.id "cycle" .int) := by
  have hbound := hholds _ (hbounds event hevent (hasCycle_of_term hbuilt hevent h))
  have hboth := holds_conjunction.mp (Holds.of_implies hbound hoccurs)
  obtain ⟨hlower, hupper⟩ := List.forall_mem_cons.mp hboth
  obtain ⟨v, hv, hagrees⟩ := hinterprets.value hwrites.1 h
  obtain ⟨n, rfl, -⟩ := (Codec.agrees_int_iff hwrites.2).mp hagrees
  have hnonneg : 0 ≤ n := hlower.of_le evaluate_literal hv
  have hle : n ≤ problem.spec.horizon :=
    (hupper _ List.mem_cons_self).of_le hv evaluate_literal
  obtain ⟨c, rfl⟩ := Int.eq_ofNat_of_zero_le hnonneg
  exact ⟨c, by exact_mod_cast hle, hv⟩

end Bound

/-! ## The anchors of effects and rules -/

section Anchors

variable {codec : Codec} {problem : BoundedProblem} {interpreter : Interpreter}
  {assignment : Dict String Value} {I : Smt.Interpretation} {trace : Trace} {spec : CompletionSpec}
  {parts : List TransformationInstantiation}

theorem BuiltFrom.cycleBound_mem (hbuilt : BuiltFrom problem trace spec parts)
    {event : EventInstance} (hevent : event ∈ problem.events) (hcycle : event.hasCycle = true) :
    cycleBound problem.spec.horizon event ∈ problem.constraints := by
  rw [hbuilt.constraints_eq, hbuilt.spec_eq]
  refine List.mem_append_left _ (List.mem_append_right _ ?_)
  exact List.mem_map_of_mem (List.mem_filter.mpr ⟨hevent, hcycle⟩)

/-- An element of the instances comes from the instances of one rule. -/
theorem BuiltFrom.rule (hbuilt : BuiltFrom problem trace spec parts) {γ : Type}
    {g : TransformationInstantiation → List γ} {a : γ} (ha : a ∈ parts.flatMap g) :
    ∃ t ∈ spec.transformations, ∃ part, a ∈ g part ∧
      instantiateTransformation t problem.events = .ok part := by
  obtain ⟨part, hpart, ha⟩ := List.mem_flatMap.mp ha
  obtain ⟨t, ht, hok⟩ := mapM_origin hbuilt.instantiated hpart
  exact ⟨t, ht, part, ha, hok⟩

namespace Transformation

theorem guardedSupport_origin {t : Transformation} {events : List EventInstance}
    {part : TransformationInstantiation} (h : instantiateTransformation t events = .ok part)
    {item : GuardedSupportInstance} (hitem : item ∈ part.guardedSupports) :
    ∃ output : RoleBinding, output.Binds events t.outputs ∧
      t.IsGuardedSupport events output item := by
  obtain ⟨forwards, supports, hforwards, hsupports, rfl⟩ := instantiate_parts h
  obtain ⟨part, hpart, hitem⟩ := List.mem_flatMap.mp hitem
  rcases List.mem_append.mp hpart with hpart | hpart
  · obtain ⟨p, -, hok⟩ := mapM_origin hforwards hpart
    have hnil : part.guardedSupports = [] := by
      split_ifs at hok
      · exact (guardForward_parts hok).2.2.2.2.1
      · exact (requireForward_parts hok).2.2.2
    rw [hnil] at hitem
    cases hitem
  · rw [Transformation.supports] at hsupports
    split_ifs at hsupports
    · obtain ⟨p, hp, hok⟩ := mapM_origin hsupports hpart
      rw [support] at hok
      split_ifs at hok
      · obtain ⟨candidates, hcandidates, hok⟩ := bind_eq_ok.mp hok
        cases hok
        rw [List.mem_singleton] at hitem
        subst hitem
        exact ⟨p.1, mem_roleBindings.mp (List.fst_mem_of_mem_zipIdx (List.mem_filter.mp hp).1), rfl,
          hcandidates⟩
      · cases hok
        cases hitem
    · cases hsupports
      cases hpart

/-- The guards of a binding are anchored at its events. -/
theorem anchor_of_guardPredicates {t : Transformation} {b : RoleBinding}
    {guards : List GuardPredicateInstance} (h : t.guardPredicates b = .ok guards)
    {guard : GuardPredicateInstance} (hguard : guard ∈ guards) :
    ∃ id ∈ b.ids, guard.cycle = .eventField id "cycle" .int := by
  obtain ⟨requirement, -, hok⟩ := mapM_origin h hguard
  obtain ⟨id, hid, hok⟩ := bind_eq_ok.mp hok
  cases hok
  exact ⟨id, RoleBinding.mem_ids_of_getItem hid, rfl⟩

/-- The events of a firing that is active occur. -/
theorem occurs_of_activation {t : Transformation} {context : EvaluationContext}
    {input output : RoleBinding}
    (h : context.Holds (Expr.conjunction (t.activationItems input output))) {id : String}
    (hid : id ∈ RoleBinding.ids (input ++ output)) :
    context.Holds (.eventField id "occurs" .bool) := by
  have hall := holds_conjunction.mp h
  unfold activationItems antecedentItems outputItems at hall
  rw [RoleBinding.ids, List.map_append, List.mem_append] at hid
  rcases hid with hid | hid
  · exact RoleBinding.holds_occurs
      (fun e he => hall e (List.mem_append_left _ (List.mem_append_left _ he))) hid
  · exact RoleBinding.holds_occurs
      (fun e he => hall e (List.mem_append_right _ (List.mem_append_left _ he))) hid

end Transformation

/-- An anchor that occurs is within the horizon. -/
theorem anchored_of_bound (hwell : WellBuilt problem)
    (hbuilt : BuiltFrom problem trace spec parts)
    (hinterprets : codec.Interprets (problem.context interpreter assignment) I)
    (hholds : ∀ c ∈ problem.constraints,
      (problem.context interpreter assignment).Holds c.expression)
    {b : RoleBinding} {roles : List EventRole} (hbinds : b.Binds problem.events roles)
    {id : String} (hid : id ∈ b.ids)
    (hoccurs : (problem.context interpreter assignment).Holds (.eventField id "occurs" .bool))
    {cycle : Expr} (hcycle : cycle = .eventField id "cycle" .int)
    (hwrites : codec.WritesCycle problem.eventMap cycle) {t : Smt.Term}
    (hterm : codec.term interpreter problem.eventMap cycle = .ok t) :
    (problem.context interpreter assignment).Anchored problem.spec.horizon cycle := by
  obtain ⟨event, hevent, rfl⟩ := hbinds.exists_event hid
  subst hcycle
  exact anchored_of_occurs hwell (fun _ => hbuilt.cycleBound_mem) hinterprets hholds hevent hoccurs
    hwrites hterm

variable {cells requirements transitions : List Smt.Script} {forwards supports : List Smt.Command}

/-- Guards of terms have terms for their anchors. -/
theorem exists_guardCycle {horizon : Nat} {guards : List GuardPredicateInstance}
    {ts : List Smt.Term}
    (h : guards.mapM (codec.guardTerm interpreter problem.eventMap horizon) = .ok ts)
    {guard : GuardPredicateInstance} (hguard : guard ∈ guards) :
    ∃ t, codec.term interpreter problem.eventMap guard.cycle = .ok t := by
  obtain ⟨t, -, ht⟩ := mapM_result h hguard
  obtain ⟨cycle, hcycle, -⟩ := bind_eq_ok.mp ht
  exact ⟨cycle, hcycle⟩

/-- Constraints that hold keep the anchors within the horizon. -/
theorem anchored_of_parts (hwell : WellBuilt problem)
    (hbuilt : BuiltFrom problem trace spec parts) (hwrites : codec.WritesState problem)
    (hinterprets : codec.Interprets (problem.context interpreter assignment) I)
    (hparts : codec.StateParts interpreter problem cells requirements forwards supports transitions)
    (hholds : ∀ c ∈ problem.constraints,
      (problem.context interpreter assignment).Holds c.expression) :
    problem.Anchored (problem.context interpreter assignment) := by
  refine ⟨?_, ?_, ?_, ?_⟩
  · intro r hr hactive
    have horigin := hr
    rw [hbuilt.requirements_eq] at horigin
    obtain ⟨t, -, part, horigin, hok⟩ := hbuilt.rule horigin
    obtain ⟨-, input, output, hfiring, requirement, -, his⟩ :=
      Transformation.requirement_origin hok horigin
    obtain ⟨id, hid, hcycle⟩ := his.anchor
    rw [his.activation_eq] at hactive
    obtain ⟨commands, -, hcommands⟩ := mapM_result hparts.requirements hr
    obtain ⟨_, -, hcommands⟩ := bind_eq_ok.mp hcommands
    obtain ⟨cycle, hterm, -⟩ := bind_eq_ok.mp hcommands
    exact anchored_of_bound hwell hbuilt hinterprets hholds (hfiring.inputs.append hfiring.outputs)
      (RoleBinding.mem_ids_of_getItem hid)
      (Transformation.occurs_of_activation hactive (RoleBinding.mem_ids_of_getItem hid)) hcycle
      (hwrites.requirement r hr).cycle hterm
  · intro u hu hactive
    have horigin := hu
    rw [hbuilt.updates_eq] at horigin
    obtain ⟨t, -, part, horigin, hok⟩ := hbuilt.rule horigin
    obtain ⟨input, output, hfiring, update, -, his⟩ := Transformation.update_origin hok horigin
    obtain ⟨id, hid, hcycle⟩ := his.anchor
    rw [his.activation_eq] at hactive
    obtain ⟨terms, hterms⟩ := Codec.exists_updateTerms hwrites hparts hu
    obtain ⟨_, -, hterms⟩ := bind_eq_ok.mp hterms
    obtain ⟨cycle, hterm, -⟩ := bind_eq_ok.mp hterms
    exact anchored_of_bound hwell hbuilt hinterprets hholds (hfiring.inputs.append hfiring.outputs)
      (RoleBinding.mem_ids_of_getItem hid)
      (Transformation.occurs_of_activation hactive (RoleBinding.mem_ids_of_getItem hid)) hcycle
      (hwrites.update u hu).cycle hterm
  · intro item hitem hactive guard hguard
    have horigin := hitem
    rw [hbuilt.forwards_eq] at horigin
    obtain ⟨t, -, part, horigin, hok⟩ := hbuilt.rule horigin
    obtain ⟨-, input, hinput, -, his⟩ := Transformation.guardedForward_origin hok horigin
    obtain ⟨id, hid, hcycle⟩ := Transformation.anchor_of_guardPredicates his.predicates hguard
    rw [his.antecedent_eq, holds_conjunction] at hactive
    obtain ⟨command, -, hcommand⟩ := mapM_result hparts.forwards hitem
    obtain ⟨_, -, hcommand⟩ := bind_eq_ok.mp hcommand
    obtain ⟨guards, hguards, -⟩ := bind_eq_ok.mp hcommand
    obtain ⟨cycle, hterm⟩ := exists_guardCycle hguards hguard
    exact anchored_of_bound hwell hbuilt hinterprets hholds hinput hid
      (RoleBinding.holds_occurs (fun e he => hactive e (List.mem_append_left _ he)) hid) hcycle
      ((hwrites.forward item hitem).2.2 guard hguard).cycle hterm
  · intro item hitem hactive candidate hcandidate hexpression guard hguard
    have horigin := hitem
    rw [hbuilt.supports_eq] at horigin
    obtain ⟨t, -, part, horigin, hok⟩ := hbuilt.rule horigin
    obtain ⟨output, houtput, his⟩ := Transformation.guardedSupport_origin hok horigin
    obtain ⟨input, hinput, hok⟩ := mapM_origin his.supports hcandidate
    obtain ⟨guards, hguardsOk, hok⟩ := bind_eq_ok.mp hok
    cases hok
    obtain ⟨id, hid, hcycle⟩ := Transformation.anchor_of_guardPredicates hguardsOk hguard
    have hinputBinds := mem_roleBindings.mp (List.mem_filter.mp hinput).1
    rw [his.antecedent_eq, holds_conjunction] at hactive
    rw [holds_conjunction] at hexpression
    have houtputs := holds_conjunction.mp (hactive _ List.mem_cons_self)
    have hoccurs : (problem.context interpreter assignment).Holds
        (.eventField id "occurs" .bool) := by
      have hboth := hid
      rw [RoleBinding.ids, List.map_append, List.mem_append] at hboth
      rcases hboth with hleft | hright
      · exact RoleBinding.holds_occurs
          (fun e he => hexpression e (List.mem_append_left _ he)) hleft
      · exact RoleBinding.holds_occurs houtputs hright
    obtain ⟨command, -, hcommand⟩ := mapM_result hparts.supports hitem
    obtain ⟨_, -, hcommand⟩ := bind_eq_ok.mp hcommand
    obtain ⟨candidates, hcandidates, -⟩ := bind_eq_ok.mp hcommand
    obtain ⟨one, -, hone⟩ := mapM_result hcandidates hcandidate
    obtain ⟨_, -, hone⟩ := bind_eq_ok.mp hone
    obtain ⟨guardTerms, hguardTerms, -⟩ := bind_eq_ok.mp hone
    obtain ⟨cycle, hterm⟩ := exists_guardCycle hguardTerms hguard
    exact anchored_of_bound hwell hbuilt hinterprets hholds (hinputBinds.append houtput) hid hoccurs
      hcycle (((hwrites.support item hitem).2 _ hcandidate).2 guard hguard).cycle hterm

end Anchors

end Umcm
