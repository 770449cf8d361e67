import Umcm.Coverage.Engine
import Umcm.Solver.StateRun

/-!
# What a covered goal means

A goal is realised by a completion that passes all its probes at once. The query
of a goal demands more: it extends the guards of every activation that a probe
names, and the `from` value of every update that reaches the `to` value, to
requirements of the problem.

* `covered_iff_realised_iff`: coverage finds the realised goals exactly when some
  realising completion also meets these demands.
-/

namespace Umcm

open Except EvaluationContext

namespace Coverage

/-! ## Realised probes -/

section Realised

variable (problem : BoundedProblem) (context : EvaluationContext) (pre : CellStates)

/-- Some event that the pattern names occurs with the values. -/
def EventRealised (pattern : String) (fields : Dict String Value) : Prop :=
  ∃ event ∈ problem.events, matchesPattern event.eventType pattern = true ∧
    context.Holds (.eventField event.id "occurs" .bool) ∧
    ∃ eventType, problem.catalog.resolve event.eventType = .ok eventType ∧
      ∀ p ∈ fields.entries, ∃ actual sort v,
        probedField event eventType p.1 = some (actual, sort) ∧
        context.evaluate actual = .ok (some v) ∧ v.key = p.2.key

/-- Some activation of a rule that the pattern names holds with its guards. -/
def TransformationRealised (pattern : String) : Prop :=
  ∃ a ∈ candidates problem pattern, context.Holds a.expression ∧
    ∀ guard ∈ a.statePredicates,
      StateRun.Compared context problem.spec.horizon pre guard true

/-- The update is active and writes the value. -/
def Writes (update : StateUpdateInstance) (target : Value) : Prop :=
  context.Holds update.activation ∧
    ∃ v, context.evaluate update.value = .ok (some v) ∧ v.key = target.key

/-- The cell holds the value before the cycle of the update. -/
def StartsFrom (update : StateUpdateInstance) (source : Value) : Prop :=
  ∃ c before, context.evaluate update.cycle = .ok (some (.int (c : Nat))) ∧
    c ≤ problem.spec.horizon ∧ pre c update.state = some before ∧ before.key = source.key

/-- Some active update writes `to` in a cycle before which the cell holds `from`. -/
def TransitionRealised (pattern : String) (target : Value) (source : Option Value) : Prop :=
  ∃ u ∈ problem.stateUpdates, matchesPattern u.state pattern = true ∧ Writes context u target ∧
    ∀ v ∈ source, StartsFrom problem context pre u v

def ProbeRealised (modules : List LoadedModule) (probe : CoverageProbe) : Prop :=
  match probe.kind, probe.value with
  | .event, value => ∃ pattern fields, eventPattern value = .ok (pattern, fields) ∧
      EventRealised problem context pattern fields
  | .transformation, value =>
      TransformationRealised problem context pre (transformationPattern value)
  | .interface, .mapping entries _ => ∃ eventType,
      portType? modules (((entries.get? "module").map Value.pyStr).getD "")
        (((entries.get? "port").map Value.pyStr).getD "") = some eventType ∧
      EventRealised problem context eventType .empty
  | .stateTransition, .mapping entries _ => ∃ state target,
      entries.get? "state" = some state ∧ entries.get? "to" = some target ∧
      TransitionRealised problem context pre state.pyStr target (entries.get? "from")
  | _, .scalar _ => False

end Realised

/-! ## What a query demands of the other candidates -/

section Demands

variable (problem : BoundedProblem) (context : EvaluationContext) (pre : CellStates)

/-- The values fit the sorts of the fields, up to the first field that the event
lacks. -/
def FieldsFit (event : EventInstance) (eventType : EventType) : List (String × Value) → Prop
  | [] => True
  | (name, v) :: rest => ∀ actual sort, probedField event eventType name = some (actual, sort) →
      sort.acceptsLiteral v = true ∧ FieldsFit event eventType rest

/-- The probe can be compared with every event that the pattern names. -/
def EventDemand (pattern : String) (fields : Dict String Value) : Prop :=
  ∀ event ∈ problem.events, matchesPattern event.eventType pattern = true →
    ∃ eventType, problem.catalog.resolve event.eventType = .ok eventType ∧
      FieldsFit event eventType fields.entries ∧
      ((∀ p ∈ fields.entries, (probedField event eventType p.1).isSome = true) →
        context.Returns (.eventField event.id "occurs" .bool) ∧
        ∀ p ∈ fields.entries, ∀ actual sort,
          probedField event eventType p.1 = some (actual, sort) → context.Returns actual)

/-- Every activation that the pattern names holds with its guards or not at all. -/
def TransformationDemand (pattern : String) : Prop :=
  ∀ a ∈ candidates problem pattern, context.Returns a.expression ∧
    ∀ guard ∈ a.statePredicates, context.Idle a.expression ∨ (context.Holds a.expression ∧
      StateRun.Compared context problem.spec.horizon pre guard true)

/-- Every update of a cell that the pattern names and that reaches `to` does so
from `from`, and the values fit these cells. -/
def TransitionDemand (pattern : String) (target : Value) (source : Option Value) : Prop :=
  ∀ u ∈ problem.stateUpdates, matchesPattern u.state pattern = true →
    ∃ sort, stateSort problem u.state = .ok sort ∧ sort.acceptsLiteral target = true ∧
      context.Returns u.value ∧ ∀ v ∈ source, sort.acceptsLiteral v = true ∧
        (context.Idle (reaches u (.literal target sort)) ∨
          (Writes context u target ∧ StartsFrom problem context pre u v))

def ProbeDemand (modules : List LoadedModule) (probe : CoverageProbe) : Prop :=
  match probe.kind, probe.value with
  | .event, value => ∀ pattern fields, eventPattern value = .ok (pattern, fields) →
      EventDemand problem context pattern fields
  | .transformation, value =>
      TransformationDemand problem context pre (transformationPattern value)
  | .interface, .mapping entries _ => ∀ eventType,
      portType? modules (((entries.get? "module").map Value.pyStr).getD "")
        (((entries.get? "port").map Value.pyStr).getD "") = some eventType →
      EventDemand problem context eventType .empty
  | .stateTransition, .mapping entries _ => ∀ state target,
      entries.get? "state" = some state → entries.get? "to" = some target →
      TransitionDemand problem context pre state.pyStr target (entries.get? "from")
  | _, .scalar _ => True

end Demands

/-! ## Completions -/

/-- A completion of the case that passes all probes of the goal. -/
structure Realises (interpreter : Interpreter) (goal : CoverageGoal) (case : PreparedCase)
    (assignment : Dict String Value) (pre : CellStates) : Prop where
  completes : Completes case.problem interpreter assignment pre
  probes : ∀ probe ∈ goal.probes,
    ProbeRealised case.problem (case.problem.context interpreter assignment) pre case.modules probe

/-- It also meets what the query demands of the other candidates. -/
structure Unrestricted (interpreter : Interpreter) (goal : CoverageGoal) (case : PreparedCase)
    (assignment : Dict String Value) (pre : CellStates) : Prop extends
    Realises interpreter goal case assignment pre where
  demands : ∀ probe ∈ goal.probes,
    ProbeDemand case.problem (case.problem.context interpreter assignment) pre case.modules probe

/-! ## Compiled probes -/

section Compile

variable {problem : BoundedProblem} {context : EvaluationContext} {pre : CellStates}

/-- The constraint and the requirements of the probe are met. -/
def CompiledProbe.Met (problem : BoundedProblem) (context : EvaluationContext) (pre : CellStates)
    (probe : CompiledProbe) : Prop :=
  context.Holds probe.expression ∧
    ∀ r ∈ probe.requirements, StateRun.RequirementMet context problem.spec.horizon pre r

theorem literal_eq_ok {v : Value} {s : IrSort} {e : Expr} :
    literal v s = .ok e ↔ s.acceptsLiteral v = true ∧ e = .literal v s := by
  unfold literal
  split_ifs with h <;> simp [h, eq_comm]

/-- The comparisons of the fields exist when the values fit. -/
theorem exists_fieldPredicates {event : EventInstance} {eventType : EventType}
    {fields : List (String × Value)} :
    (∃ o, fieldPredicates event eventType fields = .ok o) ↔ FieldsFit event eventType fields := by
  induction fields with
  | nil => simp [fieldPredicates, FieldsFit]
  | cons p rest ih =>
      obtain ⟨name, v⟩ := p
      unfold fieldPredicates FieldsFit
      cases hfield : probedField event eventType name with
      | none => simp
      | some q =>
          obtain ⟨actual, sort⟩ := q
          simp only [bind_eq_ok, literal_eq_ok, Option.some.injEq, Prod.mk.injEq]
          constructor
          · rintro ⟨o, _, ⟨haccepts, -⟩, predicates, hpredicates, -⟩ _ _ ⟨rfl, rfl⟩
            exact ⟨haccepts, ih.mp ⟨predicates, hpredicates⟩⟩
          · intro h
            obtain ⟨haccepts, hrest⟩ := h actual sort ⟨rfl, rfl⟩
            obtain ⟨predicates, hpredicates⟩ := ih.mpr hrest
            exact ⟨_, _, ⟨haccepts, rfl⟩, predicates, hpredicates, rfl⟩

/-- The comparison of one field. -/
def Compares (event : EventInstance) (eventType : EventType) (p : String × Value) (e : Expr) :
    Prop :=
  ∃ actual sort, probedField event eventType p.1 = some (actual, sort) ∧
    e = .binary .eq actual (.literal p.2 sort)

theorem fieldPredicates_eq_some {event : EventInstance} {eventType : EventType}
    {fields : List (String × Value)} {es : List Expr} :
    fieldPredicates event eventType fields = .ok (some es) ↔
      FieldsFit event eventType fields ∧
        List.Forall₂ (Compares event eventType) fields es := by
  induction fields generalizing es with
  | nil => simp [fieldPredicates, FieldsFit, eq_comm]
  | cons p rest ih =>
      obtain ⟨name, v⟩ := p
      unfold fieldPredicates FieldsFit
      rw [List.forall₂_cons_left_iff]
      cases hfield : probedField event eventType name with
      | none =>
          simp only [Except.ok.injEq, reduceCtorEq, false_iff, not_and, not_exists]
          rintro - e _ ⟨actual, sort, hsome, -⟩
          rw [hfield] at hsome
          cases hsome
      | some q =>
          obtain ⟨actual, sort⟩ := q
          simp only [bind_eq_ok, literal_eq_ok, Option.some.injEq, Prod.mk.injEq]
          constructor
          · rintro ⟨_, ⟨haccepts, rfl⟩, predicates, hpredicates, h⟩
            cases predicates with
            | none => cases h
            | some predicates =>
                cases h
                obtain ⟨hfit, hall⟩ := ih.mp hpredicates
                refine ⟨?_, _, predicates, ⟨actual, sort, hfield, rfl⟩, hall, rfl⟩
                rintro _ _ ⟨rfl, rfl⟩
                exact ⟨haccepts, hfit⟩
          · rintro ⟨hfit, e, predicates, ⟨actual', sort', hsome, rfl⟩, hall, rfl⟩
            rw [hfield] at hsome
            cases hsome
            obtain ⟨haccepts, hfit⟩ := hfit actual sort ⟨rfl, rfl⟩
            exact ⟨_, ⟨haccepts, rfl⟩, some predicates, ih.mpr ⟨hfit, hall⟩, rfl⟩

theorem eventAlternative_eq_some {pattern : String} {fields : Dict String Value}
    {event : EventInstance} {e : Expr} :
    eventAlternative problem pattern fields event = .ok (some e) ↔
      matchesPattern event.eventType pattern = true ∧ ∃ eventType es,
        problem.catalog.resolve event.eventType = .ok eventType ∧
        fieldPredicates event eventType fields.entries = .ok (some es) ∧
        e = Expr.conjunction (.eventField event.id "occurs" .bool :: es) := by
  unfold eventAlternative
  split_ifs with hmatch
  · simp only [bind_eq_ok, hmatch, true_and]
    constructor
    · rintro ⟨eventType, htype, predicates, hpredicates, h⟩
      cases predicates with
      | none => cases h
      | some es =>
          cases h
          exact ⟨eventType, es, htype, hpredicates, rfl⟩
    · rintro ⟨eventType, es, htype, hpredicates, rfl⟩
      exact ⟨eventType, htype, some es, hpredicates, rfl⟩
  · simp [hmatch]

theorem eventProbe_eq_ok {pattern : String} {fields : Dict String Value} {cp : CompiledProbe} :
    eventProbe problem pattern fields = .ok (.ok cp) ↔ ∃ alternatives,
      problem.events.mapM (eventAlternative problem pattern fields) = .ok alternatives ∧
      alternatives.reduceOption ≠ [] ∧ cp = ⟨Expr.disjunction alternatives.reduceOption, []⟩ := by
  unfold eventProbe
  simp only [bind_eq_ok]
  refine exists_congr (fun alternatives => and_congr_right (fun _ => ?_))
  cases alternatives.reduceOption with
  | nil => simp [pure, Except.pure]
  | cons e es => simp [pure, Except.pure, eq_comm]

theorem compares_holds {event : EventInstance} {eventType : EventType}
    {fields : List (String × Value)} {es : List Expr}
    (h : List.Forall₂ (Compares event eventType) fields es) :
    (∀ e ∈ es, context.Holds e) ↔ ∀ p ∈ fields, ∃ actual sort v,
      probedField event eventType p.1 = some (actual, sort) ∧
      context.evaluate actual = .ok (some v) ∧ v.key = p.2.key := by
  induction h with
  | nil => simp
  | @cons p e _ _ hp _ ih =>
      rw [List.forall_mem_cons, List.forall_mem_cons, ih]
      obtain ⟨actual, sort, hfield, rfl⟩ := hp
      refine and_congr_left (fun _ => ?_)
      rw [holds_eq_literal]
      constructor
      · rintro ⟨v, hv, hkey⟩
        exact ⟨actual, sort, v, hfield, hv, hkey⟩
      · rintro ⟨_, _, v, hfield', hv, hkey⟩
        rw [hfield] at hfield'
        cases hfield'
        exact ⟨v, hv, hkey⟩

theorem compares_returns {event : EventInstance} {eventType : EventType}
    {fields : List (String × Value)} {es : List Expr}
    (h : List.Forall₂ (Compares event eventType) fields es) :
    (∀ e ∈ es, context.Returns e) ↔ ∀ p ∈ fields, ∀ actual sort,
      probedField event eventType p.1 = some (actual, sort) → context.Returns actual := by
  induction h with
  | nil => simp
  | @cons p e _ _ hp _ ih =>
      rw [List.forall_mem_cons, List.forall_mem_cons, ih]
      obtain ⟨actual, sort, hfield, rfl⟩ := hp
      refine and_congr_left (fun _ => ?_)
      rw [returns_eq, and_iff_left returns_literal]
      constructor
      · intro h _ _ hfield'
        rw [hfield] at hfield'
        cases hfield'
        exact h
      · exact fun h => h actual sort hfield

/-- Every field of the probe is one of the event. -/
theorem exists_compares {event : EventInstance} {eventType : EventType}
    {fields : List (String × Value)} :
    (∃ es, List.Forall₂ (Compares event eventType) fields es) ↔
      ∀ p ∈ fields, (probedField event eventType p.1).isSome = true := by
  induction fields with
  | nil => simp
  | cons p rest ih =>
      simp only [List.forall₂_cons_left_iff, List.forall_mem_cons, ← ih]
      constructor
      · rintro ⟨_, e, es, ⟨actual, sort, hfield, -⟩, hall, -⟩
        exact ⟨by simp [hfield], es, hall⟩
      · rintro ⟨hsome, es, hall⟩
        obtain ⟨⟨actual, sort⟩, hfield⟩ := Option.isSome_iff_exists.mp hsome
        exact ⟨_, _, es, ⟨actual, sort, hfield, rfl⟩, hall, rfl⟩

/-- The alternatives of an event probe can be formed when the values fit. -/
theorem exists_alternatives {pattern : String} {fields : Dict String Value} :
    (∃ alternatives, problem.events.mapM (eventAlternative problem pattern fields) =
      .ok alternatives) ↔
    ∀ event ∈ problem.events, matchesPattern event.eventType pattern = true →
      ∃ eventType, problem.catalog.resolve event.eventType = .ok eventType ∧
        FieldsFit event eventType fields.entries := by
  constructor
  · rintro ⟨alternatives, h⟩ event hevent hmatch
    obtain ⟨o, -, ho⟩ := mapM_result h hevent
    rw [eventAlternative, if_pos hmatch] at ho
    obtain ⟨eventType, htype, ho⟩ := bind_eq_ok.mp ho
    obtain ⟨predicates, hpredicates, -⟩ := bind_eq_ok.mp ho
    exact ⟨eventType, htype, exists_fieldPredicates.mp ⟨predicates, hpredicates⟩⟩
  · intro h
    refine exists_mapM (fun event hevent => ?_)
    unfold eventAlternative
    split_ifs with hmatch
    · obtain ⟨eventType, htype, hfit⟩ := h event hevent hmatch
      obtain ⟨predicates, hpredicates⟩ := exists_fieldPredicates.mpr hfit
      exact ⟨_, by rw [htype, ok_bind, hpredicates]; rfl⟩
    · exact ⟨none, rfl⟩

theorem event_met_iff {pattern : String} {fields : Dict String Value} :
    (∃ cp, eventProbe problem pattern fields = .ok (.ok cp) ∧ cp.Met problem context pre) ↔
      EventRealised problem context pattern fields ∧
        EventDemand problem context pattern fields := by
  constructor
  · rintro ⟨cp, hcp, hholds, -⟩
    obtain ⟨alternatives, halternatives, -, rfl⟩ := eventProbe_eq_ok.mp hcp
    obtain ⟨hreturns, e, he, hholds⟩ := holds_disjunction_iff.mp hholds
    constructor
    · obtain ⟨event, hevent, halternative⟩ := (mem_reduceOption_mapM halternatives).mp he
      obtain ⟨hmatch, eventType, es, htype, hes, rfl⟩ := eventAlternative_eq_some.mp halternative
      obtain ⟨hoccurs, hfields⟩ := List.forall_mem_cons.mp (holds_conjunction.mp hholds)
      have hcompares := (fieldPredicates_eq_some.mp hes).2
      exact ⟨event, hevent, hmatch, hoccurs, eventType, htype, (compares_holds hcompares).mp hfields⟩
    · intro event hevent hmatch
      obtain ⟨eventType, htype, hfit⟩ :=
        exists_alternatives.mp ⟨alternatives, halternatives⟩ event hevent hmatch
      refine ⟨eventType, htype, hfit, fun hall => ?_⟩
      obtain ⟨es, hcompares⟩ := exists_compares.mpr hall
      have halternative : eventAlternative problem pattern fields event = .ok (some
          (Expr.conjunction (.eventField event.id "occurs" .bool :: es))) :=
        eventAlternative_eq_some.mpr
          ⟨hmatch, eventType, es, htype, fieldPredicates_eq_some.mpr ⟨hfit, hcompares⟩, rfl⟩
      have hmem := (mem_reduceOption_mapM halternatives).mpr ⟨event, hevent, halternative⟩
      obtain ⟨hoccurs, hfields⟩ :=
        List.forall_mem_cons.mp (returns_conjunction.mp (hreturns _ hmem))
      exact ⟨hoccurs, (compares_returns hcompares).mp hfields⟩
  · rintro ⟨⟨event, hevent, hmatch, hoccurs, eventType, htype, hfields⟩, hdemand⟩
    obtain ⟨alternatives, halternatives⟩ := exists_alternatives.mpr (fun event hevent hmatch => by
      obtain ⟨eventType, htype, hfit, -⟩ := hdemand event hevent hmatch
      exact ⟨eventType, htype, hfit⟩)
    -- the alternative of the realising event
    obtain ⟨es, hcompares⟩ := exists_compares.mpr (fun p hp => by
      obtain ⟨actual, sort, v, hfield, -⟩ := hfields p hp
      rw [hfield]
      rfl)
    obtain ⟨_, htype', hfit, -⟩ := hdemand event hevent hmatch
    rw [htype] at htype'
    cases htype'
    have hmem := (mem_reduceOption_mapM halternatives).mpr ⟨event, hevent, eventAlternative_eq_some.mpr
      ⟨hmatch, eventType, es, htype, fieldPredicates_eq_some.mpr ⟨hfit, hcompares⟩, rfl⟩⟩
    refine ⟨_, eventProbe_eq_ok.mpr ⟨alternatives, halternatives, List.ne_nil_of_mem hmem, rfl⟩,
      holds_disjunction_iff.mpr ⟨?_, _, hmem, ?_⟩, by simp⟩
    · intro e he
      obtain ⟨event, hevent, halternative⟩ := (mem_reduceOption_mapM halternatives).mp he
      obtain ⟨hmatch, eventType, es, htype, hes, rfl⟩ := eventAlternative_eq_some.mp halternative
      obtain ⟨_, htype', -, hreturns⟩ := hdemand event hevent hmatch
      rw [htype] at htype'
      cases htype'
      have hcompares := (fieldPredicates_eq_some.mp hes).2
      obtain ⟨hoccurs, hactual⟩ := hreturns (exists_compares.mp ⟨es, hcompares⟩)
      exact returns_conjunction.mpr
        (List.forall_mem_cons.mpr ⟨hoccurs, (compares_returns hcompares).mpr hactual⟩)
    · exact holds_conjunction.mpr
        (List.forall_mem_cons.mpr ⟨hoccurs, (compares_holds hcompares).mpr hfields⟩)

/-- A requirement that repeats a guard under an activation. -/
theorem requirementMet_iff {horizon : Nat} {r : StateRequirementInstance}
    {guard : GuardPredicateInstance} (hstate : r.state = guard.state) (hcycle : r.cycle = guard.cycle)
    (hop : r.op = guard.op) (hexpected : r.expected = guard.expected) :
    StateRun.RequirementMet context horizon pre r ↔ context.Idle r.activation ∨
      (context.Holds r.activation ∧ StateRun.Compared context horizon pre guard true) := by
  rw [StateRun.RequirementMet, StateRun.Compared, hstate, hcycle, hop, hexpected]
  refine or_congr_right ?_
  constructor
  · rintro ⟨c, v, actual, hactive, hactual, hcompare⟩
    exact ⟨hactive.holds, c, v, actual, hactive.cycle_eq, hactive.inside, hactive.value_eq, hactual,
      hcompare⟩
  · rintro ⟨hholds, c, v, actual, hc, hle, hv, hactual, hcompare⟩
    exact ⟨c, v, actual, ⟨hholds, hc, hle, hv⟩, hactual, hcompare⟩

theorem guardRequirements_met_iff {namePrefix : String}
    {items : List TransformationActivationInstance} {horizon : Nat} :
    (∀ r ∈ items.zipIdx.flatMap (guardRequirements namePrefix),
      StateRun.RequirementMet context horizon pre r) ↔
    ∀ a ∈ items, ∀ guard ∈ a.statePredicates, context.Idle a.expression ∨
      (context.Holds a.expression ∧ StateRun.Compared context horizon pre guard true) := by
  constructor
  · intro h a ha guard hguard
    obtain ⟨i, hi, rfl⟩ := List.mem_iff_getElem.mp ha
    obtain ⟨j, hj, rfl⟩ := List.mem_iff_getElem.mp hguard
    refine (@requirementMet_iff _ _ _ _ items[i].statePredicates[j] rfl rfl rfl rfl).mp
      (h _ (List.mem_flatMap.mpr ⟨(items[i], i), ?_, List.mem_map.mpr
        ⟨(items[i].statePredicates[j], j), ?_, rfl⟩⟩))
    · exact List.mk_mem_zipIdx_iff_getElem?.mpr (by simp)
    · exact List.mk_mem_zipIdx_iff_getElem?.mpr (by simp)
  · intro h r hr
    obtain ⟨p, hp, hr⟩ := List.mem_flatMap.mp hr
    obtain ⟨q, hq, rfl⟩ := List.mem_map.mp hr
    exact (requirementMet_iff rfl rfl rfl rfl).mpr
      (h p.1 (List.fst_mem_of_mem_zipIdx hp) q.1 (List.fst_mem_of_mem_zipIdx hq))

theorem transformation_met_iff {pattern namePrefix : String} :
    (∃ cp, transformationProbe problem pattern namePrefix = .ok cp ∧
      cp.Met problem context pre) ↔
    TransformationRealised problem context pre pattern ∧
      TransformationDemand problem context pre pattern := by
  unfold transformationProbe TransformationRealised TransformationDemand
  cases hitems : candidates problem pattern with
  | nil => simp
  | cons first rest =>
      set items := first :: rest with hdef
      have hmet : (∃ cp, (Except.ok ⟨Expr.disjunction (items.map
            TransformationActivationInstance.expression),
            items.zipIdx.flatMap (guardRequirements namePrefix)⟩ : Except String CompiledProbe) =
            .ok cp ∧ cp.Met problem context pre) ↔
          context.Holds (Expr.disjunction (items.map
            TransformationActivationInstance.expression)) ∧
          ∀ a ∈ items, ∀ guard ∈ a.statePredicates, context.Idle a.expression ∨
            (context.Holds a.expression ∧
              StateRun.Compared context problem.spec.horizon pre guard true) := by
        rw [← @guardRequirements_met_iff _ _ namePrefix]
        constructor
        · rintro ⟨cp, h, hmet⟩
          cases h
          exact hmet
        · exact fun h => ⟨_, rfl, h⟩
      refine hmet.trans ?_
      rw [holds_disjunction_iff, List.forall_mem_map]
      simp only [List.mem_map, exists_exists_and_eq_and]
      constructor
      · rintro ⟨⟨hreturns, a, ha, hholds⟩, hguards⟩
        refine ⟨⟨a, ha, hholds, fun guard hguard => ?_⟩, fun a ha => ⟨hreturns a ha, hguards a ha⟩⟩
        exact ((hguards a ha guard hguard).resolve_left hholds.not_idle).2
      · rintro ⟨⟨a, ha, hholds, -⟩, hdemand⟩
        exact ⟨⟨fun a ha => (hdemand a ha).1, a, ha, hholds⟩, fun a ha => (hdemand a ha).2⟩

theorem reaches_holds_iff {update : StateUpdateInstance} {target : Value} {sort : IrSort} :
    context.Holds (reaches update (.literal target sort)) ↔ Writes context update target := by
  rw [reaches, holds_conjunction, List.forall_mem_cons, List.forall_mem_singleton,
    holds_eq_literal]
  rfl

theorem reaches_returns_iff {update : StateUpdateInstance} {target : Value} {sort : IrSort} :
    context.Returns (reaches update (.literal target sort)) ↔
      context.Returns update.activation ∧ context.Returns update.value := by
  rw [reaches, returns_conjunction, List.forall_mem_cons, List.forall_mem_singleton, returns_eq,
    and_iff_left returns_literal]

/-- What the probe makes of one update of a cell that the pattern names. -/
def transitionCompiled (update : StateUpdateInstance) (target : Value) (source : Option Value)
    (sort : IrSort) (namePrefix : String) (i : Nat) : CompiledProbe where
  expression := reaches update (.literal target sort)
  requirements := source.toList.map (fun v =>
    { name := s!"{namePrefix}.from.{i}"
      state := update.state
      cycle := update.cycle
      activation := reaches update (.literal target sort)
      op := .eq
      expected := .literal v sort
      origin := namePrefix })

theorem transitionAlternative_eq_some {pattern namePrefix : String} {target : Value}
    {source : Option Value} {p : StateUpdateInstance × Nat} {cp : CompiledProbe} :
    transitionAlternative problem pattern namePrefix target source p = .ok (some cp) ↔
      matchesPattern p.1.state pattern = true ∧ ∃ sort, stateSort problem p.1.state = .ok sort ∧
        sort.acceptsLiteral target = true ∧ (∀ v ∈ source, sort.acceptsLiteral v = true) ∧
        cp = transitionCompiled p.1 target source sort namePrefix p.2 := by
  unfold transitionAlternative
  split_ifs with hmatch
  · simp only [bind_eq_ok, literal_eq_ok, hmatch, true_and]
    refine exists_congr (fun sort => and_congr_right (fun _ => ?_))
    cases source with
    | none =>
        constructor
        · rintro ⟨_, ⟨haccepts, rfl⟩, h⟩
          cases h
          exact ⟨haccepts, by simp, rfl⟩
        · rintro ⟨haccepts, -, rfl⟩
          exact ⟨_, ⟨haccepts, rfl⟩, rfl⟩
    | some v =>
        simp only [bind_eq_ok, literal_eq_ok, Option.mem_some_iff, forall_eq']
        constructor
        · rintro ⟨_, ⟨haccepts, rfl⟩, _, ⟨hsource, rfl⟩, h⟩
          cases h
          exact ⟨haccepts, hsource, rfl⟩
        · rintro ⟨haccepts, hsource, rfl⟩
          exact ⟨_, ⟨haccepts, rfl⟩, _, ⟨hsource, rfl⟩, rfl⟩
  · simp [hmatch]

/-- The requirement for the `from` value. -/
theorem transitionCompiled_requirements_met {update : StateUpdateInstance} {target : Value}
    {source : Option Value} {sort : IrSort} {namePrefix : String} {i : Nat} :
    (∀ r ∈ (transitionCompiled update target source sort namePrefix i).requirements,
      StateRun.RequirementMet context problem.spec.horizon pre r) ↔
    ∀ v ∈ source, context.Idle (reaches update (.literal target sort)) ∨
      (Writes context update target ∧ StartsFrom problem context pre update v) := by
  cases source with
  | none => simp [transitionCompiled]
  | some v =>
      simp only [transitionCompiled, Option.toList_some, List.map_cons, List.map_nil,
        List.forall_mem_singleton, Option.mem_some_iff, forall_eq']
      refine (@requirementMet_iff _ _ _ _
        ⟨update.state, update.cycle, .eq, .literal v sort⟩ rfl rfl rfl rfl).trans ?_
      rw [reaches_holds_iff]
      refine or_congr_right (and_congr_right (fun _ => ?_))
      constructor
      · rintro ⟨c, w, before, hc, hle, hw, hbefore, hcompare⟩
        rw [evaluate_literal] at hw
        cases hw
        refine ⟨c, before, hc, hle, hbefore, ?_⟩
        simpa [CompareOp.compare] using hcompare
      · rintro ⟨c, before, hc, hle, hbefore, hkey⟩
        refine ⟨c, v, before, hc, hle, evaluate_literal, hbefore, ?_⟩
        simpa [CompareOp.compare] using hkey

theorem stateTransitionProbe_eq_ok {entries : Dict String Value} {fields : Option ProbeFields}
    {namePrefix : String} {cp : CompiledProbe} :
    stateTransitionProbe problem (.mapping entries fields) namePrefix = .ok (.ok cp) ↔
      ∃ state target, entries.get? "state" = some state ∧ entries.get? "to" = some target ∧
        ∃ alternatives, problem.stateUpdates.zipIdx.mapM (transitionAlternative problem state.pyStr
            namePrefix target (entries.get? "from")) = .ok alternatives ∧
          alternatives.reduceOption ≠ [] ∧
          cp = ⟨Expr.disjunction (alternatives.reduceOption.map CompiledProbe.expression),
            alternatives.reduceOption.flatMap CompiledProbe.requirements⟩ := by
  simp only [stateTransitionProbe]
  cases hstate : entries.get? "state" with
  | none => simp
  | some state =>
      cases htarget : entries.get? "to" with
      | none => simp
      | some target =>
          simp only [bind_eq_ok, Option.some.injEq, exists_and_left, exists_eq_left']
          refine exists_congr (fun alternatives => and_congr_right (fun _ => ?_))
          cases alternatives.reduceOption with
          | nil => simp [pure, Except.pure]
          | cons e es => simp [pure, Except.pure, eq_comm]

theorem exists_transitionAlternatives {pattern namePrefix : String} {target : Value}
    {source : Option Value} :
    (∃ alternatives, problem.stateUpdates.zipIdx.mapM
      (transitionAlternative problem pattern namePrefix target source) = .ok alternatives) ↔
    ∀ u ∈ problem.stateUpdates, matchesPattern u.state pattern = true →
      ∃ sort, stateSort problem u.state = .ok sort ∧ sort.acceptsLiteral target = true ∧
        ∀ v ∈ source, sort.acceptsLiteral v = true := by
  constructor
  · rintro ⟨alternatives, h⟩ u hu hmatch
    obtain ⟨p, hp, rfl⟩ := Choice.mem_zipIdx_fst.mpr hu
    obtain ⟨o, -, ho⟩ := mapM_result h hp
    rw [transitionAlternative, if_pos hmatch] at ho
    obtain ⟨sort, hsort, ho⟩ := bind_eq_ok.mp ho
    obtain ⟨_, htarget, ho⟩ := bind_eq_ok.mp ho
    refine ⟨sort, hsort, (literal_eq_ok.mp htarget).1, ?_⟩
    cases source with
    | none => simp
    | some v =>
        obtain ⟨_, hsource, -⟩ := bind_eq_ok.mp ho
        rintro _ ⟨⟩
        exact (literal_eq_ok.mp hsource).1
  · intro h
    refine exists_mapM (fun p hp => ?_)
    by_cases hmatch : matchesPattern p.1.state pattern = true
    · obtain ⟨sort, hsort, htarget, hsource⟩ := h p.1 (List.fst_mem_of_mem_zipIdx hp) hmatch
      exact ⟨_, transitionAlternative_eq_some.mpr ⟨hmatch, sort, hsort, htarget, hsource, rfl⟩⟩
    · exact ⟨none, by rw [transitionAlternative, if_neg hmatch]⟩

/-- What the alternatives of a transition probe ask for. -/
theorem transitionCompiled_met {pattern namePrefix : String} {target : Value}
    {source : Option Value} {alternatives : List (Option CompiledProbe)}
    (halternatives : problem.stateUpdates.zipIdx.mapM
      (transitionAlternative problem pattern namePrefix target source) = .ok alternatives)
    {p : CompiledProbe → Prop} :
    (∀ cp ∈ alternatives.reduceOption, p cp) ↔ ∀ q ∈ problem.stateUpdates.zipIdx,
      matchesPattern q.1.state pattern = true → ∀ sort, stateSort problem q.1.state = .ok sort →
        p (transitionCompiled q.1 target source sort namePrefix q.2) := by
  constructor
  · intro h q hq hmatch sort hsort
    obtain ⟨sort', hsort', htarget, hsource⟩ := exists_transitionAlternatives.mp
      ⟨alternatives, halternatives⟩ q.1 (List.fst_mem_of_mem_zipIdx hq) hmatch
    rw [hsort] at hsort'
    cases hsort'
    exact h _ ((mem_reduceOption_mapM halternatives).mpr ⟨q, hq, transitionAlternative_eq_some.mpr
      ⟨hmatch, sort, hsort, htarget, hsource, rfl⟩⟩)
  · intro h cp hcp
    obtain ⟨q, hq, hok⟩ := (mem_reduceOption_mapM halternatives).mp hcp
    obtain ⟨hmatch, sort, hsort, -, -, rfl⟩ := transitionAlternative_eq_some.mp hok
    exact h q hq hmatch sort hsort

theorem transition_met_iff {entries : Dict String Value} {fields : Option ProbeFields}
    {namePrefix : String}
    (hreturns : ∀ u ∈ problem.stateUpdates, context.Returns u.activation) :
    (∃ cp, stateTransitionProbe problem (.mapping entries fields) namePrefix = .ok (.ok cp) ∧
      cp.Met problem context pre) ↔
    ∃ state target, entries.get? "state" = some state ∧ entries.get? "to" = some target ∧
      TransitionRealised problem context pre state.pyStr target (entries.get? "from") ∧
      TransitionDemand problem context pre state.pyStr target (entries.get? "from") := by
  constructor
  · rintro ⟨cp, hcp, hholds, hrequirements⟩
    obtain ⟨state, target, hstate, htarget, alternatives, halternatives, -, rfl⟩ :=
      stateTransitionProbe_eq_ok.mp hcp
    obtain ⟨hreturn, e, he, hholds⟩ := holds_disjunction_iff.mp hholds
    rw [List.forall_mem_map, transitionCompiled_met halternatives] at hreturn
    have hmet : ∀ q ∈ problem.stateUpdates.zipIdx,
        matchesPattern q.1.state state.pyStr = true → ∀ sort,
        stateSort problem q.1.state = .ok sort → ∀ v ∈ entries.get? "from",
          context.Idle (reaches q.1 (.literal target sort)) ∨
            (Writes context q.1 target ∧ StartsFrom problem context pre q.1 v) := by
      intro q hq hmatch sort hsort
      have hall := (transitionCompiled_met halternatives (p := fun cp => ∀ r ∈ cp.requirements,
        StateRun.RequirementMet context problem.spec.horizon pre r)).mp
        (fun cp hcp r hr => hrequirements r (List.mem_flatMap.mpr ⟨cp, hcp, hr⟩))
      exact transitionCompiled_requirements_met.mp (hall q hq hmatch sort hsort)
    have hfit := exists_transitionAlternatives.mp ⟨alternatives, halternatives⟩
    refine ⟨state, target, hstate, htarget, ?_, ?_⟩
    · obtain ⟨cp, hcp, rfl⟩ := List.mem_map.mp he
      obtain ⟨q, hq, hok⟩ := (mem_reduceOption_mapM halternatives).mp hcp
      obtain ⟨hmatch, sort, hsort, -, -, rfl⟩ := transitionAlternative_eq_some.mp hok
      refine ⟨q.1, List.fst_mem_of_mem_zipIdx hq, hmatch, reaches_holds_iff.mp hholds, ?_⟩
      intro v hv
      exact ((hmet q hq hmatch sort hsort v hv).resolve_left hholds.not_idle).2
    · intro u hu hmatch
      obtain ⟨q, hq, rfl⟩ := Choice.mem_zipIdx_fst.mpr hu
      obtain ⟨sort, hsort, htarget, hsource⟩ := hfit q.1 hu hmatch
      exact ⟨sort, hsort, htarget, (reaches_returns_iff.mp (hreturn q hq hmatch sort hsort)).2,
        fun v hv => ⟨hsource v hv, hmet q hq hmatch sort hsort v hv⟩⟩
  · rintro ⟨state, target, hstate, htarget, ⟨u, hu, hmatch, hwrites, -⟩, hdemand⟩
    obtain ⟨alternatives, halternatives⟩ := exists_transitionAlternatives.mpr (fun u hu hmatch => by
      obtain ⟨sort, hsort, haccepts, -, hsource⟩ := hdemand u hu hmatch
      exact ⟨sort, hsort, haccepts, fun v hv => (hsource v hv).1⟩)
    obtain ⟨q, hq, rfl⟩ := Choice.mem_zipIdx_fst.mpr hu
    obtain ⟨sort, hsort, haccepts, -, hsource⟩ := hdemand q.1 hu hmatch
    have hmem := (mem_reduceOption_mapM halternatives).mpr ⟨q, hq,
      transitionAlternative_eq_some.mpr
        ⟨hmatch, sort, hsort, haccepts, fun v hv => (hsource v hv).1, rfl⟩⟩
    refine ⟨_, stateTransitionProbe_eq_ok.mpr ⟨state, target, hstate, htarget, alternatives,
      halternatives, List.ne_nil_of_mem hmem, rfl⟩, holds_disjunction_iff.mpr ⟨?_, _,
        List.mem_map_of_mem hmem, reaches_holds_iff.mpr hwrites⟩, ?_⟩
    · rw [List.forall_mem_map, transitionCompiled_met halternatives]
      intro q hq hmatch sort _
      have hu := List.fst_mem_of_mem_zipIdx hq
      obtain ⟨-, -, -, hvalue, -⟩ := hdemand q.1 hu hmatch
      exact reaches_returns_iff.mpr ⟨hreturns q.1 hu, hvalue⟩
    · intro r hr
      obtain ⟨cp, hcp, hr⟩ := List.mem_flatMap.mp hr
      refine (transitionCompiled_met halternatives (p := fun cp => ∀ r ∈ cp.requirements,
        StateRun.RequirementMet context problem.spec.horizon pre r)).mpr ?_ cp hcp r hr
      intro q hq hmatch sort hsort
      rw [transitionCompiled_requirements_met]
      obtain ⟨sort', hsort', -, -, hsource⟩ :=
        hdemand q.1 (List.fst_mem_of_mem_zipIdx hq) hmatch
      rw [hsort] at hsort'
      cases hsort'
      exact fun v hv => (hsource v hv).2

/-- A probe is compiled to something that is met exactly when it is realised and
its demands are met. -/
theorem probe_met_iff {modules : List LoadedModule} {probe : CoverageProbe} {namePrefix : String}
    (hreturns : ∀ u ∈ problem.stateUpdates, context.Returns u.activation) :
    (∃ cp, compileProbe problem modules probe namePrefix = .ok (.ok cp) ∧
      cp.Met problem context pre) ↔
    ProbeRealised problem context pre modules probe ∧
      ProbeDemand problem context pre modules probe := by
  obtain ⟨kind, value⟩ := probe
  cases kind with
  | event =>
      simp only [compileProbe, ProbeRealised, ProbeDemand]
      cases hpattern : eventPattern value with
      | error e => simp
      | ok p =>
          obtain ⟨pattern, fields⟩ := p
          simp only [ok_bind, Except.ok.injEq, Prod.mk.injEq]
          refine event_met_iff.trans ⟨?_, ?_⟩
          · rintro ⟨hrealised, hdemand⟩
            refine ⟨⟨pattern, fields, ⟨rfl, rfl⟩, hrealised⟩, ?_⟩
            rintro _ _ ⟨rfl, rfl⟩
            exact hdemand
          · rintro ⟨⟨_, _, ⟨rfl, rfl⟩, hrealised⟩, hdemand⟩
            exact ⟨hrealised, hdemand _ _ ⟨rfl, rfl⟩⟩
  | transformation =>
      simp only [compileProbe, ProbeRealised, ProbeDemand, Except.ok.injEq]
      exact transformation_met_iff
  | interface =>
      cases value with
      | scalar v => simp [compileProbe, interfaceProbe, ProbeRealised]
      | mapping entries fields =>
          simp only [compileProbe, interfaceProbe, ProbeRealised, ProbeDemand]
          cases hport : portType? modules (((entries.get? "module").map Value.pyStr).getD "")
              (((entries.get? "port").map Value.pyStr).getD "") with
          | none => simp
          | some eventType =>
              simp only [Option.some.injEq, exists_eq_left', forall_eq']
              exact event_met_iff
  | stateTransition =>
      cases value with
      | scalar v => simp [compileProbe, stateTransitionProbe, ProbeRealised]
      | mapping entries fields =>
          simp only [compileProbe, ProbeRealised, ProbeDemand]
          refine (transition_met_iff hreturns).trans ⟨?_, ?_⟩
          · rintro ⟨state, target, hstate, htarget, hrealised, hdemand⟩
            refine ⟨⟨state, target, hstate, htarget, hrealised⟩, ?_⟩
            intro state' target' hstate' htarget'
            rw [hstate] at hstate'
            rw [htarget] at htarget'
            cases hstate'
            cases htarget'
            exact hdemand
          · rintro ⟨⟨state, target, hstate, htarget, hrealised⟩, hdemand⟩
            exact ⟨state, target, hstate, htarget, hrealised, hdemand state target hstate htarget⟩

theorem exists_forall₂_iff {α β : Type} {R : α → β → Prop} {p : β → Prop} {l : List α} :
    (∃ r, List.Forall₂ R l r ∧ ∀ b ∈ r, p b) ↔ ∀ a ∈ l, ∃ b, R a b ∧ p b := by
  induction l with
  | nil => simp
  | cons a rest ih =>
      simp only [List.forall₂_cons_left_iff, List.forall_mem_cons, ← ih]
      constructor
      · rintro ⟨_, ⟨b, r, hb, hr, rfl⟩, hall⟩
        obtain ⟨hp, hall⟩ := List.forall_mem_cons.mp hall
        exact ⟨⟨b, hb, hp⟩, r, hr, hall⟩
      · rintro ⟨⟨b, hb, hp⟩, r, hr, hall⟩
        exact ⟨b :: r, ⟨b, r, hb, hr, rfl⟩, List.forall_mem_cons.mpr ⟨hp, hall⟩⟩

theorem reasons_eq_nil {compiled : List (Except String CompiledProbe)} :
    reasons compiled = [] ↔ ∃ cps : List CompiledProbe, compiled = cps.map .ok := by
  induction compiled with
  | nil => simp [reasons]
  | cons c rest ih =>
      cases c with
      | error reason =>
          simp only [reasons, List.filterMap_cons, reduceCtorEq, false_iff, not_exists]
          intro cps h
          cases cps <;> simp at h
      | ok cp =>
          have hrest : reasons (.ok cp :: rest) = reasons rest := by simp [reasons]
          rw [hrest, ih]
          constructor
          · rintro ⟨cps, rfl⟩
            exact ⟨cp :: cps, rfl⟩
          · rintro ⟨cps, h⟩
            cases cps with
            | nil => simp at h
            | cons cp' cps =>
                simp only [List.map_cons, List.cons.injEq, Except.ok.injEq] at h
                exact ⟨cps, h.2⟩

theorem filterMap_toOption {cps : List CompiledProbe} :
    (cps.map (Except.ok (ε := String))).filterMap Except.toOption = cps := by
  induction cps with
  | nil => rfl
  | cons cp cps ih => simp only [List.map_cons, List.filterMap_cons, Except.toOption, ih]

/-- The compiled goals are the queries of compiled probes. -/
theorem compileGoal_eq_ok {goal : CoverageGoal} {case : PreparedCase} {q : BoundedProblem} :
    compileGoal goal case = .ok (.ok q) ↔ ∃ cps,
      List.Forall₂ (fun p cp => compileProbe case.problem case.modules p.1
        s!"coverage.{goal.id}.{p.2}" = .ok (.ok cp)) goal.probes.zipIdx cps ∧
      q = query goal case.problem cps := by
  unfold compileGoal compileProbes
  simp only [bind_eq_ok, mapM_eq_ok]
  constructor
  · rintro ⟨compiled, hcompiled, h⟩
    split_ifs at h with hreasons
    · obtain ⟨cps, rfl⟩ := reasons_eq_nil.mp hreasons
      simp only [pure, Except.pure, Except.ok.injEq, filterMap_toOption] at h
      rw [List.forall₂_map_right_iff] at hcompiled
      exact ⟨cps, hcompiled, h.symm⟩
    · simp [pure, Except.pure] at h
  · rintro ⟨cps, hcps, rfl⟩
    refine ⟨cps.map .ok, by rw [List.forall₂_map_right_iff]; exact hcps, ?_⟩
    rw [if_pos (reasons_eq_nil.mpr ⟨cps, rfl⟩), filterMap_toOption]
    rfl

/-- The completions of a query are those of the problem that meet its probes. -/
theorem query_completes_iff {goal : CoverageGoal} {cps : List CompiledProbe}
    {interpreter : Interpreter} {assignment : Dict String Value} :
    Completes (query goal problem cps) interpreter assignment pre ↔
      Completes problem interpreter assignment pre ∧
        ∀ cp ∈ cps, cp.Met problem (problem.context interpreter assignment) pre := by
  have hholds : (∀ c ∈ (query goal problem cps).constraints,
        (problem.context interpreter assignment).Holds c.expression) ↔
      (∀ c ∈ problem.constraints, (problem.context interpreter assignment).Holds c.expression) ∧
        ∀ cp ∈ cps, (problem.context interpreter assignment).Holds cp.expression := by
    change (∀ c ∈ problem.constraints ++ [_], _) ↔ _
    rw [List.forall_mem_append, List.forall_mem_singleton, holds_conjunction, List.forall_mem_map]
  have hrun : StateRun (query goal problem cps) (problem.context interpreter assignment) pre ↔
      StateRun problem (problem.context interpreter assignment) pre ∧ ∀ cp ∈ cps,
        ∀ r ∈ cp.requirements, StateRun.RequirementMet (problem.context interpreter assignment)
          problem.spec.horizon pre r := by
    constructor
    · intro h
      refine ⟨⟨h.initial, fun r hr => h.requirement r (List.mem_append_left _ hr), h.update,
        h.writes, h.forward, h.support⟩, fun cp hcp r hr => ?_⟩
      exact h.requirement r (List.mem_append_right _ (List.mem_flatMap.mpr ⟨cp, hcp, hr⟩))
    · rintro ⟨h, hadded⟩
      refine ⟨h.initial, fun r hr => ?_, h.update, h.writes, h.forward, h.support⟩
      rcases List.mem_append.mp hr with hr | hr
      · exact h.requirement r hr
      · obtain ⟨cp, hcp, hr⟩ := List.mem_flatMap.mp hr
        exact hadded cp hcp r hr
  refine (and_congr hholds hrun).trans ⟨?_, ?_⟩
  · rintro ⟨⟨hconstraints, hcps⟩, hstates, hrequirements⟩
    exact ⟨⟨hconstraints, hstates⟩, fun cp hcp => ⟨hcps cp hcp, hrequirements cp hcp⟩⟩
  · rintro ⟨⟨hconstraints, hstates⟩, hmet⟩
    exact ⟨⟨hconstraints, fun cp hcp => (hmet cp hcp).1⟩, hstates,
      fun cp hcp => (hmet cp hcp).2⟩

/-- The query of a goal has exactly the unrestricted realising completions. -/
theorem compileGoal_completes_iff {goal : CoverageGoal} {case : PreparedCase}
    {interpreter : Interpreter} {assignment : Dict String Value} :
    (∃ q, compileGoal goal case = .ok (.ok q) ∧ Completes q interpreter assignment pre) ↔
      Unrestricted interpreter goal case assignment pre := by
  have hprobes : Completes case.problem interpreter assignment pre →
      ((∃ cps, List.Forall₂ (fun p cp => compileProbe case.problem case.modules p.1
          s!"coverage.{goal.id}.{p.2}" = .ok (.ok cp)) goal.probes.zipIdx cps ∧
        ∀ cp ∈ cps, cp.Met case.problem (case.problem.context interpreter assignment) pre) ↔
      ∀ probe ∈ goal.probes,
        ProbeRealised case.problem (case.problem.context interpreter assignment) pre case.modules
          probe ∧
        ProbeDemand case.problem (case.problem.context interpreter assignment) pre case.modules
          probe) := by
    intro hcompletes
    have hreturns : ∀ u ∈ case.problem.stateUpdates,
        (case.problem.context interpreter assignment).Returns u.activation := by
      intro u hu
      rcases hcompletes.2.update u hu with ⟨v, hv, -⟩ | ⟨c, v, hactive⟩
      · exact ⟨_, hv⟩
      · exact hactive.holds.returns
    rw [exists_forall₂_iff]
    constructor
    · intro h probe hprobe
      obtain ⟨p, hp, rfl⟩ := Choice.mem_zipIdx_fst.mpr hprobe
      exact (probe_met_iff hreturns).mp (h p hp)
    · intro h p hp
      exact (probe_met_iff hreturns).mpr (h p.1 (List.fst_mem_of_mem_zipIdx hp))
  constructor
  · rintro ⟨q, hq, hcompletes⟩
    obtain ⟨cps, hcps, rfl⟩ := compileGoal_eq_ok.mp hq
    obtain ⟨hcompletes, hmet⟩ := query_completes_iff.mp hcompletes
    have hall := (hprobes hcompletes).mp ⟨cps, hcps, hmet⟩
    exact ⟨⟨hcompletes, fun probe hprobe => (hall probe hprobe).1⟩,
      fun probe hprobe => (hall probe hprobe).2⟩
  · intro h
    obtain ⟨cps, hcps, hmet⟩ := (hprobes h.completes).mpr
      (fun probe hprobe => ⟨h.probes probe hprobe, h.demands probe hprobe⟩)
    exact ⟨_, compileGoal_eq_ok.mpr ⟨cps, hcps, rfl⟩, query_completes_iff.mpr ⟨h.completes, hmet⟩⟩

end Compile

/-! ## The search over the cases -/

section Cover

variable {interpreter : Interpreter} {backend : Backend} {goal : CoverageGoal}

/-- The solver call for the case is feasible. -/
def FoundFor (interpreter : Interpreter) (backend : Backend) (goal : CoverageGoal)
    (case : PreparedCase) : Prop :=
  ∃ q result, compileGoal goal case = .ok (.ok q) ∧
    completeProblem q interpreter backend = .ok result ∧ result.status = .feasible

theorem attempt_eq_ok {case : PreparedCase} {result : CompletionResult} :
    attempt interpreter backend goal case = .ok (.ok result) ↔ ∃ q,
      compileGoal goal case = .ok (.ok q) ∧ completeProblem q interpreter backend = .ok result := by
  unfold attempt
  rw [bind_eq_ok]
  constructor
  · rintro ⟨compiled, hcompiled, h⟩
    cases compiled with
    | error reasons => cases h
    | ok q =>
        refine ⟨q, hcompiled, ?_⟩
        dsimp only at h
        cases hcomplete : completeProblem q interpreter backend with
        | error e =>
            rw [hcomplete] at h
            cases h
        | ok r =>
            rw [hcomplete] at h
            cases h
            rfl
  · rintro ⟨q, hq, hresult⟩
    exact ⟨.ok q, hq, by simp only [hresult]; rfl⟩

theorem foundFor_iff {case : PreparedCase} : FoundFor interpreter backend goal case ↔
    ∃ result, attempt interpreter backend goal case = .ok (.ok result) ∧
      result.status = .feasible := by
  simp only [attempt_eq_ok, FoundFor]
  constructor
  · rintro ⟨q, result, hq, hresult, hstatus⟩
    exact ⟨result, ⟨q, hq, hresult⟩, hstatus⟩
  · rintro ⟨result, ⟨q, hq, hresult⟩, hstatus⟩
    exact ⟨q, result, hq, hresult, hstatus⟩

/-- A case adds a witness exactly when its solver call is feasible. -/
theorem coverCase_feasible {search search' : CaseSearch} {case : PreparedCase}
    (h : coverCase interpreter backend goal search case = .ok search') :
    search'.feasible ≠ [] ↔ search.feasible ≠ [] ∨ FoundFor interpreter backend goal case := by
  rw [foundFor_iff]
  unfold coverCase at h
  cases hattempt : attempt interpreter backend goal case with
  | error e =>
      rw [hattempt] at h
      simp only [reduceCtorEq, false_and, exists_false, or_false]
      cases hmessage : e.umcmMessage? with
      | none => simp [hmessage] at h
      | some message =>
          simp only [hmessage, Except.ok.injEq] at h
          rw [← h]
  | ok compiled =>
      rw [hattempt] at h
      cases compiled with
      | error reasons =>
          simp only [Except.ok.injEq] at h
          simp [← h]
      | ok result =>
          simp only [Except.ok.injEq, exists_eq_left']
          simp only [CaseSearch.record] at h
          cases hstatus : result.status with
          | feasible =>
              simp only [hstatus] at h
              cases htrace : result.completedTrace with
              | none => simp [htrace] at h
              | some trace =>
                  simp only [htrace, Except.ok.injEq] at h
                  simp [← h]
          | infeasible =>
              simp only [hstatus, Except.ok.injEq] at h
              simp [← h]
          | unknown =>
              simp only [hstatus, Except.ok.injEq] at h
              simp [← h]

theorem foldl_feasible {cases : List PreparedCase} {search : CaseSearch}
    (h : cases.foldlM (coverCase interpreter backend goal) .start = .ok search) :
    search.feasible ≠ [] ↔ ∃ case ∈ cases, FoundFor interpreter backend goal case := by
  refine foldlM_invariant (fun seen search => search.feasible ≠ [] ↔
    ∃ case ∈ seen, FoundFor interpreter backend goal case) ?_ (by simp [CaseSearch.start]) h
  intro seen case search search' hseen hstep
  rw [coverCase_feasible hstep, hseen]
  simp only [List.mem_append, List.mem_singleton, or_and_right, exists_or, exists_eq_left]

theorem verdict_covered_iff {search : CaseSearch} :
    (verdict goal search).status = .covered ↔ search.feasible ≠ [] := by
  unfold verdict
  cases hfeasible : search.feasible with
  | nil =>
      simp only [best, ne_eq, not_true_eq_false, iff_false]
      split_ifs <;> simp [missed]
  | cons entry rest => simp [best]

/-- The goal is covered exactly when some solver call is feasible. -/
theorem covered_iff {cases : List PreparedCase} {result : GoalResult}
    (h : coverGoal interpreter backend goal cases = .ok result) :
    result.status = .covered ↔ ∃ case ∈ cases, FoundFor interpreter backend goal case := by
  unfold coverGoal at h
  split_ifs at h with hnil
  · cases h
    simp [missed, hnil]
  · obtain ⟨search, hsearch, h⟩ := bind_eq_ok.mp h
    cases h
    exact verdict_covered_iff.trans (foldl_feasible hsearch)

/-- The solver call returns, and its answer is right for the assignments of a domain. -/
def Decides (domain : Dict String Value → Prop) (interpreter : Interpreter) (backend : Backend)
    (q : BoundedProblem) : Prop :=
  ∃ result, completeProblem q interpreter backend = .ok result ∧ result.status ≠ .unknown ∧
    (result.status = .feasible ↔
      ∃ assignment pre, domain assignment ∧ Completes q interpreter assignment pre)

/-- A decided goal is covered exactly when some case has an unrestricted realising
completion. -/
theorem covered_iff_unrestricted {cases : List PreparedCase}
    {domain : PreparedCase → Dict String Value → Prop}
    (hdecides : ∀ case ∈ cases, ∀ q, compileGoal goal case = .ok (.ok q) →
      Decides (domain case) interpreter backend q)
    {result : GoalResult} (h : coverGoal interpreter backend goal cases = .ok result) :
    result.status = .covered ↔ ∃ case ∈ cases, ∃ assignment pre, domain case assignment ∧
      Unrestricted interpreter goal case assignment pre := by
  rw [covered_iff h]
  refine exists_congr (fun case => and_congr_right (fun hcase => ?_))
  constructor
  · rintro ⟨q, result, hq, hresult, hstatus⟩
    obtain ⟨result', hresult', -, hiff⟩ := hdecides case hcase q hq
    rw [hresult] at hresult'
    cases hresult'
    obtain ⟨assignment, pre, hdomain, hcompletes⟩ := hiff.mp hstatus
    exact ⟨assignment, pre, hdomain, compileGoal_completes_iff.mp ⟨q, hq, hcompletes⟩⟩
  · rintro ⟨assignment, pre, hdomain, h⟩
    obtain ⟨q, hq, hcompletes⟩ := compileGoal_completes_iff.mpr h
    obtain ⟨result, hresult, -, hiff⟩ := hdecides case hcase q hq
    exact ⟨q, result, hq, hresult, hiff.mpr ⟨assignment, pre, hdomain, hcompletes⟩⟩

end Cover

end Coverage

open Coverage

/-- Coverage reports exactly the goals that some completion realises if and only
if, where there is a realising completion, some realising completion has every
candidate of its probes unrestricted. -/
theorem covered_iff_realised_iff (interpreter : Interpreter) (backend : Backend)
    (goal : CoverageGoal) (cases : List PreparedCase)
    (domain : PreparedCase → Dict String Value → Prop)
    (hdecides : ∀ case ∈ cases, ∀ q, compileGoal goal case = .ok (.ok q) →
      Decides (domain case) interpreter backend q)
    (result : GoalResult) (h : coverGoal interpreter backend goal cases = .ok result) :
    (result.status = .covered ↔ ∃ case ∈ cases, ∃ assignment pre, domain case assignment ∧
      Realises interpreter goal case assignment pre) ↔
    ((∃ case ∈ cases, ∃ assignment pre, domain case assignment ∧
        Realises interpreter goal case assignment pre) →
      ∃ case ∈ cases, ∃ assignment pre, domain case assignment ∧
        Unrestricted interpreter goal case assignment pre) := by
  rw [covered_iff_unrestricted hdecides h]
  constructor
  · exact fun hiff => hiff.mpr
  · intro himp
    refine ⟨?_, himp⟩
    rintro ⟨case, hcase, assignment, pre, hdomain, hrealises⟩
    exact ⟨case, hcase, assignment, pre, hdomain, hrealises.toRealises⟩

/-! ## Two writes of one value -/

namespace Coverage

def writeType : EventType := ⟨"M.Write", [], by decide, List.nodup_nil⟩

def writeCatalog : EventCatalog := ⟨.ofList [("M.Write", writeType)], by decide +kernel⟩

/-- A write that occurs in the given cycle. -/
def writeEvent (id : String) (cycle : Nat) (id_ne : id ≠ "") : EventInstance where
  id := id
  eventType := "M.Write"
  fields := .empty
  cycle := .concrete cycle
  occurs := .known true
  id_ne := id_ne
  eventType_ne := by decide
  cycle_sort := EventCycle.int_of_concrete cycle
  occurs_sort := Occurs.bool_of_known true

def cellX : StateVariable where
  name := "M.x"
  sort := .int
  initial := .value (.int 0)
  qualified := by decide
  initial_fits := by decide

/-- Every write sets the cell to one. -/
def writeRule : Transformation where
  name := "write"
  inputs := [⟨"w", "M.Write", by decide, by decide⟩]
  outputs := []
  when := .literal (.bool true) .bool
  outputWhen := .literal (.bool true) .bool
  ensure := []
  stateRequirements := []
  stateUpdates := [⟨"M.x", "w", .literal (.int 1) .int, by decide, by decide⟩]
  isExact := false
  stateMode := .require
  name_ne := by decide
  roles_nodup := by decide
  when_bool := Expr.bool_of_true
  outputWhen_bool := Expr.bool_of_true
  ensure_bool := Expr.bool_of_mem_nil
  exact_output := Transformation.inexact_outputs
  guard_outputs := Transformation.require_outputs
  guard_updates := fun h => nomatch h

def writeTrace : Trace where
  events := [writeEvent "e0" 0 (by decide), writeEvent "e1" 1 (by decide)]
  constraints := []
  isPartial := false
  nodup := by decide
  bool_constraints := Expr.bool_of_mem_nil

def writeSpec : CompletionSpec where
  slots := []
  transformations := [writeRule]
  stateVariables := [cellX]
  constraints := []
  horizon := 1
  slots_nodup := List.nodup_nil
  transformations_nodup := by decide
  stateVariables_nodup := by decide
  constraints_bool := Expr.bool_of_mem_nil

/-- The problem of two writes, in cycles 0 and 1. -/
def writeCase : PreparedCase where
  name := "two_writes"
  modules := []
  problem := (buildProblem writeCatalog writeTrace writeSpec).toOption.get (by decide +kernel)

/-- The cell changes from zero to one. -/
def shiftGoal : CoverageGoal where
  id := "shift"
  probes := [⟨.stateTransition, .mapping (.ofList [("state", .str "M.x"), ("from", .int 0),
    ("to", .int 1)]) none⟩]

theorem shiftGoal_realised : ∃ pre, Realises .integers shiftGoal writeCase .empty pre := by
  have hfeasible : (checkStateSemantics writeCase.problem .integers .empty).toOption.map
      StateCheckResult.feasible = some true := by decide +kernel
  obtain ⟨pre, hrun⟩ := checkStateSemantics_feasible_iff.mp (by
    cases hcheck : checkStateSemantics writeCase.problem .integers .empty with
    | error e => simp [hcheck, Except.toOption] at hfeasible
    | ok result => exact ⟨result, rfl, by simpa [hcheck, Except.toOption] using hfeasible⟩)
  refine ⟨pre, ⟨by decide +kernel, hrun⟩, ?_⟩
  intro probe hprobe
  obtain rfl := List.mem_singleton.mp hprobe
  refine ⟨.str "M.x", .int 1, by decide +kernel, by decide +kernel,
    writeCase.problem.stateUpdates.head (by decide +kernel), List.head_mem _, by decide +kernel,
    ⟨by decide +kernel, .int 1, by decide +kernel, rfl⟩, ?_⟩
  intro v hv
  have hfrom : (Dict.ofList [("state", Value.str "M.x"), ("from", .int 0), ("to", .int 1)]).get?
      "from" = some (.int 0) := by decide +kernel
  rw [hfrom] at hv
  cases hv
  obtain ⟨state, hstate, hpre⟩ := hrun.initial
  have hvalue : (StateCheck.initialState (writeCase.problem.context .integers .empty)
      writeCase.problem.spec.stateVariables).toOption.bind (fun state => state.get? "M.x") =
      some (.int 0) := by decide +kernel
  rw [hstate] at hvalue
  refine ⟨0, .int 0, by decide +kernel, by decide +kernel, ?_, rfl⟩
  have hname : (writeCase.problem.stateUpdates.head (by decide +kernel)).state = "M.x" := by
    decide +kernel
  rw [← hpre, hname]
  exact hvalue

theorem shiftGoal_uncovered : ∃ result,
    coverGoal .integers (.finite 100) shiftGoal [writeCase] = .ok result ∧
      result.status = .uncovered := by
  have h : (coverGoal .integers (.finite 100) shiftGoal [writeCase]).toOption.map
      GoalResult.status = some .uncovered := by decide +kernel
  cases hresult : coverGoal .integers (.finite 100) shiftGoal [writeCase] with
  | error e => simp [hresult, Except.toOption] at h
  | ok result => exact ⟨result, rfl, by simpa [hresult, Except.toOption] using h⟩

/-- The problem has no symbols: its only assignment is the empty one. -/
theorem shiftGoal_decides {q : BoundedProblem} (hq : compileGoal shiftGoal writeCase = .ok (.ok q)) :
    Decides (fun assignment => assignment = .empty) .integers (.finite 100) q := by
  have hstatus : ((compileGoal shiftGoal writeCase).toOption.bind Except.toOption).map (fun q =>
      (completeProblem q .integers (.finite 100)).toOption.map CompletionResult.status) =
      some (some .infeasible) := by decide +kernel
  have hstates : ((compileGoal shiftGoal writeCase).toOption.bind Except.toOption).map (fun q =>
      (checkStateSemantics q .integers .empty).toOption.map StateCheckResult.feasible) =
      some (some false) := by decide +kernel
  rw [hq] at hstatus hstates
  simp only [Except.toOption, Option.bind_some, Option.map_some, Option.some.injEq] at hstatus hstates
  cases hresult : completeProblem q .integers (.finite 100) with
  | error e => simp [hresult] at hstatus
  | ok result =>
      simp only [hresult, Option.map_some, Option.some.injEq] at hstatus
      refine ⟨result, hresult, by simp [hstatus], ?_⟩
      rw [hstatus]
      simp only [reduceCtorEq, false_iff]
      rintro ⟨_, pre, rfl, -, hrun⟩
      obtain ⟨check, hcheck, hfeasible⟩ := checkStateSemantics_feasible_iff.mpr ⟨pre, hrun⟩
      simp [hcheck, hfeasible] at hstates

/-- The first write realises the goal, and the query is infeasible since the
second write would have to start from zero too. -/
theorem shiftGoal_missed : ∃ result,
    coverGoal .integers (.finite 100) shiftGoal [writeCase] = .ok result ∧
    (∀ q, compileGoal shiftGoal writeCase = .ok (.ok q) →
      Decides (fun assignment => assignment = .empty) .integers (.finite 100) q) ∧
    ¬ (result.status = .covered ↔ ∃ case ∈ [writeCase], ∃ assignment pre, assignment = .empty ∧
      Realises .integers shiftGoal case assignment pre) := by
  obtain ⟨result, hresult, hstatus⟩ := shiftGoal_uncovered
  refine ⟨result, hresult, fun q => shiftGoal_decides, fun hiff => ?_⟩
  obtain ⟨pre, hrealises⟩ := shiftGoal_realised
  have hcovered := hiff.mpr ⟨writeCase, List.mem_singleton_self _, .empty, pre, rfl, hrealises⟩
  rw [hstatus] at hcovered
  cases hcovered

theorem shiftGoal_covered_iff : ∃ result,
    coverGoal .integers (.finite 100) shiftGoal [writeCase] = .ok result ∧
    ((result.status = .covered ↔ ∃ case ∈ [writeCase], ∃ assignment pre, assignment = .empty ∧
        Realises .integers shiftGoal case assignment pre) ↔
      ((∃ case ∈ [writeCase], ∃ assignment pre, assignment = .empty ∧
          Realises .integers shiftGoal case assignment pre) →
        ∃ case ∈ [writeCase], ∃ assignment pre, assignment = .empty ∧
          Unrestricted .integers shiftGoal case assignment pre)) := by
  obtain ⟨result, hresult, -⟩ := shiftGoal_uncovered
  refine ⟨result, hresult, covered_iff_realised_iff .integers (.finite 100) shiftGoal [writeCase]
    (fun _ assignment => assignment = .empty) (fun case hcase q hq => ?_) result hresult⟩
  obtain rfl := List.mem_singleton.mp hcase
  exact shiftGoal_decides hq

end Coverage

end Umcm
