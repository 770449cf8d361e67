import Umcm.Solver.Completion
import Umcm.Solver.FiniteExact
import Umcm.Solver.WellBuilt

/-!
# When the completed trace can be built

A backend that reports an assignment has checked the constraints and the state
cells, not the attributes of the events that no constraint mentions, and not
the constraints once the events that do not occur are dropped.

* `completed_iff`: the completion of a reported assignment is the trace of the
  occurring events exactly when the assignment is completable.
-/

namespace Umcm

open Except

namespace Completion

variable (problem : BoundedProblem) (context : EvaluationContext)

/-- The event occurs under the assignment. -/
def OccursIn (event : EventInstance) : Prop :=
  context.evaluateTerm event.occursTerm = .ok (some (.bool true))

instance (event : EventInstance) : Decidable (OccursIn context event) :=
  inferInstanceAs (Decidable (context.evaluateTerm event.occursTerm = .ok (some (.bool true))))

/-- The attribute of an event as a value. -/
def attributeValue (id field : String) : Except PyError Result :=
  match context.events.get? id with
  | none => .error (.traceValidationError s!"unknown event id during evaluation: {id}")
  | some event =>
    match event.attribute? field with
    | none => .ok none
    | some term => context.evaluateTerm term

/-- The expression holds when it is evaluated over the values of the attributes. -/
def HoldsOnValues (e : Expr) : Prop :=
  evaluateWith context.interpreter context.assignment (attributeValue context) e =
    .ok (some (.bool true))

/-- The completed event: the same event, occurring and with values. -/
structure Completes (event completed : EventInstance) : Prop where
  id : completed.id = event.id
  eventType : completed.eventType = event.eventType
  occurs : completed.occurs = .known true
  cycle : (event.hasCycle = false ∧ completed.cycle = .absent) ∨
    ∃ n : Nat, event.hasCycle = true ∧ completed.cycle = .concrete n ∧
      context.evaluateTerm event.cycleTerm = .ok (some (.int n))
  fields : List.Forall₂ (fun p q => q.1 = p.1 ∧ ∃ v, q.2 = .value v ∧
    context.evaluateTerm p.2 = .ok (some v)) event.fields.entries completed.fields.entries

/-- The context of a completed trace. -/
def traceContext (completed : Trace) : EvaluationContext :=
  { events := .ofList (completed.events.map (fun event => (event.id, event)))
    assignment := context.assignment
    interpreter := context.interpreter }

/-- The result is the completion of the problem: the events that occur, with
values, as a valid trace on which the constraints of the source trace hold. -/
structure IsCompletion (result : CompletionResult) : Prop where
  status : result.status = .feasible
  trace : ∃ completed, result.completedTrace = some completed ∧
    List.Forall₂ (Completes context)
      (problem.events.filter (fun event => OccursIn context event)) completed.events ∧
    completed.constraints = problem.sourceTrace.constraints ∧
    completed.validate problem.catalog false = .ok () ∧
    ∀ c ∈ completed.constraints, (traceContext context completed).Holds c

/-- The guards up to the first false one can be compared. -/
def GuardsComparable (state : StateCheckResult) : List GuardPredicateInstance → Prop
  | [] => True
  | predicate :: rest =>
    (∃ b, statePredicateHolds context state predicate = .ok b) ∧
      (statePredicateHolds context state predicate = .ok true → GuardsComparable state rest)

/-- The assignment determines a completed trace: occurrences are known, the
attributes of the events that occur are values of their sorts, the constraints
of the source trace mention only such events and hold, and the rules and their
guards can be evaluated. -/
structure Completable (state : Option StateCheckResult) : Prop where
  occurs : ∀ event ∈ problem.events, ∃ b,
    context.evaluateTerm event.occursTerm = .ok (some (.bool b))
  cycles : ∀ event ∈ problem.events, OccursIn context event → event.hasCycle = true →
    ∃ n : Nat, context.evaluateTerm event.cycleTerm = .ok (some (.int n))
  fields : ∀ event ∈ problem.events, OccursIn context event →
    ∀ eventType, problem.catalog.resolve event.eventType = .ok eventType →
    ∀ p ∈ event.fields.entries, ∀ spec, eventType.field? p.1 = some spec →
      ∃ v, context.evaluateTerm p.2 = .ok (some v) ∧ spec.sort.acceptsLiteral v = true
  references : ∀ c ∈ problem.sourceTrace.constraints, ∀ ref ∈ c.eventFields,
    ∃ event ∈ problem.events, event.id = ref.1 ∧ OccursIn context event
  constraints : ∀ c ∈ problem.sourceTrace.constraints, HoldsOnValues context c
  rules : ∀ candidate ∈ problem.transformationActivations,
    context.Returns candidate.expression
  guards : ∀ candidate ∈ problem.transformationActivations,
    context.Holds candidate.expression → ∀ s, state = some s →
      GuardsComparable context s candidate.statePredicates

variable {problem context}

/-! ## Events -/

theorem concrete_eq_ok {term : Term} {path : String} {v : Value} :
    concrete context term path = .ok v ↔ context.evaluateTerm term = .ok (some v) := by
  rw [concrete, bind_eq_ok]
  constructor
  · rintro ⟨r, hr, h⟩
    cases r with
    | none => cases h
    | some w =>
        cases h
        exact hr
  · intro h
    exact ⟨some v, h, rfl⟩

theorem occursOf_eq_ok {event : EventInstance} {b : Bool} :
    occursOf context event = .ok b ↔
      context.evaluateTerm event.occursTerm = .ok (some (.bool b)) := by
  rw [occursOf, bind_eq_ok]
  simp only [concrete_eq_ok]
  constructor
  · rintro ⟨v, hv, h⟩
    cases v with
    | bool b' =>
        cases h
        exact hv
    | _ => cases h
  · intro h
    exact ⟨.bool b, h, rfl⟩

theorem validNat_eq_some {v : Value} {n : Nat} : validNat v = some n ↔ v = .int n := by
  cases v with
  | int m =>
      rw [validNat]
      by_cases h : 0 ≤ m
      · rw [if_pos h, Option.some.injEq, Value.int.injEq]
        omega
      · rw [if_neg h, Value.int.injEq]
        constructor
        · intro hn
          cases hn
        · intro hn
          omega
  | _ => simp [validNat]

theorem cycleOf_eq_ok {event : EventInstance} {cycle : Option Nat} :
    cycleOf context event = .ok cycle ↔ (event.hasCycle = false ∧ cycle = none) ∨
      ∃ n : Nat, event.hasCycle = true ∧ cycle = some n ∧
        context.evaluateTerm event.cycleTerm = .ok (some (.int n)) := by
  rw [cycleOf]
  by_cases hcycle : event.hasCycle = true
  · rw [if_pos hcycle, bind_eq_ok]
    simp only [concrete_eq_ok, hcycle, Bool.true_eq_false, false_and, false_or, true_and]
    constructor
    · rintro ⟨v, hv, h⟩
      cases hn : validNat v with
      | none => simp [hn] at h
      | some n =>
          simp only [hn] at h
          cases h
          rw [validNat_eq_some] at hn
          subst hn
          exact ⟨n, rfl, hv⟩
    · rintro ⟨n, rfl, h⟩
      refine ⟨_, h, ?_⟩
      have hn : validNat (.int n) = some n := validNat_eq_some.mpr rfl
      simp only [hn]
      rfl
  · rw [if_neg hcycle]
    simp [hcycle, eq_comm]

theorem forall₂_keys {l r : List (String × Term)}
    (h : List.Forall₂ (fun p q => q.1 = p.1 ∧ ∃ v, q.2 = .value v ∧
      context.evaluateTerm p.2 = .ok (some v)) l r) : r.map Prod.fst = l.map Prod.fst := by
  induction h with
  | nil => rfl
  | cons hp _ ih => rw [List.map_cons, List.map_cons, hp.1, ih]

theorem fieldsOf_eq_ok {event : EventInstance} {fields : Dict String Term} :
    fieldsOf context event = .ok fields ↔
      List.Forall₂ (fun p q => q.1 = p.1 ∧ ∃ v, q.2 = .value v ∧
        context.evaluateTerm p.2 = .ok (some v)) event.fields.entries fields.entries := by
  have hstep : ∀ {p : String × Term} {q : String × Term},
      (concrete context p.2 s!"{event.id}.{p.1}" >>= fun v =>
        Except.ok (p.1, Term.value v)) = .ok q ↔
      q.1 = p.1 ∧ ∃ v, q.2 = .value v ∧ context.evaluateTerm p.2 = .ok (some v) := by
    intro p q
    rw [bind_eq_ok]
    simp only [concrete_eq_ok]
    constructor
    · rintro ⟨v, hv, h⟩
      cases h
      exact ⟨rfl, v, rfl, hv⟩
    · rintro ⟨hname, v, hvalue, hv⟩
      refine ⟨v, hv, ?_⟩
      rw [← hname, ← hvalue]
  rw [fieldsOf, bind_eq_ok]
  constructor
  · rintro ⟨entries, hentries, h⟩
    cases h
    have hall := (mapM_eq_ok.mp hentries).imp (fun _ _ h => hstep.mp h)
    have hnodup : (entries.map Prod.fst).Nodup := by
      rw [forall₂_keys hall]
      exact event.fields.nodup
    rw [Dict.entries_ofList hnodup]
    exact hall
  · intro h
    refine ⟨fields.entries, mapM_eq_ok.mpr (h.imp (fun _ _ hp => hstep.mpr hp)), ?_⟩
    rw [Dict.ofList_entries]
    rfl

theorem materializeEvent_eq_none {event : EventInstance} :
    materializeEvent context event = .ok none ↔
      context.evaluateTerm event.occursTerm = .ok (some (.bool false)) := by
  rw [materializeEvent, bind_eq_ok]
  simp only [occursOf_eq_ok]
  constructor
  · rintro ⟨b, hb, h⟩
    cases b with
    | false => exact hb
    | true =>
        obtain ⟨_, -, h⟩ := bind_eq_ok.mp h
        obtain ⟨_, -, h⟩ := bind_eq_ok.mp h
        cases h
  · intro h
    exact ⟨false, h, rfl⟩

theorem materializeEvent_eq_some {event completed : EventInstance} :
    materializeEvent context event = .ok (some completed) →
      OccursIn context event ∧ Completes context event completed := by
  intro h
  obtain ⟨b, hb, h⟩ := bind_eq_ok.mp h
  rw [occursOf_eq_ok] at hb
  cases b with
  | false => cases h
  | true =>
      obtain ⟨cycle, hcycle, h⟩ := bind_eq_ok.mp h
      obtain ⟨fields, hfields, h⟩ := bind_eq_ok.mp h
      cases h
      refine ⟨hb, rfl, rfl, rfl, ?_, fieldsOf_eq_ok.mp hfields⟩
      rcases cycleOf_eq_ok.mp hcycle with ⟨hnone, rfl⟩ | ⟨n, hsome, rfl, hn⟩
      · exact Or.inl ⟨hnone, rfl⟩
      · exact Or.inr ⟨n, hsome, rfl, hn⟩

theorem exists_values {entries : List (String × Term)}
    (h : ∀ p ∈ entries, ∃ v, context.evaluateTerm p.2 = .ok (some v)) :
    ∃ completed : List (String × Term), List.Forall₂ (fun p q => q.1 = p.1 ∧ ∃ v,
      q.2 = .value v ∧ context.evaluateTerm p.2 = .ok (some v)) entries completed := by
  induction entries with
  | nil => exact ⟨[], .nil⟩
  | cons p rest ih =>
      obtain ⟨v, hv⟩ := h p List.mem_cons_self
      obtain ⟨completed, hcompleted⟩ := ih (fun q hq => h q (List.mem_cons_of_mem _ hq))
      exact ⟨(p.1, .value v) :: completed, .cons ⟨rfl, v, rfl, hv⟩ hcompleted⟩

theorem exists_fieldsOf {event : EventInstance}
    (h : ∀ p ∈ event.fields.entries, ∃ v, context.evaluateTerm p.2 = .ok (some v)) :
    ∃ fields, fieldsOf context event = .ok fields := by
  obtain ⟨entries, hentries⟩ := exists_values h
  have hnodup : (entries.map Prod.fst).Nodup := by
    rw [forall₂_keys hentries]
    exact event.fields.nodup
  refine ⟨.ofList entries, fieldsOf_eq_ok.mpr ?_⟩
  rw [Dict.entries_ofList hnodup]
  exact hentries

/-- The events that occur, in order. -/
theorem materialized_events {events : List EventInstance} {results : List (Option EventInstance)}
    (h : events.mapM (materializeEvent context) = .ok results) :
    List.Forall₂ (Completes context) (events.filter (fun event => OccursIn context event))
      (results.filterMap id) := by
  rw [mapM_eq_ok] at h
  induction h with
  | nil => exact .nil
  | @cons event result _ _ hevent _ ih =>
      cases result with
      | none =>
          have hnot : ¬ OccursIn context event := by
            rw [OccursIn, materializeEvent_eq_none.mp hevent]
            simp
          rw [List.filter_cons_of_neg (by simpa using hnot)]
          exact ih
      | some completed =>
          obtain ⟨hoccurs, hcompletes⟩ := materializeEvent_eq_some hevent
          rw [List.filter_cons_of_pos (by simpa using hoccurs)]
          exact .cons hcompletes ih

/-! ## Attributes of the completed trace -/

theorem lookup_values {l r : List (String × Term)} {k : String}
    (h : List.Forall₂ (fun p q => q.1 = p.1 ∧ ∃ v, q.2 = .value v ∧
      context.evaluateTerm p.2 = .ok (some v)) l r) :
    (Dict.lookup k l = none ∧ Dict.lookup k r = none) ∨
      ∃ term v, Dict.lookup k l = some term ∧ Dict.lookup k r = some (.value v) ∧
        context.evaluateTerm term = .ok (some v) := by
  induction h with
  | nil => exact Or.inl ⟨rfl, rfl⟩
  | @cons p q _ _ hp _ ih =>
      obtain ⟨hname, v, hvalue, hv⟩ := hp
      obtain ⟨name, term⟩ := p
      obtain ⟨name', term'⟩ := q
      simp only at hname hvalue hv
      subst hname hvalue
      by_cases hk : name' = k
      · exact Or.inr ⟨term, v, by simp [Dict.lookup, hk], by simp [Dict.lookup, hk], hv⟩
      · simpa only [Dict.lookup, hk, if_false] using ih

/-- An attribute of the completed event is the value of the attribute. -/
theorem attribute_completes {event completed : EventInstance} (hoccurs : OccursIn context event)
    (h : Completes context event completed) (field : String) :
    (event.attribute? field = none ∧ completed.attribute? field = none) ∨
      ∃ term v, event.attribute? field = some term ∧
        completed.attribute? field = some (.value v) ∧
        context.evaluateTerm term = .ok (some v) := by
  simp only [EventInstance.attribute?]
  by_cases hfield : field = "occurs"
  · refine Or.inr ⟨event.occursTerm, .bool true, by simp [hfield], ?_, hoccurs⟩
    simp [hfield, EventInstance.occursTerm, h.occurs]
  · rw [if_neg hfield, if_neg hfield]
    by_cases hcycle : field = "cycle"
    · rw [if_pos hcycle, if_pos hcycle]
      rcases h.cycle with ⟨hnone, habsent⟩ | ⟨n, -, hconcrete, hn⟩
      · refine Or.inr ⟨event.cycleTerm, .none, rfl, ?_, ?_⟩
        · simp [EventInstance.cycleTerm, habsent]
        · rw [EventInstance.hasCycle] at hnone
          rw [EventInstance.cycleTerm]
          cases hc : event.cycle with
          | absent => rfl
          | concrete n => simp [hc] at hnone
          | symbolic e => simp [hc] at hnone
      · refine Or.inr ⟨event.cycleTerm, .int n, rfl, ?_, hn⟩
        simp [EventInstance.cycleTerm, hconcrete]
    · rw [if_neg hcycle, if_neg hcycle]
      exact lookup_values h.fields

theorem eventAttribute_traceContext (hbuilt : WellBuilt problem)
    (hevents : context.events = problem.eventMap) {completed : Trace} {event c : EventInstance}
    (hevent : event ∈ problem.events) (hc : c ∈ completed.events)
    (hoccurs : OccursIn context event) (h : Completes context event c) (field : String) :
    (traceContext context completed).eventAttribute event.id field =
      attributeValue context event.id field := by
  have hget : context.events.get? event.id = some event := by
    rw [hevents]
    exact get?_eventMap hbuilt hevent
  have hgetc : (traceContext context completed).events.get? event.id = some c := by
    refine Dict.get?_ofList_of_mem ?_ (List.mem_map.mpr ⟨c, hc, by rw [h.id]⟩)
    rw [List.map_map]
    exact completed.nodup
  rw [EvaluationContext.eventAttribute, EvaluationContext.eventAttributeAt, attributeValue]
  simp only [hget, hgetc]
  rcases attribute_completes hoccurs h field with ⟨hnone, hnone'⟩ | ⟨term, v, hsome, hsome', hv⟩
  · simp only [hnone, hnone']
  · simp only [hsome, hsome', hv]

/-- What a list of occurring events and its completion have in common. -/
theorem completes_of_mem {completed : List EventInstance} {event : EventInstance}
    (h : List.Forall₂ (Completes context)
      (problem.events.filter (fun event => OccursIn context event)) completed)
    (hevent : event ∈ problem.events) (hoccurs : OccursIn context event) :
    ∃ c ∈ completed, Completes context event c := by
  have hmem : event ∈ problem.events.filter (fun event => OccursIn context event) :=
    List.mem_filter.mpr ⟨hevent, by simpa using hoccurs⟩
  generalize problem.events.filter _ = l at h hmem
  induction h with
  | nil => cases hmem
  | cons hp _ ih =>
      rcases List.mem_cons.mp hmem with rfl | hmem
      · exact ⟨_, List.mem_cons_self, hp⟩
      · obtain ⟨c, hc, hcompletes⟩ := ih hmem
        exact ⟨c, List.mem_cons_of_mem _ hc, hcompletes⟩

theorem source_of_completed {completed : List EventInstance} {c : EventInstance}
    (h : List.Forall₂ (Completes context)
      (problem.events.filter (fun event => OccursIn context event)) completed)
    (hc : c ∈ completed) :
    ∃ event ∈ problem.events, OccursIn context event ∧ Completes context event c := by
  have hsource : ∃ event ∈ problem.events.filter (fun event => OccursIn context event),
      Completes context event c := by
    generalize problem.events.filter _ = l at h ⊢
    induction h with
    | nil => cases hc
    | cons hp _ ih =>
        rcases List.mem_cons.mp hc with rfl | hc
        · exact ⟨_, List.mem_cons_self, hp⟩
        · obtain ⟨event, hevent, hcompletes⟩ := ih hc
          exact ⟨event, List.mem_cons_of_mem _ hevent, hcompletes⟩
  obtain ⟨event, hevent, hcompletes⟩ := hsource
  obtain ⟨hmem, hoccurs⟩ := List.mem_filter.mp hevent
  exact ⟨event, hmem, by simpa using hoccurs, hcompletes⟩

theorem ids_of_completes {l r : List EventInstance} (h : List.Forall₂ (Completes context) l r) :
    r.map EventInstance.id = l.map EventInstance.id := by
  induction h with
  | nil => rfl
  | cons hp _ ih => rw [List.map_cons, List.map_cons, hp.id, ih]

section CompletedTrace

variable {completed : Trace}

/-- A constraint over occurring events holds on the completed trace when it
holds over the values of the attributes. -/
theorem holds_traceContext_iff (hbuilt : WellBuilt problem)
    (hevents : context.events = problem.eventMap)
    (hcompleted : List.Forall₂ (Completes context)
      (problem.events.filter (fun event => OccursIn context event)) completed.events)
    {e : Expr} (hreferences : ∀ ref ∈ e.eventFields,
      ∃ event ∈ problem.events, event.id = ref.1 ∧ OccursIn context event) :
    (traceContext context completed).Holds e ↔ HoldsOnValues context e := by
  have hattribute : ∀ ref ∈ e.eventFields,
      (traceContext context completed).eventAttribute ref.1 ref.2.1 =
        attributeValue context ref.1 ref.2.1 := by
    intro ref href
    obtain ⟨event, hevent, hid, hoccurs⟩ := hreferences ref href
    obtain ⟨c, hc, hcompletes⟩ := completes_of_mem hcompleted hevent hoccurs
    rw [← hid]
    exact eventAttribute_traceContext hbuilt hevents hevent hc hoccurs hcompletes ref.2.1
  constructor
  · intro h
    exact evaluateWith_congr (fun ref href r hr => by rwa [← hattribute ref href]) h
  · intro h
    exact evaluateWith_congr (fun ref href r hr => by rwa [hattribute ref href]) h

/-! ## Validation of the completed trace -/

theorem keys_of_completes {event c : EventInstance} (h : Completes context event c) :
    c.fields.keys = event.fields.keys := forall₂_keys h.fields

theorem validateAgainst_completed {catalog : EventCatalog} {event c : EventInstance}
    (hschema : event.HasSchema catalog) (h : Completes context event c) {eventType : EventType}
    (htype : catalog.resolve event.eventType = .ok eventType) :
    c.validateAgainst eventType false = .ok () ↔
      ∀ p ∈ event.fields.entries, ∀ spec, eventType.field? p.1 = some spec →
        ∃ v, context.evaluateTerm p.2 = .ok (some v) ∧ spec.sort.acceptsLiteral v = true := by
  obtain ⟨t, ht, hunknown, hmissing⟩ := hschema
  rw [htype] at ht
  cases ht
  rw [EventInstance.unknownFields_eq_nil] at hunknown
  have hname : c.eventType = eventType.name := by
    rw [h.eventType, EventCatalog.name_of_resolve htype]
  have hunknown' : c.unknownFields eventType = [] := by
    rw [EventInstance.unknownFields_eq_nil, keys_of_completes h]
    exact hunknown
  have hmissing' : c.missingFields eventType = [] := by
    rw [EventInstance.missingFields_eq_nil, keys_of_completes h]
    exact EventInstance.missingFields_eq_nil.mp hmissing
  have hreduce : c.validateAgainst eventType false = .ok () ↔
      ∀ q ∈ c.fields.entries, c.validateField eventType q.1 q.2 = .ok () := by
    rw [EventInstance.validateAgainst]
    simp only [hname, hunknown', hmissing', Except.require, if_true, or_true, ok_bind]
    exact forM_eq_ok
  rw [hreduce]
  have hknown : ∀ p ∈ event.fields.entries, (eventType.field? p.1).isSome = true :=
    fun p hp => hunknown p.1 (List.mem_map_of_mem hp)
  have hfields := h.fields
  revert hknown hfields
  generalize event.fields.entries = l
  generalize c.fields.entries = r
  intro hknown hfields
  induction hfields with
  | nil => simp
  | @cons p q _ _ hp _ ih =>
      obtain ⟨hfirst, hrest⟩ := List.forall_mem_cons.mp hknown
      rw [List.forall_mem_cons, List.forall_mem_cons]
      refine and_congr ?_ (ih hrest)
      obtain ⟨hname', v, hvalue, hv⟩ := hp
      obtain ⟨spec, hspec⟩ := Option.isSome_iff_exists.mp hfirst
      rw [hname', hvalue, EventInstance.validateField]
      simp only [hspec, require_eq_ok, hv, Option.some.injEq, Except.ok.injEq]
      constructor
      · rintro haccepts _ rfl
        exact ⟨v, rfl, haccepts⟩
      · intro haccepts
        obtain ⟨w, rfl, haccepts⟩ := haccepts spec rfl
        exact haccepts

theorem validateReference_completed (hbuilt : WellBuilt problem)
    (hcompleted : List.Forall₂ (Completes context)
      (problem.events.filter (fun event => OccursIn context event)) completed.events)
    {c : Expr} (hc : c ∈ problem.sourceTrace.constraints) {ref : String × String × IrSort}
    (href : ref ∈ c.eventFields) :
    completed.validateReference problem.catalog ref = .ok () ↔
      ∃ event ∈ problem.events, event.id = ref.1 ∧ OccursIn context event := by
  rw [Trace.validateReference]
  constructor
  · intro h
    cases hfind : completed.find? ref.1 with
    | none => simp [hfind] at h
    | some c =>
        have hid : c.id = ref.1 := by simpa using List.find?_some hfind
        obtain ⟨event, hevent, hoccurs, hcompletes⟩ :=
          source_of_completed hcompleted (List.mem_of_find?_eq_some hfind)
        exact ⟨event, hevent, hcompletes.id.symm.trans hid, hoccurs⟩
  · rintro ⟨event, hevent, hid, hoccurs⟩
    obtain ⟨built, hmem, hbuiltId, expected, hexpected, hcompatible⟩ :=
      hbuilt.references c hc ref href
    have hsame : built = event :=
      List.inj_on_of_nodup_map hbuilt.nodup hmem hevent (hbuiltId.trans hid.symm)
    subst hsame
    obtain ⟨d, hd, hcompletes⟩ := completes_of_mem hcompleted hevent hoccurs
    have hfind : completed.find? ref.1 = some d := by
      rw [Trace.find?]
      obtain ⟨d', hfind⟩ := Option.isSome_iff_exists.mp (List.find?_isSome.mpr
        ⟨d, hd, by simpa using hcompletes.id.trans hid⟩ :
          (completed.events.find? (fun event => event.id = ref.1)).isSome = true)
      have hid' : d'.id = ref.1 := by simpa using List.find?_some hfind
      have hsame : d' = d := List.inj_on_of_nodup_map completed.nodup
        (List.mem_of_find?_eq_some hfind) hd (hid'.trans (hcompletes.id.trans hid).symm)
      rw [hfind, hsame]
    simp only [hfind]
    refine bind_eq_ok.mpr ⟨expected, ?_, require_eq_ok.mpr hcompatible⟩
    rw [expectedSort_congr hcompletes.id hcompletes.eventType]
    exact hexpected

/-- The completed trace is valid when the values are of their sorts and the
constraints mention only occurring events. -/
theorem validate_completed_iff (hbuilt : WellBuilt problem)
    (hcompleted : List.Forall₂ (Completes context)
      (problem.events.filter (fun event => OccursIn context event)) completed.events)
    (hconstraints : completed.constraints = problem.sourceTrace.constraints) :
    completed.validate problem.catalog false = .ok () ↔
      (∀ event ∈ problem.events, OccursIn context event →
        ∀ eventType, problem.catalog.resolve event.eventType = .ok eventType →
        ∀ p ∈ event.fields.entries, ∀ spec, eventType.field? p.1 = some spec →
          ∃ v, context.evaluateTerm p.2 = .ok (some v) ∧ spec.sort.acceptsLiteral v = true) ∧
      ∀ c ∈ problem.sourceTrace.constraints, ∀ ref ∈ c.eventFields,
        ∃ event ∈ problem.events, event.id = ref.1 ∧ OccursIn context event := by
  have hevents : problem.catalog.validateEvents completed.events false = .ok () ↔
      ∀ event ∈ problem.events, OccursIn context event →
        ∀ eventType, problem.catalog.resolve event.eventType = .ok eventType →
        ∀ p ∈ event.fields.entries, ∀ spec, eventType.field? p.1 = some spec →
          ∃ v, context.evaluateTerm p.2 = .ok (some v) ∧ spec.sort.acceptsLiteral v = true := by
    rw [EventCatalog.validateEvents, forM_eq_ok]
    constructor
    · intro h event hevent hoccurs eventType htype
      obtain ⟨c, hc, hcompletes⟩ := completes_of_mem hcompleted hevent hoccurs
      obtain ⟨t, ht, hvalid⟩ := bind_eq_ok.mp (h c hc)
      rw [hcompletes.eventType, htype] at ht
      cases ht
      exact (validateAgainst_completed (hbuilt.schema event hevent) hcompletes htype).mp hvalid
    · intro h c hc
      obtain ⟨event, hevent, hoccurs, hcompletes⟩ := source_of_completed hcompleted hc
      obtain ⟨eventType, htype, -, -⟩ := hbuilt.schema event hevent
      refine bind_eq_ok.mpr ⟨eventType, by rw [hcompletes.eventType]; exact htype, ?_⟩
      exact (validateAgainst_completed (hbuilt.schema event hevent) hcompletes htype).mpr
        (h event hevent hoccurs eventType htype)
  have hreferences : (completed.constraints.forM (fun constraint =>
      constraint.eventFields.forM (completed.validateReference problem.catalog))) = .ok () ↔
      ∀ c ∈ problem.sourceTrace.constraints, ∀ ref ∈ c.eventFields,
        ∃ event ∈ problem.events, event.id = ref.1 ∧ OccursIn context event := by
    rw [hconstraints, forM_eq_ok]
    refine forall_congr' (fun c => imp_congr_right (fun hc => ?_))
    rw [forM_eq_ok]
    refine forall_congr' (fun ref => imp_congr_right (fun href => ?_))
    exact validateReference_completed hbuilt hcompleted hc href
  rw [← hevents, ← hreferences, Trace.validate, bind_eq_ok]
  constructor
  · rintro ⟨_, h, h'⟩
    exact ⟨h, h'⟩
  · rintro ⟨h, h'⟩
    exact ⟨(), h, h'⟩

end CompletedTrace

/-! ## Active rules -/

theorem guardsHold_returns_iff {state : Option StateCheckResult}
    {predicates : List GuardPredicateInstance} :
    (∃ b, guardsHold context state predicates = .ok b) ↔
      ∀ s, state = some s → GuardsComparable context s predicates := by
  cases predicates with
  | nil => simp [guardsHold, GuardsComparable]
  | cons predicate rest =>
      cases state with
      | none => simp [guardsHold]
      | some s =>
          have hgeneral : ∀ l : List GuardPredicateInstance,
              (∃ b, statePredicatesHold context s l = .ok b) ↔ GuardsComparable context s l := by
            intro l
            induction l with
            | nil => simp [statePredicatesHold, GuardsComparable]
            | cons predicate rest ih =>
                rw [GuardsComparable, statePredicatesHold]
                cases hholds : statePredicateHolds context s predicate with
                | error e => simp
                | ok b =>
                    rw [ok_bind]
                    cases b with
                    | false => simp
                    | true => simpa using ih
          simpa [guardsHold] using hgeneral (predicate :: rest)

theorem activeTransformations_returns_iff {state : Option StateCheckResult} :
    (∃ active, activeTransformations context problem state = .ok active) ↔
      (∀ candidate ∈ problem.transformationActivations,
        context.Returns candidate.expression) ∧
      ∀ candidate ∈ problem.transformationActivations, context.Holds candidate.expression →
        ∀ s, state = some s → GuardsComparable context s candidate.statePredicates := by
  have hone : ∀ candidate, (∃ r, activeTransformation context state candidate = .ok r) ↔
      context.Returns candidate.expression ∧ (context.Holds candidate.expression →
        ∀ s, state = some s → GuardsComparable context s candidate.statePredicates) := by
    intro candidate
    rw [activeTransformation, EvaluationContext.Returns, EvaluationContext.Holds,
      ← guardsHold_returns_iff]
    cases heval : context.evaluate candidate.expression with
    | error e => simp
    | ok r =>
        have htrue : Except.ok r = (Except.ok (some (.bool true)) : Except PyError Result) ↔
            r.isTrue = true := by
          simp [Result.isTrue]
        rw [htrue, ok_bind]
        by_cases hr : r.isTrue = true
        · rw [if_pos hr]
          cases guardsHold context state candidate.statePredicates with
          | error e => simp [hr]
          | ok b => simp [hr, pure, Except.pure]
        · simp [hr, pure, Except.pure]
  rw [activeTransformations]
  constructor
  · rintro ⟨active, h⟩
    obtain ⟨results, hresults, -⟩ := bind_eq_ok.mp h
    refine ⟨fun candidate hc => ?_, fun candidate hc => ?_⟩
    · obtain ⟨r, -, hr⟩ := mapM_result hresults hc
      exact ((hone candidate).mp ⟨r, hr⟩).1
    · obtain ⟨r, -, hr⟩ := mapM_result hresults hc
      exact ((hone candidate).mp ⟨r, hr⟩).2
  · rintro ⟨hrules, hguards⟩
    obtain ⟨results, hresults⟩ := exists_mapM (fun candidate hc =>
      (hone candidate).mpr ⟨hrules candidate hc, hguards candidate hc⟩)
    exact ⟨_, bind_eq_ok.mpr ⟨results, hresults, rfl⟩⟩

/-! ## The completion -/

theorem exists_materialized
    (hoccurs : ∀ event ∈ problem.events, ∃ b,
      context.evaluateTerm event.occursTerm = .ok (some (.bool b)))
    (hcycles : ∀ event ∈ problem.events, OccursIn context event → event.hasCycle = true →
      ∃ n : Nat, context.evaluateTerm event.cycleTerm = .ok (some (.int n)))
    (hfields : ∀ event ∈ problem.events, OccursIn context event →
      ∀ p ∈ event.fields.entries, ∃ v, context.evaluateTerm p.2 = .ok (some v)) :
    ∃ results, problem.events.mapM (materializeEvent context) = .ok results := by
  refine exists_mapM (fun event hevent => ?_)
  obtain ⟨b, hb⟩ := hoccurs event hevent
  cases b with
  | false => exact ⟨none, materializeEvent_eq_none.mpr hb⟩
  | true =>
      have hcycle : ∃ cycle, cycleOf context event = .ok cycle := by
        by_cases hcycle : event.hasCycle = true
        · obtain ⟨n, hn⟩ := hcycles event hevent hb hcycle
          exact ⟨some n, cycleOf_eq_ok.mpr (Or.inr ⟨n, hcycle, rfl, hn⟩)⟩
        · exact ⟨none, cycleOf_eq_ok.mpr (Or.inl ⟨by simpa using hcycle, rfl⟩)⟩
      obtain ⟨cycle, hcycle⟩ := hcycle
      obtain ⟨fields, hfields⟩ := exists_fieldsOf (hfields event hevent hb)
      refine ⟨some (event.concretize fields cycle), ?_⟩
      rw [materializeEvent, occursOf_eq_ok.mpr hb, ok_bind, if_pos rfl, hcycle, ok_bind, hfields,
        ok_bind]
      rfl

theorem materializeTrace_eq_ok {completed : Trace} :
    materializeTrace context problem = .ok completed → ∃ results,
      problem.events.mapM (materializeEvent context) = .ok results ∧
        completed.events = results.filterMap id ∧
        completed.constraints = problem.sourceTrace.constraints := by
  intro h
  obtain ⟨results, hresults, h⟩ := bind_eq_ok.mp h
  rw [Trace.make] at h
  split at h
  · split at h
    · cases h
      exact ⟨results, hresults, rfl, rfl⟩
    · cases h
  · cases h

theorem exists_materializeTrace (hbuilt : WellBuilt problem)
    {results : List (Option EventInstance)}
    (h : problem.events.mapM (materializeEvent context) = .ok results) :
    ∃ completed, materializeTrace context problem = .ok completed := by
  have hnodup : ((results.filterMap id).map EventInstance.id).Nodup := by
    rw [ids_of_completes (materialized_events h)]
    exact hbuilt.nodup.sublist (List.filter_sublist.map _)
  rw [materializeTrace, h, ok_bind, Trace.make, dif_pos hnodup,
    dif_pos problem.sourceTrace.bool_constraints]
  exact ⟨_, rfl⟩

end Completion

open Completion in
theorem completeSat_iff {problem : BoundedProblem} {interpreter : Interpreter}
    (backend : String) {solved : FiniteSolveResult} (hbuilt : WellBuilt problem) :
    (∃ result, completeSat problem interpreter backend solved = .ok result ∧
      IsCompletion problem (problem.context interpreter solved.assignment) result) ↔
    Completable problem (problem.context interpreter solved.assignment) solved.stateResult := by
  set context := problem.context interpreter solved.assignment with hcontext
  have hevents : context.events = problem.eventMap := rfl
  constructor
  · rintro ⟨result, h, -, completed', hcompleted', hsame, -, -, hholds⟩
    obtain ⟨completed, hmaterialize, h⟩ := bind_eq_ok.mp h
    obtain ⟨_, hvalid, h⟩ := bind_eq_ok.mp h
    obtain ⟨active, hactive, h⟩ := bind_eq_ok.mp h
    cases h
    cases hcompleted'
    obtain ⟨results, hresults, heventsOf, hconstraints⟩ := materializeTrace_eq_ok hmaterialize
    have hforall := materialized_events hresults
    rw [← heventsOf] at hforall
    obtain ⟨hfields, hreferences⟩ := (validate_completed_iff hbuilt hforall hconstraints).mp hvalid
    obtain ⟨hrules, hguards⟩ := activeTransformations_returns_iff.mp ⟨active, hactive⟩
    refine ⟨?_, ?_, hfields, hreferences, ?_, hrules, hguards⟩
    · intro event hevent
      obtain ⟨r, -, hr⟩ := mapM_result hresults hevent
      cases r with
      | none => exact ⟨false, materializeEvent_eq_none.mp hr⟩
      | some c => exact ⟨true, (materializeEvent_eq_some hr).1⟩
    · intro event hevent hoccurs hcycle
      obtain ⟨c, -, hcompletes⟩ := completes_of_mem hforall hevent hoccurs
      rcases hcompletes.cycle with ⟨hnone, -⟩ | ⟨n, -, -, hn⟩
      · rw [hcycle] at hnone
        cases hnone
      · exact ⟨n, hn⟩
    · intro c hc
      refine (holds_traceContext_iff hbuilt hevents hforall (hreferences c hc)).mp ?_
      exact hholds c (by rwa [hconstraints])
  · intro h
    have hvalues : ∀ event ∈ problem.events, OccursIn context event →
        ∀ p ∈ event.fields.entries, ∃ v, context.evaluateTerm p.2 = .ok (some v) := by
      intro event hevent hoccurs p hp
      obtain ⟨eventType, htype, hunknown, -⟩ := hbuilt.schema event hevent
      obtain ⟨spec, hspec⟩ := Option.isSome_iff_exists.mp
        (EventInstance.unknownFields_eq_nil.mp hunknown p.1 (List.mem_map_of_mem hp))
      obtain ⟨v, hv, -⟩ := h.fields event hevent hoccurs eventType htype p hp spec hspec
      exact ⟨v, hv⟩
    obtain ⟨results, hresults⟩ := exists_materialized h.occurs h.cycles hvalues
    obtain ⟨completed, hmaterialize⟩ := exists_materializeTrace hbuilt hresults
    obtain ⟨results', hresults', heventsOf, hconstraints⟩ := materializeTrace_eq_ok hmaterialize
    have hforall := materialized_events hresults'
    rw [← heventsOf] at hforall
    have hvalid := (validate_completed_iff hbuilt hforall hconstraints).mpr
      ⟨h.fields, h.references⟩
    obtain ⟨active, hactive⟩ := activeTransformations_returns_iff.mpr ⟨h.rules, h.guards⟩
    have hresult : ∃ result, completeSat problem interpreter backend solved = .ok result ∧
        result.status = .feasible ∧ result.completedTrace = some completed := by
      rw [completeSat, hmaterialize, ok_bind, hvalid, ok_bind, hactive, ok_bind]
      exact ⟨_, rfl, rfl, rfl⟩
    obtain ⟨result, hok, hstatus, htrace⟩ := hresult
    refine ⟨result, hok, hstatus, completed, htrace, hforall, hconstraints, hvalid, ?_⟩
    intro c hc
    rw [hconstraints] at hc
    exact (holds_traceContext_iff hbuilt hevents hforall (h.references c hc)).mpr
      (h.constraints c hc)

open Completion in
/-- When a backend reports an assignment of a built problem, the problem is
completed to the trace of its occurring events exactly when the assignment is
completable. -/
theorem completed_iff (catalog : EventCatalog) (trace : Trace) (spec : CompletionSpec)
    (problem : BoundedProblem) (hbuild : buildProblem catalog trace spec = .ok problem)
    (interpreter : Interpreter) (backend : Backend) (solved : FiniteSolveResult)
    (hsolve : backend.solve problem interpreter = .ok solved) (hsat : solved.status = .sat) :
    (∃ result, completeProblem problem interpreter backend = .ok result ∧
      IsCompletion problem (problem.context interpreter solved.assignment) result) ↔
    Completable problem (problem.context interpreter solved.assignment) solved.stateResult := by
  rw [← completeSat_iff backend.name (wellBuilt_of_buildProblem hbuild),
    completeProblem, hsolve, ok_bind, hsat]

/-- The evaluator reads an attribute by evaluating it. -/
theorem attributeValue_of_eventAttribute {context : EvaluationContext} {id field : String}
    {r : Result} (h : context.eventAttribute id field = .ok r) :
    Completion.attributeValue context id field = .ok r := by
  unfold EvaluationContext.eventAttribute EvaluationContext.eventAttributeAt at h
  unfold Completion.attributeValue
  cases hget : context.events.get? id with
  | none =>
      rw [hget] at h
      cases h
  | some event =>
      rw [hget] at h
      dsimp only at h ⊢
      cases hterm : event.attribute? field with
      | none =>
          rw [hterm] at h
          exact h
      | some term =>
          rw [hterm] at h
          cases term with
          | value v => exact h
          | expr e =>
              exact evaluateWith_congr (fun _ _ _ => EvaluationContext.eventAttributeAt_succ) h

/-- The finite backend has checked the constraints of the source trace. -/
theorem holdsOnValues_of_solveFinite {problem : BoundedProblem} (hbuilt : WellBuilt problem)
    {interpreter : Interpreter} {nodeLimit : Nat} {solved : FiniteSolveResult}
    (h : solveFinite problem interpreter nodeLimit = .ok solved) (hsat : solved.status = .sat) :
    ∀ c ∈ problem.sourceTrace.constraints,
      Completion.HoldsOnValues (problem.context interpreter solved.assignment) c := by
  intro c hc
  obtain ⟨named, hnamed, rfl⟩ := hbuilt.constraints c hc
  exact evaluateWith_congr (fun _ _ _ => attributeValue_of_eventAttribute)
    (holds_of_solveFinite h hsat named hnamed)

/-! ## A constraint on an event that does not occur -/

def stallType : EventType := ⟨"LSU.Stall", [], by decide, List.nodup_nil⟩

/-- An event that may occur in cycle 0. -/
def stallEvent : EventInstance where
  id := "stall"
  eventType := "LSU.Stall"
  fields := .empty
  cycle := .concrete 0
  occurs := .symbolic (.symbol "stalled" .bool)
  id_ne := by decide
  eventType_ne := by decide
  cycle_sort := EventCycle.int_of_start
  occurs_sort := fun _ h => by cases h; rfl

def stallCatalog : EventCatalog := ⟨.ofList [("LSU.Stall", stallType)], by decide +kernel⟩

/-- The trace of the event, with the constraint that it does not occur. -/
def stallTrace : Trace where
  events := [stallEvent]
  constraints := [.unary .not (.eventField "stall" "occurs" .bool)]
  isPartial := true
  nodup := by decide
  bool_constraints := by simp [Expr.sort]; decide

def emptySpec : CompletionSpec where
  slots := []
  transformations := []
  stateVariables := []
  constraints := []
  horizon := 0
  slots_nodup := List.nodup_nil
  transformations_nodup := List.nodup_nil
  stateVariables_nodup := List.nodup_nil
  constraints_bool := Expr.bool_of_mem_nil

/-- The backend finds that the event does not occur, and the completed trace,
which lacks the event, is rejected for the constraint. -/
theorem stallTrace_not_completed :
    ∃ problem solved, buildProblem stallCatalog stallTrace emptySpec = .ok problem ∧
      Backend.solve (.finite 500000) problem .integers = .ok solved ∧ solved.status = .sat ∧
      ¬ ∃ result, completeProblem problem .integers (.finite 500000) = .ok result ∧
        Completion.IsCompletion problem (problem.context .integers solved.assignment) result := by
  refine ⟨_, _, rfl, rfl, rfl, ?_⟩
  rintro ⟨result, hresult, -⟩
  cases hresult

theorem stallTrace_completed_iff :
    ∃ (problem : BoundedProblem) (solved : FiniteSolveResult), buildProblem stallCatalog stallTrace emptySpec = .ok problem ∧
      ((∃ result, completeProblem problem .integers (.finite 500000) = .ok result ∧
        Completion.IsCompletion problem (problem.context .integers solved.assignment) result) ↔
      Completion.Completable problem (problem.context .integers solved.assignment)
        solved.stateResult) :=
  ⟨_, _, rfl, completed_iff stallCatalog stallTrace emptySpec _ rfl .integers (.finite 500000) _
    rfl rfl⟩

end Umcm
