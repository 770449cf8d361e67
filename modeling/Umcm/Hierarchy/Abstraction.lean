import Umcm.Hierarchy.Matching

/-!
# Abstraction of a trace

The rules of a specification emit their summary events, an event of the trace is
retained or hidden, and a constraint is kept when the output has all the ids it
refers to.

* `keepsSource_iff`: what the output keeps of the source, exactly when no
  constraint that is kept refers to an id that only a summary has.
-/

namespace Umcm

open Except

/-! ## Results -/

structure SummaryEvidence where
  rule : String
  outputEventId : String
  sourceEventIds : List String
deriving DecidableEq

structure AbstractionCertificate where
  abstraction : String
  sourceLevel : String
  targetLevel : String
  sourceTraceSha256 : String
  sourceEventCount : Nat
  outputEventCount : Nat
  retainedEventIds : List String
  hiddenEventIds : List String
  summaries : List SummaryEvidence
  preservedConstraintCount : Nat
  droppedConstraintCount : Nat

structure AbstractionResult where
  trace : AnnotatedTrace
  certificate : AbstractionCertificate

/-- What `str.format` raises: a `KeyError` with its name, or something else. -/
inductive FormatError where
  | missing (name : String)
  | other (e : PyError)

namespace Abstraction

/-! ## Concrete events -/

/-- The event as a concrete one, if it occurs. -/
def concreteEvent (event : AnnotatedEvent) : Except PyError (Option ConcreteEvent) :=
  if occurring : event.isOccurring = true then
    if concrete_cycle : event.hasSymbolicCycle = false then
      if concrete_fields : event.hasSymbolicFields = false then
        .ok (some { event with occurring, concrete_cycle, concrete_fields })
      else .error (.abstractionError s!"event {quoted event.id} has symbolic fields")
    else .error (.abstractionError s!"event {quoted event.id} has symbolic cycle")
  else .ok none

/-- `_concrete_events`. -/
def concreteEvents (trace : AnnotatedTrace) : Except PyError (List ConcreteEvent) := do
  let events ← trace.events.mapM concreteEvent
  return events.reduceOption

/-- An attribute table whose only key is `$expr` is not read back as it was written. -/
def expressionKey : String := "$expr"

/-- `_copy_event`: the event is written and read back. -/
def copyEvent (event : ConcreteEvent) : Except PyError AnnotatedEvent := do
  Except.require (event.fields.keys ≠ [expressionKey])
    (.serializationError "$expr payload must be a mapping")
  match event.annotations.keys, event.annotations.get? expressionKey with
  | [_], some (.plain _) => .error (.serializationError "$expr payload must be a mapping")
  | [_], some (.abstraction _ _ _ _) =>
    .error (.serializationError "unknown expression node: None")
  | _, _ => return event.toAnnotatedEvent

/-! ## Summary events -/

/-- `reference.split(".", 1)`. -/
def splitReference (reference : String) : String × String :=
  (String.ofList (reference.toList.takeWhile (· ≠ '.')),
    String.ofList (reference.toList.dropWhile (· ≠ '.')).tail)

/-- `_resolve_output_value`. -/
def resolveOutputValue (m : RuleMatch) : OutputValue → Except PyError Term
  | .literal t => .ok t
  | .var name _ =>
    match m.bindings.get? name with
    | some v => .ok (.value v)
    | none => .error (.abstractionError s!"summary output references unbound variable ${name}")
  | .field reference _ =>
    if '.' ∉ reference.toList then
      .error (.abstractionError
        s!"summary output field reference must be role.field, got {quoted reference}")
    else
      let (roleName, fieldName) := splitReference reference
      match m.role? roleName with
      | none => .error (.abstractionError
          s!"summary output references unknown role {quoted roleName}")
      | some event =>
        if fieldName = "cycle" then .ok event.cycleTerm
        else if fieldName = "id" then .ok (.value (.str event.id))
        else match event.fields.get? fieldName with
          | some t => .ok t
          | none => .error (.abstractionError
              s!"summary output references missing field {quoted reference}")

/-- `_summary_cycle`. -/
def summaryCycle (cycleFrom : String) (m : RuleMatch) : Except PyError (Option Nat) :=
  let concreteCycles := m.events.filterMap ConcreteEvent.cycle?
  if cycleFrom = "none" then .ok none
  else if cycleFrom = "first" then .ok concreteCycles.min?
  else if cycleFrom = "last" then .ok concreteCycles.max?
  else match m.role? cycleFrom with
    | some event => .ok event.cycle?
    | none => .error (.abstractionError
        s!"summary cycle_from references unknown role {quoted cycleFrom}")

section Summaries

variable (format : String → Dict String String → Except FormatError String)

/-- `_render_id`. -/
def renderId (template : String) (bindings : Dict String Value) (ruleName : String) :
    Except PyError String :=
  let values := Dict.ofList (bindings.entries.map (fun p => (p.1, p.2.pyStr)))
  match format template (values.insert "rule" ruleName) with
  | .error (.missing name) => .error (.abstractionError
      s!"summary id template references unbound variable {quoted name}")
  | .error (.other e) => .error e
  | .ok rendered =>
    if rendered = "" then .error (.abstractionError "summary id template produced an empty id")
    else .ok rendered

/-- The event that summarises a match. -/
def summaryEvent (specName : String) (rule : SummaryRuleSpec) (m : RuleMatch) (eventId : String) :
    Except PyError AnnotatedEvent := do
  let fields ← rule.output.fields.entries.mapM (fun p => do
    let t ← resolveOutputValue m p.2
    return (p.1, t))
  let record := EventAnnotation.abstraction specName rule.name m.sourceIds
    (m.events.map (fun event => event.eventType))
  let cycle ← summaryCycle rule.output.cycleFrom m
  let cycleTerm := match cycle with
    | some n => Term.value (.int n)
    | none => .value .none
  let event ← EventInstance.create eventId rule.output.eventType (.ofList fields) cycleTerm
    (.value (.bool true))
  return { event with annotations := rule.output.annotations.insert "abstraction" record }

/-- What the rules have emitted so far. Of the two sets only membership matters. -/
structure Progress where
  generated : List AnnotatedEvent
  evidence : List SummaryEvidence
  sourceIdsToHide : List String
  outputIds : List String

def Progress.start : Progress := ⟨[], [], [], []⟩

/-- Likewise while the matches of one rule are visited. -/
structure RuleProgress extends Progress where
  matchCount : Nat
  seenSources : List (List String)

/-- One match of a rule. -/
def applyMatch (catalog : EventCatalog) (specName : String) (rule : SummaryRuleSpec)
    (progress : RuleProgress) (m : RuleMatch) : Except PyError RuleProgress :=
  if m.sourceIds ∈ progress.seenSources then .ok progress
  else do
    let matchCount := progress.matchCount + 1
    Except.require (matchCount ≤ rule.maxMatches) (.abstractionError
      s!"summary rule {quoted rule.name} exceeds max_matches={rule.maxMatches}")
    let eventId ← renderId format rule.output.idTemplate m.bindings rule.name
    Except.require (eventId ∉ progress.outputIds)
      (.abstractionError s!"duplicate abstract event id: {eventId}")
    let summary ← summaryEvent specName rule m eventId
    let eventType ← catalog.resolve summary.eventType
    summary.validateAgainst eventType false
    return { generated := progress.generated ++ [summary]
             evidence := progress.evidence ++ [⟨rule.name, eventId, m.sourceIds⟩]
             sourceIdsToHide :=
               if rule.hideSources then progress.sourceIdsToHide ++ m.sourceIds
               else progress.sourceIdsToHide
             outputIds := progress.outputIds ++ [eventId]
             matchCount
             seenSources := progress.seenSources ++ [m.sourceIds] }

/-- All matches of a rule. -/
def applyRule (catalog : EventCatalog) (specName : String) (events : List ConcreteEvent)
    (progress : Progress) (rule : SummaryRuleSpec) : Except PyError Progress := do
  let ruleProgress ← (iterRuleMatches events rule).foldlM
    (applyMatch format catalog specName rule) ⟨progress, 0, []⟩
  Except.require (rule.minMatches ≤ ruleProgress.matchCount) (.abstractionError
    s!"summary rule {quoted rule.name} produced {ruleProgress.matchCount} match(es), requires at least {rule.minMatches}")
  return ruleProgress.toProgress

end Summaries

/-! ## Retained events -/

def explicitlyRetained (catalog : VisibleCatalog) (retain : RetainSpec) (event : EventInstance) :
    Bool :=
  event.id ∈ retain.eventIds || event.eventType ∈ retain.eventTypes ||
    (catalog.visibility event.eventType).value ∈ retain.visibilities

/-- Whether the event stays, if `hidden` says that a rule hides it. -/
def keeps (catalog : VisibleCatalog) (spec : AbstractionSpec) (hidden : Bool)
    (event : EventInstance) : Bool :=
  let explicitly := explicitlyRetained catalog spec.retain event
  if hidden && !explicitly then false else spec.defaultAction = .keep || explicitly

structure Retention where
  retained : List AnnotatedEvent
  retainedIds : List String
  outputIds : List String

/-- One event of the source. -/
def retainEvent (catalog : VisibleCatalog) (spec : AbstractionSpec) (sourceIdsToHide : List String)
    (retention : Retention) (event : ConcreteEvent) : Except PyError Retention := do
  let _ ← catalog.resolve event.eventType
  if keeps catalog spec (event.id ∈ sourceIdsToHide) event.toEventInstance then do
    Except.require (event.id ∉ retention.outputIds)
      (.abstractionError s!"abstract event id collides with source: {event.id}")
    let copy ← copyEvent event
    return { retained := retention.retained ++ [copy]
             retainedIds := retention.retainedIds ++ [event.id]
             outputIds := retention.outputIds ++ [event.id] }
  else return retention

/-- `sorted(events, key=_event_sort_key)`. -/
def sortEvents (events : List AnnotatedEvent) : List AnnotatedEvent :=
  events.insertionSort (fun a b => eventSortKey a.toEventInstance ≤ eventSortKey b.toEventInstance)

/-- The constraints of the source whose references are all among the ids. -/
def preservedConstraints (constraints : List Expr) (ids : List String) : List Expr :=
  constraints.filter (fun c => c.eventFields.all (fun r => r.1 ∈ ids))

end Abstraction

open Abstraction

/-- `abstract_trace`; `format` is `str.format` and `digest` the digest of the trace as JSON. -/
def abstractTrace (catalog : VisibleCatalog)
    (format : String → Dict String String → Except FormatError String)
    (digest : AnnotatedTrace → String) (trace : AnnotatedTrace) (spec : AbstractionSpec) :
    Except PyError AbstractionResult := do
  trace.validate catalog.toEventCatalog false
  let events ← concreteEvents trace
  let progress ← spec.summaries.foldlM
    (applyRule format catalog.toEventCatalog spec.name events) .start
  let retention ← events.foldlM (retainEvent catalog spec progress.sourceIdsToHide)
    ⟨[], [], progress.outputIds⟩
  let outputEvents := sortEvents (retention.retained ++ progress.generated)
  let preserved := preservedConstraints trace.constraints
    (outputEvents.map (fun event => event.id))
  let hiddenIds := (events.map (fun event => event.id)).filter (· ∉ retention.retainedIds)
  let output ← AnnotatedTrace.make outputEvents preserved false
  output.validate catalog.toEventCatalog false
  return { trace := output
           certificate :=
             { abstraction := spec.name
               sourceLevel := spec.sourceLevel
               targetLevel := spec.targetLevel
               sourceTraceSha256 := digest trace
               sourceEventCount := events.length
               outputEventCount := outputEvents.length
               retainedEventIds := sortedList retention.retainedIds.toFinset
               hiddenEventIds := hiddenIds.insertionSort (· ≤ ·)
               summaries := progress.evidence.insertionSort
                 (fun a b => a.outputEventId ≤ b.outputEventId)
               preservedConstraintCount := preserved.length
               droppedConstraintCount := trace.constraints.length - preserved.length } }

/-! ## Concrete events of a trace -/

namespace Abstraction

theorem concreteEvent_eq_ok {event : AnnotatedEvent} {o : Option ConcreteEvent}
    (h : concreteEvent event = .ok o) :
    (event.isOccurring = false ∧ o = none) ∨
      ∃ c : ConcreteEvent, o = some c ∧ c.toAnnotatedEvent = event := by
  unfold concreteEvent at h
  split at h
  · split at h
    · split at h
      · cases h
        exact .inr ⟨_, rfl, rfl⟩
      · cases h
    · cases h
  · rename_i hoccurring
    cases h
    exact .inl ⟨by simpa using hoccurring, rfl⟩

theorem map_reduceOption {l : List AnnotatedEvent} {options : List (Option ConcreteEvent)}
    (h : l.mapM concreteEvent = .ok options) :
    options.reduceOption.map ConcreteEvent.toAnnotatedEvent =
      l.filter (fun event => event.isOccurring) := by
  rw [mapM_eq_ok] at h
  induction h with
  | nil => rfl
  | @cons event o rest options hevent _ ih =>
      rcases concreteEvent_eq_ok hevent with ⟨hoccurring, rfl⟩ | ⟨c, rfl, rfl⟩
      · rw [List.reduceOption_cons_of_none, List.filter_cons_of_neg (by simp [hoccurring]), ih]
      · rw [List.reduceOption_cons_of_some, List.filter_cons_of_pos (by simp [c.occurring]),
          List.map_cons, ih]

theorem concreteEvents_eq_ok {trace : AnnotatedTrace} {events : List ConcreteEvent}
    (h : concreteEvents trace = .ok events) :
    events.map ConcreteEvent.toAnnotatedEvent =
      trace.events.filter (fun event => event.isOccurring) := by
  obtain ⟨options, hoptions, h⟩ := bind_eq_ok.mp h
  cases h
  exact map_reduceOption hoptions

theorem mem_concreteEvents {trace : AnnotatedTrace} {events : List ConcreteEvent}
    (h : concreteEvents trace = .ok events) {event : AnnotatedEvent} :
    (∃ c ∈ events, c.toAnnotatedEvent = event) ↔ event ∈ trace.events ∧ event.isOccurring = true := by
  rw [← List.mem_map, concreteEvents_eq_ok h, List.mem_filter]

/-- The concrete events have distinct ids. -/
theorem nodup_concreteEvents {trace : AnnotatedTrace} {events : List ConcreteEvent}
    (h : concreteEvents trace = .ok events) : (events.map (fun event => event.id)).Nodup := by
  have hids : events.map (fun event => event.id) =
      (trace.events.filter (fun event => event.isOccurring)).map (fun event => event.id) := by
    rw [← concreteEvents_eq_ok h, List.map_map]
    rfl
  have hnodup : (trace.events.map (fun event => event.id)).Nodup := by
    have := trace.nodup
    rwa [List.map_map] at this
  rw [hids]
  exact hnodup.sublist (List.filter_sublist.map _)

/-- Lists of elements with distinct names are equal when their names are. -/
theorem eq_of_map_eq {α β : Type*} {f : α → β} {pool l l' : List α} (hnodup : (pool.map f).Nodup)
    (hl : ∀ a ∈ l, a ∈ pool) (hl' : ∀ a ∈ l', a ∈ pool) (h : l.map f = l'.map f) : l = l' := by
  induction l generalizing l' with
  | nil => exact (List.map_eq_nil_iff.mp h.symm).symm
  | cons a l ih =>
      rcases l' with _ | ⟨a', l'⟩
      · cases h
      · rw [List.map_cons, List.map_cons, List.cons.injEq] at h
        obtain ⟨ha, hl⟩ := List.forall_mem_cons.mp hl
        obtain ⟨ha', hl'⟩ := List.forall_mem_cons.mp hl'
        rw [List.inj_on_of_nodup_map hnodup ha ha' h.1, ih hl hl' h.2]

/-- A match is determined by the ids of its events. -/
theorem eq_of_sourceIds {events : List ConcreteEvent}
    (hnodup : (events.map (fun event => event.id)).Nodup) {rule : SummaryRuleSpec}
    {m m' : RuleMatch} (hm : m ∈ iterRuleMatches events rule)
    (hm' : m' ∈ iterRuleMatches events rule) (h : m.sourceIds = m'.sourceIds) : m = m' := by
  obtain ⟨hselected, hcontinues, hbindings⟩ := mem_iterRuleMatches.mp hm
  obtain ⟨hselected', hcontinues', hbindings'⟩ := mem_iterRuleMatches.mp hm'
  have hevents : m.events = m'.events := by
    have hlisted : ∀ event ∈ m.events, event ∈ events := fun event hevent => by
      obtain ⟨_, -, hlisted, -⟩ := exists_left_of_forall₂ hcontinues.listed hevent
      exact hlisted
    have hlisted' : ∀ event ∈ m'.events, event ∈ events := fun event hevent => by
      obtain ⟨_, -, hlisted, -⟩ := exists_left_of_forall₂ hcontinues'.listed hevent
      exact hlisted
    exact eq_of_map_eq hnodup hlisted hlisted' h
  rcases m with ⟨selected, bindings⟩
  rcases m' with ⟨selected', bindings'⟩
  rw [hevents] at hselected hbindings
  rw [RuleMatch.mk.injEq]
  exact ⟨hselected.trans hselected'.symm, Option.some.inj (hbindings.symm.trans hbindings')⟩

end Abstraction

/-! ## What the rules emit -/

section Emitted

variable (format : String → Dict String String → Except FormatError String)

/-- A rule gives the id to the summary of one of its matches. -/
def IsSummaryId (spec : AbstractionSpec) (events : List ConcreteEvent) (id : String) : Prop :=
  ∃ rule ∈ spec.summaries, ∃ m ∈ iterRuleMatches events rule,
    Abstraction.renderId format rule.output.idTemplate m.bindings rule.name = .ok id

end Emitted

/-- A rule hides the event as a source of one of its matches. -/
def IsHiddenSource (spec : AbstractionSpec) (events : List ConcreteEvent) (id : String) : Prop :=
  ∃ rule ∈ spec.summaries, rule.hideSources = true ∧
    ∃ m ∈ iterRuleMatches events rule, id ∈ m.sourceIds

namespace Abstraction

section Rules

variable {format : String → Dict String String → Except FormatError String}
  {catalog : EventCatalog} {specName : String} {rule : SummaryRuleSpec}

theorem summaryEvent_id {m : RuleMatch} {eventId : String} {summary : AnnotatedEvent}
    (h : summaryEvent specName rule m eventId = .ok summary) : summary.id = eventId := by
  obtain ⟨fields, -, h⟩ := bind_eq_ok.mp h
  obtain ⟨cycle, -, h⟩ := bind_eq_ok.mp h
  obtain ⟨event, hevent, h⟩ := bind_eq_ok.mp h
  cases h
  exact (EventInstance.create_eq_ok hevent).1

/-- What a match adds: nothing, if its sources have been seen, or one summary event. -/
theorem applyMatch_eq_ok {progress progress' : RuleProgress} {m : RuleMatch}
    (h : applyMatch format catalog specName rule progress m = .ok progress') :
    (m.sourceIds ∈ progress.seenSources ∧ progress' = progress) ∨
      ∃ eventId summary, renderId format rule.output.idTemplate m.bindings rule.name = .ok eventId ∧
        eventId ∉ progress.outputIds ∧ summary.id = eventId ∧
        progress'.generated = progress.generated ++ [summary] ∧
        progress'.sourceIdsToHide = (if rule.hideSources then progress.sourceIdsToHide ++ m.sourceIds
          else progress.sourceIdsToHide) ∧
        progress'.outputIds = progress.outputIds ++ [eventId] ∧
        progress'.seenSources = progress.seenSources ++ [m.sourceIds] := by
  unfold applyMatch at h
  by_cases hseen : m.sourceIds ∈ progress.seenSources
  · rw [if_pos hseen] at h
    cases h
    exact .inl ⟨hseen, rfl⟩
  · rw [if_neg hseen] at h
    obtain ⟨_, -, h⟩ := bind_eq_ok.mp h
    obtain ⟨eventId, hid, h⟩ := bind_eq_ok.mp h
    obtain ⟨_, hnew, h⟩ := bind_eq_ok.mp h
    obtain ⟨summary, hsummary, h⟩ := bind_eq_ok.mp h
    obtain ⟨eventType, -, h⟩ := bind_eq_ok.mp h
    obtain ⟨_, -, h⟩ := bind_eq_ok.mp h
    cases h
    exact .inr ⟨eventId, summary, hid, require_eq_ok.mp hnew, summaryEvent_id hsummary,
      rfl, rfl, rfl, rfl⟩

/-- What has been emitted, if `Summary` says which ids the matches so far have given and
`Hidden` which events they hide. -/
structure Emitted (Summary Hidden : String → Prop) (progress : Progress) : Prop where
  generated : progress.generated.map (fun event => event.id) = progress.outputIds
  nodup : progress.outputIds.Nodup
  outputIds : ∀ id, id ∈ progress.outputIds ↔ Summary id
  hidden : ∀ id, id ∈ progress.sourceIdsToHide ↔ Hidden id

/-- The ids that the matches of a rule give. -/
def GivenBy (format : String → Dict String String → Except FormatError String)
    (rule : SummaryRuleSpec) (done : List RuleMatch) (id : String) : Prop :=
  ∃ m ∈ done, renderId format rule.output.idTemplate m.bindings rule.name = .ok id

/-- The ids that the matches of a rule hide. -/
def HiddenBy (rule : SummaryRuleSpec) (done : List RuleMatch) (id : String) : Prop :=
  rule.hideSources = true ∧ ∃ m ∈ done, id ∈ m.sourceIds

theorem givenBy_concat {done : List RuleMatch} {m : RuleMatch} {id : String} :
    GivenBy format rule (done ++ [m]) id ↔ GivenBy format rule done id ∨
      renderId format rule.output.idTemplate m.bindings rule.name = .ok id := by
  simp only [GivenBy, List.mem_append, List.mem_singleton, or_and_right, exists_or,
    exists_eq_left]

theorem hiddenBy_concat {done : List RuleMatch} {m : RuleMatch} {id : String} :
    HiddenBy rule (done ++ [m]) id ↔
      HiddenBy rule done id ∨ (rule.hideSources = true ∧ id ∈ m.sourceIds) := by
  simp only [HiddenBy, List.mem_append, List.mem_singleton, or_and_right, exists_or,
    exists_eq_left, and_or_left]

/-- One match, after the matches `done` of its rule. -/
theorem emitted_applyMatch {Summary Hidden : String → Prop} {done : List RuleMatch}
    {progress progress' : RuleProgress} {m : RuleMatch}
    (hemitted : Emitted (fun id => Summary id ∨ GivenBy format rule done id)
      (fun id => Hidden id ∨ HiddenBy rule done id) progress.toProgress)
    (hseen : ∀ s, s ∈ progress.seenSources ↔ ∃ m' ∈ done, m'.sourceIds = s)
    (hunique : ∀ m' ∈ done, m'.sourceIds = m.sourceIds → m' = m)
    (h : applyMatch format catalog specName rule progress m = .ok progress') :
    Emitted (fun id => Summary id ∨ GivenBy format rule (done ++ [m]) id)
        (fun id => Hidden id ∨ HiddenBy rule (done ++ [m]) id) progress'.toProgress ∧
      ∀ s, s ∈ progress'.seenSources ↔ ∃ m' ∈ done ++ [m], m'.sourceIds = s := by
  rcases applyMatch_eq_ok h with ⟨hmem, rfl⟩ | ⟨eventId, summary, hrender, hnew, hid, hgenerated,
    hhide, houtput, hsources⟩
  · -- the match has been visited before
    obtain ⟨m', hm', heq⟩ := (hseen _).mp hmem
    obtain rfl := hunique m' hm' heq
    have hmem : ∀ x, x ∈ done ++ [m'] ↔ x ∈ done := by
      intro x
      rw [List.mem_append, List.mem_singleton, or_iff_left_iff_imp]
      rintro rfl
      exact hm'
    refine ⟨⟨hemitted.generated, hemitted.nodup, fun id => ?_, fun id => ?_⟩, fun s => ?_⟩
    · rw [hemitted.outputIds]
      simp only [GivenBy, hmem]
    · rw [hemitted.hidden]
      simp only [HiddenBy, hmem]
    · rw [hseen]
      simp only [hmem]
  · refine ⟨⟨?_, ?_, fun id => ?_, fun id => ?_⟩, fun s => ?_⟩
    · rw [hgenerated, houtput, List.map_append, hemitted.generated, ← hid]
      rfl
    · rw [houtput, List.nodup_append]
      refine ⟨hemitted.nodup, List.nodup_singleton _, fun a ha b hb => ?_⟩
      rw [List.mem_singleton] at hb
      rintro rfl
      exact hnew (hb ▸ ha)
    · rw [houtput, List.mem_append, hemitted.outputIds, givenBy_concat, hrender, or_assoc,
        List.mem_singleton, Except.ok.injEq, eq_comm]
    · rw [hhide, hiddenBy_concat]
      cases hrule : rule.hideSources with
      | true => simp [List.mem_append, hemitted.hidden, or_assoc]
      | false => simp [hemitted.hidden]
    · have hcomm : s = m.sourceIds ↔ m.sourceIds = s := eq_comm
      simp only [hsources, List.mem_append, hseen, List.mem_singleton, or_and_right, exists_or,
        exists_eq_left, hcomm]

theorem emitted_applyRule {Summary Hidden : String → Prop} {events : List ConcreteEvent}
    (hnodup : (events.map (fun event => event.id)).Nodup) {progress progress' : Progress}
    (hemitted : Emitted Summary Hidden progress)
    (h : applyRule format catalog specName events progress rule = .ok progress') :
    Emitted (fun id => Summary id ∨ GivenBy format rule (iterRuleMatches events rule) id)
      (fun id => Hidden id ∨ HiddenBy rule (iterRuleMatches events rule) id) progress' := by
  obtain ⟨ruleProgress, hfold, h⟩ := bind_eq_ok.mp h
  obtain ⟨_, -, h⟩ := bind_eq_ok.mp h
  cases h
  -- the matches visited so far are among the matches of the rule
  have hrun := foldlM_invariant (fun done st => (∀ m ∈ done, m ∈ iterRuleMatches events rule) →
    Emitted (fun id => Summary id ∨ GivenBy format rule done id)
        (fun id => Hidden id ∨ HiddenBy rule done id) st.toProgress ∧
      ∀ s, s ∈ st.seenSources ↔ ∃ m' ∈ done, m'.sourceIds = s)
    (fun done m st st' ih hstep hlisted => by
      have hm : m ∈ iterRuleMatches events rule := hlisted m (by simp)
      have hdone : ∀ m' ∈ done, m' ∈ iterRuleMatches events rule :=
        fun m' hm' => hlisted m' (List.mem_append_left _ hm')
      obtain ⟨hemitted, hseen⟩ := ih hdone
      exact emitted_applyMatch hemitted hseen
        (fun m' hm' heq => eq_of_sourceIds hnodup (hdone m' hm') hm heq) hstep)
    (fun _ => ⟨by simpa [GivenBy, HiddenBy] using hemitted, by simp⟩) hfold
  exact (hrun (fun _ hm => hm)).1

/-- What all rules of a specification emit. -/
theorem emitted_summaries {events : List ConcreteEvent}
    (hnodup : (events.map (fun event => event.id)).Nodup) {spec : AbstractionSpec}
    {progress : Progress}
    (h : spec.summaries.foldlM (applyRule format catalog spec.name events) .start = .ok progress) :
    Emitted (IsSummaryId format spec events) (IsHiddenSource spec events) progress := by
  have hrun := foldlM_invariant (fun done st =>
    Emitted (fun id => ∃ rule ∈ done, GivenBy format rule (iterRuleMatches events rule) id)
      (fun id => ∃ rule ∈ done, HiddenBy rule (iterRuleMatches events rule) id) st)
    (fun done rule st st' ih hstep => by
      have hnext := emitted_applyRule hnodup ih hstep
      simpa only [List.mem_append, List.mem_singleton, or_and_right, exists_or, exists_eq_left]
        using hnext)
    ⟨rfl, List.nodup_nil, by simp [Progress.start], by simp [Progress.start]⟩ h
  exact hrun

end Rules

end Abstraction

/-! ## Which events stay -/

/-- An event of the source stays: it is retained explicitly, or by default and no rule
hides it. -/
def IsKept (catalog : VisibleCatalog) (spec : AbstractionSpec) (events : List ConcreteEvent)
    (event : ConcreteEvent) : Prop :=
  Abstraction.explicitlyRetained catalog spec.retain event.toEventInstance = true ∨
    (spec.defaultAction = .keep ∧ ¬ IsHiddenSource spec events event.id)

/-- The id of an event that stays. -/
def IsKeptId (catalog : VisibleCatalog) (spec : AbstractionSpec) (events : List ConcreteEvent)
    (id : String) : Prop :=
  ∃ event ∈ events, IsKept catalog spec events event ∧ event.id = id

namespace Abstraction

section Retained

variable {catalog : VisibleCatalog} {spec : AbstractionSpec} {hide : List String}

theorem keeps_iff {events : List ConcreteEvent} {event : ConcreteEvent}
    (hhide : event.id ∈ hide ↔ IsHiddenSource spec events event.id) :
    keeps catalog spec (event.id ∈ hide) event.toEventInstance = true ↔
      IsKept catalog spec events event := by
  unfold keeps IsKept
  rw [← hhide]
  by_cases hmem : event.id ∈ hide
  · cases explicitlyRetained catalog spec.retain event.toEventInstance <;> simp [hmem]
  · cases explicitlyRetained catalog spec.retain event.toEventInstance <;> simp [hmem]

theorem copyEvent_eq_ok {event : ConcreteEvent} {copy : AnnotatedEvent}
    (h : copyEvent event = .ok copy) : copy = event.toAnnotatedEvent := by
  obtain ⟨_, -, h⟩ := bind_eq_ok.mp h
  split at h
  · cases h
  · cases h
  · cases h
    rfl

/-- The events that stay, of those visited so far. -/
def kept (catalog : VisibleCatalog) (spec : AbstractionSpec) (hide : List String)
    (events : List ConcreteEvent) : List ConcreteEvent :=
  events.filter (fun event => keeps catalog spec (event.id ∈ hide) event.toEventInstance)

/-- What the loop has after the events `done`. -/
structure Retained (catalog : VisibleCatalog) (spec : AbstractionSpec) (hide outputIds : List String)
    (done : List ConcreteEvent) (retention : Retention) : Prop where
  retained : retention.retained = (kept catalog spec hide done).map ConcreteEvent.toAnnotatedEvent
  retainedIds : retention.retainedIds = (kept catalog spec hide done).map (fun event => event.id)
  outputIds : retention.outputIds = outputIds ++ retention.retainedIds

theorem retainEvent_eq_ok {retention retention' : Retention} {event : ConcreteEvent}
    (h : retainEvent catalog spec hide retention event = .ok retention') :
    (keeps catalog spec (event.id ∈ hide) event.toEventInstance = false ∧ retention' = retention) ∨
      (keeps catalog spec (event.id ∈ hide) event.toEventInstance = true ∧
        event.id ∉ retention.outputIds ∧
        retention' = ⟨retention.retained ++ [event.toAnnotatedEvent],
          retention.retainedIds ++ [event.id], retention.outputIds ++ [event.id]⟩) := by
  obtain ⟨_, -, h⟩ := bind_eq_ok.mp h
  by_cases hkeeps : keeps catalog spec (event.id ∈ hide) event.toEventInstance = true
  · rw [if_pos hkeeps] at h
    obtain ⟨_, hnew, h⟩ := bind_eq_ok.mp h
    obtain ⟨copy, hcopy, h⟩ := bind_eq_ok.mp h
    cases h
    rw [copyEvent_eq_ok hcopy]
    exact .inr ⟨hkeeps, require_eq_ok.mp hnew, rfl⟩
  · rw [if_neg hkeeps] at h
    cases h
    exact .inl ⟨by simpa using hkeeps, rfl⟩

theorem retained_foldlM {outputIds : List String} {events : List ConcreteEvent}
    {retention : Retention} (h : events.foldlM (retainEvent catalog spec hide)
      ⟨[], [], outputIds⟩ = .ok retention) :
    Retained catalog spec hide outputIds events retention ∧
      ∀ id ∈ retention.retainedIds, id ∉ outputIds := by
  refine foldlM_invariant (fun done retention =>
    Retained catalog spec hide outputIds done retention ∧
      ∀ id ∈ retention.retainedIds, id ∉ outputIds)
    (fun done event retention retention' ih hstep => ?_)
    ⟨⟨rfl, rfl, by simp⟩, by simp⟩ h
  obtain ⟨hretained, hnew⟩ := ih
  rcases retainEvent_eq_ok hstep with ⟨hkeeps, rfl⟩ | ⟨hkeeps, hid, rfl⟩
  · have hdone : kept catalog spec hide (done ++ [event]) = kept catalog spec hide done := by
      simp [kept, hkeeps]
    exact ⟨⟨by rw [hretained.retained, hdone], by rw [hretained.retainedIds, hdone],
      hretained.outputIds⟩, hnew⟩
  · have hdone : kept catalog spec hide (done ++ [event]) = kept catalog spec hide done ++ [event] := by
      simp [kept, hkeeps]
    refine ⟨⟨?_, ?_, ?_⟩, fun id hmem => ?_⟩
    · rw [hretained.retained, hdone, List.map_append]
      rfl
    · rw [hretained.retainedIds, hdone, List.map_append]
      rfl
    · rw [hretained.outputIds, List.append_assoc]
    · rcases List.mem_append.mp hmem with hmem | hmem
      · exact hnew id hmem
      · rw [List.mem_singleton] at hmem
        rw [hmem]
        rw [hretained.outputIds] at hid
        exact fun hout => hid (List.mem_append_left _ hout)

end Retained

theorem sortEvents_perm (events : List AnnotatedEvent) : (sortEvents events).Perm events :=
  List.perm_insertionSort _ _

theorem make_eq_ok {events : List AnnotatedEvent} {constraints : List Expr} {isPartial : Bool}
    {trace : AnnotatedTrace} (h : AnnotatedTrace.make events constraints isPartial = .ok trace) :
    trace.events = events ∧ trace.constraints = constraints := by
  unfold AnnotatedTrace.make at h
  split at h
  · split at h
    · cases h
      exact ⟨rfl, rfl⟩
    · cases h
  · cases h

end Abstraction

/-! ## What the output keeps of the source -/

/-- Every occurring event of the source is retained or hidden and not both, a retained
event is in the output as it is, and a constraint of the output is one of the source and
refers to retained events only. -/
structure KeepsSource (trace : AnnotatedTrace) (result : AbstractionResult) : Prop where
  split : ∀ event ∈ trace.events, event.isOccurring = true →
    (event.id ∈ result.certificate.retainedEventIds ↔
      event.id ∉ result.certificate.hiddenEventIds)
  unchanged : ∀ event ∈ trace.events, event.isOccurring = true →
    event.id ∈ result.certificate.retainedEventIds → event ∈ result.trace.events
  meaning : ∀ c ∈ result.trace.constraints, c ∈ trace.constraints ∧ ∀ r ∈ c.eventFields,
    ∃ event ∈ trace.events, event.isOccurring = true ∧ event.id = r.1 ∧
      event.id ∈ result.certificate.retainedEventIds

section Result

variable {catalog : VisibleCatalog}
  {format : String → Dict String String → Except FormatError String}
  {digest : AnnotatedTrace → String} {trace : AnnotatedTrace} {spec : AbstractionSpec}
  {result : AbstractionResult} {events : List ConcreteEvent}

/-- The parts of a result: the retained events and the summaries, and the constraints that
refer to their ids. -/
theorem abstractTrace_eq_ok (hevents : Abstraction.concreteEvents trace = .ok events)
    (h : abstractTrace catalog format digest trace spec = .ok result) :
    ∃ progress retention,
      Abstraction.Emitted (IsSummaryId format spec events) (IsHiddenSource spec events) progress ∧
      Abstraction.Retained catalog spec progress.sourceIdsToHide progress.outputIds events
        retention ∧
      result.trace.events =
        Abstraction.sortEvents (retention.retained ++ progress.generated) ∧
      result.trace.constraints = Abstraction.preservedConstraints trace.constraints
        (result.trace.events.map (fun event => event.id)) ∧
      (∀ id, id ∈ result.certificate.retainedEventIds ↔ id ∈ retention.retainedIds) ∧
      (∀ id, id ∈ result.certificate.hiddenEventIds ↔
        id ∈ events.map (fun event => event.id) ∧ id ∉ retention.retainedIds) := by
  obtain ⟨_, -, h⟩ := bind_eq_ok.mp h
  obtain ⟨events', hevents', h⟩ := bind_eq_ok.mp h
  rw [hevents] at hevents'
  cases hevents'
  obtain ⟨progress, hprogress, h⟩ := bind_eq_ok.mp h
  obtain ⟨retention, hretention, h⟩ := bind_eq_ok.mp h
  obtain ⟨output, houtput, h⟩ := bind_eq_ok.mp h
  obtain ⟨_, -, h⟩ := bind_eq_ok.mp h
  cases h
  obtain ⟨hevs, hcons⟩ := Abstraction.make_eq_ok houtput
  refine ⟨progress, retention,
    Abstraction.emitted_summaries (Abstraction.nodup_concreteEvents hevents) hprogress,
    (Abstraction.retained_foldlM hretention).1, hevs, ?_, fun id => ?_, fun id => ?_⟩
  · rw [hcons, hevs]
  · rw [mem_sortedList, List.mem_toFinset]
  · rw [List.mem_insertionSort, List.mem_filter, decide_eq_true_eq]

theorem mem_retainedIds {hide outputIds : List String} {retention : Abstraction.Retention}
    (hretained : Abstraction.Retained catalog spec hide outputIds events retention)
    (hhide : ∀ id, id ∈ hide ↔ IsHiddenSource spec events id) {id : String} :
    id ∈ retention.retainedIds ↔ IsKeptId catalog spec events id := by
  rw [hretained.retainedIds, List.mem_map]
  constructor
  · rintro ⟨event, hevent, rfl⟩
    obtain ⟨hmem, hkeeps⟩ := List.mem_filter.mp hevent
    exact ⟨event, hmem, (Abstraction.keeps_iff (hhide event.id)).mp hkeeps, rfl⟩
  · rintro ⟨event, hmem, hkept, rfl⟩
    exact ⟨event, List.mem_filter.mpr ⟨hmem, (Abstraction.keeps_iff (hhide event.id)).mpr hkept⟩,
      rfl⟩

/-- Events are retained or hidden and unchanged in every result; the constraints keep their
meaning exactly when no constraint of the source that refers only to events that stay and to
ids of summaries refers to an id of a summary. -/
theorem keepsSource_iff (catalog : VisibleCatalog)
    (format : String → Dict String String → Except FormatError String)
    (digest : AnnotatedTrace → String) (trace : AnnotatedTrace) (spec : AbstractionSpec)
    (events : List ConcreteEvent) (concrete : Abstraction.concreteEvents trace = .ok events)
    (result : AbstractionResult)
    (succeeds : abstractTrace catalog format digest trace spec = .ok result) :
    KeepsSource trace result ↔ ∀ c ∈ trace.constraints,
      (∀ r ∈ c.eventFields,
        IsKeptId catalog spec events r.1 ∨ IsSummaryId format spec events r.1) →
      ∀ r ∈ c.eventFields, IsKeptId catalog spec events r.1 := by
  obtain ⟨progress, retention, hemitted, hretained, hevents, hconstraints, hretainedIds,
    hhiddenIds⟩ := abstractTrace_eq_ok concrete succeeds
  have hkept : ∀ id, id ∈ result.certificate.retainedEventIds ↔ IsKeptId catalog spec events id :=
    fun id => (hretainedIds id).trans (mem_retainedIds hretained hemitted.hidden)
  have houtput : ∀ id, id ∈ result.trace.events.map (fun event => event.id) ↔
      IsKeptId catalog spec events id ∨ IsSummaryId format spec events id := by
    intro id
    rw [hevents, ((Abstraction.sortEvents_perm _).map _).mem_iff, List.map_append, List.mem_append,
      hemitted.generated, hemitted.outputIds, ← mem_retainedIds hretained hemitted.hidden, hretained.retainedIds, hretained.retained,
      List.map_map]
    rfl
  have hnodup := Abstraction.nodup_concreteEvents concrete
  constructor
  · intro hkeeps c hc hrefs r hr
    have hmem : c ∈ result.trace.constraints := by
      rw [hconstraints, Abstraction.preservedConstraints, List.mem_filter, List.all_eq_true]
      exact ⟨hc, fun r hr => decide_eq_true ((houtput r.1).mpr (hrefs r hr))⟩
    obtain ⟨event, -, -, hid, hretainedId⟩ := (hkeeps.meaning c hmem).2 r hr
    rw [← hid]
    exact (hkept event.id).mp hretainedId
  · intro hcondition
    refine ⟨fun event hevent hoccurs => ?_, fun event hevent hoccurs hid => ?_, fun c hc => ?_⟩
    · obtain ⟨concreteEvent, hmem, rfl⟩ :=
        (Abstraction.mem_concreteEvents concrete).mpr ⟨hevent, hoccurs⟩
      rw [hretainedIds, hhiddenIds, not_and, not_not]
      exact ⟨fun h _ => h, fun h => h (List.mem_map.mpr ⟨concreteEvent, hmem, rfl⟩)⟩
    · obtain ⟨concreteEvent, hmem, rfl⟩ :=
        (Abstraction.mem_concreteEvents concrete).mpr ⟨hevent, hoccurs⟩
      -- the retained event with this id is the event itself
      have hlisted := (hretainedIds concreteEvent.id).mp hid
      rw [hretained.retainedIds, List.mem_map] at hlisted
      obtain ⟨other, hother, heq⟩ := hlisted
      obtain rfl : other = concreteEvent :=
        List.inj_on_of_nodup_map hnodup (List.mem_filter.mp hother).1 hmem heq
      rw [hevents, (Abstraction.sortEvents_perm _).mem_iff, List.mem_append, hretained.retained]
      exact .inl (List.mem_map.mpr ⟨other, hother, rfl⟩)
    · rw [hconstraints, Abstraction.preservedConstraints, List.mem_filter, List.all_eq_true] at hc
      obtain ⟨hc, hrefs⟩ := hc
      refine ⟨hc, fun r hr => ?_⟩
      have hid := hcondition c hc
        (fun r hr => (houtput r.1).mp (of_decide_eq_true (hrefs r hr))) r hr
      obtain ⟨concreteEvent, hmem, -, heq⟩ := id hid
      obtain ⟨hevent, hoccurs⟩ :=
        (Abstraction.mem_concreteEvents concrete).mp ⟨concreteEvent, hmem, rfl⟩
      refine ⟨concreteEvent.toAnnotatedEvent, hevent, hoccurs, heq, ?_⟩
      rw [heq]
      exact (hkept r.1).mpr hid

end Result

/-! ## A summary with the id of a hidden event -/

def loadMissType : EventType where
  name := "L1.LoadMiss"
  fields := []
  qualified := by decide
  nodup := List.nodup_nil

def coreLoadType : EventType where
  name := "Core.Load"
  fields := []
  qualified := by decide
  nodup := List.nodup_nil

def loadCatalog : VisibleCatalog where
  eventTypes := ⟨[("L1.LoadMiss", loadMissType), ("Core.Load", coreLoadType)], by decide⟩
  named := by decide
  visibility := fun _ => .internal

def hiddenMiss : ConcreteEvent where
  id := "m"
  eventType := "L1.LoadMiss"
  fields := .empty
  cycle := .concrete 2
  occurs := .known true
  annotations := .empty
  id_ne := missedId_ne
  eventType_ne := loadMiss_ne
  cycle_sort := EventCycle.int_of_concrete 2
  occurs_sort := Occurs.bool_of_known true
  occurring := rfl
  concrete_cycle := rfl
  concrete_fields := rfl

/-- The miss happens in cycle 2. -/
def missInCycleTwo : Expr :=
  .binary .eq (.eventField "m" "cycle" .int) (.literal (.int 2) .int)

theorem missInCycleTwo_bool : ∀ c ∈ [missInCycleTwo], c.sort.isBool = true := by decide

def loadTrace : AnnotatedTrace where
  events := [hiddenMiss.toAnnotatedEvent]
  constraints := [missInCycleTwo]
  isPartial := false
  nodup := by decide
  bool_constraints := missInCycleTwo_bool

/-- Summarise every miss by a load with the id `summaryId`, and hide the miss. -/
def loadRule (summaryId : String) (idTemplate_ne : summaryId ≠ "") : SummaryRuleSpec where
  name := "load"
  roles := [typeRole "miss" "L1.LoadMiss" missRole_ne loadMiss_ne]
  output :=
    ⟨"Core.Load", summaryId, .empty, "last", .empty, coreLoad_ne, idTemplate_ne, lastCycle_ne⟩
  ordered := true
  strictOrder := false
  distinctEvents := true
  hideSources := true
  minMatches := 0
  maxMatches := 10000
  name_ne := loadId_ne
  roles_ne := by simp
  roles_nodup := by decide
  maxMatches_pos := matchBound_pos
  minMatches_le := matchBound_le

def loadAbstraction (summaryId : String) (idTemplate_ne : summaryId ≠ "") : AbstractionSpec where
  name := "loads"
  sourceLevel := "l1"
  targetLevel := "core"
  retain := ⟨[], [], []⟩
  summaries := [loadRule summaryId idTemplate_ne]
  defaultAction := .hide
  name_ne := by decide
  sourceLevel_ne := by decide
  targetLevel_ne := by decide
  summaries_nodup := by simp

/-- `str.format` on a template without fields. -/
def formatPlain (template : String) (_ : Dict String String) : Except FormatError String :=
  .ok template

/-- With an id of its own for the summary the constraint on the hidden miss is dropped. -/
theorem loadAbstraction_keeps : ∃ result,
    abstractTrace loadCatalog formatPlain (fun _ => "") loadTrace
      (loadAbstraction "load" (by decide)) = .ok result ∧ result.trace.constraints = [] ∧
    (KeepsSource loadTrace result ↔ ∀ c ∈ loadTrace.constraints,
      (∀ r ∈ c.eventFields, IsKeptId loadCatalog (loadAbstraction "load" (by decide)) [hiddenMiss] r.1 ∨
        IsSummaryId formatPlain (loadAbstraction "load" (by decide)) [hiddenMiss] r.1) →
      ∀ r ∈ c.eventFields,
        IsKeptId loadCatalog (loadAbstraction "load" (by decide)) [hiddenMiss] r.1) := by
  have hconstraints : ((abstractTrace loadCatalog formatPlain (fun _ => "") loadTrace
      (loadAbstraction "load" (by decide))).toOption.map (fun result =>
        result.trace.constraints.map Expr.eventFields)) = some [] := by decide
  obtain ⟨result, hresult, hnil⟩ := Option.map_eq_some_iff.mp hconstraints
  rw [toOption_eq_some] at hresult
  exact ⟨result, hresult, List.map_eq_nil_iff.mp hnil,
    keepsSource_iff loadCatalog formatPlain (fun _ => "") loadTrace _ [hiddenMiss] rfl result
      hresult⟩

/-- A summary with the id of the hidden miss captures the constraint on the miss. -/
theorem loadAbstraction_captures : ∃ result,
    abstractTrace loadCatalog formatPlain (fun _ => "") loadTrace
      (loadAbstraction "m" (by decide)) = .ok result ∧
    result.certificate.hiddenEventIds = ["m"] ∧
    result.trace.constraints.map Expr.eventFields = [[("m", "cycle", .int)]] ∧
    ¬ KeepsSource loadTrace result := by
  have hids : ((abstractTrace loadCatalog formatPlain (fun _ => "") loadTrace
      (loadAbstraction "m" (by decide))).toOption.map (fun result =>
        (result.certificate.retainedEventIds, result.certificate.hiddenEventIds))) =
      some ([], ["m"]) := by decide
  have hrefs : ((abstractTrace loadCatalog formatPlain (fun _ => "") loadTrace
      (loadAbstraction "m" (by decide))).toOption.map (fun result =>
        result.trace.constraints.map Expr.eventFields)) = some [[("m", "cycle", .int)]] := by decide
  obtain ⟨result, hresult, hids⟩ := Option.map_eq_some_iff.mp hids
  rw [hresult] at hrefs
  have hrefs := Option.some.inj hrefs
  rw [toOption_eq_some] at hresult
  obtain ⟨hretained, hhidden⟩ := Prod.mk.inj hids
  refine ⟨result, hresult, hhidden, hrefs, fun hkeeps => ?_⟩
  obtain ⟨c, hc, hfields⟩ := List.mem_map.mp (hrefs ▸ List.mem_singleton_self _)
  obtain ⟨event, -, -, -, hmem⟩ :=
    (hkeeps.meaning c hc).2 ("m", "cycle", .int) (hfields ▸ List.mem_singleton_self _)
  rw [hretained] at hmem
  cases hmem

end Umcm
