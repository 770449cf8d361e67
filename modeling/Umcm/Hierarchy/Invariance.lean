import Umcm.Hierarchy.Abstraction

/-!
# The order of the source

An abstraction does not depend on the order in which the trace lists its events.
The search sorts its candidates, the rules see the same matches, the loop over
the events collects a permutation of what it collected before, and the output is
sorted.

* `abstractTrace_perm`: the same result for every order, up to the digest of the
  source, or an error for every order.
-/

namespace Umcm

open Except

/-! ## The matches -/

/-- The key tells events with distinct ids apart. -/
theorem eventSortKey_id {a b : EventInstance} (h : eventSortKey a = eventSortKey b) :
    a.id = b.id := by
  have hid : ∀ event : EventInstance, (ofLex (ofLex (eventSortKey event)).2).2 = event.id := by
    intro event
    unfold eventSortKey
    cases event.cycle <;> rfl
  rw [← hid a, h, hid b]

section Matches

variable {events events' : List ConcreteEvent}

theorem eventsOfType_perm (hperm : events.Perm events')
    (hnodup : (events.map (fun event => event.id)).Nodup) (eventType : String) :
    eventsOfType events eventType = eventsOfType events' eventType := by
  unfold eventsOfType
  refine insertionSort_key_eq_of_perm (hperm.filter _) (fun a ha b hb hkey => ?_)
  exact List.inj_on_of_nodup_map hnodup (List.mem_of_mem_filter ha) (List.mem_of_mem_filter hb)
    (eventSortKey_id hkey)

theorem visit_congr (h : ∀ eventType, eventsOfType events eventType = eventsOfType events' eventType)
    (rule : SummaryRuleSpec) (roles : List EventRoleSpec) (previous : Option ConcreteEvent)
    (selected : List (String × ConcreteEvent)) (bindings : Dict String Value) :
    visit events rule roles previous selected bindings =
      visit events' rule roles previous selected bindings := by
  induction roles generalizing previous selected bindings with
  | nil => rfl
  | cons role roles ih =>
      unfold visit
      rw [h role.eventType]
      congr 1
      funext event
      cases matchRole role event bindings with
      | none => rfl
      | some updated => simp only [ih]

theorem iterRuleMatches_perm (hperm : events.Perm events')
    (hnodup : (events.map (fun event => event.id)).Nodup) (rule : SummaryRuleSpec) :
    iterRuleMatches events rule = iterRuleMatches events' rule :=
  visit_congr (eventsOfType_perm hperm hnodup) rule rule.roles none [] .empty

end Matches

/-! ## Validation -/

namespace Trace

variable {trace trace' : Trace}

theorem find?_perm (hperm : trace.events.Perm trace'.events) (id : String) :
    trace.find? id = trace'.find? id := by
  have hfound : ∀ {t : Trace} {event : EventInstance},
      t.find? id = some event ↔ event ∈ t.events ∧ event.id = id := by
    intro t event
    constructor
    · intro h
      exact ⟨List.mem_of_find?_eq_some h, by simpa using List.find?_some h⟩
    · rintro ⟨hmem, rfl⟩
      cases hfind : t.find? event.id with
      | none =>
          have hnone := List.find?_eq_none.mp hfind event hmem
          simp at hnone
      | some other =>
          have hid : other.id = event.id := by simpa using List.find?_some hfind
          have hother := List.mem_of_find?_eq_some hfind
          rw [List.inj_on_of_nodup_map t.nodup hother hmem hid]
  refine Option.ext (fun event => ?_)
  rw [hfound, hfound, hperm.mem_iff]

theorem validate_perm (hevents : trace.events.Perm trace'.events)
    (hconstraints : trace.constraints = trace'.constraints) {catalog : EventCatalog}
    {isPartial : Bool} (h : trace.validate catalog isPartial = .ok ()) :
    trace'.validate catalog isPartial = .ok () := by
  obtain ⟨_, hvalid, hreferences⟩ := bind_eq_ok.mp h
  refine bind_eq_ok.mpr ⟨⟨⟩, forM_eq_ok.mpr (fun event hevent => ?_), ?_⟩
  · exact forM_eq_ok.mp hvalid event (hevents.mem_iff.mpr hevent)
  · rw [← hconstraints]
    refine forM_eq_ok.mpr (fun c hc => forM_eq_ok.mpr (fun r hr => ?_))
    have hreference := forM_eq_ok.mp (forM_eq_ok.mp hreferences c hc) r hr
    rcases r with ⟨id, field, sort⟩
    simp only [validateReference, find?_perm hevents id] at hreference ⊢
    exact hreference

end Trace

namespace Abstraction

/-! ## The retained events -/

theorem concreteEvents_perm {trace trace' : AnnotatedTrace}
    (hperm : trace.events.Perm trace'.events) {events : List ConcreteEvent}
    (h : concreteEvents trace = .ok events) :
    ∃ events', concreteEvents trace' = .ok events' ∧ events.Perm events' := by
  obtain ⟨options, hoptions, h⟩ := bind_eq_ok.mp h
  cases h
  obtain ⟨options', hoptions', hperm'⟩ := mapM_perm hperm hoptions
  refine ⟨options'.reduceOption, bind_eq_ok.mpr ⟨options', hoptions', rfl⟩, ?_⟩
  exact hperm'.filterMap _

section Retained

variable {catalog : VisibleCatalog} {spec : AbstractionSpec} {hide outputIds : List String}
  {events : List ConcreteEvent}

/-- What the loop asks of an event: its type is known, and if it stays, no summary has its
id and it can be copied. -/
structure CanRetain (catalog : VisibleCatalog) (spec : AbstractionSpec) (hide outputIds : List String)
    (event : ConcreteEvent) : Prop where
  known : ∃ eventType, catalog.resolve event.eventType = .ok eventType
  fresh : keeps catalog spec (event.id ∈ hide) event.toEventInstance = true → event.id ∉ outputIds
  copied : keeps catalog spec (event.id ∈ hide) event.toEventInstance = true →
    copyEvent event = .ok event.toAnnotatedEvent

theorem canRetain_of_retainEvent {retention retention' : Retention} {event : ConcreteEvent}
    (h : retainEvent catalog spec hide retention event = .ok retention') :
    CanRetain catalog spec hide retention.outputIds event := by
  obtain ⟨eventType, hknown, h⟩ := bind_eq_ok.mp h
  by_cases hkeeps : keeps catalog spec (event.id ∈ hide) event.toEventInstance = true
  · rw [if_pos hkeeps] at h
    obtain ⟨_, hnew, h⟩ := bind_eq_ok.mp h
    obtain ⟨copy, hcopy, -⟩ := bind_eq_ok.mp h
    have hsame := copyEvent_eq_ok hcopy
    subst hsame
    exact ⟨⟨eventType, hknown⟩, fun _ => require_eq_ok.mp hnew, fun _ => hcopy⟩
  · exact ⟨⟨eventType, hknown⟩, fun h => absurd h hkeeps, fun h => absurd h hkeeps⟩

theorem canRetain_of_foldlM {retention : Retention}
    (h : events.foldlM (retainEvent catalog spec hide) ⟨[], [], outputIds⟩ = .ok retention) :
    ∀ event ∈ events, CanRetain catalog spec hide outputIds event := by
  refine (foldlM_invariant (fun done retention =>
    (∃ ids, retention.outputIds = outputIds ++ ids) ∧
      ∀ event ∈ done, CanRetain catalog spec hide outputIds event)
    (fun done event retention retention' ih hstep => ?_) ⟨⟨[], by simp⟩, by simp⟩ h).2
  obtain ⟨⟨ids, hids⟩, hdone⟩ := ih
  have hcan := canRetain_of_retainEvent hstep
  refine ⟨?_, fun other hother => ?_⟩
  · rcases retainEvent_eq_ok hstep with ⟨-, rfl⟩ | ⟨-, -, rfl⟩
    · exact ⟨ids, hids⟩
    · exact ⟨ids ++ [event.id], by rw [hids, List.append_assoc]⟩
  · rcases List.mem_append.mp hother with hother | hother
    · exact hdone other hother
    · rw [List.mem_singleton] at hother
      subst hother
      refine ⟨hcan.known, fun hkeeps hmem => ?_, hcan.copied⟩
      exact hcan.fresh hkeeps (by rw [hids]; exact List.mem_append_left _ hmem)

theorem exists_retention (hnodup : (events.map (fun event => event.id)).Nodup)
    (h : ∀ event ∈ events, CanRetain catalog spec hide outputIds event) :
    ∃ retention,
      events.foldlM (retainEvent catalog spec hide) ⟨[], [], outputIds⟩ = .ok retention := by
  refine exists_foldlM (fun rest retention => (rest.map (fun event => event.id)).Nodup ∧
    ∀ event ∈ rest, CanRetain catalog spec hide retention.outputIds event)
    (fun event rest retention ih => ?_) ⟨hnodup, h⟩
  obtain ⟨hdistinct, hcan⟩ := ih
  rw [List.map_cons, List.nodup_cons] at hdistinct
  obtain ⟨hevent, hrest⟩ := List.forall_mem_cons.mp hcan
  obtain ⟨eventType, hknown⟩ := hevent.known
  by_cases hkeeps : keeps catalog spec (event.id ∈ hide) event.toEventInstance = true
  · refine ⟨⟨retention.retained ++ [event.toAnnotatedEvent], retention.retainedIds ++ [event.id],
      retention.outputIds ++ [event.id]⟩, ?_, hdistinct.2, fun other hother => ?_⟩
    · unfold retainEvent
      rw [hknown, ok_bind, if_pos hkeeps, require, if_pos (hevent.fresh hkeeps), ok_bind,
        hevent.copied hkeeps, ok_bind]
      rfl
    · have hcan := hrest other hother
      refine ⟨hcan.known, fun hother' hmem => ?_, hcan.copied⟩
      rcases List.mem_append.mp hmem with hmem | hmem
      · exact hcan.fresh hother' hmem
      · rw [List.mem_singleton] at hmem
        exact hdistinct.1 (List.mem_map.mpr ⟨other, hother, hmem⟩)
  · refine ⟨retention, ?_, hdistinct.2, hrest⟩
    unfold retainEvent
    rw [hknown, ok_bind, if_neg hkeeps]
    rfl

theorem retention_perm {events' : List ConcreteEvent} (hperm : events.Perm events')
    (hnodup : (events.map (fun event => event.id)).Nodup) {retention : Retention}
    (h : events.foldlM (retainEvent catalog spec hide) ⟨[], [], outputIds⟩ = .ok retention) :
    ∃ retention',
      events'.foldlM (retainEvent catalog spec hide) ⟨[], [], outputIds⟩ = .ok retention' ∧
      retention.retained.Perm retention'.retained ∧
      retention.retainedIds.Perm retention'.retainedIds := by
  have hcan := canRetain_of_foldlM h
  obtain ⟨retention', h'⟩ := exists_retention ((hperm.map _).nodup_iff.mp hnodup)
    (fun event hevent => hcan event (hperm.mem_iff.mpr hevent))
  have hretained := (retained_foldlM h).1
  have hretained' := (retained_foldlM h').1
  have hkept : (kept catalog spec hide events).Perm (kept catalog spec hide events') :=
    hperm.filter _
  refine ⟨retention', h', ?_, ?_⟩
  · rw [hretained.retained, hretained'.retained]
    exact hkept.map _
  · rw [hretained.retainedIds, hretained'.retainedIds]
    exact hkept.map _

end Retained

theorem sortEvents_eq_of_perm {events events' : List AnnotatedEvent} (hperm : events.Perm events')
    (hnodup : (events.map (fun event => event.id)).Nodup) :
    sortEvents events = sortEvents events' :=
  insertionSort_key_eq_of_perm hperm (fun _ ha _ hb hkey =>
    List.inj_on_of_nodup_map hnodup ha hb (eventSortKey_id hkey))

end Abstraction

/-! ## The result -/

/-- The same result, except for the digest of the source. -/
structure SameAbstraction (result result' : AbstractionResult) : Prop where
  trace : result'.trace = result.trace
  certificate : result'.certificate = { result.certificate with
    sourceTraceSha256 := result'.certificate.sourceTraceSha256 }

section Order

variable {catalog : VisibleCatalog}
  {format : String → Dict String String → Except FormatError String}
  {digest : AnnotatedTrace → String} {trace trace' : AnnotatedTrace} {spec : AbstractionSpec}

open Abstraction in
theorem abstractTrace_of_perm (hevents : trace.events.Perm trace'.events)
    (hconstraints : trace.constraints = trace'.constraints) {result : AbstractionResult}
    (h : abstractTrace catalog format digest trace spec = .ok result) :
    ∃ result', abstractTrace catalog format digest trace' spec = .ok result' ∧
      SameAbstraction result result' := by
  obtain ⟨_, hvalid, h⟩ := bind_eq_ok.mp h
  obtain ⟨events, hconcrete, h⟩ := bind_eq_ok.mp h
  obtain ⟨progress, hprogress, h⟩ := bind_eq_ok.mp h
  obtain ⟨retention, hretention, h⟩ := bind_eq_ok.mp h
  obtain ⟨output, houtput, h⟩ := bind_eq_ok.mp h
  obtain ⟨_, hvalidOutput, h⟩ := bind_eq_ok.mp h
  cases h
  have hnodup := nodup_concreteEvents hconcrete
  have hvalid' : trace'.validate catalog.toEventCatalog false = .ok () :=
    Trace.validate_perm (hevents.map _) hconstraints hvalid
  obtain ⟨events', hconcrete', hperm⟩ := concreteEvents_perm hevents hconcrete
  -- the rules see the same matches
  have hmatches : iterRuleMatches events = iterRuleMatches events' :=
    funext (iterRuleMatches_perm hperm hnodup)
  have hprogress' : spec.summaries.foldlM
      (applyRule format catalog.toEventCatalog spec.name events') .start = .ok progress := by
    have happly : applyRule format catalog.toEventCatalog spec.name events' =
        applyRule format catalog.toEventCatalog spec.name events := by
      funext progress rule
      unfold applyRule
      rw [hmatches]
    rw [happly]
    exact hprogress
  obtain ⟨retention', hretention', hretained, hids⟩ := retention_perm hperm hnodup hretention
  -- the ids of the output are distinct, so its order is determined
  have hemitted := emitted_summaries hnodup hprogress
  obtain ⟨hkept, hfresh⟩ := retained_foldlM hretention
  have hdistinct : ((retention.retained ++ progress.generated).map (fun event => event.id)).Nodup := by
    rw [List.map_append, hemitted.generated, hkept.retained, List.map_map]
    refine List.nodup_append.mpr ⟨?_, hemitted.nodup, fun a ha b hb heq => ?_⟩
    · exact hnodup.sublist (List.filter_sublist.map _)
    · have hmem : a ∈ retention.retainedIds := by
        rw [hkept.retainedIds]
        exact ha
      exact hfresh a hmem (heq ▸ hb)
  have hsorted := sortEvents_eq_of_perm (hretained.append_right progress.generated) hdistinct
  have hretainedIds : retention'.retainedIds.toFinset = retention.retainedIds.toFinset :=
    (List.toFinset_eq_of_perm _ _ hids).symm
  have hhidden : (events'.map (fun event => event.id)).filter (· ∉ retention'.retainedIds) |>.Perm
      ((events.map (fun event => event.id)).filter (· ∉ retention.retainedIds)) := by
    have hfilter : (fun id => decide (id ∉ retention'.retainedIds)) =
        fun id => decide (id ∉ retention.retainedIds) := by
      funext id
      exact decide_eq_decide.mpr (not_congr hids.symm.mem_iff)
    rw [hfilter]
    exact (hperm.symm.map _).filter _
  refine ⟨_, bind_eq_ok.mpr ⟨⟨⟩, hvalid', bind_eq_ok.mpr ⟨events', hconcrete', bind_eq_ok.mpr
    ⟨progress, hprogress', bind_eq_ok.mpr ⟨retention', hretention', bind_eq_ok.mpr ⟨output, ?_,
      bind_eq_ok.mpr ⟨⟨⟩, hvalidOutput, rfl⟩⟩⟩⟩⟩⟩, rfl, ?_⟩
  · rw [← hsorted, ← hconstraints]
    exact houtput
  · simp only [← hsorted, ← hconstraints, hretainedIds, insertionSort_eq_of_perm hhidden,
      hperm.length_eq]

end Order

/-- For every order of the events of a trace the abstraction is the same, up to the digest
of the trace, or it raises for every order. -/
theorem abstractTrace_perm (catalog : VisibleCatalog)
    (format : String → Dict String String → Except FormatError String)
    (digest : AnnotatedTrace → String) (trace trace' : AnnotatedTrace) (spec : AbstractionSpec)
    (events : trace.events.Perm trace'.events)
    (constraints : trace.constraints = trace'.constraints) :
    (∃ result result', abstractTrace catalog format digest trace spec = .ok result ∧
      abstractTrace catalog format digest trace' spec = .ok result' ∧
      SameAbstraction result result') ∨
    ∃ e e', abstractTrace catalog format digest trace spec = .error e ∧
      abstractTrace catalog format digest trace' spec = .error e' := by
  cases h : abstractTrace catalog format digest trace spec with
  | ok result =>
      obtain ⟨result', h', hsame⟩ := abstractTrace_of_perm events constraints h
      exact .inl ⟨result, result', rfl, h', hsame⟩
  | error e =>
      cases h' : abstractTrace catalog format digest trace' spec with
      | error e' => exact .inr ⟨e, e', rfl, rfl⟩
      | ok result' =>
          obtain ⟨result, hok, -⟩ := abstractTrace_of_perm events.symm constraints.symm h'
          rw [h] at hok
          cases hok

/-! ## Two misses -/

def laterMiss : ConcreteEvent :=
  { hiddenMiss with
    id := "n"
    cycle := .concrete 4
    id_ne := by decide
    cycle_sort := EventCycle.int_of_concrete 4
    occurring := rfl
    concrete_cycle := rfl
    concrete_fields := rfl }

def missesTrace : AnnotatedTrace where
  events := [hiddenMiss.toAnnotatedEvent, laterMiss.toAnnotatedEvent]
  constraints := [missInCycleTwo]
  isPartial := false
  nodup := by decide
  bool_constraints := missInCycleTwo_bool

def swappedTrace : AnnotatedTrace where
  events := [laterMiss.toAnnotatedEvent, hiddenMiss.toAnnotatedEvent]
  constraints := [missInCycleTwo]
  isPartial := false
  nodup := by decide
  bool_constraints := missInCycleTwo_bool

/-- Every event stays. -/
def identityAbstraction : AbstractionSpec :=
  { loadAbstraction "load" loadId_ne with
    summaries := []
    defaultAction := .keep
    summaries_nodup := List.nodup_nil }

/-- The swapped trace has the same abstraction. -/
theorem swappedTrace_same :
    (abstractTrace loadCatalog formatPlain (fun _ => "") swappedTrace identityAbstraction).isOk = true ∧
    ((∃ result result',
      abstractTrace loadCatalog formatPlain (fun _ => "") missesTrace identityAbstraction =
        .ok result ∧
      abstractTrace loadCatalog formatPlain (fun _ => "") swappedTrace identityAbstraction =
        .ok result' ∧ SameAbstraction result result') ∨
    ∃ e e', abstractTrace loadCatalog formatPlain (fun _ => "") missesTrace identityAbstraction =
        .error e ∧
      abstractTrace loadCatalog formatPlain (fun _ => "") swappedTrace identityAbstraction =
        .error e') :=
  ⟨by decide, abstractTrace_perm loadCatalog formatPlain (fun _ => "") missesTrace swappedTrace
    identityAbstraction (.swap _ _ _) rfl⟩

end Umcm
