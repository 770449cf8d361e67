import Umcm.Solver.Firing
import Umcm.Solver.WellBuilt

/-!
# Where events come from

The events of a problem are the events of its trace and the slots of its model,
with symbols for missing fields; the fields that are given have their values in
every completion.

* `Completion.origin`: an event is observed or fills a slot.
* `Completion.observed`: observed events keep their fields and happen.
-/

namespace Umcm

open Except EvaluationContext

theorem get?_completeField {symbolPrefix : String} {fields : Dict String Term} {spec : FieldSpec}
    {k : String} {v : Term} (h : fields.get? k = some v) :
    (EventSlot.completeField symbolPrefix fields spec).get? k = some v := by
  rw [EventSlot.completeField]
  split_ifs with hmissing
  · rw [Bool.and_eq_true, Option.isNone_iff_eq_none] at hmissing
    have hne : k ≠ spec.name := by
      rintro rfl
      rw [hmissing.2] at h
      cases h
    rw [Dict.get?_insert_of_ne _ hne]
    exact h
  · exact h

theorem get?_foldl_completeField {symbolPrefix : String} {specs : List FieldSpec}
    {fields : Dict String Term} {k : String} {v : Term} (h : fields.get? k = some v) :
    (specs.foldl (EventSlot.completeField symbolPrefix) fields).get? k = some v := by
  induction specs generalizing fields with
  | nil => exact h
  | cons spec rest ih =>
      rw [List.foldl_cons]
      exact ih (get?_completeField h)

/-- A given field keeps its value. -/
theorem get?_completeFields {symbolPrefix : String} {t : EventType} {fields : Dict String Term}
    {k : String} {v : Term} (h : fields.get? k = some v) :
    (EventSlot.completeFields symbolPrefix t fields).get? k = some v :=
  get?_foldl_completeField h

namespace Completion

variable {catalog : EventCatalog} {trace : Trace} {spec : CompletionSpec} {problem : BoundedProblem}
  {interpreter : Interpreter} {assignment : Dict String Value} {pre : CellStates}

/-- An event is observed or fills a slot. -/
theorem origin (h : Completion catalog trace spec problem interpreter assignment pre)
    {event : EventInstance} (hevent : event ∈ problem.events) :
    (∃ e ∈ trace.events, materializePartialEvent catalog e = .ok event) ∨
      ∃ slot ∈ spec.slots, slot.materialize catalog = .ok event := by
  obtain ⟨observed, slots, hobserved, hslots, hevents⟩ := events_of_buildProblem h.built
  rw [hevents] at hevent
  rcases List.mem_append.mp hevent with hevent | hevent
  · exact Or.inl (mapM_origin hobserved hevent)
  · exact Or.inr (mapM_origin hslots hevent)

/-- A field with a value has it in the completion. -/
theorem reads_field (h : Completion catalog trace spec problem interpreter assignment pre)
    {event : EventInstance} (hevent : event ∈ problem.events) {field : String} {v : Value}
    (hoccurs : field ≠ "occurs") (hcycle : field ≠ "cycle")
    (hget : event.fields.get? field = some (.value v)) :
    (problem.context interpreter assignment).Reads event.id field v := by
  have hevents : (problem.context interpreter assignment).events.get? event.id = some event :=
    get?_eventMap (wellBuilt_of_buildProblem h.built) hevent
  rw [EvaluationContext.Reads, eventAttribute, eventAttributeAt, hevents]
  simp only [EventInstance.attribute?, if_neg hoccurs, if_neg hcycle, hget]

/-- The event of an observed event has its fields. -/
theorem kept (h : Completion catalog trace spec problem interpreter assignment pre)
    {e event : EventInstance} (hevent : event ∈ problem.events)
    (hok : materializePartialEvent catalog e = .ok event) {field : String} {v : Value}
    (hoccurs : field ≠ "occurs") (hcycle : field ≠ "cycle")
    (hget : e.fields.get? field = some (.value v)) :
    (problem.context interpreter assignment).Reads event.id field v := by
  obtain ⟨-, -, eventType, -, hfields⟩ := materializePartialEvent_eq_ok hok
  refine h.reads_field hevent hoccurs hcycle ?_
  rw [hfields]
  exact get?_completeFields hget

/-- An observed event keeps its fields, and happens when the trace says so. -/
theorem observed (h : Completion catalog trace spec problem interpreter assignment pre)
    {e : EventInstance} (he : e ∈ trace.events) :
    ∃ event ∈ problem.events, event.eventType = e.eventType ∧ event.id = e.id ∧
      (e.occurs = .known true → (problem.context interpreter assignment).Happens e.id) ∧
      ∀ field v, field ≠ "occurs" → field ≠ "cycle" → e.fields.get? field = some (.value v) →
        (problem.context interpreter assignment).Reads e.id field v := by
  obtain ⟨observed, slots, hobserved, -, hevents⟩ := events_of_buildProblem h.built
  obtain ⟨event, hevent, hok⟩ := mapM_result hobserved he
  have hmem : event ∈ problem.events := hevents ▸ List.mem_append_left _ hevent
  obtain ⟨hid, htype, -⟩ := materializePartialEvent_eq_ok hok
  refine ⟨event, hmem, htype, hid, fun hoccurs => ?_, fun field v hoccurs hcycle hget => ?_⟩
  · obtain ⟨eventType, -, hok⟩ := bind_eq_ok.mp hok
    have heq : event.occurs = .known true := by
      cases hok
      exact hoccurs
    have hevents : (problem.context interpreter assignment).events.get? event.id = some event :=
      get?_eventMap (wellBuilt_of_buildProblem h.built) hmem
    rw [← hid, Happens, EvaluationContext.Reads, eventAttribute, eventAttributeAt, hevents]
    simp only [EventInstance.attribute?, if_pos, EventInstance.occursTerm, heq]
  · rw [← hid]
    exact h.kept hmem hok hoccurs hcycle hget

/-- An event that fills a slot has the id, the type and the fields of the slot. -/
theorem filled (h : Completion catalog trace spec problem interpreter assignment pre)
    {event : EventInstance} (hevent : event ∈ problem.events) {slot : EventSlot}
    (hslot : slot.materialize catalog = .ok event) :
    event.id = slot.id ∧ event.eventType = slot.eventType ∧
      ∀ field v, field ≠ "occurs" → field ≠ "cycle" → slot.fields.get? field = some (.value v) →
        (problem.context interpreter assignment).Reads event.id field v := by
  obtain ⟨hid, htype, eventType, -, hfields⟩ := materialize_eq_ok hslot
  refine ⟨hid, htype, fun field v hoccurs hcycle hget => ?_⟩
  refine h.reads_field hevent hoccurs hcycle ?_
  rw [hfields]
  exact get?_completeFields hget

end Completion

end Umcm
