import Umcm.Data.Except
import Umcm.Solver.Problem

/-!
# Built problems

What `build_problem` guarantees of the problems it returns: distinct events
with the fields of their types, and constraints over these events.
-/

namespace Umcm

open Except

theorem EventCatalog.name_of_resolve {catalog : EventCatalog} {name : String}
    {eventType : EventType} (h : catalog.resolve name = .ok eventType) : eventType.name = name := by
  rw [EventCatalog.resolve] at h
  split at h
  · rename_i t ht
    cases h
    exact catalog.named (name, eventType) (Dict.get?_eq_some_iff.mp ht)
  · cases h

theorem EventType.field?_isSome {t : EventType} {spec : FieldSpec} (h : spec ∈ t.fields) :
    (t.field? spec.name).isSome = true :=
  List.find?_isSome.mpr ⟨spec, h, by simp⟩

/-! ## Completed fields -/

section CompleteFields

variable {symbolPrefix : String} {t : EventType} {fields : Dict String Term}

theorem completeField_keys {spec : FieldSpec} {k : String} :
    k ∈ (EventSlot.completeField symbolPrefix fields spec).keys ↔
      k ∈ fields.keys ∨ (spec.required = true ∧ k = spec.name) := by
  rw [EventSlot.completeField]
  by_cases hrequired : spec.required = true
  · by_cases hnone : (fields.get? spec.name).isNone = true
    · simp [hrequired, hnone, Dict.keys_insert, or_comm]
    · have hmem : spec.name ∈ fields.keys := by
        rw [← Dict.get?_isSome_iff]
        simpa [Option.isSome_iff_ne_none] using hnone
      simp only [hrequired, hnone, Bool.and_false, Bool.false_eq_true, if_false, true_and]
      exact ⟨Or.inl, fun h => h.elim id (fun h => h ▸ hmem)⟩
  · simp [hrequired]

/-- The fields are the given ones and the required ones. -/
theorem completeFields_keys {k : String} :
    k ∈ (EventSlot.completeFields symbolPrefix t fields).keys ↔
      k ∈ fields.keys ∨ ∃ spec ∈ t.fields, spec.required = true ∧ k = spec.name := by
  rw [EventSlot.completeFields]
  generalize t.fields = specs
  induction specs generalizing fields with
  | nil => simp
  | cons spec rest ih =>
      rw [List.foldl_cons, ih, completeField_keys, List.exists_mem_cons_iff, or_assoc]

end CompleteFields

/-! ## Events -/

namespace EventInstance

/-- The event has all required fields of its type and no others. -/
def HasSchema (catalog : EventCatalog) (event : EventInstance) : Prop :=
  ∃ eventType, catalog.resolve event.eventType = .ok eventType ∧
    event.unknownFields eventType = [] ∧ event.missingFields eventType = []

theorem unknownFields_eq_nil {event : EventInstance} {t : EventType} :
    event.unknownFields t = [] ↔ ∀ k ∈ event.fields.keys, (t.field? k).isSome = true := by
  simp [unknownFields, List.filter_eq_nil_iff, Option.isSome_iff_ne_none]

theorem missingFields_eq_nil {event : EventInstance} {t : EventType} :
    event.missingFields t = [] ↔
      ∀ spec ∈ t.fields, spec.required = true → spec.name ∈ event.fields.keys := by
  simp only [missingFields, List.map_eq_nil_iff, List.filter_eq_nil_iff, Bool.and_eq_true,
    Option.isNone_iff_eq_none, Dict.get?_eq_none_iff, not_and, not_not]

theorem hasSchema_completeFields {catalog : EventCatalog} {event : EventInstance}
    {eventType : EventType} {symbolPrefix : String} {fields : Dict String Term}
    (htype : catalog.resolve event.eventType = .ok eventType)
    (hfields : event.fields = EventSlot.completeFields symbolPrefix eventType fields)
    (hknown : ∀ k ∈ fields.keys, (eventType.field? k).isSome = true) : event.HasSchema catalog := by
  refine ⟨eventType, htype, unknownFields_eq_nil.mpr ?_, missingFields_eq_nil.mpr ?_⟩
  · intro k hk
    rw [hfields] at hk
    rcases completeFields_keys.mp hk with hk | ⟨spec, hspec, -, rfl⟩
    · exact hknown k hk
    · exact EventType.field?_isSome hspec
  · intro spec hspec hrequired
    rw [hfields]
    exact completeFields_keys.mpr (Or.inr ⟨spec, hspec, hrequired, rfl⟩)

end EventInstance

section Events

variable {catalog : EventCatalog}

theorem materializePartialEvent_eq_ok {event result : EventInstance}
    (h : materializePartialEvent catalog event = .ok result) :
    result.id = event.id ∧ result.eventType = event.eventType ∧
      ∃ eventType, catalog.resolve event.eventType = .ok eventType ∧
        result.fields = EventSlot.completeFields s!"trace::{event.id}::field::" eventType
          event.fields := by
  obtain ⟨eventType, htype, h⟩ := bind_eq_ok.mp h
  cases h
  exact ⟨rfl, rfl, eventType, htype, rfl⟩

theorem materialize_eq_ok {slot : EventSlot} {event : EventInstance}
    (h : slot.materialize catalog = .ok event) :
    event.id = slot.id ∧ event.eventType = slot.eventType ∧
      ∃ eventType, catalog.resolve slot.eventType = .ok eventType ∧
        event.fields = EventSlot.completeFields s!"slot::{slot.id}::field::" eventType
          slot.fields := by
  obtain ⟨eventType, htype, h⟩ := bind_eq_ok.mp h
  obtain ⟨hid, heventType, hfields⟩ := EventInstance.create_eq_ok h
  exact ⟨hid, heventType, eventType, htype, hfields⟩

theorem known_of_validate {trace : Trace} {isPartial : Bool}
    (h : trace.validate catalog isPartial = .ok ()) {event : EventInstance}
    (hevent : event ∈ trace.events) {eventType : EventType}
    (htype : catalog.resolve event.eventType = .ok eventType) :
    ∀ k ∈ event.fields.keys, (eventType.field? k).isSome = true := by
  obtain ⟨_, hevents, -⟩ := bind_eq_ok.mp h
  obtain ⟨t, ht, hvalid⟩ := bind_eq_ok.mp (forM_eq_ok.mp hevents event hevent)
  rw [htype] at ht
  cases ht
  obtain ⟨_, -, hvalid⟩ := bind_eq_ok.mp hvalid
  obtain ⟨_, hunknown, -⟩ := bind_eq_ok.mp hvalid
  exact EventInstance.unknownFields_eq_nil.mp (require_eq_ok.mp hunknown)

theorem known_of_slot_validate {slot : EventSlot} (h : slot.validate catalog = .ok ())
    {eventType : EventType} (htype : catalog.resolve slot.eventType = .ok eventType) :
    ∀ k ∈ slot.fields.keys, (eventType.field? k).isSome = true := by
  obtain ⟨t, ht, hvalid⟩ := bind_eq_ok.mp h
  rw [htype] at ht
  cases ht
  obtain ⟨_, hunknown, -⟩ := bind_eq_ok.mp hvalid
  have hnil := require_eq_ok.mp hunknown
  simpa [List.filter_eq_nil_iff, Option.isSome_iff_ne_none] using hnil

end Events

/-! ## Problems -/

/-- What is known of a built problem. -/
structure WellBuilt (problem : BoundedProblem) : Prop where
  nodup : (problem.events.map EventInstance.id).Nodup
  schema : ∀ event ∈ problem.events, event.HasSchema problem.catalog
  references : ∀ c ∈ problem.sourceTrace.constraints, ∀ ref ∈ c.eventFields,
    ∃ event ∈ problem.events, event.id = ref.1 ∧ ∃ expected,
      Trace.expectedSort problem.catalog event ref.2.1 = .ok expected ∧
        ref.2.2.compatibleWith expected = true
  constraints : ∀ c ∈ problem.sourceTrace.constraints,
    ∃ named ∈ problem.constraints, named.expression = c

theorem expectedSort_congr {catalog : EventCatalog} {event event' : EventInstance} {field : String}
    (hid : event'.id = event.id) (htype : event'.eventType = event.eventType) :
    Trace.expectedSort catalog event' field = Trace.expectedSort catalog event field := by
  rw [Trace.expectedSort, Trace.expectedSort, hid, htype]

theorem mem_namedConstraints (namePrefix origin : String) {constraints : List Expr} {c : Expr}
    (h : c ∈ constraints) :
    ∃ named ∈ namedConstraints namePrefix origin constraints, named.expression = c := by
  obtain ⟨i, hi, rfl⟩ := List.mem_iff_getElem.mp h
  exact ⟨_, List.mem_map.mpr ⟨(constraints[i], i), List.mk_mem_zipIdx_iff_getElem?.mpr (by simp),
    rfl⟩, rfl⟩

theorem wellBuilt_of_buildProblem {catalog : EventCatalog} {trace : Trace} {spec : CompletionSpec}
    {problem : BoundedProblem} (h : buildProblem catalog trace spec = .ok problem) :
    WellBuilt problem := by
  obtain ⟨_, htrace, h⟩ := bind_eq_ok.mp h
  obtain ⟨_, hspec, h⟩ := bind_eq_ok.mp h
  obtain ⟨observed, hobserved, h⟩ := bind_eq_ok.mp h
  obtain ⟨slots, hslots, h⟩ := bind_eq_ok.mp h
  obtain ⟨parts, -, h⟩ := bind_eq_ok.mp h
  cases h
  obtain ⟨_, hoverlap, hspec⟩ := bind_eq_ok.mp hspec
  obtain ⟨_, hslotsValid, -⟩ := bind_eq_ok.mp hspec
  have hobservedIds : observed.map EventInstance.id = trace.events.map EventInstance.id :=
    map_mapM hobserved (fun h => (materializePartialEvent_eq_ok h).1)
  have hslotIds : slots.map EventInstance.id = spec.slots.map EventSlot.id :=
    map_mapM hslots (fun h => (materialize_eq_ok h).1)
  refine ⟨?_, ?_, ?_, ?_⟩
  · change ((observed ++ slots).map EventInstance.id).Nodup
    rw [List.map_append, hobservedIds, hslotIds, List.nodup_append]
    refine ⟨trace.nodup, spec.slots_nodup, ?_⟩
    rintro id hid _ hslot rfl
    have hnone := require_eq_ok.mp hoverlap
    rw [List.filter_eq_nil_iff] at hnone
    exact hnone id hslot (by simpa using hid)
  · intro event hevent
    rcases List.mem_append.mp hevent with hevent | hevent
    · obtain ⟨source, hsource, hok⟩ := mapM_origin hobserved hevent
      obtain ⟨-, htype, eventType, hresolve, hfields⟩ := materializePartialEvent_eq_ok hok
      have hresolve' : catalog.resolve event.eventType = .ok eventType := by rwa [htype]
      exact EventInstance.hasSchema_completeFields hresolve' hfields
        (known_of_validate htrace hsource hresolve)
    · obtain ⟨slot, hslot, hok⟩ := mapM_origin hslots hevent
      obtain ⟨-, htype, eventType, hresolve, hfields⟩ := materialize_eq_ok hok
      have hresolve' : catalog.resolve event.eventType = .ok eventType := by rwa [htype]
      exact EventInstance.hasSchema_completeFields hresolve' hfields
        (known_of_slot_validate (forM_eq_ok.mp hslotsValid slot hslot) hresolve)
  · intro c hc ref href
    obtain ⟨_, -, hconstraints⟩ := bind_eq_ok.mp htrace
    have hvalid := forM_eq_ok.mp (forM_eq_ok.mp hconstraints c hc) ref href
    rw [Trace.validateReference] at hvalid
    cases hfind : trace.find? ref.1 with
    | none => simp [hfind] at hvalid
    | some event =>
        simp only [hfind] at hvalid
        obtain ⟨expected, hexpected, hcompatible⟩ := bind_eq_ok.mp hvalid
        have hmem : event ∈ trace.events := List.mem_of_find?_eq_some hfind
        have hid : event.id = ref.1 := by simpa using List.find?_some hfind
        obtain ⟨result, hresult, hok⟩ := mapM_result hobserved hmem
        obtain ⟨hid', htype', -⟩ := materializePartialEvent_eq_ok hok
        refine ⟨result, List.mem_append_left _ hresult, hid'.trans hid, expected, ?_,
          require_eq_ok.mp hcompatible⟩
        rw [expectedSort_congr hid' htype']
        exact hexpected
  · intro c hc
    obtain ⟨named, hnamed, rfl⟩ := mem_namedConstraints "trace.constraint." "trace" hc
    refine ⟨named, ?_, rfl⟩
    exact List.mem_append_left _ (List.mem_append_left _ (List.mem_append_left _ hnamed))

theorem get?_eventMap {problem : BoundedProblem} (hbuilt : WellBuilt problem)
    {event : EventInstance} (hevent : event ∈ problem.events) :
    problem.eventMap.get? event.id = some event := by
  refine Dict.get?_ofList_of_mem ?_ (List.mem_map.mpr ⟨event, hevent, rfl⟩)
  rw [List.map_map]
  exact hbuilt.nodup

end Umcm
