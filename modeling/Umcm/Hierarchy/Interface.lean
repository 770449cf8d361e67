import Umcm.Composition.Encapsulation
import Umcm.Hierarchy.Model

/-!
# Projection to the interface of a composition

The events that are private to a module of a composition are hidden. Whether an
event is private is read off the slot it comes from, off its annotations or,
where neither names an owner, off its type.

* `projectsInterface_of_composeModules`: what the projection to the interface of
  a composition keeps.
-/

namespace Umcm

open Except Compose

/-! ## Contracts -/

/-- The ports of a module and what it hides. -/
structure ModuleInterfaceContract where
  module : String
  ports : List ModulePort
  publicEventTypes : List String
  privateSlotIds : List String
  privateEventTypes : List String
  privateStateNames : List String
  privateTransformationNames : List String

def interfaceContract (m : LoadedModule) : ModuleInterfaceContract :=
  let publicTypes := (m.spec.ports.map ModulePort.eventType).toFinset
  let privateSlots := m.spec.slots.filter (fun s => s.slot.eventType ∉ publicTypes)
  { module := m.referenceName
    ports := m.spec.ports
    publicEventTypes := sortedList publicTypes
    privateSlotIds := (privateSlots.map (fun s => s.slot.id)).insertionSort (· ≤ ·)
    privateEventTypes := sortedList
      (m.spec.internalEvents ++ privateSlots.map (fun s => s.slot.eventType)).toFinset
    privateStateNames := (m.spec.stateVariables.map StateVariable.name).insertionSort (· ≤ ·)
    privateTransformationNames :=
      (m.spec.transformations.map Transformation.name).insertionSort (· ≤ ·) }

def buildInterfaceContracts (composition : CompositionResult) : List ModuleInterfaceContract :=
  composition.modules.map interfaceContract

/-- `sorted(private_type_owners.get(event_type, ()))`. -/
def privateTypeOwners (contracts : List ModuleInterfaceContract) (eventType : String) :
    List String :=
  if contracts.any (fun contract => eventType ∈ contract.publicEventTypes) then []
  else sortedList ((contracts.filter (fun contract =>
    eventType ∈ contract.privateEventTypes)).map ModuleInterfaceContract.module).toFinset

/-! ## Annotations as texts -/

/-- `str(annotation)`. -/
def Annotation.pyStr : Annotation → String
  | .scalar v => v.pyStr
  | .names list => "[" ++ ", ".intercalate (list.map quoted) ++ "]"

def EventAnnotation.pyStr : EventAnnotation → String
  | .plain a => a.pyStr
  | .abstraction spec rule sourceEventIds sourceEventTypes =>
    "\x7b'spec': " ++ quoted spec ++ ", 'rule': " ++ quoted rule ++ ", 'source_event_ids': " ++
      Annotation.pyStr (.names sourceEventIds) ++ ", 'source_event_types': " ++
      Annotation.pyStr (.names sourceEventTypes) ++ "\x7d"

/-- `str(annotations.get("module_visibility", "private"))`. -/
def slotVisibility (s : ModuleSlot) : String :=
  match s.annotations.get? "module_visibility" with
  | some a => a.pyStr
  | none => "private"

/-- The owner that the annotations of a slot name; `None` names no owner. -/
def slotOwner (s : ModuleSlot) : Option String :=
  match s.annotations.get? "module_spec" with
  | none | some (.scalar .none) => none
  | some a => some a.pyStr

/-- An annotation of an event as a text, unless it is missing or `None`. -/
def AnnotatedEvent.annotation? (event : AnnotatedEvent) (name : String) : Option String :=
  match event.annotations.get? name with
  | none | some (.plain (.scalar .none)) => none
  | some a => some a.pyStr

/-! ## The projection -/

/-- The owner of an event and its visibility. -/
structure EventClass where
  owner : Option String
  visibility : Option String
deriving DecidableEq

/-- `visibility_by_id`. -/
def visibilityById (slots : List ModuleSlot) : Dict String EventClass :=
  .ofList (slots.map (fun s => (s.slot.id, ⟨slotOwner s, some (slotVisibility s)⟩)))

def classifyEvent (composition : CompositionResult) (event : AnnotatedEvent) : EventClass :=
  let found := match (visibilityById composition.slots).get? event.id with
    | some found => found
    | none => ⟨event.annotation? "module_spec", event.annotation? "module_visibility"⟩
  let owners := privateTypeOwners (buildInterfaceContracts composition) event.eventType
  if found.owner = none ∧ owners ≠ [] then ⟨some ("+".intercalate owners), some "private"⟩
  else found

def EventClass.retains (c : EventClass) : Bool := c.owner = none || c.visibility = some "public"

structure InterfaceProjectionCertificate where
  composition : String
  sourceEventCount : Nat
  projectedEventCount : Nat
  retainedEventIds : List String
  hiddenEventIds : List String
  hiddenByModule : List (String × List String)

structure InterfaceProjectionResult where
  trace : AnnotatedTrace
  certificate : InterfaceProjectionCertificate

/-- `hidden_by_module.setdefault(owner, []).append(event.id)`. -/
def addHidden (composition : CompositionResult) (hidden : Dict String (List String))
    (event : AnnotatedEvent) : Dict String (List String) :=
  match (classifyEvent composition event).owner with
  | some owner => hidden.insert owner ((hidden.get? owner).getD [] ++ [event.id])
  | none => hidden

/-- The references of the constraint are among the ids. -/
def refersTo (ids : List String) (constraint : Expr) : Bool :=
  constraint.eventFields.all (fun r => r.1 ∈ ids)

theorem nodup_filter_ids {events : List AnnotatedEvent} {p : AnnotatedEvent → Bool}
    (h : ((events.map AnnotatedEvent.toEventInstance).map EventInstance.id).Nodup) :
    (((events.filter p).map AnnotatedEvent.toEventInstance).map EventInstance.id).Nodup :=
  h.sublist ((List.filter_sublist.map _).map _)

def projectInterfaceTrace (trace : AnnotatedTrace) (spec : CompositionSpec)
    (composition : CompositionResult) : InterfaceProjectionResult :=
  let retains := fun event => (classifyEvent composition event).retains
  let hidden := trace.events.filter (fun event => !retains event)
  let retainedIds := (trace.events.filter retains).map (fun event => event.id)
  { trace :=
      { events := trace.events.filter retains
        constraints := trace.constraints.filter (refersTo retainedIds)
        isPartial := trace.isPartial
        nodup := nodup_filter_ids trace.nodup
        bool_constraints := fun c hc => trace.bool_constraints c (List.mem_of_mem_filter hc) }
    certificate :=
      { composition := spec.name
        sourceEventCount := trace.events.length
        projectedEventCount := retainedIds.length
        retainedEventIds := retainedIds
        hiddenEventIds := hidden.map (fun event => event.id)
        hiddenByModule := (hidden.foldl (addHidden composition) .empty).entries.insertionSort
          (fun a b => a.1 ≤ b.1) } }

/-! ## What the projection keeps -/

/-- The type is private to modules: some have it as an internal event or in a slot, and no
module has a port for it. -/
def IsPrivateType (composition : CompositionResult) (eventType : String) : Prop :=
  (∃ m ∈ composition.modules, eventType ∈ m.spec.internalEvents ∨
    ∃ s ∈ m.spec.slots, s.slot.eventType = eventType) ∧
  ∀ m ∈ composition.modules, eventType ∉ m.spec.ports.map ModulePort.eventType

/-- The events are split in order; an owned private slot is hidden, a public one stays unless
it has no owner and its type is private; a constraint stays with the events it refers to; and
projecting again changes nothing. -/
structure ProjectsInterface (spec : CompositionSpec) (composition : CompositionResult)
    (trace : AnnotatedTrace) : Prop where
  retained : (projectInterfaceTrace trace spec composition).trace.events.Sublist trace.events
  hidden : (projectInterfaceTrace trace spec composition).certificate.hiddenEventIds.Sublist
    (trace.events.map (fun event => event.id))
  split : ∀ event ∈ trace.events,
    (event ∈ (projectInterfaceTrace trace spec composition).trace.events ↔
      event.id ∉ (projectInterfaceTrace trace spec composition).certificate.hiddenEventIds)
  privateSlots : ∀ s ∈ composition.slots, slotVisibility s = "private" → slotOwner s ≠ none →
    ∀ event ∈ trace.events, event.id = s.slot.id →
      event ∉ (projectInterfaceTrace trace spec composition).trace.events
  publicSlots : ∀ s ∈ composition.slots, slotVisibility s = "public" →
    ∀ event ∈ trace.events, event.id = s.slot.id →
      (slotOwner s ≠ none ∨ ¬ IsPrivateType composition event.eventType) →
      event ∈ (projectInterfaceTrace trace spec composition).trace.events
  constraints : (projectInterfaceTrace trace spec composition).trace.constraints.Sublist
    trace.constraints
  meaning : ∀ c ∈ trace.constraints,
    (c ∈ (projectInterfaceTrace trace spec composition).trace.constraints ↔
      ∀ r ∈ c.eventFields,
        ∃ event ∈ (projectInterfaceTrace trace spec composition).trace.events, event.id = r.1)
  idempotent :
    (projectInterfaceTrace (projectInterfaceTrace trace spec composition).trace spec
      composition).trace = (projectInterfaceTrace trace spec composition).trace

section Projection

variable {spec : CompositionSpec} {composition : CompositionResult} {trace : AnnotatedTrace}

theorem privateTypeOwners_ne_nil_iff {eventType : String} :
    privateTypeOwners (buildInterfaceContracts composition) eventType ≠ [] ↔
      IsPrivateType composition eventType := by
  have hpublic : ((buildInterfaceContracts composition).any (fun contract =>
      eventType ∈ contract.publicEventTypes)) = true ↔
      ∃ m ∈ composition.modules, eventType ∈ m.spec.ports.map ModulePort.eventType := by
    simp [buildInterfaceContracts, interfaceContract]
  unfold privateTypeOwners IsPrivateType
  by_cases hany : ∃ m ∈ composition.modules, eventType ∈ m.spec.ports.map ModulePort.eventType
  · rw [if_pos (hpublic.mpr hany)]
    simp only [ne_eq, not_true_eq_false, false_iff, not_and]
    rintro - hnone
    obtain ⟨m, hm, htype⟩ := hany
    exact hnone m hm htype
  · rw [if_neg (fun h => hany (hpublic.mp h))]
    have hnone : ∀ m ∈ composition.modules, eventType ∉ m.spec.ports.map ModulePort.eventType :=
      fun m hm htype => hany ⟨m, hm, htype⟩
    -- no module has a port for the type, so all slots of the type are private
    have hmem : ∀ m ∈ composition.modules, eventType ∈ (interfaceContract m).privateEventTypes ↔
        eventType ∈ m.spec.internalEvents ∨ ∃ s ∈ m.spec.slots, s.slot.eventType = eventType := by
      intro m hm
      simp only [interfaceContract, mem_sortedList, List.mem_toFinset, List.mem_append, List.mem_map,
        List.mem_filter, decide_eq_true_eq]
      refine or_congr_right ?_
      constructor
      · rintro ⟨s, hs, htype⟩
        exact ⟨s, hs.1, htype⟩
      · rintro ⟨s, hs, htype⟩
        refine ⟨s, ⟨hs, ?_⟩, htype⟩
        rw [htype]
        simpa using hnone m hm
    constructor
    · intro hne
      obtain ⟨owner, howner⟩ := List.exists_mem_of_ne_nil _ hne
      rw [mem_sortedList, List.mem_toFinset, List.mem_map] at howner
      obtain ⟨contract, hcontract, -⟩ := howner
      obtain ⟨hcontract, htype⟩ := List.mem_filter.mp hcontract
      obtain ⟨m, hm, rfl⟩ := List.mem_map.mp hcontract
      exact ⟨⟨m, hm, (hmem m hm).mp (of_decide_eq_true htype)⟩, hnone⟩
    · rintro ⟨⟨m, hm, htype⟩, -⟩
      refine List.ne_nil_of_mem (a := m.referenceName) ?_
      rw [mem_sortedList, List.mem_toFinset, List.mem_map]
      refine ⟨interfaceContract m, List.mem_filter.mpr ⟨List.mem_map_of_mem hm, ?_⟩, rfl⟩
      exact decide_eq_true ((hmem m hm).mpr htype)

theorem mem_projected {event : AnnotatedEvent} :
    event ∈ (projectInterfaceTrace trace spec composition).trace.events ↔
      event ∈ trace.events ∧ (classifyEvent composition event).retains = true :=
  List.mem_filter

/-- The class of an event that comes from a slot. -/
theorem classifyEvent_of_slot (hnodup : (composition.slots.map (fun s => s.slot.id)).Nodup)
    {s : ModuleSlot} (hs : s ∈ composition.slots) {event : AnnotatedEvent}
    (hid : event.id = s.slot.id) :
    classifyEvent composition event =
      if slotOwner s = none ∧ privateTypeOwners (buildInterfaceContracts composition)
        event.eventType ≠ [] then
        ⟨some ("+".intercalate (privateTypeOwners (buildInterfaceContracts composition)
          event.eventType)), some "private"⟩
      else ⟨slotOwner s, some (slotVisibility s)⟩ := by
  have hfound : (visibilityById composition.slots).get? event.id =
      some ⟨slotOwner s, some (slotVisibility s)⟩ := by
    refine Dict.get?_ofList_of_mem ?_ (List.mem_map.mpr ⟨s, hs, by rw [hid]⟩)
    rw [List.map_map]
    exact hnodup
  unfold classifyEvent
  rw [hfound]

/-- The projection of a trace to the interface of an accepted composition. -/
theorem projectsInterface (hnodup : (composition.slots.map (fun s => s.slot.id)).Nodup)
    (spec : CompositionSpec) (trace : AnnotatedTrace) : ProjectsInterface spec composition trace := by
  have hinj := List.inj_on_of_nodup_map
    (show (trace.events.map (fun event => event.id)).Nodup by
      have h := trace.nodup
      rwa [List.map_map] at h)
  constructor
  case retained => exact List.filter_sublist
  case hidden => exact List.filter_sublist.map _
  case split =>
    intro event hevent
    rw [mem_projected]
    constructor
    · rintro ⟨-, hretains⟩ hmem
      obtain ⟨other, hother, hid⟩ := List.mem_map.mp hmem
      obtain ⟨hother, hhidden⟩ := List.mem_filter.mp hother
      obtain rfl := hinj hother hevent hid
      simp [hretains] at hhidden
    · intro hmem
      refine ⟨hevent, ?_⟩
      by_contra hhidden
      exact hmem (List.mem_map.mpr ⟨event, List.mem_filter.mpr ⟨hevent, by simpa using hhidden⟩, rfl⟩)
  case privateSlots =>
    intro s hs hprivate howner event _ hid hmem
    have hretains := (mem_projected.mp hmem).2
    rw [classifyEvent_of_slot hnodup hs hid, if_neg (fun h => howner h.1)] at hretains
    simp [EventClass.retains, howner, hprivate] at hretains
  case publicSlots =>
    intro s hs hpublic event hevent hid hkept
    refine mem_projected.mpr ⟨hevent, ?_⟩
    rw [classifyEvent_of_slot hnodup hs hid, if_neg]
    · simp [EventClass.retains, hpublic]
    · rintro ⟨hnone, howners⟩
      rcases hkept with howner | hnot
      · exact howner hnone
      · exact hnot (privateTypeOwners_ne_nil_iff.mp howners)
  case constraints => exact List.filter_sublist
  case meaning =>
    intro c hc
    constructor
    · intro hmem r hr
      have hrefs := List.all_eq_true.mp (List.mem_filter.mp hmem).2 r hr
      exact List.mem_map.mp (of_decide_eq_true hrefs)
    · intro hrefs
      refine List.mem_filter.mpr ⟨hc, List.all_eq_true.mpr (fun r hr => ?_)⟩
      exact decide_eq_true (List.mem_map.mpr (hrefs r hr))
  case idempotent =>
    -- the classes of the events are read off the composition and the events alone
    simp only [projectInterfaceTrace, List.filter_filter, Bool.and_self]

end Projection

/-- The slots of an accepted composition have distinct ids. -/
theorem nodup_slots_of_composeModules {Context : Type} {catalog : EventCatalog}
    {resolve : Except PyError Context}
    {load : Context → ModuleReference → Except PyError ModuleFile} {spec : CompositionSpec}
    {composition : CompositionResult}
    (accepted : composeModules catalog resolve load spec = .ok composition) :
    (composition.slots.map (fun s => s.slot.id)).Nodup := by
  have hnodup := composition.completion.slots_nodup
  rw [(composed_of_composeModules accepted).completionSlots, List.map_map] at hnodup
  exact hnodup

/-- The projection of any trace to the interface of a composition that was accepted. -/
theorem projectsInterface_of_composeModules {Context : Type} (catalog : EventCatalog)
    (resolve : Except PyError Context)
    (load : Context → ModuleReference → Except PyError ModuleFile) (spec : CompositionSpec)
    (composition : CompositionResult)
    (accepted : composeModules catalog resolve load spec = .ok composition)
    (trace : AnnotatedTrace) : ProjectsInterface spec composition trace :=
  projectsInterface (nodup_slots_of_composeModules accepted) spec trace

/-! ## A public slot without an owner -/

/-- A slot without a port, which declares itself public and names no owner. -/
def unownedSlot : ModuleSlot where
  slot := hiddenSlot.slot
  annotations := .ofList
    [("module_spec", .scalar .none), ("module_visibility", .scalar (.str "public"))]

def unownedLoad (_ : Unit) (reference : ModuleReference) : Except PyError ModuleFile := do
  let spec ← ModuleSpec.create "a"
    { ports := [], internalEvents := [], slots := [unownedSlot], rules := []
      stateVariables := [], constraints := [] }
  return { path := reference.path, spec }

def unownedReference : ModuleReference := ⟨"a", "a.yaml", leakName_ne, leakPath_ne⟩

theorem unownedModules_nodup : ([unownedReference].map ModuleReference.name).Nodup := by decide

def unownedComposition : CompositionSpec where
  name := "unowned"
  modules := [unownedReference]
  connections := []
  constraints := []
  horizon := 0
  metadata := .empty
  name_ne := by decide
  modules_nodup := unownedModules_nodup
  connections_nodup := List.nodup_nil
  constraints_bool := Expr.bool_of_mem_nil

theorem slotEvent_id_ne : "hidden" ≠ "" := by decide

theorem slotEvent_type_ne : "A.Hidden" ≠ "" := by decide

/-- The event of the slot. -/
def slotEvent : AnnotatedEvent where
  id := "hidden"
  eventType := "A.Hidden"
  fields := .empty
  cycle := .concrete 0
  occurs := .known true
  annotations := .empty
  id_ne := slotEvent_id_ne
  eventType_ne := slotEvent_type_ne
  cycle_sort := EventCycle.int_of_start
  occurs_sort := Occurs.bool_of_known true

def slotTrace : AnnotatedTrace where
  events := [slotEvent]
  constraints := []
  isPartial := false
  nodup := by decide
  bool_constraints := Expr.bool_of_mem_nil

theorem leakComposition_projects : ∃ composition,
    composeModules leakCatalog (.ok ()) leakLoad leakComposition = .ok composition ∧
      ProjectsInterface leakComposition composition slotTrace := by
  obtain ⟨composition, haccepted⟩ := leakComposition_accepted
  exact ⟨composition, haccepted, projectsInterface_of_composeModules leakCatalog (.ok ()) leakLoad
    leakComposition composition haccepted slotTrace⟩

/-- The slot says that it is public, and its event is hidden. -/
theorem unownedSlot_hidden : ∃ composition,
    composeModules leakCatalog (.ok ()) unownedLoad unownedComposition = .ok composition ∧
    ∃ s ∈ composition.slots, slotVisibility s = "public" ∧ slotEvent.id = s.slot.id ∧
      slotEvent ∈ slotTrace.events ∧
      slotEvent ∉ (projectInterfaceTrace slotTrace unownedComposition composition).trace.events := by
  have haccepted : ((composeModules leakCatalog (.ok ()) unownedLoad unownedComposition).toOption.map
      (fun composition => (composition.slots.map (fun s => (slotVisibility s, s.slot.id)),
        (projectInterfaceTrace slotTrace unownedComposition composition).certificate.hiddenEventIds))) =
      some ([("public", "hidden")], ["hidden"]) := by decide +kernel
  obtain ⟨composition, hcomposition, hparts⟩ := Option.map_eq_some_iff.mp haccepted
  rw [toOption_eq_some] at hcomposition
  obtain ⟨hslots, hhidden⟩ := Prod.mk.inj hparts
  obtain ⟨s, hs, hparts⟩ := List.mem_map.mp (hslots ▸ List.mem_singleton_self ("public", "hidden"))
  obtain ⟨hpublic, hid⟩ := Prod.mk.inj hparts
  refine ⟨composition, hcomposition, s, hs, hpublic, hid.symm, List.mem_singleton_self _, ?_⟩
  intro hmem
  have hsplit := (projectsInterface (nodup_slots_of_composeModules hcomposition)
    unownedComposition slotTrace).split slotEvent (List.mem_singleton_self _)
  exact hsplit.mp hmem (hhidden ▸ List.mem_singleton_self "hidden")

end Umcm
