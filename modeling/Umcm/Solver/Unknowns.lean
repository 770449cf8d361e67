import Umcm.Solver.Origin

/-!
# Symbols of unknowns

What a slot or an observed event leaves open is filled with a symbol. Its name
is built from the id and the attribute with the separator `::`, which neither
of them is kept from containing.

* `distinctSymbols_iff`: when the symbols of different unknowns differ.
-/

namespace Umcm

open Except

/-- What an event can leave open: its occurrence, its cycle or a field. -/
inductive Attribute where
  | occurs
  | cycle
  | field (name : String)
deriving DecidableEq

/-- How the symbol of the attribute ends. -/
def Attribute.suffix : Attribute → String
  | .occurs => "::occurs"
  | .cycle => "::cycle"
  | .field name => "::field::" ++ name

/-- The expression that the event has for the attribute. -/
def EventInstance.expressionAt (event : EventInstance) : Attribute → Option Expr
  | .occurs =>
    match event.occurs with
    | .symbolic e => some e
    | .known _ => none
  | .cycle =>
    match event.cycle with
    | .symbolic e => some e
    | _ => none
  | .field name =>
    match event.fields.get? name with
    | some (.expr e) => some e
    | _ => none

/-- The required fields of the type that are not among the fields. -/
def EventType.missing (eventType : EventType) (fields : Dict String Term) : List String :=
  (eventType.fields.filter (fun spec =>
    spec.required && (fields.get? spec.name).isNone)).map FieldSpec.name

/-- `self.cycle is None`. -/
def EventSlot.lacksCycle (slot : EventSlot) : Bool :=
  match slot.cycle with
  | .value .none => true
  | _ => false

/-- What the slot leaves open. -/
def EventSlot.openAttributes (slot : EventSlot) (eventType : EventType) : List Attribute :=
  (if slot.required then [] else [.occurs]) ++
    (if slot.lacksCycle then [.cycle] else []) ++
    (eventType.missing slot.fields).map .field

/-- What the observed event leaves open. -/
def EventInstance.openAttributes (event : EventInstance) (eventType : EventType) :
    List Attribute :=
  (eventType.missing event.fields).map .field

/-- The symbol with this name is created for the attribute of the event with this id. -/
inductive Creates (catalog : EventCatalog) (trace : Trace) (spec : CompletionSpec) :
    String → Attribute → String → Prop where
  | slot {slot : EventSlot} {eventType : EventType} {event : EventInstance} {a : Attribute}
      {name : String} {sort : IrSort} (hslot : slot ∈ spec.slots)
      (htype : catalog.resolve slot.eventType = .ok eventType)
      (hopen : a ∈ slot.openAttributes eventType)
      (hevent : slot.materialize catalog = .ok event)
      (hname : event.expressionAt a = some (.symbol name sort)) :
      Creates catalog trace spec slot.id a name
  | observed {event event' : EventInstance} {eventType : EventType} {a : Attribute}
      {name : String} {sort : IrSort} (hevent : event ∈ trace.events)
      (htype : catalog.resolve event.eventType = .ok eventType)
      (hopen : a ∈ event.openAttributes eventType)
      (hevent' : materializePartialEvent catalog event = .ok event')
      (hname : event'.expressionAt a = some (.symbol name sort)) :
      Creates catalog trace spec event.id a name

/-- Different unknowns have different symbols. -/
def DistinctSymbols (catalog : EventCatalog) (trace : Trace) (spec : CompletionSpec) : Prop :=
  ∀ id a id' a' name, Creates catalog trace spec id a name →
    Creates catalog trace spec id' a' name → id = id' ∧ a = a'

/-! ## Names -/

namespace Attribute

theorem suffix_injective {a b : Attribute} (h : a.suffix = b.suffix) : a = b := by
  have hchars := congrArg String.toList h
  cases a <;> cases b <;> simp [suffix, String.toList_inj] at hchars ⊢
  exact hchars

/-- An id goes on after another where the name of a field of the latter does. -/
def Continues (id : String) (missing : List String) (id' : String) (left : List Attribute) :
    Prop :=
  ∃ t g b, g ∈ missing ∧ b ∈ left ∧ id' = id ++ "::field" ++ t ∧ "::" ++ g = t ++ b.suffix

theorem toList_suffix (a : Attribute) : ∃ c r, a.suffix.toList = ':' :: ':' :: c :: r ∧ c ≠ ':' := by
  cases a with
  | occurs => exact ⟨'o', _, rfl, by decide⟩
  | cycle => exact ⟨'c', _, rfl, by decide⟩
  | field name =>
      refine ⟨'f', "ield::".toList ++ name.toList, ?_, by decide⟩
      simp [suffix, String.toList_append]

/-- Where one suffix ends with another, it names a field unless they are equal. -/
theorem eq_or_field_of_suffix {a b : Attribute} {u : List Char}
    (h : a.suffix.toList = u ++ b.suffix.toList) :
    (u = [] ∧ a = b) ∨
      ∃ t g, a = .field g ∧ u = "::field".toList ++ t ∧
        "::".toList ++ g.toList = t ++ b.suffix.toList := by
  rcases eq_or_ne u [] with rfl | hne
  · exact Or.inl ⟨rfl, suffix_injective (String.toList_inj.mp (by simpa using h))⟩
  · right
    obtain ⟨c, r, hb, hc⟩ := toList_suffix b
    rw [hb] at h
    -- the suffix of `b` starts with two colons, which `a` has at the front or after `field`
    cases a with
    | occurs =>
        have hlength := congrArg List.length h
        rcases u with _ | ⟨_, _ | ⟨_, _ | ⟨_, _ | ⟨_, _ | ⟨_, _ | ⟨_, _ | ⟨_, u⟩⟩⟩⟩⟩⟩⟩ <;>
          simp [suffix] at h hne hlength
        omega
    | cycle =>
        rcases u with _ | ⟨_, _ | ⟨_, _ | ⟨_, _ | ⟨_, _ | ⟨_, _ | ⟨_, _ | ⟨_, u⟩⟩⟩⟩⟩⟩⟩ <;>
          simp [suffix] at h hne
    | field g =>
        rcases u with _ | ⟨_, _ | ⟨_, _ | ⟨_, _ | ⟨_, _ | ⟨_, _ | ⟨_, _ | ⟨_, u⟩⟩⟩⟩⟩⟩⟩ <;>
          simp [suffix] at h hne
        obtain ⟨rfl, rfl, rfl, rfl, rfl, rfl, rfl, hrest⟩ := h
        exact ⟨u, g, rfl, rfl, by simpa [hb] using hrest⟩

/-- Equal names of different attributes: the separator stands inside an id. -/
theorem eq_or_continues_of_append_eq {id id' : String} {a b : Attribute}
    (h : id ++ a.suffix = id' ++ b.suffix) (hlength : id.toList.length ≤ id'.toList.length) :
    (id = id' ∧ a = b) ∨
      ∃ t g, a = .field g ∧ id' = id ++ "::field" ++ t ∧ "::" ++ g = t ++ b.suffix := by
  have hchars := congrArg String.toList h
  simp only [String.toList_append] at hchars
  have hprefix : id.toList <+: id'.toList :=
    List.prefix_of_prefix_length_le (List.prefix_append _ _) ⟨_, hchars.symm⟩ hlength
  obtain ⟨u, hu⟩ := hprefix
  rw [← hu, List.append_assoc, List.append_cancel_left_eq] at hchars
  rcases eq_or_field_of_suffix hchars with ⟨rfl, rfl⟩ | ⟨t, g, rfl, rfl, hrest⟩
  · left
    refine ⟨String.toList_inj.mp ?_, rfl⟩
    simpa using hu
  · right
    refine ⟨String.ofList t, g, rfl, String.toList_inj.mp ?_, String.toList_inj.mp ?_⟩
    · simpa [String.toList_append] using hu.symm
    · simpa [String.toList_append] using hrest

/-- Equal names of different attributes: one of the ids goes on after the other. -/
theorem names_eq {stem id id' : String} {a b : Attribute}
    (h : stem ++ id ++ a.suffix = stem ++ id' ++ b.suffix) :
    (id = id' ∧ a = b) ∨
      (∃ t g, a = .field g ∧ id' = id ++ "::field" ++ t ∧ "::" ++ g = t ++ b.suffix) ∨
      ∃ t g, b = .field g ∧ id = id' ++ "::field" ++ t ∧ "::" ++ g = t ++ a.suffix := by
  have h' : id ++ a.suffix = id' ++ b.suffix := by
    have hchars := congrArg String.toList h
    simp only [String.toList_append, List.append_assoc, List.append_cancel_left_eq] at hchars
    rw [← String.toList_inj, String.toList_append, String.toList_append]
    exact hchars
  rcases Nat.le_total id.toList.length id'.toList.length with hlength | hlength
  · rcases eq_or_continues_of_append_eq h' hlength with heq | hcontinues
    · exact Or.inl heq
    · exact Or.inr (Or.inl hcontinues)
  · rcases eq_or_continues_of_append_eq h'.symm hlength with ⟨rfl, rfl⟩ | hcontinues
    · exact Or.inl ⟨rfl, rfl⟩
    · exact Or.inr (Or.inr hcontinues)

/-- The name of the field goes on through the longer id. -/
theorem continued_name {stem id id' t g : String} {b : Attribute}
    (hid : id' = id ++ "::field" ++ t) (hname : "::" ++ g = t ++ b.suffix) :
    stem ++ id' ++ b.suffix = stem ++ id ++ suffix (.field g) := by
  have hsuffix : suffix (.field g) = "::field" ++ ("::" ++ g) := by
    rw [suffix, ← String.append_assoc]
    rfl
  rw [hid, hsuffix, hname]
  simp only [String.append_assoc]

theorem not_append_field_eq (id t : String) : id ≠ id ++ "::field" ++ t := by
  intro h
  have hlength := congrArg (fun s => s.toList.length) h
  simp [String.toList_append] at hlength

end Attribute

/-! ## Created symbols -/

theorem EventSlot.field_mem_openAttributes {slot : EventSlot} {eventType : EventType}
    {g : String} :
    .field g ∈ slot.openAttributes eventType ↔ g ∈ eventType.missing slot.fields := by
  unfold openAttributes
  split_ifs <;> simp

theorem EventInstance.field_mem_openAttributes {event : EventInstance} {eventType : EventType}
    {g : String} :
    .field g ∈ event.openAttributes eventType ↔ g ∈ eventType.missing event.fields := by
  unfold openAttributes
  simp

theorem EventType.mem_missing {eventType : EventType} {fields : Dict String Term} {k : String} :
    k ∈ eventType.missing fields ↔
      ∃ spec ∈ eventType.fields, spec.required = true ∧ spec.name = k ∧ fields.get? k = none := by
  simp only [missing, List.mem_map, List.mem_filter, Bool.and_eq_true, Option.isNone_iff_eq_none]
  constructor
  · rintro ⟨spec, ⟨hspec, hrequired, hnone⟩, rfl⟩
    exact ⟨spec, hspec, hrequired, rfl, hnone⟩
  · rintro ⟨spec, hspec, hrequired, rfl, hnone⟩
    exact ⟨spec, ⟨hspec, hrequired, hnone⟩, rfl⟩

/-- A missing field gets the symbol with its name. -/
theorem get?_completeFields_of_missing (symbolPrefix : String) {eventType : EventType}
    {fields : Dict String Term} {k : String} (h : k ∈ eventType.missing fields) :
    ∃ sort, (EventSlot.completeFields symbolPrefix eventType fields).get? k =
      some (.expr (.symbol (symbolPrefix ++ k) sort)) := by
  obtain ⟨spec, hspec, hrequired, rfl, hnone⟩ := EventType.mem_missing.mp h
  rw [EventSlot.completeFields]
  clear h
  generalize eventType.fields = specs at hspec ⊢
  induction specs generalizing fields with
  | nil => cases hspec
  | cons first rest ih =>
      rw [List.foldl_cons]
      by_cases hfirst : first.required = true ∧ first.name = spec.name
      · -- the field is filled here and kept by the rest
        refine ⟨first.sort, get?_foldl_completeField ?_⟩
        rw [EventSlot.completeField, hfirst.1, hfirst.2, hnone]
        simp
      · have hrest : spec ∈ rest := by
          rcases List.mem_cons.mp hspec with rfl | hrest
          · exact absurd ⟨hrequired, rfl⟩ hfirst
          · exact hrest
        refine ih ?_ hrest
        rw [EventSlot.completeField]
        split_ifs with hmissing
        · rw [Bool.and_eq_true] at hmissing
          have hne : spec.name ≠ first.name := fun heq => hfirst ⟨hmissing.1, heq.symm⟩
          rw [Dict.get?_insert_of_ne _ hne]
          exact hnone
        · exact hnone

/-- The constructor accepts the cycle. -/
def EventSlot.AcceptsCycle (slot : EventSlot) : Prop :=
  ∃ c, EventInstance.checkCycle slot.cycle = .ok c

section Slot

variable {catalog : EventCatalog} {slot : EventSlot} {eventType : EventType}

theorem checkCycle_cycleTerm :
    (∃ c, EventInstance.checkCycle slot.cycleTerm = .ok c) ↔ slot.AcceptsCycle := by
  unfold EventSlot.AcceptsCycle EventSlot.cycleTerm
  split
  next hcycle =>
    rw [hcycle]
    exact iff_of_true ⟨_, rfl⟩ ⟨_, rfl⟩
  next => rfl

theorem cycleTerm_of_lacksCycle (h : slot.lacksCycle = true) :
    slot.cycleTerm = .expr (.symbol s!"slot::{slot.id}::cycle" .int) := by
  unfold EventSlot.lacksCycle at h
  unfold EventSlot.cycleTerm
  generalize slot.cycle = cycle at h ⊢
  split at h
  · rfl
  · cases h

theorem checkOccurs_occursTerm : ∃ o, EventInstance.checkOccurs slot.occursTerm = .ok o := by
  unfold EventSlot.occursTerm
  split_ifs
  · exact ⟨_, rfl⟩
  · exact ⟨_, rfl⟩

theorem exists_materialize_iff (htype : catalog.resolve slot.eventType = .ok eventType) :
    (∃ event, slot.materialize catalog = .ok event) ↔ slot.AcceptsCycle := by
  obtain ⟨o, ho⟩ := @checkOccurs_occursTerm slot
  rw [← checkCycle_cycleTerm]
  unfold EventSlot.materialize EventInstance.create
  simp only [htype, ok_bind, slot.id_ne, slot.eventType_ne, dite_false, ho]
  cases EventInstance.checkCycle slot.cycleTerm with
  | error e =>
      refine iff_of_false ?_ ?_
      · rintro ⟨_, h⟩
        cases h
      · rintro ⟨_, h⟩
        cases h
  | ok c => exact iff_of_true ⟨_, rfl⟩ ⟨c, rfl⟩

/-- An open attribute of a slot gets the symbol with its name. -/
theorem expressionAt_of_materialize {event : EventInstance} {a : Attribute}
    (htype : catalog.resolve slot.eventType = .ok eventType)
    (h : slot.materialize catalog = .ok event) (hopen : a ∈ slot.openAttributes eventType) :
    ∃ sort, event.expressionAt a = some (.symbol ("slot::" ++ slot.id ++ a.suffix) sort) := by
  unfold EventSlot.materialize EventInstance.create at h
  simp only [htype, ok_bind, slot.id_ne, slot.eventType_ne, dite_false] at h
  obtain ⟨c, hc, h⟩ := bind_eq_ok.mp h
  obtain ⟨o, ho, h⟩ := bind_eq_ok.mp h
  cases h
  simp only [EventSlot.openAttributes, List.mem_append, List.mem_map] at hopen
  rcases hopen with (hopen | hopen) | ⟨k, hk, rfl⟩
  · split_ifs at hopen with hrequired
    · cases hopen
    · obtain rfl := List.mem_singleton.mp hopen
      rw [Bool.not_eq_true] at hrequired
      unfold EventSlot.occursTerm at ho
      simp only [hrequired, Bool.false_eq_true, if_false] at ho
      cases ho
      exact ⟨.bool, by simp [EventInstance.expressionAt, Attribute.suffix, String.append_assoc, toString]⟩
  · split_ifs at hopen with hcycle
    · obtain rfl := List.mem_singleton.mp hopen
      rw [cycleTerm_of_lacksCycle hcycle] at hc
      cases hc
      exact ⟨.int, by simp [EventInstance.expressionAt, Attribute.suffix, String.append_assoc, toString]⟩
    · cases hopen
  · obtain ⟨sort, hget⟩ := get?_completeFields_of_missing
      s!"slot::{slot.id}::field::" hk
    refine ⟨sort, ?_⟩
    simp only [EventInstance.expressionAt, hget]
    simp [Attribute.suffix, String.append_assoc, toString]

/-- An open attribute of an observed event gets the symbol with its name. -/
theorem expressionAt_of_materializePartialEvent {event event' : EventInstance} {a : Attribute}
    (htype : catalog.resolve event.eventType = .ok eventType)
    (h : materializePartialEvent catalog event = .ok event')
    (hopen : a ∈ event.openAttributes eventType) :
    ∃ sort, event'.expressionAt a = some (.symbol ("trace::" ++ event.id ++ a.suffix) sort) := by
  unfold materializePartialEvent at h
  rw [htype] at h
  cases h
  obtain ⟨k, hk, rfl⟩ := List.mem_map.mp hopen
  obtain ⟨sort, hget⟩ := get?_completeFields_of_missing
    s!"trace::{event.id}::field::" hk
  refine ⟨sort, ?_⟩
  simp only [EventInstance.expressionAt, hget]
  simp [Attribute.suffix, String.append_assoc, toString]

end Slot

section Names

variable {catalog : EventCatalog} {trace : Trace} {spec : CompletionSpec} {id name : String}
  {a : Attribute}

/-- The created symbols have the names of their unknowns. -/
theorem creates_iff :
    Creates catalog trace spec id a name ↔
      (∃ slot ∈ spec.slots, ∃ eventType, catalog.resolve slot.eventType = .ok eventType ∧
        a ∈ slot.openAttributes eventType ∧ slot.AcceptsCycle ∧ slot.id = id ∧
        name = "slot::" ++ id ++ a.suffix) ∨
      (∃ event ∈ trace.events, ∃ eventType, catalog.resolve event.eventType = .ok eventType ∧
        a ∈ event.openAttributes eventType ∧ event.id = id ∧
        name = "trace::" ++ id ++ a.suffix) := by
  constructor
  · rintro (⟨hslot, htype, hopen, hevent, hname⟩ | ⟨hevent, htype, hopen, hevent', hname⟩)
    · left
      obtain ⟨sort, hname'⟩ := expressionAt_of_materialize htype hevent hopen
      rw [hname] at hname'
      cases hname'
      exact ⟨_, hslot, _, htype, hopen, (exists_materialize_iff htype).mp ⟨_, hevent⟩, rfl, rfl⟩
    · right
      obtain ⟨sort, hname'⟩ := expressionAt_of_materializePartialEvent htype hevent' hopen
      rw [hname] at hname'
      cases hname'
      exact ⟨_, hevent, _, htype, hopen, rfl, rfl⟩
  · rintro (⟨slot, hslot, eventType, htype, hopen, haccepts, rfl, rfl⟩ |
      ⟨event, hevent, eventType, htype, hopen, rfl, rfl⟩)
    · obtain ⟨event, hevent⟩ := (exists_materialize_iff htype).mpr haccepts
      obtain ⟨sort, hname⟩ := expressionAt_of_materialize htype hevent hopen
      exact .slot hslot htype hopen hevent hname
    · have hevent' : ∃ event', materializePartialEvent catalog event = .ok event' := by
        unfold materializePartialEvent
        rw [htype]
        exact ⟨_, rfl⟩
      obtain ⟨event', hevent'⟩ := hevent'
      obtain ⟨sort, hname⟩ := expressionAt_of_materializePartialEvent htype hevent' hopen
      exact .observed hevent htype hopen hevent' hname

/-- Symbols of slots and of observed events start with different letters. -/
theorem slot_name_ne_trace_name (x y : String) : "slot::" ++ x ≠ "trace::" ++ y := by
  intro h
  have hchars := congrArg String.toList h
  simp [String.toList_append] at hchars

end Names

/-- No slot id, and no id of an observed event, goes on after another one where the
name of a missing field does. -/
structure Separated (catalog : EventCatalog) (trace : Trace) (spec : CompletionSpec) : Prop where
  slots : ∀ s ∈ spec.slots, ∀ t ∈ spec.slots, ∀ S T, catalog.resolve s.eventType = .ok S →
    catalog.resolve t.eventType = .ok T → s.AcceptsCycle → t.AcceptsCycle →
    ¬ Attribute.Continues s.id (S.missing s.fields) t.id (t.openAttributes T)
  observed : ∀ e ∈ trace.events, ∀ f ∈ trace.events, ∀ E F, catalog.resolve e.eventType = .ok E →
    catalog.resolve f.eventType = .ok F →
    ¬ Attribute.Continues e.id (E.missing e.fields) f.id (f.openAttributes F)

/-- The symbols of different unknowns differ exactly when no id goes on after another
where the name of a missing field does. -/
theorem distinctSymbols_iff (catalog : EventCatalog) (trace : Trace) (spec : CompletionSpec) :
    DistinctSymbols catalog trace spec ↔ Separated catalog trace spec := by
  constructor
  · intro h
    refine ⟨?_, ?_⟩
    · rintro s hs t ht S T hS hT hsaccepts htaccepts ⟨u, g, b, hg, hb, hid, hname⟩
      have hfirst : Creates catalog trace spec s.id (.field g)
          ("slot::" ++ s.id ++ Attribute.suffix (.field g)) :=
        creates_iff.mpr (Or.inl ⟨s, hs, S, hS, EventSlot.field_mem_openAttributes.mpr hg,
          hsaccepts, rfl, rfl⟩)
      have hsecond : Creates catalog trace spec t.id b ("slot::" ++ t.id ++ b.suffix) :=
        creates_iff.mpr (Or.inl ⟨t, ht, T, hT, hb, htaccepts, rfl, rfl⟩)
      rw [Attribute.continued_name hid hname] at hsecond
      exact Attribute.not_append_field_eq _ _ ((h _ _ _ _ _ hfirst hsecond).1.trans hid)
    · rintro e he f hf E F hE hF ⟨u, g, b, hg, hb, hid, hname⟩
      have hfirst : Creates catalog trace spec e.id (.field g)
          ("trace::" ++ e.id ++ Attribute.suffix (.field g)) :=
        creates_iff.mpr (Or.inr ⟨e, he, E, hE, EventInstance.field_mem_openAttributes.mpr hg,
          rfl, rfl⟩)
      have hsecond : Creates catalog trace spec f.id b ("trace::" ++ f.id ++ b.suffix) :=
        creates_iff.mpr (Or.inr ⟨f, hf, F, hF, hb, rfl, rfl⟩)
      rw [Attribute.continued_name hid hname] at hsecond
      exact Attribute.not_append_field_eq _ _ ((h _ _ _ _ _ hfirst hsecond).1.trans hid)
  · rintro ⟨hslots, hobserved⟩ id a id' b name hfirst hsecond
    rcases creates_iff.mp hfirst with ⟨s, hs, S, hS, ha, hsaccepts, rfl, rfl⟩ |
        ⟨e, he, E, hE, ha, rfl, rfl⟩ <;>
      rcases creates_iff.mp hsecond with ⟨t, ht, T, hT, hb, htaccepts, rfl, heq⟩ |
        ⟨f, hf, F, hF, hb, rfl, heq⟩
    · rcases Attribute.names_eq heq with hsame | ⟨u, g, rfl, hid, hname⟩ | ⟨u, g, rfl, hid, hname⟩
      · exact hsame
      · exact absurd ⟨u, g, b, EventSlot.field_mem_openAttributes.mp ha, hb, hid, hname⟩
          (hslots s hs t ht S T hS hT hsaccepts htaccepts)
      · exact absurd ⟨u, g, a, EventSlot.field_mem_openAttributes.mp hb, ha, hid, hname⟩
          (hslots t ht s hs T S hT hS htaccepts hsaccepts)
    · rw [String.append_assoc, String.append_assoc] at heq
      exact absurd heq (slot_name_ne_trace_name _ _)
    · rw [String.append_assoc, String.append_assoc] at heq
      exact absurd heq.symm (slot_name_ne_trace_name _ _)
    · rcases Attribute.names_eq heq with hsame | ⟨u, g, rfl, hid, hname⟩ | ⟨u, g, rfl, hid, hname⟩
      · exact hsame
      · exact absurd ⟨u, g, b, EventInstance.field_mem_openAttributes.mp ha, hb, hid, hname⟩
          (hobserved e he f hf E F hE hF)
      · exact absurd ⟨u, g, a, EventInstance.field_mem_openAttributes.mp hb, ha, hid, hname⟩
          (hobserved f hf e he F E hF hE)

/-! ## A shared symbol -/

/-- A timer, which has a field of the name `cycle`. -/
def timerType : EventType :=
  ⟨"Timer.Tick", [⟨"cycle", .int, true, by decide⟩], by decide, by decide⟩

def timerCatalog : EventCatalog := ⟨.ofList [("Timer.Tick", timerType)], by decide +kernel⟩

def timerSlot (id : String) (id_ne : id ≠ "") : EventSlot where
  id := id
  eventType := "Timer.Tick"
  fields := .empty
  required := true
  cycle := .value .none
  id_ne := id_ne
  eventType_ne := by decide

theorem timerName_ne : "a" ≠ "" := by decide

theorem timerOtherName_ne : "a::field" ≠ "" := by decide

/-- The field of the first slot and the cycle of the second one are open. -/
def timerSpec : CompletionSpec where
  slots := [timerSlot "a" timerName_ne, timerSlot "a::field" timerOtherName_ne]
  transformations := []
  stateVariables := []
  constraints := []
  horizon := 4
  slots_nodup := by decide
  transformations_nodup := List.nodup_nil
  stateVariables_nodup := List.nodup_nil
  constraints_bool := Expr.bool_of_mem_nil

def timerTrace : Trace where
  events := []
  constraints := []
  isPartial := true
  nodup := List.nodup_nil
  bool_constraints := Expr.bool_of_mem_nil

theorem timerSpec_shares_symbol :
    timerTrace.validate timerCatalog true = .ok () ∧
      timerSpec.validate timerCatalog timerTrace = .ok () ∧
      ¬ DistinctSymbols timerCatalog timerTrace timerSpec := by
  refine ⟨by decide +kernel, by decide +kernel, ?_⟩
  intro h
  have hfield : Creates timerCatalog timerTrace timerSpec "a" (.field "cycle")
      "slot::a::field::cycle" :=
    @Creates.slot _ _ _ (timerSlot "a" timerName_ne) _ _ _ _ _ List.mem_cons_self rfl
      (by decide +kernel) rfl rfl
  have hcycle : Creates timerCatalog timerTrace timerSpec "a::field" .cycle
      "slot::a::field::cycle" :=
    @Creates.slot _ _ _ (timerSlot "a::field" timerOtherName_ne) _ _ _ _ _
      (List.mem_cons_of_mem _ List.mem_cons_self) rfl (by decide +kernel) rfl rfl
  cases (h _ _ _ _ _ hfield hcycle).2

end Umcm
