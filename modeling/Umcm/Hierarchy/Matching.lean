import Umcm.Data.Gaps
import Umcm.Hierarchy.Model

/-!
# Matches of a summary rule

The backtracking search for events that fit the roles of a rule. A candidate is
compared with the event of the role in front of it, by cycle, and with all
events chosen so far, by id.

* `mem_iterRuleMatches`: which choices of events the search yields.
* `cycles_increase_iff`: the cycles of every match increase along the roles
  exactly when no candidate has two events in the wrong order around events
  without a cycle.
-/

namespace Umcm

/-! ## The search -/

/-- `_event_sort_key`; the events that are sorted have no symbolic cycle. -/
def eventSortKey (event : EventInstance) : ℕ ×ₗ ℤ ×ₗ String :=
  match event.cycle with
  | .concrete cycle => toLex (1, toLex ((cycle : ℤ), event.id))
  | _ => toLex (0, toLex (-1, event.id))

/-- `events_by_type.get(event_type, ())`. -/
def eventsOfType (events : List ConcreteEvent) (eventType : String) : List ConcreteEvent :=
  (events.filter (fun event => event.eventType = eventType)).insertionSort
    (fun a b => eventSortKey a.toEventInstance ≤ eventSortKey b.toEventInstance)

/-- The bindings after one field of a role. -/
def matchField (event : ConcreteEvent) (bindings : Dict String Value)
    (entry : String × MatchValue) : Option (Dict String Value) :=
  match event.field? entry.1 with
  | none => none
  | some actual =>
    match entry.2 with
    | .var name _ =>
      match bindings.get? name with
      | some existing =>
        if existing.pyEq actual then some (bindings.insert name actual) else none
      | none => some (bindings.insert name actual)
    | .literal (.value literal) => if actual.pyEq literal then some bindings else none
    | .literal (.expr _) => none

/-- `_match_role`. -/
def matchRole (role : EventRoleSpec) (event : ConcreteEvent) (bindings : Dict String Value) :
    Option (Dict String Value) :=
  if event.eventType = role.eventType then
    role.fields.entries.foldlM (matchField event) bindings
  else none

/-- `_cycles_ordered`; no cycle is symbolic. -/
def cyclesOrdered (strict : Bool) (previous current : ConcreteEvent) : Bool :=
  match previous.cycle?, current.cycle? with
  | some cycle, some cycle' => if strict then cycle < cycle' else cycle ≤ cycle'
  | _, _ => true

/-- The events of the roles, in the order of the roles, and the bindings. -/
structure RuleMatch where
  selected : List (String × ConcreteEvent)
  bindings : Dict String Value

namespace RuleMatch

def events (m : RuleMatch) : List ConcreteEvent := m.selected.map Prod.snd

/-- `roles.get(name)`. -/
def role? (m : RuleMatch) (name : String) : Option ConcreteEvent :=
  (m.selected.find? (fun p => p.1 = name)).map Prod.snd

def sourceIds (m : RuleMatch) : List String :=
  m.events.map (fun event => event.id)

end RuleMatch

/-- Whether the search goes on with the event. -/
def admits (rule : SummaryRuleSpec) (previous : Option ConcreteEvent)
    (selected : List (String × ConcreteEvent)) (event : ConcreteEvent) : Bool :=
  !(rule.distinctEvents && selected.any (fun p => p.2.id = event.id)) &&
    (!rule.ordered || previous.all (fun chosen => cyclesOrdered rule.strictOrder chosen event))

/-- `visit`, over the roles that are left. -/
def visit (events : List ConcreteEvent) (rule : SummaryRuleSpec) :
    List EventRoleSpec → Option ConcreteEvent → List (String × ConcreteEvent) →
    Dict String Value → List RuleMatch
  | [], _, selected, bindings => [⟨selected, bindings⟩]
  | role :: roles, previous, selected, bindings =>
    (eventsOfType events role.eventType).flatMap (fun event =>
      if admits rule previous selected event then
        match matchRole role event bindings with
        | some updated => visit events rule roles (some event) (selected ++ [(role.name, event)])
            updated
        | none => []
      else [])

/-- `_iter_rule_matches`, on the table of the events. -/
def iterRuleMatches (events : List ConcreteEvent) (rule : SummaryRuleSpec) : List RuleMatch :=
  visit events rule rule.roles none [] .empty

/-! ## What the search yields -/

theorem mem_eventsOfType {events : List ConcreteEvent} {eventType : String}
    {event : ConcreteEvent} :
    event ∈ eventsOfType events eventType ↔ event ∈ events ∧ event.eventType = eventType := by
  rw [eventsOfType, List.mem_insertionSort, List.mem_filter, decide_eq_true_eq]

/-- The bindings after the roles, on the events picked for them. -/
def unify : List EventRoleSpec → List ConcreteEvent → Dict String Value →
    Option (Dict String Value)
  | role :: roles, event :: picked, bindings =>
    (matchRole role event bindings).bind (unify roles picked)
  | _, _, bindings => some bindings

theorem admits_iff {rule : SummaryRuleSpec} {previous : Option ConcreteEvent}
    {selected : List (String × ConcreteEvent)} {event : ConcreteEvent} :
    admits rule previous selected event = true ↔
      (rule.distinctEvents = true → ∀ p ∈ selected, p.2.id ≠ event.id) ∧
      (rule.ordered = true → ∀ chosen ∈ previous,
        cyclesOrdered rule.strictOrder chosen event = true) := by
  unfold admits
  rw [Bool.and_eq_true]
  constructor
  · rintro ⟨hdistinct, hordered⟩
    refine ⟨fun h p hp heq => ?_, fun h chosen hchosen => ?_⟩
    · rw [h, Bool.true_and, Bool.not_eq_true', List.any_eq_false] at hdistinct
      exact hdistinct p hp (decide_eq_true heq)
    · rw [Option.mem_def] at hchosen
      rw [h, hchosen] at hordered
      simpa using hordered
  · rintro ⟨hdistinct, hordered⟩
    constructor
    · cases h : rule.distinctEvents with
      | false => rfl
      | true =>
          rw [Bool.true_and, Bool.not_eq_true', List.any_eq_false]
          intro p hp heq
          exact hdistinct h p hp (of_decide_eq_true heq)
    · cases h : rule.ordered with
      | false => rfl
      | true =>
          cases hprevious : previous with
          | none => rfl
          | some chosen => simpa using hordered h chosen hprevious

/-- What is asked of the events picked for the roles that are left. -/
structure Continues (events : List ConcreteEvent) (rule : SummaryRuleSpec)
    (roles : List EventRoleSpec) (previous : Option ConcreteEvent)
    (selected : List (String × ConcreteEvent)) (picked : List ConcreteEvent) : Prop where
  listed : List.Forall₂ (fun role event => event ∈ events ∧ event.eventType = role.eventType)
    roles picked
  distinct : rule.distinctEvents = true →
    (picked.map (fun event => event.id)).Nodup ∧
      ∀ p ∈ selected, ∀ event ∈ picked, p.2.id ≠ event.id
  neighbours : rule.ordered = true → (previous.toList ++ picked).IsChain
    (fun a b => cyclesOrdered rule.strictOrder a b = true)

section Search

variable {events : List ConcreteEvent} {rule : SummaryRuleSpec} {role : EventRoleSpec}
  {roles : List EventRoleSpec} {previous : Option ConcreteEvent}
  {selected : List (String × ConcreteEvent)} {event : ConcreteEvent} {picked : List ConcreteEvent}

theorem continues_cons : Continues events rule (role :: roles) previous selected (event :: picked) ↔
    (event ∈ events ∧ event.eventType = role.eventType) ∧
    admits rule previous selected event = true ∧
    Continues events rule roles (some event) (selected ++ [(role.name, event)]) picked := by
  rw [admits_iff]
  constructor
  · intro h
    rcases h with ⟨_ | ⟨hevent, hlisted⟩, hdistinct, hneighbours⟩
    refine ⟨hevent, ⟨fun hd p hp => ?_, fun ho chosen hchosen => ?_⟩, hlisted, fun hd => ?_,
      fun ho => ?_⟩
    · exact (hdistinct hd).2 p hp event List.mem_cons_self
    · have hchain := hneighbours ho
      rw [Option.mem_def] at hchosen
      rw [hchosen, Option.toList_some, List.singleton_append, List.isChain_cons_cons] at hchain
      exact hchain.1
    · have hnodup := (hdistinct hd).1
      rw [List.map_cons, List.nodup_cons] at hnodup
      refine ⟨hnodup.2, fun p hp event' hevent' heq => ?_⟩
      rcases List.mem_append.mp hp with hp | hp
      · exact (hdistinct hd).2 p hp event' (List.mem_cons_of_mem _ hevent') heq
      · rw [List.mem_singleton] at hp
        subst hp
        exact hnodup.1 (List.mem_map.mpr ⟨event', hevent', heq.symm⟩)
    · exact (hneighbours ho).right_of_append
  · rintro ⟨hevent, ⟨hnew, hnext⟩, h⟩
    refine ⟨.cons hevent h.listed, fun hd => ⟨?_, fun p hp event' hevent' => ?_⟩, fun ho => ?_⟩
    · rw [List.map_cons, List.nodup_cons]
      refine ⟨fun hmem => ?_, (h.distinct hd).1⟩
      obtain ⟨event', hevent', heq⟩ := List.mem_map.mp hmem
      exact (h.distinct hd).2 (role.name, event) (by simp) event' hevent' heq.symm
    · rcases List.mem_cons.mp hevent' with rfl | hevent'
      · exact hnew hd p hp
      · exact (h.distinct hd).2 p (List.mem_append_left _ hp) event' hevent'
    · have hchain : (event :: picked).IsChain
          (fun a b => cyclesOrdered rule.strictOrder a b = true) := h.neighbours ho
      cases previous with
      | none => exact hchain
      | some chosen => exact List.isChain_cons_cons.mpr ⟨hnext ho chosen rfl, hchain⟩

theorem mem_visit {bindings : Dict String Value} {m : RuleMatch} :
    m ∈ visit events rule roles previous selected bindings ↔
      ∃ picked, m.selected = selected ++ (roles.map EventRoleSpec.name).zip picked ∧
        Continues events rule roles previous selected picked ∧
        unify roles picked bindings = some m.bindings := by
  induction roles generalizing previous selected bindings with
  | nil =>
      rw [visit, List.mem_singleton]
      constructor
      · rintro rfl
        refine ⟨[], by simp, ⟨.nil, fun _ => ⟨by simp, by simp⟩, fun _ => ?_⟩, rfl⟩
        rw [List.append_nil]
        cases previous with
        | none => exact List.isChain_nil
        | some chosen => exact List.isChain_singleton chosen
      · rintro ⟨picked, hselected, -, hbindings⟩
        rcases m with ⟨selected', bindings'⟩
        simp only [List.map_nil, List.zip_nil_left, List.append_nil] at hselected
        rw [hselected, Option.some.inj hbindings]
  | cons role roles ih =>
      rw [visit, List.mem_flatMap]
      constructor
      · rintro ⟨event, hevent, hm⟩
        rw [mem_eventsOfType] at hevent
        by_cases hadmits : admits rule previous selected event = true
        · rw [if_pos hadmits] at hm
          cases hmatch : matchRole role event bindings with
          | none =>
              rw [hmatch] at hm
              cases hm
          | some updated =>
              rw [hmatch] at hm
              obtain ⟨picked, hselected, hcontinues, hbindings⟩ := ih.mp hm
              refine ⟨event :: picked, ?_, continues_cons.mpr ⟨hevent, hadmits, hcontinues⟩, ?_⟩
              · rw [hselected, List.map_cons, List.zip_cons_cons, List.append_assoc]
                rfl
              · rw [unify, hmatch]
                exact hbindings
        · rw [if_neg hadmits] at hm
          cases hm
      · rintro ⟨picked, hselected, hcontinues, hbindings⟩
        rcases picked with _ | ⟨event, picked⟩
        · cases hcontinues.listed
        · obtain ⟨hevent, hadmits, hcontinues⟩ := continues_cons.mp hcontinues
          rw [unify, Option.bind_eq_some_iff] at hbindings
          obtain ⟨updated, hmatch, hbindings⟩ := hbindings
          refine ⟨event, mem_eventsOfType.mpr hevent, ?_⟩
          rw [if_pos hadmits, hmatch]
          refine ih.mpr ⟨picked, ?_, hcontinues, hbindings⟩
          rw [hselected, List.map_cons, List.zip_cons_cons, List.append_assoc]
          rfl

end Search

/-- The choices of the search: one event for each role, and the bindings they give. -/
theorem mem_iterRuleMatches {events : List ConcreteEvent} {rule : SummaryRuleSpec} {m : RuleMatch} :
    m ∈ iterRuleMatches events rule ↔
      m.selected = (rule.roles.map EventRoleSpec.name).zip m.events ∧
      Continues events rule rule.roles none [] m.events ∧
      unify rule.roles m.events .empty = some m.bindings := by
  rw [iterRuleMatches, mem_visit]
  constructor
  · rintro ⟨picked, hselected, hcontinues, hbindings⟩
    rw [List.nil_append] at hselected
    have hevents : m.events = picked := by
      rw [RuleMatch.events, hselected, List.map_snd_zip]
      rw [List.length_map, hcontinues.listed.length_eq]
    rw [hevents]
    exact ⟨hselected, hcontinues, hbindings⟩
  · rintro ⟨hselected, hcontinues, hbindings⟩
    exact ⟨m.events, hselected, hcontinues, hbindings⟩

/-! ## Unification -/

/-- The field fits the pattern when the variables stand for what `σ` says. -/
def FitsField (σ : String → Key) (event : ConcreteEvent) (entry : String × MatchValue) : Prop :=
  ∃ actual, event.field? entry.1 = some actual ∧
    match entry.2 with
    | .var name _ => σ name = actual.key
    | .literal (.value literal) => actual.key = literal.key
    | .literal (.expr _) => False

/-- The event fits the role when the variables stand for what `σ` says. -/
def Fits (σ : String → Key) (role : EventRoleSpec) (event : ConcreteEvent) : Prop :=
  event.eventType = role.eventType ∧ ∀ entry ∈ role.fields.entries, FitsField σ event entry

/-- The bindings are what `σ` says, as far as they go. -/
def Agrees (σ : String → Key) (bindings : Dict String Value) : Prop :=
  ∀ name v, bindings.get? name = some v → σ name = v.key

section Unification

variable {σ : String → Key} {bindings : Dict String Value}

theorem agrees_empty : Agrees σ .empty := by
  intro name v h
  cases h

theorem agrees_insert {name : String} {v : Value}
    (h : ∀ existing, bindings.get? name = some existing → existing.key = v.key) :
    Agrees σ (bindings.insert name v) ↔ Agrees σ bindings ∧ σ name = v.key := by
  constructor
  · intro hagrees
    have hname : σ name = v.key := hagrees name v (Dict.get?_insert_self _ _ _)
    refine ⟨fun name' v' hv' => ?_, hname⟩
    by_cases hne : name' = name
    · subst hne
      rw [hname, h v' hv']
    · exact hagrees name' v' (by rw [Dict.get?_insert_of_ne _ hne]; exact hv')
  · rintro ⟨hagrees, hname⟩ name' v' hv'
    rw [Dict.get?_insert] at hv'
    by_cases hne : name' = name
    · rw [if_pos hne] at hv'
      cases hv'
      rw [hne, hname]
    · rw [if_neg hne] at hv'
      exact hagrees name' v' hv'

theorem matchField_iff {event : ConcreteEvent} {entry : String × MatchValue} :
    (∃ updated, matchField event bindings entry = some updated ∧ Agrees σ updated) ↔
      Agrees σ bindings ∧ FitsField σ event entry := by
  rcases entry with ⟨field, pattern⟩
  unfold matchField FitsField
  cases hfield : event.field? field with
  | none => simp
  | some actual =>
      cases pattern with
      | var name name_ne =>
          simp only [Option.some.injEq, exists_eq_left']
          cases hname : bindings.get? name with
          | none =>
              have hnew : Agrees σ (bindings.insert name actual) ↔
                  Agrees σ bindings ∧ σ name = actual.key := agrees_insert (by simp [hname])
              simp [hnew]
          | some existing =>
              by_cases heq : existing.pyEq actual = true
              · have hsame : ∀ existing', bindings.get? name = some existing' →
                    existing'.key = actual.key := by
                  intro existing' h
                  rw [hname] at h
                  cases h
                  exact Value.pyEq_iff.mp heq
                have hnew : Agrees σ (bindings.insert name actual) ↔
                    Agrees σ bindings ∧ σ name = actual.key := agrees_insert hsame
                simp [heq, hnew]
              · -- the value bound before is another one
                simp only [heq, Bool.false_eq_true, if_false, reduceCtorEq, false_and,
                  exists_false, false_iff]
                rintro ⟨hagrees, hσ⟩
                rw [hagrees name existing hname] at hσ
                exact heq (Value.pyEq_iff.mpr hσ)
      | literal t =>
          cases t with
          | value literal =>
              by_cases heq : actual.pyEq literal = true
              · simp [heq, Value.pyEq_iff.mp heq]
              · have hne : actual.key ≠ literal.key := fun h => heq (Value.pyEq_iff.mpr h)
                simp [heq, hne]
          | expr e => simp

theorem foldlM_matchField_iff {event : ConcreteEvent} {entries : List (String × MatchValue)} :
    (∃ updated, entries.foldlM (matchField event) bindings = some updated ∧ Agrees σ updated) ↔
      Agrees σ bindings ∧ ∀ entry ∈ entries, FitsField σ event entry := by
  induction entries generalizing bindings with
  | nil => simp
  | cons entry entries ih =>
      rw [List.forall_mem_cons, ← and_assoc, ← matchField_iff]
      constructor
      · rintro ⟨updated, h, hagrees⟩
        rw [List.foldlM_cons] at h
        obtain ⟨first, hfirst, h⟩ := Option.bind_eq_some_iff.mp h
        obtain ⟨hagrees', hrest⟩ := ih.mp ⟨updated, h, hagrees⟩
        exact ⟨⟨first, hfirst, hagrees'⟩, hrest⟩
      · rintro ⟨⟨first, hfirst, hagrees⟩, hrest⟩
        obtain ⟨updated, h, hagrees'⟩ := ih.mpr ⟨hagrees, hrest⟩
        refine ⟨updated, ?_, hagrees'⟩
        rw [List.foldlM_cons]
        exact Option.bind_eq_some_iff.mpr ⟨first, hfirst, h⟩

theorem matchRole_iff {role : EventRoleSpec} {event : ConcreteEvent} :
    (∃ updated, matchRole role event bindings = some updated ∧ Agrees σ updated) ↔
      Agrees σ bindings ∧ Fits σ role event := by
  unfold matchRole Fits
  by_cases htype : event.eventType = role.eventType
  · simp only [htype, if_true, true_and]
    exact foldlM_matchField_iff
  · simp [htype]

theorem unify_iff {roles : List EventRoleSpec} {picked : List ConcreteEvent}
    (hlength : roles.length = picked.length) :
    (∃ updated, unify roles picked bindings = some updated ∧ Agrees σ updated) ↔
      Agrees σ bindings ∧ List.Forall₂ (Fits σ) roles picked := by
  induction roles generalizing picked bindings with
  | nil =>
      obtain rfl : picked = [] := List.length_eq_zero_iff.mp hlength.symm
      simp [unify]
  | cons role roles ih =>
      rcases picked with _ | ⟨event, picked⟩
      · cases hlength
      · have hlength' : roles.length = picked.length := by simpa using hlength
        rw [List.forall₂_cons, ← and_assoc, ← matchRole_iff]
        constructor
        · rintro ⟨updated, h, hagrees⟩
          rw [unify] at h
          obtain ⟨first, hfirst, h⟩ := Option.bind_eq_some_iff.mp h
          obtain ⟨hagrees', hrest⟩ := (ih hlength').mp ⟨updated, h, hagrees⟩
          exact ⟨⟨first, hfirst, hagrees'⟩, hrest⟩
        · rintro ⟨⟨first, hfirst, hagrees⟩, hrest⟩
          obtain ⟨updated, h, hagrees'⟩ := (ih hlength').mpr ⟨hagrees, hrest⟩
          refine ⟨updated, ?_, hagrees'⟩
          rw [unify]
          exact Option.bind_eq_some_iff.mpr ⟨first, hfirst, h⟩

/-- The search unifies the roles with the events exactly when there are values for
the variables under which every event fits its role. -/
theorem unify_isSome_iff {roles : List EventRoleSpec} {picked : List ConcreteEvent}
    (hlength : roles.length = picked.length) :
    (∃ updated, unify roles picked .empty = some updated) ↔
      ∃ σ, List.Forall₂ (Fits σ) roles picked := by
  constructor
  · rintro ⟨updated, h⟩
    refine ⟨fun name => ((updated.get? name).map Value.key).getD .none, ?_⟩
    refine ((unify_iff hlength).mp ⟨updated, h, ?_⟩).2
    intro name v hv
    simp [hv]
  · rintro ⟨σ, hfits⟩
    obtain ⟨updated, h, -⟩ := (unify_iff hlength).mpr ⟨agrees_empty, hfits⟩
    exact ⟨updated, h⟩

end Unification

/-! ## The order of the cycles -/

/-- The order of the cycles that the rule asks for. -/
def CycleOrder (strict : Bool) (cycle cycle' : Nat) : Prop :=
  if strict then cycle < cycle' else cycle ≤ cycle'

instance (strict : Bool) : IsTrans Nat (CycleOrder strict) where
  trans a b c hab hbc := by
    unfold CycleOrder at hab hbc ⊢
    cases strict with
    | false => exact Nat.le_trans hab hbc
    | true => exact Nat.lt_trans hab hbc

theorem cyclesOrdered_iff {strict : Bool} {previous current : ConcreteEvent} :
    cyclesOrdered strict previous current = true ↔
      ∀ cycle cycle', previous.cycle? = some cycle → current.cycle? = some cycle' →
        CycleOrder strict cycle cycle' := by
  unfold cyclesOrdered CycleOrder
  cases previous.cycle? <;> cases current.cycle? <;> cases strict <;> simp

/-- The cycles of the events that have one increase, strictly if `strict`. -/
def CyclesIncrease (strict : Bool) (events : List ConcreteEvent) : Prop :=
  (events.filterMap ConcreteEvent.cycle?).Pairwise (CycleOrder strict)

/-- Events for the roles of a rule: values for the variables make them fit, no event is
picked twice where the rule asks for distinct ones, and neighbours are ordered. -/
structure IsCandidateMatch (events : List ConcreteEvent) (rule : SummaryRuleSpec)
    (picked : List ConcreteEvent) : Prop where
  occurs : ∀ event ∈ picked, event ∈ events
  fits : ∃ σ, List.Forall₂ (Fits σ) rule.roles picked
  distinct : rule.distinctEvents = true → (picked.map (fun event => event.id)).Nodup
  neighbours : rule.ordered = true → picked.IsChain
    (fun a b => cyclesOrdered rule.strictOrder a b = true)

theorem isCandidateMatch_iff {events : List ConcreteEvent} {rule : SummaryRuleSpec}
    {picked : List ConcreteEvent} :
    IsCandidateMatch events rule picked ↔ ∃ m ∈ iterRuleMatches events rule, m.events = picked := by
  constructor
  · intro h
    obtain ⟨σ, hfits⟩ := h.fits
    have hlength := hfits.length_eq
    obtain ⟨bindings, hbindings⟩ := (unify_isSome_iff hlength).mpr ⟨σ, hfits⟩
    have hsnd : ((rule.roles.map EventRoleSpec.name).zip picked).map Prod.snd = picked :=
      List.map_snd_zip (by rw [List.length_map, hlength])
    refine ⟨⟨(rule.roles.map EventRoleSpec.name).zip picked, bindings⟩, ?_, hsnd⟩
    refine mem_iterRuleMatches.mpr ⟨congrArg _ hsnd.symm, ?_⟩
    have hevents : RuleMatch.events ⟨(rule.roles.map EventRoleSpec.name).zip picked, bindings⟩ =
      picked := hsnd
    rw [hevents]
    refine ⟨⟨?_, fun hd => ⟨h.distinct hd, by simp⟩, fun ho => h.neighbours ho⟩, hbindings⟩
    rw [List.forall₂_iff_get]
    refine ⟨hlength, fun i hi hi' => ⟨h.occurs _ (List.get_mem _ _), ?_⟩⟩
    exact ((List.forall₂_iff_get.mp hfits).2 i hi hi').1
  · rintro ⟨m, hm, rfl⟩
    obtain ⟨-, hcontinues, hbindings⟩ := mem_iterRuleMatches.mp hm
    have hlength := hcontinues.listed.length_eq
    refine ⟨fun event hevent => ?_, (unify_isSome_iff hlength).mp ⟨_, hbindings⟩,
      fun hd => (hcontinues.distinct hd).1, fun ho => hcontinues.neighbours ho⟩
    obtain ⟨_, -, hlisted, -⟩ := Except.exists_left_of_forall₂ hcontinues.listed hevent
    exact hlisted

/-- In every match of an ordered rule the cycles increase along the roles, exactly when
no candidate has two events in the wrong order around events without a cycle. -/
theorem cycles_increase_iff (events : List ConcreteEvent) (rule : SummaryRuleSpec)
    (ordered : rule.ordered = true) :
    (∀ m ∈ iterRuleMatches events rule, CyclesIncrease rule.strictOrder m.events) ↔
      ∀ picked, IsCandidateMatch events rule picked →
        ∀ before a gap b after cycle cycle', picked = before ++ a :: (gap ++ b :: after) →
          gap ≠ [] → (∀ c ∈ gap, c.cycle? = none) → a.cycle? = some cycle →
          b.cycle? = some cycle' → CycleOrder rule.strictOrder cycle cycle' := by
  constructor
  · intro h picked hpicked before a gap b after cycle cycle' hl _ hgap ha hb
    obtain ⟨m, hm, rfl⟩ := isCandidateMatch_iff.mp hpicked
    have hrelated := Gaps.pairwise_filterMap_iff.mp (h m hm)
    exact hrelated before a gap b after cycle cycle' hl hgap ha hb
  · intro h m hm
    have hcandidate : IsCandidateMatch events rule m.events := isCandidateMatch_iff.mpr ⟨m, hm, rfl⟩
    refine Gaps.pairwise_filterMap_iff.mpr ?_
    intro before a gap b after cycle cycle' hl hgap ha hb
    by_cases hempty : gap = []
    · -- without a gap the search has compared the two
      subst hempty
      have hchain := hcandidate.neighbours ordered
      rw [hl] at hchain
      have hnext := (List.isChain_cons_cons.mp hchain.right_of_append).1
      exact cyclesOrdered_iff.mp hnext cycle cycle' ha hb
    · exact h m.events hcandidate before a gap b after cycle cycle' hl hempty hgap ha hb

/-! ## An event without a cycle in between -/

/-- A role for the events of a type, whatever their fields. -/
def typeRole (name eventType : String) (name_ne : name ≠ "") (eventType_ne : eventType ≠ "") :
    EventRoleSpec :=
  ⟨name, eventType, .empty, name_ne, eventType_ne⟩

theorem missRole_ne : "miss" ≠ "" := by decide

theorem dataRole_ne : "data" ≠ "" := by decide

theorem loadMiss_ne : "L1.LoadMiss" ≠ "" := by decide

theorem coreLoad_ne : "Core.Load" ≠ "" := by decide

theorem loadId_ne : "load" ≠ "" := by decide

theorem lastCycle_ne : "last" ≠ "" := by decide

theorem matchBound_pos : 0 < 10000 := by decide

theorem matchBound_le : 0 ≤ 10000 := by decide

/-- The way of a load: it issues, misses and gets its data, in this order. -/
def missRule : SummaryRuleSpec where
  name := "miss"
  roles :=
    [typeRole "issue" "LSU.LoadIssue" (by decide) (by decide),
      typeRole "miss" "L1.LoadMiss" missRole_ne loadMiss_ne,
      typeRole "data" "LSU.LoadData" dataRole_ne (by decide)]
  output := ⟨"Core.Load", "load", .empty, "last", .empty, coreLoad_ne, loadId_ne, lastCycle_ne⟩
  ordered := true
  strictOrder := false
  distinctEvents := true
  hideSources := true
  minMatches := 0
  maxMatches := 10000
  name_ne := missRole_ne
  roles_ne := by simp
  roles_nodup := by decide
  maxMatches_pos := matchBound_pos
  minMatches_le := matchBound_le

theorem issuedId_ne : "i" ≠ "" := by decide

theorem missedId_ne : "m" ≠ "" := by decide

theorem deliveredId_ne : "d" ≠ "" := by decide

def issuedLoad : ConcreteEvent where
  id := "i"
  eventType := "LSU.LoadIssue"
  fields := .empty
  cycle := .concrete 5
  occurs := .known true
  annotations := .empty
  id_ne := issuedId_ne
  eventType_ne := by decide
  cycle_sort := EventCycle.int_of_concrete 5
  occurs_sort := Occurs.bool_of_known true
  occurring := rfl
  concrete_cycle := rfl
  concrete_fields := rfl

/-- The miss was observed, its cycle was not. -/
def missedLoad : ConcreteEvent where
  id := "m"
  eventType := "L1.LoadMiss"
  fields := .empty
  cycle := .absent
  occurs := .known true
  annotations := .empty
  id_ne := missedId_ne
  eventType_ne := loadMiss_ne
  cycle_sort := EventCycle.int_of_absent
  occurs_sort := Occurs.bool_of_known true
  occurring := rfl
  concrete_cycle := rfl
  concrete_fields := rfl

def deliveredLoad : ConcreteEvent where
  id := "d"
  eventType := "LSU.LoadData"
  fields := .empty
  cycle := .concrete 3
  occurs := .known true
  annotations := .empty
  id_ne := deliveredId_ne
  eventType_ne := by decide
  cycle_sort := EventCycle.int_of_concrete 3
  occurs_sort := Occurs.bool_of_known true
  occurring := rfl
  concrete_cycle := rfl
  concrete_fields := rfl

theorem missRule_iff : missRule.ordered = true ∧
    ((∀ m ∈ iterRuleMatches [issuedLoad, deliveredLoad] missRule, CyclesIncrease false m.events) ↔
      ∀ picked, IsCandidateMatch [issuedLoad, deliveredLoad] missRule picked →
        ∀ before a gap b after cycle cycle', picked = before ++ a :: (gap ++ b :: after) →
          gap ≠ [] → (∀ c ∈ gap, c.cycle? = none) → a.cycle? = some cycle →
          b.cycle? = some cycle' → CycleOrder false cycle cycle') :=
  ⟨rfl, cycles_increase_iff [issuedLoad, deliveredLoad] missRule rfl⟩

/-- The data of cycle 3 is matched with the issue of cycle 5: the miss in between is
compared with neither of them. -/
theorem missRule_reversed : ∃ m ∈ iterRuleMatches [issuedLoad, missedLoad, deliveredLoad] missRule,
    missRule.ordered = true ∧ ¬ CyclesIncrease missRule.strictOrder m.events := by
  have hmatches : (iterRuleMatches [issuedLoad, missedLoad, deliveredLoad] missRule).map
      (fun m => m.events.filterMap ConcreteEvent.cycle?) = [[5, 3]] := by decide
  obtain ⟨m, hm, hcycles⟩ := List.mem_map.mp (hmatches ▸ List.mem_singleton_self [5, 3])
  refine ⟨m, hm, rfl, ?_⟩
  unfold CyclesIncrease
  rw [hcycles, List.pairwise_cons]
  intro h
  have hle : 5 ≤ 3 := h.1 3 List.mem_cons_self
  omega

end Umcm
