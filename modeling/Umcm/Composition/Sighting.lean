import Umcm.Composition.Included
import Umcm.Solver.Origin

/-!
# Sightings

The cycles in which a completion shows events with given fields, the firings of
rules with one input and one output, and runs of a module alone that are given
as plain data and can be evaluated.

* `ModuleCompletion.support_one`, `.forward_one`: the event before and the event
  after an event.
* `ModuleRun.exists_completion`: an accepted run is a completion that includes
  its module.
-/

namespace Umcm

open Except EvaluationContext

/-! ## Events in cycles -/

/-- An event of the type with the fields occurs. -/
structure Showing (problem : BoundedProblem) (context : EvaluationContext) (eventType : String)
    (fields : List (String × Value)) (id : String) : Prop where
  occurring : Occurring problem context eventType id
  carries : ∀ p ∈ fields, context.Carries id p.1 p.2

/-- An event of the type with the fields occurs in the cycle. -/
def Seen (problem : BoundedProblem) (context : EvaluationContext) (eventType : String)
    (fields : List (String × Value)) (c : Nat) : Prop :=
  ∃ id, Showing problem context eventType fields id ∧ context.AtCycle id c

namespace EvaluationContext

variable {context : EvaluationContext}

instance (id field : String) (v : Value) : Decidable (context.Reads id field v) :=
  inferInstanceAs (Decidable (context.eventAttribute id field = .ok (some v)))

/-- The value of an attribute. -/
def attributeValue? (context : EvaluationContext) (id field : String) : Option Value :=
  (context.eventAttribute id field).toOption.join

theorem attributeValue?_eq_some {id field : String} {v : Value} :
    context.attributeValue? id field = some v ↔ context.Reads id field v := by
  rw [attributeValue?, Reads]
  cases context.eventAttribute id field with
  | error e => simp [Except.toOption]
  | ok r => simp [Except.toOption]

theorem carries_iff {id field : String} {v : Value} :
    context.Carries id field v ↔ (context.attributeValue? id field).map Value.key = some v.key := by
  rw [Option.map_eq_some_iff]
  exact exists_congr (fun w => and_congr_left (fun _ => attributeValue?_eq_some.symm))

instance (id field : String) (v : Value) : Decidable (context.Carries id field v) :=
  decidable_of_iff _ carries_iff.symm

/-- The cycle of an event, when it is a natural number. -/
def cycle? (context : EvaluationContext) (id : String) : Option Nat :=
  match context.attributeValue? id "cycle" with
  | some (.int (.ofNat c)) => some c
  | _ => none

theorem cycle?_eq_some {id : String} {c : Nat} :
    context.cycle? id = some c ↔ context.AtCycle id c := by
  rw [AtCycle, ← attributeValue?_eq_some, cycle?]
  constructor
  · intro h
    split at h
    · cases h
      assumption
    · cases h
  · intro h
    rw [h]

end EvaluationContext

section Sightings

variable {problem : BoundedProblem} {context : EvaluationContext} {eventType : String}
  {fields : List (String × Value)}

/-- The event occurs with the fields. -/
def shows (context : EvaluationContext) (eventType : String) (fields : List (String × Value))
    (event : EventInstance) : Bool :=
  event.eventType = eventType && context.Reads event.id "occurs" (.bool true) &&
    fields.all (fun p => context.Carries event.id p.1 p.2)

/-- The cycles of the events of the type with the fields. -/
def sightings (problem : BoundedProblem) (context : EvaluationContext) (eventType : String)
    (fields : List (String × Value)) : List Nat :=
  (problem.events.filter (shows context eventType fields)).filterMap
    (fun event => context.cycle? event.id)

theorem showing_iff {id : String} : Showing problem context eventType fields id ↔
    ∃ event ∈ problem.events, shows context eventType fields event = true ∧ event.id = id := by
  simp only [shows, Bool.and_eq_true, decide_eq_true_eq, List.all_eq_true]
  constructor
  · rintro ⟨⟨⟨event, hevent, htype, rfl⟩, hhappens⟩, hcarries⟩
    exact ⟨event, hevent, ⟨⟨htype, hhappens⟩, hcarries⟩, rfl⟩
  · rintro ⟨event, hevent, ⟨⟨htype, hhappens⟩, hcarries⟩, rfl⟩
    exact ⟨⟨⟨event, hevent, htype, rfl⟩, hhappens⟩, hcarries⟩

theorem mem_sightings {c : Nat} :
    c ∈ sightings problem context eventType fields ↔ Seen problem context eventType fields c := by
  simp only [sightings, List.mem_filterMap, List.mem_filter, cycle?_eq_some]
  constructor
  · rintro ⟨event, ⟨hevent, hshows⟩, hcycle⟩
    exact ⟨event.id, showing_iff.mpr ⟨event, hevent, hshows, rfl⟩, hcycle⟩
  · rintro ⟨id, hshowing, hcycle⟩
    obtain ⟨event, hevent, hshows, rfl⟩ := showing_iff.mp hshowing
    exact ⟨event, ⟨hevent, hshows⟩, hcycle⟩

instance (c : Nat) : Decidable (Seen problem context eventType fields c) :=
  decidable_of_iff _ mem_sightings

/-- Every event of the type that occurs passes the test. -/
def allOccur (problem : BoundedProblem) (context : EvaluationContext) (eventType : String)
    (p : String → Bool) : Bool :=
  problem.events.all (fun event => !shows context eventType [] event || p event.id)

theorem of_allOccur {p : String → Bool} (h : allOccur problem context eventType p = true)
    {id : String} (hid : Occurring problem context eventType id) : p id = true := by
  obtain ⟨event, hevent, hshows, rfl⟩ :=
    showing_iff.mp ⟨hid, fun p hp => absurd hp List.not_mem_nil⟩
  have hall := List.all_eq_true.mp h event hevent
  rw [hshows] at hall
  simpa using hall

/-- Every event of the type that occurs carries the value in the field. -/
def allCarry (problem : BoundedProblem) (context : EvaluationContext) (eventType field : String)
    (v : Value) : Bool :=
  problem.events.all (fun event =>
    !shows context eventType [] event || context.Carries event.id field v)

theorem carries_of_allCarry {field : String} {v : Value}
    (h : allCarry problem context eventType field v = true) {id : String}
    (hid : Occurring problem context eventType id) : context.Carries id field v :=
  of_decide_eq_true (of_allOccur (p := fun id => context.Carries id field v) h hid)

theorem Showing.congr {fields' : List (String × Value)} {id : String}
    (h : Showing problem context eventType fields id)
    (hfields : ∀ p ∈ fields', ∃ q ∈ fields, p.1 = q.1 ∧ q.2.key = p.2.key) :
    Showing problem context eventType fields' id := by
  refine ⟨h.occurring, fun p hp => ?_⟩
  obtain ⟨q, hq, hname, hkey⟩ := hfields p hp
  rw [hname]
  exact (h.carries q hq).congr hkey

end Sightings

/-! ## Rules with one input and one output -/

namespace Transformation.Fields

variable {problem : BoundedProblem} {context : EvaluationContext} {f : Transformation.Fields}

/-- The rule takes the first event to the second. -/
def Links (f : Fields) (problem : BoundedProblem) (context : EvaluationContext) (a b : String) :
    Prop :=
  f.Fires problem context [a] [b]

theorem eq_singleton {R : String × String → String → Prop} {role : String × String}
    {ids : List String} (h : List.Forall₂ R [role] ids) : ∃ a, ids = [a] ∧ R role a := by
  cases h with
  | cons ha hrest =>
      cases hrest
      exact ⟨_, rfl, ha⟩

/-- A firing of a rule with one input and one output. -/
theorem Fires.links {input output : String × String} (hinputs : f.inputs = [input])
    (houtputs : f.outputs = [output]) {ins outs : List String}
    (h : f.Fires problem context ins outs) : ∃ a b, ins = [a] ∧ outs = [b] ∧
      f.Links problem context a b ∧ Occurring problem context input.2 a ∧
      Occurring problem context output.2 b := by
  have hin := h.inputs
  have hout := h.outputs
  rw [hinputs] at hin
  rw [houtputs] at hout
  obtain ⟨a, rfl, ha⟩ := eq_singleton hin
  obtain ⟨b, rfl, hb⟩ := eq_singleton hout
  exact ⟨a, b, rfl, rfl, h, ha, hb⟩

/-- The two ends of a link, and the order and the common fields that the rule ensures. -/
theorem Links.binding_eq {role role' eventType eventType' : String}
    (hinputs : f.inputs = [(role, eventType)]) (houtputs : f.outputs = [(role', eventType')])
    {a b : String} : f.binding ([a] ++ [b]) = [(role, a), (role', b)] := by
  simp [binding, hinputs, houtputs]

theorem Links.holds {role role' eventType eventType' : String}
    (hinputs : f.inputs = [(role, eventType)]) (houtputs : f.outputs = [(role', eventType')])
    {a b : String} (h : f.Links problem context a b) {e : Expr} (he : e ∈ f.ensure) :
    context.Holds (RoleBinding.instantiate [(role, a), (role', b)] e) := by
  rw [← Links.binding_eq hinputs houtputs]
  exact h.ensure e he

/-- A firing of a rule with one input and no output. -/
theorem Fires.single {input : String × String} (hinputs : f.inputs = [input])
    (houtputs : f.outputs = []) {ins outs : List String} (h : f.Fires problem context ins outs) :
    ∃ a, ins = [a] ∧ outs = [] ∧ Occurring problem context input.2 a := by
  have hin := h.inputs
  have hout := h.outputs
  rw [hinputs] at hin
  rw [houtputs] at hout
  obtain ⟨a, rfl, ha⟩ := eq_singleton hin
  cases hout
  exact ⟨a, rfl, rfl, ha⟩

theorem binding_single {role eventType : String} (hinputs : f.inputs = [(role, eventType)])
    (houtputs : f.outputs = []) {a : String} : f.binding ([a] ++ []) = [(role, a)] := by
  simp [binding, hinputs, houtputs]

end Transformation.Fields

/-! ## Cells -/

/-- Before the cycle the cell equals the value. -/
def CellIs (pre : CellStates) (c : Nat) (name : String) (v : Value) : Prop :=
  ∃ w, pre c name = some w ∧ w.key = v.key

theorem CellIs.unique {pre : CellStates} {c : Nat} {name : String} {v w : Value}
    (h : CellIs pre c name v) (h' : CellIs pre c name w) : v.key = w.key := by
  obtain ⟨x, hx, hv⟩ := h
  obtain ⟨y, hy, hw⟩ := h'
  rw [hx] at hy
  cases hy
  exact hv.symm.trans hw

instance (pre : CellStates) (c : Nat) (name : String) (v : Value) :
    Decidable (CellIs pre c name v) :=
  decidable_of_iff ((pre c name).map Value.key = some v.key) Option.map_eq_some_iff

theorem CellIs.congr {pre : CellStates} {c : Nat} {name : String} {v w : Value}
    (h : CellIs pre c name v) (hkey : v.key = w.key) : CellIs pre c name w := by
  obtain ⟨x, hx, hv⟩ := h
  exact ⟨x, hx, hv.trans hkey⟩

theorem CellIs.of_eq {pre : CellStates} {c d : Nat} {name : String} {v : Value}
    (heq : pre d name = pre c name) (h : CellIs pre c name v) : CellIs pre d name v := by
  rw [CellIs, heq]
  exact h

theorem CellIs.not_true {pre : CellStates} {c : Nat} {name : String}
    (h : CellIs pre c name (.bool false)) : ¬ CellIs pre c name (.bool true) := by
  intro htrue
  have hkey := h.unique htrue
  simp [Value.key] at hkey

namespace ModuleCompletion

variable {file : ModuleFields} {catalog : EventCatalog} {trace : Trace} {spec : CompletionSpec}
  {problem : BoundedProblem} {interpreter : Interpreter} {assignment : Dict String Value}
  {pre : CellStates}

/-- A firing that requires a value finds the cell with it. -/
theorem requires
    (h : ModuleCompletion file catalog trace spec problem interpreter assignment pre)
    {rule : ModuleRule.Fields} (hrule : rule ∈ file.rules) (hmode : rule.stateMode = .require)
    {ins outs : List String}
    (hfires : rule.Fires problem (problem.context interpreter assignment) ins outs)
    {state role : String} {v : Value} {sort : IrSort}
    (hr : ⟨state, role, .eq, .literal v sort⟩ ∈ rule.stateRequirements) :
    ∃ c ≤ spec.horizon, (problem.context interpreter assignment).AtCycle
      ((rule.binding (ins ++ outs)).apply role) c ∧ CellIs pre c state v := by
  obtain ⟨c, w, actual, hc, hcycle, hw, hactual, hcompare⟩ := h.requirement hrule hmode hfires hr
  rw [RoleBinding.instantiate_literal, evaluate_literal] at hw
  cases hw
  refine ⟨c, hc, hcycle, actual, hactual, ?_⟩
  simpa [CompareOp.compare] using hcompare

/-- A firing that forbids a value finds the cell without it. -/
theorem forbids
    (h : ModuleCompletion file catalog trace spec problem interpreter assignment pre)
    {rule : ModuleRule.Fields} (hrule : rule ∈ file.rules) (hmode : rule.stateMode = .require)
    {ins outs : List String}
    (hfires : rule.Fires problem (problem.context interpreter assignment) ins outs)
    {state role : String} {v : Value} {sort : IrSort}
    (hr : ⟨state, role, .ne, .literal v sort⟩ ∈ rule.stateRequirements) :
    ∃ c ≤ spec.horizon, (problem.context interpreter assignment).AtCycle
      ((rule.binding (ins ++ outs)).apply role) c ∧ ¬ CellIs pre c state v := by
  obtain ⟨c, w, actual, hc, hcycle, hw, hactual, hcompare⟩ := h.requirement hrule hmode hfires hr
  rw [RoleBinding.instantiate_literal, evaluate_literal] at hw
  cases hw
  refine ⟨c, hc, hcycle, ?_⟩
  rintro ⟨w, hw, hkey⟩
  rw [hactual] at hw
  cases hw
  simp [CompareOp.compare, Value.pyEq, hkey] at hcompare

/-- A firing that sets a cell to a value leaves it there. -/
theorem sets
    (h : ModuleCompletion file catalog trace spec problem interpreter assignment pre)
    {rule : ModuleRule.Fields} (hrule : rule ∈ file.rules) (hmode : rule.stateMode = .require)
    {ins outs : List String}
    (hfires : rule.Fires problem (problem.context interpreter assignment) ins outs)
    {state role : String} {v : Value} {sort : IrSort}
    (hu : ⟨state, role, .literal v sort⟩ ∈ rule.stateUpdates) :
    ∃ c ≤ spec.horizon, (problem.context interpreter assignment).AtCycle
      ((rule.binding (ins ++ outs)).apply role) c ∧ CellIs pre (c + 1) state v := by
  obtain ⟨c, w, actual, hc, hcycle, hw, hactual, hkey⟩ := h.update hrule hmode hfires hu
  rw [RoleBinding.instantiate_literal, evaluate_literal] at hw
  cases hw
  exact ⟨c, hc, hcycle, actual, hactual, hkey⟩

/-- A firing that copies a field to a cell leaves its value there. -/
theorem copies
    (h : ModuleCompletion file catalog trace spec problem interpreter assignment pre)
    {rule : ModuleRule.Fields} (hrule : rule ∈ file.rules) (hmode : rule.stateMode = .require)
    {ins outs : List String}
    (hfires : rule.Fires problem (problem.context interpreter assignment) ins outs)
    {state role role' field : String} {sort : IrSort}
    (hu : ⟨state, role, .eventField role' field sort⟩ ∈ rule.stateUpdates) :
    ∃ c ≤ spec.horizon, (problem.context interpreter assignment).AtCycle
      ((rule.binding (ins ++ outs)).apply role) c ∧
      ∃ v, (problem.context interpreter assignment).Reads
        ((rule.binding (ins ++ outs)).apply role') field v ∧ CellIs pre (c + 1) state v := by
  obtain ⟨c, v, actual, hc, hcycle, hv, hactual, hkey⟩ := h.update hrule hmode hfires hu
  rw [RoleBinding.instantiate_eventField, evaluate_eventField] at hv
  exact ⟨c, hc, hcycle, v, hv, actual, hactual, hkey⟩

/-- A cell starts with the value that its file gives it. -/
theorem starts
    (h : ModuleCompletion file catalog trace spec problem interpreter assignment pre)
    {cell : StateVariable.Fields} (hcell : cell ∈ file.stateVariables) :
    CellIs pre 0 cell.name cell.initial :=
  ⟨cell.initial, h.start hcell, rfl⟩

/-- A cell that gains or loses a value is set by a firing. -/
theorem sets_of_ne
    (h : ModuleCompletion file catalog trace spec problem interpreter assignment pre)
    {cell : StateVariable.Fields} (hcell : cell ∈ file.stateVariables) {c : Nat}
    (hc : c ≤ spec.horizon) {v : Value}
    (hne : ¬ (CellIs pre c cell.name v ↔ CellIs pre (c + 1) cell.name v)) :
    ∃ rule ∈ file.rules, ∃ ins outs,
      rule.Fires problem (problem.context interpreter assignment) ins outs ∧
      ∃ u ∈ rule.stateUpdates, u.state = cell.name ∧
        (problem.context interpreter assignment).AtCycle
          ((rule.binding (ins ++ outs)).apply u.atRole) c ∧
        ∃ w, (problem.context interpreter assignment).evaluate
          ((rule.binding (ins ++ outs)).instantiate u.value) = .ok (some w) ∧
          CellIs pre (c + 1) cell.name w := by
  have hchanged : pre (c + 1) cell.name ≠ pre c cell.name := by
    intro heq
    refine hne ?_
    rw [CellIs, CellIs, heq]
  obtain ⟨rule, hrule, ins, outs, hfires, u, hu, hstate, hcycle, w, hw, hafter⟩ :=
    h.changed hcell hc hchanged
  exact ⟨rule, hrule, ins, outs, hfires, u, hu, hstate, hcycle, w, hw, w, hafter, rfl⟩

/-- The output of an exact rule has an input. -/
theorem support_one
    (h : ModuleCompletion file catalog trace spec problem interpreter assignment pre)
    {rule : ModuleRule.Fields} (hrule : rule ∈ file.rules) (hmode : rule.stateMode = .require)
    (hexact : rule.isExact = true) {input output : String × String}
    (hinputs : rule.inputs = [input]) (houtputs : rule.outputs = [output]) {b : String}
    (hb : Occurring problem (problem.context interpreter assignment) output.2 b)
    (hscope : (problem.context interpreter assignment).Holds
      (RoleBinding.instantiate [(output.1, b)] rule.outputWhen)) :
    ∃ a, Occurring problem (problem.context interpreter assignment) input.2 a ∧
      rule.Links problem (problem.context interpreter assignment) a b := by
  have houts : List.Forall₂ (fun role id =>
      Occurring problem (problem.context interpreter assignment) role.2 id) rule.outputs [b] := by
    rw [houtputs]
    exact .cons hb .nil
  obtain ⟨ins, hfires⟩ := h.support hrule hmode hexact houts (List.nodup_singleton b)
    (by rw [Transformation.Fields.outputBinding, houtputs]; exact hscope)
  obtain ⟨a, b', rfl, heq, hlinks, ha, -⟩ := hfires.links hinputs houtputs
  cases heq
  exact ⟨a, ha, hlinks⟩

/-- The input of a rule has an output. -/
theorem forward_one
    (h : ModuleCompletion file catalog trace spec problem interpreter assignment pre)
    {rule : ModuleRule.Fields} (hrule : rule ∈ file.rules) (hmode : rule.stateMode = .require)
    {input output : String × String} (hinputs : rule.inputs = [input])
    (houtputs : rule.outputs = [output]) {a : String}
    (ha : Occurring problem (problem.context interpreter assignment) input.2 a)
    (hwhen : (problem.context interpreter assignment).Holds
      (RoleBinding.instantiate [(input.1, a)] rule.when)) :
    ∃ b, Occurring problem (problem.context interpreter assignment) output.2 b ∧
      rule.Links problem (problem.context interpreter assignment) a b := by
  have hins : List.Forall₂ (fun role id =>
      Occurring problem (problem.context interpreter assignment) role.2 id) rule.inputs [a] := by
    rw [hinputs]
    exact .cons ha .nil
  obtain ⟨outs, hfires⟩ := h.forward hrule hmode hins (List.nodup_singleton a)
    (by rw [hinputs]; exact hwhen)
  obtain ⟨a', b, heq, rfl, hlinks, -, hb⟩ := hfires.links hinputs houtputs
  cases heq
  exact ⟨b, hb, hlinks⟩

/-- An event that satisfies the guard of a rule without outputs fires it. -/
theorem fires_alone
    (h : ModuleCompletion file catalog trace spec problem interpreter assignment pre)
    {rule : ModuleRule.Fields} (hrule : rule ∈ file.rules) (hmode : rule.stateMode = .require)
    {input : String × String} (hinputs : rule.inputs = [input]) (houtputs : rule.outputs = [])
    {a : String} (ha : Occurring problem (problem.context interpreter assignment) input.2 a)
    (hwhen : (problem.context interpreter assignment).Holds
      (RoleBinding.instantiate [(input.1, a)] rule.when)) :
    rule.Fires problem (problem.context interpreter assignment) [a] [] := by
  have hins : List.Forall₂ (fun role id =>
      Occurring problem (problem.context interpreter assignment) role.2 id) rule.inputs [a] := by
    rw [hinputs]
    exact .cons ha .nil
  obtain ⟨outs, hfires⟩ := h.forward hrule hmode hins (List.nodup_singleton a)
    (by rw [hinputs]; exact hwhen)
  obtain ⟨a', -, rfl, -⟩ := hfires.single hinputs houtputs
  exact hfires

end ModuleCompletion

/-! ## Runs of a module alone -/

/-- The model that the module of the file makes alone. -/
def ModuleFields.alone (file : ModuleFields) (horizon : Nat) : Except PyError CompletionSpec := do
  let module ← file.load
  CompletionSpec.create (module.slots.map ModuleSlot.slot) module.transformations
    module.stateVariables [] horizon

theorem includes_of_alone {file : ModuleFields} {horizon : Nat} {spec : CompletionSpec}
    (h : file.alone horizon = .ok spec) : ∃ module, file.load = .ok module ∧
      spec.Includes module := by
  obtain ⟨module, hload, hspec⟩ := bind_eq_ok.mp h
  exact ⟨module, hload, includes_of_create hspec⟩

theorem horizon_of_alone {file : ModuleFields} {horizon : Nat} {spec : CompletionSpec}
    (h : file.alone horizon = .ok spec) : spec.horizon = horizon := by
  obtain ⟨module, -, hspec⟩ := bind_eq_ok.mp h
  exact (CompletionSpec.create_eq_ok hspec).2.2.2.2

/-- An event has one type. -/
theorem Completion.type_unique {catalog : EventCatalog} {trace : Trace} {spec : CompletionSpec}
    {problem : BoundedProblem} {interpreter : Interpreter} {assignment : Dict String Value}
    {pre : CellStates} (h : Completion catalog trace spec problem interpreter assignment pre)
    {context : EvaluationContext} {eventType eventType' id : String}
    (hid : Occurring problem context eventType id) (hid' : Occurring problem context eventType' id) :
    eventType = eventType' := by
  obtain ⟨event, hevent, rfl, rfl⟩ := hid.event
  obtain ⟨event', hevent', rfl, heq⟩ := hid'.event
  have hbuilt := wellBuilt_of_buildProblem h.built
  have hget := get?_eventMap hbuilt hevent
  have hget' := get?_eventMap hbuilt hevent'
  rw [heq, hget] at hget'
  cases hget'
  rfl

/-- The slots of the model are among these. -/
def CompletionSpec.SlotsFrom (spec : CompletionSpec) (fs : List EventSlot.Fields) : Prop :=
  ∀ slot ∈ spec.slots, ∃ f ∈ fs, slot.id = f.id ∧ slot.eventType = f.eventType ∧
    slot.fields = .ofList f.fields

/-- The slots of the module alone are those of the file. -/
theorem slotsFrom_of_alone {file : ModuleFields} {horizon : Nat} {spec : CompletionSpec}
    (h : file.alone horizon = .ok spec) : spec.SlotsFrom file.slots := by
  intro slot hslot
  obtain ⟨module, hload, hspec⟩ := bind_eq_ok.mp h
  obtain ⟨hslots, -⟩ := CompletionSpec.create_eq_ok hspec
  rw [hslots] at hslot
  obtain ⟨s, hs, rfl⟩ := List.mem_map.mp hslot
  exact (ModuleFields.load_eq_ok hload).slot_origin s hs

/-- An event is observed or fills one of the slots, with the fields of one or
the other. -/
theorem Completion.origin_fields {catalog : EventCatalog} {trace : Trace} {spec : CompletionSpec}
    {problem : BoundedProblem} {interpreter : Interpreter} {assignment : Dict String Value}
    {pre : CellStates} (h : Completion catalog trace spec problem interpreter assignment pre)
    {fs : List EventSlot.Fields} (hslots : spec.SlotsFrom fs)
    (hnodup : ∀ f ∈ fs, (f.fields.map Prod.fst).Nodup) {eventType id : String}
    (hid : Occurring problem (problem.context interpreter assignment) eventType id) :
    (∃ e ∈ trace.events, e.eventType = eventType ∧ e.id = id ∧
      ∀ field v, field ≠ "occurs" → field ≠ "cycle" → e.fields.get? field = some (.value v) →
        (problem.context interpreter assignment).Reads id field v) ∨
    ∃ f ∈ fs, f.eventType = eventType ∧ f.id = id ∧
      ∀ field v, field ≠ "occurs" → field ≠ "cycle" → (field, .value v) ∈ f.fields →
        (problem.context interpreter assignment).Reads id field v := by
  obtain ⟨event, hevent, rfl, rfl⟩ := hid.event
  rcases h.origin hevent with ⟨e, he, hok⟩ | ⟨slot, hslot, hok⟩
  · left
    obtain ⟨hid', htype, -⟩ := materializePartialEvent_eq_ok hok
    refine ⟨e, he, htype.symm, hid'.symm, ?_⟩
    intro field v hoccurs hcycle hget
    exact h.kept hevent hok hoccurs hcycle hget
  · right
    obtain ⟨f, hf, hname, htype, hfields⟩ := hslots slot hslot
    obtain ⟨hid', htype', hreads⟩ := h.filled hevent hok
    refine ⟨f, hf, (htype'.trans htype).symm, (hid'.trans hname).symm, ?_⟩
    intro field v hoccurs hcycle hmem
    refine hreads field v hoccurs hcycle ?_
    rw [hfields]
    exact Dict.get?_ofList_of_mem (hnodup f hf) hmem

/-- A trace event as plain data. -/
structure EventFields where
  id : String
  eventType : String
  cycle : Nat
  fields : List (String × Value)

/-- A trace and a completion of it by a module alone. -/
structure ModuleRun where
  file : ModuleFields
  eventTypes : List EventType.Fields
  events : List EventFields
  horizon : Nat
  assignment : List (String × Value)

namespace ModuleRun

/-- The symbols of an optional slot whose event occurs in the cycle. -/
def chosen (slot : String) (cycle : Nat) : List (String × Value) :=
  [(s!"slot::{slot}::occurs", .bool true), (s!"slot::{slot}::cycle", .int cycle)]

/-- The symbol of an optional slot whose event does not occur. -/
def skipped (slot : String) : List (String × Value) :=
  [(s!"slot::{slot}::occurs", .bool false)]

/-- The parts of a run, built. -/
structure Built where
  catalog : EventCatalog
  trace : Trace
  spec : CompletionSpec
  problem : BoundedProblem

def event (fields : EventFields) : Except PyError EventInstance :=
  EventInstance.make fields.id fields.eventType
    (.ofList (fields.fields.map (fun p => (p.1, .value p.2)))) fields.cycle

def build (run : ModuleRun) : Except PyError Built := do
  let catalog ← EventCatalog.create run.eventTypes
  let events ← run.events.mapM event
  let trace ← Trace.make events [] false
  let spec ← run.file.alone run.horizon
  let problem ← buildProblem catalog trace spec
  return { catalog, trace, spec, problem }

def context (run : ModuleRun) (interpreter : Interpreter) (problem : BoundedProblem) :
    EvaluationContext :=
  problem.context interpreter (.ofList run.assignment)

/-- The assignment satisfies the constraints and the state check. -/
def accepts (run : ModuleRun) (interpreter : Interpreter) (problem : BoundedProblem) : Bool :=
  problem.constraints.all (fun c => (run.context interpreter problem).Holds c.expression) &&
    match checkStateSemantics problem interpreter (.ofList run.assignment) with
    | .ok result => result.feasible
    | .error _ => false

/-- What the run shows passes the test, whether or not it is accepted. -/
def observes (run : ModuleRun) (interpreter : Interpreter)
    (test : BoundedProblem → EvaluationContext → Bool) : Bool :=
  match run.build with
  | .ok built => test built.problem (run.context interpreter built.problem)
  | .error _ => false

theorem exists_of_observes {run : ModuleRun} {interpreter : Interpreter}
    {test : BoundedProblem → EvaluationContext → Bool} (h : run.observes interpreter test = true) :
    ∃ built, run.build = .ok built ∧
      test built.problem (built.problem.context interpreter (.ofList run.assignment)) = true := by
  unfold observes at h
  split at h
  · rename_i built hbuild
    exact ⟨built, hbuild, h⟩
  · cases h

/-- The run is accepted, and what it shows passes the test. -/
def demonstrates (run : ModuleRun) (interpreter : Interpreter)
    (test : BoundedProblem → EvaluationContext → Bool) : Bool :=
  match run.build with
  | .ok built => run.accepts interpreter built.problem &&
      test built.problem (run.context interpreter built.problem)
  | .error _ => false

/-- A completion of the module alone with the values of the run. -/
def Completes (run : ModuleRun) (interpreter : Interpreter) (problem : BoundedProblem)
    (pre : CellStates) : Prop :=
  ∃ catalog trace spec,
    ModuleCompletion run.file catalog trace spec problem interpreter (.ofList run.assignment) pre

theorem event_eq_ok {fields : EventFields} {e : EventInstance} (h : event fields = .ok e) :
    e.id = fields.id ∧ e.eventType = fields.eventType ∧ e.occurs = .known true ∧
      e.fields = .ofList (fields.fields.map (fun p => (p.1, .value p.2))) := by
  unfold event EventInstance.make at h
  split_ifs at h
  cases h
  exact ⟨rfl, rfl, rfl, rfl⟩

/-- A run is built from its events and from the module alone. -/
theorem build_eq_ok {run : ModuleRun} {built : Built} (h : run.build = .ok built) :
    run.file.alone run.horizon = .ok built.spec ∧
      buildProblem built.catalog built.trace built.spec = .ok built.problem ∧
      run.events.mapM event = .ok built.trace.events := by
  obtain ⟨catalog, -, h⟩ := bind_eq_ok.mp h
  obtain ⟨events, hevents, h⟩ := bind_eq_ok.mp h
  obtain ⟨trace, htrace, h⟩ := bind_eq_ok.mp h
  obtain ⟨spec, hspec, h⟩ := bind_eq_ok.mp h
  obtain ⟨problem, hproblem, h⟩ := bind_eq_ok.mp h
  cases h
  refine ⟨hspec, hproblem, ?_⟩
  unfold Trace.make at htrace
  split_ifs at htrace
  cases htrace
  exact hevents

theorem completion_of_build {run : ModuleRun} {built : Built} (hbuild : run.build = .ok built)
    {interpreter : Interpreter} {assignment : Dict String Value} {pre : CellStates}
    (hcompletes : Umcm.Completes built.problem interpreter assignment pre) :
    ModuleCompletion run.file built.catalog built.trace built.spec built.problem interpreter
      assignment pre := by
  obtain ⟨hspec, hproblem, -⟩ := build_eq_ok hbuild
  exact ⟨⟨hproblem, hcompletes⟩, includes_of_alone hspec⟩

/-- The events of the trace are those of the run. -/
theorem mem_events_of_build {run : ModuleRun} {built : Built} (hbuild : run.build = .ok built)
    {e : EventInstance} (he : e ∈ built.trace.events) :
    ∃ f ∈ run.events, event f = .ok e := by
  obtain ⟨-, -, hevents⟩ := build_eq_ok hbuild
  exact mapM_origin hevents he

/-- An accepted run is built and completed. -/
theorem exists_built {run : ModuleRun} {interpreter : Interpreter}
    {test : BoundedProblem → EvaluationContext → Bool}
    (h : run.demonstrates interpreter test = true) :
    ∃ built pre, run.build = .ok built ∧
      Umcm.Completes built.problem interpreter (.ofList run.assignment) pre ∧
      test built.problem (built.problem.context interpreter (.ofList run.assignment)) = true := by
  unfold demonstrates at h
  split at h
  · rename_i built hbuild
    rw [Bool.and_eq_true, accepts, Bool.and_eq_true] at h
    obtain ⟨⟨hconstraints, hstates⟩, htest⟩ := h
    obtain ⟨pre, hrun⟩ := checkStateSemantics_feasible_iff.mp (by
      split at hstates
      · rename_i result hresult
        exact ⟨result, hresult, hstates⟩
      · cases hstates)
    refine ⟨built, pre, hbuild, ⟨?_, hrun⟩, htest⟩
    intro c hc
    exact of_decide_eq_true (List.all_eq_true.mp hconstraints c hc)
  · cases h

/-- The assignment satisfies the constraints of the run. -/
def satisfies (run : ModuleRun) (interpreter : Interpreter) : Bool :=
  run.observes interpreter (fun problem context =>
    problem.constraints.all (fun c => context.Holds c.expression))

/-- The rules of a run and the events that they apply to, without the checks of a build. -/
def prepare (run : ModuleRun) : Except PyError (List Transformation × List EventInstance) := do
  let catalog ← EventCatalog.create run.eventTypes
  let events ← run.events.mapM event
  let spec ← run.file.alone run.horizon
  let observed ← events.mapM (materializePartialEvent catalog)
  let slots ← spec.slots.mapM (fun slot => slot.materialize catalog)
  return (spec.transformations, observed ++ slots)

def eventContext (run : ModuleRun) (interpreter : Interpreter) (events : List EventInstance) :
    EvaluationContext where
  events := .ofList (events.map (fun event => (event.id, event)))
  assignment := .ofList run.assignment
  interpreter := interpreter

/-- The assignment satisfies the bounds of the cycles of the run. -/
def satisfiesBounds (run : ModuleRun) (interpreter : Interpreter) : Bool :=
  match run.prepare with
  | .ok (_, events) => (events.filter EventInstance.hasCycle).all (fun event =>
      (run.eventContext interpreter events).Holds (cycleBound run.horizon event).expression)
  | .error _ => false

/-- The assignment satisfies the constraints of every rule whose place leaves this remainder. -/
def satisfiesRules (run : ModuleRun) (interpreter : Interpreter) (parts remainder : Nat) : Bool :=
  match run.prepare with
  | .ok (rules, events) => (rules.zipIdx.filter (fun p => p.2 % parts = remainder)).all (fun p =>
      match instantiateTransformation p.1 events with
      | .ok part => part.constraints.all (fun c =>
          (run.eventContext interpreter events).Holds c.expression)
      | .error _ => false)
  | .error _ => false

/-- A built run is prepared, and its constraints are the bounds of its cycles and
the constraints of its rules. -/
theorem prepare_of_build {run : ModuleRun} {built : Built} (hbuild : run.build = .ok built) :
    run.prepare = .ok (built.spec.transformations, built.problem.events) ∧
    ∀ c ∈ built.problem.constraints,
      (∃ event ∈ built.problem.events.filter EventInstance.hasCycle,
        c = cycleBound run.horizon event) ∨
      ∃ rule ∈ built.spec.transformations, ∃ part,
        instantiateTransformation rule built.problem.events = .ok part ∧ c ∈ part.constraints := by
  have hhorizon := horizon_of_alone (build_eq_ok hbuild).1
  obtain ⟨catalog, hcatalog, h⟩ := bind_eq_ok.mp hbuild
  obtain ⟨events, hevents, h⟩ := bind_eq_ok.mp h
  obtain ⟨trace, htrace, h⟩ := bind_eq_ok.mp h
  obtain ⟨spec, hspec, h⟩ := bind_eq_ok.mp h
  obtain ⟨problem, hproblem, h⟩ := bind_eq_ok.mp h
  cases h
  unfold Trace.make at htrace
  split_ifs at htrace
  cases htrace
  obtain ⟨_, -, h⟩ := bind_eq_ok.mp hproblem
  obtain ⟨_, -, h⟩ := bind_eq_ok.mp h
  obtain ⟨observed, hobserved, h⟩ := bind_eq_ok.mp h
  obtain ⟨slots, hslots, h⟩ := bind_eq_ok.mp h
  obtain ⟨parts, hparts, h⟩ := bind_eq_ok.mp h
  cases h
  constructor
  · rw [prepare, hcatalog, ok_bind, hevents, ok_bind, hspec, ok_bind, hobserved, ok_bind, hslots]
    rfl
  · intro c hc
    obtain ⟨_, -, hcreate⟩ := bind_eq_ok.mp hspec
    have hnone := (CompletionSpec.create_eq_ok hcreate).2.2.2.1
    rw [List.mem_append, List.mem_append, List.mem_append, hnone] at hc
    rcases hc with ((hc | hc) | hc) | hc
    · exact absurd hc List.not_mem_nil
    · exact absurd hc List.not_mem_nil
    · obtain ⟨event, hevent, rfl⟩ := List.mem_map.mp hc
      rw [hhorizon]
      exact .inl ⟨event, hevent, rfl⟩
    · obtain ⟨part, hpart, hc⟩ := List.mem_flatMap.mp hc
      obtain ⟨rule, hrule, hok⟩ := mapM_origin hparts hpart
      exact .inr ⟨rule, hrule, part, hok, hc⟩

/-- The constraints of a built run are satisfied when those of its rules are, a part of the
rules at a time. -/
theorem satisfies_of_rules {run : ModuleRun} {interpreter : Interpreter}
    {test : BoundedProblem → EvaluationContext → Bool} (hbuild : run.observes interpreter test = true)
    (hbounds : run.satisfiesBounds interpreter = true) {parts : Nat} (hparts : 0 < parts)
    (hrules : ∀ remainder < parts, run.satisfiesRules interpreter parts remainder = true) :
    run.satisfies interpreter = true := by
  obtain ⟨built, hbuilt, -⟩ := exists_of_observes hbuild
  obtain ⟨hprepare, hconstraints⟩ := prepare_of_build hbuilt
  unfold satisfies observes
  rw [hbuilt]
  refine List.all_eq_true.mpr fun c hc => ?_
  rcases hconstraints c hc with ⟨event, hevent, rfl⟩ | ⟨rule, hrule, part, hpart, hc⟩
  · rw [satisfiesBounds, hprepare] at hbounds
    exact List.all_eq_true.mp hbounds event hevent
  · obtain ⟨i, hi, rfl⟩ := List.mem_iff_getElem.mp hrule
    have hplace := hrules (i % parts) (Nat.mod_lt i hparts)
    rw [satisfiesRules, hprepare] at hplace
    have hmem : (built.spec.transformations[i], i) ∈
        built.spec.transformations.zipIdx.filter (fun p => p.2 % parts = i % parts) :=
      List.mem_filter.mpr ⟨List.mk_mem_zipIdx_iff_getElem?.mpr (List.getElem?_eq_getElem hi),
        decide_eq_true rfl⟩
    have hall := List.all_eq_true.mp hplace _ hmem
    simp only [hpart] at hall
    exact List.all_eq_true.mp hall c hc

/-- The state check accepts the run, and what it shows passes the test. -/
def settles (run : ModuleRun) (interpreter : Interpreter)
    (test : BoundedProblem → EvaluationContext → Bool) : Bool :=
  run.observes interpreter (fun problem context =>
    (match checkStateSemantics problem interpreter (.ofList run.assignment) with
      | .ok result => result.feasible
      | .error _ => false) && test problem context)

/-- The two halves of the acceptance of a run. -/
theorem demonstrates_of_settles {run : ModuleRun} {interpreter : Interpreter}
    {test : BoundedProblem → EvaluationContext → Bool} (h : run.satisfies interpreter = true)
    (hsettles : run.settles interpreter test = true) : run.demonstrates interpreter test = true := by
  unfold satisfies observes at h
  unfold settles observes at hsettles
  unfold demonstrates accepts
  split at h
  · rename_i built hbuild
    rw [hbuild, Bool.and_eq_true] at hsettles
    rw [Bool.and_eq_true, Bool.and_eq_true]
    exact ⟨⟨h, hsettles.1⟩, hsettles.2⟩
  · cases h

/-- An accepted run is a completion. -/
theorem exists_completion {run : ModuleRun} {interpreter : Interpreter}
    {test : BoundedProblem → EvaluationContext → Bool}
    (h : run.demonstrates interpreter test = true) :
    ∃ problem pre, run.Completes interpreter problem pre ∧
      test problem (problem.context interpreter (.ofList run.assignment)) = true := by
  obtain ⟨built, pre, hbuild, hcompletes, htest⟩ := exists_built h
  exact ⟨built.problem, pre, ⟨_, _, _, completion_of_build hbuild hcompletes⟩, htest⟩

/-- An observed event of a run is in every completion, with its fields. -/
theorem showing_of_event {run : ModuleRun} {built : Built} (hbuild : run.build = .ok built)
    {interpreter : Interpreter} {assignment : Dict String Value} {pre : CellStates}
    (hcompletes : Umcm.Completes built.problem interpreter assignment pre) {f : EventFields}
    (hf : f ∈ run.events) (hnodup : (f.fields.map Prod.fst).Nodup)
    (hnames : ∀ p ∈ f.fields, p.1 ≠ "occurs" ∧ p.1 ≠ "cycle") :
    Showing built.problem (built.problem.context interpreter assignment) f.eventType f.fields
      f.id := by
  have h := (completion_of_build hbuild hcompletes).toCompletion
  obtain ⟨-, -, hevents⟩ := build_eq_ok hbuild
  obtain ⟨e, he, hok⟩ := mapM_result hevents hf
  obtain ⟨hid, htype, hoccurs, hfields⟩ := event_eq_ok hok
  obtain ⟨event, hevent, htype', hid', hhappens, hreads⟩ := h.observed he
  rw [hid] at hid' hhappens hreads
  refine ⟨⟨⟨event, hevent, htype'.trans htype, hid'⟩, hhappens hoccurs⟩, ?_⟩
  intro p hp
  refine ⟨p.2, hreads p.1 p.2 (hnames p hp).1 (hnames p hp).2 ?_, rfl⟩
  rw [hfields]
  refine Dict.get?_ofList_of_mem ?_ (List.mem_map.mpr ⟨p, hp, rfl⟩)
  rw [List.map_map]
  exact hnodup

end ModuleRun

end Umcm
