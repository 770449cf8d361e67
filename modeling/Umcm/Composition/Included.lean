import Umcm.Composition.Ownership
import Umcm.Composition.Template
import Umcm.Solver.Firing

/-!
# Completions of a module

A completion model includes a module when it has the slots, cells and rules of
the module and no other rule uses the cells. The module alone is included in
its own model, and the modules of an accepted composition are included in the
composed one, so what holds of every completion that includes a module holds in
both.

* `includes_of_composeModules`: composed models include their modules.
* `ModuleCompletion.forward`, `.support`, `.requirement`, `.update`, `.changed`:
  the rules of a module file in a completion that includes the module.
-/

namespace Umcm

open Except EvaluationContext

/-! ## Inclusion -/

/-- The model has the parts of the module, and only rules of the module use its cells. -/
structure CompletionSpec.Includes (spec : CompletionSpec) (module : ModuleSpec) : Prop where
  slots : ∀ s ∈ module.slots, s.slot ∈ spec.slots
  cells : ∀ cell ∈ module.stateVariables, cell ∈ spec.stateVariables
  rules : ∀ t ∈ module.transformations, t ∈ spec.transformations
  owned : ∀ t ∈ spec.transformations, ∀ cell ∈ t.cells,
    cell ∈ module.stateVariables.map StateVariable.name → t ∈ module.transformations

/-- The model of an accepted composition includes every module. -/
theorem includes_of_composeModules {Context : Type} {catalog : EventCatalog}
    {resolve : Except PyError Context} {load : Context → ModuleReference → Except PyError ModuleFile}
    {composition : CompositionSpec} {result : CompositionResult}
    (haccepted : composeModules catalog resolve load composition = .ok result) {m : LoadedModule}
    (hm : m ∈ result.modules) : result.completion.Includes m.spec := by
  have h := composed_of_composeModules haccepted
  constructor
  case slots =>
    intro s hs
    rw [h.slots_eq]
    exact List.mem_flatMap.mpr ⟨m, hm, List.mem_map_of_mem hs⟩
  case cells =>
    intro cell hcell
    rw [h.states]
    exact List.mem_flatMap.mpr ⟨m, hm, hcell⟩
  case rules =>
    intro t ht
    obtain ⟨generated, -, hrules⟩ := h.transformations_eq
    rw [hrules]
    exact List.mem_append_left _ (List.mem_flatMap.mpr ⟨m, hm, ht⟩)
  case owned =>
    intro t ht cell hcell hdeclared
    rw [h.completionRules] at ht
    obtain ⟨r, hr, rfl⟩ := List.mem_map.mp ht
    obtain ⟨m', hm', ⟨own, hown, htransformation, -⟩, -, hunique⟩ :=
      (owned_of_composed h).rules r hr cell hcell
    have heq : m = m' := hunique m hm hdeclared
    rw [heq, htransformation]
    exact List.mem_map_of_mem hown

/-- The model that a module alone makes includes the module. -/
theorem includes_of_create {module : ModuleSpec} {constraints : List Expr} {horizon : Nat}
    {spec : CompletionSpec}
    (h : CompletionSpec.create (module.slots.map ModuleSlot.slot) module.transformations
      module.stateVariables constraints horizon = .ok spec) : spec.Includes module := by
  obtain ⟨hslots, hrules, hcells, -, -⟩ := CompletionSpec.create_eq_ok h
  constructor
  case slots => exact fun s hs => hslots ▸ List.mem_map_of_mem hs
  case cells => exact fun cell hcell => hcells ▸ hcell
  case rules => exact fun t ht => hrules ▸ ht
  case owned => exact fun t ht _ _ _ => hrules ▸ ht

/-! ## Rules of a file -/

/-- An event of the type occurs. -/
structure Occurring (problem : BoundedProblem) (context : EvaluationContext)
    (eventType id : String) : Prop where
  event : ∃ event ∈ problem.events, event.eventType = eventType ∧ event.id = id
  happens : context.Happens id

namespace Transformation.Fields

/-- The roles of the rule, bound to events. -/
def binding (f : Fields) (ids : List String) : RoleBinding :=
  ((f.inputs ++ f.outputs).map Prod.fst).zip ids

/-- The outputs of the rule, bound to events. -/
def outputBinding (f : Fields) (outs : List String) : RoleBinding :=
  (f.outputs.map Prod.fst).zip outs

/-- The rule fires with these events as its inputs and outputs. -/
structure Fires (f : Fields) (problem : BoundedProblem) (context : EvaluationContext)
    (ins outs : List String) : Prop where
  inputs : List.Forall₂ (fun role id => Occurring problem context role.2 id) f.inputs ins
  outputs : List.Forall₂ (fun role id => Occurring problem context role.2 id) f.outputs outs
  nodup : (ins ++ outs).Nodup
  when : context.Holds ((f.binding (ins ++ outs)).instantiate f.when)
  outputWhen : context.Holds ((f.binding (ins ++ outs)).instantiate f.outputWhen)
  ensure : ∀ e ∈ f.ensure, context.Holds ((f.binding (ins ++ outs)).instantiate e)

end Transformation.Fields

section Bindings

variable {problem : BoundedProblem} {context : EvaluationContext}

/-- A binding is the list of the role names next to that of the bound events. -/
theorem RoleBinding.eq_zip {b : RoleBinding} {names : List String} (h : b.map Prod.fst = names) :
    b = names.zip b.ids := by
  rw [← h]
  exact List.zip_of_prod rfl rfl

/-- Events of the types of the roles make a binding. -/
theorem binds_zip {roles : List EventRole} {pairs : List (String × String)}
    (hroles : roles.map (fun r => (r.name, r.eventType)) = pairs) {ids : List String}
    (h : List.Forall₂ (fun role id => Occurring problem context role.2 id) pairs ids) :
    RoleBinding.Binds problem.events roles ((pairs.map Prod.fst).zip ids) := by
  rw [RoleBinding.Binds]
  subst hroles
  induction roles generalizing ids with
  | nil =>
      cases h
      exact .nil
  | cons role roles ih =>
      cases h with
      | cons hid hrest => exact .cons ⟨rfl, hid.event⟩ (ih hrest)

/-- The bound events of a binding that occur. -/
theorem occurring_of_binds {roles : List EventRole} {pairs : List (String × String)}
    (hroles : roles.map (fun r => (r.name, r.eventType)) = pairs) {b : RoleBinding}
    (h : b.Binds problem.events roles) (hoccurs : ∀ e ∈ b.occurs, context.Holds e) :
    List.Forall₂ (fun role id => Occurring problem context role.2 id) pairs b.ids := by
  subst hroles
  rw [RoleBinding.Binds] at h
  induction h with
  | nil => exact .nil
  | cons hp _ ih =>
      simp only [RoleBinding.occurs, RoleBinding.ids, List.map_cons, List.forall_mem_cons] at hoccurs
      exact .cons ⟨hp.2, holds_occurs.mp hoccurs.1⟩ (ih hoccurs.2)

theorem holds_occurs_of_occurring {pairs : List (String × String)} {ids : List String}
    (h : List.Forall₂ (fun role id => Occurring problem context role.2 id) pairs ids) :
    ∀ e ∈ RoleBinding.occurs ((pairs.map Prod.fst).zip ids), context.Holds e := by
  induction h with
  | nil =>
      intro e he
      cases he
  | cons hid _ ih =>
      intro e he
      rcases List.mem_cons.mp he with rfl | he
      · exact holds_occurs.mpr hid.happens
      · exact ih e he

theorem ids_zip {pairs : List (String × String)} {ids : List String}
    (h : pairs.length = ids.length) :
    RoleBinding.ids ((pairs.map Prod.fst).zip ids) = ids := by
  rw [RoleBinding.ids, List.map_snd_zip]
  rw [List.length_map, h]

end Bindings

namespace Transformation

variable {problem : BoundedProblem} {context : EvaluationContext} {t : Transformation}
  {f : Transformation.Fields}

theorem BuiltFrom.input_names (h : t.BuiltFrom f) :
    t.inputs.map EventRole.name = f.inputs.map Prod.fst := by
  rw [← h.inputs_eq, List.map_map]
  rfl

theorem BuiltFrom.output_names (h : t.BuiltFrom f) :
    t.outputs.map EventRole.name = f.outputs.map Prod.fst := by
  rw [← h.outputs_eq, List.map_map]
  rfl

/-- The binding of a firing, from its events. -/
theorem BuiltFrom.binding_eq (h : t.BuiltFrom f) {events : List EventInstance}
    {input output : RoleBinding} (hfiring : t.IsFiring events input output) :
    input ++ output = f.binding (input.ids ++ output.ids) := by
  have hnames : (input ++ output).map Prod.fst = (f.inputs ++ f.outputs).map Prod.fst := by
    rw [List.map_append, binds_keys hfiring.inputs, binds_keys hfiring.outputs, h.input_names,
      h.output_names, List.map_append]
  have hids : RoleBinding.ids (input ++ output) = input.ids ++ output.ids := List.map_append
  have heq := RoleBinding.eq_zip hnames
  rw [hids] at heq
  exact heq

theorem BuiltFrom.fires (h : t.BuiltFrom f) {input output : RoleBinding}
    (hfires : t.Fires context problem.events input output)
    (hwhen : RoleBinding.instantiate (input ++ output) t.when = input.instantiate t.when) :
    f.Fires problem context input.ids output.ids := by
  obtain ⟨hantecedent, houtputs⟩ := List.forall_mem_append.mp hfires.holds
  obtain ⟨hinOccurs, hguard⟩ := List.forall_mem_append.mp hantecedent
  obtain ⟨houtOccurs, hrest⟩ := List.forall_mem_append.mp houtputs
  obtain ⟨houtputWhen, hensure⟩ := List.forall_mem_cons.mp hrest
  have hbinding := h.binding_eq hfires.firing
  constructor
  case inputs => exact occurring_of_binds h.inputs_eq hfires.firing.inputs hinOccurs
  case outputs => exact occurring_of_binds h.outputs_eq hfires.firing.outputs houtOccurs
  case nodup =>
    have hdistinct := hfires.firing.distinct
    simpa [RoleBinding.distinct, RoleBinding.ids] using hdistinct
  case when =>
    rw [← hbinding, ← h.when_eq, hwhen]
    exact List.forall_mem_singleton.mp hguard
  case outputWhen =>
    rw [← hbinding, ← h.outputWhen_eq]
    exact houtputWhen
  case ensure =>
    rw [← hbinding, ← h.ensure_eq]
    exact List.forall_mem_map.mp hensure

/-- The binding of the events of a firing, in two halves. -/
theorem Fields.Fires.binding_eq {ins outs : List String} (h : f.Fires problem context ins outs) :
    f.binding (ins ++ outs) =
      (f.inputs.map Prod.fst).zip ins ++ (f.outputs.map Prod.fst).zip outs := by
  rw [Fields.binding, List.map_append, List.zip_append]
  rw [List.length_map, h.inputs.length_eq]

/-- The events of a firing make a firing of the rule. -/
theorem BuiltFrom.fires_of_fields (h : t.BuiltFrom f) {ins outs : List String}
    (hfires : f.Fires problem context ins outs)
    (hwhen : ∀ ref ∈ t.when.eventFields, ref.1 ∈ t.inputs.map EventRole.name)
    (houtputWhen : ∀ ref ∈ t.outputWhen.eventFields, ref.1 ∈ t.outputs.map EventRole.name) :
    t.Fires context problem.events ((f.inputs.map Prod.fst).zip ins)
      ((f.outputs.map Prod.fst).zip outs) := by
  have hids : RoleBinding.ids ((f.inputs.map Prod.fst).zip ins ++
      (f.outputs.map Prod.fst).zip outs) = ins ++ outs := by
    have hin := ids_zip hfires.inputs.length_eq
    have hout := ids_zip hfires.outputs.length_eq
    rw [RoleBinding.ids] at hin hout ⊢
    rw [List.map_append, hin, hout]
  have hfiring : t.IsFiring problem.events ((f.inputs.map Prod.fst).zip ins)
      ((f.outputs.map Prod.fst).zip outs) := by
    refine ⟨binds_zip h.inputs_eq hfires.inputs, binds_zip h.outputs_eq hfires.outputs, ?_⟩
    rw [RoleBinding.distinct, hids]
    exact decide_eq_true hfires.nodup
  have hguard := (hfiring.instantiate_guards hwhen houtputWhen).1
  refine ⟨hfiring, List.forall_mem_append.mpr ⟨?_, ?_⟩⟩
  · refine List.forall_mem_append.mpr ⟨holds_occurs_of_occurring hfires.inputs, ?_⟩
    rw [List.forall_mem_singleton, ← hguard, ← hfires.binding_eq, h.when_eq]
    exact hfires.when
  · refine List.forall_mem_append.mpr ⟨holds_occurs_of_occurring hfires.outputs, ?_⟩
    rw [List.forall_mem_cons, ← hfires.binding_eq, h.outputWhen_eq, h.ensure_eq,
      List.forall_mem_map]
    exact ⟨hfires.outputWhen, hfires.ensure⟩

end Transformation

/-! ## Completions that include a module -/

/-- A completion of a model that includes the module of the file. -/
structure ModuleCompletion (file : ModuleFields) (catalog : EventCatalog) (trace : Trace)
    (spec : CompletionSpec) (problem : BoundedProblem) (interpreter : Interpreter)
    (assignment : Dict String Value) (pre : CellStates) : Prop extends
    Completion catalog trace spec problem interpreter assignment pre where
  included : ∃ module, file.load = .ok module ∧ spec.Includes module

namespace ModuleCompletion

variable {file : ModuleFields} {catalog : EventCatalog} {trace : Trace} {spec : CompletionSpec}
  {problem : BoundedProblem} {interpreter : Interpreter} {assignment : Dict String Value}
  {pre : CellStates}

/-- The cells of the file have different names. -/
theorem cells_nodup
    (h : ModuleCompletion file catalog trace spec problem interpreter assignment pre) :
    (file.stateVariables.map StateVariable.Fields.name).Nodup := by
  obtain ⟨module, hload, -⟩ := h.included
  exact ModuleFields.cells_nodup hload

/-- A rule of the file is a rule of the model. -/
theorem rule (h : ModuleCompletion file catalog trace spec problem interpreter assignment pre)
    {rule : ModuleRule.Fields} (hrule : rule ∈ file.rules) :
    ∃ t ∈ spec.transformations, t.BuiltFrom rule.toFields := by
  obtain ⟨module, hload, hincludes⟩ := h.included
  obtain ⟨t, ht, hbuilt⟩ := (ModuleFields.load_eq_ok hload).rule_built rule hrule
  exact ⟨t, hincludes.rules t ht, hbuilt⟩

/-- The events of a firing, as the file has the rule. -/
theorem fires_of_built
    (h : ModuleCompletion file catalog trace spec problem interpreter assignment pre)
    {t : Transformation} (ht : t ∈ spec.transformations) {f : Transformation.Fields}
    (hbuilt : t.BuiltFrom f) {input output : RoleBinding}
    (hfires : t.Fires (problem.context interpreter assignment) problem.events input output) :
    f.Fires problem (problem.context interpreter assignment) input.ids output.ids ∧
      input ++ output = f.binding (input.ids ++ output.ids) := by
  obtain ⟨hwhen, houtputWhen⟩ :=
    Transformation.references_of_validate (h.toCompletion.validated ht)
  exact ⟨hbuilt.fires hfires (hfires.firing.instantiate_guards hwhen houtputWhen).1,
    hbuilt.binding_eq hfires.firing⟩

/-- Events that occur and satisfy the guard of a rule have a firing. -/
theorem forward
    (h : ModuleCompletion file catalog trace spec problem interpreter assignment pre)
    {rule : ModuleRule.Fields} (hrule : rule ∈ file.rules) (hmode : rule.stateMode = .require)
    {ins : List String}
    (hins : List.Forall₂ (fun role id =>
      Occurring problem (problem.context interpreter assignment) role.2 id) rule.inputs ins)
    (hnodup : ins.Nodup)
    (hwhen : (problem.context interpreter assignment).Holds
      (RoleBinding.instantiate ((rule.inputs.map Prod.fst).zip ins) rule.when)) :
    ∃ outs, rule.Fires problem (problem.context interpreter assignment) ins outs := by
  obtain ⟨t, ht, hbuilt⟩ := h.rule hrule
  have hlength := hins.length_eq
  have hbinds := binds_zip hbuilt.inputs_eq hins
  obtain ⟨output, hfires⟩ := h.toCompletion.forward ht (hbuilt.stateMode_eq.trans hmode) hbinds
    (by rw [RoleBinding.distinct, ids_zip hlength]; exact decide_eq_true hnodup)
    (List.forall_mem_append.mpr ⟨holds_occurs_of_occurring hins,
      List.forall_mem_singleton.mpr (by rw [hbuilt.when_eq]; exact hwhen)⟩)
  have hfields := (h.fires_of_built ht hbuilt hfires).1
  rw [ids_zip hlength] at hfields
  exact ⟨output.ids, hfields⟩

/-- Outputs of an exact rule that occur within its scope have a firing. -/
theorem support
    (h : ModuleCompletion file catalog trace spec problem interpreter assignment pre)
    {rule : ModuleRule.Fields} (hrule : rule ∈ file.rules) (hmode : rule.stateMode = .require)
    (hexact : rule.isExact = true) {outs : List String}
    (houts : List.Forall₂ (fun role id =>
      Occurring problem (problem.context interpreter assignment) role.2 id) rule.outputs outs)
    (hnodup : outs.Nodup)
    (hscope : (problem.context interpreter assignment).Holds
      (RoleBinding.instantiate (rule.outputBinding outs) rule.outputWhen)) :
    ∃ ins, rule.Fires problem (problem.context interpreter assignment) ins outs := by
  obtain ⟨t, ht, hbuilt⟩ := h.rule hrule
  have hlength := houts.length_eq
  obtain ⟨input, hfires⟩ := h.toCompletion.support ht (hbuilt.stateMode_eq.trans hmode)
    (hbuilt.isExact_eq.trans hexact) (binds_zip hbuilt.outputs_eq houts)
    (by rw [RoleBinding.distinct, ids_zip hlength]; exact decide_eq_true hnodup)
    (holds_occurs_of_occurring houts) (by rw [hbuilt.outputWhen_eq]; exact hscope)
  have hfields := (h.fires_of_built ht hbuilt hfires).1
  rw [ids_zip hlength] at hfields
  exact ⟨input.ids, hfields⟩

/-- A firing finds its requirements met before the cycle of their anchors. -/
theorem requirement
    (h : ModuleCompletion file catalog trace spec problem interpreter assignment pre)
    {rule : ModuleRule.Fields} (hrule : rule ∈ file.rules) (hmode : rule.stateMode = .require)
    {ins outs : List String}
    (hfires : rule.Fires problem (problem.context interpreter assignment) ins outs)
    {r : StateRequirement.Fields} (hr : r ∈ rule.stateRequirements) :
    ∃ c v actual, c ≤ spec.horizon ∧
      (problem.context interpreter assignment).AtCycle
        ((rule.binding (ins ++ outs)).apply r.atRole) c ∧
      (problem.context interpreter assignment).evaluate
        ((rule.binding (ins ++ outs)).instantiate r.value) = .ok (some v) ∧
      pre c r.state = some actual ∧ r.op.compare actual v = .ok true := by
  obtain ⟨t, ht, hbuilt⟩ := h.rule hrule
  obtain ⟨hwhen, houtputWhen⟩ :=
    Transformation.references_of_validate (h.toCompletion.validated ht)
  rw [← hbuilt.requirements_eq] at hr
  obtain ⟨requirement, hrequirement, rfl⟩ := List.mem_map.mp hr
  rw [hfires.binding_eq]
  exact h.toCompletion.requirement ht (hbuilt.stateMode_eq.trans hmode)
    (hbuilt.fires_of_fields hfires hwhen houtputWhen) hrequirement

/-- A firing has its updates visible after the cycle of their anchors. -/
theorem update
    (h : ModuleCompletion file catalog trace spec problem interpreter assignment pre)
    {rule : ModuleRule.Fields} (hrule : rule ∈ file.rules) (hmode : rule.stateMode = .require)
    {ins outs : List String}
    (hfires : rule.Fires problem (problem.context interpreter assignment) ins outs)
    {u : StateUpdate.Fields} (hu : u ∈ rule.stateUpdates) :
    ∃ c v w, c ≤ spec.horizon ∧
      (problem.context interpreter assignment).AtCycle
        ((rule.binding (ins ++ outs)).apply u.atRole) c ∧
      (problem.context interpreter assignment).evaluate
        ((rule.binding (ins ++ outs)).instantiate u.value) = .ok (some v) ∧
      pre (c + 1) u.state = some w ∧ w.key = v.key := by
  obtain ⟨t, ht, hbuilt⟩ := h.rule hrule
  obtain ⟨hwhen, houtputWhen⟩ :=
    Transformation.references_of_validate (h.toCompletion.validated ht)
  rw [← hbuilt.updates_eq] at hu
  obtain ⟨update, hupdate, rfl⟩ := List.mem_map.mp hu
  rw [hfires.binding_eq]
  exact h.toCompletion.update ht (hbuilt.stateMode_eq.trans hmode)
    (hbuilt.fires_of_fields hfires hwhen houtputWhen) hupdate

/-- A cell of the module that changes has the value of an update of one of its rules. -/
theorem changed
    (h : ModuleCompletion file catalog trace spec problem interpreter assignment pre)
    {cell : StateVariable.Fields} (hcell : cell ∈ file.stateVariables) {c : Nat}
    (hc : c ≤ spec.horizon) (hne : pre (c + 1) cell.name ≠ pre c cell.name) :
    ∃ rule ∈ file.rules, ∃ ins outs,
      rule.Fires problem (problem.context interpreter assignment) ins outs ∧
      ∃ u ∈ rule.stateUpdates, u.state = cell.name ∧
        (problem.context interpreter assignment).AtCycle
          ((rule.binding (ins ++ outs)).apply u.atRole) c ∧
        ∃ v, (problem.context interpreter assignment).evaluate
          ((rule.binding (ins ++ outs)).instantiate u.value) = .ok (some v) ∧
          pre (c + 1) cell.name = some v := by
  obtain ⟨module, hload, hincludes⟩ := h.included
  have hloaded := ModuleFields.load_eq_ok hload
  obtain ⟨t, ht, input, output, hfires, update, hupdate, hstate, hcycle, v, hv, hafter⟩ :=
    h.toCompletion.changed hc hne
  obtain ⟨declared, hdeclared, hname, -⟩ := hloaded.cell_built cell hcell
  have huses : cell.name ∈ t.cells :=
    List.mem_append_right _ (List.mem_map.mpr ⟨update, hupdate, hstate⟩)
  have hown := hincludes.owned t ht cell.name huses (hname ▸ List.mem_map_of_mem hdeclared)
  obtain ⟨rule, hrule, hbuilt⟩ := hloaded.rule_origin t hown
  obtain ⟨hfields, hbinding⟩ := h.fires_of_built ht hbuilt hfires
  rw [hbinding] at hcycle hv
  refine ⟨rule, hrule, input.ids, output.ids, hfields, ⟨update.state, update.atRole, update.value⟩,
    ?_, hstate, hcycle, v, hv, hafter⟩
  rw [← hbuilt.updates_eq]
  exact List.mem_map_of_mem hupdate

/-- A cell of the module starts with its initial value. -/
theorem start (h : ModuleCompletion file catalog trace spec problem interpreter assignment pre)
    {cell : StateVariable.Fields} (hcell : cell ∈ file.stateVariables) :
    pre 0 cell.name = some cell.initial := by
  obtain ⟨module, hload, hincludes⟩ := h.included
  obtain ⟨declared, hdeclared, hname, hinitial⟩ :=
    (ModuleFields.load_eq_ok hload).cell_built cell hcell
  rw [← hname]
  refine h.completes.2.start ?_ ?_ hinitial
  · rw [h.toCompletion.spec_eq]
    exact spec.stateVariables_nodup
  · rw [h.toCompletion.spec_eq]
    exact hincludes.cells declared hdeclared

end ModuleCompletion

end Umcm
