import Umcm.Composition.Guarded
import Umcm.Data.Timeline

/-!
# Flags of a file

A cell of a module that starts false and that its rules set to literal truth
values is a flag: it is on when the last firing that set it set it to true.

* `ModuleCompletion.flag`: such a cell is a flag over the cycles of the run.
* `ModuleCompletion.exists_firing`, `.fires_forward`: firings, with their events
  found by their roles.
-/

namespace Umcm

open EvaluationContext

/-! ## Roles of a firing -/

theorem RoleBinding.apply_of_mem {b : RoleBinding} (hnodup : (b.map Prod.fst).Nodup)
    {role id : String} (h : (role, id) ∈ b) : b.apply role = id := by
  induction b with
  | nil => cases h
  | cons p rest ih =>
      rw [List.map_cons, List.nodup_cons] at hnodup
      rw [RoleBinding.apply_cons]
      rcases List.mem_cons.mp h with rfl | hrest
      · exact if_pos rfl
      · rw [if_neg]
        · exact ih hnodup.2 hrest
        · rintro rfl
          exact hnodup.1 (List.mem_map.mpr ⟨_, hrest, rfl⟩)

namespace Transformation.Fields

variable {problem : BoundedProblem} {context : EvaluationContext} {f : Transformation.Fields}

/-- The roles of a rule have different names. -/
def RolesApart (f : Fields) : Prop := ((f.inputs ++ f.outputs).map Prod.fst).Nodup

instance : Decidable f.RolesApart := inferInstanceAs (Decidable (List.Nodup _))

theorem map_fst_binding {ids : List String} (h : (f.inputs ++ f.outputs).length = ids.length) :
    (f.binding ids).map Prod.fst = (f.inputs ++ f.outputs).map Prod.fst := by
  rw [binding, List.map_fst_zip]
  rw [List.length_map, h]

namespace Fires

variable {ins outs : List String}

theorem length_eq (h : f.Fires problem context ins outs) :
    (f.inputs ++ f.outputs).length = (ins ++ outs).length := by
  rw [List.length_append, List.length_append, h.inputs.length_eq, h.outputs.length_eq]

/-- The event of a role occurs. -/
theorem occurring (h : f.Fires problem context ins outs) (hapart : f.RolesApart)
    {role eventType : String} (hrole : (role, eventType) ∈ f.inputs ++ f.outputs) :
    Occurring problem context eventType ((f.binding (ins ++ outs)).apply role) := by
  have hall : List.Forall₂ (fun role id => Occurring problem context role.2 id)
      (f.inputs ++ f.outputs) (ins ++ outs) := List.rel_append h.inputs h.outputs
  obtain ⟨n, hn, hget⟩ := List.mem_iff_getElem.mp hrole
  have hn' : n < (ins ++ outs).length := h.length_eq ▸ hn
  have hid := hall.get hn hn'
  have hmem : (role, (ins ++ outs)[n]) ∈ f.binding (ins ++ outs) := by
    refine List.mem_iff_getElem.mpr ⟨n, ?_, ?_⟩
    · rw [binding, List.length_zip, List.length_map]
      omega
    · simp only [binding, List.getElem_zip, List.getElem_map, hget]
  rw [RoleBinding.apply_of_mem (by rw [map_fst_binding h.length_eq]; exact hapart) hmem]
  simpa [hget] using hid

/-- The events given for the inputs are those of their roles. -/
theorem apply_input (h : f.Fires problem context ins outs) (hapart : f.RolesApart)
    {role id : String} (hid : (role, id) ∈ (f.inputs.map Prod.fst).zip ins) :
    (f.binding (ins ++ outs)).apply role = id := by
  refine RoleBinding.apply_of_mem (by rw [map_fst_binding h.length_eq]; exact hapart) ?_
  rw [h.binding_eq]
  exact List.mem_append_left _ hid

/-- The events given for the outputs are those of their roles. -/
theorem apply_output (h : f.Fires problem context ins outs) (hapart : f.RolesApart)
    {role id : String} (hid : (role, id) ∈ (f.outputs.map Prod.fst).zip outs) :
    (f.binding (ins ++ outs)).apply role = id := by
  refine RoleBinding.apply_of_mem (by rw [map_fst_binding h.length_eq]; exact hapart) ?_
  rw [h.binding_eq]
  exact List.mem_append_right _ hid

end Fires

end Transformation.Fields

namespace ModuleCompletion

variable {file : ModuleFields} {catalog : EventCatalog} {trace : Trace} {spec : CompletionSpec}
  {problem : BoundedProblem} {interpreter : Interpreter} {assignment : Dict String Value}
  {pre : CellStates}

/-! ## Firings -/

/-- The output of an exact rule within its scope comes from a firing. -/
theorem exists_firing
    (h : ModuleCompletion file catalog trace spec problem interpreter assignment pre)
    {rule : ModuleRule.Fields} (hrule : rule ∈ file.rules) (hmode : rule.stateMode = .require)
    (hexact : rule.isExact = true) (hapart : rule.RolesApart) {role eventType : String}
    (houtputs : rule.outputs = [(role, eventType)]) {b : String}
    (hb : Occurring problem (problem.context interpreter assignment) eventType b)
    (hscope : (problem.context interpreter assignment).Holds
      (RoleBinding.instantiate [(role, b)] rule.outputWhen)) :
    ∃ ins, rule.Fires problem (problem.context interpreter assignment) ins [b] ∧
      (rule.binding (ins ++ [b])).apply role = b := by
  obtain ⟨ins, hfires⟩ := h.support hrule hmode hexact
    (by rw [houtputs]; exact .cons hb .nil) (List.nodup_singleton b)
    (by rw [Transformation.Fields.outputBinding, houtputs]; exact hscope)
  refine ⟨ins, hfires, hfires.apply_output hapart ?_⟩
  rw [houtputs]
  exact List.mem_singleton_self _

/-- The guard of a rule has a result when its inputs occur. -/
theorem guard_returns
    (h : ModuleCompletion file catalog trace spec problem interpreter assignment pre)
    {rule : ModuleRule.Fields} (hrule : rule ∈ file.rules) (hmode : rule.stateMode = .require)
    {ins : List String}
    (hins : List.Forall₂ (fun role id =>
      Occurring problem (problem.context interpreter assignment) role.2 id) rule.inputs ins)
    (hnodup : ins.Nodup) :
    (problem.context interpreter assignment).Returns
      (RoleBinding.instantiate ((rule.inputs.map Prod.fst).zip ins) rule.when) := by
  obtain ⟨t, ht, hbuilt⟩ := h.rule hrule
  rw [← hbuilt.when_eq]
  exact h.toCompletion.guard_returns ht (hbuilt.stateMode_eq.trans hmode)
    (binds_zip hbuilt.inputs_eq hins)
    (by rw [RoleBinding.distinct, ids_zip hins.length_eq]; exact decide_eq_true hnodup)

end ModuleCompletion

/-! ## Flags -/

namespace ModuleFields

/-- A firing of a rule of the file sets the cell to the truth value. -/
def SetsFlag (file : ModuleFields) (problem : BoundedProblem) (context : EvaluationContext)
    (name : String) (value : Bool) (c : Nat) : Prop :=
  ∃ rule ∈ file.rules, ∃ ins outs, rule.Fires problem context ins outs ∧
    ∃ u ∈ rule.stateUpdates, u.state = name ∧ (∃ sort, u.value = .literal (.bool value) sort) ∧
      context.AtCycle ((rule.binding (ins ++ outs)).apply u.atRole) c

/-- The cell starts false, and the rules that set it require their state and set
it to truth values. -/
structure IsFlag (file : ModuleFields) (name : String) : Prop where
  cell : ⟨name, .bool, .bool false⟩ ∈ file.stateVariables
  literal : ∀ rule ∈ file.rules, ∀ u ∈ rule.stateUpdates, u.state = name →
    rule.stateMode = .require ∧ ∃ value sort, u.value = .literal (.bool value) sort

end ModuleFields

namespace ModuleCompletion

variable {file : ModuleFields} {catalog : EventCatalog} {trace : Trace} {spec : CompletionSpec}
  {problem : BoundedProblem} {interpreter : Interpreter} {assignment : Dict String Value}
  {pre : CellStates}

theorem cell_of_setsFlag
    (h : ModuleCompletion file catalog trace spec problem interpreter assignment pre)
    {name : String} (hflag : file.IsFlag name) {value : Bool} {c : Nat}
    (hset : file.SetsFlag problem (problem.context interpreter assignment) name value c) :
    CellIs pre (c + 1) name (.bool value) := by
  obtain ⟨rule, hrule, ins, outs, hfires, u, hu, rfl, ⟨sort, hvalue⟩, hcycle⟩ := hset
  obtain ⟨hmode, -⟩ := hflag.literal rule hrule u hu rfl
  have hmem : ⟨u.state, u.atRole, .literal (.bool value) sort⟩ ∈ rule.stateUpdates := by
    rw [← hvalue]
    exact hu
  obtain ⟨d, -, hd, hcell⟩ := h.sets hrule hmode hfires hmem
  cases hd.unique hcycle
  exact hcell

/-- A cell that no firing sets is kept. -/
theorem flag_kept
    (h : ModuleCompletion file catalog trace spec problem interpreter assignment pre)
    {name : String} (hflag : file.IsFlag name) {c : Nat} (hc : c ≤ spec.horizon)
    (hnone : ∀ value,
      ¬ file.SetsFlag problem (problem.context interpreter assignment) name value c) (v : Value) :
    CellIs pre (c + 1) name v ↔ CellIs pre c name v := by
  by_contra hne
  obtain ⟨rule, hrule, ins, outs, hfires, u, hu, hstate, hcycle, -⟩ :=
    h.sets_of_ne hflag.cell hc (fun hiff => hne hiff.symm)
  obtain ⟨-, value, sort, hvalue⟩ := hflag.literal rule hrule u hu hstate
  exact hnone value ⟨rule, hrule, ins, outs, hfires, u, hu, hstate, ⟨sort, hvalue⟩, hcycle⟩

/-- The cell is a flag over the cycles of the run. -/
theorem flag
    (h : ModuleCompletion file catalog trace spec problem interpreter assignment pre)
    {name : String} (hflag : file.IsFlag name) :
    Timeline.Flag spec.horizon (fun c => CellIs pre c name (.bool true))
      (file.SetsFlag problem (problem.context interpreter assignment) name true)
      (file.SetsFlag problem (problem.context interpreter assignment) name false) := by
  constructor
  case start => exact (h.starts hflag.cell).not_true
  case set => exact fun c hset => h.cell_of_setsFlag hflag hset
  case clear => exact fun c hset => (h.cell_of_setsFlag hflag hset).not_true
  case kept =>
    intro c hc hset hclear
    exact h.flag_kept hflag hc (fun value => by cases value <;> assumption) _

/-- A flag that is not on is off. -/
theorem flag_off
    (h : ModuleCompletion file catalog trace spec problem interpreter assignment pre)
    {name : String} (hflag : file.IsFlag name) {c : Nat} (hc : c ≤ spec.horizon + 1) :
    CellIs pre c name (.bool false) ↔ ¬ CellIs pre c name (.bool true) := by
  induction c with
  | zero => exact iff_of_true (h.starts hflag.cell) (h.starts hflag.cell).not_true
  | succ c ih =>
      by_cases hset : file.SetsFlag problem (problem.context interpreter assignment) name true c
      · have hon := h.cell_of_setsFlag hflag hset
        exact iff_of_false (fun hoff => hoff.not_true hon) (not_not_intro hon)
      by_cases hclear : file.SetsFlag problem (problem.context interpreter assignment) name false c
      · have hoff := h.cell_of_setsFlag hflag hclear
        exact iff_of_true hoff hoff.not_true
      · -- nothing sets the cell in the cycle
        have hkept := h.flag_kept hflag (by omega) (c := c)
          (fun value => by cases value <;> assumption)
        rw [hkept, hkept]
        exact ih (by omega)

end ModuleCompletion

end Umcm
