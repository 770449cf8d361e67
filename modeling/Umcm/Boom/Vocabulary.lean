import Umcm.Composition.Sighting

/-!
# Vocabulary of the BOOM modules

The shapes of expressions that the module files use, and what the expressions
say of the bound events.
-/

namespace Umcm

namespace Boom

/-! ## Names -/

/-- `stem_${repeat_index}`. -/
@[irreducible] def indexed (stem : String) (index : Nat) : String := s!"{stem}_{index}"

/-- `unit[${id}].field`. -/
@[irreducible] def cellOf (unit id field : String) : String :=
  unit ++ "[" ++ id ++ "]" ++ "." ++ field

/-- Two lists are split alike at the first place of an element. -/
theorem append_cons_inj {α : Type} {a : α} {x x' z z' : List α} (hx : a ∉ x) (hx' : a ∉ x')
    (h : x ++ a :: z = x' ++ a :: z') : x = x' ∧ z = z' := by
  induction x generalizing x' with
  | nil =>
      cases x' with
      | nil => exact ⟨rfl, (List.cons.inj h).2⟩
      | cons b x' => exact absurd (List.cons.inj h).1 (List.ne_of_not_mem_cons hx')
  | cons b x ih =>
      cases x' with
      | nil => exact absurd (List.cons.inj h).1.symm (List.ne_of_not_mem_cons hx)
      | cons b' x' =>
          obtain ⟨rfl, htail⟩ := List.cons.inj h
          obtain ⟨rfl, rfl⟩ := ih (List.not_mem_of_not_mem_cons hx)
            (List.not_mem_of_not_mem_cons hx') htail
          exact ⟨rfl, rfl⟩

/-- What stands after the last dot of a name is determined. -/
theorem append_dot_inj {a b f g : String} (hf : '.' ∉ f.toList) (hg : '.' ∉ g.toList)
    (h : a ++ "." ++ f = b ++ "." ++ g) : a = b ∧ f = g := by
  have hlist := congrArg (fun s => s.toList.reverse) h
  simp only [String.toList_append, List.reverse_append, show ".".toList = ['.'] from rfl,
    List.append_assoc, List.reverse_cons, List.singleton_append] at hlist
  obtain ⟨hfields, hrest⟩ := append_cons_inj
    (show '.' ∉ f.toList.reverse by simpa using hf)
    (show '.' ∉ g.toList.reverse by simpa using hg) hlist
  exact ⟨String.toList_inj.mp (List.reverse_injective hrest),
    String.toList_inj.mp (List.reverse_injective hfields)⟩

/-- The field of a cell is determined. -/
theorem field_of_cellOf {unit unit' id id' f g : String} (hf : '.' ∉ f.toList)
    (hg : '.' ∉ g.toList) (h : cellOf unit id f = cellOf unit' id' g) : f = g := by
  unfold cellOf at h
  exact (append_dot_inj hf hg h).2

/-- The cells of a unit with one field are told apart by their ids. -/
theorem id_of_cellOf {unit id id' field : String} (hfield : '.' ∉ field.toList)
    (h : cellOf unit id field = cellOf unit id' field) : id = id' := by
  unfold cellOf at h
  have hprefix := congrArg String.toList (append_dot_inj hfield hfield h).1
  simp only [String.toList_append, List.append_assoc] at hprefix
  have hid := List.append_cancel_left (List.append_cancel_left hprefix)
  exact String.toList_inj.mp (List.append_cancel_right hid)

/-! ## Expressions -/

/-- The field of the role equals the value. -/
def fieldIs (role field : String) (sort : IrSort) (v : Value) : Expr :=
  .binary .eq (.eventField role field sort) (.literal v sort)

/-- The field is the same in both roles. -/
def sameField (role role' field : String) (sort : IrSort) : Expr :=
  .binary .eq (.eventField role field sort) (.eventField role' field sort)

/-- The first role has the smaller cycle. -/
def before (role role' : String) : Expr :=
  .binary .lt (.eventField role "cycle" .int) (.eventField role' "cycle" .int)

/-- The boolean field of the role. -/
def flag (role field : String) : Expr := .eventField role field .bool

def isTrue : Expr := .literal (.bool true) .bool

def isFalse : Expr := .literal (.bool false) .bool

/-- Both literals are equal. -/
def literalsEqual (sort : IrSort) (v w : Value) : Expr :=
  .binary .eq (.literal v sort) (.literal w sort)

def allOf (es : List Expr) : Expr := .nary .and es

def isNot (e : Expr) : Expr := .unary .not e

section Holds

open EvaluationContext

variable {context : EvaluationContext} {b : RoleBinding}

@[simp] theorem holds_fieldIs {role field : String} {sort : IrSort} {v : Value} :
    context.Holds (b.instantiate (fieldIs role field sort v)) ↔
      context.Carries (b.apply role) field v := by
  rw [fieldIs, RoleBinding.instantiate_binary, RoleBinding.instantiate_eventField,
    RoleBinding.instantiate_literal, holds_eq_value]

@[simp] theorem holds_sameField {role role' field : String} {sort : IrSort} :
    context.Holds (b.instantiate (sameField role role' field sort)) ↔
      context.Agree (b.apply role) (b.apply role') field field := by
  rw [sameField, RoleBinding.instantiate_binary, RoleBinding.instantiate_eventField,
    RoleBinding.instantiate_eventField, holds_eq_fields]

@[simp] theorem holds_before {role role' : String} :
    context.Holds (b.instantiate (before role role')) ↔
      context.Precedes (b.apply role) (b.apply role') := by
  rw [before, RoleBinding.instantiate_binary, RoleBinding.instantiate_eventField,
    RoleBinding.instantiate_eventField, holds_lt_cycles]

@[simp] theorem holds_flag {role field : String} :
    context.Holds (b.instantiate (flag role field)) ↔
      context.Reads (b.apply role) field (.bool true) := by
  rw [flag, RoleBinding.instantiate_eventField, holds_eventField]

theorem holds_isNot_flag {role field : String} :
    context.Holds (b.instantiate (isNot (flag role field))) ↔
      ∃ v, context.Reads (b.apply role) field v ∧ v.truthy = false := by
  rw [isNot, flag, RoleBinding.instantiate_unary, RoleBinding.instantiate_eventField, holds_not,
    evaluate_eventField]
  rfl

@[simp] theorem holds_literalsEqual {sort : IrSort} {v w : Value} :
    context.Holds (b.instantiate (literalsEqual sort v w)) ↔ v.key = w.key := by
  rw [literalsEqual, RoleBinding.instantiate_binary, RoleBinding.instantiate_literal,
    RoleBinding.instantiate_literal, holds_eq_literals]

@[simp] theorem holds_allOf {es : List Expr} :
    context.Holds (b.instantiate (allOf es)) ↔ ∀ e ∈ es, context.Holds (b.instantiate e) := by
  rw [allOf, RoleBinding.instantiate_nary, holds_and, List.forall_mem_map]

@[simp] theorem holds_isTrue : context.Holds (b.instantiate isTrue) := by
  rw [isTrue, RoleBinding.instantiate_literal]
  exact holds_true

@[simp] theorem evaluate_isTrue :
    context.evaluate (b.instantiate isTrue) = .ok (some (.bool true)) := by
  rw [isTrue, RoleBinding.instantiate_literal, evaluate_literal]

@[simp] theorem evaluate_isFalse :
    context.evaluate (b.instantiate isFalse) = .ok (some (.bool false)) := by
  rw [isFalse, RoleBinding.instantiate_literal, evaluate_literal]

end Holds

/-! ## Roles -/

@[simp] theorem apply_single {role a : String} : RoleBinding.apply [(role, a)] role = a := by
  rw [RoleBinding.apply_cons, if_pos rfl]

@[simp] theorem apply_input {role role' a b : String} :
    RoleBinding.apply [(role, a), (role', b)] role = a := by
  rw [RoleBinding.apply_cons, if_pos rfl]

theorem apply_output {role role' : String} (hne : role' ≠ role) {a b : String} :
    RoleBinding.apply [(role, a), (role', b)] role' = b := by
  rw [RoleBinding.apply_cons, if_neg hne, RoleBinding.apply_cons, if_pos rfl]

/-! ## Order of events -/

theorem pyLt_eq_true {u v : Value} : u.pyLt v = .ok true ↔
    (∃ p q, u.key = .num p ∧ v.key = .num q ∧ p < q) ∨
      ∃ s t, u.key = .str s ∧ v.key = .str t ∧ s < t := by
  unfold Value.pyLt
  cases u.key <;> cases v.key <;> simp

theorem pyLt_trans {u v w : Value} (huv : u.pyLt v = .ok true) (hvw : v.pyLt w = .ok true) :
    u.pyLt w = .ok true := by
  rw [pyLt_eq_true] at huv hvw ⊢
  rcases huv with ⟨p, q, hu, hv, hlt⟩ | ⟨s, t, hu, hv, hlt⟩ <;>
    rcases hvw with ⟨p', q', hv', hw, hlt'⟩ | ⟨s', t', hv', hw, hlt'⟩ <;>
    rw [hv] at hv' <;> cases hv'
  · exact Or.inl ⟨p, q', hu, hw, hlt.trans hlt'⟩
  · exact Or.inr ⟨s, t', hu, hw, hlt.trans hlt'⟩

namespace Precedes

variable {context : EvaluationContext} {a b c : String}

theorem trans (hab : context.Precedes a b) (hbc : context.Precedes b c) : context.Precedes a c := by
  obtain ⟨u, v, hu, hv, huv⟩ := hab
  obtain ⟨v', w, hv', hw, hvw⟩ := hbc
  cases hv.unique hv'
  exact ⟨u, w, hu, hw, pyLt_trans huv hvw⟩

end Precedes

/-! ## Causes -/

section Causes

open EvaluationContext

variable {file : ModuleFields} {catalog : EventCatalog} {trace : Trace} {spec : CompletionSpec}
  {problem : BoundedProblem} {interpreter : Interpreter} {assignment : Dict String Value}
  {pre : CellStates} {rule : ModuleRule.Fields} {role role' eventType eventType' : String}

/-- What a link of a rule says of its two events. -/
theorem holds_link {context : EvaluationContext} (hinputs : rule.inputs = [(role, eventType)])
    (houtputs : rule.outputs = [(role', eventType')]) (hne : role' ≠ role) {a b : String}
    (h : rule.Links problem context a b) :
    (∀ field sort, sameField role role' field sort ∈ rule.ensure →
      context.Agree a b field field) ∧
    (before role role' ∈ rule.ensure → context.Precedes a b) := by
  constructor
  · intro field sort he
    have hholds := h.holds hinputs houtputs he
    rwa [holds_sameField, apply_input, apply_output hne] at hholds
  · intro he
    have hholds := h.holds hinputs houtputs he
    rwa [holds_before, apply_input, apply_output hne] at hholds

/-- The output of a link is the event bound to the role of the output. -/
theorem anchor_output (hinputs : rule.inputs = [(role, eventType)])
    (houtputs : rule.outputs = [(role', eventType')]) (hne : role' ≠ role) {a b : String} :
    RoleBinding.apply (rule.binding ([a] ++ [b])) role' = b := by
  rw [Transformation.Fields.Links.binding_eq hinputs houtputs, apply_output hne]

/-- The guards of a link. -/
theorem guards_of_link {context : EvaluationContext} (hinputs : rule.inputs = [(role, eventType)])
    (houtputs : rule.outputs = [(role', eventType')]) {a b : String}
    (h : rule.Links problem context a b) :
    context.Holds (RoleBinding.instantiate [(role, a), (role', b)] rule.when) ∧
      context.Holds (RoleBinding.instantiate [(role, a), (role', b)] rule.outputWhen) := by
  rw [← Transformation.Fields.Links.binding_eq hinputs houtputs]
  exact ⟨h.when, h.outputWhen⟩

/-- An output of an exact rule that keeps the operation has an earlier input of
the same operation. -/
theorem cause (h : ModuleCompletion file catalog trace spec problem interpreter assignment pre)
    (hrule : rule ∈ file.rules) (hmode : rule.stateMode = .require) (hexact : rule.isExact = true)
    (hinputs : rule.inputs = [(role, eventType)]) (houtputs : rule.outputs = [(role', eventType')])
    (hne : role' ≠ role) (hsame : sameField role role' "op_id" opIdSort ∈ rule.ensure)
    (hbefore : before role role' ∈ rule.ensure) {v : Value} {b : String}
    (hb : Occurring problem (problem.context interpreter assignment) eventType' b)
    (hop : (problem.context interpreter assignment).Carries b "op_id" v)
    (hscope : (problem.context interpreter assignment).Holds
      (RoleBinding.instantiate [(role', b)] rule.outputWhen)) :
    ∃ a, Showing problem (problem.context interpreter assignment) eventType [("op_id", v)] a ∧
      (problem.context interpreter assignment).Precedes a b ∧
      rule.Links problem (problem.context interpreter assignment) a b := by
  obtain ⟨a, ha, hlinks⟩ := h.support_one hrule hmode hexact hinputs houtputs hb hscope
  obtain ⟨hagree, hprecedes⟩ := holds_link hinputs houtputs hne hlinks
  refine ⟨a, ⟨ha, ?_⟩, hprecedes hbefore, hlinks⟩
  intro p hp
  obtain rfl := List.mem_singleton.mp hp
  exact (hagree _ _ hsame).carries_left hop

/-- The single output of a firing is bound to the role of the output. -/
theorem anchor_of_output {context : EvaluationContext} {ins : List String} {b : String}
    (h : rule.Fires problem context ins [b]) (houtputs : rule.outputs = [(role', eventType')])
    (hne : role' ∉ rule.inputs.map Prod.fst) :
    RoleBinding.apply (rule.binding (ins ++ [b])) role' = b := by
  have hkeys : ((rule.inputs.map Prod.fst).zip ins).map Prod.fst = rule.inputs.map Prod.fst := by
    rw [List.map_fst_zip]
    rw [List.length_map, h.inputs.length_eq]
  rw [h.binding_eq, RoleBinding.apply_append_right (by rw [hkeys]; exact hne), houtputs]
  exact apply_single

/-- The output of a link finds the cells with the required values. -/
theorem requires_at_output
    (h : ModuleCompletion file catalog trace spec problem interpreter assignment pre)
    (hrule : rule ∈ file.rules) (hmode : rule.stateMode = .require)
    (hinputs : rule.inputs = [(role, eventType)]) (houtputs : rule.outputs = [(role', eventType')])
    (hne : role' ≠ role) {a b : String}
    (hlinks : rule.Links problem (problem.context interpreter assignment) a b) {state : String}
    {v : Value} {sort : IrSort}
    (hr : ⟨state, role', .eq, .literal v sort⟩ ∈ rule.stateRequirements) :
    ∃ c ≤ spec.horizon, (problem.context interpreter assignment).AtCycle b c ∧
      CellIs pre c state v := by
  have hcell := h.requires hrule hmode hlinks hr
  rwa [anchor_output hinputs houtputs hne] at hcell

/-- The output of a link leaves the cells with the values it sets. -/
theorem sets_at_output
    (h : ModuleCompletion file catalog trace spec problem interpreter assignment pre)
    (hrule : rule ∈ file.rules) (hmode : rule.stateMode = .require)
    (hinputs : rule.inputs = [(role, eventType)]) (houtputs : rule.outputs = [(role', eventType')])
    (hne : role' ≠ role) {a b : String}
    (hlinks : rule.Links problem (problem.context interpreter assignment) a b) {c : Nat}
    (hcycle : (problem.context interpreter assignment).AtCycle b c) {state : String} {v : Value}
    {sort : IrSort} (hu : ⟨state, role', .literal v sort⟩ ∈ rule.stateUpdates) :
    c ≤ spec.horizon ∧ CellIs pre (c + 1) state v := by
  obtain ⟨d, hd, hdcycle, hcell⟩ := h.sets hrule hmode hlinks hu
  rw [anchor_output hinputs houtputs hne] at hdcycle
  cases hdcycle.unique hcycle
  exact ⟨hd, hcell⟩

end Causes

end Boom

end Umcm
