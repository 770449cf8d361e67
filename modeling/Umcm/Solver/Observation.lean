import Umcm.Solver.Instances
import Umcm.Solver.StateRun

/-!
# What a completion shows of its events

The attributes of the events in a context: whether an event occurs, its cycle
and its fields, and what an expression over the roles of a rule says about the
events that the roles are bound to.
-/

namespace Umcm

open Except

namespace EvaluationContext

variable {context : EvaluationContext}

/-- The attribute of the event has the value. -/
def Reads (context : EvaluationContext) (id field : String) (v : Value) : Prop :=
  context.eventAttribute id field = .ok (some v)

/-- The event occurs. -/
def Happens (context : EvaluationContext) (id : String) : Prop :=
  context.Reads id "occurs" (.bool true)

/-- The event has the cycle. -/
def AtCycle (context : EvaluationContext) (id : String) (c : Nat) : Prop :=
  context.Reads id "cycle" (.int c)

/-- The field of the event equals the value, in the sense of `==`. -/
def Carries (context : EvaluationContext) (id field : String) (v : Value) : Prop :=
  ∃ w, context.Reads id field w ∧ w.key = v.key

/-- The fields of the two events are equal. -/
def Agree (context : EvaluationContext) (id id' field field' : String) : Prop :=
  ∃ v w, context.Reads id field v ∧ context.Reads id' field' w ∧ v.key = w.key

/-- The cycle of the first event is less than that of the second. -/
def Precedes (context : EvaluationContext) (id id' : String) : Prop :=
  ∃ v w, context.Reads id "cycle" v ∧ context.Reads id' "cycle" w ∧ v.pyLt w = .ok true

@[simp] theorem evaluate_eventField {id field : String} {s : IrSort} :
    context.evaluate (.eventField id field s) = context.eventAttribute id field := by
  rw [evaluate, evaluateWith]

theorem Reads.unique {id field : String} {v w : Value} (h : context.Reads id field v)
    (h' : context.Reads id field w) : v = w := by
  rw [Reads, h] at h'
  cases h'
  rfl

theorem AtCycle.unique {id : String} {c d : Nat} (h : context.AtCycle id c)
    (h' : context.AtCycle id d) : c = d := by
  have heq := Reads.unique h h'
  simpa using heq

theorem Carries.unique {id field : String} {v w : Value} (h : context.Carries id field v)
    (h' : context.Carries id field w) : v.key = w.key := by
  obtain ⟨x, hx, hv⟩ := h
  obtain ⟨y, hy, hw⟩ := h'
  rw [← hv, hx.unique hy, hw]

theorem Carries.congr {id field : String} {v w : Value} (h : context.Carries id field v)
    (hkey : v.key = w.key) : context.Carries id field w := by
  obtain ⟨x, hx, hv⟩ := h
  exact ⟨x, hx, hv.trans hkey⟩

theorem Agree.carries_left {id id' field field' : String} {v : Value}
    (h : context.Agree id id' field field') (hv : context.Carries id' field' v) :
    context.Carries id field v := by
  obtain ⟨x, y, hx, hy, hkey⟩ := h
  obtain ⟨z, hz, hzv⟩ := hv
  exact ⟨x, hx, by rw [hkey, hy.unique hz, hzv]⟩

theorem Agree.carries_right {id id' field field' : String} {v : Value}
    (h : context.Agree id id' field field') (hv : context.Carries id field v) :
    context.Carries id' field' v := by
  obtain ⟨x, y, hx, hy, hkey⟩ := h
  obtain ⟨z, hz, hzv⟩ := hv
  exact ⟨y, hy, by rw [← hkey, hx.unique hz, hzv]⟩

theorem Precedes.lt {id id' : String} {c d : Nat} (h : context.Precedes id id')
    (hc : context.AtCycle id c) (hd : context.AtCycle id' d) : c < d := by
  obtain ⟨v, w, hv, hw, hlt⟩ := h
  cases hv.unique hc
  cases hw.unique hd
  simpa [Value.pyLt, Value.key] using hlt

/-! ## Expressions over fields -/

theorem holds_eventField {id field : String} {s : IrSort} :
    context.Holds (.eventField id field s) ↔ context.Reads id field (.bool true) := by
  rw [Holds, evaluate_eventField, Reads]

theorem holds_occurs {id : String} {s : IrSort} :
    context.Holds (.eventField id "occurs" s) ↔ context.Happens id :=
  holds_eventField

theorem holds_eq_value {id field : String} {s s' : IrSort} {v : Value} :
    context.Holds (.binary .eq (.eventField id field s) (.literal v s')) ↔
      context.Carries id field v := by
  rw [holds_eq_literal, evaluate_eventField]
  rfl

theorem holds_eq_fields {id id' field field' : String} {s s' : IrSort} :
    context.Holds (.binary .eq (.eventField id field s) (.eventField id' field' s')) ↔
      context.Agree id id' field field' := by
  rw [holds_eq, evaluate_eventField, evaluate_eventField]
  rfl

theorem holds_eq_literals {v w : Value} {s s' : IrSort} :
    context.Holds (.binary .eq (.literal v s) (.literal w s')) ↔ v.key = w.key := by
  rw [holds_eq, evaluate_literal, evaluate_literal]
  constructor
  · rintro ⟨v', w', hv, hw, h⟩
    cases hv
    cases hw
    exact h
  · intro h
    exact ⟨v, w, rfl, rfl, h⟩

theorem holds_lt {l r : Expr} : context.Holds (.binary .lt l r) ↔ ∃ v w,
    context.evaluate l = .ok (some v) ∧ context.evaluate r = .ok (some w) ∧
      v.pyLt w = .ok true := by
  rw [Holds, evaluate_binary_eq_ok]
  constructor
  · rintro ⟨left, right, hl, hr, h⟩
    rcases left with _ | v
    · cases h
    rcases right with _ | w
    · cases h
    refine ⟨v, w, hl, hr, ?_⟩
    cases hlt : v.pyLt w with
    | error e => simp [evaluateBinary, applyBinary, hlt, Functor.map, Except.map] at h
    | ok b => simpa [evaluateBinary, applyBinary, hlt, Functor.map, Except.map] using h
  · rintro ⟨v, w, hl, hr, h⟩
    refine ⟨_, _, hl, hr, ?_⟩
    simp [evaluateBinary, applyBinary, h, Functor.map, Except.map]

theorem holds_lt_cycles {id id' : String} {s s' : IrSort} :
    context.Holds (.binary .lt (.eventField id "cycle" s) (.eventField id' "cycle" s')) ↔
      context.Precedes id id' := by
  rw [holds_lt, evaluate_eventField, evaluate_eventField]
  rfl

theorem holds_not {e : Expr} : context.Holds (.unary .not e) ↔
    ∃ v, context.evaluate e = .ok (some v) ∧ v.truthy = false := by
  rw [Holds]
  conv => lhs; rw [evaluate, evaluateWith]
  change (context.evaluate e >>= _) = _ ↔ _
  rw [bind_eq_ok]
  constructor
  · rintro ⟨r, hr, h⟩
    rcases r with _ | v
    · cases h
    exact ⟨v, hr, by simpa [applyUnary, Functor.map, Except.map] using h⟩
  · rintro ⟨v, hv, h⟩
    exact ⟨some v, hv, by simp [applyUnary, Functor.map, Except.map, h]⟩

theorem holds_true {s : IrSort} : context.Holds (.literal (.bool true) s) := evaluate_literal

theorem holds_bool_literal {b : Bool} {s : IrSort} :
    context.Holds (.literal (.bool b) s) ↔ b = true := by
  rw [Holds, evaluate_literal]
  simp

end EvaluationContext

/-! ## Bound roles -/

namespace RoleBinding

@[simp] theorem instantiate_literal {b : RoleBinding} {v : Value} {s : IrSort} :
    b.instantiate (.literal v s) = .literal v s := by
  rw [instantiate, Expr.substituteEventIds]

@[simp] theorem instantiate_eventField {b : RoleBinding} {role field : String} {s : IrSort} :
    b.instantiate (.eventField role field s) = .eventField (b.apply role) field s := by
  rw [instantiate, Expr.substituteEventIds]

@[simp] theorem instantiate_unary {b : RoleBinding} {op : UnaryOp} {e : Expr} :
    b.instantiate (.unary op e) = .unary op (b.instantiate e) := by
  rw [instantiate, Expr.substituteEventIds]
  rfl

@[simp] theorem instantiate_binary {b : RoleBinding} {op : BinaryOp} {l r : Expr} :
    b.instantiate (.binary op l r) = .binary op (b.instantiate l) (b.instantiate r) := by
  rw [instantiate, Expr.substituteEventIds]
  rfl

theorem substituteEventIdsAll_eq_map {mapping : String → String} {es : List Expr} :
    Expr.substituteEventIdsAll mapping es = es.map (Expr.substituteEventIds mapping) := by
  induction es with
  | nil => rw [Expr.substituteEventIdsAll, List.map_nil]
  | cons e es ih => rw [Expr.substituteEventIdsAll, ih, List.map_cons]

@[simp] theorem instantiate_nary {b : RoleBinding} {op : NaryOp} {es : List Expr} :
    b.instantiate (.nary op es) = .nary op (es.map b.instantiate) := by
  rw [instantiate, Expr.substituteEventIds, substituteEventIdsAll_eq_map]
  rfl

theorem apply_cons {b : RoleBinding} {name id role : String} :
    RoleBinding.apply ((name, id) :: b) role = if role = name then id else b.apply role := by
  rw [apply, Dict.lookup]
  split_ifs <;> simp_all [apply]

end RoleBinding

mutual

/-- An expression depends on the events of its fields only. -/
theorem Expr.substituteEventIds_congr {f g : String → String} (e : Expr)
    (h : ∀ ref ∈ e.eventFields, f ref.1 = g ref.1) :
    e.substituteEventIds f = e.substituteEventIds g := by
  cases e with
  | literal v s => rw [substituteEventIds, substituteEventIds]
  | symbol name s => rw [substituteEventIds, substituteEventIds]
  | eventField id field s =>
      rw [substituteEventIds, substituteEventIds, h (id, field, s) (by simp [eventFields])]
  | unary op e =>
      rw [eventFields] at h
      rw [substituteEventIds, substituteEventIds, substituteEventIds_congr e h]
  | binary op l r =>
      rw [eventFields] at h
      rw [substituteEventIds, substituteEventIds,
        substituteEventIds_congr l (fun ref href => h ref (List.mem_append_left _ href)),
        substituteEventIds_congr r (fun ref href => h ref (List.mem_append_right _ href))]
  | nary op es =>
      rw [eventFields] at h
      rw [substituteEventIds, substituteEventIds, substituteEventIdsAll_congr es h]
  | ite c t e =>
      rw [eventFields] at h
      simp only [List.forall_mem_append] at h
      rw [substituteEventIds, substituteEventIds, substituteEventIds_congr c h.1.1,
        substituteEventIds_congr t h.1.2, substituteEventIds_congr e h.2]
  | call function es s =>
      rw [eventFields] at h
      rw [substituteEventIds, substituteEventIds, substituteEventIdsAll_congr es h]

theorem Expr.substituteEventIdsAll_congr {f g : String → String} (es : List Expr)
    (h : ∀ ref ∈ Expr.eventFieldsAll es, f ref.1 = g ref.1) :
    Expr.substituteEventIdsAll f es = Expr.substituteEventIdsAll g es := by
  cases es with
  | nil => rw [substituteEventIdsAll, substituteEventIdsAll]
  | cons e es =>
      rw [eventFieldsAll] at h
      rw [substituteEventIdsAll, substituteEventIdsAll,
        substituteEventIds_congr e (fun ref href => h ref (List.mem_append_left _ href)),
        substituteEventIdsAll_congr es (fun ref href => h ref (List.mem_append_right _ href))]

end

end Umcm
