import Umcm.Data.Except
import Umcm.Solver.Evaluator

/-!
# When an expression holds

An expression holds in a context when its evaluation returns `True`, and it
fails when the evaluation returns `False`.

* `holds_conjunction`, `fails_conjunction`, `holds_disjunction`,
  `holds_implies`: how the connectives act on these.
-/

namespace Umcm

open Except

namespace EvaluationContext

variable {context : EvaluationContext}

/-- The evaluation raises nothing. -/
def Returns (context : EvaluationContext) (e : Expr) : Prop := ∃ r, context.evaluate e = .ok r

def Holds (context : EvaluationContext) (e : Expr) : Prop :=
  context.evaluate e = .ok (some (.bool true))

def FailsOn (context : EvaluationContext) (e : Expr) : Prop :=
  context.evaluate e = .ok (some (.bool false))

/-- The evaluation returns one of the two truth values. -/
def Decided (context : EvaluationContext) (e : Expr) : Prop :=
  context.Holds e ∨ context.FailsOn e

instance (e : Expr) : Decidable (context.Holds e) :=
  inferInstanceAs (Decidable (context.evaluate e = .ok (some (.bool true))))

instance (e : Expr) : Decidable (context.FailsOn e) :=
  inferInstanceAs (Decidable (context.evaluate e = .ok (some (.bool false))))

theorem Holds.returns {e : Expr} (h : context.Holds e) : context.Returns e := ⟨_, h⟩

theorem FailsOn.returns {e : Expr} (h : context.FailsOn e) : context.Returns e := ⟨_, h⟩

theorem Holds.not_fails {e : Expr} (h : context.Holds e) : ¬ context.FailsOn e := by
  intro hf
  rw [FailsOn, h] at hf
  cases hf

/-! ## Nodes -/

theorem evaluateAll_eq_ok {es : List Expr} {values : List Result} :
    evaluateAll context.interpreter context.assignment context.eventAttribute es = .ok values ↔
      List.Forall₂ (fun e r => context.evaluate e = .ok r) es values := by
  induction es generalizing values with
  | nil =>
      rw [evaluateAll]
      constructor
      · intro h
        cases h
        exact .nil
      · intro h
        cases h
        rfl
  | cons e es ih =>
      rw [evaluateAll, bind_eq_ok]
      constructor
      · rintro ⟨r, hr, h⟩
        obtain ⟨rs, hrs, h⟩ := bind_eq_ok.mp h
        cases h
        exact .cons hr (ih.mp hrs)
      · rintro (_ | ⟨hr, hrs⟩)
        exact ⟨_, hr, bind_eq_ok.mpr ⟨_, ih.mpr hrs, rfl⟩⟩

theorem evaluate_nary_eq_ok {op : NaryOp} {es : List Expr} {r : Result} :
    context.evaluate (.nary op es) = .ok r ↔
      ∃ values, List.Forall₂ (fun e r => context.evaluate e = .ok r) es values ∧
        r = evaluateNary op values := by
  rw [evaluate, evaluateWith, bind_eq_ok]
  constructor
  · rintro ⟨values, hvalues, h⟩
    cases h
    exact ⟨values, evaluateAll_eq_ok.mp hvalues, rfl⟩
  · rintro ⟨values, hvalues, rfl⟩
    exact ⟨values, evaluateAll_eq_ok.mpr hvalues, rfl⟩

theorem evaluate_binary_eq_ok {op : BinaryOp} {l r : Expr} {v : Result} :
    context.evaluate (.binary op l r) = .ok v ↔
      ∃ left right, context.evaluate l = .ok left ∧ context.evaluate r = .ok right ∧
        evaluateBinary context.interpreter op left right = .ok v := by
  rw [evaluate, evaluateWith, bind_eq_ok]
  simp only [bind_eq_ok]
  constructor
  · rintro ⟨left, hleft, right, hright, h⟩
    exact ⟨left, right, hleft, hright, h⟩
  · rintro ⟨left, right, hleft, hright, h⟩
    exact ⟨left, hleft, right, hright, h⟩

@[simp] theorem evaluate_literal {v : Value} {s : IrSort} :
    context.evaluate (.literal v s) = .ok (some v) := by
  rw [evaluate, evaluateWith]

theorem exists_results {es : List Expr} (h : ∀ e ∈ es, context.Returns e) :
    ∃ values, List.Forall₂ (fun e r => context.evaluate e = .ok r) es values := by
  induction es with
  | nil => exact ⟨[], .nil⟩
  | cons e es ih =>
      obtain ⟨r, hr⟩ := h e List.mem_cons_self
      obtain ⟨values, hvalues⟩ := ih (fun e he => h e (List.mem_cons_of_mem _ he))
      exact ⟨r :: values, .cons hr hvalues⟩

theorem returns_of_results {es : List Expr} {values : List Result}
    (h : List.Forall₂ (fun e r => context.evaluate e = .ok r) es values) :
    ∀ e ∈ es, context.Returns e := by
  induction h with
  | nil => simp
  | cons hr _ ih => exact List.forall_mem_cons.mpr ⟨⟨_, hr⟩, ih⟩

theorem returns_nary {op : NaryOp} {es : List Expr} :
    context.Returns (.nary op es) ↔ ∀ e ∈ es, context.Returns e := by
  simp only [Returns, evaluate_nary_eq_ok]
  constructor
  · rintro ⟨r, values, hvalues, -⟩
    exact returns_of_results hvalues
  · intro h
    obtain ⟨values, hvalues⟩ := exists_results h
    exact ⟨_, values, hvalues, rfl⟩

/-- A truth value among the results is the result of one of the expressions. -/
theorem mem_results_iff {es : List Expr} {values : List Result}
    (h : List.Forall₂ (fun e r => context.evaluate e = .ok r) es values) {r : Result} :
    r ∈ values ↔ ∃ e ∈ es, context.evaluate e = .ok r := by
  induction h with
  | nil => simp
  | cons hr _ ih =>
      rw [List.mem_cons, ih, List.exists_mem_cons_iff, hr, Except.ok.injEq, eq_comm]

theorem any_isTrue_iff {values : List Result} :
    values.any Result.isTrue = true ↔ some (.bool true) ∈ values := by
  simp [Result.isTrue]

theorem any_isFalse_iff {values : List Result} :
    values.any Result.isFalse = true ↔ some (.bool false) ∈ values := by
  simp [Result.isFalse]

theorem all_isTrue_iff {es : List Expr} {values : List Result}
    (h : List.Forall₂ (fun e r => context.evaluate e = .ok r) es values) :
    values.all Result.isTrue = true ↔ ∀ e ∈ es, context.Holds e := by
  induction h with
  | nil => simp
  | cons hr _ ih =>
      rw [List.all_cons, Bool.and_eq_true, ih, List.forall_mem_cons, Holds, hr]
      simp [Result.isTrue]

theorem holds_and {es : List Expr} :
    context.Holds (.nary .and es) ↔ ∀ e ∈ es, context.Holds e := by
  rw [Holds, evaluate_nary_eq_ok]
  constructor
  · rintro ⟨values, hvalues, h⟩
    rw [← all_isTrue_iff hvalues]
    by_contra hall
    simp only [evaluateNary] at h
    split at h
    · simp at h
    · simp at h
  · intro h
    obtain ⟨values, hvalues⟩ := exists_results (fun e he => (h e he).returns)
    refine ⟨values, hvalues, ?_⟩
    have hnone : ¬ values.any Result.isFalse = true := by
      rw [any_isFalse_iff, mem_results_iff hvalues]
      rintro ⟨e, he, hf⟩
      exact (h e he).not_fails hf
    simp only [evaluateNary, if_neg hnone, if_pos ((all_isTrue_iff hvalues).mpr h)]

theorem fails_and {es : List Expr} (hreturns : ∀ e ∈ es, context.Returns e) :
    context.FailsOn (.nary .and es) ↔ ∃ e ∈ es, context.FailsOn e := by
  obtain ⟨values, hvalues⟩ := exists_results hreturns
  have heval : context.evaluate (.nary .and es) = .ok (evaluateNary .and values) :=
    evaluate_nary_eq_ok.mpr ⟨values, hvalues, rfl⟩
  have hmem : values.any Result.isFalse = true ↔ ∃ e ∈ es, context.FailsOn e :=
    any_isFalse_iff.trans (mem_results_iff hvalues)
  rw [← hmem, FailsOn, heval]
  by_cases hany : values.any Result.isFalse = true
  · simp [evaluateNary, hany]
  · simp only [evaluateNary, if_neg hany]
    split <;> simp [hany]

theorem holds_or {es : List Expr} (hreturns : ∀ e ∈ es, context.Returns e) :
    context.Holds (.nary .or es) ↔ ∃ e ∈ es, context.Holds e := by
  obtain ⟨values, hvalues⟩ := exists_results hreturns
  have heval : context.evaluate (.nary .or es) = .ok (evaluateNary .or values) :=
    evaluate_nary_eq_ok.mpr ⟨values, hvalues, rfl⟩
  have hmem : values.any Result.isTrue = true ↔ ∃ e ∈ es, context.Holds e :=
    any_isTrue_iff.trans (mem_results_iff hvalues)
  rw [← hmem, Holds, heval]
  by_cases hany : values.any Result.isTrue = true
  · simp [evaluateNary, hany]
  · simp only [evaluateNary, if_neg hany]
    split <;> simp [hany]

/-! ## Connectives -/

theorem returns_conjunction {es : List Expr} :
    context.Returns (Expr.conjunction es) ↔ ∀ e ∈ es, context.Returns e := by
  rcases es with _ | ⟨e, _ | ⟨e', es⟩⟩
  · simp [Expr.conjunction, Returns]
  · simp [Expr.conjunction]
  · rw [Expr.conjunction_pair, returns_nary]

theorem returns_disjunction {es : List Expr} :
    context.Returns (Expr.disjunction es) ↔ ∀ e ∈ es, context.Returns e := by
  rcases es with _ | ⟨e, _ | ⟨e', es⟩⟩
  · simp [Expr.disjunction, Returns]
  · simp [Expr.disjunction]
  · rw [Expr.disjunction_pair, returns_nary]

theorem holds_conjunction {es : List Expr} :
    context.Holds (Expr.conjunction es) ↔ ∀ e ∈ es, context.Holds e := by
  rcases es with _ | ⟨e, _ | ⟨e', es⟩⟩
  · simp [Expr.conjunction, Holds]
  · simp [Expr.conjunction]
  · rw [Expr.conjunction_pair, holds_and]

theorem fails_conjunction {es : List Expr} (h : ∀ e ∈ es, context.Returns e) :
    context.FailsOn (Expr.conjunction es) ↔ ∃ e ∈ es, context.FailsOn e := by
  rcases es with _ | ⟨e, _ | ⟨e', es⟩⟩
  · simp [Expr.conjunction, FailsOn]
  · simp [Expr.conjunction]
  · rw [Expr.conjunction_pair, fails_and h]

theorem holds_disjunction {es : List Expr} (h : ∀ e ∈ es, context.Returns e) :
    context.Holds (Expr.disjunction es) ↔ ∃ e ∈ es, context.Holds e := by
  rcases es with _ | ⟨e, _ | ⟨e', es⟩⟩
  · simp [Expr.disjunction, Holds]
  · simp [Expr.disjunction]
  · rw [Expr.disjunction_pair, holds_or h]

/-- A disjunction holds when all its parts can be evaluated and one of them holds. -/
theorem holds_disjunction_iff {es : List Expr} :
    context.Holds (Expr.disjunction es) ↔
      (∀ e ∈ es, context.Returns e) ∧ ∃ e ∈ es, context.Holds e := by
  constructor
  · intro h
    have hreturns := returns_disjunction.mp h.returns
    exact ⟨hreturns, (holds_disjunction hreturns).mp h⟩
  · rintro ⟨hreturns, h⟩
    exact (holds_disjunction hreturns).mpr h

theorem returns_implies {l r : Expr} :
    context.Returns (.binary .implies l r) ↔ context.Returns l ∧ context.Returns r := by
  constructor
  · rintro ⟨v, h⟩
    obtain ⟨left, right, hleft, hright, -⟩ := evaluate_binary_eq_ok.mp h
    exact ⟨⟨left, hleft⟩, ⟨right, hright⟩⟩
  · rintro ⟨⟨left, hleft⟩, ⟨right, hright⟩⟩
    exact ⟨_, evaluate_binary_eq_ok.mpr ⟨left, right, hleft, hright, rfl⟩⟩

theorem holds_implies {l r : Expr} (hl : context.Returns l) (hr : context.Returns r) :
    context.Holds (.binary .implies l r) ↔ context.FailsOn l ∨ context.Holds r := by
  obtain ⟨left, hleft⟩ := hl
  obtain ⟨right, hright⟩ := hr
  have heval : context.evaluate (.binary .implies l r) =
      evaluateBinary context.interpreter .implies left right := by
    rw [evaluate, evaluateWith]
    change context.evaluate l >>= _ = _
    rw [hleft, ok_bind]
    change context.evaluate r >>= _ = _
    rw [hright, ok_bind]
  have hiff : (left.isFalse || right.isTrue) = true ↔
      context.FailsOn l ∨ context.Holds r := by
    simp [FailsOn, Holds, hleft, hright, Result.isTrue, Result.isFalse]
  rw [← hiff, Holds, heval]
  by_cases h : (left.isFalse || right.isTrue) = true
  · simp [evaluateBinary, h]
  · simp only [evaluateBinary, if_neg h]
    split <;> simp [h]

/-! ## Comparisons -/

theorem holds_eq {l r : Expr} : context.Holds (.binary .eq l r) ↔ ∃ v w,
    context.evaluate l = .ok (some v) ∧ context.evaluate r = .ok (some w) ∧ v.key = w.key := by
  rw [Holds, evaluate_binary_eq_ok]
  constructor
  · rintro ⟨left, right, hl, hr, h⟩
    rcases left with _ | v
    · cases h
    rcases right with _ | w
    · cases h
    refine ⟨v, w, hl, hr, ?_⟩
    simpa [evaluateBinary, applyBinary, Functor.map, Except.map] using h
  · rintro ⟨v, w, hl, hr, h⟩
    refine ⟨_, _, hl, hr, ?_⟩
    simpa [evaluateBinary, applyBinary, Functor.map, Except.map] using h

theorem holds_ne {l r : Expr} : context.Holds (.binary .ne l r) ↔ ∃ v w,
    context.evaluate l = .ok (some v) ∧ context.evaluate r = .ok (some w) ∧ v.key ≠ w.key := by
  rw [Holds, evaluate_binary_eq_ok]
  constructor
  · rintro ⟨left, right, hl, hr, h⟩
    rcases left with _ | v
    · cases h
    rcases right with _ | w
    · cases h
    refine ⟨v, w, hl, hr, ?_⟩
    simpa [evaluateBinary, applyBinary, Functor.map, Except.map, Value.pyEq] using h
  · rintro ⟨v, w, hl, hr, h⟩
    refine ⟨_, _, hl, hr, ?_⟩
    simpa [evaluateBinary, applyBinary, Functor.map, Except.map, Value.pyEq] using h

theorem returns_eq {l r : Expr} :
    context.Returns (.binary .eq l r) ↔ context.Returns l ∧ context.Returns r := by
  constructor
  · rintro ⟨v, h⟩
    obtain ⟨left, right, hl, hr, -⟩ := evaluate_binary_eq_ok.mp h
    exact ⟨⟨left, hl⟩, ⟨right, hr⟩⟩
  · rintro ⟨⟨left, hl⟩, ⟨right, hr⟩⟩
    refine ⟨if left.isSome ∧ right.isSome then
      some (.bool ((left.getD .none).pyEq (right.getD .none))) else none, ?_⟩
    rw [evaluate_binary_eq_ok]
    refine ⟨left, right, hl, hr, ?_⟩
    rcases left with _ | v <;> rcases right with _ | w <;> rfl

/-- A comparison with a literal. -/
theorem holds_eq_literal {e : Expr} {v : Value} {s : IrSort} :
    context.Holds (.binary .eq e (.literal v s)) ↔
      ∃ w, context.evaluate e = .ok (some w) ∧ w.key = v.key := by
  rw [holds_eq]
  constructor
  · rintro ⟨w, v', hw, hv, h⟩
    rw [evaluate_literal] at hv
    cases hv
    exact ⟨w, hw, h⟩
  · rintro ⟨w, hw, h⟩
    exact ⟨w, v, hw, evaluate_literal, h⟩

theorem returns_literal {v : Value} {s : IrSort} : context.Returns (.literal v s) :=
  ⟨_, evaluate_literal⟩

end EvaluationContext

end Umcm
