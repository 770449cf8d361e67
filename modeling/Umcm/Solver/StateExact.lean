import Umcm.Solver.StateEncoding

/-!
# What the assertions about the cells say

For an interpretation that stands for the assignment and for the values of the
cells, every assertion of the encoding holds exactly when the effect or the rule
it was written for is met.

* `requirementCommands_iff`, `forwardCommand_iff`, `supportCommand_iff`,
  `transitionCommands_iff`: effect by effect.
-/

namespace Except

/-- A property of the elements is one of their results. -/
theorem forall_mapM_iff {ε α β : Type*} {f : α → Except ε β} {l : List α} {r : List β}
    (h : l.mapM f = .ok r) {p : α → Prop} {q : β → Prop}
    (hpq : ∀ a ∈ l, ∀ b, f a = .ok b → (p a ↔ q b)) : (∀ a ∈ l, p a) ↔ ∀ b ∈ r, q b := by
  constructor
  · intro hall b hb
    obtain ⟨a, ha, hf⟩ := mapM_origin h hb
    exact (hpq a ha b hf).mp (hall a ha)
  · intro hall a ha
    obtain ⟨b, hb, hf⟩ := mapM_result h ha
    exact (hpq a ha b hf).mpr (hall b hb)

end Except

namespace Umcm

open Except StateRun

/-! ## Constants of the cells -/

namespace Codec

theorem colon_not_mem_digits (n : Nat) : ':' ∉ Nat.toDigits 10 n := by
  intro h
  obtain ⟨d, -, hd⟩ := digitOf_of_readDigits (readDigits_toDigits (by decide) (by decide) n) _ h
  revert hd
  simp [show digitOf ':' = none by decide]

/-- The last separator divides a text in one way. -/
theorem append_separator_inj {x x' y y' : List Char} {c : Char} (hy : c ∉ y) (hy' : c ∉ y')
    (h : x ++ c :: y = x' ++ c :: y') : x = x' ∧ y = y' := by
  rcases List.append_eq_append_iff.mp h with ⟨z, rfl, hz⟩ | ⟨z, rfl, hz⟩
  · rcases z with _ | ⟨d, z⟩
    · exact ⟨by simp, by simpa using hz⟩
    · rw [List.cons_append, List.cons.injEq] at hz
      exact absurd (hz.2 ▸ List.mem_append_right z List.mem_cons_self) hy
  · rcases z with _ | ⟨d, z⟩
    · exact ⟨by simp, by simpa using hz.symm⟩
    · rw [List.cons_append, List.cons.injEq] at hz
      exact absurd (hz.2 ▸ List.mem_append_right z List.mem_cons_self) hy'

theorem toList_stateSymbol (name : String) (c : Nat) : (stateSymbol name c).toList =
    ("__state__::".toList ++ name.toList ++ "::pre:".toList) ++ ':' :: Nat.toDigits 10 c := by
  show ("__state__::" ++ name ++ "::pre::" ++ toString c).toList = _
  rw [Nat.toString_eq_ofList_toDigits]
  simp

/-- Different cells and cycles have different constants. -/
theorem stateSymbol_inj {name name' : String} {c c' : Nat} :
    stateSymbol name c = stateSymbol name' c' ↔ name = name' ∧ c = c' := by
  constructor
  · intro h
    have hlists := congrArg String.toList h
    rw [toList_stateSymbol, toList_stateSymbol] at hlists
    obtain ⟨hname, hdigits⟩ :=
      append_separator_inj (colon_not_mem_digits c) (colon_not_mem_digits c') hlists
    rw [List.append_cancel_right_eq, List.append_cancel_left_eq] at hname
    exact ⟨String.toList_inj.mp hname, toDigits_injective hdigits⟩
  · rintro ⟨rfl, rfl⟩
    rfl

end Codec

/-! ## What can be written -/

/-- The comparison as an operator of expressions. -/
def CompareOp.binary : CompareOp → BinaryOp
  | eq => .eq
  | ne => .ne
  | lt => .lt
  | le => .le
  | gt => .gt
  | ge => .ge

/-- Equality is defined on every sort, order on the integers. -/
def CompareOp.encodable (op : CompareOp) (s : IrSort) : Bool :=
  match op with
  | eq | ne => true
  | lt | le | gt | ge => s.isInt

section Written

variable (codec : Codec) (events : Dict String EventInstance) (cells : List StateVariable)

/-- The expression is in the fragment, its symbols are variables and its references read
values of their sorts. -/
structure Codec.Writes (e : Expr) : Prop where
  encodable : e.encodable = true
  symbols : ∀ p ∈ e.symbols, ∃ v ∈ codec.vars, v.name = p.1 ∧ v.sort = p.2
  references : ∀ r ∈ e.eventFields, ∀ event, events.get? r.1 = some event →
    event.AttributeSorted r.2.1 r.2.2

def Codec.WritesTruth (e : Expr) : Prop := codec.Writes events e ∧ e.sort.isBool = true

def Codec.WritesCycle (e : Expr) : Prop := codec.Writes events e ∧ e.sort.isInt = true

/-- A comparison of a cell with an expression of its sort. -/
structure Codec.WritesComparison (name : String) (op : CompareOp) (e : Expr) : Prop where
  written : codec.Writes events e
  cell : ∃ cell ∈ cells, cell.name = name ∧ cell.sort = e.sort
  operator : op.encodable e.sort = true

structure Codec.WritesGuard (guard : GuardPredicateInstance) : Prop where
  cycle : codec.WritesCycle events guard.cycle
  comparison : codec.WritesComparison events cells guard.state guard.op guard.expected

structure Codec.WritesEffect (activation cycle : Expr) (name : String) (op : CompareOp)
    (value : Expr) : Prop where
  activation : codec.WritesTruth events activation
  cycle : codec.WritesCycle events cycle
  comparison : codec.WritesComparison events cells name op value

end Written

/-- The cells, the effects and the guarded rules can be written. -/
structure Codec.WritesState (codec : Codec) (problem : BoundedProblem) : Prop where
  initial : ∀ cell ∈ problem.spec.stateVariables, ∀ e, cell.initial = .expr e →
    codec.Writes problem.eventMap e
  requirement : ∀ r ∈ problem.stateRequirements,
    codec.WritesEffect problem.eventMap problem.spec.stateVariables r.activation r.cycle r.state
      r.op r.expected
  update : ∀ u ∈ problem.stateUpdates,
    codec.WritesEffect problem.eventMap problem.spec.stateVariables u.activation u.cycle u.state
      .eq u.value
  forward : ∀ item ∈ problem.guardedForwards,
    codec.WritesTruth problem.eventMap item.antecedent ∧
      codec.WritesTruth problem.eventMap item.consequent ∧
      ∀ guard ∈ item.predicates,
        codec.WritesGuard problem.eventMap problem.spec.stateVariables guard
  support : ∀ item ∈ problem.guardedSupports,
    codec.WritesTruth problem.eventMap item.antecedent ∧ ∀ candidate ∈ item.supports,
      codec.WritesTruth problem.eventMap candidate.expression ∧
      ∀ guard ∈ candidate.predicates,
        codec.WritesGuard problem.eventMap problem.spec.stateVariables guard

/-! ## Terms of the effects -/

/-- The interpretation stands for the assignment, and the symbolic attributes of the events
can be written. -/
structure Codec.Interprets (codec : Codec) (context : EvaluationContext)
    (I : Smt.Interpretation) : Prop where
  symbols : ∀ v ∈ codec.vars, ∃ x, context.assignment.get? v.name = some x ∧
    codec.Agrees I v.sort x (.const v.name)
  attributes : ∀ id event field e, context.events.get? id = some event →
    event.attribute? field = some (.expr e) → codec.Writes context.events e

/-- The anchor is in a cycle within the horizon. -/
def EvaluationContext.Anchored (context : EvaluationContext) (horizon : Nat) (cycle : Expr) :
    Prop := ∃ c ≤ horizon, context.evaluate cycle = .ok (some (.int (c : Nat)))

/-- The constants of the cells stand for these values. -/
def Codec.StandsFor (codec : Codec) (I : Smt.Interpretation) (cells : List StateVariable)
    (horizon : Nat) (pre : CellStates) : Prop :=
  ∀ cell ∈ cells, ∀ c ≤ horizon + 1, ∃ v, pre c cell.name = some v ∧
    codec.Agrees I cell.sort v (Codec.cellTerm cell.name c)

theorem CompareOp.evaluateBinary_binary {interpreter : Interpreter} (op : CompareOp)
    (v w : Value) : evaluateBinary interpreter op.binary (some v) (some w) =
      (fun r => some (.bool r)) <$> op.compare v w := by
  have hmap : ∀ x : Except PyError Bool,
      some <$> (Value.bool <$> x) = (fun r => some (Value.bool r)) <$> x := by
    intro x
    cases x <;> rfl
  cases op with
  | eq | ne => rfl
  | lt | le | gt | ge => exact hmap _

namespace Codec

variable {codec : Codec} {context : EvaluationContext} {I : Smt.Interpretation}

theorem Writes.covers {e : Expr} (hinterprets : codec.Interprets context I)
    (h : codec.Writes context.events e) : codec.Covers context I e := by
  refine ⟨h.encodable, fun p hp => ?_, h.references⟩
  obtain ⟨v, hv, hname, hsort⟩ := h.symbols p hp
  rw [← hname, ← hsort]
  exact hinterprets.symbols v hv

namespace Interprets

theorem coversAttributes (h : codec.Interprets context I) : codec.CoversAttributes context I :=
  fun id event field e hget he => (h.attributes id event field e hget he).covers h

theorem value (h : codec.Interprets context I) {e : Expr} {t : Smt.Term}
    (he : codec.Writes context.events e)
    (ht : codec.term context.interpreter context.events e = .ok t) :
    ∃ v, context.evaluate e = .ok (some v) ∧ codec.Agrees I e.sort v t :=
  exact_term h.coversAttributes (he.covers h) ht

theorem truth (h : codec.Interprets context I) {e : Expr} {t : Smt.Term}
    (he : codec.WritesTruth context.events e)
    (ht : codec.term context.interpreter context.events e = .ok t) :
    t.IsFormula I ∧ (t.Holds I ↔ context.Holds e) :=
  holds_term_iff h.coversAttributes (he.1.covers h) he.2 ht

/-- A truth value that is not true is known. -/
theorem idle_iff (h : codec.Interprets context I) {e : Expr} {t : Smt.Term}
    (he : codec.WritesTruth context.events e)
    (ht : codec.term context.interpreter context.events e = .ok t) :
    context.Idle e ↔ ¬ context.Holds e := by
  constructor
  · intro hidle hholds
    exact hholds.not_idle hidle
  · intro hne
    obtain ⟨v, hv, -⟩ := h.value he.1 ht
    refine ⟨v, hv, ?_⟩
    rintro rfl
    exact hne hv

theorem inCycle (h : codec.Interprets context I) {e : Expr} {t : Smt.Term}
    (he : codec.WritesCycle context.events e)
    (ht : codec.term context.interpreter context.events e = .ok t) (c : Nat) :
    (inCycle t c).IsFormula I ∧
      ((Codec.inCycle t c).Holds I ↔ context.evaluate e = .ok (some (.int c))) := by
  obtain ⟨v, hv, hagrees⟩ := h.value he.1 ht
  obtain ⟨n, rfl, hn⟩ := (agrees_int_iff he.2).mp hagrees
  have hnumeral : (Smt.Term.numeral c).eval I = some (.int c) := rfl
  refine ⟨⟨_, Smt.Term.eval_eq hn hnumeral rfl⟩, ?_⟩
  rw [Codec.inCycle, Smt.Term.Holds.eq hn hnumeral rfl, hv]
  simp [eq_comm]

end Interprets

/-- A comparison of values of one sort. -/
theorem compare_agrees {op : CompareOp} {s : IrSort} (hop : op.encodable s = true) {v w : Value}
    {a b : Smt.Term} (ha : codec.Agrees I s v a) (hb : codec.Agrees I s w b) :
    ∃ r, op.compare v w = .ok r ∧ (compareTerm op a b).eval I = some (.bool r) := by
  have hone : (∃ u, evaluateBinary .integers op.binary (some v) (some w) = .ok (some u) ∧
      codec.Agrees I .bool u (.app op.binary.smt [a, b])) →
      ∃ r, op.compare v w = .ok r ∧ (Smt.Term.app op.binary.smt [a, b]).eval I = some (.bool r) := by
    rintro ⟨u, hu, hagrees⟩
    rw [CompareOp.evaluateBinary_binary] at hu
    cases hr : op.compare v w with
    | error e =>
        rw [hr] at hu
        cases hu
    | ok r =>
        rw [hr] at hu
        cases hu
        obtain ⟨_, heq, heval⟩ := (agrees_bool_iff rfl).mp hagrees
        cases heq
        exact ⟨r, rfl, heval⟩
  cases op with
  | eq => exact hone (agrees_equality (.inl rfl) ha hb)
  | ne => exact hone (agrees_equality (.inr rfl) ha hb)
  | lt => exact hone (agrees_ordering (.inl rfl) hop hop ha hb)
  | le => exact hone (agrees_ordering (.inr (.inl rfl)) hop hop ha hb)
  | gt => exact hone (agrees_ordering (.inr (.inr (.inl rfl))) hop hop ha hb)
  | ge => exact hone (agrees_ordering (.inr (.inr (.inr rfl))) hop hop ha hb)

/-! ## Groups of terms -/

theorem naryTerm_or {ts : List Smt.Term} (h : ∀ t ∈ ts, t.IsFormula I) :
    (naryTerm .or ts).IsFormula I ∧ ((naryTerm .or ts).Holds I ↔ ∃ t ∈ ts, t.Holds I) := by
  rcases ts with _ | ⟨t, ts⟩
  · exact ⟨⟨false, rfl⟩, by simp [naryTerm, Smt.Term.Holds, Smt.Term.eval]⟩
  · obtain ⟨b, hb, -⟩ := Smt.Term.eval_or h
    refine ⟨⟨b, hb⟩, Smt.Term.Holds.or.trans ⟨fun hor => hor.2, fun hsome => ⟨h, hsome⟩⟩⟩

theorem naryTerm_and {ts : List Smt.Term} (h : ∀ t ∈ ts, t.IsFormula I) :
    (naryTerm .and ts).IsFormula I ∧ ((naryTerm .and ts).Holds I ↔ ∀ t ∈ ts, t.Holds I) := by
  rcases ts with _ | ⟨t, ts⟩
  · exact ⟨⟨true, rfl⟩, by simp [naryTerm, Smt.Term.Holds, Smt.Term.eval]⟩
  · obtain ⟨b, hb, -⟩ := Smt.Term.eval_and h
    refine ⟨⟨b, hb⟩, Smt.Term.Holds.and.trans ⟨fun hand => hand.2, fun hall => ⟨by simp, hall⟩⟩⟩

theorem groupTerm_or {ts : List Smt.Term} (h : ∀ t ∈ ts, t.IsFormula I) :
    (groupTerm .or ts).IsFormula I ∧ ((groupTerm .or ts).Holds I ↔ ∃ t ∈ ts, t.Holds I) := by
  unfold groupTerm
  split
  · rename_i t
    exact ⟨h t (by simp), by simp⟩
  · exact naryTerm_or h

theorem groupTerm_and {ts : List Smt.Term} (h : ∀ t ∈ ts, t.IsFormula I) :
    (groupTerm .and ts).IsFormula I ∧ ((groupTerm .and ts).Holds I ↔ ∀ t ∈ ts, t.Holds I) := by
  unfold groupTerm
  split
  · rename_i t
    exact ⟨h t (by simp), by simp⟩
  · exact naryTerm_and h

theorem isFormula_and {t u : Smt.Term} (ht : t.IsFormula I) (hu : u.IsFormula I) :
    (Smt.Term.app .and [t, u]).IsFormula I ∧
      ((Smt.Term.app .and [t, u]).Holds I ↔ t.Holds I ∧ u.Holds I) := by
  have hboth : ∀ x ∈ [t, u], x.IsFormula I := by simp [ht, hu]
  obtain ⟨b, hb, -⟩ := Smt.Term.eval_and hboth
  exact ⟨⟨b, hb⟩, by rw [Smt.Term.Holds.and]; simp⟩

/-! ## Effects -/

section Effects

variable {cells : List StateVariable} {horizon : Nat} {pre : CellStates}

theorem mem_cycles {c : Nat} : c ∈ cycles horizon ↔ c ≤ horizon := by
  rw [cycles, List.mem_range, Nat.lt_succ_iff]

/-- The comparison of a cell before a cycle. -/
theorem StandsFor.compare (hstands : codec.StandsFor I cells horizon pre)
    (hinterprets : codec.Interprets context I) {name : String} {op : CompareOp} {e : Expr}
    {t : Smt.Term} (he : codec.WritesComparison context.events cells name op e)
    (ht : codec.term context.interpreter context.events e = .ok t) {c : Nat} (hc : c ≤ horizon) :
    ∃ v actual r, context.evaluate e = .ok (some v) ∧ pre c name = some actual ∧
      op.compare actual v = .ok r ∧
      (compareTerm op (cellTerm name c) t).eval I = some (.bool r) := by
  obtain ⟨hwritten, ⟨cell, hcell, rfl, hsort⟩, hop⟩ := he
  obtain ⟨v, hv, hvt⟩ := hinterprets.value hwritten ht
  obtain ⟨actual, hactual, hat⟩ := hstands cell hcell c (Nat.le_succ_of_le hc)
  rw [hsort] at hat
  obtain ⟨r, hr, heval⟩ := compare_agrees hop hat hvt
  exact ⟨v, actual, r, hv, hactual, hr, heval⟩

/-- Guards that return true do not return false. -/
theorem guardsReturn_not_both {guards : List GuardPredicateInstance}
    (htrue : GuardsReturn context horizon pre guards true)
    (hfalse : GuardsReturn context horizon pre guards false) : False := by
  obtain ⟨guard, hguard, hcompared⟩ := guardsReturn_false hfalse
  exact (guardsReturn_true htrue guard hguard).not_both hcompared

variable (hstands : codec.StandsFor I cells horizon pre)
  (hinterprets : codec.Interprets context I)

include hstands hinterprets

/-- The term of a guard holds when the guard does; the guard is known in a cycle within the
horizon. -/
theorem guardTerm_iff {guard : GuardPredicateInstance} {t : Smt.Term}
    (hguard : codec.WritesGuard context.events cells guard)
    (ht : codec.guardTerm context.interpreter context.events horizon guard = .ok t) :
    t.IsFormula I ∧ (t.Holds I ↔ Compared context horizon pre guard true) ∧
      (context.Anchored horizon guard.cycle →
        ∃ r, Compared context horizon pre guard r) := by
  obtain ⟨cycle, hcycle, ht⟩ := bind_eq_ok.mp ht
  obtain ⟨expected, hexpected, ht⟩ := bind_eq_ok.mp ht
  cases ht
  have hcase : ∀ c ≤ horizon, (Smt.Term.app .and [Codec.inCycle cycle c,
      compareTerm guard.op (cellTerm guard.state c) expected]).IsFormula I ∧
      ((Smt.Term.app .and [Codec.inCycle cycle c,
        compareTerm guard.op (cellTerm guard.state c) expected]).Holds I ↔
        context.evaluate guard.cycle = .ok (some (.int c)) ∧
          (compareTerm guard.op (cellTerm guard.state c) expected).Holds I) := by
    intro c hc
    obtain ⟨v, actual, r, -, -, -, heval⟩ :=
      hstands.compare hinterprets hguard.comparison hexpected hc
    obtain ⟨hformula, hholds⟩ := hinterprets.inCycle hguard.cycle hcycle c
    obtain ⟨hand, hiff⟩ := isFormula_and hformula ⟨r, heval⟩
    exact ⟨hand, hiff.trans (and_congr_left (fun _ => hholds))⟩
  have hcases : ∀ t ∈ (cycles horizon).map (fun c => Smt.Term.app .and
      [Codec.inCycle cycle c, compareTerm guard.op (cellTerm guard.state c) expected]),
      t.IsFormula I := List.forall_mem_map.mpr (fun c hc => (hcase c (mem_cycles.mp hc)).1)
  obtain ⟨hformula, hholds⟩ := naryTerm_or hcases
  refine ⟨hformula, hholds.trans ?_, ?_⟩
  · simp only [List.mem_map, exists_exists_and_eq_and]
    constructor
    · rintro ⟨c, hc, h⟩
      rw [mem_cycles] at hc
      obtain ⟨hat, hcompare⟩ := (hcase c hc).2.mp h
      obtain ⟨v, actual, r, hv, hactual, hr, heval⟩ :=
        hstands.compare hinterprets hguard.comparison hexpected hc
      rw [Smt.Term.Holds, heval] at hcompare
      cases hcompare
      exact ⟨c, v, actual, hat, hc, hv, hactual, hr⟩
    · rintro ⟨c, v, actual, hat, hc, hv, hactual, hr⟩
      refine ⟨c, mem_cycles.mpr hc, (hcase c hc).2.mpr ⟨hat, ?_⟩⟩
      obtain ⟨v', actual', r, hv', hactual', hr', heval⟩ :=
        hstands.compare hinterprets hguard.comparison hexpected hc
      rw [hv] at hv'
      cases hv'
      rw [hactual] at hactual'
      cases hactual'
      rw [hr] at hr'
      cases hr'
      exact heval
  · rintro ⟨c, hc, hat⟩
    obtain ⟨v, actual, r, hv, hactual, hr, -⟩ :=
      hstands.compare hinterprets hguard.comparison hexpected hc
    exact ⟨r, c, v, actual, hat, hc, hv, hactual, hr⟩

/-- A requirement whose anchor is within the horizon is met when its assertions hold. -/
theorem requirementCommands_iff {r : StateRequirementInstance} {commands : List Smt.Command}
    (hr : codec.WritesEffect context.events cells r.activation r.cycle r.state r.op r.expected)
    (hanchored : context.Holds r.activation → context.Anchored horizon r.cycle)
    (h : codec.requirementCommands context.interpreter context.events horizon r = .ok commands) :
    Smt.Script.Holds commands I ↔ RequirementMet context horizon pre r := by
  obtain ⟨activation, hactivation, h⟩ := bind_eq_ok.mp h
  obtain ⟨cycle, hcycle, h⟩ := bind_eq_ok.mp h
  obtain ⟨expected, hexpected, h⟩ := bind_eq_ok.mp h
  cases h
  obtain ⟨hformula, hholds⟩ := hinterprets.truth hr.activation hactivation
  have hcase : ∀ c ≤ horizon, ((Smt.Term.app .implies [.app .and [activation,
      Codec.inCycle cycle c], compareTerm r.op (cellTerm r.state c) expected]).Holds I ↔
      (context.Holds r.activation → context.evaluate r.cycle = .ok (some (.int c)) →
        ∃ v actual, context.evaluate r.expected = .ok (some v) ∧ pre c r.state = some actual ∧
          r.op.compare actual v = .ok true)) := by
    intro c hc
    obtain ⟨v, actual, result, hv, hactual, hresult, heval⟩ :=
      hstands.compare hinterprets hr.comparison hexpected hc
    obtain ⟨hin, hinCycle⟩ := hinterprets.inCycle hr.cycle hcycle c
    obtain ⟨hand, hboth⟩ := isFormula_and hformula hin
    rw [Smt.Term.Holds.implies hand ⟨result, heval⟩, hboth, hholds, hinCycle, and_imp]
    refine imp_congr_right (fun _ => imp_congr_right (fun _ => ?_))
    constructor
    · intro hcompare
      rw [Smt.Term.Holds, heval] at hcompare
      cases hcompare
      exact ⟨v, actual, hv, hactual, hresult⟩
    · rintro ⟨v', actual', hv', hactual', hresult'⟩
      rw [hv] at hv'
      cases hv'
      rw [hactual] at hactual'
      cases hactual'
      rw [hresult] at hresult'
      cases hresult'
      exact heval
  constructor
  · intro hall
    by_cases hactive : context.Holds r.activation
    · obtain ⟨c, hc, hat⟩ := hanchored hactive
      obtain ⟨v, actual, hv, hactual, hresult⟩ :=
        (hcase c hc).mp (hall _ (List.mem_map.mpr ⟨c, mem_cycles.mpr hc, rfl⟩)) hactive hat
      exact .inr ⟨c, v, actual, ⟨hactive, hat, hc, hv⟩, hactual, hresult⟩
    · exact .inl ((hinterprets.idle_iff hr.activation hactivation).mpr hactive)
  · intro hmet t ht
    obtain ⟨c, hc, heq⟩ := List.mem_map.mp ht
    cases heq
    refine (hcase c (mem_cycles.mp hc)).mpr (fun hactive hat => ?_)
    rcases hmet with hidle | ⟨c', v, actual, hactiveAt, hactual, hresult⟩
    · exact absurd hidle hactive.not_idle
    · have hsame := hat.symm.trans hactiveAt.cycle_eq
      simp only [Except.ok.injEq, Option.some.injEq, Value.int.injEq, Nat.cast_inj] at hsame
      subst hsame
      exact ⟨v, actual, hactiveAt.value_eq, hactual, hresult⟩

/-- The terms of guards hold when the guards return true. -/
theorem guardTerms_iff {guards : List GuardPredicateInstance} {ts : List Smt.Term}
    (hguards : ∀ guard ∈ guards, codec.WritesGuard context.events cells guard)
    (hts : guards.mapM (codec.guardTerm context.interpreter context.events horizon) = .ok ts) :
    (∀ t ∈ ts, t.IsFormula I) ∧
      ((∀ t ∈ ts, t.Holds I) ↔ GuardsReturn context horizon pre guards true) ∧
      ((∀ guard ∈ guards, context.Anchored horizon guard.cycle) →
        GuardsReturn context horizon pre guards true ∨
          GuardsReturn context horizon pre guards false) := by
  rw [mapM_eq_ok] at hts
  induction hts with
  | nil => exact ⟨by simp, by simp [GuardsReturn], fun _ => .inl rfl⟩
  | cons ht _ ih =>
      obtain ⟨hguard, hrest⟩ := List.forall_mem_cons.mp hguards
      obtain ⟨hformula, hholds, hknown⟩ := guardTerm_iff hstands hinterprets hguard ht
      obtain ⟨hformulas, hall, hcases⟩ := ih hrest
      refine ⟨List.forall_mem_cons.mpr ⟨hformula, hformulas⟩, ?_, fun hanchored => ?_⟩
      · rw [List.forall_mem_cons, hholds, hall, GuardsReturn]
        simp
      · obtain ⟨hguardAnchored, hrestAnchored⟩ := List.forall_mem_cons.mp hanchored
        obtain ⟨result, hresult⟩ := hknown hguardAnchored
        cases result with
        | false => exact .inr (.inl ⟨hresult, rfl⟩)
        | true =>
            rcases hcases hrestAnchored with htrue | hfalse
            · exact .inl (.inr ⟨hresult, htrue⟩)
            · exact .inr (.inr ⟨hresult, hfalse⟩)

/-- An expression with guards, as one term. -/
theorem guardedTerm_iff {e : Expr} {t : Smt.Term} {guards : List GuardPredicateInstance}
    {ts : List Smt.Term} (he : codec.WritesTruth context.events e)
    (hguards : ∀ guard ∈ guards, codec.WritesGuard context.events cells guard)
    (ht : codec.term context.interpreter context.events e = .ok t)
    (hts : guards.mapM (codec.guardTerm context.interpreter context.events horizon) = .ok ts) :
    (groupTerm .and (t :: ts)).IsFormula I ∧ ((groupTerm .and (t :: ts)).Holds I ↔
      context.Holds e ∧ GuardsReturn context horizon pre guards true) := by
  obtain ⟨hformula, hholds⟩ := hinterprets.truth he ht
  obtain ⟨hformulas, hall, -⟩ := guardTerms_iff hstands hinterprets hguards hts
  obtain ⟨hgroup, hiff⟩ := groupTerm_and (List.forall_mem_cons.mpr ⟨hformula, hformulas⟩)
  refine ⟨hgroup, hiff.trans ?_⟩
  rw [List.forall_mem_cons, hholds, hall]

theorem forwardCommand_iff {item : GuardedForwardInstance} {command : Smt.Command}
    (hantecedent : codec.WritesTruth context.events item.antecedent)
    (hconsequent : codec.WritesTruth context.events item.consequent)
    (hguards : ∀ guard ∈ item.predicates, codec.WritesGuard context.events cells guard)
    (hanchored : context.Holds item.antecedent →
      ∀ guard ∈ item.predicates, context.Anchored horizon guard.cycle)
    (h : codec.forwardCommand context.interpreter context.events horizon item = .ok command) :
    ∃ t, command = .assert t ∧ (t.Holds I ↔ ForwardMet context horizon pre item) := by
  obtain ⟨antecedent, hant, h⟩ := bind_eq_ok.mp h
  obtain ⟨guards, hts, h⟩ := bind_eq_ok.mp h
  obtain ⟨consequent, hcon, h⟩ := bind_eq_ok.mp h
  cases h
  refine ⟨_, rfl, ?_⟩
  obtain ⟨henabled, hiff⟩ :=
    guardedTerm_iff hstands hinterprets hantecedent hguards hant hts
  obtain ⟨-, -, hcases⟩ := guardTerms_iff hstands hinterprets hguards hts
  obtain ⟨hformula, hholds⟩ := hinterprets.truth hconsequent hcon
  rw [Smt.Term.Holds.implies henabled hformula, hiff, hholds, ForwardMet,
    hinterprets.idle_iff hantecedent hant]
  by_cases hactive : context.Holds item.antecedent
  · rcases hcases (hanchored hactive) with htrue | hfalse
    · have hnot : ¬ GuardsReturn context horizon pre item.predicates false :=
        guardsReturn_not_both htrue
      simp [hactive, htrue, hnot]
    · have hnot : ¬ GuardsReturn context horizon pre item.predicates true :=
        fun htrue => guardsReturn_not_both htrue hfalse
      simp [hactive, hfalse, hnot]
  · simp [hactive]

/-- The candidates with their guards. -/
theorem candidateTerms_iff {candidates : List GuardedSupportCandidate} {ts : List Smt.Term}
    (hcandidates : ∀ candidate ∈ candidates,
      codec.WritesTruth context.events candidate.expression ∧
        ∀ guard ∈ candidate.predicates, codec.WritesGuard context.events cells guard)
    (hts : candidates.mapM (codec.candidateTerm context.interpreter context.events horizon) =
      .ok ts) :
    (∀ t ∈ ts, t.IsFormula I) ∧
      ((∀ candidate ∈ candidates, context.Holds candidate.expression →
        ∀ guard ∈ candidate.predicates, context.Anchored horizon guard.cycle) →
        ((∃ t ∈ ts, t.Holds I) ↔ Supported context horizon pre candidates)) := by
  rw [mapM_eq_ok] at hts
  induction hts with
  | nil => simp [Supported]
  | @cons candidate t rest ts' ht _ ih =>
      obtain ⟨⟨hexpression, hguards⟩, hrest⟩ := List.forall_mem_cons.mp hcandidates
      obtain ⟨hformulas, hsome⟩ := ih hrest
      obtain ⟨expression, hterm, ht⟩ := bind_eq_ok.mp ht
      obtain ⟨guards, hguardTerms, ht⟩ := bind_eq_ok.mp ht
      cases ht
      obtain ⟨hformula, hiff⟩ :=
        guardedTerm_iff hstands hinterprets hexpression hguards hterm hguardTerms
      obtain ⟨-, -, hcases⟩ := guardTerms_iff hstands hinterprets hguards hguardTerms
      obtain ⟨v, hv, -⟩ := hinterprets.value hexpression.1 hterm
      have hreturns : context.Returns candidate.expression := ⟨_, hv⟩
      refine ⟨List.forall_mem_cons.mpr ⟨hformula, hformulas⟩, fun hanchored => ?_⟩
      obtain ⟨hanchor, hanchors⟩ := List.forall_mem_cons.mp hanchored
      rw [List.exists_mem_cons_iff, hiff, hsome hanchors, Supported]
      by_cases hholds : context.Holds candidate.expression
      · rcases hcases (hanchor hholds) with htrue | hfalse
        · simp [hholds, htrue]
        · simp [hholds, hfalse]
      · simp [hholds, hreturns]

theorem supportCommand_iff {item : GuardedSupportInstance} {command : Smt.Command}
    (hantecedent : codec.WritesTruth context.events item.antecedent)
    (hcandidates : ∀ candidate ∈ item.supports,
      codec.WritesTruth context.events candidate.expression ∧
        ∀ guard ∈ candidate.predicates, codec.WritesGuard context.events cells guard)
    (hanchored : context.Holds item.antecedent → ∀ candidate ∈ item.supports,
      context.Holds candidate.expression →
        ∀ guard ∈ candidate.predicates, context.Anchored horizon guard.cycle)
    (h : codec.supportCommand context.interpreter context.events horizon item = .ok command) :
    ∃ t, command = .assert t ∧ (t.Holds I ↔ SupportMet context horizon pre item) := by
  obtain ⟨antecedent, hant, h⟩ := bind_eq_ok.mp h
  obtain ⟨candidates, hts, h⟩ := bind_eq_ok.mp h
  cases h
  refine ⟨_, rfl, ?_⟩
  obtain ⟨hformula, hholds⟩ := hinterprets.truth hantecedent hant
  obtain ⟨hformulas, hsome⟩ := candidateTerms_iff hstands hinterprets hcandidates hts
  obtain ⟨hgroup, hiff⟩ := groupTerm_or hformulas
  rw [Smt.Term.Holds.implies hformula hgroup, hholds, hiff, SupportMet,
    hinterprets.idle_iff hantecedent hant]
  by_cases hactive : context.Holds item.antecedent
  · rw [hsome (hanchored hactive)]
    simp [hactive]
  · simp [hactive]

end Effects

/-! ## Transitions -/

section Transitions

variable {cells : List StateVariable} {horizon : Nat}

variable (horizon) in
/-- The terms of an update: when it is active, and what it writes. -/
theorem updateTerms_spec (hinterprets : codec.Interprets context I) {u : StateUpdateInstance}
    {terms : UpdateTerms}
    (hu : codec.WritesEffect context.events cells u.activation u.cycle u.state .eq u.value)
    (h : codec.updateTerms context.interpreter context.events u = .ok terms) :
    ∃ v, context.evaluate u.value = .ok (some v) ∧ codec.Agrees I u.value.sort v terms.value ∧
      ∀ c ≤ horizon, (terms.active c).IsFormula I ∧ ((terms.active c).Holds I ↔
        context.ActiveAt horizon u.activation u.cycle u.value c v) := by
  obtain ⟨activation, hactivation, h⟩ := bind_eq_ok.mp h
  obtain ⟨cycle, hcycle, h⟩ := bind_eq_ok.mp h
  obtain ⟨value, hvalue, h⟩ := bind_eq_ok.mp h
  cases h
  obtain ⟨v, hv, hagrees⟩ := hinterprets.value hu.comparison.written hvalue
  obtain ⟨hformula, hholds⟩ := hinterprets.truth hu.activation hactivation
  refine ⟨v, hv, hagrees, fun c hc => ?_⟩
  obtain ⟨hin, hinCycle⟩ := hinterprets.inCycle hu.cycle hcycle c
  obtain ⟨hand, hboth⟩ := isFormula_and hformula hin
  refine ⟨hand, hboth.trans ?_⟩
  rw [hholds, hinCycle]
  constructor
  · rintro ⟨hactive, hat⟩
    exact ⟨hactive, hat, hc, hv⟩
  · intro hactive
    exact ⟨hactive.holds, hactive.cycle_eq⟩

/-- The last assertion of a cycle: without an active update the cell keeps its value. -/
theorem holds_unchanged_iff {terms : List UpdateTerms} {c : Nat} {unchanged : Smt.Term}
    (hactive : ∀ u ∈ terms, (u.active c).IsFormula I) (hformula : unchanged.IsFormula I) :
    (if terms.isEmpty then unchanged else .app .implies
      [.app .not [groupTerm .or (terms.map (fun u => u.active c))], unchanged]).Holds I ↔
      ((∀ u ∈ terms, ¬ (u.active c).Holds I) → unchanged.Holds I) := by
  rcases terms with _ | ⟨first, rest⟩
  · simp
  · have hformulas : ∀ t ∈ (first :: rest).map (fun u => u.active c), t.IsFormula I :=
      List.forall_mem_map.mpr hactive
    obtain ⟨hgroup, hiff⟩ := groupTerm_or hformulas
    obtain ⟨b, hb⟩ := hgroup
    rw [if_neg (by simp), Smt.Term.Holds.implies ⟨_, Smt.Term.eval_not hb⟩ hformula,
      Smt.Term.Holds.not ⟨b, hb⟩, hiff]
    simp only [List.mem_map, exists_exists_and_eq_and, not_exists, not_and]

/-- What the assertions about one cycle of a cell say about its constants. -/
theorem transitionCommands_iff (hinterprets : codec.Interprets context I) {cell : StateVariable}
    {updates : List StateUpdateInstance} {terms : List UpdateTerms}
    (hupdates : ∀ u ∈ updates, u.value.sort = cell.sort ∧
      codec.WritesEffect context.events cells u.activation u.cycle u.state .eq u.value)
    (hterms : updates.mapM (codec.updateTerms context.interpreter context.events) = .ok terms)
    {c : Nat} (hc : c ≤ horizon) {before after : Smt.Val}
    (hbefore : (cellTerm cell.name c).eval I = some before) (hbeforeTy : before.ty = cell.sort.ty)
    (hafter : (cellTerm cell.name (c + 1)).eval I = some after)
    (hafterTy : after.ty = cell.sort.ty) :
    Smt.Script.Holds (transitionCommands cell.name terms c) I ↔
      (∀ u ∈ updates, ∀ v, context.ActiveAt horizon u.activation u.cycle u.value c v →
        codec.code cell.sort v = some after) ∧
      ((∀ u ∈ updates, ∀ v, ¬ context.ActiveAt horizon u.activation u.cycle u.value c v) →
        after = before) := by
  have hunchanged : (Smt.Term.app .eq [cellTerm cell.name (c + 1), cellTerm cell.name c]).Holds I ↔
      after = before := by
    rw [Smt.Term.Holds.eq hafter hbefore (hbeforeTy.trans hafterTy.symm), eq_comm]
  have hformula : (Smt.Term.app .eq [cellTerm cell.name (c + 1), cellTerm cell.name c]).IsFormula I :=
    ⟨_, Smt.Term.eval_eq hafter hbefore (hbeforeTy.trans hafterTy.symm)⟩
  -- what the terms of an update say
  have hspec : ∀ u ∈ updates, ∀ u' : UpdateTerms,
      codec.updateTerms context.interpreter context.events u = .ok u' →
      (u'.active c).IsFormula I ∧
      ((∀ v, ¬ context.ActiveAt horizon u.activation u.cycle u.value c v) ↔
        ¬ (u'.active c).Holds I) ∧
      ((∀ v, context.ActiveAt horizon u.activation u.cycle u.value c v →
        codec.code cell.sort v = some after) ↔ (Smt.Term.app .implies
          [u'.active c, .app .eq [cellTerm cell.name (c + 1), u'.value]]).Holds I) := by
    intro u hu u' hu'
    obtain ⟨hsort, heffect⟩ := hupdates u hu
    obtain ⟨v, hv, ⟨-, w, hw, heval⟩, hactive⟩ :=
      updateTerms_spec horizon hinterprets heffect hu'
    obtain ⟨hformula, hholds⟩ := hactive c hc
    have hunique : ∀ v', context.ActiveAt horizon u.activation u.cycle u.value c v' → v' = v := by
      intro v' h
      have hsame := h.value_eq.symm.trans hv
      cases hsame
      rfl
    have hwTy : w.ty = after.ty := by rw [code_ty hw, hsort, hafterTy]
    refine ⟨hformula, ?_, ?_⟩
    · rw [hholds]
      constructor
      · intro h
        exact h v
      · intro hnot v' h
        rw [hunique v' h] at h
        exact hnot h
    · rw [Smt.Term.Holds.implies hformula ⟨_, Smt.Term.eval_eq hafter heval hwTy⟩,
        Smt.Term.Holds.eq hafter heval hwTy, hholds]
      rw [hsort] at hw
      constructor
      · intro hall hactive
        have hcode := hall v hactive
        rw [hw, Option.some.injEq] at hcode
        exact hcode
      · intro heq v' hat
        obtain rfl := hunique v' hat
        rw [hw, heq hat]
  have hformulas : ∀ u' ∈ terms, (u'.active c).IsFormula I := by
    intro u' hu'
    obtain ⟨u, hu, hterm⟩ := mapM_origin hterms hu'
    exact (hspec u hu u' hterm).1
  rw [forall_mapM_iff hterms (fun u hu u' hu' => (hspec u hu u' hu').2.2),
    forall_mapM_iff hterms (fun u hu u' hu' => (hspec u hu u' hu').2.1), ← hunchanged,
    ← holds_unchanged_iff hformulas hformula]
  unfold transitionCommands
  constructor
  · intro hall
    exact ⟨fun u' hu' => hall _ (List.mem_append_left _ (List.mem_map_of_mem hu')),
      hall _ (List.mem_append_right _ List.mem_cons_self)⟩
  · rintro ⟨hwrites, hkeeps⟩ t ht
    rcases List.mem_append.mp ht with ht | ht
    · obtain ⟨u', hu', heq⟩ := List.mem_map.mp ht
      cases heq
      exact hwrites u' hu'
    · rw [List.mem_singleton] at ht
      cases ht
      exact hkeeps

end Transitions

end Codec

end Umcm
