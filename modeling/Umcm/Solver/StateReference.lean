import Umcm.Solver.StateOrder

/-!
# Reference semantics of the state cells

The meaning of requirements, updates and guarded rules without an order in which
they are visited. A reference run gives the value of every cell before every
cycle: the requirements of a cycle hold on the values before it, all writes to a
cell in one cycle are equal and give its next value, other cells keep theirs, and
the guards of a rule are judged on the values before the cycles of their anchors.
Values are compared with `==`.

* `stateSemantics_reference`: the simulation computes the reference run.
-/

namespace Umcm

open Except StateCheck StateRun

/-- Both cells are absent, or their values are equal. -/
def SameValue (v w : Option Value) : Prop := v.map Value.key = w.map Value.key

theorem SameValue.refl (v : Option Value) : SameValue v v := rfl

theorem SameValue.exists_some {v : Value} {w : Option Value} (h : SameValue (some v) w) :
    ∃ w', w = some w' ∧ v.key = w'.key := by
  rcases w with _ | w
  · cases h
  · exact ⟨w, rfl, Option.some.inj h⟩

section Definitions

variable (problem : BoundedProblem) (context : EvaluationContext)

/-- An active update writes the value to the cell in the cycle. -/
def WrittenIn (c : Nat) (name : String) (v : Value) : Prop :=
  ∃ u ∈ problem.stateUpdates, u.state = name ∧
    context.ActiveAt problem.spec.horizon u.activation u.cycle u.value c v

/-- Some requirement or update is active in the cycle. -/
def EffectIn (c : Nat) : Prop :=
  (∃ r ∈ problem.stateRequirements, ∃ v,
    context.ActiveAt problem.spec.horizon r.activation r.cycle r.expected c v) ∨
  ∃ name v, WrittenIn problem context c name v

/-- A run of the cells in which no effect or rule comes before another. -/
structure ReferenceRun (pre : CellStates) : Prop where
  initial : ∃ state, initialState context problem.spec.stateVariables = .ok state ∧
    ∀ name, SameValue (state.get? name) (pre 0 name)
  requirement : ∀ r ∈ problem.stateRequirements, RequirementMet context problem.spec.horizon pre r
  update : ∀ u ∈ problem.stateUpdates, UpdateDecided context problem.spec.horizon u
  agree : ∀ c name v w, WrittenIn problem context c name v → WrittenIn problem context c name w →
    v.key = w.key
  written : ∀ c name v, WrittenIn problem context c name v →
    (pre c name).isSome = true ∧ SameValue (some v) (pre (c + 1) name)
  kept : ∀ c ≤ problem.spec.horizon, ∀ name, (∀ v, ¬ WrittenIn problem context c name v) →
    SameValue (pre c name) (pre (c + 1) name)
  forward : ∀ item ∈ problem.guardedForwards, context.Idle item.antecedent ∨
    (context.Holds item.antecedent ∧
      ((∃ guard ∈ item.predicates, Compared context problem.spec.horizon pre guard false) ∨
        ((∀ guard ∈ item.predicates, Compared context problem.spec.horizon pre guard true) ∧
          context.Holds item.consequent)))
  support : ∀ item ∈ problem.guardedSupports, context.Idle item.antecedent ∨
    (context.Holds item.antecedent ∧ ∃ candidate ∈ item.supports,
      context.Holds candidate.expression ∧
        ∀ guard ∈ candidate.predicates, Compared context problem.spec.horizon pre guard true)

/-- The guards of the enabled rules can be judged. -/
structure GuardsJudged : Prop where
  forward : ∀ item ∈ problem.guardedForwards, context.Holds item.antecedent →
    ∀ guard ∈ item.predicates, Judged context problem.spec.horizon guard
  support : ∀ item ∈ problem.guardedSupports, context.Holds item.antecedent →
    ∀ candidate ∈ item.supports, context.Holds candidate.expression →
      ∀ guard ∈ candidate.predicates, Judged context problem.spec.horizon guard

/-- The states of a result are those of the run: the initial and the final state,
and the states around every cycle with an effect. -/
structure Follows (result : StateCheckResult) (pre : CellStates) : Prop where
  initial : ∀ name, SameValue (result.initialState.get? name) (pre 0 name)
  final : ∀ name, SameValue (result.finalState.get? name) (pre (problem.spec.horizon + 1) name)
  ordered : result.steps.Pairwise (fun a b => a.cycle < b.cycle)
  cycles : ∀ c, (∃ step ∈ result.steps, step.cycle = c) ↔
    c ≤ problem.spec.horizon ∧ EffectIn problem context c
  steps : ∀ step ∈ result.steps, ∀ name,
    SameValue (step.before.get? name) (pre step.cycle name) ∧
      SameValue (step.after.get? name) (pre (step.cycle + 1) name)

end Definitions

variable {problem : BoundedProblem} {context : EvaluationContext}

/-! ## The writes of a cycle -/

theorem activeWrite_eq_some {c : Nat} {name : String} {u : StateUpdateInstance} {v : Value} :
    activeWrite context c name u = some v ↔ u.state = name ∧ context.Holds u.activation ∧
      context.evaluate u.cycle = .ok (some (.int c)) ∧ context.evaluate u.value = .ok (some v) := by
  unfold activeWrite
  by_cases h : u.state = name ∧ context.Holds u.activation ∧
      context.evaluate u.cycle = .ok (some (.int c))
  · rw [if_pos h]
    cases hvalue : context.evaluate u.value with
    | error e => simp [Except.toOption]
    | ok r => simp [Except.toOption, h]
  · rw [if_neg h]
    constructor
    · intro hv
      cases hv
    · rintro ⟨hstate, hholds, hcycle, -⟩
      exact absurd ⟨hstate, hholds, hcycle⟩ h

theorem mem_writes_iff {c : Nat} (hc : c ≤ problem.spec.horizon) {name : String} {v : Value} :
    v ∈ problem.stateUpdates.filterMap (activeWrite context c name) ↔
      WrittenIn problem context c name v := by
  rw [List.mem_filterMap]
  constructor
  · rintro ⟨u, hu, hv⟩
    obtain ⟨hstate, hholds, hcycle, hvalue⟩ := activeWrite_eq_some.mp hv
    exact ⟨u, hu, hstate, hholds, hcycle, hc, hvalue⟩
  · rintro ⟨u, hu, hstate, hat⟩
    exact ⟨u, hu, activeWrite_eq_some.mpr ⟨hstate, hat.holds, hat.cycle_eq, hat.value_eq⟩⟩

theorem WrittenIn.inside {c : Nat} {name : String} {v : Value}
    (h : WrittenIn problem context c name v) : c ≤ problem.spec.horizon := by
  obtain ⟨u, -, -, hat⟩ := h
  exact hat.inside

theorem StateRun.Compared.not_both {horizon : Nat} {pre : CellStates} {guard : GuardPredicateInstance}
    (htrue : Compared context horizon pre guard true)
    (hfalse : Compared context horizon pre guard false) : False := by
  obtain ⟨c, v, actual, hcycle, -, hexpected, hactual, hcompare⟩ := htrue
  obtain ⟨c', v', actual', hcycle', -, hexpected', hactual', hcompare'⟩ := hfalse
  have hc : c = c' := by
    have h := hcycle.symm.trans hcycle'
    simpa using h
  subst hc
  have hv : v = v' := by
    have h := hexpected.symm.trans hexpected'
    simpa using h
  subst hv
  rw [hactual] at hactual'
  cases hactual'
  rw [hcompare] at hcompare'
  cases hcompare'

/-! ## Accepted simulations are reference runs -/

theorem guardsReturn_true {horizon : Nat} {pre : CellStates} {guards : List GuardPredicateInstance}
    (h : GuardsReturn context horizon pre guards true) :
    ∀ guard ∈ guards, Compared context horizon pre guard true := by
  induction guards with
  | nil => simp
  | cons guard rest ih =>
      rcases h with ⟨-, h⟩ | ⟨hguard, h⟩
      · cases h
      · exact List.forall_mem_cons.mpr ⟨hguard, ih h⟩

theorem guardsReturn_false {horizon : Nat} {pre : CellStates} {guards : List GuardPredicateInstance}
    (h : GuardsReturn context horizon pre guards false) :
    ∃ guard ∈ guards, Compared context horizon pre guard false := by
  induction guards with
  | nil => cases h
  | cons guard rest ih =>
      rcases h with ⟨hguard, -⟩ | ⟨-, h⟩
      · exact ⟨guard, List.mem_cons_self, hguard⟩
      · obtain ⟨g, hg, hfalse⟩ := ih h
        exact ⟨g, List.mem_cons_of_mem _ hg, hfalse⟩

theorem exists_supported {horizon : Nat} {pre : CellStates}
    {candidates : List GuardedSupportCandidate} (h : Supported context horizon pre candidates) :
    ∃ candidate ∈ candidates, context.Holds candidate.expression ∧
      ∀ guard ∈ candidate.predicates, Compared context horizon pre guard true := by
  induction candidates with
  | nil => cases h
  | cons candidate rest ih =>
      rcases h with ⟨hholds, hguards⟩ | ⟨-, h⟩
      · exact ⟨candidate, List.mem_cons_self, hholds, guardsReturn_true hguards⟩
      · obtain ⟨other, hother, hsupports⟩ := ih h
        exact ⟨other, List.mem_cons_of_mem _ hother, hsupports⟩

theorem StateRun.Written.cases {writes : List Value} {before after : Option Value}
    (h : Written writes before after) :
    (writes = [] → after = before) ∧
      ∀ v ∈ writes, before.isSome = true ∧ SameValue (some v) after ∧
        ∀ w ∈ writes, v.key = w.key := by
  rcases writes with _ | ⟨first, rest⟩
  · exact ⟨fun _ => h, by simp⟩
  · obtain ⟨hagree, hbefore, rfl⟩ := h
    have hfirst : ∀ v ∈ first :: rest, v.key = first.key :=
      List.forall_mem_cons.mpr ⟨rfl, fun w hw => by simpa using hagree w hw⟩
    refine ⟨(fun h => nomatch h), fun v hv => ⟨hbefore, ?_, fun w hw => ?_⟩⟩
    · exact congrArg some (hfirst v hv)
    · exact (hfirst v hv).trans (hfirst w hw).symm

theorem StateRun.reference {pre : CellStates} (h : StateRun problem context pre) :
    ReferenceRun problem context pre := by
  obtain ⟨state, hstate, hpre⟩ := h.initial
  refine ⟨⟨state, hstate, fun name => by rw [hpre]; exact SameValue.refl _⟩, h.requirement,
    h.update, ?_, ?_, ?_, ?_, ?_⟩
  · intro c name v w hv hw
    have hwrites := (Written.cases (h.writes c hv.inside name)).2 v ((mem_writes_iff hv.inside).mpr hv)
    exact hwrites.2.2 w ((mem_writes_iff hv.inside).mpr hw)
  · intro c name v hv
    have hwrites := (Written.cases (h.writes c hv.inside name)).2 v ((mem_writes_iff hv.inside).mpr hv)
    exact ⟨hwrites.1, hwrites.2.1⟩
  · intro c hc name hnone
    rw [(Written.cases (h.writes c hc name)).1 ?_]
    · exact SameValue.refl _
    · rw [List.eq_nil_iff_forall_not_mem]
      exact fun v hv => hnone v ((mem_writes_iff hc).mp hv)
  · intro item hitem
    rcases h.forward item hitem with hidle | ⟨hholds, hfalse | ⟨htrue, hconsequent⟩⟩
    · exact Or.inl hidle
    · exact Or.inr ⟨hholds, Or.inl (guardsReturn_false hfalse)⟩
    · exact Or.inr ⟨hholds, Or.inr ⟨guardsReturn_true htrue, hconsequent⟩⟩
  · intro item hitem
    rcases h.support item hitem with hidle | ⟨hholds, hsupported⟩
    · exact Or.inl hidle
    · exact Or.inr ⟨hholds, exists_supported hsupported⟩

/-- The reference run is unique up to equal values. -/
theorem ReferenceRun.unique {pre pre' : CellStates} (h : ReferenceRun problem context pre)
    (h' : ReferenceRun problem context pre') {c : Nat} (hc : c ≤ problem.spec.horizon + 1)
    (name : String) : SameValue (pre c name) (pre' c name) := by
  induction c with
  | zero =>
      obtain ⟨state, hstate, hpre⟩ := h.initial
      obtain ⟨state', hstate', hpre'⟩ := h'.initial
      rw [hstate] at hstate'
      cases hstate'
      exact (hpre name).symm.trans (hpre' name)
  | succ c ih =>
      have hinside : c ≤ problem.spec.horizon := Nat.le_of_succ_le_succ hc
      by_cases hwritten : ∃ v, WrittenIn problem context c name v
      · obtain ⟨v, hv⟩ := hwritten
        exact (h.written c name v hv).2.symm.trans (h'.written c name v hv).2
      · have hnone : ∀ v, ¬ WrittenIn problem context c name v := fun v hv => hwritten ⟨v, hv⟩
        calc (pre (c + 1) name).map Value.key
            = (pre c name).map Value.key := (h.kept c hinside name hnone).symm
          _ = (pre' c name).map Value.key := ih (by omega)
          _ = (pre' (c + 1) name).map Value.key := h'.kept c hinside name hnone

/-! ## Reference runs are simulated -/

section Simulated

/-- The cells of the simulation: the first write of a cycle, or the value before it. -/
def simulatedCells (problem : BoundedProblem) (context : EvaluationContext)
    (start : String → Option Value) : CellStates
  | 0 => start
  | c + 1 => fun name =>
    (problem.stateUpdates.filterMap (activeWrite context c name)).head?.or
      (simulatedCells problem context start c name)

variable {pre : CellStates} {start : String → Option Value}

theorem ReferenceRun.simulated (h : ReferenceRun problem context pre)
    (hstart : ∀ name, SameValue (start name) (pre 0 name)) {c : Nat}
    (hc : c ≤ problem.spec.horizon + 1) (name : String) :
    SameValue (simulatedCells problem context start c name) (pre c name) := by
  induction c with
  | zero => exact hstart name
  | succ c ih =>
      have hinside : c ≤ problem.spec.horizon := Nat.le_of_succ_le_succ hc
      unfold simulatedCells
      cases hwrites : problem.stateUpdates.filterMap (activeWrite context c name) with
      | nil =>
          refine (ih (by omega)).trans (h.kept c hinside name (fun v hv => ?_))
          have hmem := (mem_writes_iff hinside).mpr hv
          rw [hwrites] at hmem
          cases hmem
      | cons v rest =>
          refine (h.written c name v ((mem_writes_iff hinside).mp ?_)).2
          rw [hwrites]
          exact List.mem_cons_self

theorem ReferenceRun.simulated_written (h : ReferenceRun problem context pre)
    (hstart : ∀ name, SameValue (start name) (pre 0 name)) {c : Nat}
    (hc : c ≤ problem.spec.horizon) (name : String) :
    Written (problem.stateUpdates.filterMap (activeWrite context c name))
      (simulatedCells problem context start c name)
      (simulatedCells problem context start (c + 1) name) := by
  show Written _ _ ((problem.stateUpdates.filterMap (activeWrite context c name)).head?.or _)
  cases hwrites : problem.stateUpdates.filterMap (activeWrite context c name) with
  | nil => rfl
  | cons v rest =>
      have hwritten : ∀ w ∈ v :: rest, WrittenIn problem context c name w := by
        intro w hw
        rw [← hwrites] at hw
        exact (mem_writes_iff hc).mp hw
      have hv := hwritten v List.mem_cons_self
      refine ⟨fun w hw => ?_, ?_, rfl⟩
      · have hkeys := h.agree c name w v (hwritten w (List.mem_cons_of_mem _ hw)) hv
        simpa using hkeys
      · have hsame := h.simulated hstart (Nat.le_succ_of_le hc) name
        have hsome := (h.written c name v hv).1
        cases hcell : simulatedCells problem context start c name with
        | some _ => rfl
        | none =>
            rw [hcell] at hsame
            rw [Option.isSome_iff_exists] at hsome
            obtain ⟨_, hpre⟩ := hsome
            rw [hpre] at hsame
            cases hsame

/-- A comparison depends on the value of the cell only. -/
theorem StateRun.Compared.congr {horizon : Nat} {pre' : CellStates} {guard : GuardPredicateInstance}
    {result : Bool} (h : Compared context horizon pre guard result)
    (hsame : ∀ c ≤ horizon, ∀ name, SameValue (pre c name) (pre' c name)) :
    Compared context horizon pre' guard result := by
  obtain ⟨c, v, actual, hcycle, hinside, hexpected, hactual, hcompare⟩ := h
  have hvalue := hsame c hinside guard.state
  rw [hactual] at hvalue
  obtain ⟨actual', hactual', hkey⟩ := hvalue.exists_some
  refine ⟨c, v, actual', hcycle, hinside, hexpected, hactual', ?_⟩
  rw [← compare_congr _ _ hkey]
  exact hcompare

theorem StateRun.RequirementMet.congr {horizon : Nat} {pre' : CellStates} {r : StateRequirementInstance}
    (h : RequirementMet context horizon pre r)
    (hsame : ∀ c ≤ horizon, ∀ name, SameValue (pre c name) (pre' c name)) :
    RequirementMet context horizon pre' r := by
  rcases h with hidle | ⟨c, v, actual, hat, hactual, hcompare⟩
  · exact Or.inl hidle
  · have hvalue := hsame c hat.inside r.state
    rw [hactual] at hvalue
    obtain ⟨actual', hactual', hkey⟩ := hvalue.exists_some
    refine Or.inr ⟨c, v, actual', hat, hactual', ?_⟩
    rw [← compare_congr _ _ hkey]
    exact hcompare

end Simulated

/-! ## Guarded rules that are met are not a reason to reject -/

section Met

variable {horizon : Nat} {initial : Dict String Value} {sim : Simulation}

theorem guardPredicatesHold_judged {label : String} {guards : List GuardPredicateInstance}
    (h : ∀ guard ∈ guards, Judged context horizon guard) (r : StateCheckResult) :
    guardPredicatesHold context horizon initial sim label guards ≠ .error (.infeasible r) := by
  intro hr
  rcases guardPredicatesHold_cases context horizon initial sim label guards with
    ⟨hok, -⟩ | ⟨hok, -⟩ | ⟨abort, habort, guard, hguard, hstops⟩
  · rw [hok] at hr
    cases hr
  · rw [hok] at hr
    cases hr
  · rw [habort] at hr
    cases hr
    exact guardPredicateHolds_judged (h guard hguard) r hstops

theorem concrete_ne_rejected {e : Expr} {r : StateCheckResult} :
    concrete context e ≠ .error (.infeasible r) := by
  intro h
  obtain ⟨e, he⟩ := raises_concrete (p := fun abort => ∃ e, abort = .raised e)
    (fun e => ⟨e, rfl⟩) e _ h
  cases he

theorem checkForward_met (hlength : sim.preStates.length = horizon + 1)
    {item : GuardedForwardInstance}
    (hitem : context.Idle item.antecedent ∨ (context.Holds item.antecedent ∧
      ((∃ guard ∈ item.predicates, Compared context horizon sim.before guard false) ∨
        ((∀ guard ∈ item.predicates, Compared context horizon sim.before guard true) ∧
          context.Holds item.consequent))))
    (hjudged : context.Holds item.antecedent →
      ∀ guard ∈ item.predicates, Judged context horizon guard) (r : StateCheckResult) :
    checkForward context horizon initial sim item ≠ .error (.infeasible r) := by
  intro hr
  rcases hitem with hidle | ⟨hholds, hguards⟩
  · have hmet : ForwardMet context horizon sim.before item := Or.inl hidle
    rw [(checkForward_eq_ok (u := ()) hlength).mpr hmet] at hr
    cases hr
  rw [checkForward, concrete_eq_ok.mpr hholds, ok_bind] at hr
  have hnot : ∀ r, guardPredicatesHold context horizon initial sim
      s!"state-guarded transition {item.name}" item.predicates ≠ .error (.infeasible r) :=
    guardPredicatesHold_judged (hjudged hholds)
  cases hresult : guardPredicatesHold context horizon initial sim
      s!"state-guarded transition {item.name}" item.predicates with
  | error abort =>
      simp only [hresult, error_bind] at hr
      cases hr
      exact hnot r hresult
  | ok result =>
      simp only [hresult, ok_bind] at hr
      have hreturn := (guardPredicatesHold_eq_ok hlength).mp hresult
      cases result with
      | false => cases hr
      | true =>
          rcases hguards with ⟨guard, hguard, hfalse⟩ | ⟨-, hconsequent⟩
          · exact (guardsReturn_true hreturn guard hguard).not_both hfalse
          · rw [if_pos rfl, concrete_eq_ok.mpr hconsequent] at hr
            cases hr

theorem supported_judged {label : String} {candidates : List GuardedSupportCandidate}
    (hjudged : ∀ candidate ∈ candidates, context.Holds candidate.expression →
      ∀ guard ∈ candidate.predicates, Judged context horizon guard) (r : StateCheckResult) :
    supported context horizon initial sim label candidates ≠ .error (.infeasible r) := by
  induction candidates with
  | nil =>
      intro hr
      cases hr
  | cons candidate rest ih =>
      have ih := ih (fun other hother => hjudged other (List.mem_cons_of_mem _ hother))
      intro hr
      rw [supported] at hr
      cases hexpression : concrete context candidate.expression with
      | error abort =>
          rw [hexpression, error_bind] at hr
          cases hr
          exact concrete_ne_rejected hexpression
      | ok expression =>
          rw [hexpression, ok_bind] at hr
          by_cases htrue : expression.isTrue = true
          · rw [if_pos htrue] at hr
            rw [Result.isTrue, decide_eq_true_eq] at htrue
            subst htrue
            cases hresult : guardPredicatesHold context horizon initial sim label
                candidate.predicates with
            | error abort =>
                rw [hresult, error_bind] at hr
                cases hr
                exact guardPredicatesHold_judged (hjudged candidate List.mem_cons_self
                  (concrete_eq_ok.mp hexpression)) r hresult
            | ok result =>
                rw [hresult, ok_bind] at hr
                cases result with
                | true => cases hr
                | false => exact ih hr
          · rw [if_neg htrue] at hr
            exact ih hr

theorem supported_ne_false {label : String} (hlength : sim.preStates.length = horizon + 1)
    {candidates : List GuardedSupportCandidate}
    (h : ∃ candidate ∈ candidates, context.Holds candidate.expression ∧
      ∀ guard ∈ candidate.predicates, Compared context horizon sim.before guard true) :
    supported context horizon initial sim label candidates ≠ .ok false := by
  induction candidates with
  | nil =>
      obtain ⟨_, hnil, -⟩ := h
      cases hnil
  | cons candidate rest ih =>
      intro hfalse
      rw [supported, bind_eq_ok] at hfalse
      obtain ⟨expression, hexpression, hfalse⟩ := hfalse
      rw [concrete_eq_ok] at hexpression
      obtain ⟨supporting, hmem, hholds, hguards⟩ := h
      have hrest : supporting ∈ rest →
          supported context horizon initial sim label rest ≠ .ok false :=
        fun hmem => ih ⟨supporting, hmem, hholds, hguards⟩
      rcases List.mem_cons.mp hmem with rfl | hmem
      · rw [hholds] at hexpression
        cases hexpression
        have htrue : Result.isTrue (some (.bool true)) = true := rfl
        rw [if_pos htrue] at hfalse
        obtain ⟨result, hresult, hfalse⟩ := bind_eq_ok.mp hfalse
        cases result with
        | true => cases hfalse
        | false =>
            obtain ⟨guard, hguard, hcompared⟩ :=
              guardsReturn_false ((guardPredicatesHold_eq_ok hlength).mp hresult)
            exact (hguards guard hguard).not_both hcompared
      · split at hfalse
        · obtain ⟨result, -, hfalse⟩ := bind_eq_ok.mp hfalse
          cases result with
          | true => cases hfalse
          | false => exact hrest hmem hfalse
        · exact hrest hmem hfalse

theorem checkSupport_met (hlength : sim.preStates.length = horizon + 1)
    {item : GuardedSupportInstance}
    (hitem : context.Idle item.antecedent ∨ (context.Holds item.antecedent ∧
      ∃ candidate ∈ item.supports, context.Holds candidate.expression ∧
        ∀ guard ∈ candidate.predicates, Compared context horizon sim.before guard true))
    (hjudged : context.Holds item.antecedent → ∀ candidate ∈ item.supports,
      context.Holds candidate.expression →
        ∀ guard ∈ candidate.predicates, Judged context horizon guard) (r : StateCheckResult) :
    checkSupport context horizon initial sim item ≠ .error (.infeasible r) := by
  intro hr
  rcases hitem with hidle | ⟨hholds, hsupports⟩
  · have hmet : SupportMet context horizon sim.before item := Or.inl hidle
    rw [(checkSupport_eq_ok (u := ()) hlength).mpr hmet] at hr
    cases hr
  rw [checkSupport, concrete_eq_ok.mpr hholds, ok_bind] at hr
  cases hresult : supported context horizon initial sim
      s!"state-guarded support {item.name}" item.supports with
  | error abort =>
      simp only [hresult, error_bind] at hr
      cases hr
      exact supported_judged (hjudged hholds) r hresult
  | ok result =>
      simp only [hresult, ok_bind] at hr
      cases result with
      | true => cases hr
      | false => exact supported_ne_false hlength hsupports hresult

end Met

/-- A problem with a reference run is not rejected. -/
theorem ReferenceRun.not_rejected {pre : CellStates} (h : ReferenceRun problem context pre)
    (hjudged : GuardsJudged problem context) (r : StateCheckResult) :
    simulateState problem context ≠ .error (.infeasible r) := by
  intro hr
  obtain ⟨state, hstate, hstart⟩ := h.initial
  have hsame : ∀ c ≤ problem.spec.horizon, ∀ name,
      SameValue (pre c name) (simulatedCells problem context state.get? c name) :=
    fun c hc name => (h.simulated hstart (Nat.le_succ_of_le hc) name).symm
  obtain ⟨initial, requirements, updates, sim, hinitial, hrequirements, hupdates, hsim, hlength,
    hbefore⟩ := exists_simulation ⟨state, hstate, rfl⟩
      (fun r hr => RequirementMet.congr (h.requirement r hr) hsame) h.update
      (fun c hc name => h.simulated_written hstart hc name)
  have hagree : ∀ c ≤ problem.spec.horizon, ∀ name,
      SameValue (pre c name) (sim.before c name) := by
    intro c hc name
    rw [hbefore c (Nat.le_succ_of_le hc)]
    exact hsame c hc name
  have hforward : ∀ item ∈ problem.guardedForwards, ∀ r,
      checkForward context problem.spec.horizon initial sim item ≠ .error (.infeasible r) := by
    intro item hitem
    refine checkForward_met hlength ?_ (hjudged.forward item hitem)
    rcases h.forward item hitem with hidle | ⟨hholds, ⟨guard, hguard, hfalse⟩ | ⟨htrue, hconsequent⟩⟩
    · exact Or.inl hidle
    · exact Or.inr ⟨hholds, Or.inl ⟨guard, hguard, hfalse.congr hagree⟩⟩
    · exact Or.inr ⟨hholds, Or.inr ⟨fun guard hguard => (htrue guard hguard).congr hagree,
        hconsequent⟩⟩
  have hsupport : ∀ item ∈ problem.guardedSupports, ∀ r,
      checkSupport context problem.spec.horizon initial sim item ≠ .error (.infeasible r) := by
    intro item hitem
    refine checkSupport_met hlength ?_ (hjudged.support item hitem)
    rcases h.support item hitem with hidle | ⟨hholds, candidate, hcandidate, hexpression, htrue⟩
    · exact Or.inl hidle
    · exact Or.inr ⟨hholds, candidate, hcandidate, hexpression,
        fun guard hguard => (htrue guard hguard).congr hagree⟩
  unfold simulateState at hr
  simp only [hinitial, hrequirements, hupdates, hsim, ok_bind] at hr
  cases hforwards : problem.guardedForwards.forM
      (checkForward context problem.spec.horizon initial sim) with
  | error abort =>
      rw [hforwards, error_bind] at hr
      cases hr
      obtain ⟨item, hitem, hstops⟩ := exists_forM_error hforwards
      exact hforward item hitem r hstops
  | ok u =>
      rw [hforwards, ok_bind] at hr
      cases hsupports : problem.guardedSupports.forM
          (checkSupport context problem.spec.horizon initial sim) with
      | error abort =>
          rw [hsupports, error_bind] at hr
          cases hr
          obtain ⟨item, hitem, hstops⟩ := exists_forM_error hsupports
          exact hsupport item hitem r hstops
      | ok u =>
          rw [hsupports, ok_bind] at hr
          cases hr

/-! ## The steps of a simulation -/

section Steps

variable {requirements : List ActiveRequirement} {updates : List ActiveUpdate}

/-- The steps up to a cycle: one for every cycle with an active effect, in order,
with the states around it. -/
structure StepsUpTo (requirements : List ActiveRequirement) (updates : List ActiveUpdate)
    (n : Nat) (sim : Simulation) : Prop where
  length : sim.preStates.length = n
  ordered : sim.steps.Pairwise (fun a b => a.cycle < b.cycle)
  cycles : ∀ c, (∃ step ∈ sim.steps, step.cycle = c) ↔
    c < n ∧ ((∃ active ∈ requirements, active.cycle = c) ∨ ∃ active ∈ updates, active.cycle = c)
  around : ∀ step ∈ sim.steps, step.before.get? = sim.before step.cycle ∧
    step.after.get? = sim.before (step.cycle + 1)

/-- A cycle with an active effect adds one step, another cycle adds none. -/
theorem simulateCycle_steps {initial : Dict String Value} {sim sim' : Simulation} {c : Nat}
    (h : simulateCycle initial requirements updates sim c = .ok sim') :
    (sim'.steps = sim.steps ∧ ¬ ((∃ active ∈ requirements, active.cycle = c) ∨
        ∃ active ∈ updates, active.cycle = c)) ∨
      (((∃ active ∈ requirements, active.cycle = c) ∨ ∃ active ∈ updates, active.cycle = c) ∧
        ∃ step, sim'.steps = sim.steps ++ [step] ∧ step.cycle = c ∧
          step.before = sim.state ∧ step.after = sim'.state) := by
  obtain ⟨u, hrequired, h⟩ := bind_eq_ok.mp h
  obtain ⟨writing, hwriting, h⟩ := bind_eq_ok.mp h
  cases h
  have hrequirements : (requirements.filter (fun active => active.cycle = c)).isEmpty = true ↔
      ¬ ∃ active ∈ requirements, active.cycle = c := by simp
  have hupdates : (updates.filter (fun active => active.cycle = c)).isEmpty = true ↔
      ¬ ∃ active ∈ updates, active.cycle = c := by simp
  by_cases hempty : ((requirements.filter (fun active => active.cycle = c)).isEmpty &&
      (updates.filter (fun active => active.cycle = c)).isEmpty) = true
  · refine Or.inl ⟨if_pos hempty, ?_⟩
    rw [Bool.and_eq_true, hrequirements, hupdates] at hempty
    exact not_or.mpr hempty
  · refine Or.inr ⟨?_, _, if_neg hempty, rfl, rfl, rfl⟩
    rw [Bool.and_eq_true, hrequirements, hupdates, ← not_or, not_not] at hempty
    exact hempty

theorem simulate_steps {initial : Dict String Value} {n : Nat} {sim : Simulation}
    (h : (List.range n).foldlM (simulateCycle initial requirements updates) ⟨initial, [], []⟩ =
      .ok sim) : StepsUpTo requirements updates n sim := by
  induction n generalizing sim with
  | zero =>
      cases h
      exact ⟨rfl, .nil, by simp, by simp⟩
  | succ n ih =>
      rw [List.range_succ, List.foldlM_append] at h
      obtain ⟨sim₁, h₁, h₂⟩ := bind_eq_ok.mp h
      have hcycle : simulateCycle initial requirements updates sim₁ n = .ok sim := by
        simpa using h₂
      obtain ⟨hlength, hordered, hcycles, haround⟩ := ih h₁
      have hpre := (simulateCycle_eq_ok hcycle).2
      have hlength' : sim.preStates.length = n + 1 := by simp [hpre, hlength]
      have hbelow : ∀ step ∈ sim₁.steps, step.cycle < n :=
        fun step hstep => ((hcycles step.cycle).mp ⟨step, hstep, rfl⟩).1
      -- the states before the earlier cycles, and before this one, stay as they are
      have hold : ∀ c ≤ n, sim.before c = sim₁.before c :=
        fun c hc => Simulation.before_of_append hpre (by omega)
      have haround' : ∀ step ∈ sim₁.steps, step.before.get? = sim.before step.cycle ∧
          step.after.get? = sim.before (step.cycle + 1) := by
        intro step hstep
        have hlt := hbelow step hstep
        rw [hold step.cycle (by omega), hold (step.cycle + 1) (by omega)]
        exact haround step hstep
      rcases simulateCycle_steps hcycle with ⟨hsteps, hnone⟩ | ⟨hsome, step, hsteps, hn, hbefore,
        hafter⟩
      · refine ⟨hlength', hsteps ▸ hordered, fun c => ?_, hsteps ▸ haround'⟩
        rw [hsteps, hcycles c]
        constructor
        · rintro ⟨hlt, heffect⟩
          exact ⟨by omega, heffect⟩
        · rintro ⟨hlt, heffect⟩
          rcases Nat.lt_or_eq_of_le (Nat.le_of_lt_succ hlt) with hlt | rfl
          · exact ⟨hlt, heffect⟩
          · exact absurd heffect hnone
      · refine ⟨hlength', ?_, fun c => ?_, ?_⟩
        · rw [hsteps, List.pairwise_append]
          refine ⟨hordered, List.pairwise_singleton _ _, fun a ha b hb => ?_⟩
          rw [List.mem_singleton.mp hb, hn]
          exact hbelow a ha
        · rw [hsteps]
          constructor
          · rintro ⟨a, ha, rfl⟩
            rcases List.mem_append.mp ha with ha | ha
            · obtain ⟨hlt, heffect⟩ := (hcycles a.cycle).mp ⟨a, ha, rfl⟩
              exact ⟨by omega, heffect⟩
            · rw [List.mem_singleton.mp ha, hn]
              exact ⟨by omega, hsome⟩
          · rintro ⟨hlt, heffect⟩
            rcases Nat.lt_or_eq_of_le (Nat.le_of_lt_succ hlt) with hlt | rfl
            · obtain ⟨a, ha, hac⟩ := (hcycles c).mpr ⟨hlt, heffect⟩
              exact ⟨a, List.mem_append_left _ ha, hac⟩
            · exact ⟨step, List.mem_append_right _ (List.mem_singleton_self step), hn⟩
        · intro a ha
          rw [hsteps] at ha
          rcases List.mem_append.mp ha with ha | ha
          · exact haround' a ha
          · rw [List.mem_singleton.mp ha, hn, hbefore, hafter]
            have hlast := sim.before_length
            have hlast₁ := sim₁.before_length
            rw [hlength'] at hlast
            rw [hlength] at hlast₁
            rw [hold n le_rfl]
            exact ⟨hlast₁.symm, hlast.symm⟩

end Steps

/-- The collected effects of a cycle are its active effects. -/
theorem effectIn_iff {initial : Dict String Value} {requirements : List (Option ActiveRequirement)}
    {updates : List (Option ActiveUpdate)}
    (hrequirements : problem.stateRequirements.mapM
      (activeRequirement context problem.spec.horizon initial) = .ok requirements)
    (hupdates : problem.stateUpdates.mapM (activeUpdate context problem.spec.horizon initial) =
      .ok updates) {c : Nat} :
    ((∃ active ∈ requirements.filterMap id, active.cycle = c) ∨
      ∃ active ∈ updates.filterMap id, active.cycle = c) ↔ EffectIn problem context c := by
  refine or_congr ?_ ?_
  · constructor
    · rintro ⟨active, hactive, rfl⟩
      obtain ⟨r, hr, hf⟩ := (mem_active_iff hrequirements).mp hactive
      exact ⟨r, hr, active.expected, (activeRequirement_eq_some.mp hf).2⟩
    · rintro ⟨r, hr, v, hat⟩
      exact ⟨⟨r, c, v⟩, (mem_active_iff hrequirements).mpr
        ⟨r, hr, activeRequirement_eq_some.mpr ⟨rfl, hat⟩⟩, rfl⟩
  · constructor
    · rintro ⟨active, hactive, rfl⟩
      obtain ⟨u, hu, hf⟩ := (mem_active_iff hupdates).mp hactive
      exact ⟨u.state, active.value, u, hu, rfl, (activeUpdate_eq_some.mp hf).2⟩
    · rintro ⟨name, v, u, hu, rfl, hat⟩
      exact ⟨⟨u, c, v⟩, (mem_active_iff hupdates).mpr
        ⟨u, hu, activeUpdate_eq_some.mpr ⟨rfl, hat⟩⟩, rfl⟩

/-- An accepted simulation follows its run. -/
theorem follows_of_simulateState {result : StateCheckResult}
    (h : simulateState problem context = .ok result) {pre : CellStates}
    (hpre : ReferenceRun problem context pre) : Follows problem context result pre := by
  obtain ⟨initial, requirements, updates, sim, haccepted⟩ := accepted_of_simulateState h
  obtain ⟨-, hstart, -⟩ := simulate_eq_ok haccepted.simulated
  obtain ⟨hlength, hordered, hcycles, haround⟩ := simulate_steps haccepted.simulated
  have hsame : ∀ c ≤ problem.spec.horizon + 1, ∀ name,
      SameValue (sim.before c name) (pre c name) :=
    fun c hc name => haccepted.run.reference.unique hpre hc name
  have hlast := sim.before_length
  rw [hlength] at hlast
  rw [haccepted.result]
  refine ⟨fun name => ?_, fun name => ?_, hordered, fun c => ?_, fun step hstep name => ?_⟩
  · show SameValue (initial.get? name) _
    rw [← hstart]
    exact hsame 0 (Nat.zero_le _) name
  · show SameValue (sim.state.get? name) _
    rw [← hlast]
    exact hsame _ le_rfl name
  · rw [hcycles c, effectIn_iff haccepted.required haccepted.updated, Nat.lt_succ_iff]
  · have hinside := ((hcycles step.cycle).mp ⟨step, hstep, rfl⟩).1
    obtain ⟨hbefore, hafter⟩ := haround step hstep
    rw [hbefore, hafter]
    exact ⟨hsame _ (by omega) name, hsame _ (by omega) name⟩

/-- A result of the check does not depend on the order of the effects, and its
verdict and its states are those of the reference run. -/
structure MatchesReference (problem : BoundedProblem) (interpreter : Interpreter)
    (assignment : Dict String Value) (result : StateCheckResult) : Prop where
  relisted : ∀ problem' result',
    Relisted (problem.context interpreter assignment) problem problem' →
      checkStateSemantics problem' interpreter assignment = .ok result' →
        SameResult result result'
  verdict : GuardsJudged problem (problem.context interpreter assignment) →
    (result.feasible = true ↔
      ∃ pre, ReferenceRun problem (problem.context interpreter assignment) pre)
  states : result.feasible = true →
    ∃ pre, ReferenceRun problem (problem.context interpreter assignment) pre ∧
      Follows problem (problem.context interpreter assignment) result pre

theorem simulateState_of_feasible {interpreter : Interpreter} {assignment : Dict String Value}
    {result : StateCheckResult}
    (h : checkStateSemantics problem interpreter assignment = .ok result)
    (hfeasible : result.feasible = true) :
    simulateState problem (problem.context interpreter assignment) = .ok result := by
  unfold checkStateSemantics at h
  split at h
  · rename_i hsim
    cases h
    exact hsim
  · rename_i hsim
    cases h
    have hrejects : result.feasible = false := raises_simulateState _ hsim
    rw [hrejects] at hfeasible
    cases hfeasible
  · cases h

theorem stateSemantics_reference {interpreter : Interpreter} {assignment : Dict String Value}
    {result : StateCheckResult}
    (hresult : checkStateSemantics problem interpreter assignment = .ok result) :
    MatchesReference problem interpreter assignment result := by
  have hstates : result.feasible = true →
      ∃ pre, ReferenceRun problem (problem.context interpreter assignment) pre ∧
        Follows problem (problem.context interpreter assignment) result pre := by
    intro hfeasible
    have hsim := simulateState_of_feasible hresult hfeasible
    obtain ⟨-, pre, hrun, -⟩ := stateRun_of_simulateState hsim
    exact ⟨pre, hrun.reference, follows_of_simulateState hsim hrun.reference⟩
  refine ⟨fun _ _ hrelisted hresult' => checkStateSemantics_same hrelisted hresult hresult',
    fun hjudged => ⟨fun hfeasible => ?_, ?_⟩, hstates⟩
  · obtain ⟨pre, hpre, -⟩ := hstates hfeasible
    exact ⟨pre, hpre⟩
  · rintro ⟨pre, hpre⟩
    unfold checkStateSemantics at hresult
    split at hresult
    · rename_i h
      cases hresult
      exact (stateRun_of_simulateState h).1
    · rename_i h
      exact absurd h (hpre.not_rejected hjudged _)
    · cases hresult

/-! ## Requirements in two orders -/

def tickEvent : EventInstance where
  id := "tick"
  eventType := "Core.Tick"
  fields := .empty
  cycle := .concrete 0
  occurs := .known true
  id_ne := by decide
  eventType_ne := by decide
  cycle_sort := EventCycle.int_of_concrete 0
  occurs_sort := Occurs.bool_of_known true

/-- An observed event without a cycle. -/
def probeEvent : EventInstance where
  id := "probe"
  eventType := "Core.Probe"
  fields := .empty
  cycle := .absent
  occurs := .known true
  id_ne := by decide
  eventType_ne := by decide
  cycle_sort := EventCycle.int_of_absent
  occurs_sort := Occurs.bool_of_known true

def tickCatalog : EventCatalog :=
  ⟨.ofList [("Core.Tick", ⟨"Core.Tick", [], by decide, List.nodup_nil⟩),
    ("Core.Probe", ⟨"Core.Probe", [], by decide, List.nodup_nil⟩),
    ("Core.Done", ⟨"Core.Done", [], by decide, List.nodup_nil⟩)], by decide +kernel⟩

def tickTrace : Trace where
  events := [tickEvent, probeEvent]
  constraints := []
  isPartial := true
  nodup := by decide
  bool_constraints := Expr.bool_of_mem_nil

theorem phaseInitial_fits : (Term.value (.int 0)).fits .int = true := by decide

def phaseState : StateVariable where
  name := "Core.phase"
  sort := .int
  initial := .value (.int 0)
  qualified := by decide
  initial_fits := phaseInitial_fits

/-- The cell equals the value in the cycle of the role. -/
def phaseIs (atRole : String) (value : Expr) (h : atRole ≠ "") : StateRequirement where
  state := "Core.phase"
  atRole := atRole
  op := .eq
  value := value
  state_ne := by decide
  atRole_ne := h

def tickIsOne : StateRequirement := phaseIs "t" (.literal (.int 1) .int) (by decide)

def probeIsOne : StateRequirement := phaseIs "p" (.literal (.int 1) .int) (by decide)

/-- The expected value is `1 // 0`. -/
def tickIsQuotient : StateRequirement :=
  phaseIs "t" (.binary .div (.literal (.int 1) .int) (.literal (.int 0) .int)) (by decide)

def tickRoles : List EventRole :=
  [⟨"t", "Core.Tick", by decide, by decide⟩, ⟨"p", "Core.Probe", by decide, by decide⟩]

theorem doneRole_ne : "d" ≠ "" := by decide

/-- A rule that these requirements enable. -/
def guardedTick (requirements : List StateRequirement) : Transformation where
  name := "tick"
  inputs := tickRoles
  outputs := [⟨"d", "Core.Done", doneRole_ne, by decide⟩]
  when := .literal (.bool true) .bool
  outputWhen := .literal (.bool true) .bool
  ensure := []
  stateRequirements := requirements
  stateUpdates := []
  isExact := false
  stateMode := .guard
  name_ne := by decide
  roles_nodup := by decide
  when_bool := Expr.bool_of_true
  outputWhen_bool := Expr.bool_of_true
  ensure_bool := Expr.bool_of_mem_nil
  exact_output := fun h => nomatch h
  guard_outputs := fun _ => List.cons_ne_nil _ _
  guard_updates := fun _ => rfl

/-- A rule that makes these requirements when it fires. -/
def requiringTick (requirements : List StateRequirement) : Transformation where
  name := "tick"
  inputs := tickRoles
  outputs := []
  when := .literal (.bool true) .bool
  outputWhen := .literal (.bool true) .bool
  ensure := []
  stateRequirements := requirements
  stateUpdates := []
  isExact := false
  stateMode := .require
  name_ne := by decide
  roles_nodup := by decide
  when_bool := Expr.bool_of_true
  outputWhen_bool := Expr.bool_of_true
  ensure_bool := Expr.bool_of_mem_nil
  exact_output := Transformation.inexact_outputs
  guard_outputs := Transformation.require_outputs
  guard_updates := Transformation.require_updates

def tickSpec (t : Transformation) : CompletionSpec where
  slots := []
  transformations := [t]
  stateVariables := [phaseState]
  constraints := []
  horizon := 0
  slots_nodup := List.nodup_nil
  transformations_nodup := List.nodup_singleton _
  stateVariables_nodup := List.nodup_singleton _
  constraints_bool := Expr.bool_of_mem_nil

/-- The verdict of the check on the problem of one rule. -/
def tickVerdict (t : Transformation) : Except PyError Bool := do
  let problem ← buildProblem tickCatalog tickTrace (tickSpec t)
  let result ← checkStateSemantics problem .integers .empty
  return result.feasible

theorem guardedTick_matches : ∃ problem result,
    buildProblem tickCatalog tickTrace (tickSpec (guardedTick [tickIsOne])) = .ok problem ∧
      checkStateSemantics problem .integers .empty = .ok result ∧
      MatchesReference problem .integers .empty result :=
  ⟨_, _, rfl, rfl, stateSemantics_reference rfl⟩

/-- A guard that is false hides a later guard that cannot be judged, and a
requirement that is rejected hides a later one that raises. -/
theorem tickVerdict_depends :
    tickVerdict (guardedTick [tickIsOne, probeIsOne]) = .ok true ∧
      tickVerdict (guardedTick [probeIsOne, tickIsOne]) = .ok false ∧
      tickVerdict (requiringTick [probeIsOne, tickIsQuotient]) = .ok false ∧
      tickVerdict (requiringTick [tickIsQuotient, probeIsOne]) =
        .error (.solverError "division by zero in expression") := by
  refine ⟨?_, ?_, ?_, ?_⟩ <;> decide +kernel

end Umcm
