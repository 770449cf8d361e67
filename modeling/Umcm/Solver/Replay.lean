import Umcm.Solver.Completed
import Umcm.Solver.StateRun

/-!
# Replay of the recorded steps

The rules that a completion reports as active are judged by the steps that the
simulation recorded, not by the states that it kept for its own guards. Only
cycles with effects have steps; the last step before a cycle leaves the state
before that cycle.

* `stateBefore_simulation`: the steps give the state before every cycle.
* `replayAgrees_iff`: both judgements of guards agree when every comparison that
  they reach is between numbers or between texts.
-/

namespace Umcm

open Except

namespace Replay

open StateCheck Completion StateRun

/-! ## States from steps -/

/-- The result of a simulation whose guarded rules are met. -/
def resultOf (initial : Dict String Value) (sim : Simulation) : StateCheckResult :=
  { feasible := true, initialState := initial, finalState := sim.state
    steps := sim.steps, reason := "" }

/-- A step more is the last one for the cycles after it. -/
theorem stateBefore_concat {state : StateCheckResult} {steps : List StateStep} {step : StateStep}
    (h : state.steps = steps ++ [step]) (c : Int) :
    stateBefore state c =
      if (step.cycle : Int) < c then step.after else stateBefore { state with steps := steps } c := by
  unfold stateBefore
  rw [h, List.filter_append]
  by_cases hlt : (step.cycle : Int) < c
  · simp [hlt]
  · simp [hlt]

/-- The simulation has recorded what happened before the cycles so far. -/
structure Recorded (initial : Dict String Value) (sim : Simulation) : Prop where
  past : ∀ step ∈ sim.steps, step.cycle < sim.preStates.length
  states : ∀ (c : Nat) state, sim.preStates[c]? = some state →
    stateBefore (resultOf initial sim) c = state
  last : ∀ c : Nat, sim.preStates.length ≤ c → stateBefore (resultOf initial sim) c = sim.state

theorem Recorded.start (initial : Dict String Value) : Recorded initial ⟨initial, [], []⟩ where
  past := fun step hstep => absurd hstep List.not_mem_nil
  states := fun c state h => by simp at h
  last := fun c _ => rfl

/-- A cycle without effects writes nothing. -/
theorem state_of_idle {initial : Dict String Value} {requirements : List ActiveRequirement}
    {updates : List ActiveUpdate} {sim sim' : Simulation} {c : Nat}
    (h : simulateCycle initial requirements updates sim c = .ok sim')
    (hidle : updates.filter (fun active => active.cycle = c) = []) : sim'.state = sim.state := by
  obtain ⟨u, -, h⟩ := bind_eq_ok.mp h
  obtain ⟨writing, hwriting, h⟩ := bind_eq_ok.mp h
  cases h
  rw [hidle] at hwriting
  cases hwriting
  rfl

/-- The steps after a cycle. -/
theorem steps_of_cycle {initial : Dict String Value} {requirements : List ActiveRequirement}
    {updates : List ActiveUpdate} {sim sim' : Simulation} {c : Nat}
    (h : simulateCycle initial requirements updates sim c = .ok sim') :
    sim'.preStates = sim.preStates ++ [sim.state] ∧
      (sim'.steps = sim.steps ∧ sim'.state = sim.state ∨
        ∃ step, sim'.steps = sim.steps ++ [step] ∧ step.cycle = c ∧ step.after = sim'.state) := by
  refine ⟨(simulateCycle_eq_ok h).2, ?_⟩
  by_cases hidle : (requirements.filter (fun active => active.cycle = c)).isEmpty &&
      (updates.filter (fun active => active.cycle = c)).isEmpty
  · left
    have hnone := (Bool.and_eq_true _ _).mp hidle
    refine ⟨?_, state_of_idle h (List.isEmpty_iff.mp hnone.2)⟩
    obtain ⟨u, -, h⟩ := bind_eq_ok.mp h
    obtain ⟨writing, -, h⟩ := bind_eq_ok.mp h
    cases h
    exact if_pos hidle
  · right
    obtain ⟨u, -, h⟩ := bind_eq_ok.mp h
    obtain ⟨writing, -, h⟩ := bind_eq_ok.mp h
    cases h
    exact ⟨_, if_neg hidle, rfl, rfl⟩

theorem Recorded.step {initial : Dict String Value} {requirements : List ActiveRequirement}
    {updates : List ActiveUpdate} {sim sim' : Simulation} (hrecorded : Recorded initial sim)
    (h : simulateCycle initial requirements updates sim sim.preStates.length = .ok sim') :
    Recorded initial sim' := by
  have hcycle := steps_of_cycle h
  have hpre := hcycle.1
  have hlength : sim'.preStates.length = sim.preStates.length + 1 := by simp [hpre]
  -- the steps give the old states as before, and the new state after the cycle
  have hreplay : (∀ c : Nat, c ≤ sim.preStates.length →
        stateBefore (resultOf initial sim') c = stateBefore (resultOf initial sim) c) ∧
      ∀ c : Nat, sim.preStates.length < c → stateBefore (resultOf initial sim') c = sim'.state := by
    rcases hcycle.2 with ⟨hsteps, hstate⟩ | ⟨step, hsteps, hat, hafter⟩
    · have hsame : ∀ c, stateBefore (resultOf initial sim') c =
          stateBefore (resultOf initial sim) c := by
        intro c
        unfold stateBefore resultOf
        rw [hsteps]
      refine ⟨fun c _ => hsame c, fun c hc => ?_⟩
      rw [hsame, hrecorded.last c (by omega), hstate]
    · have hconcat : ∀ c : Int, stateBefore (resultOf initial sim') c =
          if (step.cycle : Int) < c then step.after else stateBefore (resultOf initial sim) c :=
        @stateBefore_concat (resultOf initial sim') sim.steps step hsteps
      constructor
      · intro c hc
        rw [hconcat, if_neg (by omega)]
      · intro c hc
        rw [hconcat, if_pos (by omega), hafter]
  constructor
  case past =>
    intro step hstep
    rcases hcycle.2 with ⟨hsteps, -⟩ | ⟨new, hsteps, hat, -⟩
    · rw [hsteps] at hstep
      have hlt := hrecorded.past step hstep
      omega
    · rw [hsteps, List.mem_append, List.mem_singleton] at hstep
      rcases hstep with hold | rfl
      · have hlt := hrecorded.past step hold
        omega
      · omega
  case states =>
    intro c state hstate
    rw [hpre] at hstate
    rcases Nat.lt_trichotomy c sim.preStates.length with hlt | rfl | hlt
    · rw [List.getElem?_append_left hlt] at hstate
      rw [hreplay.1 c (by omega)]
      exact hrecorded.states c state hstate
    · rw [List.getElem?_concat_length] at hstate
      cases hstate
      rw [hreplay.1 _ le_rfl]
      exact hrecorded.last _ le_rfl
    · rw [List.getElem?_eq_none (by simp; omega)] at hstate
      cases hstate
  case last =>
    intro c hc
    exact hreplay.2 c (by omega)

/-- The steps give the state before every cycle. -/
theorem recorded_simulate {initial : Dict String Value} {requirements : List ActiveRequirement}
    {updates : List ActiveUpdate} {n : Nat} {sim : Simulation}
    (h : (List.range n).foldlM (simulateCycle initial requirements updates) ⟨initial, [], []⟩ =
      .ok sim) : Recorded initial sim := by
  induction n generalizing sim with
  | zero =>
      cases h
      exact Recorded.start initial
  | succ n ih =>
      rw [List.range_succ, List.foldlM_append] at h
      obtain ⟨sim₁, h₁, h₂⟩ := bind_eq_ok.mp h
      have hlength := (simulate_eq_ok h₁).1
      subst hlength
      exact (ih h₁).step (by simpa using h₂)

/-! ## Both judgements -/

/-- The initial state and the simulation of `check_state_semantics`. -/
def simulation (problem : BoundedProblem) (context : EvaluationContext) :
    Except StateAbort (Dict String Value × Simulation) := do
  let horizon := problem.spec.horizon
  let initial ← initialState context problem.spec.stateVariables
  let requirements ← problem.stateRequirements.mapM (activeRequirement context horizon initial)
  let updates ← problem.stateUpdates.mapM (activeUpdate context horizon initial)
  let sim ← simulate horizon initial (requirements.filterMap id) (updates.filterMap id)
  return (initial, sim)

/-- The states before the cycles of the run. -/
def statesBefore (problem : BoundedProblem) (context : EvaluationContext) : CellStates :=
  match simulation problem context with
  | .ok (_, sim) => sim.before
  | .error _ => fun _ _ => none

/-- Whether `_guard_predicates_hold` returns `True` first; for a predicate that
stays unresolved it returns `None`. -/
def guardsVerdict (context : EvaluationContext) (horizon : Nat) (initial : Dict String Value)
    (sim : Simulation) (predicates : List GuardPredicateInstance) : Except PyError Bool :=
  match guardPredicatesHold context horizon initial sim "" predicates with
  | .ok holds => .ok holds
  | .error (.infeasible _) => .ok false
  | .error (.raised e) => .error e

/-- The judgement on the steps returns, with the verdict of the solver on the
states before the cycles. -/
def ReplayAgrees (problem : BoundedProblem) (context : EvaluationContext)
    (result : StateCheckResult) (predicates : List GuardPredicateInstance) : Prop :=
  ∃ initial sim holds, simulation problem context = .ok (initial, sim) ∧
    guardsVerdict context problem.spec.horizon initial sim predicates = .ok holds ∧
    statePredicatesHold context result predicates = .ok holds

/-- Both values are numbers, or both are texts. -/
def Ordered (v w : Value) : Prop :=
  (∃ p q, v.key = .num p ∧ w.key = .num q) ∨ ∃ s t, v.key = .str s ∧ w.key = .str t

/-- The values of the guards can be evaluated, and up to the first guard that
fails or stays unresolved, cells are declared and compared with values of their kind. -/
def Comparable (context : EvaluationContext) (pre : CellStates) :
    List GuardPredicateInstance → Prop
  | [] => True
  | predicate :: rest =>
    ∃ r, context.evaluate predicate.expected = .ok r ∧
      ∀ v, r = some v → ∀ c : Nat, context.evaluate predicate.cycle = .ok (some (.int c)) →
        ∃ actual, pre c predicate.state = some actual ∧ Ordered actual v ∧
          (predicate.op.compare actual v = .ok true → Comparable context pre rest)

theorem pyLt_returns_iff {v w : Value} : (∃ b, v.pyLt w = .ok b) ↔ Ordered v w := by
  unfold Value.pyLt Ordered
  cases hv : v.key <;> cases hw : w.key <;> simp

theorem Ordered.symm {v w : Value} (h : Ordered v w) : Ordered w v := by
  rcases h with ⟨p, q, hp, hq⟩ | ⟨s, t, hs, ht⟩
  · exact Or.inl ⟨q, p, hq, hp⟩
  · exact Or.inr ⟨t, s, ht, hs⟩

/-- Of values that are ordered, both judgements compare alike. -/
theorem compare_of_ordered {v w : Value} (h : Ordered v w) (op : CompareOp) :
    ∃ b, op.compare v w = .ok b ∧ comparison op v w = .ok b := by
  obtain ⟨lt, hlt⟩ := pyLt_returns_iff.mpr h
  obtain ⟨gt, hgt⟩ := pyLt_returns_iff.mpr h.symm
  have hle : v.pyLe w = .ok (!gt) := by
    unfold Value.pyLe
    rw [hgt]
    rfl
  have hge : w.pyLe v = .ok (!lt) := by
    unfold Value.pyLe
    rw [hlt]
    rfl
  unfold comparison CompareOp.compare
  rw [hlt, hle, hgt, hge]
  cases op <;> exact ⟨_, rfl, rfl⟩

theorem ordered_of_comparison {op : CompareOp} {v w : Value} {b : Bool}
    (h : comparison op v w = .ok b) : Ordered v w := by
  obtain ⟨lt, hlt, -⟩ := bind_eq_ok.mp h
  exact pyLt_returns_iff.mp ⟨lt, hlt⟩

section Judgements

variable {context : EvaluationContext} {horizon : Nat} {initial : Dict String Value}
  {sim : Simulation}

/-- A guard reads the state before its cycle. -/
theorem guardPredicateHolds_eq {label : String} {predicate : GuardPredicateInstance} {c : Nat}
    (hc : c ≤ horizon) (hcycle : context.evaluate predicate.cycle = .ok (some (.int c)))
    (hlength : sim.preStates.length = horizon + 1) {v : Value}
    (hexpected : context.evaluate predicate.expected = .ok (some v)) :
    guardPredicateHolds context horizon initial sim label predicate =
      match sim.before c predicate.state with
      | none => .error (.raised .keyError)
      | some actual => (predicate.op.compare actual v).mapError .raised := by
  have hvalid : validCycle horizon (some (.int c)) = some c := validCycle_eq_some.mpr ⟨rfl, hc⟩
  have hbefore : ((sim.preStates[c]?).getD .empty).get? predicate.state =
      sim.before c predicate.state := by
    unfold Simulation.before
    rw [List.getElem?_eq_getElem (by omega)]
    rfl
  unfold guardPredicateHolds
  rw [concrete_eq_ok.mpr hcycle, concrete_eq_ok.mpr hexpected, ok_bind, ok_bind, hvalid]
  show cell ((sim.preStates[c]?).getD .empty) predicate.state >>= _ = _
  unfold cell
  rw [hbefore]
  cases sim.before c predicate.state <;> rfl

/-- A guard whose value is unknown stays unresolved. -/
theorem guardPredicateHolds_unresolved {label : String} {predicate : GuardPredicateInstance}
    {r : Result} (hcycle : context.evaluate predicate.cycle = .ok r)
    (hexpected : context.evaluate predicate.expected = .ok none) :
    ∃ result, guardPredicateHolds context horizon initial sim label predicate =
      .error (.infeasible result) := by
  unfold guardPredicateHolds
  rw [concrete_eq_ok.mpr hcycle, concrete_eq_ok.mpr hexpected, ok_bind, ok_bind]
  cases validCycle horizon r <;> exact ⟨_, rfl⟩

/-- The judgement of the solver on the first guard. -/
theorem guardsVerdict_cons {predicate : GuardPredicateInstance}
    {rest : List GuardPredicateInstance} {c : Nat} (hc : c ≤ horizon)
    (hcycle : context.evaluate predicate.cycle = .ok (some (.int c)))
    (hlength : sim.preStates.length = horizon + 1) {v : Value}
    (hexpected : context.evaluate predicate.expected = .ok (some v)) :
    guardsVerdict context horizon initial sim (predicate :: rest) =
      match sim.before c predicate.state with
      | none => .error .keyError
      | some actual => predicate.op.compare actual v >>= fun holds =>
        if holds then guardsVerdict context horizon initial sim rest else .ok false := by
  rw [guardsVerdict, guardPredicatesHold, guardPredicateHolds_eq hc hcycle hlength hexpected]
  cases sim.before c predicate.state with
  | none => rfl
  | some actual =>
      cases hcompare : predicate.op.compare actual v with
      | error e =>
          simp only [hcompare]
          rfl
      | ok holds =>
          simp only [hcompare]
          cases holds <;> rfl

theorem guardsVerdict_unresolved {predicate : GuardPredicateInstance}
    {rest : List GuardPredicateInstance} {r : Result}
    (hcycle : context.evaluate predicate.cycle = .ok r)
    (hexpected : context.evaluate predicate.expected = .ok none) :
    guardsVerdict context horizon initial sim (predicate :: rest) = .ok false := by
  unfold guardsVerdict guardPredicatesHold
  obtain ⟨result, hresult⟩ := @guardPredicateHolds_unresolved context horizon initial
    sim "" _ _ hcycle hexpected
  rw [hresult]
  rfl

/-- The judgement on the steps on the first guard. -/
theorem statePredicatesHold_cons {result : StateCheckResult} {predicate : GuardPredicateInstance}
    {rest : List GuardPredicateInstance} {c : Nat}
    (hcycle : context.evaluate predicate.cycle = .ok (some (.int c))) {v : Value}
    (hexpected : context.evaluate predicate.expected = .ok (some v)) :
    statePredicatesHold context result (predicate :: rest) =
      match (stateBefore result c).get? predicate.state with
      | none => .ok false
      | some actual => comparison predicate.op actual v >>= fun holds =>
        if holds then statePredicatesHold context result rest else .ok false := by
  rw [statePredicatesHold, statePredicateHolds, hcycle, hexpected, ok_bind, ok_bind]
  cases hcell : (stateBefore result c).get? predicate.state with
  | none =>
      simp only [hcell]
      rfl
  | some actual => simp only [hcell]

theorem statePredicatesHold_unresolved {result : StateCheckResult}
    {predicate : GuardPredicateInstance} {rest : List GuardPredicateInstance} {c : Nat}
    (hcycle : context.evaluate predicate.cycle = .ok (some (.int c)))
    (hexpected : context.evaluate predicate.expected = .ok none) :
    statePredicatesHold context result (predicate :: rest) = .ok false := by
  rw [statePredicatesHold, statePredicateHolds, hcycle, hexpected, ok_bind, ok_bind]
  cases hcell : (stateBefore result c).get? predicate.state <;>
    (simp only [hcell]; rfl)

theorem evaluate_of_statePredicatesHold {result : StateCheckResult}
    {predicate : GuardPredicateInstance} {rest : List GuardPredicateInstance} {holds : Bool}
    (h : statePredicatesHold context result (predicate :: rest) = .ok holds) :
    ∃ r, context.evaluate predicate.expected = .ok r := by
  unfold statePredicatesHold statePredicateHolds at h
  obtain ⟨first, h, -⟩ := bind_eq_ok.mp h
  obtain ⟨cycle, -, h⟩ := bind_eq_ok.mp h
  obtain ⟨r, hr, -⟩ := bind_eq_ok.mp h
  exact ⟨r, hr⟩

/-- Both judgements return one verdict exactly on comparable guards. -/
theorem verdicts_agree_iff {result : StateCheckResult}
    (hlength : sim.preStates.length = horizon + 1)
    (hreplay : ∀ c : Nat, c ≤ horizon → (stateBefore result c).get? = sim.before c)
    {predicates : List GuardPredicateInstance}
    (hanchors : ∀ predicate ∈ predicates, ∃ c : Nat, c ≤ horizon ∧
      context.evaluate predicate.cycle = .ok (some (.int c))) :
    (∃ holds, guardsVerdict context horizon initial sim predicates = .ok holds ∧
        statePredicatesHold context result predicates = .ok holds) ↔
      Comparable context sim.before predicates := by
  induction predicates with
  | nil => exact iff_of_true ⟨true, rfl, rfl⟩ trivial
  | cons predicate rest ih =>
      obtain ⟨c, hc, hcycle⟩ := hanchors predicate List.mem_cons_self
      have ih := ih (fun p hp => hanchors p (List.mem_cons_of_mem _ hp))
      unfold Comparable
      constructor
      · rintro ⟨holds, hsolver, hsteps⟩
        obtain ⟨r, hr⟩ := evaluate_of_statePredicatesHold hsteps
        refine ⟨r, hr, fun v hv c' hc' => ?_⟩
        rw [hcycle] at hc'
        obtain rfl : c = c' := by simpa using hc'
        subst hv
        rw [guardsVerdict_cons hc hcycle hlength hr] at hsolver
        rw [statePredicatesHold_cons hcycle hr, hreplay c hc] at hsteps
        cases hactual : sim.before c predicate.state with
        | none =>
            -- the solver raises for a cell that is not declared
            rw [hactual] at hsolver
            cases hsolver
        | some actual =>
            rw [hactual] at hsolver hsteps
            obtain ⟨first, hfirst, hrest⟩ := bind_eq_ok.mp hsteps
            have hordered := ordered_of_comparison hfirst
            obtain ⟨b, hcompare, hcomparison⟩ := compare_of_ordered hordered predicate.op
            rw [hcomparison] at hfirst
            cases hfirst
            refine ⟨actual, rfl, hordered, fun htrue => ?_⟩
            rw [hcompare] at htrue
            cases htrue
            simp only [hcompare, ok_bind] at hsolver
            exact ih.mp ⟨holds, hsolver, hrest⟩
      · rintro ⟨r, hr, hcomparable⟩
        rcases r with _ | v
        · exact ⟨false, guardsVerdict_unresolved hcycle hr,
            statePredicatesHold_unresolved hcycle hr⟩
        · obtain ⟨actual, hactual, hordered, hrest⟩ := hcomparable v rfl c hcycle
          obtain ⟨b, hcompare, hcomparison⟩ := compare_of_ordered hordered predicate.op
          rw [guardsVerdict_cons hc hcycle hlength hr, statePredicatesHold_cons hcycle hr,
            hreplay c hc, hactual]
          simp only [hcompare, hcomparison, ok_bind]
          cases b with
          | false => exact ⟨false, rfl, rfl⟩
          | true => exact ih.mpr (hrest hcompare)

end Judgements

section Result

variable {problem : BoundedProblem} {interpreter : Interpreter} {assignment : Dict String Value}
  {result : StateCheckResult}

/-- An accepted run comes from the simulation. -/
theorem simulation_of_feasible (h : checkStateSemantics problem interpreter assignment = .ok result)
    (hfeasible : result.feasible = true) :
    ∃ initial sim, simulation problem (problem.context interpreter assignment) =
        .ok (initial, sim) ∧ result = resultOf initial sim ∧ Recorded initial sim ∧
      sim.preStates.length = problem.spec.horizon + 1 := by
  unfold checkStateSemantics at h
  cases hrun : simulateState problem (problem.context interpreter assignment) with
  | error abort =>
      rw [hrun] at h
      cases abort with
      | raised e => cases h
      | infeasible rejected =>
          cases h
          have hrejects : result.feasible = false := raises_simulateState _ hrun
          rw [hrejects] at hfeasible
          cases hfeasible
  | ok accepted =>
      rw [hrun] at h
      cases h
      obtain ⟨initial, hinitial, hrun⟩ := bind_eq_ok.mp hrun
      obtain ⟨requirements, hrequirements, hrun⟩ := bind_eq_ok.mp hrun
      obtain ⟨updates, hupdates, hrun⟩ := bind_eq_ok.mp hrun
      obtain ⟨sim, hsim, hrun⟩ := bind_eq_ok.mp hrun
      obtain ⟨-, -, hrun⟩ := bind_eq_ok.mp hrun
      obtain ⟨-, -, hrun⟩ := bind_eq_ok.mp hrun
      cases hrun
      refine ⟨initial, sim, ?_, rfl, recorded_simulate hsim, (simulate_eq_ok hsim).1⟩
      exact bind_eq_ok.mpr ⟨initial, hinitial, bind_eq_ok.mpr ⟨requirements, hrequirements,
        bind_eq_ok.mpr ⟨updates, hupdates, bind_eq_ok.mpr ⟨sim, hsim, rfl⟩⟩⟩⟩

/-- The steps give the states before the cycles of the run. -/
theorem stateBefore_simulation {initial : Dict String Value} {sim : Simulation}
    (hrecorded : Recorded initial sim)
    (hlength : sim.preStates.length = problem.spec.horizon + 1) {c : Nat}
    (hc : c ≤ problem.spec.horizon) :
    (stateBefore (resultOf initial sim) c).get? = sim.before c := by
  have hlt : c < sim.preStates.length := by omega
  unfold Simulation.before
  rw [List.getElem?_eq_getElem hlt, hrecorded.states c _ (List.getElem?_eq_getElem hlt)]
  rfl

/-- The judgements agree exactly when the guards are comparable. -/
theorem replayAgrees_iff (h : checkStateSemantics problem interpreter assignment = .ok result)
    (hfeasible : result.feasible = true) {predicates : List GuardPredicateInstance}
    (hanchors : ∀ predicate ∈ predicates, ∃ c : Nat, c ≤ problem.spec.horizon ∧
      (problem.context interpreter assignment).evaluate predicate.cycle = .ok (some (.int c))) :
    ReplayAgrees problem (problem.context interpreter assignment) result predicates ↔
      Comparable (problem.context interpreter assignment)
        (statesBefore problem (problem.context interpreter assignment)) predicates := by
  obtain ⟨initial, sim, hsim, rfl, hrecorded, hlength⟩ := simulation_of_feasible h hfeasible
  have hbefore : statesBefore problem (problem.context interpreter assignment) = sim.before := by
    unfold statesBefore
    rw [hsim]
  have hverdicts : (∃ holds,
      guardsVerdict (problem.context interpreter assignment) problem.spec.horizon initial sim
        predicates = .ok holds ∧
      statePredicatesHold (problem.context interpreter assignment) (resultOf initial sim)
        predicates = .ok holds) ↔
      Comparable (problem.context interpreter assignment) sim.before predicates :=
    verdicts_agree_iff hlength (fun c hc => stateBefore_simulation hrecorded hlength hc) hanchors
  rw [hbefore, ← hverdicts]
  constructor
  · rintro ⟨initial', sim', holds, hsim', hverdict, hsteps⟩
    rw [hsim] at hsim'
    cases hsim'
    exact ⟨holds, hverdict, hsteps⟩
  · rintro ⟨holds, hverdict, hsteps⟩
    exact ⟨initial, sim, holds, hsim, hverdict, hsteps⟩

end Result

/-! ## A cell of mixed values -/

def phaseSort : IrSort where
  name := "phase"
  width := none
  signed := none
  name_ne := by decide
  width_pos := IrSort.widthless_pos
  no_width := by decide
  bv_width := by decide
  signed_only := by decide

/-- A cell of a domain sort that starts with a number. -/
def phaseCell : StateVariable where
  name := "M.phase"
  sort := phaseSort
  initial := .value (.int 0)
  qualified := by decide
  initial_fits := by decide

def phaseSpec : CompletionSpec :=
  { emptySpec with
    stateVariables := [phaseCell]
    stateVariables_nodup := by decide }

/-- The cell equals the value in the cycle of the event. -/
def phaseGuard (expected : Value) : GuardPredicateInstance :=
  ⟨"M.phase", .eventField "stall" "cycle" .int, .eq, .literal expected phaseSort⟩

def phaseProblem : BoundedProblem where
  catalog := stallCatalog
  sourceTrace := stallTrace
  spec := phaseSpec
  events := [stallEvent]
  constraints := []
  stateRequirements := []
  stateUpdates := []
  guardedForwards := []
  guardedSupports := []
  transformationActivations := []
  slotIds := []

theorem phaseProblem_anchors (expected : Value) : ∀ predicate ∈ [phaseGuard expected], ∃ c : Nat,
    c ≤ phaseProblem.spec.horizon ∧ (phaseProblem.context .integers .empty).evaluate
      predicate.cycle = .ok (some (.int c)) := by
  intro predicate hpredicate
  obtain rfl := List.mem_singleton.mp hpredicate
  exact ⟨0, le_rfl, rfl⟩

/-- A guard that compares the number with a name is false for the solver, and
judging it on the steps raises. -/
theorem phaseProblem_not_agrees : ∃ result,
    checkStateSemantics phaseProblem .integers .empty = .ok result ∧ result.feasible = true ∧
      ¬ ReplayAgrees phaseProblem (phaseProblem.context .integers .empty) result
        [phaseGuard (.str "IDLE")] := by
  refine ⟨_, rfl, rfl, ?_⟩
  rintro ⟨initial, sim, holds, -, -, hsteps⟩
  cases hsteps

theorem phaseProblem_agrees_iff : ∃ result,
    checkStateSemantics phaseProblem .integers .empty = .ok result ∧
      (ReplayAgrees phaseProblem (phaseProblem.context .integers .empty) result
          [phaseGuard (.int 1)] ↔
        Comparable (phaseProblem.context .integers .empty)
          (statesBefore phaseProblem (phaseProblem.context .integers .empty))
          [phaseGuard (.int 1)]) :=
  ⟨_, rfl, replayAgrees_iff rfl rfl (phaseProblem_anchors _)⟩

end Replay

end Umcm
