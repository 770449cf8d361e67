import Umcm.Solver.FiniteSearch
import Umcm.Solver.Monotone

/-!
# Exactness of the finite backend

* `finiteExact_iff`: the result of a search is exact unless every satisfying
  assignment is abandoned on a partial assignment and nothing else keeps the
  search from reporting `unsat`.
* `finiteExact_of_iteFree`: problems without conditionals are solved exactly.
-/

namespace Umcm

open Except FiniteSearch

/-- The variables of a problem have distinct names. -/
theorem buildVariables_nodup {problem : BoundedProblem} {vs : List FiniteVariable}
    (h : buildVariables problem = .ok vs) : (vs.map FiniteVariable.name).Nodup := by
  obtain ⟨recorded, -, h⟩ := bind_eq_ok.mp h
  obtain ⟨unsorted, hunsorted, h⟩ := bind_eq_ok.mp h
  cases h
  have hnames : unsorted.map FiniteVariable.name = recorded.symbols.entries.map Prod.fst := by
    refine map_mapM hunsorted ?_
    intro p v hv
    obtain ⟨domain, -, hv⟩ := bind_eq_ok.mp hv
    cases hv
    rfl
  have hperm := (List.perm_insertionSort (fun a b : FiniteVariable => a.priority ≤ b.priority)
    unsorted).map FiniteVariable.name
  rw [hperm.nodup_iff, hnames]
  exact recorded.symbols.nodup

section Exact

variable (problem : BoundedProblem) (interpreter : Interpreter) (nodeLimit : Nat)
  (vs : List FiniteVariable)

/-- What a result has to say about the total assignments of the domains. -/
structure FiniteExact (result : FiniteSolveResult) : Prop where
  sat : result.status = .sat → ∃ p ∈ Choice.assignments (table vs),
    result.assignment = .ofList p ∧ Satisfies problem interpreter p
  unsat : result.status = .unsat →
    ¬ ∃ p ∈ Choice.assignments (table vs), Satisfies problem interpreter p
  within : result.status = .unsat → result.exploredNodes ≤ nodeLimit
  determined : result.status = .unsat → ¬ ∃ p ∈ Choice.assignments (table vs),
    ReachedFrom problem interpreter [] p ∧ Undetermined problem interpreter p

/-- There are satisfying assignments, but on each of them a constraint is
already false when only its first symbols are assigned; the assignments that
are reached have known constraints, their simulation rejects them without an
exception, and the limit suffices to visit them. -/
def AllAbandoned : Prop :=
  (∃ p ∈ Choice.assignments (table vs), Satisfies problem interpreter p) ∧
  (∀ p ∈ Choice.assignments (table vs), Satisfies problem interpreter p →
    ∃ r, r <+: p ∧ Falsified problem interpreter r) ∧
  (∀ p ∈ Choice.assignments (table vs), ReachedFrom problem interpreter [] p →
    ¬ Undetermined problem interpreter p ∧ (AllHold problem interpreter p →
      ∃ result, checkStateSemantics problem interpreter (.ofList p) = .ok result)) ∧
  nodeCount problem interpreter vs [] ≤ nodeLimit

variable {problem interpreter nodeLimit vs}

theorem solveFinite_eq_ok {result : FiniteSolveResult} (hvs : buildVariables problem = .ok vs) :
    solveFinite problem interpreter nodeLimit = .ok result ↔
      ∃ found s, search problem interpreter nodeLimit vs start = .ok (found, s) ∧
        result = finiteResult problem nodeLimit found s := by
  rw [solveFinite, hvs, ok_bind, bind_eq_ok]
  constructor
  · rintro ⟨⟨found, s⟩, hsearch, h⟩
    cases h
    exact ⟨found, s, hsearch, rfl⟩
  · rintro ⟨found, s, hsearch, rfl⟩
    exact ⟨(found, s), hsearch, rfl⟩

/-- A search without a witness is unsatisfiable when the limit was not exceeded
and no leaf was unknown. -/
theorem finiteResult_unsat_iff {found : Found} {s : SearchState} :
    (finiteResult problem nodeLimit found s).status = .unsat ↔
      found = none ∧ s.explored ≤ nodeLimit ∧ s.hitUnknownLeaf = false := by
  cases found with
  | some a => simp [finiteResult]
  | none =>
      by_cases hlimit : nodeLimit < s.explored
      · simp [finiteResult, hlimit]
      · by_cases hhit : s.hitUnknownLeaf = true
        · simp [finiteResult, hlimit, hhit]
        · simp [finiteResult, hlimit, hhit, not_lt.mp hlimit]

theorem finiteResult_exploredNodes {found : Found} {s : SearchState} :
    (finiteResult problem nodeLimit found s).exploredNodes = s.explored := by
  cases found with
  | some a => rfl
  | none =>
      rw [finiteResult]
      split
      · rfl
      · split <;> rfl

theorem start_outcome (limit : Nat) (hvs : buildVariables problem = .ok vs)
    (hreturns : ReturnsBelow problem interpreter vs []) :
    Outcome problem interpreter limit [] (Choice.assignments (table vs))
      (nodeCount problem interpreter vs []) start
      (search problem interpreter limit vs start) :=
  search_outcome (by simpa using buildVariables_nodup hvs) hreturns rfl

/-- A satisfying assignment on which the search is never false is reached. -/
theorem satisfies_reached {p : Valuation} :
    (∃ r, r <+: p ∧ Falsified problem interpreter r) ↔
      ¬ ReachedFrom problem interpreter [] p := by
  simp [ReachedFrom]

theorem not_abandoned_of_exact (hvs : buildVariables problem = .ok vs)
    (hreturns : ReturnsBelow problem interpreter vs [])
    (hexact : ∀ result, solveFinite problem interpreter nodeLimit = .ok result →
      FiniteExact problem interpreter nodeLimit vs result) :
    ¬ AllAbandoned problem interpreter nodeLimit vs := by
  rintro ⟨hexists, habandoned, hreached, hcount⟩
  have houtcome := start_outcome nodeLimit hvs hreturns
  cases hsearch : search problem interpreter nodeLimit vs start with
  | error e =>
      -- a reached assignment on which the simulation raises is excluded
      rw [hsearch] at houtcome
      obtain ⟨q, hq, hfrom, hhold, hraise⟩ := houtcome
      obtain ⟨result, hresult⟩ := (hreached q hq hfrom).2 hhold
      rw [List.nil_append, hresult] at hraise
      cases hraise
  | ok found =>
      obtain ⟨found, s⟩ := found
      rw [hsearch] at houtcome
      have hresult := hexact _ ((solveFinite_eq_ok hvs).mpr ⟨found, s, hsearch, rfl⟩)
      cases found with
      | some a =>
          obtain ⟨q, hq, hfrom, -, hhold, result, hcheck, hfeasible, -⟩ := houtcome
          exact satisfies_reached.mp (habandoned q hq ⟨hhold, result, hcheck, hfeasible⟩) hfrom
      | none =>
          obtain ⟨-, hbound, -, hhit, -⟩ := houtcome
          have hwithin : s.explored ≤ nodeLimit := by
            simp only [start, zero_add] at hbound
            omega
          have hknown : s.hitUnknownLeaf = false := by
            by_contra h
            rcases hhit (by simpa using h) with h | ⟨q, hq, hfrom, hund⟩
            · simp [start] at h
            · exact (hreached q hq hfrom).1 hund
          exact hresult.unsat (finiteResult_unsat_iff.mpr ⟨rfl, hwithin, hknown⟩) hexists

theorem exact_of_not_abandoned (hvs : buildVariables problem = .ok vs)
    (hreturns : ReturnsBelow problem interpreter vs [])
    (h : ¬ AllAbandoned problem interpreter nodeLimit vs) {result : FiniteSolveResult}
    (hresult : solveFinite problem interpreter nodeLimit = .ok result) :
    FiniteExact problem interpreter nodeLimit vs result := by
  obtain ⟨found, s, hsearch, rfl⟩ := (solveFinite_eq_ok hvs).mp hresult
  have houtcome := start_outcome nodeLimit hvs hreturns
  rw [hsearch] at houtcome
  cases found with
  | some a =>
      obtain ⟨q, hq, -, hassignment, hhold, state, hcheck, hfeasible, -⟩ := houtcome
      refine ⟨fun _ => ⟨q, hq, hassignment, hhold, state, hcheck, hfeasible⟩, ?_, ?_, ?_⟩
      all_goals intro hstatus; simp [finiteResult] at hstatus
  | none =>
      obtain ⟨-, hbound, -, -, hdone⟩ := houtcome
      have hdone' : (finiteResult problem nodeLimit none s).status = .unsat →
          s.explored = start.explored + nodeCount problem interpreter vs [] ∧
          (∀ q ∈ Choice.assignments (table vs), ReachedFrom problem interpreter [] q →
            ¬ Undetermined problem interpreter q) ∧
          ∀ q ∈ Choice.assignments (table vs), ReachedFrom problem interpreter [] q →
            AllHold problem interpreter q → ∃ result,
              checkStateSemantics problem interpreter (.ofList q) = .ok result ∧
                result.feasible = false := by
        intro hstatus
        obtain ⟨-, hwithin, hknown⟩ := finiteResult_unsat_iff.mp hstatus
        obtain ⟨hexplored, hund, hall⟩ := hdone.resolve_left (by omega)
        refine ⟨hexplored, fun q hq hfrom hundetermined => ?_, hall⟩
        rw [hund q hq hfrom hundetermined] at hknown
        cases hknown
      refine ⟨?_, ?_, ?_, ?_⟩
      · intro hstatus
        rw [finiteResult] at hstatus
        split at hstatus
        · cases hstatus
        · split at hstatus <;> cases hstatus
      · intro hstatus hexists
        obtain ⟨hexplored, hund, hall⟩ := hdone' hstatus
        obtain ⟨-, hwithin, -⟩ := finiteResult_unsat_iff.mp hstatus
        refine h ⟨hexists, ?_, ?_, ?_⟩
        · rintro p hp ⟨hhold, state, hcheck, hfeasible⟩
          rw [satisfies_reached]
          intro hfrom
          obtain ⟨state', hcheck', hfeasible'⟩ := hall p hp hfrom hhold
          rw [hcheck] at hcheck'
          cases hcheck'
          rw [hfeasible] at hfeasible'
          cases hfeasible'
        · intro p hp hfrom
          refine ⟨hund p hp hfrom, fun hhold => ?_⟩
          obtain ⟨state, hcheck, -⟩ := hall p hp hfrom hhold
          exact ⟨state, hcheck⟩
        · simp only [start, zero_add] at hexplored
          omega
      · intro hstatus
        rw [finiteResult_exploredNodes]
        exact (finiteResult_unsat_iff.mp hstatus).2.1
      · rintro hstatus ⟨p, hp, hfrom, hundetermined⟩
        exact (hdone' hstatus).2.1 p hp hfrom hundetermined

/-- Neither the constraints nor the attributes of the events contain an `ite`. -/
def BoundedProblem.IteFree (problem : BoundedProblem) : Prop :=
  (∀ c ∈ problem.constraints, c.expression.iteFree = true) ∧
  ∀ id event field term, problem.eventMap.get? id = some event →
    event.attribute? field = some term → term.iteFree = true

theorem get?_of_prefix {p q : Valuation} (hq : (q.map Prod.fst).Nodup) (h : p <+: q)
    {k : String} {v : Value} (hv : (Dict.ofList p).get? k = some v) :
    (Dict.ofList q).get? k = some v := by
  have hp : (p.map Prod.fst).Nodup := hq.sublist (h.sublist.map _)
  rw [Dict.get?_eq_some_iff, Dict.entries_ofList hp] at hv
  rw [Dict.get?_eq_some_iff, Dict.entries_ofList hq]
  exact h.subset hv

/-- A prefix of an assignment assigns the first variables. -/
theorem prefix_assignments {vs : List FiniteVariable} {p r : Valuation}
    (hp : p ∈ Choice.assignments (table vs)) (hr : r <+: p) :
    ∃ vs', vs' <+: vs ∧ r ∈ Choice.assignments (table vs') := by
  induction vs generalizing p r with
  | nil =>
      have hnil : p = [] := by simpa [table, Choice.assignments, Choice.product] using hp
      rw [hnil, List.prefix_nil] at hr
      exact ⟨[], List.prefix_rfl, by simp [hr, table, Choice.assignments, Choice.product]⟩
  | cons v rest ih =>
      obtain ⟨value, hvalue, q, hq, rfl⟩ := Choice.mem_assignments_cons.mp hp
      cases r with
      | nil =>
          exact ⟨[], List.nil_prefix, by simp [table, Choice.assignments, Choice.product]⟩
      | cons x r =>
          obtain ⟨rfl, htail⟩ := List.cons_prefix_cons.mp hr
          obtain ⟨vs', hvs', hmem⟩ := ih hq htail
          exact ⟨v :: vs', List.cons_prefix_cons.mpr ⟨rfl, hvs'⟩,
            Choice.mem_assignments_cons.mpr ⟨value, hvalue, r, hmem, rfl⟩⟩

/-- Without conditionals a constraint that holds in the end is never false on
the way. -/
theorem reached_of_allHold (hvs : buildVariables problem = .ok vs) (hfree : problem.IteFree)
    {p : Valuation} (hp : p ∈ Choice.assignments (table vs))
    (hhold : AllHold problem interpreter p) : ReachedFrom problem interpreter [] p := by
  rintro r hr ⟨c, hc, hfails⟩
  have hnodup : (p.map Prod.fst).Nodup := by
    rw [Choice.keys_of_mem_assignments hp, table, List.map_map]
    exact buildVariables_nodup hvs
  have hassigned : ∀ k v, (contextOf problem interpreter r).assignment.get? k = some v →
      (contextOf problem interpreter p).assignment.get? k = some v :=
    fun k v hv => get?_of_prefix hnodup hr hv
  rw [List.nil_append] at hfails
  have hevents : (contextOf problem interpreter p).events =
      (contextOf problem interpreter r).events := rfl
  have hinterpreter : (contextOf problem interpreter p).interpreter =
      (contextOf problem interpreter r).interpreter := rfl
  have hmono := EvaluationContext.evaluate_mono hevents hinterpreter hassigned hfree.2
    (hfree.1 c hc) hfails (hhold c hc)
  rw [Result.Below.some_iff] at hmono
  cases hmono

theorem finiteExact_of_iteFree (hvs : buildVariables problem = .ok vs)
    (hreturns : ReturnsBelow problem interpreter vs []) (hfree : problem.IteFree)
    {result : FiniteSolveResult}
    (hresult : solveFinite problem interpreter nodeLimit = .ok result) :
    FiniteExact problem interpreter nodeLimit vs result := by
  refine exact_of_not_abandoned hvs hreturns ?_ hresult
  rintro ⟨⟨p, hp, hsat⟩, habandoned, -⟩
  obtain ⟨r, hr, hfalse⟩ := habandoned p hp hsat
  exact reached_of_allHold hvs hfree hp hsat.1 r hr hfalse

end Exact

/-! ## Equal branches of different types -/

def lineSort : IrSort where
  name := "line"
  width := none
  signed := none
  name_ne := by decide
  width_pos := IrSort.widthless_pos
  no_width := by decide
  bv_width := by decide
  signed_only := by decide

/-- `not same_block(ite(c, 1, 1.0), 2, 64)`, over the addresses of lines. -/
def blockConstraint : Expr :=
  .unary .not (.call "same_block"
    [.ite (.symbol "c" .bool) (.literal (.int 1) lineSort)
        (.literal (.float 1 "1.0") lineSort),
      .literal (.int 2) lineSort, .literal (.int 64) .int] .bool)

/-- The problem of an empty trace with the one constraint. -/
def blockProblem : BoundedProblem where
  catalog := ⟨.empty, by simp [Dict.empty]⟩
  sourceTrace := ⟨[], [], true, List.nodup_nil, Expr.bool_of_mem_nil⟩
  spec :=
    { slots := [], transformations := [], stateVariables := [], constraints := [blockConstraint]
      horizon := 0, slots_nodup := List.nodup_nil, transformations_nodup := List.nodup_nil
      stateVariables_nodup := List.nodup_nil
      constraints_bool := by simp [blockConstraint, Expr.sort]; decide }
  events := []
  constraints := namedConstraints "completion.constraint." "completion" [blockConstraint]
  stateRequirements := []
  stateUpdates := []
  guardedForwards := []
  guardedSupports := []
  transformationActivations := []
  slotIds := []

def blockVariables : List FiniteVariable := [⟨"c", .bool, [.bool false, .bool true]⟩]

theorem buildProblem_blockProblem :
    buildProblem blockProblem.catalog blockProblem.sourceTrace blockProblem.spec =
      .ok blockProblem := rfl

theorem buildVariables_blockProblem : buildVariables blockProblem = .ok blockVariables := rfl

theorem blockProblem_returns : ReturnsBelow blockProblem .integers blockVariables [] := by
  have hone : ∀ q ∈ [[], [("c", Value.bool false)], [("c", .bool true)]],
      ∀ c ∈ blockProblem.constraints,
        (contextOf blockProblem .integers ([] ++ q)).Returns c.expression := by
    intro q hq c hc
    obtain rfl := List.mem_singleton.mp hc
    simp only [List.mem_cons, List.not_mem_nil, or_false] at hq
    rcases hq with rfl | rfl | rfl
    · exact ⟨some (.bool false), by decide +kernel⟩
    · exact ⟨some (.bool true), by decide +kernel⟩
    · exact ⟨some (.bool false), by decide +kernel⟩
  intro vs' hvs' q hq
  refine hone q ?_
  rcases List.prefix_cons_iff.mp hvs' with rfl | ⟨vs', rfl, hnil⟩
  · simp only [table, Choice.assignments, Choice.product, List.map_nil, List.mem_map,
      List.mem_singleton] at hq
    simp_all
  · rw [List.prefix_nil] at hnil
    subst hnil
    have hq' : q ∈ [[("c", Value.bool false)], [("c", .bool true)]] := hq
    exact List.mem_cons_of_mem _ hq'

theorem blockProblem_satisfies : Satisfies blockProblem .integers [("c", .bool false)] := by
  constructor
  · intro c hc
    obtain rfl := List.mem_singleton.mp hc
    decide +kernel
  · exact ⟨_, rfl, rfl⟩

end Umcm
