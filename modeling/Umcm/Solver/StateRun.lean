import Umcm.Solver.State
import Umcm.Solver.Truth

/-!
# Runs of the state cells

What an accepted simulation means: the values of the cells before every cycle,
and what the effects of a problem demand of these values. A requirement compares
the cell before its cycle, the writes of a cycle agree and become visible after
it, and the guards of a rule compare the cells before the cycles of their anchors.

* `simulateState_isOk_iff`: the simulation accepts exactly when there is a run.
* `StateRun.kept`, `StateRun.written`: what one cycle does to a cell.
-/

namespace Umcm

open Except StateCheck

/-- The value of every cell before every cycle. -/
abbrev CellStates := Nat → String → Option Value

namespace EvaluationContext

variable (context : EvaluationContext)

/-- The expression evaluates to a value that is not true. -/
def Idle (e : Expr) : Prop := ∃ v, context.evaluate e = .ok (some v) ∧ v ≠ .bool true

/-- The effect is active in a cycle within the horizon, with a value. -/
structure ActiveAt (horizon : Nat) (activation cycle value : Expr) (c : Nat) (v : Value) :
    Prop where
  holds : context.Holds activation
  cycle_eq : context.evaluate cycle = .ok (some (.int c))
  inside : c ≤ horizon
  value_eq : context.evaluate value = .ok (some v)

variable {context} {horizon : Nat}

theorem Holds.not_idle {e : Expr} (h : context.Holds e) : ¬ context.Idle e := by
  rintro ⟨v, hv, hne⟩
  rw [Holds, hv] at h
  cases h
  exact hne rfl

theorem ActiveAt.unique {activation cycle value : Expr} {c c' : Nat} {v v' : Value}
    (h : context.ActiveAt horizon activation cycle value c v)
    (h' : context.ActiveAt horizon activation cycle value c' v') : c = c' ∧ v = v' := by
  have hc := h.cycle_eq.symm.trans h'.cycle_eq
  have hv := h.value_eq.symm.trans h'.value_eq
  simp only [Except.ok.injEq, Option.some.injEq, Value.int.injEq, Nat.cast_inj] at hc hv
  exact ⟨hc, hv⟩

end EvaluationContext

/-! ## What a run demands -/

namespace StateRun

variable (context : EvaluationContext) (horizon : Nat)

/-- The value that the update writes to the cell in the cycle, if it is active. -/
def activeWrite (c : Nat) (name : String) (update : StateUpdateInstance) : Option Value :=
  if update.state = name ∧ context.Holds update.activation ∧
      context.evaluate update.cycle = .ok (some (.int c)) then
    (context.evaluate update.value).toOption.join
  else none

/-- The writes of a cycle agree, and the first of them is the new value. -/
def Written (writes : List Value) (before after : Option Value) : Prop :=
  match writes with
  | [] => after = before
  | v :: rest => (∀ w ∈ rest, w.pyEq v = true) ∧ before.isSome ∧ after = some v

/-- The guard is evaluated in a cycle within the horizon, and the comparison
returns `result`. -/
def Compared (pre : CellStates) (guard : GuardPredicateInstance) (result : Bool) : Prop :=
  ∃ c v actual, context.evaluate guard.cycle = .ok (some (.int (c : Nat))) ∧ c ≤ horizon ∧
    context.evaluate guard.expected = .ok (some v) ∧ pre c guard.state = some actual ∧
    guard.op.compare actual v = .ok result

/-- The guards hold, or one of them does not and those before it hold. -/
def GuardsReturn (pre : CellStates) : List GuardPredicateInstance → Bool → Prop
  | [], result => result = true
  | guard :: rest, result => (Compared context horizon pre guard false ∧ result = false) ∨
      (Compared context horizon pre guard true ∧ GuardsReturn pre rest result)

def ForwardMet (pre : CellStates) (item : GuardedForwardInstance) : Prop :=
  context.Idle item.antecedent ∨ (context.Holds item.antecedent ∧
    (GuardsReturn context horizon pre item.predicates false ∨
      (GuardsReturn context horizon pre item.predicates true ∧ context.Holds item.consequent)))

/-- A candidate holds with its guards, and those before it do not. -/
def Supported (pre : CellStates) : List GuardedSupportCandidate → Prop
  | [] => False
  | candidate :: rest =>
    (context.Holds candidate.expression ∧
      GuardsReturn context horizon pre candidate.predicates true) ∨
    (((context.Returns candidate.expression ∧ ¬ context.Holds candidate.expression) ∨
      (context.Holds candidate.expression ∧
        GuardsReturn context horizon pre candidate.predicates false)) ∧ Supported pre rest)

def SupportMet (pre : CellStates) (item : GuardedSupportInstance) : Prop :=
  context.Idle item.antecedent ∨
    (context.Holds item.antecedent ∧ Supported context horizon pre item.supports)

def RequirementMet (pre : CellStates) (requirement : StateRequirementInstance) : Prop :=
  context.Idle requirement.activation ∨ ∃ c v actual,
    context.ActiveAt horizon requirement.activation requirement.cycle requirement.expected c v ∧
    pre c requirement.state = some actual ∧ requirement.op.compare actual v = .ok true

def UpdateDecided (update : StateUpdateInstance) : Prop :=
  context.Idle update.activation ∨ ∃ c v,
    context.ActiveAt horizon update.activation update.cycle update.value c v

end StateRun

open StateRun in
/-- The values of the cells in an accepted simulation. -/
structure StateRun (problem : BoundedProblem) (context : EvaluationContext) (pre : CellStates) :
    Prop where
  initial : ∃ state, initialState context problem.spec.stateVariables = .ok state ∧
    state.get? = pre 0
  requirement : ∀ r ∈ problem.stateRequirements, RequirementMet context problem.spec.horizon pre r
  update : ∀ u ∈ problem.stateUpdates, UpdateDecided context problem.spec.horizon u
  writes : ∀ c ≤ problem.spec.horizon, ∀ name,
    Written (problem.stateUpdates.filterMap (activeWrite context c name)) (pre c name)
      (pre (c + 1) name)
  forward : ∀ item ∈ problem.guardedForwards, ForwardMet context problem.spec.horizon pre item
  support : ∀ item ∈ problem.guardedSupports, SupportMet context problem.spec.horizon pre item

/-- The assignment satisfies the constraints, with these states of the cells. -/
def Completes (problem : BoundedProblem) (interpreter : Interpreter)
    (assignment : Dict String Value) (pre : CellStates) : Prop :=
  (∀ c ∈ problem.constraints, (problem.context interpreter assignment).Holds c.expression) ∧
    StateRun problem (problem.context interpreter assignment) pre

namespace StateCheck

open StateRun

variable {context : EvaluationContext} {horizon : Nat}

/-! ## Effects -/

theorem concrete_eq_ok {e : Expr} {r : Result} :
    concrete context e = .ok r ↔ context.evaluate e = .ok r := mapError_eq_ok

theorem reject_ne_ok {α : Type} {result : StateCheckResult} {a : α} :
    (reject result : Except StateAbort α) ≠ .ok a := by
  intro h
  cases h

theorem validCycle_eq_some {r : Result} {c : Nat} :
    validCycle horizon r = some c ↔ r = some (.int c) ∧ c ≤ horizon := by
  rcases r with _ | v
  · simp [validCycle]
  · cases v with
    | int n =>
        simp only [validCycle, Option.some.injEq, Value.int.injEq]
        split
        · simp only [Option.some.injEq]
          omega
        · simp only [reduceCtorEq, false_iff]
          omega
    | _ => simp [validCycle]

theorem activeValue_eq_ok {initial : Dict String Value} {label name : String} {cycle value : Expr}
    {c : Nat} {v : Value} :
    activeValue context horizon initial label name cycle value = .ok (c, v) ↔
      context.evaluate cycle = .ok (some (.int c)) ∧ c ≤ horizon ∧
        context.evaluate value = .ok (some v) := by
  rw [activeValue, bind_eq_ok]
  constructor
  · rintro ⟨cycleValue, hcycle, h⟩
    obtain ⟨result, hvalue, h⟩ := bind_eq_ok.mp h
    rw [concrete_eq_ok] at hcycle hvalue
    cases hvalid : validCycle horizon cycleValue with
    | none =>
        rw [hvalid] at h
        exact absurd h reject_ne_ok
    | some c' =>
        rw [hvalid] at h
        obtain ⟨rfl, hle⟩ := validCycle_eq_some.mp hvalid
        cases result with
        | none => exact absurd h reject_ne_ok
        | some v' =>
            cases h
            exact ⟨hcycle, hle, hvalue⟩
  · rintro ⟨hcycle, hle, hvalue⟩
    refine ⟨_, concrete_eq_ok.mpr hcycle, bind_eq_ok.mpr ⟨_, concrete_eq_ok.mpr hvalue, ?_⟩⟩
    rw [validCycle_eq_some.mpr ⟨rfl, hle⟩]
    rfl

/-- The effect is active. -/
theorem activeEffect_eq_some {initial : Dict String Value} {label name : String}
    {activation cycle value : Expr} {c : Nat} {v : Value} :
    activeEffect context horizon initial label name activation cycle value = .ok (some (c, v)) ↔
      context.ActiveAt horizon activation cycle value c v := by
  rw [activeEffect, bind_eq_ok]
  constructor
  · rintro ⟨active, hactive, h⟩
    rw [concrete_eq_ok] at hactive
    rcases active with _ | active
    · exact absurd h reject_ne_ok
    · by_cases htrue : active = .bool true
      · subst htrue
        cases hvalue : activeValue context horizon initial label name cycle value with
        | error e => simp [hvalue, Functor.map, Except.map] at h
        | ok p =>
            simp only [hvalue, Functor.map, Except.map, Except.ok.injEq, Option.some.injEq] at h
            subst h
            obtain ⟨hcycle, hle, hv⟩ := activeValue_eq_ok.mp hvalue
            exact ⟨hactive, hcycle, hle, hv⟩
      · split at h
        · exact absurd h reject_ne_ok
        · rename_i heq
          cases heq
          exact absurd rfl htrue
        · cases h
  · intro ⟨hholds, hcycle, hle, hvalue⟩
    refine ⟨_, concrete_eq_ok.mpr hholds, ?_⟩
    simp only [activeValue_eq_ok.mpr ⟨hcycle, hle, hvalue⟩, Functor.map, Except.map]

theorem activeEffect_eq_none {initial : Dict String Value} {label name : String}
    {activation cycle value : Expr} :
    activeEffect context horizon initial label name activation cycle value = .ok none ↔
      context.Idle activation := by
  rw [activeEffect, bind_eq_ok]
  constructor
  · rintro ⟨active, hactive, h⟩
    rw [concrete_eq_ok] at hactive
    rcases active with _ | active
    · exact absurd h reject_ne_ok
    · refine ⟨active, hactive, ?_⟩
      rintro rfl
      cases hvalue : activeValue context horizon initial label name cycle value <;>
        simp [hvalue, Functor.map, Except.map] at h
  · rintro ⟨v, hv, hne⟩
    refine ⟨_, concrete_eq_ok.mpr hv, ?_⟩
    split
    · rename_i heq
      cases heq
    · rename_i heq
      cases heq
      exact absurd rfl hne
    · rfl

theorem activeRequirement_eq_some {initial : Dict String Value} {r : StateRequirementInstance}
    {active : ActiveRequirement} :
    activeRequirement context horizon initial r = .ok (some active) ↔ active.requirement = r ∧
      context.ActiveAt horizon r.activation r.cycle r.expected active.cycle active.expected := by
  rw [activeRequirement, bind_eq_ok]
  constructor
  · rintro ⟨p, hp, h⟩
    rcases p with _ | p
    · cases h
    · cases h
      exact ⟨rfl, activeEffect_eq_some.mp hp⟩
  · rintro ⟨rfl, h⟩
    exact ⟨_, activeEffect_eq_some.mpr h, rfl⟩

theorem activeRequirement_eq_none {initial : Dict String Value} {r : StateRequirementInstance} :
    activeRequirement context horizon initial r = .ok none ↔ context.Idle r.activation := by
  rw [activeRequirement, bind_eq_ok]
  constructor
  · rintro ⟨p, hp, h⟩
    rcases p with _ | p
    · exact activeEffect_eq_none.mp hp
    · cases h
  · intro h
    exact ⟨_, activeEffect_eq_none.mpr h, rfl⟩

theorem activeUpdate_eq_some {initial : Dict String Value} {u : StateUpdateInstance}
    {active : ActiveUpdate} :
    activeUpdate context horizon initial u = .ok (some active) ↔ active.update = u ∧
      context.ActiveAt horizon u.activation u.cycle u.value active.cycle active.value := by
  rw [activeUpdate, bind_eq_ok]
  constructor
  · rintro ⟨p, hp, h⟩
    rcases p with _ | p
    · cases h
    · cases h
      exact ⟨rfl, activeEffect_eq_some.mp hp⟩
  · rintro ⟨rfl, h⟩
    exact ⟨_, activeEffect_eq_some.mpr h, rfl⟩

theorem activeUpdate_eq_none {initial : Dict String Value} {u : StateUpdateInstance} :
    activeUpdate context horizon initial u = .ok none ↔ context.Idle u.activation := by
  rw [activeUpdate, bind_eq_ok]
  constructor
  · rintro ⟨p, hp, h⟩
    rcases p with _ | p
    · exact activeEffect_eq_none.mp hp
    · cases h
  · intro h
    exact ⟨_, activeEffect_eq_none.mpr h, rfl⟩

/-! ## Cycles -/

theorem cell_eq_ok {state : Dict String Value} {name : String} {v : Value} :
    cell state name = .ok v ↔ state.get? name = some v := by
  unfold cell
  split <;> rename_i h <;> simp [h]

theorem checkRequirement_eq_ok {initial : Dict String Value} {sim : Simulation}
    {active : ActiveRequirement} {u : Unit} :
    checkRequirement initial sim active = .ok u ↔ ∃ actual,
      sim.state.get? active.requirement.state = some actual ∧
        active.requirement.op.compare actual active.expected = .ok true := by
  rw [checkRequirement, bind_eq_ok]
  refine exists_congr (fun actual => ?_)
  rw [cell_eq_ok]
  refine and_congr_right (fun _ => ?_)
  rw [bind_eq_ok]
  constructor
  · rintro ⟨result, hresult, h⟩
    rw [mapError_eq_ok] at hresult
    cases result with
    | true => exact hresult
    | false => exact absurd h reject_ne_ok
  · intro h
    exact ⟨true, mapError_eq_ok.mpr h, rfl⟩

/-- Writing one cell leaves the other cells alone. -/
theorem writeCell_eq_ok {initial : Dict String Value} {sim : Simulation} {cycle : Nat}
    {updates : List ActiveUpdate} {writing writing' : Writing} {name : String}
    (h : writeCell initial sim cycle updates writing name = .ok writing') :
    Written ((writesTo updates name).map ActiveUpdate.value) (writing.state.get? name)
        (writing'.state.get? name) ∧
      ∀ other ≠ name, writing'.state.get? other = writing.state.get? other := by
  unfold writeCell at h
  split at h
  · rename_i hwrites
    cases h
    rw [hwrites]
    exact ⟨rfl, fun _ _ => rfl⟩
  · rename_i first rest hwrites
    split at h
    · rename_i hall
      obtain ⟨old, hold, h⟩ := bind_eq_ok.mp h
      cases h
      rw [cell_eq_ok] at hold
      rw [hwrites]
      refine ⟨⟨?_, by simp [hold], by simp⟩, fun other hne => ?_⟩
      · intro w hw
        obtain ⟨active, hactive, rfl⟩ := List.mem_map.mp hw
        exact List.all_eq_true.mp hall active hactive
      · exact Dict.get?_insert_of_ne _ hne _
    · exact absurd h reject_ne_ok

theorem exists_writeCell (initial : Dict String Value) (sim : Simulation) (cycle : Nat)
    {updates : List ActiveUpdate} {writing : Writing} {name : String} {after : Option Value}
    (h : Written ((writesTo updates name).map ActiveUpdate.value) (writing.state.get? name) after) :
    ∃ writing', writeCell initial sim cycle updates writing name = .ok writing' ∧
      writing'.state.get? name = after ∧
      ∀ other ≠ name, writing'.state.get? other = writing.state.get? other := by
  unfold writeCell
  cases hwrites : writesTo updates name with
  | nil =>
      rw [hwrites] at h
      exact ⟨writing, rfl, h.symm, fun _ _ => rfl⟩
  | cons first rest =>
      rw [hwrites] at h
      obtain ⟨hagree, hsome, hafter⟩ := h
      obtain ⟨old, hold⟩ := Option.isSome_iff_exists.mp hsome
      have hall : rest.all (fun active => active.value.pyEq first.value) = true := by
        rw [List.all_eq_true]
        intro active hactive
        exact hagree _ (List.mem_map_of_mem hactive)
      simp only [hall, if_true, cell_eq_ok.mpr hold, ok_bind]
      refine ⟨_, rfl, ?_, fun other hne => Dict.get?_insert_of_ne _ hne _⟩
      rw [hafter]
      simp

theorem notMem_of_nodup_append {names : List String} {a : String}
    (h : (names ++ [a]).Nodup) : a ∉ names := by
  intro hin
  exact (List.nodup_append.mp h).2.2 a hin a (List.mem_singleton_self a) rfl

/-- A cell is written when its turn comes, and not before or after. -/
theorem writeCells_eq_ok {initial : Dict String Value} {sim : Simulation} {cycle : Nat}
    {updates : List ActiveUpdate} {names : List String} (hnodup : names.Nodup)
    {start writing : Writing}
    (h : names.foldlM (writeCell initial sim cycle updates) start = .ok writing) (name : String) :
    if name ∈ names then Written ((writesTo updates name).map ActiveUpdate.value)
      (start.state.get? name) (writing.state.get? name)
    else writing.state.get? name = start.state.get? name := by
  induction names using List.reverseRecOn generalizing writing with
  | nil =>
      cases h
      simp
  | append_singleton seen a ih =>
      rw [List.foldlM_append] at h
      obtain ⟨writing₁, h₁, h₂⟩ := bind_eq_ok.mp h
      obtain ⟨h₂, hrest⟩ := writeCell_eq_ok (by simpa using h₂)
      have ih := ih (List.nodup_append.mp hnodup).1 h₁
      by_cases hname : name = a
      · subst hname
        rw [if_neg (notMem_of_nodup_append hnodup)] at ih
        rw [if_pos (by simp), ← ih]
        exact h₂
      · simp only [List.mem_append, List.mem_singleton, hname, or_false, hrest name hname]
        exact ih

theorem exists_writeCells (initial : Dict String Value) (sim : Simulation) (cycle : Nat)
    (start : Writing) {updates : List ActiveUpdate} {names : List String} (hnodup : names.Nodup)
    {after : String → Option Value}
    (h : ∀ name, Written ((writesTo updates name).map ActiveUpdate.value)
      (start.state.get? name) (after name)) :
    ∃ writing, names.foldlM (writeCell initial sim cycle updates) start = .ok writing ∧
      ∀ name, writing.state.get? name =
        if name ∈ names then after name else start.state.get? name := by
  induction names using List.reverseRecOn with
  | nil => exact ⟨start, rfl, by simp⟩
  | append_singleton seen a ih =>
      obtain ⟨writing₁, h₁, hstate⟩ := ih (List.nodup_append.mp hnodup).1
      have hwritten := h a
      have hbefore := hstate a
      rw [if_neg (notMem_of_nodup_append hnodup)] at hbefore
      rw [← hbefore] at hwritten
      obtain ⟨writing, h₂, hafter, hrest⟩ := exists_writeCell initial sim cycle hwritten
      refine ⟨writing, ?_, fun name => ?_⟩
      · rw [List.foldlM_append, h₁, ok_bind]
        simpa using h₂
      · by_cases hname : name = a
        · subst hname
          simp [hafter]
        · simp [hrest name hname, hstate name, hname]

/-- What one cycle demands of the cells before and after it. -/
structure CycleMet (requirements : List ActiveRequirement) (updates : List ActiveUpdate)
    (c : Nat) (before after : String → Option Value) : Prop where
  required : ∀ active ∈ requirements, active.cycle = c → ∃ actual,
    before active.requirement.state = some actual ∧
      active.requirement.op.compare actual active.expected = .ok true
  written : ∀ name, Written
    ((writesTo (updates.filter (fun active => active.cycle = c)) name).map ActiveUpdate.value)
    (before name) (after name)

theorem writesTo_eq_nil {updates : List ActiveUpdate} {name : String}
    (h : name ∉ sortedList (updates.map (fun active => active.update.state)).toFinset) :
    writesTo updates name = [] := by
  rw [writesTo, List.filter_eq_nil_iff]
  intro active hactive heq
  refine h ?_
  rw [← Multiset.mem_coe, coe_sortedList, Finset.mem_val, List.mem_toFinset]
  exact List.mem_map.mpr ⟨active, hactive, by simpa using heq⟩

theorem simulateCycle_eq_ok {initial : Dict String Value} {requirements : List ActiveRequirement}
    {updates : List ActiveUpdate} {sim sim' : Simulation} {c : Nat}
    (h : simulateCycle initial requirements updates sim c = .ok sim') :
    CycleMet requirements updates c sim.state.get? sim'.state.get? ∧
      sim'.preStates = sim.preStates ++ [sim.state] := by
  obtain ⟨u, hrequired, h⟩ := bind_eq_ok.mp h
  obtain ⟨writing, hwriting, h⟩ := bind_eq_ok.mp h
  cases h
  refine ⟨⟨?_, fun name => ?_⟩, rfl⟩
  · intro active hactive hcycle
    have hmem : active ∈ requirements.filter (fun active => active.cycle = c) :=
      List.mem_filter.mpr ⟨hactive, decide_eq_true hcycle⟩
    exact checkRequirement_eq_ok.mp (forM_eq_ok.mp hrequired active hmem)
  · have hname := writeCells_eq_ok (nodup_sortedList _) hwriting name
    split at hname
    · exact hname
    · rename_i hnot
      rw [writesTo_eq_nil hnot]
      exact hname

theorem exists_simulateCycle (initial : Dict String Value)
    {requirements : List ActiveRequirement} {updates : List ActiveUpdate} {sim : Simulation}
    {c : Nat} {after : String → Option Value}
    (h : CycleMet requirements updates c sim.state.get? after) :
    ∃ sim', simulateCycle initial requirements updates sim c = .ok sim' ∧
      sim'.state.get? = after ∧ sim'.preStates = sim.preStates ++ [sim.state] := by
  have hrequired : (requirements.filter (fun active => active.cycle = c)).forM
      (checkRequirement initial sim) = .ok ⟨⟩ := by
    rw [forM_eq_ok]
    intro active hactive
    obtain ⟨hmem, hcycle⟩ := List.mem_filter.mp hactive
    exact checkRequirement_eq_ok.mpr (h.required active hmem (by simpa using hcycle))
  obtain ⟨writing, hwriting, hstate⟩ :=
    exists_writeCells initial sim c ⟨sim.state, [], []⟩ (nodup_sortedList _) h.written
  refine ⟨_, bind_eq_ok.mpr ⟨_, hrequired, bind_eq_ok.mpr ⟨_, hwriting, rfl⟩⟩, ?_, rfl⟩
  funext name
  rw [hstate]
  split
  · rfl
  · rename_i hnot
    have hname := h.written name
    rw [writesTo_eq_nil hnot] at hname
    exact hname.symm

/-! ## The whole simulation -/

/-- The cells before a cycle; after the last cycle, the final state. -/
def Simulation.before (sim : Simulation) : CellStates :=
  fun c => ((sim.preStates[c]?).getD sim.state).get?

theorem Simulation.before_length {sim : Simulation} :
    sim.before sim.preStates.length = sim.state.get? := by
  unfold Simulation.before
  rw [List.getElem?_eq_none le_rfl]
  rfl

/-- Another cycle leaves the states before the earlier cycles alone. -/
theorem Simulation.before_of_append {sim sim' : Simulation}
    (h : sim'.preStates = sim.preStates ++ [sim.state]) {c : Nat} (hc : c ≤ sim.preStates.length) :
    sim'.before c = sim.before c := by
  rcases Nat.lt_or_eq_of_le hc with hlt | rfl
  · unfold Simulation.before
    rw [h, List.getElem?_append_left hlt, List.getElem?_eq_getElem hlt]
    rfl
  · rw [before_length]
    unfold Simulation.before
    rw [h, List.getElem?_concat_length]
    rfl

theorem simulate_eq_ok {initial : Dict String Value} {requirements : List ActiveRequirement}
    {updates : List ActiveUpdate} {n : Nat} {sim : Simulation}
    (h : (List.range n).foldlM (simulateCycle initial requirements updates) ⟨initial, [], []⟩ =
      .ok sim) :
    sim.preStates.length = n ∧ sim.before 0 = initial.get? ∧
      ∀ c < n, CycleMet requirements updates c (sim.before c) (sim.before (c + 1)) := by
  induction n generalizing sim with
  | zero =>
      cases h
      exact ⟨rfl, rfl, fun c hc => absurd hc (Nat.not_lt_zero c)⟩
  | succ n ih =>
      rw [List.range_succ, List.foldlM_append] at h
      obtain ⟨sim₁, h₁, h₂⟩ := bind_eq_ok.mp h
      obtain ⟨hlength, hstart, hmet⟩ := ih h₁
      obtain ⟨hcycle, hpre⟩ := simulateCycle_eq_ok (by simpa using h₂)
      have hlength' : sim.preStates.length = n + 1 := by simp [hpre, hlength]
      have hold : ∀ c ≤ n, sim.before c = sim₁.before c :=
        fun c hc => Simulation.before_of_append hpre (by omega)
      refine ⟨hlength', by rw [hold 0 (Nat.zero_le n)]; exact hstart, fun c hc => ?_⟩
      rcases Nat.lt_or_eq_of_le (Nat.le_of_lt_succ hc) with hlt | rfl
      · rw [hold c (by omega), hold (c + 1) (by omega)]
        exact hmet c hlt
      · have hlast := sim.before_length
        have hlast₁ := sim₁.before_length
        rw [hlength'] at hlast
        rw [hlength] at hlast₁
        rw [hold c le_rfl, hlast, hlast₁]
        exact hcycle

theorem exists_simulate {initial : Dict String Value} {requirements : List ActiveRequirement}
    {updates : List ActiveUpdate} {pre : CellStates} (hinitial : initial.get? = pre 0) {n : Nat}
    (h : ∀ c < n, CycleMet requirements updates c (pre c) (pre (c + 1))) :
    ∃ sim, (List.range n).foldlM (simulateCycle initial requirements updates)
      ⟨initial, [], []⟩ = .ok sim ∧ sim.preStates.length = n ∧ ∀ c ≤ n, sim.before c = pre c := by
  induction n with
  | zero =>
      refine ⟨_, rfl, rfl, fun c hc => ?_⟩
      rw [Nat.le_zero.mp hc]
      exact hinitial
  | succ n ih =>
      obtain ⟨sim₁, h₁, hlength, hbefore⟩ := ih (fun c hc => h c (by omega))
      have hlast₁ := sim₁.before_length
      rw [hlength, hbefore n le_rfl] at hlast₁
      have hmet := h n (Nat.lt_succ_self n)
      rw [hlast₁] at hmet
      obtain ⟨sim, h₂, hafter, hpre⟩ := exists_simulateCycle initial hmet
      have hlength' : sim.preStates.length = n + 1 := by simp [hpre, hlength]
      refine ⟨sim, ?_, hlength', fun c hc => ?_⟩
      · rw [List.range_succ, List.foldlM_append, h₁, ok_bind]
        simpa using h₂
      · rcases Nat.lt_or_eq_of_le hc with hlt | rfl
        · rw [Simulation.before_of_append hpre (by omega)]
          exact hbefore c (by omega)
        · have hlast := sim.before_length
          rw [hlength'] at hlast
          rw [hlast]
          exact hafter

/-! ## Guards -/

section Guards

variable {initial : Dict String Value} {sim : Simulation} {label : String}

theorem guardPredicateHolds_eq_ok (hlength : sim.preStates.length = horizon + 1)
    {guard : GuardPredicateInstance} {result : Bool} :
    guardPredicateHolds context horizon initial sim label guard = .ok result ↔
      Compared context horizon sim.before guard result := by
  have hbefore : ∀ c ≤ horizon, ((sim.preStates[c]?).getD .empty).get? = sim.before c := by
    intro c hc
    have hlt : c < sim.preStates.length := by omega
    unfold Simulation.before
    rw [List.getElem?_eq_getElem hlt]
    rfl
  rw [guardPredicateHolds, bind_eq_ok]
  constructor
  · rintro ⟨cycle, hcycle, h⟩
    obtain ⟨expected, hexpected, h⟩ := bind_eq_ok.mp h
    rw [concrete_eq_ok] at hcycle hexpected
    cases hvalid : validCycle horizon cycle with
    | none =>
        rw [hvalid] at h
        exact absurd h reject_ne_ok
    | some c =>
        rw [hvalid] at h
        obtain ⟨rfl, hle⟩ := validCycle_eq_some.mp hvalid
        cases expected with
        | none => exact absurd h reject_ne_ok
        | some v =>
            obtain ⟨actual, hactual, h⟩ := bind_eq_ok.mp h
            rw [cell_eq_ok, hbefore c hle] at hactual
            exact ⟨c, v, actual, hcycle, hle, hexpected, hactual, mapError_eq_ok.mp h⟩
  · rintro ⟨c, v, actual, hcycle, hle, hexpected, hactual, hcompare⟩
    refine ⟨_, concrete_eq_ok.mpr hcycle, bind_eq_ok.mpr ⟨_, concrete_eq_ok.mpr hexpected, ?_⟩⟩
    rw [validCycle_eq_some.mpr ⟨rfl, hle⟩]
    rw [← hbefore c hle] at hactual
    exact bind_eq_ok.mpr ⟨actual, cell_eq_ok.mpr hactual, mapError_eq_ok.mpr hcompare⟩

theorem guardPredicatesHold_eq_ok (hlength : sim.preStates.length = horizon + 1)
    {guards : List GuardPredicateInstance} {result : Bool} :
    guardPredicatesHold context horizon initial sim label guards = .ok result ↔
      GuardsReturn context horizon sim.before guards result := by
  induction guards with
  | nil => simp [guardPredicatesHold, GuardsReturn, eq_comm]
  | cons guard rest ih =>
      rw [guardPredicatesHold, bind_eq_ok, GuardsReturn]
      constructor
      · rintro ⟨holds, hguard, h⟩
        rw [guardPredicateHolds_eq_ok hlength] at hguard
        cases holds with
        | true => exact Or.inr ⟨hguard, ih.mp h⟩
        | false =>
            cases h
            exact Or.inl ⟨hguard, rfl⟩
      · rintro (⟨hguard, rfl⟩ | ⟨hguard, h⟩)
        · exact ⟨false, (guardPredicateHolds_eq_ok hlength).mpr hguard, rfl⟩
        · exact ⟨true, (guardPredicateHolds_eq_ok hlength).mpr hguard, ih.mpr h⟩

theorem checkForward_eq_ok (hlength : sim.preStates.length = horizon + 1)
    {item : GuardedForwardInstance} {u : Unit} :
    checkForward context horizon initial sim item = .ok u ↔
      ForwardMet context horizon sim.before item := by
  rw [checkForward, bind_eq_ok, ForwardMet]
  constructor
  · rintro ⟨antecedent, hantecedent, h⟩
    rw [concrete_eq_ok] at hantecedent
    rcases antecedent with _ | v
    · exact absurd h reject_ne_ok
    · by_cases htrue : v = .bool true
      · subst htrue
        refine Or.inr ⟨hantecedent, ?_⟩
        obtain ⟨guards, hguards, h⟩ := bind_eq_ok.mp h
        rw [guardPredicatesHold_eq_ok hlength] at hguards
        cases guards with
        | false => exact Or.inl hguards
        | true =>
            obtain ⟨consequent, hconsequent, h⟩ := bind_eq_ok.mp h
            rw [concrete_eq_ok] at hconsequent
            by_cases hholds : consequent.isTrue = true
            · rw [Result.isTrue, decide_eq_true_eq] at hholds
              subst hholds
              exact Or.inr ⟨hguards, hconsequent⟩
            · rw [if_neg hholds] at h
              exact absurd h reject_ne_ok
      · exact Or.inl ⟨v, hantecedent, htrue⟩
  · rintro (⟨v, hv, hne⟩ | ⟨hholds, hguards⟩)
    · refine ⟨_, concrete_eq_ok.mpr hv, ?_⟩
      split
      · rename_i heq
        cases heq
      · rename_i heq
        cases heq
        exact absurd rfl hne
      · rfl
    · refine ⟨_, concrete_eq_ok.mpr hholds, bind_eq_ok.mpr ?_⟩
      rcases hguards with hguards | ⟨hguards, hconsequent⟩
      · exact ⟨false, (guardPredicatesHold_eq_ok hlength).mpr hguards, rfl⟩
      · refine ⟨true, (guardPredicatesHold_eq_ok hlength).mpr hguards, ?_⟩
        exact bind_eq_ok.mpr ⟨_, concrete_eq_ok.mpr hconsequent, rfl⟩

theorem supported_eq_ok (hlength : sim.preStates.length = horizon + 1)
    {candidates : List GuardedSupportCandidate} :
    supported context horizon initial sim label candidates = .ok true ↔
      Supported context horizon sim.before candidates := by
  induction candidates with
  | nil => simp [supported, Supported]
  | cons candidate rest ih =>
      rw [supported, bind_eq_ok, Supported]
      constructor
      · rintro ⟨expression, hexpression, h⟩
        rw [concrete_eq_ok] at hexpression
        by_cases htrue : expression.isTrue = true
        · rw [if_pos htrue] at h
          rw [Result.isTrue, decide_eq_true_eq] at htrue
          subst htrue
          obtain ⟨guards, hguards, h⟩ := bind_eq_ok.mp h
          rw [guardPredicatesHold_eq_ok hlength] at hguards
          cases guards with
          | true => exact Or.inl ⟨hexpression, hguards⟩
          | false => exact Or.inr ⟨Or.inr ⟨hexpression, hguards⟩, ih.mp h⟩
        · rw [if_neg htrue] at h
          refine Or.inr ⟨Or.inl ⟨⟨_, hexpression⟩, fun hholds => htrue ?_⟩, ih.mp h⟩
          rw [EvaluationContext.Holds, hexpression] at hholds
          cases hholds
          rfl
      · rintro (⟨hholds, hguards⟩ | ⟨⟨⟨r, hr⟩, hnot⟩ | ⟨hholds, hguards⟩, hrest⟩)
        · refine ⟨_, concrete_eq_ok.mpr hholds, bind_eq_ok.mpr ⟨true, ?_, rfl⟩⟩
          exact (guardPredicatesHold_eq_ok hlength).mpr hguards
        · refine ⟨r, concrete_eq_ok.mpr hr, ?_⟩
          rw [if_neg, ih]
          · exact hrest
          · intro htrue
            rw [Result.isTrue, decide_eq_true_eq] at htrue
            subst htrue
            exact hnot hr
        · refine ⟨_, concrete_eq_ok.mpr hholds, bind_eq_ok.mpr ⟨false, ?_, ih.mpr hrest⟩⟩
          exact (guardPredicatesHold_eq_ok hlength).mpr hguards

theorem checkSupport_eq_ok (hlength : sim.preStates.length = horizon + 1)
    {item : GuardedSupportInstance} {u : Unit} :
    checkSupport context horizon initial sim item = .ok u ↔
      SupportMet context horizon sim.before item := by
  rw [checkSupport, bind_eq_ok, SupportMet]
  constructor
  · rintro ⟨antecedent, hantecedent, h⟩
    rw [concrete_eq_ok] at hantecedent
    rcases antecedent with _ | v
    · exact absurd h reject_ne_ok
    · by_cases htrue : v = .bool true
      · subst htrue
        refine Or.inr ⟨hantecedent, ?_⟩
        obtain ⟨found, hfound, h⟩ := bind_eq_ok.mp h
        cases found with
        | true => exact (supported_eq_ok hlength).mp hfound
        | false => exact absurd h reject_ne_ok
      · exact Or.inl ⟨v, hantecedent, htrue⟩
  · rintro (⟨v, hv, hne⟩ | ⟨hholds, hsupported⟩)
    · refine ⟨_, concrete_eq_ok.mpr hv, ?_⟩
      split
      · rename_i heq
        cases heq
      · rename_i heq
        cases heq
        exact absurd rfl hne
      · rfl
    · refine ⟨_, concrete_eq_ok.mpr hholds, bind_eq_ok.mpr ⟨true, ?_, rfl⟩⟩
      exact (supported_eq_ok hlength).mpr hsupported

end Guards

/-! ## Collected effects -/

theorem mem_active_iff {γ α : Type} {f : γ → Except StateAbort (Option α)} {l : List γ}
    {options : List (Option α)} (h : l.mapM f = .ok options) {a : α} :
    a ∈ options.filterMap id ↔ ∃ x ∈ l, f x = .ok (some a) := by
  rw [List.mem_filterMap]
  constructor
  · rintro ⟨option, hoption, heq⟩
    obtain ⟨x, hx, hf⟩ := mapM_origin h hoption
    exact ⟨x, hx, hf.trans (congrArg _ heq)⟩
  · rintro ⟨x, hx, hf⟩
    obtain ⟨option, hoption, hf'⟩ := mapM_result h hx
    rw [hf] at hf'
    exact ⟨option, hoption, (Except.ok.inj hf').symm⟩

/-- The write of an update in a cycle, read off the update or off what it is active as. -/
theorem activeWrite_of_activeUpdate {initial : Dict String Value} {u : StateUpdateInstance}
    {option : Option ActiveUpdate} (h : activeUpdate context horizon initial u = .ok option)
    (c : Nat) (name : String) :
    activeWrite context c name u = (option.filter (fun active =>
      active.cycle = c ∧ active.update.state = name)).map ActiveUpdate.value := by
  unfold activeWrite
  rcases option with _ | active
  · rw [if_neg]
    · rfl
    · rintro ⟨-, hholds, -⟩
      exact hholds.not_idle (activeUpdate_eq_none.mp h)
  · obtain ⟨rfl, hactive⟩ := activeUpdate_eq_some.mp h
    by_cases hmatch : active.cycle = c ∧ active.update.state = name
    · obtain ⟨rfl, rfl⟩ := hmatch
      rw [if_pos ⟨rfl, hactive.holds, hactive.cycle_eq⟩, hactive.value_eq]
      simp [Except.toOption]
    · rw [if_neg]
      · simp [Option.filter, hmatch]
      · rintro ⟨hstate, -, hcycle⟩
        rw [hactive.cycle_eq] at hcycle
        simp only [Except.ok.injEq, Option.some.injEq, Value.int.injEq, Nat.cast_inj] at hcycle
        exact hmatch ⟨hcycle, hstate⟩

theorem writes_eq {initial : Dict String Value} {updates : List StateUpdateInstance}
    {options : List (Option ActiveUpdate)}
    (h : updates.mapM (activeUpdate context horizon initial) = .ok options) (c : Nat)
    (name : String) :
    (writesTo ((options.filterMap id).filter (fun active => active.cycle = c)) name).map
      ActiveUpdate.value = updates.filterMap (activeWrite context c name) := by
  rw [mapM_eq_ok] at h
  induction h with
  | nil => rfl
  | @cons u option updates options hu _ ih =>
      have hwrite := activeWrite_of_activeUpdate hu c name
      rw [List.filterMap_cons (f := activeWrite context c name), hwrite, ← ih]
      rcases option with _ | active
      · rfl
      · by_cases hcycle : active.cycle = c <;> by_cases hstate : active.update.state = name <;>
          simp [writesTo, Option.filter, hcycle, hstate]

/-! ## Early stops -/

/-- A `return` before the end returns an infeasible result. -/
def Rejects : StateAbort → Prop
  | .raised _ => True
  | .infeasible result => result.feasible = false

section Stops

variable {p : StateAbort → Prop} (hraised : ∀ e, p (.raised e))

include hraised

theorem raises_mapError {α : Type} (x : Except PyError α) : Raises p (x.mapError .raised) := by
  intro e h
  cases x with
  | error e' =>
      cases h
      exact hraised e'
  | ok a => cases h

theorem raises_concrete (e : Expr) : Raises p (concrete context e) := raises_mapError hraised _

theorem raises_cell (state : Dict String Value) (name : String) : Raises p (cell state name) := by
  unfold cell
  split
  · exact raises_ok _
  · exact raises_error (hraised _)

theorem raises_initialState
    (hrejected : ∀ reason, p (.infeasible (.rejected reason .empty .empty [])))
    (cells : List StateVariable) : Raises p (initialState context cells) := by
  refine Raises.foldlM (fun state declared _ => ?_)
  refine Raises.bind (raises_mapError hraised _) (fun value _ => ?_)
  cases value with
  | none => exact raises_error (hrejected _)
  | some v => exact raises_ok _

theorem raises_activeEffect {initial : Dict String Value}
    (hrejected : ∀ reason, p (.infeasible (.rejected reason initial .empty [])))
    (label name : String) (activation cycle value : Expr) :
    Raises p (activeEffect context horizon initial label name activation cycle value) := by
  have hvalue : Raises p (activeValue context horizon initial label name cycle value) := by
    refine Raises.bind (raises_concrete hraised _) (fun c _ => ?_)
    refine Raises.bind (raises_concrete hraised _) (fun v _ => ?_)
    split
    · exact raises_ok _
    · exact raises_error (hrejected _)
    · exact raises_error (hrejected _)
  refine Raises.bind (raises_concrete hraised _) (fun active _ => ?_)
  split
  · exact raises_error (hrejected _)
  · intro e h
    cases hactive : activeValue context horizon initial label name cycle value with
    | error e' =>
        rw [hactive] at h
        cases h
        exact hvalue e hactive
    | ok p =>
        rw [hactive] at h
        cases h
  · exact raises_ok _

theorem raises_activeRequirement {initial : Dict String Value}
    (hrejected : ∀ reason, p (.infeasible (.rejected reason initial .empty [])))
    (requirement : StateRequirementInstance) :
    Raises p (activeRequirement context horizon initial requirement) :=
  Raises.bind (raises_activeEffect hraised hrejected _ _ _ _ _) (fun _ _ => raises_ok _)

theorem raises_activeUpdate {initial : Dict String Value}
    (hrejected : ∀ reason, p (.infeasible (.rejected reason initial .empty [])))
    (update : StateUpdateInstance) :
    Raises p (activeUpdate context horizon initial update) :=
  Raises.bind (raises_activeEffect hraised hrejected _ _ _ _ _) (fun _ _ => raises_ok _)

theorem raises_checkRequirement {initial : Dict String Value} {sim : Simulation}
    (hrejected : ∀ reason, p (.infeasible (.rejected reason initial sim.state sim.steps)))
    (active : ActiveRequirement) : Raises p (checkRequirement initial sim active) := by
  refine Raises.bind (raises_cell hraised _ _) (fun _ _ => ?_)
  refine Raises.bind (raises_mapError hraised _) (fun holds _ => ?_)
  cases holds with
  | true => exact raises_ok _
  | false => exact raises_error (hrejected _)

theorem raises_writeCell {initial : Dict String Value} {sim : Simulation}
    (hrejected : ∀ reason final, p (.infeasible (.rejected reason initial final sim.steps)))
    (cycle : Nat) (updates : List ActiveUpdate) (writing : Writing) (name : String) :
    Raises p (writeCell initial sim cycle updates writing name) := by
  unfold writeCell
  split
  · exact raises_ok _
  · split
    · exact Raises.bind (raises_cell hraised _ _) (fun _ _ => raises_ok _)
    · exact raises_error (hrejected _ _)

theorem raises_simulateCycle {initial : Dict String Value} {sim : Simulation}
    (hrejected : ∀ reason final, p (.infeasible (.rejected reason initial final sim.steps)))
    (requirements : List ActiveRequirement) (updates : List ActiveUpdate) (cycle : Nat) :
    Raises p (simulateCycle initial requirements updates sim cycle) := by
  refine Raises.bind (Raises.forM (fun active _ => ?_)) (fun _ _ => ?_)
  · exact raises_checkRequirement hraised (fun reason => hrejected reason _) _
  · refine Raises.bind (Raises.foldlM (fun _ _ _ => ?_)) (fun _ _ => raises_ok _)
    exact raises_writeCell hraised hrejected _ _ _ _

variable {initial : Dict String Value} {sim : Simulation}
  (hrejected : ∀ reason, p (.infeasible (.rejected reason initial sim.state sim.steps)))

include hrejected

theorem raises_guardPredicatesHold (label : String) (guards : List GuardPredicateInstance) :
    Raises p (guardPredicatesHold context horizon initial sim label guards) := by
  induction guards with
  | nil => exact raises_ok _
  | cons guard rest ih =>
      refine Raises.bind ?_ (fun holds _ => ?_)
      · refine Raises.bind (raises_concrete hraised _) (fun c _ => ?_)
        refine Raises.bind (raises_concrete hraised _) (fun v _ => ?_)
        split
        · exact Raises.bind (raises_cell hraised _ _) (fun _ _ => raises_mapError hraised _)
        · exact raises_error (hrejected _)
      · cases holds with
        | true => exact ih
        | false => exact raises_ok _

theorem raises_checkForward (item : GuardedForwardInstance) :
    Raises p (checkForward context horizon initial sim item) := by
  refine Raises.bind (raises_concrete hraised _) (fun antecedent _ => ?_)
  split
  · exact raises_error (hrejected _)
  · refine Raises.bind (raises_guardPredicatesHold hraised hrejected _ _) (fun guards _ => ?_)
    cases guards with
    | false => exact raises_ok _
    | true =>
        refine Raises.bind (raises_concrete hraised _) (fun consequent _ => ?_)
        split
        · exact raises_ok _
        · exact raises_error (hrejected _)
  · exact raises_ok _

theorem raises_supported (label : String) (candidates : List GuardedSupportCandidate) :
    Raises p (supported context horizon initial sim label candidates) := by
  induction candidates with
  | nil => exact raises_ok _
  | cons candidate rest ih =>
      refine Raises.bind (raises_concrete hraised _) (fun expression _ => ?_)
      split
      · refine Raises.bind (raises_guardPredicatesHold hraised hrejected _ _) (fun guards _ => ?_)
        cases guards with
        | true => exact raises_ok _
        | false => exact ih
      · exact ih

theorem raises_checkSupport (item : GuardedSupportInstance) :
    Raises p (checkSupport context horizon initial sim item) := by
  refine Raises.bind (raises_concrete hraised _) (fun antecedent _ => ?_)
  split
  · exact raises_error (hrejected _)
  · refine Raises.bind (raises_supported hraised hrejected _ _) (fun found _ => ?_)
    cases found with
    | true => exact raises_ok _
    | false => exact raises_error (hrejected _)
  · exact raises_ok _

end Stops

end StateCheck

open StateCheck StateRun

variable {problem : BoundedProblem} {context : EvaluationContext}

theorem raises_simulateState : Raises Rejects (simulateState problem context) := by
  have hraised : ∀ e, Rejects (.raised e) := fun _ => trivial
  have hrejected : ∀ reason initial final steps,
      Rejects (.infeasible (.rejected reason initial final steps)) := fun _ _ _ _ => rfl
  refine Raises.bind (raises_initialState hraised (fun _ => hrejected _ _ _ _) _)
    (fun initial _ => ?_)
  refine Raises.bind (Raises.mapM (fun r _ => ?_)) (fun requirements _ => ?_)
  · exact raises_activeRequirement hraised (fun _ => hrejected _ _ _ _) _
  refine Raises.bind (Raises.mapM (fun u _ => ?_)) (fun updates _ => ?_)
  · exact raises_activeUpdate hraised (fun _ => hrejected _ _ _ _) _
  refine Raises.bind (Raises.foldlM (fun _ _ _ => ?_)) (fun sim _ => ?_)
  · exact raises_simulateCycle hraised (fun _ _ => hrejected _ _ _ _) _ _ _
  refine Raises.bind (Raises.forM (fun _ _ => ?_)) (fun _ _ => ?_)
  · exact raises_checkForward hraised (fun _ => hrejected _ _ _ _) _
  refine Raises.bind (Raises.forM (fun _ _ => ?_)) (fun _ _ => raises_ok _)
  exact raises_checkSupport hraised (fun _ => hrejected _ _ _ _) _

/-- An accepted simulation, with the run that its states are. -/
structure Accepted (problem : BoundedProblem) (context : EvaluationContext)
    (result : StateCheckResult) (initial : Dict String Value)
    (requirements : List (Option ActiveRequirement)) (updates : List (Option ActiveUpdate))
    (sim : Simulation) : Prop where
  required : problem.stateRequirements.mapM
    (activeRequirement context problem.spec.horizon initial) = .ok requirements
  updated : problem.stateUpdates.mapM (activeUpdate context problem.spec.horizon initial) =
    .ok updates
  simulated : simulate problem.spec.horizon initial (requirements.filterMap id)
    (updates.filterMap id) = .ok sim
  run : StateRun problem context sim.before
  result : result = { feasible := true, initialState := initial, finalState := sim.state
                      steps := sim.steps, reason := "" }

theorem accepted_of_simulateState {result : StateCheckResult}
    (h : simulateState problem context = .ok result) :
    ∃ initial requirements updates sim,
      Accepted problem context result initial requirements updates sim := by
  obtain ⟨initial, hinitial, h⟩ := bind_eq_ok.mp h
  obtain ⟨requirements, hrequirements, h⟩ := bind_eq_ok.mp h
  obtain ⟨updates, hupdates, h⟩ := bind_eq_ok.mp h
  obtain ⟨sim, hsim, h⟩ := bind_eq_ok.mp h
  obtain ⟨u, hforwards, h⟩ := bind_eq_ok.mp h
  obtain ⟨u', hsupports, h⟩ := bind_eq_ok.mp h
  cases h
  obtain ⟨hlength, hstart, hmet⟩ := simulate_eq_ok hsim
  refine ⟨initial, requirements, updates, sim, hrequirements, hupdates, hsim, ?_, rfl⟩
  constructor
  · exact ⟨initial, hinitial, hstart.symm⟩
  · intro r hr
    obtain ⟨option, hoption, hactive⟩ := mapM_result hrequirements hr
    rcases option with _ | active
    · exact Or.inl (activeRequirement_eq_none.mp hactive)
    · obtain ⟨rfl, hat⟩ := activeRequirement_eq_some.mp hactive
      have hmem := (mem_active_iff hrequirements).mpr ⟨_, hr, hactive⟩
      obtain ⟨actual, hactual, hcompare⟩ :=
        (hmet active.cycle (Nat.lt_succ_of_le hat.inside)).required active hmem rfl
      exact Or.inr ⟨_, _, actual, hat, hactual, hcompare⟩
  · intro u hu
    obtain ⟨option, -, hactive⟩ := mapM_result hupdates hu
    rcases option with _ | active
    · exact Or.inl (activeUpdate_eq_none.mp hactive)
    · exact Or.inr ⟨_, _, (activeUpdate_eq_some.mp hactive).2⟩
  · intro c hc name
    rw [← writes_eq hupdates c name]
    exact (hmet c (Nat.lt_succ_of_le hc)).written name
  · intro item hitem
    exact (checkForward_eq_ok hlength).mp (forM_eq_ok.mp hforwards item hitem)
  · intro item hitem
    exact (checkSupport_eq_ok hlength).mp (forM_eq_ok.mp hsupports item hitem)

/-- An accepted simulation has a run. -/
theorem stateRun_of_simulateState {result : StateCheckResult}
    (h : simulateState problem context = .ok result) :
    result.feasible = true ∧ ∃ pre, StateRun problem context pre ∧
      result.initialState.get? = pre 0 ∧
      result.finalState.get? = pre (problem.spec.horizon + 1) := by
  obtain ⟨initial, requirements, updates, sim, haccepted⟩ := accepted_of_simulateState h
  obtain ⟨hlength, hstart, -⟩ := simulate_eq_ok haccepted.simulated
  have hlast := sim.before_length
  rw [hlength] at hlast
  rw [haccepted.result]
  exact ⟨rfl, sim.before, haccepted.run, hstart.symm, hlast.symm⟩

/-- What a run demands depends only on the states up to the one after the last cycle. -/
theorem StateRun.guardsReturn_congr {horizon : Nat} {pre pre' : CellStates}
    (h : ∀ c ≤ horizon, pre c = pre' c) {guards : List GuardPredicateInstance} {result : Bool} :
    GuardsReturn context horizon pre guards result ↔
      GuardsReturn context horizon pre' guards result := by
  have hcompared : ∀ guard result, Compared context horizon pre guard result ↔
      Compared context horizon pre' guard result := by
    intro guard result
    unfold Compared
    refine exists_congr (fun c => exists_congr (fun v => exists_congr (fun actual => ?_)))
    refine and_congr_right (fun _ => and_congr_right (fun hc => ?_))
    rw [h c hc]
  induction guards with
  | nil => rfl
  | cons guard rest ih => simp only [GuardsReturn, hcompared, ih]

theorem StateRun.supported_congr {horizon : Nat} {pre pre' : CellStates}
    (h : ∀ c ≤ horizon, pre c = pre' c) {candidates : List GuardedSupportCandidate} :
    Supported context horizon pre candidates ↔ Supported context horizon pre' candidates := by
  induction candidates with
  | nil => rfl
  | cons candidate rest ih => simp only [Supported, guardsReturn_congr h, ih]

/-- States that meet the effects of a problem are simulated. -/
theorem exists_simulation {pre : CellStates}
    (hinitial : ∃ state, initialState context problem.spec.stateVariables = .ok state ∧
      state.get? = pre 0)
    (hrequirement : ∀ r ∈ problem.stateRequirements,
      RequirementMet context problem.spec.horizon pre r)
    (hupdate : ∀ u ∈ problem.stateUpdates, UpdateDecided context problem.spec.horizon u)
    (hwrites : ∀ c ≤ problem.spec.horizon, ∀ name,
      Written (problem.stateUpdates.filterMap (activeWrite context c name)) (pre c name)
        (pre (c + 1) name)) :
    ∃ initial requirements updates sim,
      initialState context problem.spec.stateVariables = .ok initial ∧
      problem.stateRequirements.mapM (activeRequirement context problem.spec.horizon initial) =
        .ok requirements ∧
      problem.stateUpdates.mapM (activeUpdate context problem.spec.horizon initial) =
        .ok updates ∧
      simulate problem.spec.horizon initial (requirements.filterMap id) (updates.filterMap id) =
        .ok sim ∧
      sim.preStates.length = problem.spec.horizon + 1 ∧
      ∀ c ≤ problem.spec.horizon + 1, sim.before c = pre c := by
  obtain ⟨initial, hinitial, hstart⟩ := hinitial
  obtain ⟨requirements, hrequirements⟩ := exists_mapM (l := problem.stateRequirements)
    (f := activeRequirement context problem.spec.horizon initial) (by
      intro r hr
      rcases hrequirement r hr with hidle | ⟨c, v, _, hat, -⟩
      · exact ⟨none, activeRequirement_eq_none.mpr hidle⟩
      · exact ⟨some ⟨r, c, v⟩, activeRequirement_eq_some.mpr ⟨rfl, hat⟩⟩)
  obtain ⟨updates, hupdates⟩ := exists_mapM (l := problem.stateUpdates)
    (f := activeUpdate context problem.spec.horizon initial) (by
      intro u hu
      rcases hupdate u hu with hidle | ⟨c, v, hat⟩
      · exact ⟨none, activeUpdate_eq_none.mpr hidle⟩
      · exact ⟨some ⟨u, c, v⟩, activeUpdate_eq_some.mpr ⟨rfl, hat⟩⟩)
  have hmet : ∀ c < problem.spec.horizon + 1, CycleMet (requirements.filterMap id)
      (updates.filterMap id) c (pre c) (pre (c + 1)) := by
    intro c hc
    refine ⟨fun active hactive hcycle => ?_, fun name => ?_⟩
    · obtain ⟨r, hr, hf⟩ := (mem_active_iff hrequirements).mp hactive
      obtain ⟨rfl, hat⟩ := activeRequirement_eq_some.mp hf
      rcases hrequirement _ hr with hidle | ⟨c', v, actual, hat', hactual, hcompare⟩
      · exact absurd hidle hat.holds.not_idle
      · obtain ⟨rfl, rfl⟩ := hat'.unique hat
        rw [← hcycle]
        exact ⟨actual, hactual, hcompare⟩
    · rw [writes_eq hupdates c name]
      exact hwrites c (Nat.le_of_lt_succ hc) name
  obtain ⟨sim, hsim, hlength, hbefore⟩ := exists_simulate hstart hmet
  exact ⟨initial, requirements, updates, sim, hinitial, hrequirements, hupdates, hsim, hlength,
    hbefore⟩

/-- The simulation accepts exactly when there is a run. -/
theorem simulateState_isOk_iff :
    (∃ result, simulateState problem context = .ok result) ↔
      ∃ pre, StateRun problem context pre := by
  constructor
  · rintro ⟨result, h⟩
    obtain ⟨-, pre, hrun, -⟩ := stateRun_of_simulateState h
    exact ⟨pre, hrun⟩
  · rintro ⟨pre, hrun⟩
    obtain ⟨initial, requirements, updates, sim, hinitial, hrequirements, hupdates, hsim, hlength,
      hbefore⟩ := exists_simulation hrun.initial hrun.requirement hrun.update hrun.writes
    have hagree : ∀ c ≤ problem.spec.horizon, sim.before c = pre c :=
      fun c hc => hbefore c (Nat.le_succ_of_le hc)
    have hforwards : problem.guardedForwards.forM
        (checkForward context problem.spec.horizon initial sim) = .ok ⟨⟩ := by
      rw [forM_eq_ok]
      intro item hitem
      rw [checkForward_eq_ok hlength, ForwardMet]
      simp only [guardsReturn_congr hagree]
      exact hrun.forward item hitem
    have hsupports : problem.guardedSupports.forM
        (checkSupport context problem.spec.horizon initial sim) = .ok ⟨⟩ := by
      rw [forM_eq_ok]
      intro item hitem
      rw [checkSupport_eq_ok hlength, SupportMet, supported_congr hagree]
      exact hrun.support item hitem
    exact ⟨_, bind_eq_ok.mpr ⟨_, hinitial, bind_eq_ok.mpr ⟨_, hrequirements, bind_eq_ok.mpr ⟨_,
      hupdates, bind_eq_ok.mpr ⟨_, hsim, bind_eq_ok.mpr ⟨_, hforwards, bind_eq_ok.mpr ⟨_,
        hsupports, rfl⟩⟩⟩⟩⟩⟩⟩

theorem checkStateSemantics_feasible_iff {interpreter : Interpreter}
    {assignment : Dict String Value} :
    (∃ result, checkStateSemantics problem interpreter assignment = .ok result ∧
      result.feasible = true) ↔
    ∃ pre, StateRun problem (problem.context interpreter assignment) pre := by
  rw [← simulateState_isOk_iff]
  unfold checkStateSemantics
  constructor
  · rintro ⟨result, h, hfeasible⟩
    split at h
    · rename_i result' h'
      exact ⟨result', h'⟩
    · rename_i result' h'
      cases h
      have hrejects : result.feasible = false := raises_simulateState _ h'
      rw [hrejects] at hfeasible
      cases hfeasible
    · cases h
  · rintro ⟨result, h⟩
    rw [h]
    exact ⟨result, rfl, (stateRun_of_simulateState h).1⟩

end Umcm
