import Umcm.Solver.Firing
import Umcm.Solver.StateExact

/-!
# The encoding of the state cells is exact

Between the interpretations of the constants of the cells and the runs of the
cells. A run gives the constants their values. An interpretation that satisfies
the assertions gives every cell before every cycle the code of what the
simulation computes, by induction on the cycles.

* `exists_stateRun`: assertions that hold have a run.
* `stateCommands_hold`: with the values of a run the assertions hold.
-/

namespace Umcm

open Except StateRun StateCheck

/-! ## The initial state -/

section Initial

variable {context : EvaluationContext} {cells : List StateVariable}

/-- Cells whose initial values are known have an initial state. -/
theorem exists_initialState
    (h : ∀ cell ∈ cells, ∃ v, context.evaluateTerm cell.initial = .ok (some v)) :
    ∃ state, initialState context cells = .ok state := by
  unfold initialState
  generalize (Dict.empty : Dict String Value) = state
  induction cells generalizing state with
  | nil => exact ⟨state, rfl⟩
  | cons cell rest ih =>
      obtain ⟨⟨v, hv⟩, hrest⟩ := List.forall_mem_cons.mp h
      have hset : setInitial context state cell = .ok (state.insert cell.name v) := by
        unfold setInitial concreteTerm
        rw [hv]
        rfl
      rw [List.foldlM_cons, hset]
      exact ih hrest _

/-- A cell of the initial state has its initial value. -/
theorem get?_initialState {state : Dict String Value}
    (hnodup : (cells.map StateVariable.name).Nodup) (h : initialState context cells = .ok state)
    {cell : StateVariable} (hcell : cell ∈ cells) :
    ∃ v, context.evaluateTerm cell.initial = .ok (some v) ∧ state.get? cell.name = some v := by
  have hall := foldlM_invariant (fun seen state => (seen.map StateVariable.name).Nodup →
    ∀ cell ∈ seen, ∃ v, context.evaluateTerm cell.initial = .ok (some v) ∧
      state.get? cell.name = some v) ?_ ?_ h
  · exact hall hnodup cell hcell
  · intro seen last state state' hseen hstep hnodup cell hcell
    rw [List.map_append, List.nodup_append] at hnodup
    rcases List.mem_append.mp hcell with hcell | hcell
    · have hne : cell.name ≠ last.name := by
        intro heq
        refine hnodup.2.2 cell.name (List.mem_map_of_mem hcell) last.name ?_ heq
        exact List.mem_map_of_mem (List.mem_singleton_self last)
      rw [StateRun.get?_setInitial_of_ne hstep hne]
      exact hseen hnodup.1 cell hcell
    · rw [List.mem_singleton] at hcell
      subst hcell
      obtain ⟨result, hresult, hstep⟩ := bind_eq_ok.mp hstep
      unfold concreteTerm at hresult
      rw [mapError_eq_ok] at hresult
      rcases result with _ | v
      · exact absurd hstep reject_ne_ok
      · cases hstep
        exact ⟨v, hresult, Dict.get?_insert_self _ _ _⟩
  · intro _ cell hcell
    cases hcell

end Initial

/-! ## The parts of the script -/

namespace Codec

variable {codec : Codec} {interpreter : Interpreter} {problem : BoundedProblem}

/-- The parts of the script of a problem with cells. -/
structure StateParts (codec : Codec) (interpreter : Interpreter) (problem : BoundedProblem)
    (cells requirements : List Smt.Script) (forwards supports : List Smt.Command)
    (transitions : List Smt.Script) : Prop where
  cells : problem.spec.stateVariables.mapM
    (codec.cellCommands interpreter problem.eventMap problem.spec.horizon) = .ok cells
  requirements : problem.stateRequirements.mapM
    (codec.requirementCommands interpreter problem.eventMap problem.spec.horizon) =
      .ok requirements
  forwards : problem.guardedForwards.mapM
    (codec.forwardCommand interpreter problem.eventMap problem.spec.horizon) = .ok forwards
  supports : problem.guardedSupports.mapM
    (codec.supportCommand interpreter problem.eventMap problem.spec.horizon) = .ok supports
  transitions : problem.spec.stateVariables.mapM
    (codec.cellTransitions interpreter problem.eventMap problem) = .ok transitions

theorem stateCommands_eq_ok {commands : Smt.Script}
    (h : codec.stateCommands interpreter problem.eventMap problem = .ok commands) :
    (problem.spec.stateVariables = [] ∧ commands = []) ∨
      ∃ cells requirements forwards supports transitions,
        codec.StateParts interpreter problem cells requirements forwards supports transitions ∧
        commands =
          cells.flatten ++ requirements.flatten ++ forwards ++ supports ++ transitions.flatten := by
  unfold stateCommands at h
  split_ifs at h with hempty
  · cases h
    exact .inl ⟨List.isEmpty_iff.mp hempty, rfl⟩
  · obtain ⟨cells, hcells, h⟩ := bind_eq_ok.mp h
    obtain ⟨requirements, hrequirements, h⟩ := bind_eq_ok.mp h
    obtain ⟨forwards, hforwards, h⟩ := bind_eq_ok.mp h
    obtain ⟨supports, hsupports, h⟩ := bind_eq_ok.mp h
    obtain ⟨_, -, h⟩ := bind_eq_ok.mp h
    obtain ⟨transitions, htransitions, h⟩ := bind_eq_ok.mp h
    cases h
    exact .inr ⟨cells, requirements, forwards, supports, transitions,
      ⟨hcells, hrequirements, hforwards, hsupports, htransitions⟩, rfl⟩

end Codec

/-- The anchors of everything that is active are within the horizon. -/
structure BoundedProblem.Anchored (problem : BoundedProblem) (context : EvaluationContext) :
    Prop where
  requirement : ∀ r ∈ problem.stateRequirements, context.Holds r.activation →
    context.Anchored problem.spec.horizon r.cycle
  update : ∀ u ∈ problem.stateUpdates, context.Holds u.activation →
    context.Anchored problem.spec.horizon u.cycle
  forward : ∀ item ∈ problem.guardedForwards, context.Holds item.antecedent →
    ∀ guard ∈ item.predicates, context.Anchored problem.spec.horizon guard.cycle
  support : ∀ item ∈ problem.guardedSupports, context.Holds item.antecedent →
    ∀ candidate ∈ item.supports, context.Holds candidate.expression →
      ∀ guard ∈ candidate.predicates, context.Anchored problem.spec.horizon guard.cycle

namespace Codec

section Parts

variable {codec : Codec} {problem : BoundedProblem} {interpreter : Interpreter}
  {assignment : Dict String Value} {I : Smt.Interpretation} {pre : CellStates}
  {cells requirements transitions : List Smt.Script} {forwards supports : List Smt.Command}

/-- The constants of the cells have values of their sorts. -/
def DeclaresCells (I : Smt.Interpretation) (problem : BoundedProblem) : Prop :=
  ∀ cell ∈ problem.spec.stateVariables, ∀ c ≤ problem.spec.horizon + 1,
    ∃ w, (cellTerm cell.name c).eval I = some w ∧ w.ty = cell.sort.ty

theorem StandsFor.declares
    (h : codec.StandsFor I problem.spec.stateVariables problem.spec.horizon pre) :
    DeclaresCells I problem := by
  intro cell hcell c hc
  obtain ⟨v, -, -, w, hw, heval⟩ := h cell hcell c hc
  exact ⟨w, heval, code_ty hw⟩

/-- Values with the code of one term are equal. -/
theorem Agrees.key_eq {s : IrSort} {v v' : Value} {t : Smt.Term} (h : codec.Agrees I s v t)
    (h' : codec.Agrees I s v' t) : v.key = v'.key := by
  obtain ⟨hv, w, hw, heval⟩ := h
  obtain ⟨hv', w', hw', heval'⟩ := h'
  rw [heval] at heval'
  cases heval'
  exact (code_eq_iff hv hv' hw hw').mp rfl

/-- One assertion for every element. -/
theorem holds_commands_iff {α : Type} {f : α → Except PyError Smt.Command} {l : List α}
    {commands : Smt.Script} (h : l.mapM f = .ok commands) {p : α → Prop}
    (hf : ∀ a ∈ l, ∀ command, f a = .ok command →
      ∃ t, command = .assert t ∧ (t.Holds I ↔ p a)) :
    commands.Holds I ↔ ∀ a ∈ l, p a := by
  have hone : ∀ a ∈ l, ∀ command, f a = .ok command →
      (p a ↔ ∀ t, command = .assert t → t.Holds I) := by
    intro a ha command hcommand
    obtain ⟨t, rfl, hiff⟩ := hf a ha command hcommand
    rw [← hiff]
    constructor
    · rintro hholds _ heq
      cases heq
      exact hholds
    · intro hall
      exact hall t rfl
  rw [forall_mapM_iff h hone]
  constructor
  · rintro hholds _ hcommand t rfl
    exact hholds t hcommand
  · intro hall t ht
    exact hall _ ht t rfl

theorem initialTerm_agrees
    (hinterprets : codec.Interprets (problem.context interpreter assignment) I)
    {cell : StateVariable}
    (hcell : ∀ e, cell.initial = .expr e → codec.Writes problem.eventMap e) {t : Smt.Term}
    (h : codec.initialTerm interpreter problem.eventMap cell = .ok t) :
    ∃ v, (problem.context interpreter assignment).evaluateTerm cell.initial = .ok (some v) ∧
      codec.Agrees I cell.sort v t := by
  have hfits := cell.initial_fits
  unfold initialTerm at h
  unfold EvaluationContext.evaluateTerm
  cases hinitial : cell.initial with
  | value v =>
      rw [hinitial] at h hfits
      exact ⟨v, rfl, agrees_literal hfits h⟩
  | expr e =>
      rw [hinitial] at h hfits
      obtain ⟨v, hv, hagrees⟩ := hinterprets.value (hcell e hinitial) h
      have hsort : e.sort = cell.sort := of_decide_eq_true hfits
      rw [hsort] at hagrees
      exact ⟨v, hv, hagrees⟩

variable (hwrites : codec.WritesState problem)
  (hinterprets : codec.Interprets (problem.context interpreter assignment) I)
  (hparts : codec.StateParts interpreter problem cells requirements forwards supports transitions)

include hwrites hinterprets hparts

/-- The requirements and the guarded rules. -/
theorem effects_iff
    (hstands : codec.StandsFor I problem.spec.stateVariables problem.spec.horizon pre)
    (hanchored : problem.Anchored (problem.context interpreter assignment)) :
    Smt.Script.Holds (requirements.flatten ++ forwards ++ supports) I ↔
      (∀ r ∈ problem.stateRequirements,
        RequirementMet (problem.context interpreter assignment) problem.spec.horizon pre r) ∧
      (∀ item ∈ problem.guardedForwards,
        ForwardMet (problem.context interpreter assignment) problem.spec.horizon pre item) ∧
      (∀ item ∈ problem.guardedSupports,
        SupportMet (problem.context interpreter assignment) problem.spec.horizon pre item) := by
  rw [Smt.Script.holds_append, Smt.Script.holds_append, and_assoc]
  refine and_congr ?_ (and_congr ?_ ?_)
  · rw [Smt.Script.holds_flatten]
    refine (forall_mapM_iff hparts.requirements (fun r hr commands hcommands => ?_)).symm
    exact (requirementCommands_iff hstands hinterprets (hwrites.requirement r hr)
      (hanchored.requirement r hr) hcommands).symm
  · refine holds_commands_iff hparts.forwards (fun item hitem command hcommand => ?_)
    obtain ⟨hantecedent, hconsequent, hguards⟩ := hwrites.forward item hitem
    exact forwardCommand_iff hstands hinterprets hantecedent hconsequent hguards
      (hanchored.forward item hitem) hcommand
  · refine holds_commands_iff hparts.supports (fun item hitem command hcommand => ?_)
    obtain ⟨hantecedent, hcandidates⟩ := hwrites.support item hitem
    exact supportCommand_iff hstands hinterprets hantecedent hcandidates
      (hanchored.support item hitem) hcommand

/-- The initial values. -/
theorem cells_iff (hdeclares : DeclaresCells I problem) : Smt.Script.Holds cells.flatten I ↔
    ∀ cell ∈ problem.spec.stateVariables, ∃ v,
      (problem.context interpreter assignment).evaluateTerm cell.initial = .ok (some v) ∧
        codec.Agrees I cell.sort v (cellTerm cell.name 0) := by
  rw [Smt.Script.holds_flatten]
  refine (forall_mapM_iff hparts.cells (fun cell hcell commands hcommands => ?_)).symm
  obtain ⟨t, ht, hcommands⟩ := bind_eq_ok.mp hcommands
  cases hcommands
  obtain ⟨v, hv, haccepted, w, hw, heval⟩ :=
    initialTerm_agrees hinterprets (hwrites.initial cell hcell) ht
  obtain ⟨first, hfirst, hfirstTy⟩ := hdeclares cell hcell 0 (Nat.zero_le _)
  have hsame : w.ty = first.ty := (code_ty hw).trans hfirstTy.symm
  rw [Smt.Script.holds_append, Smt.Script.holds_assert, Smt.Term.Holds.eq hfirst heval hsame]
  constructor
  · rintro ⟨v', hv', -, w', hw', heval'⟩
    rw [hv] at hv'
    cases hv'
    rw [hw] at hw'
    cases hw'
    rw [hfirst] at heval'
    cases heval'
    refine ⟨fun t ht => ?_, rfl⟩
    obtain ⟨c, -, heq⟩ := List.mem_map.mp ht
    cases heq
  · rintro ⟨-, rfl⟩
    exact ⟨v, hv, haccepted, w, hw, hfirst⟩

omit hinterprets in
/-- Every update has terms. -/
theorem exists_updateTerms {u : StateUpdateInstance} (hu : u ∈ problem.stateUpdates) :
    ∃ terms, codec.updateTerms interpreter problem.eventMap u = .ok terms := by
  obtain ⟨cell, hcell, hname, -⟩ := (hwrites.update u hu).comparison.cell
  obtain ⟨commands, -, hcommands⟩ := mapM_result hparts.transitions hcell
  obtain ⟨terms, hterms, -⟩ := bind_eq_ok.mp hcommands
  obtain ⟨one, -, hone⟩ := mapM_result hterms
    (List.mem_filter.mpr ⟨hu, decide_eq_true hname.symm⟩)
  exact ⟨one, hone⟩

omit hinterprets hparts in
/-- The values of an update are of the sort of its cell. -/
theorem sort_of_update {u : StateUpdateInstance} (hu : u ∈ problem.stateUpdates)
    {cell : StateVariable} (hcell : cell ∈ problem.spec.stateVariables)
    (hname : u.state = cell.name) : u.value.sort = cell.sort := by
  obtain ⟨other, hother, hotherName, hsort⟩ := (hwrites.update u hu).comparison.cell
  have hsame : other = cell := List.inj_on_of_nodup_map problem.spec.stateVariables_nodup hother
    hcell (hotherName.trans hname)
  rw [← hsort, hsame]

/-- What is written to a cell is of its sort and has a code. -/
theorem written_coded {c : Nat} {cell : StateVariable} {v : Value}
    (hcell : cell ∈ problem.spec.stateVariables)
    (h : WrittenIn problem (problem.context interpreter assignment) c cell.name v) :
    ∃ t, codec.Agrees I cell.sort v t := by
  obtain ⟨u, hu, hname, hactive⟩ := h
  obtain ⟨terms, hterms⟩ := exists_updateTerms hwrites hparts hu
  obtain ⟨v', hv', hagrees, -⟩ := updateTerms_spec problem.spec.horizon hinterprets
    (hwrites.update u hu) hterms
  rw [hactive.value_eq] at hv'
  cases hv'
  rw [sort_of_update hwrites hu hcell hname] at hagrees
  exact ⟨_, hagrees⟩

/-- The updates. -/
theorem transitions_iff (hdeclares : DeclaresCells I problem) :
    Smt.Script.Holds transitions.flatten I ↔
      ∀ cell ∈ problem.spec.stateVariables, ∀ c ≤ problem.spec.horizon,
        (∀ v, WrittenIn problem (problem.context interpreter assignment) c cell.name v →
          codec.Agrees I cell.sort v (cellTerm cell.name (c + 1))) ∧
        ((∀ v, ¬ WrittenIn problem (problem.context interpreter assignment) c cell.name v) →
          (cellTerm cell.name (c + 1)).eval I = (cellTerm cell.name c).eval I) := by
  rw [Smt.Script.holds_flatten]
  refine (forall_mapM_iff hparts.transitions (fun cell hcell commands hcommands => ?_)).symm
  obtain ⟨terms, hterms, hcommands⟩ := bind_eq_ok.mp hcommands
  cases hcommands
  have hupdates : ∀ u ∈ problem.stateUpdates.filter (fun u => u.state = cell.name),
      u.value.sort = cell.sort ∧ codec.WritesEffect problem.eventMap problem.spec.stateVariables
        u.activation u.cycle u.state .eq u.value := by
    intro u hu
    obtain ⟨hu, hname⟩ := List.mem_filter.mp hu
    exact ⟨sort_of_update hwrites hu hcell (of_decide_eq_true hname), hwrites.update u hu⟩
  rw [List.flatMap_def, Smt.Script.holds_flatten, List.forall_mem_map]
  refine forall_congr' (fun c => ?_)
  rw [mem_cycles]
  refine imp_congr_right (fun hc => ?_)
  obtain ⟨before, hbefore, hbeforeTy⟩ := hdeclares cell hcell c (Nat.le_succ_of_le hc)
  obtain ⟨after, hafter, hafterTy⟩ := hdeclares cell hcell (c + 1) (Nat.succ_le_succ hc)
  rw [transitionCommands_iff hinterprets hupdates hterms hc hbefore hbeforeTy hafter hafterTy,
    hafter, hbefore, Option.some.injEq]
  refine and_congr ⟨fun h u hu v hactive => ?_, ?_⟩ (imp_congr_left ?_)
  · obtain ⟨hu, hname⟩ := List.mem_filter.mp hu
    obtain ⟨-, w, hw, heval⟩ := h v ⟨u, hu, of_decide_eq_true hname, hactive⟩
    rw [hafter] at heval
    cases heval
    exact hw
  · rintro h v ⟨u, hu, hname, hactive⟩
    obtain ⟨_, haccepted, -⟩ :=
      written_coded hwrites hinterprets hparts hcell ⟨u, hu, hname, hactive⟩
    have hcode := h u (List.mem_filter.mpr ⟨hu, decide_eq_true hname⟩) v hactive
    exact ⟨haccepted, after, hcode, hafter⟩
  · constructor
    · intro h u hu v hactive
      obtain ⟨hu, hname⟩ := List.mem_filter.mp hu
      exact h v ⟨u, hu, of_decide_eq_true hname, hactive⟩
    · rintro h v ⟨u, hu, hname, hactive⟩
      exact h u (List.mem_filter.mpr ⟨hu, decide_eq_true hname⟩) v hactive

/-! ## From the assertions to a run -/

/-- The constants stand for the values that the simulation computes. -/
theorem standsFor_simulatedCells (hdeclares : DeclaresCells I problem)
    (hcells : Smt.Script.Holds cells.flatten I)
    (htransitions : Smt.Script.Holds transitions.flatten I) {state : Dict String Value}
    (hstate : initialState (problem.context interpreter assignment) problem.spec.stateVariables =
      .ok state) :
    codec.StandsFor I problem.spec.stateVariables problem.spec.horizon
      (simulatedCells problem (problem.context interpreter assignment) state.get?) := by
  rw [cells_iff hwrites hinterprets hparts hdeclares] at hcells
  rw [transitions_iff hwrites hinterprets hparts hdeclares] at htransitions
  intro cell hcell c hc
  induction c with
  | zero =>
      obtain ⟨v, hv, hagrees⟩ := hcells cell hcell
      obtain ⟨v', hv', hget⟩ := get?_initialState problem.spec.stateVariables_nodup hstate hcell
      rw [hv] at hv'
      cases hv'
      exact ⟨v, hget, hagrees⟩
  | succ c ih =>
      have hinside : c ≤ problem.spec.horizon := Nat.le_of_succ_le_succ hc
      obtain ⟨hwritten, hkept⟩ := htransitions cell hcell c hinside
      unfold simulatedCells
      cases hwrites : problem.stateUpdates.filterMap
          (activeWrite (problem.context interpreter assignment) c cell.name) with
      | nil =>
          -- no update is active, and the constant of the next cycle is that of this one
          obtain ⟨v, hv, haccepted, w, hw, heval⟩ := ih (Nat.le_of_succ_le hc)
          refine ⟨v, hv, haccepted, w, hw, ?_⟩
          rw [hkept (fun v hv => ?_), heval]
          have hmem := (mem_writes_iff hinside).mpr hv
          rw [hwrites] at hmem
          cases hmem
      | cons v rest =>
          refine ⟨v, rfl, hwritten v ((mem_writes_iff hinside).mp ?_)⟩
          rw [hwrites]
          exact List.mem_cons_self

/-- Assertions that hold have a run. -/
theorem exists_stateRun_of_parts (hdeclares : DeclaresCells I problem)
    (hanchored : problem.Anchored (problem.context interpreter assignment))
    (hcells : Smt.Script.Holds cells.flatten I)
    (heffects : Smt.Script.Holds (requirements.flatten ++ forwards ++ supports) I)
    (htransitions : Smt.Script.Holds transitions.flatten I) :
    ∃ pre, StateRun problem (problem.context interpreter assignment) pre := by
  have hinitial := (cells_iff hwrites hinterprets hparts hdeclares).mp hcells
  obtain ⟨state, hstate⟩ := exists_initialState (fun cell hcell => by
    obtain ⟨v, hv, -⟩ := hinitial cell hcell
    exact ⟨v, hv⟩)
  have hstands := standsFor_simulatedCells hwrites hinterprets hparts hdeclares hcells htransitions
    hstate
  have hnext := (transitions_iff hwrites hinterprets hparts hdeclares).mp htransitions
  obtain ⟨hrequirement, hforward, hsupport⟩ :=
    (effects_iff hwrites hinterprets hparts hstands hanchored).mp heffects
  refine ⟨_, ⟨state, hstate, rfl⟩, hrequirement, fun u hu => ?_, fun c hc name => ?_, hforward,
    hsupport⟩
  · obtain ⟨terms, hterms⟩ := exists_updateTerms hwrites hparts hu
    obtain ⟨activation, hactivation, hterms⟩ := bind_eq_ok.mp hterms
    obtain ⟨cycle, -, hterms⟩ := bind_eq_ok.mp hterms
    obtain ⟨value, hvalue, -⟩ := bind_eq_ok.mp hterms
    obtain ⟨v, hv, -⟩ := hinterprets.value (hwrites.update u hu).comparison.written hvalue
    by_cases hactive : (problem.context interpreter assignment).Holds u.activation
    · obtain ⟨c, hc, hat⟩ := hanchored.update u hu hactive
      exact .inr ⟨c, v, hactive, hat, hc, hv⟩
    · exact .inl ((hinterprets.idle_iff (hwrites.update u hu).activation hactivation).mpr hactive)
  · show Written _ _ ((problem.stateUpdates.filterMap
      (activeWrite (problem.context interpreter assignment) c name)).head?.or _)
    cases hwritten : problem.stateUpdates.filterMap
        (activeWrite (problem.context interpreter assignment) c name) with
    | nil => rfl
    | cons v rest =>
        have hall : ∀ w ∈ v :: rest,
            WrittenIn problem (problem.context interpreter assignment) c name w := by
          intro w hw
          rw [← hwritten] at hw
          exact (mem_writes_iff hc).mp hw
        obtain ⟨u, hu, hname, -⟩ := hall v List.mem_cons_self
        obtain ⟨cell, hcell, hcellName, -⟩ := (hwrites.update u hu).comparison.cell
        obtain rfl : cell.name = name := hcellName.trans hname
        -- all writes have the code of the one next constant
        have hcode : ∀ w ∈ v :: rest, codec.Agrees I cell.sort w (cellTerm cell.name (c + 1)) :=
          fun w hw => (hnext cell hcell c hc).1 w (hall w hw)
        obtain ⟨old, hold, -⟩ := hstands cell hcell c (Nat.le_succ_of_le hc)
        refine ⟨fun w hw => ?_, by simp [hold], rfl⟩
        exact Value.pyEq_iff.mpr
          ((hcode w (List.mem_cons_of_mem _ hw)).key_eq (hcode v List.mem_cons_self))

/-! ## From a run to the assertions -/

/-- The values of the cells in a run have codes. -/
theorem run_coded (hrun : StateRun problem (problem.context interpreter assignment) pre)
    {cell : StateVariable} (hcell : cell ∈ problem.spec.stateVariables) {c : Nat}
    (hc : c ≤ problem.spec.horizon + 1) :
    ∃ v t, pre c cell.name = some v ∧ codec.Agrees I cell.sort v t := by
  induction c with
  | zero =>
      obtain ⟨state, hstate, hpre⟩ := hrun.initial
      obtain ⟨v, hv, hget⟩ := get?_initialState problem.spec.stateVariables_nodup hstate hcell
      obtain ⟨commands, -, hcommands⟩ := mapM_result hparts.cells hcell
      obtain ⟨t, ht, -⟩ := bind_eq_ok.mp hcommands
      obtain ⟨v', hv', hagrees⟩ := initialTerm_agrees hinterprets (hwrites.initial cell hcell) ht
      rw [hv] at hv'
      cases hv'
      rw [hpre] at hget
      exact ⟨v, t, hget, hagrees⟩
  | succ c ih =>
      have hinside : c ≤ problem.spec.horizon := Nat.le_of_succ_le_succ hc
      have hwritten := hrun.writes c hinside cell.name
      cases hwrites' : problem.stateUpdates.filterMap
          (activeWrite (problem.context interpreter assignment) c cell.name) with
      | nil =>
          rw [hwrites'] at hwritten
          obtain ⟨v, t, hv, hagrees⟩ := ih (Nat.le_of_succ_le hc)
          exact ⟨v, t, hwritten.trans hv, hagrees⟩
      | cons v rest =>
          rw [hwrites'] at hwritten
          have hv : v ∈ problem.stateUpdates.filterMap
              (activeWrite (problem.context interpreter assignment) c cell.name) := by
            rw [hwrites']
            exact List.mem_cons_self
          obtain ⟨t, hagrees⟩ := written_coded hwrites hinterprets hparts hcell
            ((mem_writes_iff hinside).mp hv)
          exact ⟨v, t, hwritten.2.2, hagrees⟩

/-- With the values of a run the assertions hold. -/
theorem parts_hold (hrun : StateRun problem (problem.context interpreter assignment) pre)
    (hanchored : problem.Anchored (problem.context interpreter assignment))
    (hstands : codec.StandsFor I problem.spec.stateVariables problem.spec.horizon pre) :
    Smt.Script.Holds cells.flatten I ∧
      Smt.Script.Holds (requirements.flatten ++ forwards ++ supports) I ∧
      Smt.Script.Holds transitions.flatten I := by
  refine ⟨?_, ?_, ?_⟩
  · rw [cells_iff hwrites hinterprets hparts hstands.declares]
    intro cell hcell
    obtain ⟨state, hstate, hpre⟩ := hrun.initial
    obtain ⟨v, hv, hget⟩ := get?_initialState problem.spec.stateVariables_nodup hstate hcell
    obtain ⟨v', hv', hagrees⟩ := hstands cell hcell 0 (Nat.zero_le _)
    rw [hpre, hv'] at hget
    cases hget
    exact ⟨_, hv, hagrees⟩
  · exact (effects_iff hwrites hinterprets hparts hstands hanchored).mpr
      ⟨hrun.requirement, hrun.forward, hrun.support⟩
  · rw [transitions_iff hwrites hinterprets hparts hstands.declares]
    intro cell hcell c hc
    obtain ⟨hkept, hwritten⟩ := (hrun.writes c hc cell.name).cases
    obtain ⟨before, hbefore, -, w, hw, heval⟩ := hstands cell hcell c (Nat.le_succ_of_le hc)
    obtain ⟨after, hafter, haccepted, w', hw', heval'⟩ :=
      hstands cell hcell (c + 1) (Nat.succ_le_succ hc)
    refine ⟨fun v hv => ?_, fun hnone => ?_⟩
    · obtain ⟨t, hv', code, hcode, -⟩ := written_coded hwrites hinterprets hparts hcell hv
      obtain ⟨-, hsame, -⟩ := hwritten v ((mem_writes_iff hc).mpr hv)
      rw [hafter] at hsame
      have hkey : v.key = after.key := Option.some.inj hsame
      have hcodes : code = w' := (code_eq_iff hv' haccepted hcode hw').mpr hkey
      rw [← hcodes] at heval'
      exact ⟨hv', code, hcode, heval'⟩
    · have hnil : problem.stateUpdates.filterMap
          (activeWrite (problem.context interpreter assignment) c cell.name) = [] := by
        rw [List.eq_nil_iff_forall_not_mem]
        exact fun v hv => hnone v ((mem_writes_iff hc).mp hv)
      have hsame := hkept hnil
      rw [hbefore, hafter] at hsame
      cases hsame
      rw [heval, heval', ← hw, ← hw']

end Parts

/-! ## The constants of a run -/

/-- The cells before the cycles, in the order of their constants. -/
def cellCycles (problem : BoundedProblem) : List (StateVariable × Nat) :=
  problem.spec.stateVariables.product (List.range (problem.spec.horizon + 2))

/-- The interpretation with these values of the cells. -/
def withCells (codec : Codec) (I : Smt.Interpretation) (problem : BoundedProblem)
    (pre : CellStates) : Smt.Interpretation :=
  { I with
    constant := fun name =>
      match (cellCycles problem).find? (fun p => stateSymbol p.1.name p.2 = name) with
      | some (cell, c) => (pre c cell.name).bind (codec.code cell.sort)
      | none => I.constant name }

section Constants

variable {codec : Codec} {problem : BoundedProblem} {I : Smt.Interpretation} {pre : CellStates}

theorem mem_cellCycles {cell : StateVariable} {c : Nat} : (cell, c) ∈ cellCycles problem ↔
    cell ∈ problem.spec.stateVariables ∧ c ≤ problem.spec.horizon + 1 := by
  rw [cellCycles, List.pair_mem_product, List.mem_range]
  exact and_congr_right (fun _ => Nat.lt_succ_iff)

theorem constant_withCells {cell : StateVariable} (hcell : cell ∈ problem.spec.stateVariables)
    {c : Nat} (hc : c ≤ problem.spec.horizon + 1) :
    (codec.withCells I problem pre).constant (stateSymbol cell.name c) =
      (pre c cell.name).bind (codec.code cell.sort) := by
  unfold withCells
  dsimp only
  cases hfind : (cellCycles problem).find?
      (fun p => stateSymbol p.1.name p.2 = stateSymbol cell.name c) with
  | none =>
      rw [List.find?_eq_none] at hfind
      exact absurd (decide_eq_true rfl) (hfind (cell, c) (mem_cellCycles.mpr ⟨hcell, hc⟩))
  | some p =>
      obtain ⟨other, c'⟩ := p
      have hsymbol := List.find?_some hfind
      obtain ⟨hother, -⟩ := mem_cellCycles.mp (List.mem_of_find?_eq_some hfind)
      obtain ⟨hname, hcycle⟩ := stateSymbol_inj.mp (of_decide_eq_true hsymbol)
      have hsame : other = cell :=
        List.inj_on_of_nodup_map problem.spec.stateVariables_nodup hother hcell hname
      dsimp only at hcycle
      rw [hsame, hcycle]

theorem constant_withCells_of_ne {name : String}
    (h : ∀ cell ∈ problem.spec.stateVariables, ∀ c ≤ problem.spec.horizon + 1,
      name ≠ stateSymbol cell.name c) :
    (codec.withCells I problem pre).constant name = I.constant name := by
  unfold withCells
  dsimp only
  rw [List.find?_eq_none.mpr]
  rintro ⟨cell, c⟩ hp
  obtain ⟨hcell, hc⟩ := mem_cellCycles.mp hp
  rw [decide_eq_true_eq]
  exact fun heq => h cell hcell c hc heq.symm

/-- No variable is named like the constant of a cell. -/
def Fresh (codec : Codec) (problem : BoundedProblem) : Prop :=
  ∀ v ∈ codec.vars, ∀ cell ∈ problem.spec.stateVariables, ∀ c ≤ problem.spec.horizon + 1,
    v.name ≠ stateSymbol cell.name c

theorem Interprets.withCells {context : EvaluationContext} (hfresh : codec.Fresh problem)
    (h : codec.Interprets context I) : codec.Interprets context (codec.withCells I problem pre) := by
  refine ⟨fun v hv => ?_, h.attributes⟩
  obtain ⟨x, hx, haccepted, w, hw, heval⟩ := h.symbols v hv
  refine ⟨x, hx, haccepted, w, hw, ?_⟩
  exact (constant_withCells_of_ne (hfresh v hv)).trans heval

theorem standsFor_withCells (h : ∀ cell ∈ problem.spec.stateVariables,
    ∀ c ≤ problem.spec.horizon + 1, ∃ v t, pre c cell.name = some v ∧
      codec.Agrees I cell.sort v t) :
    codec.StandsFor (codec.withCells I problem pre) problem.spec.stateVariables
      problem.spec.horizon pre := by
  intro cell hcell c hc
  obtain ⟨v, t, hv, haccepted, w, hw, -⟩ := h cell hcell c hc
  refine ⟨v, hv, haccepted, w, hw, (constant_withCells hcell hc).trans ?_⟩
  rw [hv]
  exact hw

end Constants

/-! ## All assertions -/

section Commands

variable {codec : Codec} {problem : BoundedProblem} {interpreter : Interpreter}
  {assignment : Dict String Value} {I : Smt.Interpretation} {commands : Smt.Script}

/-- Guarded rules are only written for problems with cells. -/
def GuardsWritten (problem : BoundedProblem) : Prop :=
  problem.spec.stateVariables = [] →
    problem.guardedForwards = [] ∧ problem.guardedSupports = []

/-- Without cells there is nothing to simulate. -/
theorem stateRun_of_no_cells (hwrites : codec.WritesState problem)
    (hguards : GuardsWritten problem) (hempty : problem.spec.stateVariables = []) :
    StateRun problem (problem.context interpreter assignment) (fun _ _ => none) := by
  have hno : ∀ {name op e}, ¬ codec.WritesComparison problem.eventMap problem.spec.stateVariables
      name op e := by
    intro name op e h
    obtain ⟨cell, hcell, -⟩ := h.cell
    rw [hempty] at hcell
    cases hcell
  obtain ⟨hforwards, hsupports⟩ := hguards hempty
  have hupdates : problem.stateUpdates = [] := by
    rw [List.eq_nil_iff_forall_not_mem]
    exact fun u hu => hno (hwrites.update u hu).comparison
  refine ⟨⟨.empty, by rw [hempty]; rfl, rfl⟩,
    fun r hr => absurd (hwrites.requirement r hr).comparison hno,
    fun u hu => absurd (hwrites.update u hu).comparison hno, fun c hc name => ?_, ?_, ?_⟩
  · rw [hupdates]
    rfl
  · rw [hforwards]
    simp
  · rw [hsupports]
    simp

variable (hwrites : codec.WritesState problem)
  (hinterprets : codec.Interprets (problem.context interpreter assignment) I)
  (hanchored : problem.Anchored (problem.context interpreter assignment))
  (hcommands : codec.stateCommands interpreter problem.eventMap problem = .ok commands)

include hwrites hinterprets hanchored hcommands

/-- Assertions that hold have a run. -/
theorem exists_stateRun (hguards : GuardsWritten problem) (hdeclares : DeclaresCells I problem)
    (hholds : commands.Holds I) :
    ∃ pre, StateRun problem (problem.context interpreter assignment) pre := by
  rcases stateCommands_eq_ok hcommands with ⟨hempty, -⟩ |
    ⟨cells, requirements, forwards, supports, transitions, hparts, rfl⟩
  · exact ⟨_, stateRun_of_no_cells hwrites hguards hempty⟩
  · rw [Smt.Script.holds_append] at hholds
    obtain ⟨hholds, htransitions⟩ := hholds
    rw [List.append_assoc, List.append_assoc, Smt.Script.holds_append] at hholds
    obtain ⟨hcells, heffects⟩ := hholds
    rw [← List.append_assoc] at heffects
    exact exists_stateRun_of_parts hwrites hinterprets hparts hdeclares hanchored hcells heffects
      htransitions

/-- The values of a run make the assertions hold. -/
theorem exists_holds (hfresh : codec.Fresh problem) {pre : CellStates}
    (hrun : StateRun problem (problem.context interpreter assignment) pre) :
    DeclaresCells (codec.withCells I problem pre) problem ∧
      commands.Holds (codec.withCells I problem pre) := by
  rcases stateCommands_eq_ok hcommands with ⟨hempty, rfl⟩ |
    ⟨cells, requirements, forwards, supports, transitions, hparts, rfl⟩
  · refine ⟨fun cell hcell => ?_, Smt.Script.holds_nil⟩
    rw [hempty] at hcell
    cases hcell
  · have hstands := standsFor_withCells (fun cell hcell c hc =>
      run_coded hwrites hinterprets hparts hrun hcell hc)
    obtain ⟨hcells, heffects, htransitions⟩ := parts_hold hwrites (hinterprets.withCells hfresh)
      hparts hrun hanchored hstands
    refine ⟨hstands.declares, Smt.Script.holds_append.mpr ⟨?_, htransitions⟩⟩
    rw [List.append_assoc, List.append_assoc, Smt.Script.holds_append, ← List.append_assoc]
    exact ⟨hcells, heffects⟩

end Commands

end Codec

end Umcm
