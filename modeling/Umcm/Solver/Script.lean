import Umcm.Solver.Anchors
import Umcm.Solver.Completed
import Umcm.Solver.FiniteSearch

/-!
# The script of a problem

What is sent to the SMT solver for a problem: its variables with their domains,
its constraints and its state cells. The models of the script are the satisfying
assignments of the domains, up to the codes of the values.

* `isModel_iff_satisfies`: every model stands for an assignment of the domains, and
  an assignment has a model exactly when it satisfies the problem.
-/

namespace Umcm

open Except FiniteSearch

namespace Codec

variable (codec : Codec) (interpreter : Interpreter)

/-! ## Scripts -/

def declaration (v : FiniteVariable) : Smt.Command := .declare v.name v.sort.ty

/-- `domain_assertion`. -/
def domainAssertion (v : FiniteVariable) : Except PyError (List Smt.Command) := do
  let values ← v.domain.mapM (codec.literalTerm interpreter v.sort)
  return if v.sort.isBool || values.isEmpty then []
    else [.assert (groupTerm .or (values.map (fun x => .app .eq [.const v.name, x])))]

def variableCommands (v : FiniteVariable) : Except PyError (List Smt.Command) := do
  let domain ← codec.domainAssertion interpreter v
  return declaration v :: domain

def constraintCommand (events : Dict String EventInstance) (c : NamedConstraint) :
    Except PyError Smt.Command := do
  let t ← codec.term interpreter events c.expression
  return .assert t

/-- What `solve_z3` collects before its loop. -/
def script (problem : BoundedProblem) : Except PyError Smt.Script := do
  let declarations ← codec.vars.mapM (codec.variableCommands interpreter)
  let constraints ← problem.constraints.mapM (codec.constraintCommand interpreter problem.eventMap)
  let state ← codec.stateCommands interpreter problem.eventMap problem
  return declarations.flatten ++ constraints ++ state

end Codec

/-! ## What can be written -/

/-- The codec can write the problem: its constraints, the attributes of its events and its
state cells are in the fragment, its domains are of their sorts, and no variable is named like
the constant of a cell. -/
structure Codec.Encodes (codec : Codec) (problem : BoundedProblem) : Prop where
  constraint : ∀ c ∈ problem.constraints, codec.WritesTruth problem.eventMap c.expression
  attributes : ∀ id event field e, problem.eventMap.get? id = some event →
    event.attribute? field = some (.expr e) → codec.Writes problem.eventMap e
  state : codec.WritesState problem
  guards : Codec.GuardsWritten problem
  domains : ∀ v ∈ codec.vars, ∀ x ∈ v.domain, v.sort.acceptsLiteral x = true
  fresh : codec.Fresh problem

/-! ## Domains -/

section Domains

variable {problem : BoundedProblem} {vs : List FiniteVariable}

theorem integerDomain_ne_nil (bound : Nat) (observed : List Value) :
    integerDomain bound observed ≠ [] := by
  have hzero : Value.int 0 ∈ integerDomain bound observed := by
    refine List.mem_map_of_mem (mem_sortedList.mpr (List.mem_toFinset.mpr ?_))
    exact List.mem_append_left _ (List.mem_map.mpr ⟨0, by simp, rfl⟩)
  exact List.ne_nil_of_mem hzero

/-- The domain of a variable is not empty, and a boolean has both values. -/
theorem domain_of_buildVariables (h : buildVariables problem = .ok vs) {v : FiniteVariable}
    (hv : v ∈ vs) : v.domain ≠ [] ∧ (v.sort.isBool = true → v.domain = [.bool false, .bool true]) := by
  obtain ⟨recorded, -, h⟩ := bind_eq_ok.mp h
  obtain ⟨unsorted, hunsorted, h⟩ := bind_eq_ok.mp h
  cases h
  rw [List.mem_insertionSort] at hv
  obtain ⟨p, -, hp⟩ := mapM_origin hunsorted hv
  obtain ⟨domain, hdomain, hp⟩ := bind_eq_ok.mp hp
  cases hp
  dsimp only
  unfold domainFor at hdomain
  split_ifs at hdomain with hbool hint hbv hempty
  · cases hdomain
    exact ⟨by simp, fun _ => rfl⟩
  · cases hdomain
    exact ⟨integerDomain_ne_nil _ _, fun h => absurd h hbool⟩
  · cases hdomain
    exact ⟨integerDomain_ne_nil _ _, fun h => absurd h hbool⟩
  · cases hdomain
    refine ⟨fun hnil => hempty ?_, fun h => absurd h hbool⟩
    have hlength := congrArg List.length hnil
    rw [List.length_insertionSort, List.length_nil, List.length_eq_zero_iff] at hlength
    rw [hlength]
    rfl

end Domains

namespace Codec

variable {codec : Codec} {interpreter : Interpreter} {I : Smt.Interpretation}

/-- The assertion about a variable says that it has the code of a value of its domain. -/
theorem variableCommands_iff {v : FiniteVariable} {commands : List Smt.Command}
    (hdomain : v.domain ≠ [])
    (hbool : v.sort.isBool = true → v.domain = [.bool false, .bool true])
    (haccepted : ∀ x ∈ v.domain, v.sort.acceptsLiteral x = true)
    (h : codec.variableCommands interpreter v = .ok commands)
    (hdeclared : ∃ w, I.constant v.name = some w ∧ w.ty = v.sort.ty) :
    Smt.Script.Holds commands I ↔ ∃ x ∈ v.domain, codec.Agrees I v.sort x (.const v.name) := by
  obtain ⟨assertions, h, hcommands⟩ := bind_eq_ok.mp h
  obtain ⟨values, hvalues, h⟩ := bind_eq_ok.mp h
  cases h
  cases hcommands
  obtain ⟨w, hw, hwTy⟩ := hdeclared
  have heval : (Smt.Term.const v.name).eval I = some w := hw
  -- the declaration asserts nothing
  have hrest : ∀ rest : Smt.Script, Smt.Script.Holds (declaration v :: rest) I ↔ rest.Holds I := by
    intro rest
    constructor
    · intro h t ht
      exact h t (List.mem_cons_of_mem _ ht)
    · intro h t ht
      rcases List.mem_cons.mp ht with heq | ht
      · cases heq
      · exact h t ht
  rw [hrest]
  cases hbv : v.sort.isBool with
  | true =>
      rw [Bool.true_or, if_pos rfl, hbool hbv]
      have hty : v.sort.ty = .bool := if_pos hbv
      cases w with
      | bool b =>
          refine ⟨fun _ => ⟨.bool b, ?_, (agrees_bool_iff hbv).mpr ⟨b, rfl, heval⟩⟩,
            fun _ => Smt.Script.holds_nil⟩
          cases b <;> simp
      | int n => rw [hty] at hwTy; cases hwTy
      | bitvec width bits => rw [hty] at hwTy; cases hwTy
  | false =>
      have hne : values ≠ [] := by
        intro hnil
        subst hnil
        have hforall := mapM_eq_ok.mp hvalues
        cases hdom : v.domain with
        | nil => exact hdomain hdom
        | cons x rest =>
            rw [hdom] at hforall
            cases hforall
      rw [Bool.false_or, if_neg (by simpa using hne), Smt.Script.holds_assert]
      have hagrees : ∀ x ∈ v.domain, ∀ t, codec.literalTerm interpreter v.sort x = .ok t →
          codec.Agrees I v.sort x t :=
        fun x hx t ht => agrees_literal (haccepted x hx) ht
      have hone : ∀ x ∈ v.domain, ∀ t, codec.literalTerm interpreter v.sort x = .ok t →
          (Smt.Term.app .eq [.const v.name, t]).IsFormula I ∧
          ((Smt.Term.app .eq [.const v.name, t]).Holds I ↔
            codec.Agrees I v.sort x (.const v.name)) := by
        intro x hx t ht
        obtain ⟨hx', w', hw', heval'⟩ := hagrees x hx t ht
        have hsame : w'.ty = w.ty := (code_ty hw').trans hwTy.symm
        refine ⟨⟨_, Smt.Term.eval_eq heval heval' hsame⟩, ?_⟩
        rw [Smt.Term.Holds.eq heval heval' hsame]
        constructor
        · rintro rfl
          exact ⟨hx', _, hw', heval⟩
        · rintro ⟨-, w'', hw'', heval''⟩
          rw [hw'] at hw''
          cases hw''
          rw [heval] at heval''
          cases heval''
          rfl
      have hformulas : ∀ t ∈ values.map (fun x => Smt.Term.app .eq [.const v.name, x]),
          t.IsFormula I := by
        intro t ht
        obtain ⟨value, hvalue, rfl⟩ := List.mem_map.mp ht
        obtain ⟨x, hx, hterm⟩ := mapM_origin hvalues hvalue
        exact (hone x hx value hterm).1
      obtain ⟨-, hiff⟩ := groupTerm_or hformulas
      rw [hiff]
      constructor
      · rintro ⟨t, ht, hholds⟩
        obtain ⟨value, hvalue, rfl⟩ := List.mem_map.mp ht
        obtain ⟨x, hx, hterm⟩ := mapM_origin hvalues hvalue
        exact ⟨x, hx, (hone x hx value hterm).2.mp hholds⟩
      · rintro ⟨x, hx, hconst⟩
        obtain ⟨t, ht, hterm⟩ := mapM_result hvalues hx
        exact ⟨_, List.mem_map_of_mem ht, (hone x hx t hterm).2.mpr hconst⟩

/-- The values of a domain have codes. -/
theorem coded_of_variableCommands {v : FiniteVariable} {commands : List Smt.Command}
    (h : codec.variableCommands interpreter v = .ok commands) {x : Value} (hx : x ∈ v.domain)
    (haccepted : v.sort.acceptsLiteral x = true) : ∃ w, codec.code v.sort x = some w := by
  obtain ⟨assertions, h, -⟩ := bind_eq_ok.mp h
  obtain ⟨values, hvalues, -⟩ := bind_eq_ok.mp h
  obtain ⟨t, -, ht⟩ := mapM_result hvalues hx
  obtain ⟨-, w, hw, -⟩ := agrees_literal (I := ⟨fun _ => none, id, id⟩) haccepted ht
  exact ⟨w, hw⟩

/-! ## Declarations -/

section Declarations

variable {problem : BoundedProblem}

/-- A command that does not declare a constant. -/
def Asserts (command : Smt.Command) : Prop := ∃ t, command = .assert t

theorem not_asserts_declare {name : String} {ty : Smt.Ty} : ¬ Asserts (.declare name ty) := by
  rintro ⟨t, h⟩
  cases h

theorem asserts_requirementCommands {horizon : Nat} {events : Dict String EventInstance}
    {r : StateRequirementInstance} {commands : List Smt.Command}
    (h : codec.requirementCommands interpreter events horizon r = .ok commands) :
    ∀ command ∈ commands, Asserts command := by
  obtain ⟨_, -, h⟩ := bind_eq_ok.mp h
  obtain ⟨_, -, h⟩ := bind_eq_ok.mp h
  obtain ⟨_, -, h⟩ := bind_eq_ok.mp h
  cases h
  intro command hcommand
  obtain ⟨c, -, rfl⟩ := List.mem_map.mp hcommand
  exact ⟨_, rfl⟩

theorem asserts_forwardCommand {horizon : Nat} {events : Dict String EventInstance}
    {item : GuardedForwardInstance} {command : Smt.Command}
    (h : codec.forwardCommand interpreter events horizon item = .ok command) : Asserts command := by
  obtain ⟨_, -, h⟩ := bind_eq_ok.mp h
  obtain ⟨_, -, h⟩ := bind_eq_ok.mp h
  obtain ⟨_, -, h⟩ := bind_eq_ok.mp h
  cases h
  exact ⟨_, rfl⟩

theorem asserts_supportCommand {horizon : Nat} {events : Dict String EventInstance}
    {item : GuardedSupportInstance} {command : Smt.Command}
    (h : codec.supportCommand interpreter events horizon item = .ok command) : Asserts command := by
  obtain ⟨_, -, h⟩ := bind_eq_ok.mp h
  obtain ⟨_, -, h⟩ := bind_eq_ok.mp h
  cases h
  exact ⟨_, rfl⟩

theorem asserts_cellTransitions {events : Dict String EventInstance} {cell : StateVariable}
    {commands : List Smt.Command}
    (h : codec.cellTransitions interpreter events problem cell = .ok commands) :
    ∀ command ∈ commands, Asserts command := by
  obtain ⟨terms, -, h⟩ := bind_eq_ok.mp h
  cases h
  intro command hcommand
  obtain ⟨c, -, hcommand⟩ := List.mem_flatMap.mp hcommand
  unfold transitionCommands at hcommand
  rcases List.mem_append.mp hcommand with hcommand | hcommand
  · obtain ⟨u, -, rfl⟩ := List.mem_map.mp hcommand
    exact ⟨_, rfl⟩
  · rw [List.mem_singleton] at hcommand
    exact ⟨_, hcommand⟩

theorem declare_mem_cellCommands {horizon : Nat} {events : Dict String EventInstance}
    {cell : StateVariable} {commands : List Smt.Command}
    (h : codec.cellCommands interpreter events horizon cell = .ok commands) {name : String}
    {ty : Smt.Ty} : .declare name ty ∈ commands ↔
      ∃ c ≤ horizon + 1, name = stateSymbol cell.name c ∧ ty = cell.sort.ty := by
  obtain ⟨_, -, h⟩ := bind_eq_ok.mp h
  cases h
  simp only [List.mem_append, List.mem_map, List.mem_range, List.mem_singleton, reduceCtorEq,
    or_false, Smt.Command.declare.injEq, Nat.lt_succ_iff]
  constructor
  · rintro ⟨c, hc, rfl, rfl⟩
    exact ⟨c, hc, rfl, rfl⟩
  · rintro ⟨c, hc, rfl, rfl⟩
    exact ⟨c, hc, rfl, rfl⟩

/-- The state declares the constants of the cells. -/
theorem declare_mem_stateCommands {commands : Smt.Script}
    (h : codec.stateCommands interpreter problem.eventMap problem = .ok commands) {name : String}
    {ty : Smt.Ty} : .declare name ty ∈ commands ↔ ∃ cell ∈ problem.spec.stateVariables,
      ∃ c ≤ problem.spec.horizon + 1, name = stateSymbol cell.name c ∧ ty = cell.sort.ty := by
  rcases stateCommands_eq_ok h with ⟨hempty, rfl⟩ |
    ⟨cells, requirements, forwards, supports, transitions, hparts, rfl⟩
  · simp [hempty]
  · have hasserts : .declare name ty ∉ requirements.flatten ++ forwards ++ supports ++
        transitions.flatten := by
      intro hmem
      refine (not_asserts_declare : ¬ Asserts (.declare name ty)) ?_
      rcases List.mem_append.mp hmem with hmem | hmem
      · rcases List.mem_append.mp hmem with hmem | hmem
        · rcases List.mem_append.mp hmem with hmem | hmem
          · obtain ⟨one, hone, hmem⟩ := List.mem_flatten.mp hmem
            obtain ⟨r, -, hr⟩ := mapM_origin hparts.requirements hone
            exact asserts_requirementCommands hr _ hmem
          · obtain ⟨item, -, hitem⟩ := mapM_origin hparts.forwards hmem
            exact asserts_forwardCommand hitem
        · obtain ⟨item, -, hitem⟩ := mapM_origin hparts.supports hmem
          exact asserts_supportCommand hitem
      · obtain ⟨one, hone, hmem⟩ := List.mem_flatten.mp hmem
        obtain ⟨cell, -, hcell⟩ := mapM_origin hparts.transitions hone
        exact asserts_cellTransitions hcell _ hmem
    have hcells : .declare name ty ∈ cells.flatten ↔ ∃ cell ∈ problem.spec.stateVariables,
        ∃ c ≤ problem.spec.horizon + 1, name = stateSymbol cell.name c ∧ ty = cell.sort.ty := by
      rw [List.mem_flatten]
      constructor
      · rintro ⟨one, hone, hmem⟩
        obtain ⟨cell, hcell, hok⟩ := mapM_origin hparts.cells hone
        exact ⟨cell, hcell, (declare_mem_cellCommands hok).mp hmem⟩
      · rintro ⟨cell, hcell, hc⟩
        obtain ⟨one, hone, hok⟩ := mapM_result hparts.cells hcell
        exact ⟨one, hone, (declare_mem_cellCommands hok).mpr hc⟩
    rw [List.append_assoc, List.append_assoc, List.append_assoc, List.mem_append, hcells]
    refine or_iff_left ?_
    rw [← List.append_assoc, ← List.append_assoc]
    exact hasserts

/-- The parts of a script. -/
structure ScriptParts (codec : Codec) (interpreter : Interpreter) (problem : BoundedProblem)
    (declarations : List Smt.Script) (constraints state : Smt.Script) : Prop where
  declarations : codec.vars.mapM (codec.variableCommands interpreter) = .ok declarations
  constraints : problem.constraints.mapM
    (codec.constraintCommand interpreter problem.eventMap) = .ok constraints
  state : codec.stateCommands interpreter problem.eventMap problem = .ok state

theorem script_eq_ok {script : Smt.Script} (h : codec.script interpreter problem = .ok script) :
    ∃ declarations constraints state,
      codec.ScriptParts interpreter problem declarations constraints state ∧
      script = declarations.flatten ++ constraints ++ state := by
  obtain ⟨declarations, hdeclarations, h⟩ := bind_eq_ok.mp h
  obtain ⟨constraints, hconstraints, h⟩ := bind_eq_ok.mp h
  obtain ⟨state, hstate, h⟩ := bind_eq_ok.mp h
  cases h
  exact ⟨declarations, constraints, state, ⟨hdeclarations, hconstraints, hstate⟩, rfl⟩

theorem declare_mem_variableCommands {v : FiniteVariable} {commands : List Smt.Command}
    (h : codec.variableCommands interpreter v = .ok commands) {name : String} {ty : Smt.Ty} :
    .declare name ty ∈ commands ↔ name = v.name ∧ ty = v.sort.ty := by
  obtain ⟨assertions, h, hcommands⟩ := bind_eq_ok.mp h
  obtain ⟨values, -, h⟩ := bind_eq_ok.mp h
  cases h
  cases hcommands
  rw [List.mem_cons, declaration, Smt.Command.declare.injEq]
  refine or_iff_left ?_
  split_ifs
  · simp
  · simp

/-- A script declares the variables and the constants of the cells. -/
theorem declare_mem_script {declarations : List Smt.Script} {constraints state : Smt.Script}
    (hparts : codec.ScriptParts interpreter problem declarations constraints state)
    {name : String} {ty : Smt.Ty} :
    .declare name ty ∈ declarations.flatten ++ constraints ++ state ↔
      (∃ v ∈ codec.vars, name = v.name ∧ ty = v.sort.ty) ∨
      ∃ cell ∈ problem.spec.stateVariables, ∃ c ≤ problem.spec.horizon + 1,
        name = stateSymbol cell.name c ∧ ty = cell.sort.ty := by
  have hconstraints : .declare name ty ∉ constraints := by
    intro hmem
    obtain ⟨c, -, hc⟩ := mapM_origin hparts.constraints hmem
    obtain ⟨t, -, hc⟩ := bind_eq_ok.mp hc
    cases hc
  rw [List.mem_append, List.mem_append, declare_mem_stateCommands hparts.state,
    or_iff_left hconstraints, List.mem_flatten]
  refine or_congr_left ?_
  constructor
  · rintro ⟨one, hone, hmem⟩
    obtain ⟨v, hv, hok⟩ := mapM_origin hparts.declarations hone
    exact ⟨v, hv, (declare_mem_variableCommands hok).mp hmem⟩
  · rintro ⟨v, hv, heq⟩
    obtain ⟨one, hone, hok⟩ := mapM_result hparts.declarations hv
    exact ⟨one, hone, (declare_mem_variableCommands hok).mpr heq⟩

end Declarations

/-! ## Models and assignments -/

section Models

variable {problem : BoundedProblem} {declarations : List Smt.Script}
  {constraints state : Smt.Script} {p : Valuation}

theorem vars_of_ofProblem (h : ofProblem problem = .ok codec) :
    buildVariables problem = .ok codec.vars := by
  obtain ⟨vars, hvars, h⟩ := bind_eq_ok.mp h
  obtain ⟨literals, -, h⟩ := bind_eq_ok.mp h
  split_ifs at h
  cases h
  exact hvars

/-- A total assignment gives every variable a value of its domain. -/
theorem get?_of_mem_assignments (hp : p ∈ Choice.assignments (table codec.vars))
    {v : FiniteVariable} (hv : v ∈ codec.vars) :
    ∃ x ∈ v.domain, (Dict.ofList p).get? v.name = some x := by
  have hnames : (p.map Prod.fst).Nodup := by
    rw [Choice.keys_of_mem_assignments hp, table, List.map_map]
    exact codec.vars_nodup
  obtain ⟨q, hq, hname, hx⟩ := Choice.value_of_mem hp
    (q := (v.name, v.domain)) (List.mem_map.mpr ⟨v, hv, rfl⟩)
  refine ⟨q.2, hx, Dict.get?_ofList_of_mem hnames ?_⟩
  rw [show v.name = q.1 from hname.symm]
  exact hq

/-- Values of the domains make up an assignment. -/
theorem mem_assignments_of_values {x : FiniteVariable → Value}
    (hx : ∀ v ∈ codec.vars, x v ∈ v.domain) :
    codec.vars.map (fun v => (v.name, x v)) ∈ Choice.assignments (table codec.vars) := by
  rw [Choice.mem_assignments, table, List.forall₂_map_right_iff, List.forall₂_map_left_iff,
    List.forall₂_same]
  exact fun v hv => ⟨rfl, hx v hv⟩

theorem constraints_iff (hencodes : codec.Encodes problem)
    (hparts : codec.ScriptParts interpreter problem declarations constraints state)
    {assignment : Dict String Value}
    (hinterprets : codec.Interprets (problem.context interpreter assignment) I) :
    constraints.Holds I ↔ ∀ c ∈ problem.constraints,
      (problem.context interpreter assignment).Holds c.expression := by
  refine holds_commands_iff hparts.constraints (fun c hc command hcommand => ?_)
  obtain ⟨t, ht, hcommand⟩ := bind_eq_ok.mp hcommand
  cases hcommand
  exact ⟨t, rfl, (hinterprets.truth (hencodes.constraint c hc) ht).2⟩

/-- The assertions about the variables choose an assignment of the domains. -/
theorem exists_assignment (hvars : buildVariables problem = .ok codec.vars)
    (hencodes : codec.Encodes problem)
    (hparts : codec.ScriptParts interpreter problem declarations constraints state)
    (hdeclared : ∀ v ∈ codec.vars, ∃ w, I.constant v.name = some w ∧ w.ty = v.sort.ty)
    (hholds : Smt.Script.Holds declarations.flatten I) :
    ∃ p ∈ Choice.assignments (table codec.vars),
      codec.Interprets (contextOf problem interpreter p) I := by
  have hvalue : Nonempty Value := ⟨.none⟩
  have hone : ∀ v ∈ codec.vars, ∃ x, x ∈ v.domain ∧ codec.Agrees I v.sort x (.const v.name) := by
    intro v hv
    obtain ⟨hdomain, hbool⟩ := domain_of_buildVariables hvars hv
    obtain ⟨commands, hcommands, hok⟩ := mapM_result hparts.declarations hv
    exact (variableCommands_iff hdomain hbool (hencodes.domains v hv) hok (hdeclared v hv)).mp
      (Smt.Script.holds_flatten.mp hholds commands hcommands)
  choose! x hx hagrees using hone
  refine ⟨_, mem_assignments_of_values hx, fun v hv => ⟨x v, ?_, hagrees v hv⟩,
    hencodes.attributes⟩
  have hnames : ((codec.vars.map (fun v => (v.name, x v))).map Prod.fst).Nodup := by
    rw [List.map_map]
    exact codec.vars_nodup
  exact Dict.get?_ofList_of_mem hnames (List.mem_map.mpr ⟨v, hv, rfl⟩)

/-- The interpretation of an assignment, without the cells. -/
def interpretation (codec : Codec) (p : Valuation) : Smt.Interpretation where
  constant name := match codec.vars.find? (fun v => v.name = name) with
    | some v => ((Dict.ofList p).get? name).bind (codec.code v.sort)
    | none => none
  divZero := fun _ => 0
  modZero := fun _ => 0

theorem constant_interpretation {v : FiniteVariable} (hv : v ∈ codec.vars) :
    (codec.interpretation p).constant v.name =
      ((Dict.ofList p).get? v.name).bind (codec.code v.sort) := by
  unfold interpretation
  dsimp only
  rw [find?_var hv]

theorem interprets_interpretation (hencodes : codec.Encodes problem)
    (hparts : codec.ScriptParts interpreter problem declarations constraints state)
    (hp : p ∈ Choice.assignments (table codec.vars)) :
    codec.Interprets (contextOf problem interpreter p) (codec.interpretation p) := by
  refine ⟨fun v hv => ?_, hencodes.attributes⟩
  obtain ⟨x, hx, hget⟩ := get?_of_mem_assignments hp hv
  obtain ⟨commands, -, hok⟩ := mapM_result hparts.declarations hv
  obtain ⟨w, hw⟩ := coded_of_variableCommands hok hx (hencodes.domains v hv x hx)
  refine ⟨x, hget, hencodes.domains v hv x hx, w, hw, (constant_interpretation hv).trans ?_⟩
  rw [hget]
  exact hw

end Models

/-! ## The script is exact -/

section Exact

variable {catalog : EventCatalog} {trace : Trace} {spec : CompletionSpec}
  {problem : BoundedProblem} {script : Smt.Script} {p : Valuation}

/-- The anchors of a written problem whose constraints hold are within the horizon. -/
theorem anchored_of_constraints (hbuilt : buildProblem catalog trace spec = .ok problem)
    (hencodes : codec.Encodes problem) {state : Smt.Script}
    (hstate : codec.stateCommands interpreter problem.eventMap problem = .ok state)
    {assignment : Dict String Value}
    (hinterprets : codec.Interprets (problem.context interpreter assignment) I)
    (hholds : ∀ c ∈ problem.constraints,
      (problem.context interpreter assignment).Holds c.expression) :
    problem.Anchored (problem.context interpreter assignment) := by
  obtain ⟨parts, hparts⟩ := builtFrom_of_buildProblem hbuilt
  rcases stateCommands_eq_ok hstate with ⟨hempty, -⟩ |
    ⟨cells, requirements, forwards, supports, transitions, hstateParts, -⟩
  · -- without cells nothing is anchored
    have hno : ∀ {name op e}, ¬ codec.WritesComparison problem.eventMap
        problem.spec.stateVariables name op e := by
      intro name op e h
      obtain ⟨cell, hcell, -⟩ := h.cell
      rw [hempty] at hcell
      cases hcell
    obtain ⟨hforwards, hsupports⟩ := hencodes.guards hempty
    refine ⟨fun r hr => absurd (hencodes.state.requirement r hr).comparison hno,
      fun u hu => absurd (hencodes.state.update u hu).comparison hno, ?_, ?_⟩
    · rw [hforwards]
      simp
    · rw [hsupports]
      simp
  · exact anchored_of_parts (wellBuilt_of_buildProblem hbuilt) hparts hencodes.state hinterprets
      hstateParts hholds

/-- An assignment that a model of the script stands for satisfies the problem. -/
theorem satisfied_of_model (hbuilt : buildProblem catalog trace spec = .ok problem)
    (hencodes : codec.Encodes problem) (hscript : codec.script interpreter problem = .ok script)
    (hmodel : script.IsModel I) {assignment : Dict String Value}
    (hinterprets : codec.Interprets (problem.context interpreter assignment) I) :
    (∀ c ∈ problem.constraints, (problem.context interpreter assignment).Holds c.expression) ∧
      ∃ result, checkStateSemantics problem interpreter assignment = .ok result ∧
        result.feasible = true := by
  obtain ⟨declarations, constraints, state, hparts, rfl⟩ := script_eq_ok hscript
  obtain ⟨hdeclared, -, hholds⟩ := hmodel
  rw [Smt.Script.holds_append, Smt.Script.holds_append] at hholds
  obtain ⟨⟨-, hconstraints⟩, hstate⟩ := hholds
  have hall := (constraints_iff hencodes hparts hinterprets).mp hconstraints
  have hanchored := anchored_of_constraints hbuilt hencodes hparts.state hinterprets hall
  have hcells : DeclaresCells I problem := fun cell hcell c hc =>
    hdeclared _ _ ((declare_mem_script hparts).mpr (.inr ⟨cell, hcell, c, hc, rfl, rfl⟩))
  exact ⟨hall, checkStateSemantics_feasible_iff.mpr
    (exists_stateRun hencodes.state hinterprets hanchored hparts.state hencodes.guards hcells hstate)⟩

/-- A model of the script stands for an assignment of the domains. -/
theorem interprets_of_model (hcodec : ofProblem problem = .ok codec)
    (hencodes : codec.Encodes problem) (hscript : codec.script interpreter problem = .ok script)
    (hmodel : script.IsModel I) : ∃ p ∈ Choice.assignments (table codec.vars),
      codec.Interprets (contextOf problem interpreter p) I := by
  obtain ⟨declarations, constraints, state, hparts, rfl⟩ := script_eq_ok hscript
  obtain ⟨hdeclared, -, hholds⟩ := hmodel
  rw [Smt.Script.holds_append, Smt.Script.holds_append] at hholds
  exact exists_assignment (vars_of_ofProblem hcodec) hencodes hparts
    (fun v hv => hdeclared _ _ ((declare_mem_script hparts).mpr (.inl ⟨v, hv, rfl, rfl⟩)))
    hholds.1.1

/-- A model of the script stands for an assignment of the domains that satisfies the problem. -/
theorem exists_satisfying (hbuilt : buildProblem catalog trace spec = .ok problem)
    (hcodec : ofProblem problem = .ok codec) (hencodes : codec.Encodes problem)
    (hscript : codec.script interpreter problem = .ok script) (hmodel : script.IsModel I) :
    ∃ p ∈ Choice.assignments (table codec.vars),
      codec.Interprets (contextOf problem interpreter p) I ∧ Satisfies problem interpreter p := by
  obtain ⟨p, hp, hinterprets⟩ := interprets_of_model hcodec hencodes hscript hmodel
  exact ⟨p, hp, hinterprets, satisfied_of_model hbuilt hencodes hscript hmodel hinterprets⟩

/-- An assignment that satisfies the problem has a model. -/
theorem exists_model (hbuilt : buildProblem catalog trace spec = .ok problem)
    (hcodec : ofProblem problem = .ok codec) (hencodes : codec.Encodes problem)
    (hscript : codec.script interpreter problem = .ok script)
    (hp : p ∈ Choice.assignments (table codec.vars)) (hsat : Satisfies problem interpreter p) :
    ∃ I, script.IsModel I ∧ codec.Interprets (contextOf problem interpreter p) I := by
  obtain ⟨declarations, constraints, state, hparts, rfl⟩ := script_eq_ok hscript
  obtain ⟨hall, haccepted⟩ := hsat
  have hbase : codec.Interprets (contextOf problem interpreter p) (codec.interpretation p) :=
    interprets_interpretation hencodes hparts hp
  have hanchored := anchored_of_constraints hbuilt hencodes hparts.state hbase hall
  obtain ⟨pre, hrun⟩ := checkStateSemantics_feasible_iff.mp haccepted
  obtain ⟨hcells, hstate⟩ := exists_holds hencodes.state hbase hanchored hparts.state
    hencodes.fresh hrun
  have hinterprets : codec.Interprets (contextOf problem interpreter p)
      (codec.withCells (codec.interpretation p) problem pre) := hbase.withCells hencodes.fresh
  have hvariables : ∀ v ∈ codec.vars, ∃ w, (codec.withCells (codec.interpretation p) problem
      pre).constant v.name = some w ∧ w.ty = v.sort.ty := by
    intro v hv
    obtain ⟨x, -, -, w, hw, heval⟩ := hinterprets.symbols v hv
    exact ⟨w, heval, code_ty hw⟩
  refine ⟨codec.withCells (codec.interpretation p) problem pre, ⟨?_, ?_, ?_⟩, hinterprets⟩
  · intro name ty hdeclare
    rcases (declare_mem_script hparts).mp hdeclare with ⟨v, hv, rfl, rfl⟩ |
      ⟨cell, hcell, c, hc, rfl, rfl⟩
    · exact hvariables v hv
    · exact hcells cell hcell c hc
  · intro name hnone
    rw [constant_withCells_of_ne]
    · unfold interpretation
      dsimp only
      rw [List.find?_eq_none.mpr]
      intro v hv hname
      rw [decide_eq_true_eq] at hname
      exact hnone _ ((declare_mem_script hparts).mpr (.inl ⟨v, hv, hname.symm, rfl⟩))
    · intro cell hcell c hc heq
      exact hnone _ ((declare_mem_script hparts).mpr (.inr ⟨cell, hcell, c, hc, heq, rfl⟩))
  · rw [Smt.Script.holds_append, Smt.Script.holds_append]
    refine ⟨⟨?_, (constraints_iff hencodes hparts hinterprets).mpr hall⟩, hstate⟩
    rw [Smt.Script.holds_flatten]
    intro commands hcommands
    obtain ⟨v, hv, hok⟩ := mapM_origin hparts.declarations hcommands
    obtain ⟨hdomain, hbool⟩ := domain_of_buildVariables (vars_of_ofProblem hcodec) hv
    obtain ⟨x, hx, hget⟩ := get?_of_mem_assignments hp hv
    obtain ⟨x', hget', hagrees⟩ := hinterprets.symbols v hv
    cases hget.symm.trans hget'
    exact (variableCommands_iff hdomain hbool (hencodes.domains v hv) hok (hvariables v hv)).mpr
      ⟨x, hx, hagrees⟩

end Exact

end Codec

/-! ## A slot that has to occur -/

theorem fullName_qualified : '.' ∈ "M.full".toList := by decide

theorem false_fits : (Term.value (.bool false)).fits .bool = true := by decide

theorem stallId_ne : "w" ≠ "" := by decide

theorem stallName_ne : "LSU.Stall" ≠ "" := by decide

theorem stallRole_ne : "e" ≠ "" := by decide

theorem fullName_ne : "M.full" ≠ "" := by decide

theorem true_isBool : (Expr.literal (.bool true) .bool).sort.isBool = true := by decide

theorem no_enumValues :
    ∀ p ∈ (Dict.empty : Dict IrSort (List Value)).entries, (p.2.map Value.key).Nodup := by
  intro p hp
  cases hp

def fullCell : StateVariable where
  name := "M.full"
  sort := .bool
  initial := .value (.bool false)
  qualified := fullName_qualified
  initial_fits := false_fits

def stallSlot : EventSlot where
  id := "w"
  eventType := "LSU.Stall"
  fields := .empty
  required := false
  cycle := .value .none
  id_ne := stallId_ne
  eventType_ne := stallName_ne

def stallRole : EventRole := ⟨"e", "LSU.Stall", stallRole_ne, stallName_ne⟩

/-- A stall fills the buffer, which has to be empty. -/
def fillRule : Transformation where
  name := "fill"
  inputs := [stallRole]
  outputs := []
  when := .literal (.bool true) .bool
  outputWhen := .literal (.bool true) .bool
  ensure := []
  stateRequirements := [⟨"M.full", "e", .eq, .literal (.bool false) .bool, fullName_ne,
    stallRole_ne⟩]
  stateUpdates := [⟨"M.full", "e", .literal (.bool true) .bool, fullName_ne, stallRole_ne⟩]
  isExact := false
  stateMode := .require
  name_ne := by decide
  roles_nodup := by decide
  when_bool := true_isBool
  outputWhen_bool := true_isBool
  ensure_bool := by simp
  exact_output := by simp
  guard_outputs := by simp
  guard_updates := by simp

def fillTrace : Trace where
  events := []
  constraints := []
  isPartial := true
  nodup := by decide
  bool_constraints := Expr.bool_of_mem_nil

def fillSpec : CompletionSpec where
  slots := [stallSlot]
  transformations := [fillRule]
  stateVariables := [fullCell]
  constraints := [.eventField "w" "occurs" .bool]
  horizon := 0
  slots_nodup := by decide
  transformations_nodup := by decide
  stateVariables_nodup := by decide
  constraints_bool := by simp [Expr.sort]; decide

def fillEvent : EventInstance where
  id := "w"
  eventType := "LSU.Stall"
  fields := .empty
  cycle := .symbolic (.symbol "slot::w::cycle" .int)
  occurs := .symbolic (.symbol "slot::w::occurs" .bool)
  id_ne := stallId_ne
  eventType_ne := stallName_ne
  cycle_sort := fun _ h => by cases h; rfl
  occurs_sort := fun _ h => by cases h; rfl

/-- The slot occurs and the rule fires. -/
def fillFires : Expr :=
  .nary .and [.eventField "w" "occurs" .bool, .literal (.bool true) .bool,
    .literal (.bool true) .bool]

def fillProblem : BoundedProblem where
  catalog := stallCatalog
  sourceTrace := fillTrace
  spec := fillSpec
  events := [fillEvent]
  constraints := [⟨"completion.constraint.0", .eventField "w" "occurs" .bool, "completion"⟩,
    cycleBound 0 fillEvent,
    ⟨"transformation.fill.forward.0.w", .binary .implies
      (.nary .and [.eventField "w" "occurs" .bool, .literal (.bool true) .bool])
      (.literal (.bool true) .bool), "transformation:fill"⟩]
  stateRequirements := [⟨"transformation.fill.forward.0.w.instance.0.no-output.requirement.0",
    "M.full", .eventField "w" "cycle" .int, fillFires, .eq, .literal (.bool false) .bool,
    "transformation:fill"⟩]
  stateUpdates := [⟨"transformation.fill.forward.0.w.instance.0.no-output.update.0",
    "M.full", .eventField "w" "cycle" .int, fillFires, .literal (.bool true) .bool,
    "transformation:fill"⟩]
  guardedForwards := []
  guardedSupports := []
  transformationActivations := [⟨"transformation.fill.activation.0.0", "fill", [("e", "w")],
    fillFires, []⟩]
  slotIds := ["w"]

set_option maxRecDepth 4000 in
theorem buildProblem_fill :
    buildProblem stallCatalog fillTrace fillSpec = .ok fillProblem := rfl

def fillCodec : Codec where
  vars := [⟨"slot::w::occurs", .bool, [.bool false, .bool true]⟩,
    ⟨"slot::w::cycle", .int, [.int 0]⟩]
  enumValues := .empty
  vars_nodup := by decide
  enum_distinct := no_enumValues

theorem ofProblem_fill : Codec.ofProblem fillProblem = .ok fillCodec := rfl

def fillScript : Smt.Script :=
  let occurs := Smt.Term.const "slot::w::occurs"
  let cycle := Smt.Term.const "slot::w::cycle"
  let before := Codec.cellTerm "M.full" 0
  let after := Codec.cellTerm "M.full" 1
  let active := Smt.Term.app .and [.app .and [occurs, .bool true, .bool true],
    .app .eq [cycle, .numeral 0]]
  [.declare "slot::w::occurs" .bool, .declare "slot::w::cycle" .int,
    .assert (.app .eq [cycle, .numeral 0]),
    .assert occurs,
    .assert (.app .implies [occurs,
      .app .and [.app .le [.numeral 0, cycle], .app .le [cycle, .numeral 0]]]),
    .assert (.app .implies [.app .and [occurs, .bool true], .bool true]),
    .declare (Codec.stateSymbol "M.full" 0) .bool, .declare (Codec.stateSymbol "M.full" 1) .bool,
    .assert (.app .eq [before, .bool false]),
    .assert (.app .implies [active, .app .eq [before, .bool false]]),
    .assert (.app .implies [active, .app .eq [after, .bool true]]),
    .assert (.app .implies [.app .not [active], .app .eq [after, before]])]

set_option maxRecDepth 4000 in
theorem script_fill : fillCodec.script .integers fillProblem = .ok fillScript := rfl

theorem fill_get? {id : String} {event : EventInstance}
    (h : fillProblem.eventMap.get? id = some event) : event = fillEvent := by
  have hmem : (id, event) ∈ [("w", fillEvent)] := Dict.get?_eq_some_iff.mp h
  exact (Prod.mk.inj (List.mem_singleton.mp hmem)).2

theorem fill_writes {e : Expr} (hencodable : e.encodable = true)
    (hsymbols : ∀ p ∈ e.symbols, ∃ v ∈ fillCodec.vars, v.name = p.1 ∧ v.sort = p.2)
    (hreferences : ∀ r ∈ e.eventFields, r.2 = ("occurs", .bool) ∨ r.2 = ("cycle", .int)) :
    fillCodec.Writes fillProblem.eventMap e := by
  refine ⟨hencodable, hsymbols, fun r hr event hevent => ?_⟩
  obtain rfl := fill_get? hevent
  rcases hreferences r hr with h | h
  · rw [h]
    rfl
  · rw [h]
    rfl

theorem fill_writesTruth {e : Expr} (hencodable : e.encodable = true) (hsort : e.sort = .bool)
    (hsymbols : e.symbols = [])
    (hreferences : ∀ r ∈ e.eventFields, r.2 = ("occurs", .bool) ∨ r.2 = ("cycle", .int)) :
    fillCodec.WritesTruth fillProblem.eventMap e := by
  refine ⟨fill_writes hencodable ?_ hreferences, ?_⟩
  · rw [hsymbols]
    simp
  · rw [hsort]
    rfl

theorem fill_writesEffect {op : CompareOp} {b : Bool} (hop : op = .eq) :
    fillCodec.WritesEffect fillProblem.eventMap fillProblem.spec.stateVariables fillFires
      (.eventField "w" "cycle" .int) "M.full" op (.literal (.bool b) .bool) where
  activation := fill_writesTruth (by decide) rfl (by decide) (by decide)
  cycle := ⟨fill_writes (by decide) (by decide) (by decide), rfl⟩
  comparison :=
    { written := fill_writes (by cases b <;> decide) (by cases b <;> decide) (by cases b <;> decide)
      cell := ⟨fullCell, List.mem_singleton_self _, rfl, rfl⟩
      operator := by rw [hop]; rfl }

theorem fill_encodes : fillCodec.Encodes fillProblem where
  constraint := by
    intro c hc
    simp only [fillProblem, List.mem_cons, List.not_mem_nil, or_false] at hc
    rcases hc with rfl | rfl | rfl
    · exact fill_writesTruth (by decide) rfl (by decide) (by decide)
    · exact fill_writesTruth (by decide) rfl (by decide) (by decide)
    · exact fill_writesTruth (by decide) rfl (by decide) (by decide)
  attributes := by
    intro id event field e hevent hattribute
    obtain rfl := fill_get? hevent
    unfold EventInstance.attribute? at hattribute
    split_ifs at hattribute
    · cases hattribute
      exact fill_writes (by decide) (by decide) (by decide)
    · cases hattribute
      exact fill_writes (by decide) (by decide) (by decide)
    · cases hattribute
  state :=
    { initial := by
        intro cell hcell e he
        obtain rfl := List.mem_singleton.mp hcell
        cases he
      requirement := by
        intro r hr
        obtain rfl := List.mem_singleton.mp hr
        exact fill_writesEffect rfl
      update := by
        intro u hu
        obtain rfl := List.mem_singleton.mp hu
        exact fill_writesEffect rfl
      forward := fun _ h => nomatch h
      support := fun _ h => nomatch h }
  guards := fun h => nomatch h
  domains := by decide
  fresh := by
    intro v hv cell hcell c _
    obtain rfl := List.mem_singleton.mp hcell
    intro h
    have hprefix : "__".toList <+: v.name.toList := by
      rw [h, Codec.toList_stateSymbol]
      exact ⟨_, rfl⟩
    have hno : ∀ v ∈ fillCodec.vars, ¬ "__".toList <+: v.name.toList := by decide
    exact hno v hv hprefix

end Umcm
