import Umcm.Solver.FiniteExact
import Umcm.Solver.Script
import Umcm.Solver.Z3

/-!
# The SMT backend, from end to end

The texts that are exchanged with the SMT solver around the refinement loop. For
a problem that can be written, a solver that decides the script and prints its
values in standard form is asked once: its model is never rejected, and its
verdict is that of the problem.

* `smtExact_of_decides`: the verdict is right, and the model has the least number
  of slots.
* `status_eq_solveFinite`: the finite backend has the same verdict.
-/

namespace Umcm

open Except FiniteSearch

namespace Codec

variable (codec : Codec)

/-- `q`, as a text. -/
def quotedName (name : String) : String := String.ofList (q name)

/-! ## The texts -/

/-- Of a slot that does not occur only the occurrence is blocked. -/
def isBlocked (assignment : Dict String Value) (v : FiniteVariable) : Bool :=
  if "slot::".toList.isPrefixOf v.name.toList && (v.name.splitOn "::occurs").length = 1 then
    match (v.name.splitOn "::")[1]? with
    | some id => assignment.get? s!"slot::{id}::occurs" = some (.bool true)
    | none => false
  else true

/-- `_block_clause`. -/
def blockClause (interpreter : Interpreter) (assignment : Dict String Value) :
    Except PyError Smt.Command := do
  let terms ← (codec.vars.filter (fun v => (assignment.get? v.name).isSome &&
      isBlocked assignment v)).mapM (fun v => do
    let value ← codec.literalTerm interpreter v.sort ((assignment.get? v.name).getD .none)
    return Smt.Term.app .eq [.const v.name, value])
  return .assert (if terms.isEmpty then .bool false else .app .not [.app .and terms])

/-- The variables that say whether a slot occurs. -/
def occurrenceNames (problem : BoundedProblem) : List String :=
  (problem.slotIds.map (fun id => s!"slot::{id}::occurs")).filter
    (fun name => name ∈ codec.vars.map FiniteVariable.name)

def countTerm (name : String) : Smt.Term := .app .ite [.const name, .numeral 1, .numeral 0]

/-- The number of slots that occur is minimized. -/
def objective (problem : BoundedProblem) (minimizeSlots : Bool) : List Smt.Command :=
  let names := codec.occurrenceNames problem
  if minimizeSlots && !names.isEmpty then [.minimize (.app .add (names.map countTerm))] else []

def checkSatText (script : Smt.Script) : String :=
  script.text quotedName ++ "\n(check-sat)"

def getValueText (script : Smt.Script) : String :=
  checkSatText script ++ "\n" ++
    "(get-value (" ++ " ".intercalate (codec.vars.map (fun v => quotedName v.name)) ++ "))"

/-- The first line of the output. -/
def statusOf (output : String) : String :=
  match splitLines (strip output.toList) with
  | [] => "unknown"
  | first :: _ => String.ofList first

/-- One round of `solve_z3`, up to the decoded answer. -/
def query (interpreter : Interpreter) (evalSmt : String → Except PyError String)
    (script : Smt.Script) (objective : List Smt.Command) : SmtQuery := fun blocked =>
  match blocked.mapM (codec.blockClause interpreter) with
  | .error e => .raised e
  | .ok blocks =>
    let script := script ++ blocks ++ objective
    match evalSmt (checkSatText script) with
    | .error e => .raised e
    | .ok output =>
      if statusOf output = "unsat" then .unsat
      else if statusOf output ≠ "sat" then .other (statusOf output)
      else
        match evalSmt (codec.getValueText script) >>= fun output =>
            assignmentFromOutput output codec with
        | .error e => .raised e
        | .ok (_, assignment) => .model assignment

end Codec

/-- `solve_z3`, for an SMT solver that evaluates scripts. -/
def solveSmt (problem : BoundedProblem) (interpreter : Interpreter)
    (evalSmt : String → Except PyError String) (maxStateRejections : Nat) (minimizeSlots : Bool) :
    Except PyError FiniteSolveResult := do
  let codec ← Codec.ofProblem problem
  let script ← codec.script interpreter problem
  solveZ3 problem interpreter
    (codec.query interpreter evalSmt script (codec.objective problem minimizeSlots))
    maxStateRejections

/-! ## Values that are read back -/

namespace Codec

variable {codec : Codec} {s : IrSort} {I : Smt.Interpretation}

/-- What the solver prints for the code of a value is a literal of the sort. -/
theorem prints_of_code {v : Value} {w : Smt.Val} {text : List Char}
    (hv : s.acceptsLiteral v = true) (hw : codec.code s v = some w) (h : w.Prints text) :
    codec.Prints s v text := by
  have hatom : ∀ n : Int, Smt.numeralText n = intAtom n := fun n => by cases n <;> rfl
  cases hbool : s.isBool with
  | true =>
      obtain ⟨b, rfl⟩ := (IrSort.accepts_bool hbool).mp hv
      rw [code_bool hbool] at hw
      cases hw
      cases h
      exact .bool hbool b
  | false =>
      cases hint : s.isInt with
      | true =>
          obtain ⟨n, rfl⟩ := (IrSort.accepts_int hint).mp hv
          rw [code_int hint] at hw
          cases hw
          cases h
          rw [hatom]
          exact .int hint n
      | false =>
          cases hbv : s.isBitvector with
          | true =>
              obtain ⟨n, rfl, hn0, hn⟩ := (IrSort.accepts_bitvector hbv).mp hv
              obtain ⟨m, rfl⟩ := Int.eq_ofNat_of_zero_le hn0
              rw [code_bitvec hbv] at hw
              cases hw
              have hwidth : s.width = some (s.width.getD 0) := by
                obtain ⟨k, hk⟩ := Option.ne_none_iff_exists'.mp
                  (s.bv_width (by simpa [IrSort.isBitvector] using hbv))
                rw [hk, Option.getD_some]
              have hlt : m < 2 ^ s.width.getD 0 := by exact_mod_cast hn
              have hbits : (BitVec.ofInt (s.width.getD 0) (m : Int)).toNat = m := by
                rw [BitVec.ofInt_natCast, BitVec.toNat_ofNat, Nat.mod_eq_of_lt hlt]
              cases h with
              | @hex _ k _ hk =>
                  rw [hbits]
                  rw [hk] at hwidth hlt
                  exact .hex hbv hwidth hlt
              | binary =>
                  rw [hbits]
                  exact .binary hbv hwidth hlt
              | indexed =>
                  rw [hbits]
                  exact .bv hbv hwidth hlt
          | false =>
              rw [code_enum hbool hint hbv] at hw
              obtain ⟨n, hn, rfl⟩ := Option.map_eq_some_iff.mp hw
              cases h
              exact .enum (by simp [IrSort.isEnumerated, hbool, hint, hbv]) hn

theorem get?_foldl_record (hs : s.isEnumerated = false) (literals : List (Value × IrSort))
    {values : Dict IrSort (List Value)} (h : values.get? s = none) :
    (literals.foldl record values).get? s = none := by
  induction literals generalizing values with
  | nil => exact h
  | cons p literals ih =>
      rw [List.foldl_cons]
      apply ih
      unfold record
      split_ifs with henum
      · have hne : s ≠ p.2 := by
          rintro rfl
          rw [hs] at henum
          cases henum
        rw [Dict.get?_insert_of_ne _ hne]
        exact h
      · exact h

/-- Only the values of enumerated sorts are recorded. -/
theorem values_of_ofProblem {problem : BoundedProblem} (h : ofProblem problem = .ok codec)
    (hs : s.isEnumerated = false) : codec.values s = [] := by
  obtain ⟨vars, -, h⟩ := bind_eq_ok.mp h
  obtain ⟨literals, -, h⟩ := bind_eq_ok.mp h
  split_ifs at h
  cases h
  show ((ordered (recorded literals)).get? s).getD [] = []
  have hnone : (recorded literals).get? s = none := get?_foldl_record hs literals rfl
  rw [get?_ordered, hnone]
  rfl

theorem bool_of_decodeAtom {x : Sexpr} {value : Value} (hs : s.isBool = true)
    (hvalues : codec.values s = []) (h : codec.decodeAtom s x = .ok value) :
    ∃ b, value = .bool b := by
  obtain ⟨hint, hbv⟩ := isBool_excludes hs
  unfold decodeAtom at h
  rw [if_pos hs, if_neg (by simp [hbv])] at h
  split at h
  · cases h
    exact ⟨_, rfl⟩
  · cases ‹none = some _›
  · -- a number would be the code of an enumerated value
    obtain ⟨num, -, h⟩ := bind_eq_ok.mp h
    rw [if_neg (by simp [hint, hbv]), enumDecode, hvalues] at h
    simp at h

theorem int_of_decodeAtom {x : Sexpr} {value : Value} (hs : s.isInt = true ∨ s.isBitvector = true)
    (h : codec.decodeAtom s x = .ok value) : ∃ n, value = .int n := by
  have hbool : s.isBool = false := by
    rcases hs with hs | hs
    · exact (isInt_excludes hs).1
    · exact (isBitvector_excludes hs).1
  unfold decodeAtom at h
  rw [if_neg (by simp [hbool])] at h
  split at h
  · cases ‹none = some _›
  · rename_i base digits _ _
    cases hn : intOfText base digits with
    | error e =>
        rw [hn] at h
        cases h
    | ok n =>
        rw [hn] at h
        cases h
        exact ⟨n, rfl⟩
  · obtain ⟨num, -, h⟩ := bind_eq_ok.mp h
    rw [if_pos hs] at h
    cases h
    exact ⟨num, rfl⟩

/-- Equal values have the same codes. -/
theorem code_congr {v value : Value} (hs : s.isEnumerated = true) (h : value.key = v.key) :
    codec.code s value = codec.code s v := by
  obtain ⟨hbool, hint, hbv⟩ : s.isBool = false ∧ s.isInt = false ∧ s.isBitvector = false := by
    simpa [IrSort.isEnumerated, and_assoc] using hs
  have hsame : (fun w : Value => w.pyEq value) = fun w => w.pyEq v := by
    funext w
    rw [Bool.eq_iff_iff, Value.pyEq_iff, Value.pyEq_iff, h]
  rw [code_enum hbool hint hbv, code_enum hbool hint hbv, enumEncode, enumEncode, hsame]

theorem acceptsLiteral_congr {v value : Value} (hs : s.isEnumerated = true)
    (h : value.key = v.key) (hv : s.acceptsLiteral v = true) : s.acceptsLiteral value = true := by
  obtain ⟨hbool, hint, hbv⟩ : s.isBool = false ∧ s.isInt = false ∧ s.isBitvector = false := by
    simpa [IrSort.isEnumerated, and_assoc] using hs
  unfold IrSort.acceptsLiteral at hv ⊢
  simp only [hbool, hint, hbv, Bool.false_eq_true, if_false] at hv ⊢
  split_ifs at hv ⊢
  · cases v with
    | str _ => cases value <;> simp_all [Value.key]
    | _ => cases hv
  · rfl

/-- A decoded value that is equal to the value of a term agrees with the term. -/
theorem Agrees.of_decoded {x : Sexpr} {v value : Value} {t : Smt.Term} (h : codec.Agrees I s v t)
    (hvalues : s.isEnumerated = false → codec.values s = [])
    (hdecodes : codec.decodeAtom s x = .ok value) (heq : value.pyEq v = true) :
    codec.Agrees I s value t := by
  have hkey : value.key = v.key := Value.pyEq_iff.mp heq
  cases hs : s.isEnumerated with
  | true =>
      obtain ⟨haccepted, w, hw, heval⟩ := h
      exact ⟨acceptsLiteral_congr hs hkey haccepted, w, (code_congr hs hkey).trans hw, heval⟩
  | false =>
      -- then the value itself is read back
      suffices hsame : value = v by rwa [hsame]
      have hsort : s.isBool = true ∨ s.isInt = true ∨ s.isBitvector = true := by
        cases hbool : s.isBool <;> cases hint : s.isInt <;>
          simp_all [IrSort.isEnumerated]
      rcases hsort with hbool | hnumber
      · obtain ⟨b, rfl, -⟩ := (agrees_bool_iff hbool).mp h
        obtain ⟨b', rfl⟩ := bool_of_decodeAtom hbool (hvalues hs) hdecodes
        cases b <;> cases b' <;> simp_all [Value.key]
      · obtain ⟨n, rfl⟩ : ∃ n, v = .int n := by
          rcases hnumber with hint | hbv
          · exact (IrSort.accepts_int hint).mp h.accepted
          · obtain ⟨n, hn, -⟩ := (IrSort.accepts_bitvector hbv).mp h.accepted
            exact ⟨n, hn⟩
        obtain ⟨m, rfl⟩ := int_of_decodeAtom hnumber hdecodes
        simp only [Value.key, Key.num.injEq, Int.cast_inj] at hkey
        rw [hkey]

/-- The names can be read back, and the objective adds up truth values. -/
structure Readable (codec : Codec) (problem : BoundedProblem) : Prop where
  lines : ∀ v ∈ codec.vars, ∀ c ∈ v.name.toList, isLineBoundary c = false
  parens : ∀ v ∈ codec.vars, v.name ≠ "(" ∧ v.name ≠ ")"
  occurrences : ∀ v ∈ codec.vars, v.name ∈ codec.occurrenceNames problem → v.sort.isBool = true

/-- The printed values of a model are read back as an assignment that the model stands for. -/
theorem readBack {problem : BoundedProblem} {context : EvaluationContext}
    {text : FiniteVariable → List Char} (hcodec : ofProblem problem = .ok codec)
    (hreadable : codec.Readable problem)
    (hinterprets : codec.Interprets context I)
    (hprints : ∀ v ∈ codec.vars, ∃ w, I.constant v.name = some w ∧ w.Prints (text v)) :
    ∃ result, assignmentFromOutput (response (codec.vars.map (fun v => (v.name, text v)))) codec =
        .ok ("sat", result) ∧ result.keys = codec.vars.map FiniteVariable.name ∧
      ∀ v ∈ codec.vars, ∃ value, result.get? v.name = some value ∧
        codec.Agrees I v.sort value (.const v.name) := by
  have hvalue : Nonempty Value := ⟨.none⟩
  have hsexpr : Nonempty Sexpr := ⟨.atom ""⟩
  have hone : ∀ v ∈ codec.vars, ∃ tokens x value, codec.Agrees I v.sort value (.const v.name) ∧
      Lexes (text v) tokens ∧ Reads tokens x ∧ codec.decodeAtom v.sort x = .ok value ∧
      ∀ c ∈ text v, isLineBoundary c = false := by
    intro v hv
    obtain ⟨y, -, hagrees⟩ := hinterprets.symbols v hv
    obtain ⟨w, hw, heval⟩ := hagrees.coded
    obtain ⟨w', hconstant, hprinted⟩ := hprints v hv
    cases hconstant.symm.trans heval
    obtain ⟨tokens, x, value, hanswers⟩ :=
      answers_of_prints (prints_of_code hagrees.accepted hw hprinted)
    refine ⟨tokens, x, value, ?_, hanswers.lexes, hanswers.reads, hanswers.decodes,
      hanswers.lines⟩
    exact hagrees.of_decoded (values_of_ofProblem hcodec) hanswers.decodes hanswers.pyEq
  choose! tokens x value hagrees hlexes hreads hdecodes hlines using hone
  have hread := @assignmentFromOutput_response codec (codec.vars.map (fun v => (v.name, text v)))
    (by
      intro p hp
      obtain ⟨v, hv, rfl⟩ := List.mem_map.mp hp
      exact hreadable.lines v hv)
    (by
      intro p hp
      obtain ⟨v, hv, rfl⟩ := List.mem_map.mp hp
      exact hlines v hv)
  rw [tokenize_getValueList hlexes, parse_getValueList hreads
    (fun v hv => (hreadable.parens v hv).1) (fun v hv => (hreadable.parens v hv).2), ok_bind,
    firstItems, addItem_items (fun _ h => h) hdecodes, ok_bind] at hread
  have hnames : ((codec.vars.map (fun v => (v.name, value v))).map Prod.fst).Nodup := by
    simpa [Function.comp_def] using codec.vars_nodup
  refine ⟨_, hread, ?_, fun v hv => ⟨value v, ?_, hagrees v hv⟩⟩
  · show (Dict.ofList _).keys = _
    rw [Dict.keys, Dict.entries_ofList hnames]
    simp [Function.comp_def]
  · show (Dict.ofList _).get? _ = _
    rw [Dict.get?_eq_some_iff, Dict.entries_ofList hnames]
    exact List.mem_map.mpr ⟨v, hv, rfl⟩

/-! ## Objectives -/

theorem objective_minimizes (problem : BoundedProblem) (minimizeSlots : Bool) :
    ∀ command ∈ codec.objective problem minimizeSlots, ∃ t, command = .minimize t := by
  intro command hcommand
  unfold objective at hcommand
  dsimp only at hcommand
  split_ifs at hcommand
  · exact ⟨_, List.mem_singleton.mp hcommand⟩
  · cases hcommand

theorem isModel_append_objective (problem : BoundedProblem) (minimizeSlots : Bool)
    {script : Smt.Script} :
    (script ++ codec.objective problem minimizeSlots).IsModel I ↔ script.IsModel I :=
  Smt.Script.isModel_append_objectives (objective_minimizes problem minimizeSlots)

/-- The number of names that have the value true. -/
def trueCount (assignment : Dict String Value) (names : List String) : Nat :=
  names.countP (fun name => assignment.get? name = some (.bool true))

theorem eval_countTerm {name : String} {b : Bool} (h : I.constant name = some (.bool b)) :
    (countTerm name).eval I = some (.int (if b then 1 else 0)) := by
  have hvalues : List.Forall₂ (fun (t : Smt.Term) v => t.eval I = some v)
      [.const name, .numeral 1, .numeral 0] [.bool b, .int 1, .int 0] :=
    .cons h (.cons rfl (.cons rfl .nil))
  rw [countTerm, Smt.Term.eval_app hvalues]
  cases b <;> rfl

/-- The objective is the number of the names that have the value true. -/
theorem eval_objective {assignment : Dict String Value} {names : List String}
    (hne : names ≠ []) (h : ∀ name ∈ names, ∃ b, assignment.get? name = some (.bool b) ∧
      I.constant name = some (.bool b)) :
    (Smt.Term.app .add (names.map countTerm)).eval I =
      some (.int (trueCount assignment names : Nat)) := by
  have hall : ∀ names : List String, (∀ name ∈ names, ∃ b,
      assignment.get? name = some (.bool b) ∧ I.constant name = some (.bool b)) →
      ∃ ns : List Int, List.Forall₂ (fun t n => t.eval I = some (.int n))
        (names.map countTerm) ns ∧ ns.sum = (trueCount assignment names : Nat) := by
    intro names h
    induction names with
    | nil => exact ⟨[], .nil, rfl⟩
    | cons name names ih =>
        obtain ⟨⟨b, hget, hconstant⟩, hrest⟩ := List.forall_mem_cons.mp h
        obtain ⟨ns, hns, hsum⟩ := ih hrest
        refine ⟨_ :: ns, .cons (eval_countTerm hconstant) hns, ?_⟩
        rw [List.sum_cons, hsum, trueCount, trueCount, List.countP_cons]
        cases b <;> simp [hget, add_comm]
  obtain ⟨ns, hns, hsum⟩ := hall names h
  cases names with
  | nil => exact absurd rfl hne
  | cons name names => rw [List.map_cons, Smt.Term.eval_add hns, hsum]

end Codec

/-! ## Solving -/

/-- The answers of the solver to a script: its status is right, and the values that it prints
are those of an optimal model. -/
inductive Codec.Decides (codec : Codec) (evalSmt : String → Except PyError String)
    (script : Smt.Script) : Prop where
  | unsat {output : String} (hcheck : evalSmt (Codec.checkSatText script) = .ok output)
      (hstatus : Codec.statusOf output = "unsat") (hnone : ∀ I, ¬ script.IsModel I)
  | sat {output : String} {I : Smt.Interpretation} {text : FiniteVariable → List Char}
      (hcheck : evalSmt (Codec.checkSatText script) = .ok output)
      (hstatus : Codec.statusOf output = "sat") (hoptimal : script.IsOptimal I)
      (hprints : ∀ v ∈ codec.vars, ∃ w, I.constant v.name = some w ∧ w.Prints (text v))
      (hvalues : evalSmt (codec.getValueText script) =
        .ok (response (codec.vars.map (fun v => (v.name, text v)))))

section Exact

variable {catalog : EventCatalog} {trace : Trace} {spec : CompletionSpec}
  {problem : BoundedProblem} {codec : Codec} {interpreter : Interpreter} {script : Smt.Script}
  {evalSmt : String → Except PyError String} {maxStateRejections : Nat} {minimizeSlots : Bool}

/-- What a result has to say about the total assignments of the domains, with the least number
of slots if they are minimized. -/
structure SmtExact (problem : BoundedProblem) (interpreter : Interpreter) (codec : Codec)
    (minimizeSlots : Bool) (result : FiniteSolveResult) : Prop where
  decided : result.status = .sat ∨ result.status = .unsat
  sat : result.status = .sat →
    (∀ c ∈ problem.constraints,
      (problem.context interpreter result.assignment).Holds c.expression) ∧
    ∃ state, result.stateResult = some state ∧ state.feasible = true ∧
      checkStateSemantics problem interpreter result.assignment = .ok state
  chosen : result.status = .sat → ∃ p ∈ Choice.assignments (table codec.vars),
    Satisfies problem interpreter p ∧ ∀ v ∈ codec.vars, ∃ value x,
      result.assignment.get? v.name = some value ∧ (Dict.ofList p).get? v.name = some x ∧
        value.pyEq x = true
  least : result.status = .sat → minimizeSlots = true →
    ∀ p ∈ Choice.assignments (table codec.vars), Satisfies problem interpreter p →
      Codec.trueCount result.assignment (codec.occurrenceNames problem) ≤
        Codec.trueCount (.ofList p) (codec.occurrenceNames problem)
  unsat : result.status = .unsat →
    ¬ ∃ p ∈ Choice.assignments (table codec.vars), Satisfies problem interpreter p

namespace Codec

/-- The truth values of the occurrence variables are those of the constants. -/
theorem occurrences_agree {context : EvaluationContext} {I : Smt.Interpretation}
    (hreadable : codec.Readable problem) (h : codec.Interprets context I) :
    ∀ name ∈ codec.occurrenceNames problem, ∃ b,
      context.assignment.get? name = some (.bool b) ∧ I.constant name = some (.bool b) := by
  intro name hname
  have hmem : name ∈ codec.vars.map FiniteVariable.name := by
    simpa using (List.mem_filter.mp hname).2
  obtain ⟨v, hv, rfl⟩ := List.mem_map.mp hmem
  obtain ⟨x, hget, hagrees⟩ := h.symbols v hv
  obtain ⟨b, rfl, heval⟩ := (agrees_bool_iff (hreadable.occurrences v hv hname)).mp hagrees
  exact ⟨b, hget, heval⟩

/-- An optimal model has the least number of slots. -/
theorem trueCount_le_of_optimal {I J : Smt.Interpretation} {context context' : EvaluationContext}
    (hreadable : codec.Readable problem) (hminimize : minimizeSlots = true)
    (hoptimal : (script ++ codec.objective problem minimizeSlots).IsOptimal I)
    (hmodel : (script ++ codec.objective problem minimizeSlots).IsModel J)
    (hI : codec.Interprets context I) (hJ : codec.Interprets context' J) :
    trueCount context.assignment (codec.occurrenceNames problem) ≤
      trueCount context'.assignment (codec.occurrenceNames problem) := by
  by_cases hne : codec.occurrenceNames problem = []
  · rw [hne]
    exact le_refl _
  have hmem : Smt.Command.minimize (.app .add ((codec.occurrenceNames problem).map countTerm)) ∈
      script ++ codec.objective problem minimizeSlots := by
    refine List.mem_append_right _ ?_
    unfold objective
    simp [hminimize, hne]
  have hle := hoptimal.minimal _ hmem J hmodel _ _
    (eval_objective hne (occurrences_agree hreadable hI))
    (eval_objective hne (occurrences_agree hreadable hJ))
  exact_mod_cast hle

/-- The first answer decides the loop. -/
theorem refine_of_answer {vs : List FiniteVariable} {query : SmtQuery} :
    (query [] = .unsat → ∃ reason,
      Z3Loop.refine problem interpreter query vs maxStateRejections (maxStateRejections + 1) 0
        [] "" = .ok ⟨.unsat, .empty, 1, reason, none⟩) ∧
    ∀ assignment state, query [] = .model assignment → Z3Loop.missing vs assignment = [] →
      checkStateSemantics problem interpreter assignment = .ok state → state.feasible = true →
      Z3Loop.refine problem interpreter query vs maxStateRejections (maxStateRejections + 1) 0
        [] "" = .ok ⟨.sat, assignment, 1, "", some state⟩ := by
  constructor
  · intro h
    rw [Z3Loop.refine, h]
    exact ⟨_, rfl⟩
  · intro assignment state h hmissing hcheck hfeasible
    rw [Z3Loop.refine, h]
    dsimp only
    rw [Except.require_eq_ok (u := ()) |>.mpr hmissing, ok_bind, hcheck, ok_bind, if_pos hfeasible]
    rfl

/-- The decoded answer to the first query, with what it says about the problem. -/
theorem query_of_decides (hbuilt : buildProblem catalog trace spec = .ok problem)
    (hcodec : ofProblem problem = .ok codec) (hencodes : codec.Encodes problem)
    (hreadable : codec.Readable problem) (hscript : codec.script interpreter problem = .ok script)
    (hdecides : codec.Decides evalSmt (script ++ codec.objective problem minimizeSlots)) :
    (codec.query interpreter evalSmt script (codec.objective problem minimizeSlots) [] = .unsat ∧
      ¬ ∃ p ∈ Choice.assignments (table codec.vars), Satisfies problem interpreter p) ∨
    ∃ assignment I,
      codec.query interpreter evalSmt script (codec.objective problem minimizeSlots) [] =
        .model assignment ∧ assignment.keys = codec.vars.map FiniteVariable.name ∧
      (script ++ codec.objective problem minimizeSlots).IsOptimal I ∧
      codec.Interprets (problem.context interpreter assignment) I := by
  cases hdecides with
  | unsat hcheck hstatus hnone =>
      refine .inl ⟨?_, ?_⟩
      · simp only [query, List.mapM_nil, pure, Except.pure, List.append_nil, hcheck, hstatus,
          if_true]
      · rintro ⟨p, hp, hsat⟩
        obtain ⟨I, hI, -⟩ := exists_model hbuilt hcodec hencodes hscript hp hsat
        exact hnone I ((isModel_append_objective problem minimizeSlots).mpr hI)
  | @sat output I text hcheck hstatus hoptimal hprints hvalues =>
      obtain ⟨p, -, hinterprets⟩ := interprets_of_model hcodec hencodes hscript
        ((isModel_append_objective problem minimizeSlots).mp hoptimal.toIsModel)
      obtain ⟨result, hread, hkeys, hagrees⟩ := readBack hcodec hreadable hinterprets hprints
      refine .inr ⟨result, I, ?_, hkeys, hoptimal, hagrees, hinterprets.attributes⟩
      simp only [query, List.mapM_nil, pure, Except.pure, List.append_nil, hcheck, hstatus,
        String.reduceEq, if_false, ne_eq, not_true_eq_false, hvalues, ok_bind, hread]

/-- The first answer is taken: there is no satisfying assignment, or the result is one that an
optimal model stands for. -/
theorem solveSmt_of_decides (hbuilt : buildProblem catalog trace spec = .ok problem)
    (hcodec : ofProblem problem = .ok codec) (hencodes : codec.Encodes problem)
    (hreadable : codec.Readable problem) (hscript : codec.script interpreter problem = .ok script)
    (hdecides : codec.Decides evalSmt (script ++ codec.objective problem minimizeSlots)) :
    (∃ reason, solveSmt problem interpreter evalSmt maxStateRejections minimizeSlots =
        .ok ⟨.unsat, .empty, 1, reason, none⟩ ∧
      ¬ ∃ p ∈ Choice.assignments (table codec.vars), Satisfies problem interpreter p) ∨
    ∃ assignment state I,
      solveSmt problem interpreter evalSmt maxStateRejections minimizeSlots =
        .ok ⟨.sat, assignment, 1, "", some state⟩ ∧
      checkStateSemantics problem interpreter assignment = .ok state ∧ state.feasible = true ∧
      (script ++ codec.objective problem minimizeSlots).IsOptimal I ∧
      codec.Interprets (problem.context interpreter assignment) I := by
  rw [solveSmt, hcodec, ok_bind, hscript, ok_bind, solveZ3, vars_of_ofProblem hcodec, ok_bind]
  rcases query_of_decides hbuilt hcodec hencodes hreadable hscript hdecides with
    ⟨hunsat, hnone⟩ | ⟨assignment, I, hmodel, hkeys, hoptimal, hinterprets⟩
  · obtain ⟨reason, hresult⟩ := refine_of_answer.1 hunsat
    exact .inl ⟨reason, hresult, hnone⟩
  · have hI := (isModel_append_objective problem minimizeSlots).mp hoptimal.toIsModel
    obtain ⟨-, state, hcheck, hfeasible⟩ :=
      satisfied_of_model hbuilt hencodes hscript hI hinterprets
    have hmissing : Z3Loop.missing codec.vars assignment = [] := by
      unfold Z3Loop.missing
      rw [List.filter_eq_nil_iff]
      intro name hname
      rw [← hkeys, ← Dict.get?_isSome_iff] at hname
      simp [Option.isNone_iff_eq_none, Option.isSome_iff_ne_none.mp hname]
    exact .inr ⟨assignment, state, I,
      refine_of_answer.2 assignment state hmodel hmissing hcheck hfeasible, hcheck, hfeasible,
      hoptimal, hinterprets⟩

end Codec

end Exact

/-! ## A slot that has to occur -/

/-- The slot occurs. -/
def fillChoice : Valuation := [("slot::w::occurs", .bool true), ("slot::w::cycle", .int 0)]

theorem fill_satisfies : Satisfies fillProblem .integers fillChoice := by
  refine ⟨fun c hc => ?_, ⟨_, rfl, rfl⟩⟩
  have hall : ∀ c ∈ fillProblem.constraints,
      (contextOf fillProblem .integers fillChoice).evaluate c.expression =
        .ok (some (.bool true)) := by decide +kernel
  exact hall c hc

/-- The script of the problem, with its objective. -/
def fillQuery : Smt.Script := fillScript ++ fillCodec.objective fillProblem true

def fillText (v : FiniteVariable) : List Char :=
  if v.sort.isBool then "true".toList else "0".toList

/-- A solver for the script of the problem. -/
def fillSolver (text : String) : Except PyError String :=
  if text = fillCodec.getValueText fillQuery then
    .ok (response (fillCodec.vars.map (fun v => (v.name, fillText v))))
  else .ok "sat\n"

theorem fill_readable : fillCodec.Readable fillProblem where
  lines := by
    have hall : ∀ v ∈ fillCodec.vars,
        v.name.toList.all (fun c => !isLineBoundary c) = true := by decide
    exact fun v hv => oneLine_of_all (hall v hv)
  parens := by decide
  occurrences := by decide

theorem fill_decides : fillCodec.Decides fillSolver fillQuery := by
  have hchoice : fillChoice ∈ Choice.assignments (table fillCodec.vars) := by decide
  obtain ⟨I, hI, hinterprets⟩ := Codec.exists_model buildProblem_fill ofProblem_fill fill_encodes
    script_fill hchoice fill_satisfies
  have hoccurs : ∀ J, fillScript.IsModel J → J.constant "slot::w::occurs" = some (.bool true) :=
    fun J hJ => hJ.asserted (.const "slot::w::occurs") (by simp [fillScript])
  have hcycle : I.constant "slot::w::cycle" = some (.int 0) := by
    obtain ⟨x, hx, hagrees⟩ := hinterprets.symbols ⟨"slot::w::cycle", .int, [.int 0]⟩
      (by simp [fillCodec])
    obtain ⟨n, rfl, heval⟩ := (Codec.agrees_int_iff rfl).mp hagrees
    cases hx
    exact heval
  have hcount : ∀ J, fillQuery.IsModel J →
      (Smt.Term.app .add [Codec.countTerm "slot::w::occurs"]).eval J = some (.int 1) := by
    intro J hJ
    have hone := Codec.eval_countTerm
      (hoccurs J ((Codec.isModel_append_objective fillProblem true).mp hJ))
    exact Smt.Term.eval_add (.cons hone .nil)
  have hmodel : fillQuery.IsModel I := (Codec.isModel_append_objective fillProblem true).mpr hI
  have hcheck : fillSolver (Codec.checkSatText fillQuery) = .ok "sat\n" := by
    refine if_neg (fun h => ?_)
    have hlength := congrArg String.length h
    have hpos : 0 < "))".length := by decide
    simp only [Codec.getValueText, String.length_append] at hlength
    omega
  refine .sat hcheck (by decide) ⟨hmodel, ?_⟩ ?_ (if_pos rfl)
  · intro t ht J hJ m n hm hn
    have hnames : fillCodec.occurrenceNames fillProblem = ["slot::w::occurs"] := by decide
    obtain rfl : t = .app .add [Codec.countTerm "slot::w::occurs"] := by
      simpa [fillQuery, fillScript, Codec.objective, hnames] using ht
    rw [hcount I hmodel] at hm
    rw [hcount J hJ] at hn
    cases hm
    cases hn
    exact le_refl _
  · intro v hv
    simp only [fillCodec, List.mem_cons, List.not_mem_nil, or_false] at hv
    rcases hv with rfl | rfl
    · exact ⟨_, hoccurs I hI, .bool true⟩
    · exact ⟨_, hcycle, .int 0⟩

theorem fill_returns : ReturnsBelow fillProblem .integers fillCodec.vars [] := by
  have hall : ∀ vs' ∈ fillCodec.vars.inits, ∀ q ∈ Choice.assignments (table vs'),
      ∀ c ∈ fillProblem.constraints, ((contextOf fillProblem .integers ([] ++ q)).evaluate
        c.expression).toOption.isSome = true := by decide +kernel
  intro vs' hvs' q hq c hc
  obtain ⟨r, hr⟩ := Option.isSome_iff_exists.mp
    (hall vs' ((List.mem_inits _ _).mpr hvs') q hq c hc)
  exact ⟨r, toOption_eq_some.mp hr⟩

theorem fill_iteFree : fillProblem.IteFree := by
  refine ⟨by decide, fun id event field term hevent hattribute => ?_⟩
  obtain rfl := fill_get? hevent
  unfold EventInstance.attribute? at hattribute
  split_ifs at hattribute <;> cases hattribute <;> rfl

end Umcm
