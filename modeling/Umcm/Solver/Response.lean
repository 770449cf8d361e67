import Umcm.Data.Text
import Umcm.Solver.Finite

/-!
# The response of the SMT solver

How names and values are written for the SMT solver, and how its response is
read: a tokenizer, a reader of nested lists and a decoder for every sort. A
token does not say whether it was quoted.

* `readsBack_iff`: a response is read back as the assignment exactly when no
  name is a parenthesis.
-/

namespace Umcm

open Except

/-! ## The codes of a problem -/

/-- The sorts whose values are numbered. -/
def IrSort.isEnumerated (s : IrSort) : Bool := !(s.isBool || s.isInt || s.isBitvector)

/-- The variables of a problem, and for every enumerated sort its values in the order of
their codes. -/
structure Codec where
  vars : List FiniteVariable
  enumValues : Dict IrSort (List Value)
  vars_nodup : (vars.map FiniteVariable.name).Nodup
  enum_distinct : ∀ p ∈ enumValues.entries, (p.2.map Value.key).Nodup

namespace Codec

/-- `record`: a set keeps the first of several equal values. -/
def record (values : Dict IrSort (List Value)) (p : Value × IrSort) : Dict IrSort (List Value) :=
  if p.2.isEnumerated then
    let seen := (values.get? p.2).getD []
    values.insert p.2 (if seen.any (fun w => w.pyEq p.1) then seen else seen ++ [p.1])
  else values

def termLiterals (s : IrSort) : Term → List (Value × IrSort)
  | .value v => [(v, s)]
  | .expr e => e.literals

def eventLiterals (catalog : EventCatalog) (event : EventInstance) :
    Except PyError (List (Value × IrSort)) := do
  let eventType ← catalog.resolve event.eventType
  let occurs := match event.occurs with
    | .symbolic e => e.literals
    | .known _ => []
  let cycle := match event.cycle with
    | .symbolic e => e.literals
    | _ => []
  let fields ← event.fields.entries.mapM (fun p =>
    match eventType.field? p.1 with
    | some spec => .ok (termLiterals spec.sort p.2)
    | none => .error .keyError)
  return occurs ++ cycle ++ fields.flatten

def predicateLiterals (predicates : List GuardPredicateInstance) : List (Value × IrSort) :=
  predicates.flatMap (fun predicate => predicate.cycle.literals ++ predicate.expected.literals)

/-- The values that the constructor records, in its order. -/
def problemLiterals (problem : BoundedProblem) (vars : List FiniteVariable) :
    Except PyError (List (Value × IrSort)) := do
  let events ← problem.events.mapM (eventLiterals problem.catalog)
  return vars.flatMap (fun v => v.domain.map (fun value => (value, v.sort))) ++
    events.flatten ++
    problem.constraints.flatMap (fun c => c.expression.literals) ++
    problem.spec.stateVariables.flatMap (fun cell => termLiterals cell.sort cell.initial) ++
    problem.stateRequirements.flatMap (fun r =>
      r.activation.literals ++ r.cycle.literals ++ r.expected.literals) ++
    problem.stateUpdates.flatMap (fun u =>
      u.activation.literals ++ u.cycle.literals ++ u.value.literals) ++
    problem.guardedForwards.flatMap (fun forward =>
      forward.antecedent.literals ++ forward.consequent.literals ++
        predicateLiterals forward.predicates) ++
    problem.guardedSupports.flatMap (fun support =>
      support.antecedent.literals ++ support.supports.flatMap (fun candidate =>
        candidate.expression.literals ++ predicateLiterals candidate.predicates))

def recorded (values : List (Value × IrSort)) : Dict IrSort (List Value) :=
  values.foldl record .empty

/-- The recorded values in order. -/
def ordered (values : Dict IrSort (List Value)) : Dict IrSort (List Value) where
  entries := values.entries.map (fun p => (p.1, p.2.insertionSort Value.nameOrder))
  nodup := by simpa [Function.comp_def] using values.nodup

/-- No two values of a sort are equal. -/
def Distinct (values : Dict IrSort (List Value)) : Prop :=
  ∀ p ∈ values.entries, (p.2.map Value.key).Nodup

theorem distinct_record {values : Dict IrSort (List Value)} (h : Distinct values)
    (p : Value × IrSort) : Distinct (record values p) := by
  unfold record
  split_ifs with henum
  · intro entry hentry
    rcases Dict.mem_entries_insert hentry with rfl | hold
    · have hseen : (((values.get? p.2).getD []).map Value.key).Nodup := by
        cases hget : values.get? p.2 with
        | none => simp
        | some seen => exact h _ (Dict.get?_eq_some_iff.mp hget)
      dsimp only
      split_ifs with hany
      · exact hseen
      · rw [List.map_append, List.map_singleton, List.nodup_append]
        refine ⟨hseen, by simp, ?_⟩
        rintro k hk _ hkey rfl
        obtain ⟨w, hw, rfl⟩ := List.mem_map.mp hk
        rw [List.mem_singleton] at hkey
        exact hany (List.any_eq_true.mpr ⟨w, hw, Value.pyEq_iff.mpr hkey⟩)
    · exact h entry hold
  · exact h

theorem distinct_recorded (values : List (Value × IrSort)) : Distinct (recorded values) := by
  unfold recorded
  have hempty : Distinct .empty := fun _ h => nomatch h
  generalize Dict.empty = seen at hempty
  induction values generalizing seen with
  | nil => exact hempty
  | cons p values ih => exact ih _ (distinct_record hempty p)

theorem distinct_ordered {values : Dict IrSort (List Value)} (h : Distinct values) :
    Distinct (ordered values) := by
  intro p hp
  obtain ⟨q, hq, rfl⟩ := List.mem_map.mp hp
  exact ((List.perm_insertionSort _ _).map _).nodup_iff.mpr (h q hq)

/-- The constructor. -/
def ofProblem (problem : BoundedProblem) : Except PyError Codec := do
  let vars ← buildVariables problem
  let literals ← problemLiterals problem vars
  if vars_nodup : (vars.map FiniteVariable.name).Nodup then
    return { vars, vars_nodup, enumValues := ordered (recorded literals)
             enum_distinct := distinct_ordered (distinct_recorded literals) }
  else .error .assertionError

/-! ## Names and values -/

/-- `_Codec.q`. -/
def q (name : String) : List Char :=
  '|' :: name.toList.flatMap (fun c => if c = '\\' ∨ c = '|' then ['\\', c] else [c]) ++ ['|']

def intAtom : Int → String
  | .ofNat n => toString n
  | .negSucc n => "(- " ++ toString (n + 1) ++ ")"

variable (codec : Codec)

def values (s : IrSort) : List Value := (codec.enumValues.get? s).getD []

/-- `enum_encode[sort].get(value)`. -/
def enumEncode (s : IrSort) (v : Value) : Option Nat :=
  (codec.values s).findIdx? (fun w => w.pyEq v)

/-- `enum_decode[sort].get(code)`. -/
def enumDecode (s : IrSort) (code : Int) : Option Value :=
  if 0 ≤ code then (codec.values s)[code.toNat]? else none

end Codec

/-- `_Codec.literal`. -/
def Codec.literal (codec : Codec) (interpreter : Interpreter) (s : IrSort) (v : Value) :
    Except PyError String :=
  if s.isBool then .ok (if v.truthy then "true" else "false")
  else if s.isInt then Codec.intAtom <$> v.toInt interpreter
  else if s.isBitvector then
    (fun n => "(_ bv" ++ toString n ++ " " ++ toString (s.width.getD 0) ++ ")") <$> v.toInt interpreter
  else
    match codec.enumEncode s v with
    | some code => .ok (toString code)
    | none => .error (.solverError s!"no SMT enum code for {v.repr} in {s.pyStr}")

/-! ## Reading a response -/

/-- A token that is not quoted goes on. -/
def isPlain (c : Char) : Bool := !isSpace c && c ≠ '(' && c ≠ ')'

/-- The text up to the closing bar, and what is behind it. -/
def readQuoted : List Char → List Char × List Char
  | [] => ([], [])
  | '|' :: text => ([], text)
  | '\\' :: c :: text => (c :: (readQuoted text).1, (readQuoted text).2)
  | c :: text => (c :: (readQuoted text).1, (readQuoted text).2)

theorem length_readQuoted_le (text : List Char) : (readQuoted text).2.length ≤ text.length := by
  induction text using readQuoted.induct with
  | case1 => simp [readQuoted]
  | case2 text => simp [readQuoted]
  | case3 c text ih =>
      rw [readQuoted]
      simp only [List.length_cons]
      omega
  | case4 c text hbar hescape ih =>
      rw [readQuoted]
      · simp only [List.length_cons]
        omega
      · exact hbar
      · exact hescape

/-- `_tokenize`. -/
def tokenize : List Char → List String
  | [] => []
  | c :: text =>
    if isSpace c then tokenize text
    else if c = '(' ∨ c = ')' then String.ofList [c] :: tokenize text
    else if c = '|' then
      have := length_readQuoted_le text
      String.ofList (readQuoted text).1 :: tokenize (readQuoted text).2
    else
      have := text.length_dropWhile_le isPlain
      String.ofList (c :: text.takeWhile isPlain) :: tokenize (text.dropWhile isPlain)
termination_by text => text.length
decreasing_by all_goals simp only [List.length_cons]; omega

inductive Sexpr where
  | atom (s : String)
  | list (items : List Sexpr)

/-- `_parse_sexprs`: `top` is the array that is read, `outer` are the arrays of the open
calls of `one` around it. Outside of all calls a closing parenthesis is an atom. -/
def parseSexprs : List String → List Sexpr → List (List Sexpr) → Except PyError (List Sexpr)
  | [], top, outer => if outer = [] then .ok top else .error .indexError
  | token :: tokens, top, [] =>
    if token = "(" then parseSexprs tokens [] [top]
    else parseSexprs tokens (top ++ [.atom token]) []
  | token :: tokens, top, array :: outer =>
    if token = "(" then parseSexprs tokens [] (top :: array :: outer)
    else if token = ")" then parseSexprs tokens (array ++ [.list top]) outer
    else parseSexprs tokens (top ++ [.atom token]) (array :: outer)

namespace Codec

def intOfText (base : Nat) (text : String) : Except PyError Int :=
  match intOfBase base text with
  | some n => .ok n
  | none => .error .valueError

def intOf : Sexpr → Except PyError Int
  | .atom s => intOfText 10 s
  | .list _ => .error .typeError

/-- A number, which may be negated. -/
def decodeNumber : Sexpr → Except PyError Int
  | .list [.atom "-", x] => (fun n => -n) <$> intOf x
  | x => intOf x

/-- The digits of a bit-vector, and their base. -/
def bitvectorDigits : Sexpr → Option (Nat × String)
  | .atom s =>
    match s.toList with
    | '#' :: 'x' :: digits => some (16, String.ofList digits)
    | '#' :: 'b' :: digits => some (2, String.ofList digits)
    | _ => none
  | .list (.atom "_" :: .atom s :: _) =>
    match s.toList with
    | 'b' :: 'v' :: digits => some (10, String.ofList digits)
    | _ => none
  | .list _ => none

def decodeBool : Sexpr → Option Bool
  | .atom "true" => some true
  | .atom "false" => some false
  | _ => none

/-- `_Codec.decode_atom`. -/
def decodeAtom (codec : Codec) (s : IrSort) (x : Sexpr) : Except PyError Value :=
  match (if s.isBool then decodeBool x else none),
      (if s.isBitvector then bitvectorDigits x else none) with
  | some b, _ => .ok (.bool b)
  | none, some (base, digits) => Value.int <$> intOfText base digits
  | none, none => do
    let num ← decodeNumber x
    if s.isInt ∨ s.isBitvector then return .int num
    else
      match codec.enumDecode s num with
      | some v => return v
      | none => .error (.solverError s!"bad SMT enum {num} for {s.pyStr}")

/-- One item of the list of values; others than pairs of a name and a value are skipped. -/
def addItem (codec : Codec) (result : Dict String Value) :
    Sexpr → Except PyError (Dict String Value)
  | .list [.atom name, x] =>
    match codec.vars.find? (fun v => v.name = name) with
    | some v => (fun value => result.insert name value) <$> codec.decodeAtom v.sort x
    | none => .ok result
  | .list [.list _, _] => .error .typeError
  | _ => .ok result

end Codec

/-- `forms[0] if forms else []`, as far as it has items that are lists. -/
def firstItems : List Sexpr → List Sexpr
  | .list items :: _ => items
  | _ => []

/-- `_assignment_from_output`. -/
def assignmentFromOutput (output : String) (codec : Codec) :
    Except PyError (String × Dict String Value) :=
  match splitLines (strip output.toList) with
  | [] => .ok ("unknown", .empty)
  | first :: lines =>
    let status := String.ofList (strip first)
    if status ≠ "sat" then .ok (status, .empty)
    else do
      let forms ← parseSexprs (tokenize (joinLines lines)) [] []
      let result ← (firstItems forms).foldlM codec.addItem .empty
      return (status, result)

/-! ## Standard responses -/

/-- A value of a sort in standard form: the literals of SMT-LIB, negative numbers as
negations, and enumerated values as their codes. -/
inductive Codec.Prints (codec : Codec) : IrSort → Value → List Char → Prop where
  | bool {s : IrSort} (hs : s.isBool = true) (b : Bool) :
      Prints codec s (.bool b) (if b then "true" else "false").toList
  | int {s : IrSort} (hs : s.isInt = true) (n : Int) :
      Prints codec s (.int n) (Codec.intAtom n).toList
  | hex {s : IrSort} (hs : s.isBitvector = true) {k n : Nat} (hk : s.width = some (4 * k))
      (hn : n < 2 ^ (4 * k)) :
      Prints codec s (.int n) ('#' :: 'x' :: (Nat.toDigits 16 n).leftpad k '0')
  | binary {s : IrSort} (hs : s.isBitvector = true) {w n : Nat} (hw : s.width = some w)
      (hn : n < 2 ^ w) : Prints codec s (.int n) ('#' :: 'b' :: (Nat.toDigits 2 n).leftpad w '0')
  | bv {s : IrSort} (hs : s.isBitvector = true) {w n : Nat} (hw : s.width = some w)
      (hn : n < 2 ^ w) :
      Prints codec s (.int n) ("(_ bv" ++ toString n ++ " " ++ toString w ++ ")").toList
  | enum {s : IrSort} (hs : s.isEnumerated = true) {v : Value} {code : Nat}
      (hcode : codec.enumEncode s v = some code) : Prints codec s v (toString code).toList

/-- One pair of a name and a value. -/
def getValueItem (p : String × List Char) : List Char := '(' :: Codec.q p.1 ++ ' ' :: p.2 ++ [')']

/-- The pairs, one a line. -/
def getValueList : List (String × List Char) → List Char
  | [] => ['(', ')']
  | p :: rest =>
    '(' :: getValueItem p ++ rest.flatMap (fun p => '\n' :: ' ' :: getValueItem p) ++ [')']

/-- `sat` and the answer to `get-value`. -/
def response (pairs : List (String × List Char)) : String :=
  String.ofList ("sat\n".toList ++ getValueList pairs ++ ['\n'])

/-! ## Tokens -/

/-- The text ends, or goes on with a blank or a parenthesis. -/
def EndsToken (text : List Char) : Prop := ∀ c ∈ text.head?, isPlain c = false

/-- The tokens of a text in front of the end of a token. -/
def Lexes (text : List Char) (tokens : List String) : Prop :=
  ∀ rest, EndsToken rest → tokenize (text ++ rest) = tokens ++ tokenize rest

theorem tokenize_space {c : Char} {text : List Char} (h : isSpace c = true) :
    tokenize (c :: text) = tokenize text := by
  rw [tokenize, if_pos h]

theorem tokenize_paren {c : Char} {text : List Char} (h : c = '(' ∨ c = ')') :
    tokenize (c :: text) = String.ofList [c] :: tokenize text := by
  have hspace : ¬ isSpace c = true := by
    rcases h with rfl | rfl <;> decide
  rw [tokenize, if_neg hspace, if_pos h]

theorem tokenize_bar {text : List Char} :
    tokenize ('|' :: text) = String.ofList (readQuoted text).1 :: tokenize (readQuoted text).2 := by
  rw [tokenize, if_neg (by decide), if_neg (by decide), if_pos rfl]

/-- A quoted name is read as the name, whatever it consists of. -/
theorem readQuoted_q (name rest : List Char) :
    readQuoted (name.flatMap (fun c => if c = '\\' ∨ c = '|' then ['\\', c] else [c]) ++
      '|' :: rest) = (name, rest) := by
  induction name with
  | nil => simp [readQuoted]
  | cons c name ih =>
      rw [List.flatMap_cons, List.append_assoc]
      split_ifs with hc
      · rw [List.cons_append, List.singleton_append, readQuoted, ih]
      · rw [List.singleton_append, readQuoted, ih]
        · exact fun h => hc (.inr h)
        · exact fun _ _ h => absurd (.inl h) hc

theorem tokenize_q (name : String) (rest : List Char) :
    tokenize (Codec.q name ++ rest) = name :: tokenize rest := by
  rw [Codec.q, List.cons_append, List.cons_append, List.append_assoc, List.singleton_append,
    tokenize_bar, readQuoted_q, String.ofList_toList]

theorem lexes_plain {c : Char} {text : List Char} (hbar : c ≠ '|')
    (hplain : ∀ x ∈ c :: text, isPlain x = true) : Lexes (c :: text) [String.ofList (c :: text)] := by
  intro rest hrest
  have hc := hplain c List.mem_cons_self
  simp only [isPlain, ne_eq, decide_not, Bool.and_eq_true, Bool.not_eq_true', decide_eq_false_iff_not]
    at hc
  rw [List.cons_append, tokenize, if_neg (by simp [hc.1.1]), if_neg (by tauto), if_neg hbar]
  have htext : ∀ x ∈ text, isPlain x = true := fun x hx => hplain x (List.mem_cons_of_mem _ hx)
  have htake : rest.takeWhile isPlain = [] := by
    cases rest with
    | nil => rfl
    | cons x rest => rw [List.takeWhile_cons_of_neg (by simp [hrest x (by simp)])]
  have hdrop : rest.dropWhile isPlain = rest := by
    cases rest with
    | nil => rfl
    | cons x rest => rw [List.dropWhile_cons_of_neg (by simp [hrest x (by simp)])]
  rw [List.takeWhile_append_of_pos htext, List.dropWhile_append_of_pos htext, htake, hdrop]
  simp

theorem Lexes.append {text text' : List Char} {tokens tokens' : List String} (h : Lexes text tokens)
    (h' : Lexes text' tokens') (hends : EndsToken text') (hne : text' ≠ []) :
    Lexes (text ++ text') (tokens ++ tokens') := by
  intro rest hrest
  have hends' : EndsToken (text' ++ rest) := by
    intro c hc
    rw [List.head?_append_of_ne_nil _ hne] at hc
    exact hends c hc
  rw [List.append_assoc, h _ hends', h' _ hrest, List.append_assoc]

/-! ## Nested lists -/

/-- The tokens are read as one expression. -/
def Reads (tokens : List String) (x : Sexpr) : Prop :=
  ∀ rest top outer, parseSexprs (tokens ++ rest) top outer = parseSexprs rest (top ++ [x]) outer

theorem parseSexprs_open {tokens : List String} {top : List Sexpr} {outer : List (List Sexpr)} :
    parseSexprs ("(" :: tokens) top outer = parseSexprs tokens [] (top :: outer) := by
  cases outer <;> rw [parseSexprs, if_pos rfl]

theorem parseSexprs_close {tokens : List String} {top array : List Sexpr}
    {outer : List (List Sexpr)} :
    parseSexprs (")" :: tokens) top (array :: outer) =
      parseSexprs tokens (array ++ [.list top]) outer := by
  rw [parseSexprs, if_neg (by decide), if_pos rfl]

theorem reads_atom {token : String} (hopen : token ≠ "(") (hclose : token ≠ ")") :
    Reads [token] (.atom token) := by
  intro rest top outer
  rw [List.singleton_append]
  cases outer with
  | nil => rw [parseSexprs, if_neg hopen]
  | cons array outer => rw [parseSexprs, if_neg hopen, if_neg hclose]

/-- Expressions that are read one after another. -/
def ReadsAll (tokens : List String) (xs : List Sexpr) : Prop :=
  ∀ rest top outer, parseSexprs (tokens ++ rest) top outer = parseSexprs rest (top ++ xs) outer

theorem readsAll_nil : ReadsAll [] [] := by
  intro rest top outer
  simp

theorem ReadsAll.cons {tokens tokens' : List String} {x : Sexpr} {xs : List Sexpr}
    (h : Reads tokens x) (h' : ReadsAll tokens' xs) : ReadsAll (tokens ++ tokens') (x :: xs) := by
  intro rest top outer
  rw [List.append_assoc, h, h', List.append_assoc, List.singleton_append]

theorem ReadsAll.list {tokens : List String} {xs : List Sexpr} (h : ReadsAll tokens xs) :
    Reads ("(" :: tokens ++ [")"]) (.list xs) := by
  intro rest top outer
  rw [List.append_assoc, List.singleton_append, List.cons_append, parseSexprs_open, h,
    parseSexprs_close, List.nil_append]

/-! ## Printed values -/

section Prints

variable {codec : Codec} {s : IrSort}

/-- What reading a printed value comes to. -/
structure Answers (codec : Codec) (s : IrSort) (v : Value) (text : List Char)
    (tokens : List String) (x : Sexpr) (value : Value) : Prop where
  lexes : Lexes text tokens
  reads : Reads tokens x
  decodes : codec.decodeAtom s x = .ok value
  pyEq : value.pyEq v = true
  lines : ∀ c ∈ text, isLineBoundary c = false

theorem isPlain_of_digitOf {c : Char} {d : Nat} (h : digitOf c = some d) : isPlain c = true := by
  have hspace := isSpace_of_digitOf h
  have hparen : c ≠ '(' ∧ c ≠ ')' := by
    constructor <;> rintro rfl <;> simp [digitOf] at h
  simp [isPlain, hspace, hparen]

theorem isLineBoundary_of_isPlain {c : Char} (h : isPlain c = true) : isLineBoundary c = false := by
  by_contra hline
  have hspace := isSpace_of_isLineBoundary (by simpa using hline)
  simp [isPlain, hspace] at h

/-- The token of a text of plain characters. -/
theorem reads_plain {c : Char} {text : List Char} (hplain : ∀ x ∈ c :: text, isPlain x = true) :
    Reads [String.ofList (c :: text)] (.atom (String.ofList (c :: text))) := by
  have hc := hplain c List.mem_cons_self
  refine reads_atom ?_ ?_
  · intro h
    have hlist : c :: text = "(".toList := by rw [← h, String.toList_ofList]
    obtain ⟨rfl, -⟩ := List.cons.inj hlist
    exact absurd hc (by decide)
  · intro h
    have hlist : c :: text = ")".toList := by rw [← h, String.toList_ofList]
    obtain ⟨rfl, -⟩ := List.cons.inj hlist
    exact absurd hc (by decide)

theorem isPlain_of_digits {base n : Nat} {digits : List Char}
    (h : readDigits base digits 0 = some n) : ∀ c ∈ digits, isPlain c = true := by
  intro c hc
  obtain ⟨d, -, hd⟩ := digitOf_of_readDigits h c hc
  exact isPlain_of_digitOf hd

/-- The digits of a number. -/
theorem toString_digits (n : Nat) :
    toString n = String.ofList (Nat.toDigits 10 n) ∧
      readDigits 10 (Nat.toDigits 10 n) 0 = some n ∧ Nat.toDigits 10 n ≠ [] :=
  ⟨Nat.toString_eq_ofList_toDigits, readDigits_toDigits (by decide) (by decide) n,
    Nat.toDigits_ne_nil⟩

theorem intOfText_digits {base n : Nat} {digits : List Char} (hne : digits ≠ [])
    (h : readDigits base digits 0 = some n) :
    Codec.intOfText base (String.ofList digits) = .ok (n : Int) := by
  rw [Codec.intOfText, intOfBase_of_digits hne h]

theorem isBool_excludes (h : s.isBool = true) : s.isInt = false ∧ s.isBitvector = false := by
  simp only [IrSort.isBool, decide_eq_true_eq] at h
  simp [IrSort.isInt, IrSort.isBitvector, h]

theorem isInt_excludes (h : s.isInt = true) : s.isBool = false ∧ s.isBitvector = false := by
  simp only [IrSort.isInt, decide_eq_true_eq] at h
  simp [IrSort.isBool, IrSort.isBitvector, h]

theorem isBitvector_excludes (h : s.isBitvector = true) : s.isBool = false ∧ s.isInt = false := by
  simp only [IrSort.isBitvector, decide_eq_true_eq] at h
  simp [IrSort.isBool, IrSort.isInt, h]

/-- A number is decoded as it is, where the sort does not number its values. -/
theorem decodeAtom_of_number {x : Sexpr} {n : Int} (hs : s.isInt = true)
    (hx : Codec.decodeNumber x = .ok n) : codec.decodeAtom s x = .ok (.int n) := by
  obtain ⟨hbool, hbv⟩ := isInt_excludes hs
  simp [Codec.decodeAtom, hbool, hbv, hx, hs]

theorem decodeAtom_of_bitvector {x : Sexpr} {base : Nat} {digits : String} {n : Int}
    (hs : s.isBitvector = true) (hx : Codec.bitvectorDigits x = some (base, digits))
    (hn : Codec.intOfText base digits = .ok n) : codec.decodeAtom s x = .ok (.int n) := by
  obtain ⟨hbool, -⟩ := isBitvector_excludes hs
  simp [Codec.decodeAtom, hbool, hs, hx, hn]

theorem decodeNumber_atom (text : String) :
    Codec.decodeNumber (.atom text) = Codec.intOfText 10 text := by
  rw [Codec.decodeNumber]
  · rfl
  · intro x h
    cases h

/-- The codes of a sort lead back to its values. -/
theorem enumDecode_of_enumEncode {v : Value} {code : Nat} (h : codec.enumEncode s v = some code) :
    ∃ value, codec.enumDecode s code = some value ∧ value.pyEq v = true := by
  obtain ⟨hlt, heq, -⟩ := List.findIdx?_eq_some_iff_getElem.mp h
  refine ⟨(codec.values s)[code], ?_, heq⟩
  rw [Codec.enumDecode, if_pos (Int.natCast_nonneg code), Int.toNat_natCast]
  exact List.getElem?_eq_getElem hlt

theorem decodeAtom_of_code {v : Value} {code : Nat} {text : String} (hs : s.isEnumerated = true)
    (hcode : codec.enumEncode s v = some code)
    (htext : Codec.intOfText 10 text = .ok (code : Int)) :
    ∃ value, codec.decodeAtom s (.atom text) = .ok value ∧ value.pyEq v = true := by
  obtain ⟨value, hdecode, heq⟩ := enumDecode_of_enumEncode hcode
  simp only [IrSort.isEnumerated, Bool.not_eq_true', Bool.or_eq_false_iff] at hs
  obtain ⟨⟨hbool, hint⟩, hbv⟩ := hs
  refine ⟨value, ?_, heq⟩
  simp [Codec.decodeAtom, hbool, hint, hbv, decodeNumber_atom, htext, hdecode]
  rfl

/-- A word: plain characters, the first of which opens no quotation. -/
def IsWord (text : List Char) : Prop :=
  text ≠ [] ∧ text.head? ≠ some '|' ∧ ∀ c ∈ text, isPlain c = true

instance : DecidablePred IsWord := fun text =>
  decidable_of_iff (text ≠ [] ∧ text.head? ≠ some '|' ∧ text.all isPlain = true)
    (by rw [IsWord, List.all_eq_true])

theorem IsWord.lexes {text : List Char} (h : IsWord text) : Lexes text [String.ofList text] := by
  obtain ⟨hne, hbar, hplain⟩ := h
  cases text with
  | nil => exact absurd rfl hne
  | cons c text => exact lexes_plain (by simpa using hbar) hplain

theorem IsWord.reads {text : List Char} (h : IsWord text) :
    Reads [String.ofList text] (.atom (String.ofList text)) := by
  obtain ⟨hne, -, hplain⟩ := h
  cases text with
  | nil => exact absurd rfl hne
  | cons c text => exact reads_plain hplain

theorem isWord_digits {base n : Nat} {digits : List Char} (hne : digits ≠ [])
    (h : readDigits base digits 0 = some n) : IsWord digits := by
  refine ⟨hne, ?_, isPlain_of_digits h⟩
  intro hhead
  obtain ⟨d, -, hd⟩ := digitOf_of_readDigits h '|' (List.mem_of_mem_head? hhead)
  simp [digitOf] at hd

/-- Words between blanks. -/
theorem tokenize_words {words : List (List Char)} (hwords : ∀ w ∈ words, IsWord w)
    (hne : words ≠ []) (rest : List Char) :
    tokenize ([' '].intercalate words ++ ')' :: rest) =
      words.map String.ofList ++ tokenize (')' :: rest) := by
  induction words with
  | nil => exact absurd rfl hne
  | cons w words ih =>
      have hw := hwords w List.mem_cons_self
      cases words with
      | nil =>
          rw [List.intercalate_singleton, hw.lexes _ (by simp [EndsToken, isPlain])]
          rfl
      | cons w' words =>
          rw [List.intercalate_cons_cons, List.append_assoc, List.append_assoc,
            List.singleton_append, hw.lexes _ (by simp [EndsToken, isPlain, isSpace]),
            tokenize_space (by decide),
            ih (fun x hx => hwords x (List.mem_cons_of_mem _ hx)) (by simp)]
          rfl

theorem readsAll_words {words : List (List Char)} (hwords : ∀ w ∈ words, IsWord w) :
    ReadsAll (words.map String.ofList) (words.map (fun w => .atom (String.ofList w))) := by
  induction words with
  | nil => exact readsAll_nil
  | cons w words ih =>
      exact ReadsAll.cons (hwords w List.mem_cons_self).reads
        (ih (fun x hx => hwords x (List.mem_cons_of_mem _ hx)))

/-- A value that is printed as a list of words. -/
theorem answers_of_words {v value : Value} {words : List (List Char)}
    (hwords : ∀ w ∈ words, IsWord w) (hne : words ≠ [])
    (hdecodes : codec.decodeAtom s (.list (words.map (fun w => .atom (String.ofList w)))) =
      .ok value) (heq : value.pyEq v = true) :
    ∃ tokens x value, Answers codec s v ('(' :: [' '].intercalate words ++ [')']) tokens x value := by
  refine ⟨_, _, _, ?_, (readsAll_words hwords).list, hdecodes, heq, ?_⟩
  · intro rest hrest
    rw [List.append_assoc, List.singleton_append, List.cons_append, tokenize_paren (.inl rfl),
      tokenize_words hwords hne, tokenize_paren (.inr rfl)]
    simp
  · intro c hc
    rw [List.mem_append, List.mem_cons, List.mem_singleton] at hc
    rcases hc with (rfl | hc) | rfl
    · decide
    · rcases mem_intercalate hc with rfl | ⟨w, hw, hc⟩
      · decide
      · exact isLineBoundary_of_isPlain ((hwords w hw).2.2 c hc)
    · decide

theorem answers_of_word {v value : Value} {text : List Char} (hword : IsWord text)
    (hdecodes : codec.decodeAtom s (.atom (String.ofList text)) = .ok value)
    (heq : value.pyEq v = true) :
    ∃ tokens x value, Answers codec s v text tokens x value :=
  ⟨_, _, _, hword.lexes, hword.reads, hdecodes, heq,
    fun x hx => isLineBoundary_of_isPlain (hword.2.2 x hx)⟩

theorem decodeNumber_negated (text : String) :
    Codec.decodeNumber (.list [.atom "-", .atom text]) =
      (fun n => -n) <$> Codec.intOfText 10 text := rfl

theorem isWord_hash {c : Char} (hc : isPlain c = true) {base n : Nat} {digits : List Char}
    (h : readDigits base digits 0 = some n) : IsWord ('#' :: c :: digits) := by
  refine ⟨by simp, by simp, ?_⟩
  intro x hx
  rcases List.mem_cons.mp hx with rfl | hx
  · decide
  · rcases List.mem_cons.mp hx with rfl | hx
    · exact hc
    · exact isPlain_of_digits h x hx

/-- A numeral, which may be negated. -/
theorem answers_of_intAtom (hs : s.isInt = true) (n : Int) :
    ∃ tokens x value, Answers codec s (.int n) (Codec.intAtom n).toList tokens x value := by
  cases n with
  | ofNat n =>
      obtain ⟨htext, hdigits, hne⟩ := toString_digits n
      have hlist : (Codec.intAtom (.ofNat n)).toList = Nat.toDigits 10 n := by
        rw [Codec.intAtom, htext, String.toList_ofList]
      rw [hlist]
      exact answers_of_word (isWord_digits hne hdigits)
        (decodeAtom_of_number hs ((decodeNumber_atom _).trans (intOfText_digits hne hdigits)))
        (Value.pyEq_iff.mpr rfl)
  | negSucc n =>
      obtain ⟨htext, hdigits, hne⟩ := toString_digits (n + 1)
      have hlist : (Codec.intAtom (.negSucc n)).toList =
          '(' :: [' '].intercalate [['-'], Nat.toDigits 10 (n + 1)] ++ [')'] := by
        rw [Codec.intAtom, htext]
        simp [String.toList_append]
      have hwords : ∀ w ∈ [['-'], Nat.toDigits 10 (n + 1)], IsWord w := by
        intro w hw
        rcases List.mem_cons.mp hw with rfl | hw
        · decide
        · rw [List.mem_singleton.mp hw]
          exact isWord_digits hne hdigits
      have hnumber : Codec.decodeNumber (.list [.atom (String.ofList ['-']),
          .atom (String.ofList (Nat.toDigits 10 (n + 1)))]) = .ok (Int.negSucc n) := by
        rw [show String.ofList ['-'] = "-" from rfl, decodeNumber_negated,
          intOfText_digits hne hdigits]
        rfl
      rw [hlist]
      exact answers_of_words hwords (by simp) (decodeAtom_of_number hs hnumber)
        (Value.pyEq_iff.mpr rfl)

/-- A bit-vector by its digits in base 16 or 2. -/
theorem answers_of_hash (hs : s.isBitvector = true) {c : Char} {base n : Nat} {digits : List Char}
    (hc : isPlain c = true) (hne : digits ≠ []) (h : readDigits base digits 0 = some n)
    (hbase : ∀ digits, Codec.bitvectorDigits (.atom (String.ofList ('#' :: c :: digits))) =
      some (base, String.ofList digits)) :
    ∃ tokens x value, Answers codec s (.int n) ('#' :: c :: digits) tokens x value :=
  answers_of_word (isWord_hash hc h)
    (decodeAtom_of_bitvector hs (hbase digits) (intOfText_digits hne h)) (Value.pyEq_iff.mpr rfl)

theorem leftpad_ne_nil {base n k : Nat} : (Nat.toDigits base n).leftpad k '0' ≠ [] := by
  rw [List.leftpad]
  simp

/-- A bit-vector by its value and its width. -/
theorem answers_of_indexed (hs : s.isBitvector = true) (n w : Nat) :
    ∃ tokens x value, Answers codec s (.int n)
      ("(_ bv" ++ toString n ++ " " ++ toString w ++ ")").toList tokens x value := by
  obtain ⟨hn, hndigits, hnne⟩ := toString_digits n
  obtain ⟨hw, hwdigits, hwne⟩ := toString_digits w
  have hlist : ("(_ bv" ++ toString n ++ " " ++ toString w ++ ")").toList =
      '(' :: [' '].intercalate
        [['_'], 'b' :: 'v' :: Nat.toDigits 10 n, Nat.toDigits 10 w] ++ [')'] := by
    rw [hn, hw]
    simp [String.toList_append]
  have hbv : IsWord ('b' :: 'v' :: Nat.toDigits 10 n) := by
    refine ⟨by simp, by simp, ?_⟩
    intro x hx
    simp only [List.mem_cons] at hx
    rcases hx with rfl | rfl | hx
    · decide
    · decide
    · exact isPlain_of_digits hndigits x hx
  have hwords : ∀ w' ∈ [['_'], 'b' :: 'v' :: Nat.toDigits 10 n, Nat.toDigits 10 w], IsWord w' := by
    intro w' hw'
    simp only [List.mem_cons, List.not_mem_nil, or_false] at hw'
    rcases hw' with rfl | rfl | rfl
    · decide
    · exact hbv
    · exact isWord_digits hwne hwdigits
  have hbits : Codec.bitvectorDigits (.list ([['_'], 'b' :: 'v' :: Nat.toDigits 10 n,
      Nat.toDigits 10 w].map (fun w => .atom (String.ofList w)))) =
      some (10, String.ofList (Nat.toDigits 10 n)) := by
    rw [List.map_cons, List.map_cons, show String.ofList ['_'] = "_" from rfl,
      Codec.bitvectorDigits, String.toList_ofList]
    rfl
  rw [hlist]
  exact answers_of_words hwords (by simp)
    (decodeAtom_of_bitvector hs hbits (intOfText_digits hnne hndigits)) (Value.pyEq_iff.mpr rfl)

/-- Every printed value is read back. -/
theorem answers_of_prints {v : Value} {text : List Char} (h : codec.Prints s v text) :
    ∃ tokens x value, Answers codec s v text tokens x value := by
  cases h with
  | bool hs b =>
      have hword : IsWord (if b then "true" else "false").toList := by
        cases b <;> decide
      have hdecodes : codec.decodeAtom s
          (.atom (String.ofList (if b then "true" else "false").toList)) = .ok (.bool b) := by
        cases b <;> simp [Codec.decodeAtom, hs, Codec.decodeBool]
      exact answers_of_word hword hdecodes (Value.pyEq_iff.mpr rfl)
  | int hs n => exact answers_of_intAtom hs n
  | hex hs hk hn =>
      refine answers_of_hash hs (by decide) leftpad_ne_nil
        (readDigits_leftpad (by decide) (by decide) _ _) ?_
      intro digits
      rw [Codec.bitvectorDigits, String.toList_ofList]
      rfl
  | binary hs hw hn =>
      refine answers_of_hash hs (by decide) leftpad_ne_nil
        (readDigits_leftpad (by decide) (by decide) _ _) ?_
      intro digits
      rw [Codec.bitvectorDigits, String.toList_ofList]
      rfl
  | bv hs hw hn => exact answers_of_indexed hs _ _
  | @enum hs v code hcode =>
      obtain ⟨htext, hdigits, hne⟩ := toString_digits code
      rw [htext, String.toList_ofList]
      obtain ⟨value, hdecodes, heq⟩ := decodeAtom_of_code hs hcode (intOfText_digits hne hdigits)
      exact answers_of_word (isWord_digits hne hdigits) hdecodes heq

end Prints

/-! ## Literals -/

/-- A value of the sort, and for an enumerated sort one that has a code. -/
def Codec.WellSorted (codec : Codec) (s : IrSort) (v : Value) : Prop :=
  s.acceptsLiteral v = true ∧ (s.isEnumerated = true → ∃ w ∈ codec.values s, w.pyEq v = true)

/-- Some value of the sort is equal to this one. -/
def Codec.Recorded (values : Dict IrSort (List Value)) (p : Value × IrSort) : Prop :=
  ∃ w ∈ (values.get? p.2).getD [], w.pyEq p.1 = true

namespace Codec

theorem recorded_record_self {values : Dict IrSort (List Value)} {p : Value × IrSort}
    (hs : p.2.isEnumerated = true) : Recorded (record values p) p := by
  unfold record Recorded
  rw [if_pos hs, Dict.get?_insert_self, Option.getD_some]
  split_ifs with hany
  · exact List.any_eq_true.mp hany
  · exact ⟨p.1, by simp, Value.pyEq_iff.mpr rfl⟩

theorem recorded_record {values : Dict IrSort (List Value)} {p p' : Value × IrSort}
    (h : Recorded values p) : Recorded (record values p') p := by
  obtain ⟨w, hw, heq⟩ := h
  refine ⟨w, ?_, heq⟩
  unfold record
  split_ifs with hs
  · by_cases hsort : p.2 = p'.2
    · rw [hsort, Dict.get?_insert_self, Option.getD_some]
      rw [hsort] at hw
      split_ifs
      · exact hw
      · exact List.mem_append_left _ hw
    · rwa [Dict.get?_insert_of_ne _ hsort]
  · exact hw

theorem recorded_of_mem {literals : List (Value × IrSort)} {p : Value × IrSort}
    (hp : p ∈ literals) (hs : p.2.isEnumerated = true) : Recorded (recorded literals) p := by
  have hkept : ∀ (literals : List (Value × IrSort)) (values : Dict IrSort (List Value)),
      Recorded values p → Recorded (literals.foldl record values) p := by
    intro literals
    induction literals with
    | nil => exact fun _ h => h
    | cons p' literals ih => exact fun values h => ih _ (recorded_record h)
  obtain ⟨before, after, rfl⟩ := List.append_of_mem hp
  rw [recorded, List.foldl_append, List.foldl_cons]
  exact hkept after _ (recorded_record_self hs)

theorem get?_ordered (values : Dict IrSort (List Value)) (s : IrSort) :
    (ordered values).get? s = (values.get? s).map (fun l => l.insertionSort Value.nameOrder) := by
  show Dict.lookup s (values.entries.map _) = (Dict.lookup s values.entries).map _
  induction values.entries with
  | nil => rfl
  | cons p entries ih =>
      obtain ⟨s', l⟩ := p
      rw [List.map_cons, Dict.lookup, Dict.lookup]
      split_ifs
      · rfl
      · exact ih

/-- The values of a domain have codes. -/
theorem wellSorted_of_ofProblem {problem : BoundedProblem} {codec : Codec}
    (h : ofProblem problem = .ok codec) {v : FiniteVariable} (hv : v ∈ codec.vars) {value : Value}
    (hdomain : value ∈ v.domain) (haccepts : v.sort.acceptsLiteral value = true) :
    codec.WellSorted v.sort value := by
  refine ⟨haccepts, ?_⟩
  intro hs
  unfold ofProblem at h
  obtain ⟨vars, hvars, h⟩ := bind_eq_ok.mp h
  obtain ⟨literals, hliterals, h⟩ := bind_eq_ok.mp h
  split_ifs at h with hnodup
  cases h
  have hmem : (value, v.sort) ∈ literals := by
    obtain ⟨events, -, hliterals⟩ := bind_eq_ok.mp hliterals
    cases hliterals
    simp only [List.append_assoc]
    exact List.mem_append_left _ (List.mem_flatMap.mpr ⟨v, hv, List.mem_map.mpr ⟨value, hdomain, rfl⟩⟩)
  obtain ⟨w, hw, heq⟩ := recorded_of_mem hmem hs
  refine ⟨w, ?_, heq⟩
  show w ∈ ((ordered (recorded literals)).get? v.sort).getD []
  rw [get?_ordered]
  cases hget : (recorded literals).get? v.sort with
  | none =>
      rw [hget] at hw
      cases hw
  | some l =>
      rw [hget] at hw
      simpa using hw

end Codec

/-- The literals that the codec writes are in standard form; every well-sorted value has one. -/
theorem Codec.WellSorted.prints {codec : Codec} {s : IrSort} {v : Value}
    (h : codec.WellSorted s v) (interpreter : Interpreter) :
    ∃ text, codec.literal interpreter s v = .ok text ∧ codec.Prints s v text.toList := by
  obtain ⟨haccepts, henum⟩ := h
  unfold IrSort.acceptsLiteral at haccepts
  unfold Codec.literal
  cases hbool : s.isBool with
  | true =>
      simp only [hbool, if_true] at haccepts ⊢
      cases v with
      | bool b => exact ⟨_, rfl, .bool hbool b⟩
      | _ => cases haccepts
  | false =>
      cases hint : s.isInt with
      | true =>
          simp only [hbool, hint, Bool.false_eq_true, if_false, if_true] at haccepts ⊢
          cases v with
          | int n => exact ⟨_, rfl, .int hint n⟩
          | _ => simp [Value.asInt?, Value.isBool] at haccepts
      | false =>
          cases hbv : s.isBitvector with
          | true =>
              have hstring : s.isString = false := by
                simp only [IrSort.isBitvector, decide_eq_true_eq] at hbv
                simp [IrSort.isString, hbv]
              simp only [hbool, hint, hbv, hstring, Bool.false_eq_true, if_false, if_true]
                at haccepts ⊢
              cases v with
              | int n =>
                  simp only [Bool.and_eq_true, decide_eq_true_eq] at haccepts
                  obtain ⟨m, rfl⟩ := Int.eq_ofNat_of_zero_le haccepts.1
                  have hwidth : s.width = some (s.width.getD 0) := by
                    have hne := s.bv_width (by simpa [IrSort.isBitvector] using hbv)
                    obtain ⟨w, hw⟩ := Option.ne_none_iff_exists'.mp hne
                    rw [hw, Option.getD_some]
                  exact ⟨_, rfl, .bv hbv hwidth (by exact_mod_cast haccepts.2)⟩
              | _ => cases haccepts
          | false =>
              have hs : s.isEnumerated = true := by simp [IrSort.isEnumerated, hbool, hint, hbv]
              obtain ⟨w, hw, heq⟩ := henum hs
              have hsome : (codec.enumEncode s v).isSome := by
                rw [Codec.enumEncode, List.findIdx?_isSome, List.any_eq_true]
                exact ⟨w, hw, heq⟩
              obtain ⟨code, hcode⟩ := Option.isSome_iff_exists.mp hsome
              simp only [Bool.false_eq_true, if_false, hcode]
              exact ⟨_, rfl, .enum hs hcode⟩

/-! ## The list of values -/

section Response

variable {codec : Codec} {vs : List FiniteVariable} {text : FiniteVariable → List Char}
  {tokens : FiniteVariable → List String} {x : FiniteVariable → Sexpr}

/-- The tokens of one pair. -/
def itemTokens (tokens : FiniteVariable → List String) (v : FiniteVariable) : List String :=
  "(" :: ([v.name] ++ tokens v) ++ [")"]

theorem tokenize_item {v : FiniteVariable} (h : Lexes (text v) (tokens v)) (rest : List Char) :
    tokenize (getValueItem (v.name, text v) ++ rest) = itemTokens tokens v ++ tokenize rest := by
  have hends : EndsToken (')' :: rest) := by simp [EndsToken, isPlain]
  have hitem : getValueItem (v.name, text v) ++ rest =
      '(' :: (Codec.q v.name ++ ' ' :: (text v ++ ')' :: rest)) := by simp [getValueItem]
  rw [hitem, tokenize_paren (.inl rfl), tokenize_q, tokenize_space (by decide), h _ hends,
    tokenize_paren (.inr rfl), itemTokens]
  simp

theorem tokenize_getValueList (h : ∀ v ∈ vs, Lexes (text v) (tokens v)) :
    tokenize (getValueList (vs.map (fun v => (v.name, text v)))) =
      "(" :: vs.flatMap (itemTokens tokens) ++ [")"] := by
  have hend : tokenize [')'] = [")"] := by
    rw [tokenize_paren (.inr rfl), tokenize]
  have hrest : ∀ vs : List FiniteVariable, (∀ v ∈ vs, Lexes (text v) (tokens v)) →
      tokenize ((vs.map (fun v => (v.name, text v))).flatMap
        (fun p => '\n' :: ' ' :: getValueItem p) ++ [')']) =
        vs.flatMap (itemTokens tokens) ++ [")"] := by
    intro vs h
    induction vs with
    | nil => simpa using hend
    | cons v vs ih =>
        rw [List.map_cons, List.flatMap_cons, List.append_assoc, List.cons_append,
          List.cons_append, tokenize_space (by decide), tokenize_space (by decide),
          tokenize_item (h v List.mem_cons_self),
          ih (fun w hw => h w (List.mem_cons_of_mem _ hw)), List.flatMap_cons, List.append_assoc]
  cases vs with
  | nil =>
      rw [List.map_nil, getValueList, tokenize_paren (.inl rfl), hend]
      rfl
  | cons v vs =>
      rw [List.map_cons, getValueList, List.cons_append, List.cons_append, List.append_assoc,
        tokenize_paren (.inl rfl), tokenize_item (h v List.mem_cons_self),
        hrest vs (fun w hw => h w (List.mem_cons_of_mem _ hw)), List.flatMap_cons]
      simp

/-- What one pair is read as. -/
def itemSexpr (x : FiniteVariable → Sexpr) (v : FiniteVariable) : Sexpr :=
  .list [.atom v.name, x v]

theorem readsAll_items (hreads : ∀ v ∈ vs, Reads (tokens v) (x v))
    (hopen : ∀ v ∈ vs, v.name ≠ "(") (hclose : ∀ v ∈ vs, v.name ≠ ")") :
    ReadsAll (vs.flatMap (itemTokens tokens)) (vs.map (itemSexpr x)) := by
  induction vs with
  | nil => exact readsAll_nil
  | cons v vs ih =>
      rw [List.flatMap_cons, List.map_cons]
      refine ReadsAll.cons (ReadsAll.list ?_) (ih (fun w hw => hreads w (List.mem_cons_of_mem _ hw))
        (fun w hw => hopen w (List.mem_cons_of_mem _ hw))
        (fun w hw => hclose w (List.mem_cons_of_mem _ hw)))
      have hname := reads_atom (hopen v List.mem_cons_self) (hclose v List.mem_cons_self)
      have hvalue := ReadsAll.cons (hreads v List.mem_cons_self) readsAll_nil
      rw [List.append_nil] at hvalue
      exact ReadsAll.cons hname hvalue

theorem parse_getValueList (hreads : ∀ v ∈ vs, Reads (tokens v) (x v))
    (hopen : ∀ v ∈ vs, v.name ≠ "(") (hclose : ∀ v ∈ vs, v.name ≠ ")") :
    parseSexprs ("(" :: vs.flatMap (itemTokens tokens) ++ [")"]) [] [] =
      .ok [.list (vs.map (itemSexpr x))] := by
  have hlist := (readsAll_items hreads hopen hclose).list [] [] []
  rw [List.append_nil, List.nil_append] at hlist
  rw [hlist, parseSexprs, if_pos rfl]

theorem find?_var {v : FiniteVariable} (hv : v ∈ codec.vars) :
    codec.vars.find? (fun w => w.name = v.name) = some v := by
  have hsome : (codec.vars.find? (fun w => w.name = v.name)).isSome :=
    List.find?_isSome.mpr ⟨v, hv, by simp⟩
  obtain ⟨w, hw⟩ := Option.isSome_iff_exists.mp hsome
  have hname : w.name = v.name := by simpa using List.find?_some hw
  rw [hw, List.inj_on_of_nodup_map codec.vars_nodup (List.mem_of_find?_eq_some hw) hv hname]

/-- The items decode to the values of their variables. -/
theorem addItem_items {value : FiniteVariable → Value} (hsub : vs ⊆ codec.vars)
    (hdecodes : ∀ v ∈ vs, codec.decodeAtom v.sort (x v) = .ok (value v))
    (result : Dict String Value) :
    (vs.map (itemSexpr x)).foldlM codec.addItem result =
      .ok ((vs.map (fun v => (v.name, value v))).foldl (fun d p => d.insert p.1 p.2) result) := by
  induction vs generalizing result with
  | nil => rfl
  | cons v vs ih =>
      have hfind := find?_var (hsub List.mem_cons_self)
      rw [List.map_cons, List.foldlM_cons]
      have hitem : codec.addItem result (itemSexpr x v) = .ok (result.insert v.name (value v)) := by
        rw [itemSexpr, Codec.addItem, hfind]
        dsimp only
        rw [hdecodes v List.mem_cons_self]
        rfl
      rw [hitem, ok_bind, ih (fun w hw => hsub (List.mem_cons_of_mem _ hw))
        (fun w hw => hdecodes w (List.mem_cons_of_mem _ hw))]
      rfl

/-! ## Lines -/

/-- The text of a list of values ends with its parenthesis, and its lines end with newlines. -/
theorem getValueList_lines {pairs : List (String × List Char)}
    (hnames : ∀ p ∈ pairs, ∀ c ∈ p.1.toList, isLineBoundary c = false)
    (htexts : ∀ p ∈ pairs, ∀ c ∈ p.2, isLineBoundary c = false) :
    ∃ body, getValueList pairs = body ++ [')'] ∧ OnlyNewlines body := by
  have hitem : ∀ p ∈ pairs, OnlyNewlines (getValueItem p) := by
    intro p hp c hc hline
    simp only [getValueItem, Codec.q, List.mem_append, List.mem_cons, List.mem_flatMap,
      List.not_mem_nil, or_false] at hc
    rcases hc with ((rfl | (rfl | ⟨x, hx, hc⟩) | rfl) | rfl | hc) | rfl
    · exact absurd hline (by decide)
    · exact absurd hline (by decide)
    · have hchar : c = '\\' ∨ c = x := by
        split_ifs at hc with hx'
        · simpa using hc
        · exact .inr (by simpa using hc)
      rcases hchar with rfl | rfl
      · exact absurd hline (by decide)
      · simp [hnames p hp c hx] at hline
    · exact absurd hline (by decide)
    · exact absurd hline (by decide)
    · simp [htexts p hp c hc] at hline
    · exact absurd hline (by decide)
  cases pairs with
  | nil =>
      refine ⟨['('], rfl, ?_⟩
      intro c hc hline
      rw [List.mem_singleton.mp hc] at hline
      exact absurd hline (by decide)
  | cons p rest =>
      refine ⟨_, rfl, ?_⟩
      intro c hc hline
      simp only [List.mem_append, List.mem_cons, List.mem_flatMap] at hc
      rcases hc with (rfl | hc) | ⟨p', hp', rfl | rfl | hc⟩
      · exact absurd hline (by decide)
      · exact hitem p List.mem_cons_self c hc hline
      · rfl
      · exact absurd hline (by decide)
      · exact hitem p' (List.mem_cons_of_mem _ hp') c hc hline

/-- A response is read from the text of its list. -/
theorem assignmentFromOutput_response {pairs : List (String × List Char)}
    (hnames : ∀ p ∈ pairs, ∀ c ∈ p.1.toList, isLineBoundary c = false)
    (htexts : ∀ p ∈ pairs, ∀ c ∈ p.2, isLineBoundary c = false) :
    assignmentFromOutput (response pairs) codec =
      parseSexprs (tokenize (getValueList pairs)) [] [] >>= fun forms =>
        (firstItems forms).foldlM codec.addItem .empty >>= fun result => .ok ("sat", result) := by
  obtain ⟨body, hbody, hlines⟩ := getValueList_lines hnames htexts
  have hstrip : strip (response pairs).toList = 's' :: 'a' :: 't' :: '\n' :: (body ++ [')']) := by
    have htext : (response pairs).toList =
        's' :: ('a' :: 't' :: '\n' :: body) ++ [')'] ++ ['\n'] := by
      simp [response, hbody]
    rw [htext, strip_concat_space (by decide) (by decide) (by decide)]
    rfl
  have hsplit : splitLines ('s' :: 'a' :: 't' :: '\n' :: (body ++ [')'])) =
      ['s', 'a', 't'] :: splitLines (body ++ [')']) := by
    rw [splitLines, splitLinesFrom_of_not (by decide), splitLinesFrom_of_not (by decide),
      splitLinesFrom_of_not (by decide), splitLinesFrom_newline]
    rfl
  have hjoin : joinLines (splitLines (body ++ [')'])) = getValueList pairs := by
    rw [splitLines, joinLines_splitLinesFrom hlines (by decide), hbody]
    rfl
  have hsat : String.ofList (strip ['s', 'a', 't']) = "sat" := by decide
  rw [assignmentFromOutput, hstrip, hsplit]
  dsimp only
  rw [hsat, if_neg (by simp), hjoin]
  rfl

end Response

/-! ## Atoms inside of lists -/

/-- No atom is a parenthesis. -/
inductive Clean : Sexpr → Prop where
  | atom {s : String} (hopen : s ≠ "(") (hclose : s ≠ ")") : Clean (.atom s)
  | list {items : List Sexpr} (h : ∀ x ∈ items, Clean x) : Clean (.list items)

/-- Inside of the open calls no atom is a parenthesis, and neither inside of the lists that
are read outside of them. -/
def CleanInside : List Sexpr → List (List Sexpr) → Prop
  | top, [] => ∀ items, .list items ∈ top → Clean (.list items)
  | top, array :: outer => (∀ x ∈ top, Clean x) ∧ CleanInside array outer

theorem CleanInside.concat {top : List Sexpr} {outer : List (List Sexpr)} {x : Sexpr}
    (h : CleanInside top outer) (hx : Clean x) : CleanInside (top ++ [x]) outer := by
  cases outer with
  | nil =>
      intro items hitems
      rcases List.mem_append.mp hitems with hitems | hitems
      · exact h items hitems
      · rwa [List.mem_singleton.mp hitems]
  | cons array outer =>
      refine ⟨?_, h.2⟩
      intro y hy
      rcases List.mem_append.mp hy with hy | hy
      · exact h.1 y hy
      · rwa [List.mem_singleton.mp hy]

/-- A list that is read has no parenthesis among its atoms. -/
theorem clean_of_parseSexprs {tokens : List String} {top forms : List Sexpr}
    {outer : List (List Sexpr)} (hclean : CleanInside top outer)
    (h : parseSexprs tokens top outer = .ok forms) :
    ∀ items, .list items ∈ forms → Clean (.list items) := by
  induction tokens generalizing top outer with
  | nil =>
      rw [parseSexprs] at h
      split_ifs at h with houter
      cases h
      rw [houter] at hclean
      exact hclean
  | cons token tokens ih =>
      by_cases hopen : token = "("
      · rw [hopen, parseSexprs_open] at h
        have hinside : CleanInside [] (top :: outer) := ⟨by simp, hclean⟩
        exact ih hinside h
      · cases outer with
        | nil =>
            rw [parseSexprs, if_neg hopen] at h
            refine ih ?_ h
            intro items hitems
            rcases List.mem_append.mp hitems with hitems | hitems
            · exact hclean items hitems
            · cases List.mem_singleton.mp hitems
        | cons array outer =>
            rw [parseSexprs, if_neg hopen] at h
            split_ifs at h with hclose
            · exact ih (hclean.2.concat (.list hclean.1)) h
            · exact ih (CleanInside.concat hclean (.atom hopen hclose)) h

theorem keys_of_addItem {codec : Codec} {result result' : Dict String Value} {item : Sexpr}
    (h : codec.addItem result item = .ok result') :
    ∀ k ∈ result'.keys, k ∈ result.keys ∨ ∃ x, item = .list [.atom k, x] := by
  intro k hk
  unfold Codec.addItem at h
  split at h
  · rename_i name x
    split at h
    · rename_i v _
      cases hvalue : codec.decodeAtom v.sort x with
      | error e =>
          rw [hvalue] at h
          cases h
      | ok value =>
          rw [hvalue] at h
          cases h
          rcases Dict.keys_insert.mp hk with rfl | hk
          · exact .inr ⟨x, rfl⟩
          · exact .inl hk
    · cases h
      exact .inl hk
  · cases h
  · cases h
    exact .inl hk

theorem keys_of_addItems {codec : Codec} {result result' : Dict String Value} {items : List Sexpr}
    (h : items.foldlM codec.addItem result = .ok result') :
    ∀ k ∈ result'.keys, k ∈ result.keys ∨ ∃ x, .list [.atom k, x] ∈ items := by
  induction items generalizing result with
  | nil =>
      cases h
      exact fun k hk => .inl hk
  | cons item items ih =>
      rw [List.foldlM_cons] at h
      obtain ⟨next, hnext, h⟩ := bind_eq_ok.mp h
      intro k hk
      rcases ih h k hk with hk | ⟨x, hx⟩
      · rcases keys_of_addItem hnext k hk with hk | ⟨x, rfl⟩
        · exact .inl hk
        · exact .inr ⟨x, List.mem_cons_self⟩
      · exact .inr ⟨x, List.mem_cons_of_mem _ hx⟩

/-- A parenthesis is no name of a response. -/
theorem not_paren_of_read {codec : Codec} {tokens : List String} {forms : List Sexpr}
    {result : Dict String Value} (hforms : parseSexprs tokens [] [] = .ok forms)
    (hresult : (firstItems forms).foldlM codec.addItem .empty = .ok result) :
    ∀ k ∈ result.keys, k ≠ "(" ∧ k ≠ ")" := by
  intro k hk
  rcases keys_of_addItems hresult k hk with hk | ⟨x, hx⟩
  · cases hk
  · have hclean : CleanInside [] [] := fun _ h => nomatch h
    cases forms with
    | nil => cases hx
    | cons form forms =>
        cases form with
        | atom s => cases hx
        | list items =>
            cases clean_of_parseSexprs hclean hforms items List.mem_cons_self with
            | list hitems =>
                cases hitems _ hx with
                | list hpair =>
                    cases hpair _ List.mem_cons_self with
                    | atom hopen hclose => exact ⟨hopen, hclose⟩

/-! ## Responses are read back -/

/-- The response is read back as the assignment: the variables have their values, and there
is nothing else. -/
def ReadsBack (codec : Codec) (assignment : FiniteVariable → Value) (output : String) : Prop :=
  ∃ result, assignmentFromOutput output codec = .ok ("sat", result) ∧
    result.keys = codec.vars.map FiniteVariable.name ∧
    ∀ v ∈ codec.vars, ∃ value, result.get? v.name = some value ∧ value.pyEq (assignment v) = true

/-- A response with values in standard form is read back as the assignment exactly when no
variable is named like a parenthesis. -/
theorem readsBack_iff (codec : Codec) (assignment : FiniteVariable → Value)
    (text : FiniteVariable → List Char)
    (hlines : ∀ v ∈ codec.vars, ∀ c ∈ v.name.toList, isLineBoundary c = false)
    (hprints : ∀ v ∈ codec.vars, codec.Prints v.sort (assignment v) (text v)) :
    ReadsBack codec assignment (response (codec.vars.map (fun v => (v.name, text v)))) ↔
      ∀ v ∈ codec.vars, v.name ≠ "(" ∧ v.name ≠ ")" := by
  have hinhabited : Nonempty Sexpr := ⟨.atom ""⟩
  have hvalue : Nonempty Value := ⟨.none⟩
  choose! tokens x value hanswers using fun v hv => answers_of_prints (hprints v hv)
  have hread := @assignmentFromOutput_response codec (codec.vars.map (fun v => (v.name, text v)))
    (by
      intro p hp
      obtain ⟨v, hv, rfl⟩ := List.mem_map.mp hp
      exact hlines v hv)
    (by
      intro p hp
      obtain ⟨v, hv, rfl⟩ := List.mem_map.mp hp
      exact (hanswers v hv).lines)
  rw [tokenize_getValueList (fun v hv => (hanswers v hv).lexes)] at hread
  constructor
  · rintro ⟨result, hresult, hkeys, -⟩ v hv
    rw [hread] at hresult
    obtain ⟨forms, hforms, hresult⟩ := bind_eq_ok.mp hresult
    obtain ⟨_, hfold, hresult⟩ := bind_eq_ok.mp hresult
    cases hresult
    refine not_paren_of_read hforms hfold v.name ?_
    rw [hkeys]
    exact List.mem_map_of_mem hv
  · intro hparen
    rw [parse_getValueList (fun v hv => (hanswers v hv).reads) (fun v hv => (hparen v hv).1)
      (fun v hv => (hparen v hv).2), ok_bind, firstItems,
      addItem_items (fun _ h => h) (fun v hv => (hanswers v hv).decodes), ok_bind] at hread
    have hnames : ((codec.vars.map (fun v => (v.name, value v))).map Prod.fst).Nodup := by
      simpa [Function.comp_def] using codec.vars_nodup
    refine ⟨_, hread, ?_, ?_⟩
    · show (Dict.ofList _).keys = _
      rw [Dict.keys, Dict.entries_ofList hnames]
      simp [Function.comp_def]
    · intro v hv
      refine ⟨value v, ?_, (hanswers v hv).pyEq⟩
      show (Dict.ofList _).get? _ = _
      rw [Dict.get?_eq_some_iff, Dict.entries_ofList hnames]
      exact List.mem_map.mpr ⟨v, hv, rfl⟩

/-! ## Names -/

/-- Variables whose names have bars, backslashes, blanks and parentheses. -/
def namesCodec : Codec where
  vars := [⟨"a|b\\", .int, [.int (-5)]⟩, ⟨"(x", maskSort, [.int 173]⟩, ⟨"y z)", .bool, []⟩,
    ⟨"|", opIdSort, [.str "i", .str "j"]⟩]
  enumValues := .ofList [(opIdSort, [.str "i", .str "j"])]
  vars_nodup := by decide
  enum_distinct := by decide

def namesAssignment (v : FiniteVariable) : Value :=
  if v.sort.isBool then .bool true
  else if v.sort.isInt then .int (-5)
  else if v.sort.isBitvector then .int 173
  else .str "j"

def namesText (v : FiniteVariable) : List Char :=
  if v.sort.isBool then "true".toList
  else if v.sort.isInt then "(- 5)".toList
  else if v.sort.isBitvector then "#xad".toList
  else "1".toList

theorem oneLine_of_all {text : List Char} (h : text.all (fun c => !isLineBoundary c) = true) :
    ∀ c ∈ text, isLineBoundary c = false := by
  simpa using h

theorem namesCodec_readsBack : ReadsBack namesCodec namesAssignment
    (response (namesCodec.vars.map (fun v => (v.name, namesText v)))) := by
  have hlines : ∀ v ∈ namesCodec.vars,
      v.name.toList.all (fun c => !isLineBoundary c) = true := by decide
  refine (readsBack_iff namesCodec namesAssignment namesText
    (fun v hv => oneLine_of_all (hlines v hv)) ?_).mpr (by decide)
  intro v hv
  simp only [namesCodec, List.mem_cons, List.not_mem_nil, or_false] at hv
  rcases hv with rfl | rfl | rfl | rfl
  · exact .int rfl (-5)
  · exact @Codec.Prints.hex _ maskSort rfl 2 173 rfl (by decide)
  · exact .bool rfl true
  · exact @Codec.Prints.enum _ opIdSort (by decide) (.str "j") 1 (by decide)

/-- A variable named by an opening parenthesis. -/
def parenCodec : Codec where
  vars := [⟨"(", .int, [.int 5]⟩]
  enumValues := .empty
  vars_nodup := by decide
  enum_distinct := fun _ h => nomatch h

theorem parenCodec_unread :
    (∀ v ∈ parenCodec.vars, v.name ≠ "" ∧ ∀ c ∈ v.name.toList, isLineBoundary c = false) ∧
      parenCodec.Prints .int (.int 5) "5".toList ∧
      assignmentFromOutput (response [("(", "5".toList)]) parenCodec = .error .indexError ∧
      ¬ ReadsBack parenCodec (fun _ => .int 5) (response [("(", "5".toList)]) := by
  have hlexes : Lexes "5".toList ["5"] := (show IsWord "5".toList by decide).lexes
  have hparen : ∀ c ∈ "(".toList, isLineBoundary c = false := oneLine_of_all (by decide)
  have hfive : ∀ c ∈ "5".toList, isLineBoundary c = false := oneLine_of_all (by decide)
  have hread := @assignmentFromOutput_response parenCodec [("(", "5".toList)]
    (List.forall_mem_singleton.mpr hparen) (List.forall_mem_singleton.mpr hfive)
  have htokens := @tokenize_getValueList parenCodec.vars (fun _ => "5".toList) (fun _ => ["5"])
    (fun _ _ => hlexes)
  have hraises : assignmentFromOutput (response [("(", "5".toList)]) parenCodec =
      .error .indexError := by
    rw [hread]
    refine Eq.trans (congrArg (fun tokens => parseSexprs tokens [] [] >>= _) htokens) ?_
    rfl
  refine ⟨List.forall_mem_singleton.mpr ⟨by decide, hparen⟩, .int rfl 5, hraises, ?_⟩
  rintro ⟨result, hresult, -⟩
  rw [hraises] at hresult
  cases hresult

end Umcm
