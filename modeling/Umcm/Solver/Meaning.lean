import Umcm.Solver.Monotone

/-!
# Meaning without errors

Evaluation visits every operand, also of a connective that another operand has
already decided, and an operation that cannot be applied to its operands ends
it. The meaning of an expression separates the two: a failing operation counts
as unknown, so that the meaning is total, and the evaluation returns it exactly
when every operation it visits can be applied.

* `evaluateAt_eq_ok_iff`: evaluation returns the meaning of a faultless expression.
* `keepsValues_iff`: when decided expressions keep their values as further symbols
  are assigned.
-/

namespace Umcm

open Except

/-- An operation that raises says nothing. -/
def Result.ofExcept : Except PyError Result → Result
  | .ok r => r
  | .error _ => none

theorem Result.ofExcept_eq {x : Except PyError Result} {r : Result} (h : x = .ok r) :
    Result.ofExcept x = r := by
  rw [h]
  rfl

/-! ## The meaning -/

section Definitions

variable (interpreter : Interpreter) (assignment : Dict String Value)
  (attributeOf : String → String → Result)

mutual

/-- The meaning of an expression, with the meaning of event attributes as a
parameter. -/
def meaningWith : Expr → Result
  | .literal v _ => some v
  | .symbol name _ => assignment.get? name
  | .eventField eventId field _ => attributeOf eventId field
  | .unary op e =>
    match meaningWith e with
    | some v => Result.ofExcept (some <$> applyUnary op v)
    | none => none
  | .binary op l r =>
    Result.ofExcept (evaluateBinary interpreter op (meaningWith l) (meaningWith r))
  | .nary op es => evaluateNary op (meaningAll es)
  | .ite c t e =>
    if (meaningWith c).isTrue then meaningWith t
    else if (meaningWith c).isFalse then meaningWith e
    else mergeBranches (meaningWith t) (meaningWith e)
  | .call function es _ => Result.ofExcept (evaluateCall interpreter function (meaningAll es))

def meaningAll : List Expr → List Result
  | [] => []
  | e :: es => meaningWith e :: meaningAll es

end

end Definitions

section Visits

variable (meaning : Expr → Result) (attributes : String → String → Prop) (node : Expr → Prop)

mutual

/-- Every node that an evaluation visits meets `node`, and every attribute it
reads meets `attributes`. A conditional whose condition is decided visits one
branch; all other operators visit all operands. -/
def EveryVisited : Expr → Prop
  | .literal v s => node (.literal v s)
  | .symbol name s => node (.symbol name s)
  | .eventField eventId field s => attributes eventId field ∧ node (.eventField eventId field s)
  | .unary op e => EveryVisited e ∧ node (.unary op e)
  | .binary op l r => EveryVisited l ∧ EveryVisited r ∧ node (.binary op l r)
  | .nary op es => EveryVisitedOf es ∧ node (.nary op es)
  | .ite c t e =>
    EveryVisited c ∧
      (if (meaning c).isTrue then EveryVisited t
      else if (meaning c).isFalse then EveryVisited e
      else EveryVisited t ∧ EveryVisited e) ∧ node (.ite c t e)
  | .call function es s => EveryVisitedOf es ∧ node (.call function es s)

def EveryVisitedOf : List Expr → Prop
  | [] => True
  | e :: es => EveryVisited e ∧ EveryVisitedOf es

end

/-- The operation of the node can be applied to the meanings of its operands:
no zero divisor, no block size below one, no operand of a type the operator does
not take, no unknown function, no event that cannot be read. -/
def Applicable (interpreter : Interpreter) (readable : String → Prop) : Expr → Prop
  | .unary op e => ∀ v, meaning e = some v → ∃ w, applyUnary op v = .ok w
  | .binary op l r => ∃ w, evaluateBinary interpreter op (meaning l) (meaning r) = .ok w
  | .call function es _ => ∃ w, evaluateCall interpreter function (es.map meaning) = .ok w
  | .eventField eventId _ _ => readable eventId
  | .literal _ _ | .symbol _ _ | .nary _ _ | .ite _ _ _ => True

end Visits

namespace EvaluationContext

variable (context : EvaluationContext)

/-- The meaning of an event attribute, down to a nesting of the given depth. -/
def attributeMeaningAt : Nat → String → String → Result
  | 0, _, _ => none
  | depth + 1, eventId, field =>
    match context.events.get? eventId with
    | none => none
    | some event =>
      match event.attribute? field with
      | none => none
      | some (.value v) => some v
      | some (.expr e) =>
        meaningWith context.interpreter context.assignment (attributeMeaningAt depth) e

def meaningAt (depth : Nat) (e : Expr) : Result :=
  meaningWith context.interpreter context.assignment (context.attributeMeaningAt depth) e

def evaluateAt (depth : Nat) (e : Expr) : Except PyError Result :=
  evaluateWith context.interpreter context.assignment (context.eventAttributeAt depth) e

/-- Every node visited in the expression of the attribute meets `node`. The
branches of conditionals are chosen by `meaning`. -/
def AttributeVisitsAt (meaning : Nat → Expr → Result) (node : Nat → Expr → Prop) :
    Nat → String → String → Prop
  | 0, _, _ => True
  | depth + 1, eventId, field =>
    match context.events.get? eventId with
    | none => True
    | some event =>
      match event.attribute? field with
      | none => True
      | some (.value _) => True
      | some (.expr e) =>
        EveryVisited (meaning depth) (AttributeVisitsAt meaning node depth) (node depth) e

def VisitsAt (node : Nat → Expr → Prop) (depth : Nat) (e : Expr) : Prop :=
  EveryVisited (context.meaningAt depth) (context.AttributeVisitsAt context.meaningAt node depth)
    (node depth) e

/-- Every node that the evaluation of an expression visits, in the expression and
in the attributes it reads, meets `node`. -/
def Visits (node : Nat → Expr → Prop) (e : Expr) : Prop :=
  context.VisitsAt node (context.interpreter.depth + 1) e

/-- The event exists, and the stack is deep enough for its attributes. -/
def ReadableAt (depth : Nat) (eventId : String) : Prop :=
  0 < depth ∧ (context.events.get? eventId).isSome = true

def ApplicableAt (depth : Nat) : Expr → Prop :=
  Applicable (context.meaningAt depth) context.interpreter (context.ReadableAt depth)

/-- No operation that the evaluation visits raises. -/
def FaultlessAt (depth : Nat) (e : Expr) : Prop := context.VisitsAt context.ApplicableAt depth e

end EvaluationContext

theorem meaningAll_eq_map {interpreter : Interpreter} {assignment : Dict String Value}
    {attributeOf : String → String → Result} {es : List Expr} :
    meaningAll interpreter assignment attributeOf es =
      es.map (meaningWith interpreter assignment attributeOf) := by
  induction es with
  | nil => rw [meaningAll, List.map_nil]
  | cons e es ih => rw [meaningAll, ih, List.map_cons]

/-! ## Evaluation returns the meaning -/

section Evaluation

variable {interpreter : Interpreter} {assignment : Dict String Value}
  {attributeOf : String → String → Except PyError Result}
  {attributeMeaning : String → String → Result} {attributes : String → String → Prop}
  {readable : String → Prop}

mutual

theorem evaluateWith_eq_ok_iff
    (hattribute : ∀ id field r, attributeOf id field = .ok r ↔
      (attributes id field ∧ readable id) ∧ attributeMeaning id field = r) :
    ∀ {e : Expr} {r : Result},
    evaluateWith interpreter assignment attributeOf e = .ok r ↔
      EveryVisited (meaningWith interpreter assignment attributeMeaning) attributes
        (Applicable (meaningWith interpreter assignment attributeMeaning) interpreter readable) e ∧
      meaningWith interpreter assignment attributeMeaning e = r
  | .literal v s, r => by
      simp [evaluateWith, meaningWith, EveryVisited, Applicable]
  | .symbol name s, r => by
      simp [evaluateWith, meaningWith, EveryVisited, Applicable]
  | .eventField id field s, r => by
      simp [evaluateWith, meaningWith, EveryVisited, Applicable, hattribute]
  | .unary op e, r => by
      rw [evaluateWith, bind_eq_ok, EveryVisited, meaningWith, Applicable]
      simp only [evaluateWith_eq_ok_iff hattribute]
      constructor
      · rintro ⟨v, ⟨hvisited, hv⟩, h⟩
        subst hv
        cases hm : meaningWith interpreter assignment attributeMeaning e with
        | none =>
            rw [hm] at h
            cases h
            exact ⟨⟨hvisited, fun _ h => nomatch h⟩, rfl⟩
        | some v =>
            simp only [hm] at h
            refine ⟨⟨hvisited, fun w hw => ?_⟩, Result.ofExcept_eq h⟩
            cases hw
            cases happly : applyUnary op v with
            | ok w => exact ⟨w, rfl⟩
            | error e => rw [happly] at h; cases h
      · rintro ⟨⟨hvisited, happly⟩, h⟩
        refine ⟨_, ⟨hvisited, rfl⟩, ?_⟩
        cases hm : meaningWith interpreter assignment attributeMeaning e with
        | none =>
            rw [hm] at h
            exact congrArg Except.ok h
        | some v =>
            obtain ⟨w, hw⟩ := happly v hm
            simp only [hm, hw] at h ⊢
            exact congrArg Except.ok h
  | .binary op l e, r => by
      rw [evaluateWith, bind_eq_ok, EveryVisited, meaningWith, Applicable]
      simp only [bind_eq_ok, evaluateWith_eq_ok_iff hattribute]
      constructor
      · rintro ⟨left, ⟨hl, rfl⟩, right, ⟨hr, rfl⟩, h⟩
        exact ⟨⟨hl, hr, r, h⟩, Result.ofExcept_eq h⟩
      · rintro ⟨⟨hl, hr, w, hw⟩, h⟩
        rw [Result.ofExcept_eq hw] at h
        subst h
        exact ⟨_, ⟨hl, rfl⟩, _, ⟨hr, rfl⟩, hw⟩
  | .nary op es, r => by
      rw [evaluateWith, bind_eq_ok, EveryVisited, meaningWith, Applicable]
      simp only [evaluateAll_eq_ok_iff hattribute, Except.ok.injEq]
      constructor
      · rintro ⟨values, ⟨hvisited, rfl⟩, h⟩
        exact ⟨⟨hvisited, trivial⟩, h⟩
      · rintro ⟨⟨hvisited, -⟩, h⟩
        exact ⟨_, ⟨hvisited, rfl⟩, h⟩
  | .ite c t e, r => by
      rw [evaluateWith, bind_eq_ok, EveryVisited, meaningWith, Applicable]
      simp only [evaluateWith_eq_ok_iff hattribute]
      -- the condition decides which branches are visited
      by_cases htrue : (meaningWith interpreter assignment attributeMeaning c).isTrue = true
      · simp only [htrue, if_true]
        constructor
        · rintro ⟨condition, ⟨hc, rfl⟩, h⟩
          rw [if_pos htrue, evaluateWith_eq_ok_iff hattribute] at h
          exact ⟨⟨hc, h.1, trivial⟩, h.2⟩
        · rintro ⟨⟨hc, ht, -⟩, h⟩
          refine ⟨_, ⟨hc, rfl⟩, ?_⟩
          rw [if_pos htrue, evaluateWith_eq_ok_iff hattribute]
          exact ⟨ht, h⟩
      · by_cases hfalse : (meaningWith interpreter assignment attributeMeaning c).isFalse = true
        · simp only [htrue, hfalse, if_true]
          constructor
          · rintro ⟨condition, ⟨hc, rfl⟩, h⟩
            rw [if_neg htrue, if_pos hfalse, evaluateWith_eq_ok_iff hattribute] at h
            exact ⟨⟨hc, h.1, trivial⟩, h.2⟩
          · rintro ⟨⟨hc, he, -⟩, h⟩
            refine ⟨_, ⟨hc, rfl⟩, ?_⟩
            rw [if_neg htrue, if_pos hfalse, evaluateWith_eq_ok_iff hattribute]
            exact ⟨he, h⟩
        · simp only [htrue, hfalse]
          constructor
          · rintro ⟨condition, ⟨hc, rfl⟩, h⟩
            rw [if_neg htrue, if_neg hfalse, bind_eq_ok] at h
            obtain ⟨thenValue, hthen, h⟩ := h
            obtain ⟨elseValue, helse, h⟩ := bind_eq_ok.mp h
            rw [evaluateWith_eq_ok_iff hattribute] at hthen helse
            rw [hthen.2, helse.2]
            exact ⟨⟨hc, ⟨hthen.1, helse.1⟩, trivial⟩, Except.ok.inj h⟩
          · rintro ⟨⟨hc, ⟨ht, he⟩, -⟩, h⟩
            refine ⟨_, ⟨hc, rfl⟩, ?_⟩
            rw [if_neg htrue, if_neg hfalse, bind_eq_ok]
            refine ⟨_, (evaluateWith_eq_ok_iff hattribute).mpr ⟨ht, rfl⟩, ?_⟩
            rw [bind_eq_ok]
            exact ⟨_, (evaluateWith_eq_ok_iff hattribute).mpr ⟨he, rfl⟩, congrArg Except.ok h⟩
  | .call function es s, r => by
      rw [evaluateWith, bind_eq_ok, EveryVisited, meaningWith, Applicable]
      simp only [evaluateAll_eq_ok_iff hattribute, ← meaningAll_eq_map]
      constructor
      · rintro ⟨values, ⟨hvisited, rfl⟩, h⟩
        exact ⟨⟨hvisited, r, h⟩, Result.ofExcept_eq h⟩
      · rintro ⟨⟨hvisited, w, hw⟩, h⟩
        rw [Result.ofExcept_eq hw] at h
        subst h
        exact ⟨_, ⟨hvisited, rfl⟩, hw⟩

theorem evaluateAll_eq_ok_iff
    (hattribute : ∀ id field r, attributeOf id field = .ok r ↔
      (attributes id field ∧ readable id) ∧ attributeMeaning id field = r) :
    ∀ {es : List Expr} {values : List Result},
    evaluateAll interpreter assignment attributeOf es = .ok values ↔
      EveryVisitedOf (meaningWith interpreter assignment attributeMeaning) attributes
        (Applicable (meaningWith interpreter assignment attributeMeaning) interpreter readable) es ∧
      meaningAll interpreter assignment attributeMeaning es = values
  | [], values => by
      simp [evaluateAll, meaningAll, EveryVisitedOf]
  | e :: es, values => by
      rw [evaluateAll, bind_eq_ok, EveryVisitedOf, meaningAll]
      simp only [bind_eq_ok, evaluateWith_eq_ok_iff hattribute, evaluateAll_eq_ok_iff hattribute,
        Except.ok.injEq]
      constructor
      · rintro ⟨value, ⟨he, rfl⟩, rest, ⟨hes, rfl⟩, h⟩
        exact ⟨⟨he, hes⟩, h⟩
      · rintro ⟨⟨he, hes⟩, h⟩
        exact ⟨_, ⟨he, rfl⟩, _, ⟨hes, rfl⟩, h⟩

end

end Evaluation

namespace EvaluationContext

variable {context : EvaluationContext}

theorem eventAttributeAt_eq_ok_iff {depth : Nat} {id field : String} {r : Result} :
    context.eventAttributeAt depth id field = .ok r ↔
      (context.AttributeVisitsAt context.meaningAt context.ApplicableAt depth id field ∧
        context.ReadableAt depth id) ∧ context.attributeMeaningAt depth id field = r := by
  induction depth generalizing id field r with
  | zero => simp [eventAttributeAt, ReadableAt]
  | succ depth ih =>
      rw [eventAttributeAt, AttributeVisitsAt, attributeMeaningAt, ReadableAt]
      cases hget : context.events.get? id with
      | none => simp
      | some event =>
          cases hattribute : event.attribute? field with
          | none => simp [hattribute]
          | some term =>
              cases term with
              | value v => simp [hattribute]
              | expr e =>
                  simp only [hattribute, Nat.zero_lt_succ, Option.isSome_some, and_self, and_true]
                  exact evaluateWith_eq_ok_iff (fun id field r => @ih id field r)

/-- The evaluation returns the meaning, unless it visits an operation that raises. -/
theorem evaluateAt_eq_ok_iff {depth : Nat} {e : Expr} {r : Result} :
    context.evaluateAt depth e = .ok r ↔
      context.FaultlessAt depth e ∧ context.meaningAt depth e = r :=
  evaluateWith_eq_ok_iff (fun id field r => @eventAttributeAt_eq_ok_iff context depth id field r)

end EvaluationContext

theorem EvaluationContext.meaningAt_ite {context : EvaluationContext} {depth : Nat}
    {c t e : Expr} : context.meaningAt depth (.ite c t e) =
      if (context.meaningAt depth c).isTrue then context.meaningAt depth t
      else if (context.meaningAt depth c).isFalse then context.meaningAt depth e
      else mergeBranches (context.meaningAt depth t) (context.meaningAt depth e) := by
  rw [meaningAt, meaningWith]
  rfl

/-! ## Visited nodes -/

section Visited

variable {meaning : Expr → Result} {attributes : String → String → Prop}
  {node node' : Expr → Prop}

theorem EveryVisited.self {e : Expr} (h : EveryVisited meaning attributes node e) : node e := by
  cases e with
  | literal v s => exact h
  | symbol name s => exact h
  | eventField id field s => exact h.2
  | unary op e => exact h.2
  | binary op l r => exact h.2.2
  | nary op es => exact h.2
  | ite c t e => exact h.2.2
  | call function es s => exact h.2

mutual

/-- What the visited nodes of every visited node imply for it holds at all of them. -/
theorem EveryVisited.deep {attributes' : String → String → Prop}
    (hattributes : ∀ id field, attributes id field → attributes' id field)
    (hnode : ∀ e, EveryVisited meaning attributes node e → node' e) : ∀ {e : Expr},
    EveryVisited meaning attributes node e → EveryVisited meaning attributes' node' e
  | .literal _ _, h => hnode _ h
  | .symbol _ _, h => hnode _ h
  | .eventField _ _ _, h => ⟨hattributes _ _ h.1, hnode _ h⟩
  | .unary _ _, h => ⟨EveryVisited.deep hattributes hnode h.1, hnode _ h⟩
  | .binary _ _ _, h => ⟨EveryVisited.deep hattributes hnode h.1,
      EveryVisited.deep hattributes hnode h.2.1, hnode _ h⟩
  | .nary _ _, h => ⟨EveryVisitedOf.deep hattributes hnode h.1, hnode _ h⟩
  | .ite c t e, h => by
      refine ⟨EveryVisited.deep hattributes hnode h.1, ?_, hnode _ h⟩
      have hbranches := h.2.1
      by_cases htrue : (meaning c).isTrue = true
      · rw [if_pos htrue] at hbranches ⊢
        exact EveryVisited.deep hattributes hnode hbranches
      · rw [if_neg htrue] at hbranches ⊢
        by_cases hfalse : (meaning c).isFalse = true
        · rw [if_pos hfalse] at hbranches ⊢
          exact EveryVisited.deep hattributes hnode hbranches
        · rw [if_neg hfalse] at hbranches ⊢
          exact hbranches.imp (EveryVisited.deep hattributes hnode)
            (EveryVisited.deep hattributes hnode)
  | .call _ _ _, h => ⟨EveryVisitedOf.deep hattributes hnode h.1, hnode _ h⟩

theorem EveryVisitedOf.deep {attributes' : String → String → Prop}
    (hattributes : ∀ id field, attributes id field → attributes' id field)
    (hnode : ∀ e, EveryVisited meaning attributes node e → node' e) : ∀ {es : List Expr},
    EveryVisitedOf meaning attributes node es → EveryVisitedOf meaning attributes' node' es
  | [], _ => trivial
  | _ :: _, h => ⟨EveryVisited.deep hattributes hnode h.1, EveryVisitedOf.deep hattributes hnode h.2⟩

end

end Visited

namespace EvaluationContext

variable {context : EvaluationContext} {node node' : Nat → Expr → Prop}

theorem AttributeVisitsAt.deep {meaning : Nat → Expr → Result}
    (hnode : ∀ depth e, EveryVisited (meaning depth)
      (context.AttributeVisitsAt meaning node depth) (node depth) e → node' depth e)
    {depth : Nat} {id field : String} (h : context.AttributeVisitsAt meaning node depth id field) :
    context.AttributeVisitsAt meaning node' depth id field := by
  induction depth generalizing id field with
  | zero => trivial
  | succ depth ih =>
      rw [AttributeVisitsAt] at h ⊢
      cases hget : context.events.get? id with
      | none => trivial
      | some event =>
          simp only [hget] at h ⊢
          cases hattribute : event.attribute? field with
          | none => trivial
          | some term =>
              cases term with
              | value v => trivial
              | expr e =>
                  simp only [hattribute] at h ⊢
                  exact EveryVisited.deep (fun _ _ => ih) (fun e => hnode depth e) h

theorem VisitsAt.deep (hnode : ∀ depth e, context.VisitsAt node depth e → node' depth e)
    {depth : Nat} {e : Expr} (h : context.VisitsAt node depth e) :
    context.VisitsAt node' depth e :=
  EveryVisited.deep (fun _ _ => AttributeVisitsAt.deep hnode) (fun e => hnode depth e) h

end EvaluationContext

/-! ## Further assignments -/

theorem binary_below {interpreter : Interpreter} {op : BinaryOp} {l l' r r' : Result}
    (hl : l.Below l') (hr : r.Below r') :
    (Result.ofExcept (evaluateBinary interpreter op l r)).Below
      (Result.ofExcept (evaluateBinary interpreter op l' r')) := by
  cases h : evaluateBinary interpreter op l r with
  | error e => exact Or.inl rfl
  | ok v =>
      cases h' : evaluateBinary interpreter op l' r' with
      | ok v' => exact evaluateBinary_mono hl hr h h'
      | error e =>
          -- the connectives never raise, and a strict operator that returned a
          -- value has the same operands
          refine Or.inl ?_
          rcases hl with rfl | rfl
          · cases op <;> first | cases h' | (cases h; rfl)
          · rcases hr with rfl | rfl
            · cases op <;> first | cases h' | (cases l <;> cases h <;> rfl)
            · rw [h] at h'
              cases h'

theorem call_below {interpreter : Interpreter} {function : String} {values values' : List Result}
    (h : List.Forall₂ Result.Below values values') :
    (Result.ofExcept (evaluateCall interpreter function values)).Below
      (Result.ofExcept (evaluateCall interpreter function values')) := by
  by_cases hnone : none ∈ values
  · rw [evaluateCall, if_pos hnone]
    exact Or.inl rfl
  · rw [eq_of_known h hnone]
    exact Result.Below.refl _

/-- Branches that are merged keep the merged result, whichever of them is taken
later, when the second has that result too or is not taken. -/
theorem merge_below {t t' e e' c : Result} (ht : t.Below t') (he : e.Below e')
    (hsecond : ∀ v, mergeBranches t e = some v → c.isFalse = true → e = some v) :
    (mergeBranches t e).Below
      (if c.isTrue = true then t' else if c.isFalse = true then e' else mergeBranches t' e') := by
  rcases t with _ | v
  · exact Or.inl rfl
  rcases e with _ | w
  · exact Or.inl rfl
  by_cases hkey : v.key = w.key
  · have hmerge : mergeBranches (some v) (some w) = some v := by simp [mergeBranches, hkey]
    rw [hmerge] at hsecond ⊢
    rw [Result.Below.some_iff.mp ht, Result.Below.some_iff.mp he, hmerge, Result.Below.some_iff]
    by_cases htrue : c.isTrue = true
    · rw [if_pos htrue]
    · rw [if_neg htrue]
      by_cases hfalse : c.isFalse = true
      · rw [if_pos hfalse]
        exact hsecond v rfl hfalse
      · rw [if_neg hfalse]
  · refine Or.inl ?_
    simp [mergeBranches, hkey]

namespace EvaluationContext

/-- The context after more symbols have been assigned. -/
def assigning (context : EvaluationContext) (assignment : Dict String Value) :
    EvaluationContext := { context with assignment }

section Settled

variable (context : EvaluationContext) (assignment : Dict String Value)

/-- Once the expression has a value, it has that value also when more symbols are
assigned. -/
def KeepsValueAt (depth : Nat) (e : Expr) : Prop :=
  ∀ v, context.evaluateAt depth e = .ok (some v) →
    (context.assigning assignment).evaluateAt depth e = .ok (some v)

/-- A conditional that returned `v` because both branches are equal, and whose
condition has become false, has the same scalar in its second branch; `==` alone
would let `1` become `1.0` or `True`. -/
def SameBranchAt (depth : Nat) (v : Value) : Expr → Prop
  | .ite c _ e => (context.meaningAt depth c).isTrue = false →
      (context.meaningAt depth c).isFalse = false →
      ((context.assigning assignment).meaningAt depth c).isFalse = true →
      context.meaningAt depth e = some v
  | .literal _ _ | .symbol _ _ | .eventField _ _ _ | .unary _ _ | .binary _ _ _ | .nary _ _
  | .call _ _ _ => True

/-- Once the expression has a value, none of its operations raises when more
symbols are assigned, and the value does not come from a branch that is given up
for another scalar. -/
def SettledAt (depth : Nat) (e : Expr) : Prop :=
  ∀ v, context.evaluateAt depth e = .ok (some v) →
    (context.assigning assignment).FaultlessAt depth e ∧
      context.SameBranchAt assignment depth v e

end Settled

end EvaluationContext

section Further

variable {context : EvaluationContext} {assignment : Dict String Value} {depth : Nat}

open EvaluationContext

mutual

/-- Assigning more symbols only makes the meaning of a settled expression better known. -/
theorem meaningAt_below
    (hassignment : ∀ k v, context.assignment.get? k = some v → assignment.get? k = some v)
    (hattribute : ∀ id field, context.eventAttributeAt depth id field =
        .ok (context.attributeMeaningAt depth id field) →
      context.AttributeVisitsAt context.meaningAt (context.SettledAt assignment) depth id field →
      (context.attributeMeaningAt depth id field).Below
        ((context.assigning assignment).attributeMeaningAt depth id field)) : ∀ {e : Expr},
    context.FaultlessAt depth e → context.VisitsAt (context.SettledAt assignment) depth e →
    (context.meaningAt depth e).Below ((context.assigning assignment).meaningAt depth e)
  | .literal v s, _, _ => Result.Below.refl _
  | .symbol name s, _, _ => by
      rw [meaningAt, meaningAt, meaningWith, meaningWith]
      cases hget : context.assignment.get? name with
      | none => exact Or.inl rfl
      | some v => exact Or.inr (hassignment _ _ hget).symm
  | .eventField id field s, hfaultless, h =>
      hattribute id field (eventAttributeAt_eq_ok_iff.mpr ⟨hfaultless, rfl⟩) h.1
  | .unary op e, hfaultless, h => by
      have ih := meaningAt_below hassignment hattribute hfaultless.1 h.1
      rw [meaningAt, meaningAt] at ih ⊢
      rw [meaningWith, meaningWith]
      rcases ih with hnone | heq
      · rw [hnone]
        exact Or.inl rfl
      · rw [heq]
        exact Result.Below.refl _
  | .binary op l e, hfaultless, h => by
      rw [meaningAt, meaningAt, meaningWith, meaningWith]
      exact binary_below (meaningAt_below hassignment hattribute hfaultless.1 h.1)
        (meaningAt_below hassignment hattribute hfaultless.2.1 h.2.1)
  | .nary op es, hfaultless, h => by
      rw [meaningAt, meaningAt, meaningWith, meaningWith, meaningAll_eq_map, meaningAll_eq_map]
      exact evaluateNary_mono (meaningsAt_below hassignment hattribute hfaultless.1 h.1)
  | .ite c t e, hfaultless, h => by
      have hsettled := (evaluateAt_eq_ok_iff.mpr ⟨hfaultless, rfl⟩ :
        context.evaluateAt depth (.ite c t e) = .ok (context.meaningAt depth (.ite c t e)))
      obtain ⟨hc, hbranches, hnode⟩ := h
      obtain ⟨hfc, hfbranches, -⟩ := hfaultless
      have hbelow := meaningAt_below hassignment hattribute hfc hc
      rw [meaningAt_ite] at hsettled ⊢
      rw [meaningAt_ite]
      by_cases htrue : (context.meaningAt depth c).isTrue = true
      · rw [if_pos htrue] at hbranches hfbranches
        rw [if_pos htrue, if_pos (hbelow.isTrue htrue)]
        exact meaningAt_below hassignment hattribute hfbranches hbranches
      · rw [if_neg htrue] at hbranches hfbranches hsettled ⊢
        by_cases hfalse : (context.meaningAt depth c).isFalse = true
        · rw [if_pos hfalse] at hbranches hfbranches
          have hfalse' := hbelow.isFalse hfalse
          have htrue' : ¬ ((context.assigning assignment).meaningAt depth c).isTrue = true := by
            intro ht
            rw [Result.not_isFalse ht] at hfalse'
            cases hfalse'
          rw [if_pos hfalse, if_neg htrue', if_pos hfalse']
          exact meaningAt_below hassignment hattribute hfbranches hbranches
        · rw [if_neg hfalse] at hbranches hfbranches hsettled ⊢
          refine merge_below (meaningAt_below hassignment hattribute hfbranches.1 hbranches.1)
            (meaningAt_below hassignment hattribute hfbranches.2 hbranches.2) ?_
          intro v hv hfalse'
          rw [hv] at hsettled
          exact (hnode v hsettled).2 (Bool.not_eq_true _ ▸ htrue) (Bool.not_eq_true _ ▸ hfalse)
            hfalse'
  | .call function es s, hfaultless, h => by
      rw [meaningAt, meaningAt, meaningWith, meaningWith, meaningAll_eq_map, meaningAll_eq_map]
      exact call_below (meaningsAt_below hassignment hattribute hfaultless.1 h.1)

theorem meaningsAt_below
    (hassignment : ∀ k v, context.assignment.get? k = some v → assignment.get? k = some v)
    (hattribute : ∀ id field, context.eventAttributeAt depth id field =
        .ok (context.attributeMeaningAt depth id field) →
      context.AttributeVisitsAt context.meaningAt (context.SettledAt assignment) depth id field →
      (context.attributeMeaningAt depth id field).Below
        ((context.assigning assignment).attributeMeaningAt depth id field)) : ∀ {es : List Expr},
    EveryVisitedOf (context.meaningAt depth)
      (context.AttributeVisitsAt context.meaningAt context.ApplicableAt depth)
      (context.ApplicableAt depth) es →
    EveryVisitedOf (context.meaningAt depth)
      (context.AttributeVisitsAt context.meaningAt (context.SettledAt assignment) depth)
      (context.SettledAt assignment depth) es →
    List.Forall₂ Result.Below (es.map (context.meaningAt depth))
      (es.map ((context.assigning assignment).meaningAt depth))
  | [], _, _ => .nil
  | _ :: _, hfaultless, h =>
      .cons (meaningAt_below hassignment hattribute hfaultless.1 h.1)
        (meaningsAt_below hassignment hattribute hfaultless.2 h.2)

end

end Further

namespace EvaluationContext

variable {context : EvaluationContext} {assignment : Dict String Value}

theorem attributeMeaningAt_below
    (hassignment : ∀ k v, context.assignment.get? k = some v → assignment.get? k = some v)
    {depth : Nat} {id field : String}
    (hfaultless : context.eventAttributeAt depth id field =
      .ok (context.attributeMeaningAt depth id field))
    (h : context.AttributeVisitsAt context.meaningAt (context.SettledAt assignment) depth id field) :
    (context.attributeMeaningAt depth id field).Below
      ((context.assigning assignment).attributeMeaningAt depth id field) := by
  induction depth generalizing id field with
  | zero => exact Or.inl rfl
  | succ depth ih =>
      obtain ⟨⟨hfaultless, -⟩, -⟩ := eventAttributeAt_eq_ok_iff.mp hfaultless
      rw [AttributeVisitsAt] at h hfaultless
      rw [attributeMeaningAt, attributeMeaningAt]
      change Result.Below _ (match context.events.get? id with
        | none => none
        | some event => _)
      cases hget : context.events.get? id with
      | none => exact Or.inl rfl
      | some event =>
          simp only [hget] at h hfaultless ⊢
          cases hattribute : event.attribute? field with
          | none => exact Or.inl rfl
          | some term =>
              cases term with
              | value v => exact Result.Below.refl _
              | expr e =>
                  simp only [hattribute] at h hfaultless ⊢
                  exact meaningAt_below hassignment (fun _ _ => ih) hfaultless h

/-! ## Decided expressions -/

theorem keepsValueAt_of_settled
    (hassignment : ∀ k v, context.assignment.get? k = some v → assignment.get? k = some v)
    {depth : Nat} {e : Expr} (h : context.VisitsAt (context.SettledAt assignment) depth e) :
    context.KeepsValueAt assignment depth e := by
  intro v hv
  obtain ⟨hfaultless', -⟩ := h.self v hv
  obtain ⟨hfaultless, hmeaning⟩ := evaluateAt_eq_ok_iff.mp hv
  have hbelow := meaningAt_below hassignment
    (fun _ _ => attributeMeaningAt_below hassignment) hfaultless h
  rw [hmeaning, Result.Below.some_iff] at hbelow
  exact evaluateAt_eq_ok_iff.mpr ⟨hfaultless', hbelow⟩

theorem settledAt_of_keepsValue {depth : Nat} {e : Expr}
    (h : context.VisitsAt (context.KeepsValueAt assignment) depth e) :
    context.SettledAt assignment depth e := by
  intro v hv
  have hv' := h.self v hv
  refine ⟨(evaluateAt_eq_ok_iff.mp hv').1, ?_⟩
  cases e with
  | ite c t e =>
      intro htrue hfalse hfalse'
      obtain ⟨hfaultless, hmeaning⟩ := evaluateAt_eq_ok_iff.mp hv
      have hbranches := hfaultless.2.1
      have hkeeps := h.2.1
      rw [htrue, hfalse, if_neg Bool.false_ne_true, if_neg Bool.false_ne_true]
        at hbranches hkeeps
      rw [meaningAt_ite, htrue, hfalse, if_neg Bool.false_ne_true, if_neg Bool.false_ne_true]
        at hmeaning
      have htrue' : ¬ ((context.assigning assignment).meaningAt depth c).isTrue = true := by
        intro ht
        rw [Result.not_isFalse ht] at hfalse'
        cases hfalse'
      have hmeaning' := (evaluateAt_eq_ok_iff.mp hv').2
      rw [meaningAt_ite, if_neg htrue', if_pos hfalse'] at hmeaning'
      -- the second branch keeps its own value, which is the one returned now
      cases hsecond : context.meaningAt depth e with
      | none =>
          rw [hsecond] at hmeaning
          cases hfirst : context.meaningAt depth t <;> rw [hfirst] at hmeaning <;> cases hmeaning
      | some w =>
          have hw := hkeeps.2.self w (evaluateAt_eq_ok_iff.mpr ⟨hbranches.2, hsecond⟩)
          rw [← (evaluateAt_eq_ok_iff.mp hw).2, hmeaning']
  | _ => trivial

/-- A decided expression keeps its value, and so do the subexpressions that are
visited, exactly when assigning the other symbols lets none of their operations
raise and replaces no merged branch by a different scalar that is equal to it. -/
theorem keepsValues_iff
    (hassignment : ∀ k v, context.assignment.get? k = some v → assignment.get? k = some v)
    {e : Expr} :
    context.Visits (context.KeepsValueAt assignment) e ↔
      context.Visits (context.SettledAt assignment) e :=
  ⟨VisitsAt.deep (fun _ _ => settledAt_of_keepsValue),
    VisitsAt.deep (fun _ _ => keepsValueAt_of_settled hassignment)⟩

/-! ### A conjunction decided by its first operand -/

/-- There are no events, and no symbol is assigned. -/
def unassigned : EvaluationContext where
  events := .empty
  assignment := .empty
  interpreter := .integers

/-- `x` is assigned a number. -/
def assignedX (n : Int) : Dict String Value := Dict.empty.insert "x" (.int n)

/-- `False and 1 // x == 1`. -/
def guardedQuotient : Expr :=
  .binary .and (.literal (.bool false) .bool)
    (.binary .eq (.binary .div (.literal (.int 1) .int) (.symbol "x" .int))
      (.literal (.int 1) .int))

theorem unassigned_extends {assignment : Dict String Value} (k : String) (v : Value)
    (h : unassigned.assignment.get? k = some v) : assignment.get? k = some v := by
  cases h

theorem guardedQuotient_settled :
    unassigned.Visits (unassigned.SettledAt (assignedX 2)) guardedQuotient := by
  have hsettled : ∀ {e : Expr} {r : Result} (depth : Nat),
      (unassigned.assigning (assignedX 2)).evaluateAt depth e = .ok r →
      (∀ v, unassigned.SameBranchAt (assignedX 2) depth v e) →
      unassigned.SettledAt (assignedX 2) depth e :=
    fun _ h hbranch v _ => ⟨(evaluateAt_eq_ok_iff.mp h).1, hbranch v⟩
  refine ⟨?_, ⟨⟨?_, ?_, ?_⟩, ?_, ?_⟩, ?_⟩
  all_goals exact hsettled _ rfl (fun _ => trivial)

theorem guardedQuotient_keeps :
    unassigned.Visits (unassigned.KeepsValueAt (assignedX 2)) guardedQuotient :=
  (keepsValues_iff unassigned_extends).mpr guardedQuotient_settled

/-- With `x = 0` the second operand raises, although the first has decided the
conjunction. -/
theorem guardedQuotient_lost :
    guardedQuotient.wellTyped = true ∧
      unassigned.evaluate guardedQuotient = .ok (some (.bool false)) ∧
      (unassigned.assigning (assignedX 0)).evaluate guardedQuotient =
        .error (.solverError "division by zero in expression") ∧
      ¬ unassigned.KeepsValueAt (assignedX 0) (unassigned.interpreter.depth + 1)
        guardedQuotient := by
  have hfalse : unassigned.evaluate guardedQuotient = .ok (some (.bool false)) := rfl
  have hraises : (unassigned.assigning (assignedX 0)).evaluate guardedQuotient =
      .error (.solverError "division by zero in expression") := by decide
  refine ⟨by decide, hfalse, hraises, ?_⟩
  intro hkeeps
  have hkept : (unassigned.assigning (assignedX 0)).evaluate guardedQuotient = _ :=
    hkeeps _ hfalse
  rw [hraises] at hkept
  cases hkept

/-- Two equal addresses of different types, chosen by `c`, and their block. -/
def mergedBlock : Expr :=
  .call "same_block" [.ite (.symbol "c" .bool) (.literal (.int 8) addressSort)
    (.literal (.float 8 "8.0") addressSort), .literal (.int 9) addressSort,
    .literal (.int 4) .int] .bool

-- The branches are merged while `c` is open; the float is compared without blocks.
example : unassigned.evaluate mergedBlock = .ok (some (.bool true)) ∧
    (unassigned.assigning (Dict.empty.insert "c" (.bool false))).evaluate mergedBlock =
      .ok (some (.bool false)) := by
  decide +kernel

end EvaluationContext

end Umcm
