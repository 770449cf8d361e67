import Umcm.Solver.Monotone
import Umcm.Solver.Observation

/-!
# Substitution of event ids

Instantiating a rule replaces its role names by event ids. What the expression
says of the roles, the result says of the events.

* `evaluate_substitute`: the value, the sort and the references of an expression
  after a substitution.
-/

namespace Umcm

open Except

/-- `mapping.get(id, id)`. -/
def substituted (mapping : Dict String String) (id : String) : String :=
  (mapping.get? id).getD id

namespace Expr

variable {f : String → String}

/-! ## What a substitution keeps -/

theorem sort_substituteEventIds : ∀ e : Expr, (e.substituteEventIds f).sort = e.sort
  | .literal v s => by rw [substituteEventIds]
  | .symbol name s => by rw [substituteEventIds]
  | .eventField id field s => by
      rw [substituteEventIds]
      rfl
  | .unary op e => by
      rw [substituteEventIds]
      cases op with
      | not => rfl
      | neg => exact sort_substituteEventIds e
  | .binary op l r => by
      rw [substituteEventIds, sort, sort, sort_substituteEventIds l]
  | .nary op es => by
      rw [substituteEventIds]
      rfl
  | .ite c t e => by
      rw [substituteEventIds]
      exact sort_substituteEventIds t
  | .call function es s => by
      rw [substituteEventIds]
      rfl

/-- A reference with its role replaced. -/
def renameRef (f : String → String) (ref : String × String × IrSort) : String × String × IrSort :=
  (f ref.1, ref.2)

mutual

/-- Every reference is replaced once, whatever it is replaced by. -/
theorem eventFields_substituteEventIds :
    ∀ e : Expr, (e.substituteEventIds f).eventFields = e.eventFields.map (renameRef f)
  | .literal v s => by
      rw [substituteEventIds]
      rfl
  | .symbol name s => by
      rw [substituteEventIds]
      rfl
  | .eventField id field s => by
      rw [substituteEventIds]
      rfl
  | .unary op e => by
      rw [substituteEventIds, eventFields, eventFields, eventFields_substituteEventIds e]
  | .binary op l r => by
      rw [substituteEventIds, eventFields, eventFields, eventFields_substituteEventIds l,
        eventFields_substituteEventIds r, List.map_append]
  | .nary op es => by
      rw [substituteEventIds, eventFields, eventFields, eventFieldsAll_substituteEventIdsAll es]
  | .ite c t e => by
      rw [substituteEventIds, eventFields, eventFields, eventFields_substituteEventIds c,
        eventFields_substituteEventIds t, eventFields_substituteEventIds e, List.map_append,
        List.map_append]
  | .call function es s => by
      rw [substituteEventIds, eventFields, eventFields, eventFieldsAll_substituteEventIdsAll es]

theorem eventFieldsAll_substituteEventIdsAll :
    ∀ es : List Expr, eventFieldsAll (substituteEventIdsAll f es) =
      (eventFieldsAll es).map (renameRef f)
  | [] => by
      rw [substituteEventIdsAll]
      rfl
  | e :: es => by
      rw [substituteEventIdsAll, eventFieldsAll, eventFieldsAll, eventFields_substituteEventIds e,
        eventFieldsAll_substituteEventIdsAll es, List.map_append]

end

/-! ## The checks of the constructors -/

theorem numeric_substituteEventIds (e : Expr) : (e.substituteEventIds f).numeric = e.numeric := by
  rw [numeric, numeric, sort_substituteEventIds]

theorem binaryTyped_substituteEventIds (op : BinaryOp) (l r : Expr) :
    binaryTyped op (l.substituteEventIds f) (r.substituteEventIds f) = binaryTyped op l r := by
  unfold binaryTyped
  rw [sort_substituteEventIds, sort_substituteEventIds, numeric_substituteEventIds]

theorem naryTyped_substituteEventIds (op : NaryOp) (es : List Expr) :
    naryTyped op (es.map (substituteEventIds f)) = naryTyped op es := by
  cases es with
  | nil => rfl
  | cons e es =>
      cases op <;>
        simp only [naryTyped, List.map_cons, List.all_cons, List.all_map, Function.comp_def,
          sort_substituteEventIds]

mutual

/-- Rebuilding a well-typed expression with other ids raises nothing. -/
theorem wellTyped_substituteEventIds (hne : ∀ id, id ≠ "" → f id ≠ "") :
    ∀ e : Expr, e.wellTyped = true → (e.substituteEventIds f).wellTyped = true
  | .literal v s, h => by
      rw [substituteEventIds]
      exact h
  | .symbol name s, h => by
      rw [substituteEventIds]
      exact h
  | .eventField id field s, h => by
      rw [substituteEventIds]
      rw [wellTyped, Bool.and_eq_true, decide_eq_true_eq, decide_eq_true_eq] at h ⊢
      exact ⟨hne id h.1, h.2⟩
  | .unary op e, h => by
      rw [substituteEventIds]
      cases op with
      | not =>
          rw [wellTyped, Bool.and_eq_true] at h ⊢
          exact ⟨by rw [sort_substituteEventIds]; exact h.1, wellTyped_substituteEventIds hne e h.2⟩
      | neg =>
          rw [wellTyped, Bool.and_eq_true] at h ⊢
          exact ⟨by rw [numeric_substituteEventIds]; exact h.1,
            wellTyped_substituteEventIds hne e h.2⟩
  | .binary op l r, h => by
      rw [substituteEventIds]
      rw [wellTyped, Bool.and_eq_true, Bool.and_eq_true] at h ⊢
      exact ⟨⟨by rw [binaryTyped_substituteEventIds]; exact h.1.1,
        wellTyped_substituteEventIds hne l h.1.2⟩, wellTyped_substituteEventIds hne r h.2⟩
  | .nary op es, h => by
      rw [substituteEventIds]
      rw [wellTyped, Bool.and_eq_true] at h ⊢
      refine ⟨?_, wellTypedAll_substituteEventIdsAll hne es h.2⟩
      rw [RoleBinding.substituteEventIdsAll_eq_map, naryTyped_substituteEventIds]
      exact h.1
  | .ite c t e, h => by
      rw [substituteEventIds]
      simp only [wellTyped, Bool.and_eq_true] at h ⊢
      simp only [sort_substituteEventIds]
      exact ⟨⟨⟨⟨h.1.1.1.1, h.1.1.1.2⟩, wellTyped_substituteEventIds hne c h.1.1.2⟩,
        wellTyped_substituteEventIds hne t h.1.2⟩, wellTyped_substituteEventIds hne e h.2⟩
  | .call function es s, h => by
      rw [substituteEventIds]
      rw [wellTyped, Bool.and_eq_true] at h ⊢
      exact ⟨h.1, wellTypedAll_substituteEventIdsAll hne es h.2⟩

theorem wellTypedAll_substituteEventIdsAll (hne : ∀ id, id ≠ "" → f id ≠ "") :
    ∀ es : List Expr, wellTypedAll es = true → wellTypedAll (substituteEventIdsAll f es) = true
  | [], _ => by
      rw [substituteEventIdsAll]
      rfl
  | e :: es, h => by
      rw [substituteEventIdsAll]
      rw [wellTypedAll, Bool.and_eq_true] at h ⊢
      exact ⟨wellTyped_substituteEventIds hne e h.1, wellTypedAll_substituteEventIdsAll hne es h.2⟩

end

end Expr

/-! ## Evaluation -/

section Evaluation

variable {interpreter : Interpreter} {assignment : Dict String Value}
variable {attributeOf : String → String → Except PyError Result} {f : String → String}

mutual

/-- Evaluating with other ids is reading the attributes of other events. -/
theorem evaluateWith_substituteEventIds :
    ∀ e : Expr, evaluateWith interpreter assignment attributeOf (e.substituteEventIds f) =
      evaluateWith interpreter assignment (fun id field => attributeOf (f id) field) e
  | .literal v s => by
      rw [Expr.substituteEventIds]
      rfl
  | .symbol name s => by
      rw [Expr.substituteEventIds]
      rfl
  | .eventField id field s => by
      rw [Expr.substituteEventIds]
      rfl
  | .unary op e => by
      rw [Expr.substituteEventIds, evaluateWith, evaluateWith, evaluateWith_substituteEventIds e]
  | .binary op l r => by
      rw [Expr.substituteEventIds, evaluateWith, evaluateWith, evaluateWith_substituteEventIds l,
        evaluateWith_substituteEventIds r]
  | .nary op es => by
      rw [Expr.substituteEventIds, evaluateWith, evaluateWith, evaluateAll_substituteEventIds es]
  | .ite c t e => by
      rw [Expr.substituteEventIds, evaluateWith, evaluateWith, evaluateWith_substituteEventIds c,
        evaluateWith_substituteEventIds t, evaluateWith_substituteEventIds e]
  | .call function es s => by
      rw [Expr.substituteEventIds, evaluateWith, evaluateWith, evaluateAll_substituteEventIds es]

theorem evaluateAll_substituteEventIds :
    ∀ es : List Expr,
      evaluateAll interpreter assignment attributeOf (Expr.substituteEventIdsAll f es) =
        evaluateAll interpreter assignment (fun id field => attributeOf (f id) field) es
  | [] => by
      rw [Expr.substituteEventIdsAll]
      rfl
  | e :: es => by
      rw [Expr.substituteEventIdsAll, evaluateAll, evaluateAll, evaluateWith_substituteEventIds e,
        evaluateAll_substituteEventIds es]

end

end Evaluation

/-! ## Environments -/

namespace EvaluationContext

/-- Evaluation where the roles of a mapping denote their events: each reference of the
expression is read as the attribute of the event that its id denotes. -/
def evaluateRoles (context : EvaluationContext) (mapping : Dict String String) (e : Expr) :
    Except PyError Result :=
  evaluateWith context.interpreter context.assignment
    (fun id field => context.eventAttribute (substituted mapping id) field) e

/-- A context whose table of events has the event of each role under the name of the role. -/
structure IsEnvironment (context : EvaluationContext) (mapping : Dict String String)
    (environment : EvaluationContext) : Prop where
  interpreter : environment.interpreter = context.interpreter
  assignment : environment.assignment = context.assignment
  events : ∀ id, environment.events.get? id = context.events.get? (substituted mapping id)

/-- No attribute of an event is an expression that refers to an id that the mapping changes. -/
def KeepsAttributes (context : EvaluationContext) (mapping : Dict String String) : Prop :=
  ∀ id event field e, context.events.get? id = some event →
    event.attribute? field = some (.expr e) → ∀ ref ∈ e.eventFields,
      substituted mapping ref.1 = ref.1

section Environment

variable {context environment : EvaluationContext} {mapping : Dict String String}

theorem eventAttributeAt_environment (henv : IsEnvironment context mapping environment)
    (hkeeps : KeepsAttributes context mapping) {depth : Nat} {id field : String} {r : Result} :
    environment.eventAttributeAt depth id field = .ok r ↔
      context.eventAttributeAt depth (substituted mapping id) field = .ok r := by
  induction depth generalizing id field r with
  | zero =>
      rw [eventAttributeAt, eventAttributeAt]
  | succ depth ih =>
      rw [eventAttributeAt, eventAttributeAt, henv.events id]
      cases hevent : context.events.get? (substituted mapping id) with
      | none => simp
      | some event =>
          dsimp only
          cases hattribute : event.attribute? field with
          | none => simp
          | some term =>
              cases term with
              | value v => simp
              | expr e =>
                  dsimp only
                  rw [henv.interpreter, henv.assignment]
                  have hrefs := hkeeps _ event field e hevent hattribute
                  -- the references of the attribute denote themselves
                  constructor
                  · refine evaluateWith_congr ?_
                    intro ref href s hs
                    rw [ih, hrefs ref href] at hs
                    exact hs
                  · refine evaluateWith_congr ?_
                    intro ref href s hs
                    rw [ih, hrefs ref href]
                    exact hs

theorem evaluate_environment (henv : IsEnvironment context mapping environment)
    (hkeeps : KeepsAttributes context mapping) {e : Expr} {r : Result} :
    environment.evaluate e = .ok r ↔ context.evaluateRoles mapping e = .ok r := by
  unfold evaluate evaluateRoles eventAttribute
  rw [henv.interpreter, henv.assignment]
  constructor
  · refine evaluateWith_congr ?_
    intro ref _ s hs
    exact (eventAttributeAt_environment henv hkeeps).mp hs
  · refine evaluateWith_congr ?_
    intro ref _ s hs
    exact (eventAttributeAt_environment henv hkeeps).mpr hs

end Environment

end EvaluationContext

/-- The value of an expression after a substitution is its value where the roles denote their
events, also in a context that has the events under the names of the roles as long as no
attribute refers to a role. The sort stays, and every reference is replaced exactly once. -/
theorem evaluate_substitute (context : EvaluationContext) (mapping : Dict String String)
    (e : Expr) :
    context.evaluate (e.substituteEventIds (substituted mapping)) =
        context.evaluateRoles mapping e ∧
    (∀ environment, context.IsEnvironment mapping environment → context.KeepsAttributes mapping →
      ∀ r, environment.evaluate e = .ok r ↔
        context.evaluate (e.substituteEventIds (substituted mapping)) = .ok r) ∧
    (e.substituteEventIds (substituted mapping)).sort = e.sort ∧
    (e.substituteEventIds (substituted mapping)).eventFields =
      e.eventFields.map (fun ref => (substituted mapping ref.1, ref.2)) ∧
    ((∀ role id, mapping.get? role = some id → id ≠ "") → e.wellTyped = true →
      (e.substituteEventIds (substituted mapping)).wellTyped = true) := by
  have hroles : context.evaluate (e.substituteEventIds (substituted mapping)) =
      context.evaluateRoles mapping e := evaluateWith_substituteEventIds e
  refine ⟨hroles, ?_, Expr.sort_substituteEventIds e, Expr.eventFields_substituteEventIds e, ?_⟩
  · intro environment henv hkeeps r
    rw [hroles]
    exact EvaluationContext.evaluate_environment henv hkeeps
  · intro htargets
    refine Expr.wellTyped_substituteEventIds ?_ e
    intro id hid
    unfold substituted
    cases htarget : mapping.get? id with
    | none => exact hid
    | some target => exact htargets id target htarget

/-! ## A role with the id of another event -/

namespace Substitution

/-- An event with an address. -/
def addressEvent (id : String) (id_ne : id ≠ "") (address : Term) : EventInstance where
  id := id
  eventType := "LSU.Access"
  fields := .ofList [("address", address)]
  cycle := .absent
  occurs := .known true
  id_ne := id_ne
  eventType_ne := by decide
  cycle_sort := EventCycle.int_of_absent
  occurs_sort := Occurs.bool_of_known true

theorem loadEvent_id_ne : "load" ≠ "" := by decide

theorem storeEvent_id_ne : "store" ≠ "" := by decide

/-- A load whose address is that of the store. -/
def loadEvent : EventInstance :=
  addressEvent "load" loadEvent_id_ne (.expr (.eventField "store" "address" .int))

def storeEvent : EventInstance := addressEvent "store" storeEvent_id_ne (.value (.int 1))

def otherEvent : EventInstance := addressEvent "other" (by decide) (.value (.int 2))

def accesses : EvaluationContext where
  events := .ofList [("load", loadEvent), ("store", storeEvent), ("other", otherEvent)]
  assignment := .empty
  interpreter := .integers

/-- The role `store` is bound to the event `other`. -/
def swappedRoles : Dict String String := .ofList [("older", "load"), ("store", "other")]

/-- The events under the names of the roles. -/
def roleEvents : EvaluationContext where
  events := .ofList [("older", loadEvent), ("store", otherEvent), ("load", loadEvent),
    ("other", otherEvent)]
  assignment := .empty
  interpreter := .integers

theorem roleEvents_isEnvironment : accesses.IsEnvironment swappedRoles roleEvents where
  interpreter := rfl
  assignment := rfl
  events := by
    intro id
    have hmapping : swappedRoles.get? id = if "older" = id then some "load"
        else if "store" = id then some "other" else none := rfl
    have hevents : ∀ id, accesses.events.get? id = if "load" = id then some loadEvent
        else if "store" = id then some storeEvent
        else if "other" = id then some otherEvent else none := fun _ => rfl
    have hroles : roleEvents.events.get? id = if "older" = id then some loadEvent
        else if "store" = id then some otherEvent
        else if "load" = id then some loadEvent
        else if "other" = id then some otherEvent else none := rfl
    rw [hroles, hevents]
    unfold substituted
    rw [hmapping]
    by_cases holder : "older" = id
    · simp [holder]
    · by_cases hstore : "store" = id
      · subst hstore
        simp
      · simp [holder, hstore]

/-- An attribute of a bound event refers to an event whose id is a role: the substitution
leaves the attribute as it is, the environment reads another event. -/
theorem captured_attribute : accesses.IsEnvironment swappedRoles roleEvents ∧
    roleEvents.evaluate (.eventField "older" "address" .int) = .ok (some (.int 2)) ∧
    accesses.evaluate ((Expr.eventField "older" "address" .int).substituteEventIds
      (substituted swappedRoles)) = .ok (some (.int 1)) := by
  exact ⟨roleEvents_isEnvironment, rfl, rfl⟩

end Substitution

end Umcm
