import Umcm.Data.Choice
import Umcm.Ir.Completion
import Umcm.Solver.Evaluator

/-!
# Bounded problems

The instantiation of the rules of a completion model over the events of a
trace and its slots. Every rule yields constraints and state effects for the
bindings of its roles to events.
-/

namespace Umcm

structure NamedConstraint where
  name : String
  expression : Expr
  origin : String

structure StateRequirementInstance where
  name : String
  state : String
  cycle : Expr
  activation : Expr
  op : CompareOp
  expected : Expr
  origin : String

structure StateUpdateInstance where
  name : String
  state : String
  cycle : Expr
  activation : Expr
  value : Expr
  origin : String

structure GuardPredicateInstance where
  state : String
  cycle : Expr
  op : CompareOp
  expected : Expr

structure GuardedForwardInstance where
  name : String
  antecedent : Expr
  predicates : List GuardPredicateInstance
  consequent : Expr
  origin : String

structure GuardedSupportCandidate where
  expression : Expr
  predicates : List GuardPredicateInstance

structure GuardedSupportInstance where
  name : String
  antecedent : Expr
  supports : List GuardedSupportCandidate
  origin : String

/-- The event id of every bound role. The names are distinct. -/
abbrev RoleBinding := List (String × String)

/-- One fully bound firing of a rule. The state predicates are those of a
state-guarded rule. -/
structure TransformationActivationInstance where
  name : String
  transformation : String
  binding : RoleBinding
  expression : Expr
  statePredicates : List GuardPredicateInstance

structure BoundedProblem where
  catalog : EventCatalog
  sourceTrace : Trace
  spec : CompletionSpec
  events : List EventInstance
  constraints : List NamedConstraint
  stateRequirements : List StateRequirementInstance
  stateUpdates : List StateUpdateInstance
  guardedForwards : List GuardedForwardInstance
  guardedSupports : List GuardedSupportInstance
  transformationActivations : List TransformationActivationInstance
  slotIds : List String

def BoundedProblem.eventMap (problem : BoundedProblem) : Dict String EventInstance :=
  .ofList (problem.events.map (fun event => (event.id, event)))

/-- `_TransformationInstantiation`. -/
structure TransformationInstantiation where
  constraints : List NamedConstraint
  requirements : List StateRequirementInstance
  updates : List StateUpdateInstance
  guardedForwards : List GuardedForwardInstance
  guardedSupports : List GuardedSupportInstance
  activations : List TransformationActivationInstance

/-! ## Bindings -/

/-- `_role_bindings`: for every role an event of its type. -/
def roleBindings (roles : List EventRole) (events : List EventInstance) : List RoleBinding :=
  Choice.assignments (roles.map (fun role =>
    (role.name, (events.filter (fun event => event.eventType = role.eventType)).map
      EventInstance.id)))

namespace RoleBinding

/-- The bound events, in the order of the roles. -/
def ids (b : RoleBinding) : List String := b.map Prod.snd

/-- `mapping.get(name, name)`. -/
def apply (b : RoleBinding) (name : String) : String := (Dict.lookup name b).getD name

/-- `mapping[name]`. -/
def getItem (b : RoleBinding) (name : String) : Except PyError String :=
  match Dict.lookup name b with
  | some id => .ok id
  | none => .error .keyError

/-- An expression over roles, on the bound events. -/
def instantiate (b : RoleBinding) (e : Expr) : Expr := e.substituteEventIds b.apply

/-- The occurrences of the bound events. -/
def occurs (b : RoleBinding) : List Expr := b.ids.map (fun id => .eventField id "occurs" .bool)

/-- The bound events are pairwise distinct. -/
def distinct (b : RoleBinding) : Bool := b.ids.Nodup

end RoleBinding

namespace Transformation

/-! ## The expressions of one binding -/

/-- The inputs occur and satisfy the guard. -/
def antecedentItems (t : Transformation) (input : RoleBinding) : List Expr :=
  input.occurs ++ [input.instantiate t.when]

/-- The outputs occur and satisfy the output guard and `ensure`. -/
def outputItems (t : Transformation) (input output : RoleBinding) : List Expr :=
  output.occurs ++ RoleBinding.instantiate (input ++ output) t.outputWhen ::
    t.ensure.map (RoleBinding.instantiate (input ++ output))

/-- The whole firing. -/
def activationItems (t : Transformation) (input output : RoleBinding) : List Expr :=
  t.antecedentItems input ++ t.outputItems input output

/-- The output occurs and is in the scope of an exact rule. -/
def scopeItems (t : Transformation) (output : RoleBinding) : List Expr :=
  [Expr.conjunction output.occurs, output.instantiate t.outputWhen]

/-- The inputs occur and justify the output. -/
def supportItems (t : Transformation) (input output : RoleBinding) : List Expr :=
  input.occurs ++ RoleBinding.instantiate (input ++ output) t.when ::
    t.ensure.map (RoleBinding.instantiate (input ++ output))

/-- The state requirements of a rule as guards of a binding. -/
def guardPredicates (t : Transformation) (b : RoleBinding) :
    Except PyError (List GuardPredicateInstance) :=
  t.stateRequirements.mapM (fun requirement => do
    let anchor ← b.getItem requirement.atRole
    return { state := requirement.state, cycle := .eventField anchor "cycle" .int
             op := requirement.op, expected := b.instantiate requirement.value })

/-! ## Instances -/

def origin (t : Transformation) : String := s!"transformation:{t.name}"

/-- The bound ids, or a word when there are none. -/
def boundNames (b : RoleBinding) (absent : String) : String :=
  match b with
  | [] => absent
  | b => ",".intercalate b.ids

/-- The output bindings that share no event with an input binding, with their
indexes. -/
def outputsFor (input : RoleBinding) (outputs : List RoleBinding) : List (RoleBinding × Nat) :=
  outputs.zipIdx.filter (fun p => RoleBinding.distinct (input ++ p.1))

def forwardName (t : Transformation) (input : RoleBinding) (inputIndex : Nat) : String :=
  s!"transformation.{t.name}.forward.{inputIndex}." ++ boundNames input "global"

def alternatives (t : Transformation) (input : RoleBinding) (outputs : List RoleBinding) :
    List Expr :=
  (outputsFor input outputs).map (fun p => Expr.conjunction (t.outputItems input p.1))

/-- The guards of a firing; the requirements of other rules are separate. -/
def statePredicates (t : Transformation) (b : RoleBinding) :
    Except PyError (List GuardPredicateInstance) :=
  if t.stateMode = .guard then t.guardPredicates b else .ok []

def activationInstance (t : Transformation) (input : RoleBinding) (inputIndex : Nat)
    (p : RoleBinding × Nat) : Except PyError TransformationActivationInstance := do
  let statePredicates ← t.statePredicates (input ++ p.1)
  return { name := s!"transformation.{t.name}.activation.{inputIndex}.{p.2}"
           transformation := t.name
           binding := input ++ p.1
           expression := Expr.conjunction (t.activationItems input p.1)
           statePredicates }

/-- The requirements of one firing. -/
def requirementInstances (t : Transformation) (input output : RoleBinding) (effectPrefix : String) :
    Except PyError (List StateRequirementInstance) :=
  t.stateRequirements.zipIdx.mapM (fun p => do
    let anchor ← RoleBinding.getItem (input ++ output) p.1.atRole
    return { name := s!"{effectPrefix}.requirement.{p.2}"
             state := p.1.state
             cycle := .eventField anchor "cycle" .int
             activation := Expr.conjunction (t.activationItems input output)
             op := p.1.op
             expected := RoleBinding.instantiate (input ++ output) p.1.value
             origin := t.origin })

/-- The updates of one firing. -/
def updateInstances (t : Transformation) (input output : RoleBinding) (effectPrefix : String) :
    Except PyError (List StateUpdateInstance) :=
  t.stateUpdates.zipIdx.mapM (fun p => do
    let anchor ← RoleBinding.getItem (input ++ output) p.1.atRole
    return { name := s!"{effectPrefix}.update.{p.2}"
             state := p.1.state
             cycle := .eventField anchor "cycle" .int
             activation := Expr.conjunction (t.activationItems input output)
             value := RoleBinding.instantiate (input ++ output) p.1.value
             origin := t.origin })

/-- The name of one firing, which its effects share. -/
def effectPrefix (t : Transformation) (input : RoleBinding) (inputIndex : Nat)
    (p : RoleBinding × Nat) : String :=
  s!"{t.forwardName input inputIndex}.instance.{p.2}." ++ boundNames p.1 "no-output"

def effectInstances (t : Transformation) (input : RoleBinding) (inputIndex : Nat)
    (p : RoleBinding × Nat) :
    Except PyError (List StateRequirementInstance × List StateUpdateInstance) := do
  let requirements ← t.requirementInstances input p.1 (t.effectPrefix input inputIndex p)
  let updates ← t.updateInstances input p.1 (t.effectPrefix input inputIndex p)
  return (requirements, updates)

/-- What one input binding of a state-requiring rule yields. -/
def requireForward (t : Transformation) (outputs : List RoleBinding) (p : RoleBinding × Nat) :
    Except PyError TransformationInstantiation := do
  let activations ← (outputsFor p.1 outputs).mapM (t.activationInstance p.1 p.2)
  let effects ← (outputsFor p.1 outputs).mapM (t.effectInstances p.1 p.2)
  return { constraints :=
             [{ name := t.forwardName p.1 p.2
                expression := .binary .implies (Expr.conjunction (t.antecedentItems p.1))
                  (Expr.disjunction (t.alternatives p.1 outputs))
                origin := t.origin }]
           requirements := effects.flatMap Prod.fst
           updates := effects.flatMap Prod.snd
           guardedForwards := []
           guardedSupports := []
           activations }

/-- Guards that read an output role do not force the rule to fire. -/
def guardedForwards (t : Transformation) (outputs : List RoleBinding) (p : RoleBinding × Nat) :
    Except PyError (List GuardedForwardInstance) :=
  if ∀ requirement ∈ t.stateRequirements, requirement.atRole ∈ p.1.map Prod.fst then do
    let predicates ← t.guardPredicates p.1
    return [{ name := t.forwardName p.1 p.2
              antecedent := Expr.conjunction (t.antecedentItems p.1)
              predicates
              consequent := Expr.disjunction (t.alternatives p.1 outputs)
              origin := t.origin }]
  else .ok []

/-- What one input binding of a state-guarded rule yields. -/
def guardForward (t : Transformation) (outputs : List RoleBinding) (p : RoleBinding × Nat) :
    Except PyError TransformationInstantiation := do
  let activations ← (outputsFor p.1 outputs).mapM (t.activationInstance p.1 p.2)
  let guardedForwards ← t.guardedForwards outputs p
  return { constraints := [], requirements := [], updates := []
           guardedForwards, guardedSupports := [], activations }

def supportName (t : Transformation) (p : RoleBinding × Nat) : String :=
  s!"transformation.{t.name}.support.{p.2}." ++ boundNames p.1 "global"

/-- The input bindings that share no event with an output binding. -/
def inputsFor (output : RoleBinding) (inputs : List RoleBinding) : List RoleBinding :=
  inputs.filter (fun input => RoleBinding.distinct (input ++ output))

def guardedSupportCandidate (t : Transformation) (output input : RoleBinding) :
    Except PyError GuardedSupportCandidate := do
  let predicates ← t.guardPredicates (input ++ output)
  return { expression := Expr.conjunction (t.supportItems input output), predicates }

/-- The justification of one output binding of an exact rule. -/
def support (t : Transformation) (inputs : List RoleBinding) (p : RoleBinding × Nat) :
    Except PyError TransformationInstantiation :=
  if t.stateMode = .guard then do
    let supports ← (inputsFor p.1 inputs).mapM (t.guardedSupportCandidate p.1)
    return { constraints := [], requirements := [], updates := [], guardedForwards := []
             guardedSupports :=
               [{ name := t.supportName p
                  antecedent := Expr.conjunction (t.scopeItems p.1)
                  supports
                  origin := t.origin }]
             activations := [] }
  else
    .ok { constraints :=
            [{ name := t.supportName p
               expression := .binary .implies (Expr.conjunction (t.scopeItems p.1))
                 (Expr.disjunction ((inputsFor p.1 inputs).map (fun input =>
                   Expr.conjunction (t.supportItems input p.1))))
               origin := t.origin }]
          requirements := [], updates := [], guardedForwards := [], guardedSupports := []
          activations := [] }

end Transformation

/-- The instances of several bindings, in order. -/
def TransformationInstantiation.concat (parts : List TransformationInstantiation) :
    TransformationInstantiation where
  constraints := parts.flatMap TransformationInstantiation.constraints
  requirements := parts.flatMap TransformationInstantiation.requirements
  updates := parts.flatMap TransformationInstantiation.updates
  guardedForwards := parts.flatMap TransformationInstantiation.guardedForwards
  guardedSupports := parts.flatMap TransformationInstantiation.guardedSupports
  activations := parts.flatMap TransformationInstantiation.activations

/-- The input bindings to distinct events, with what they yield. -/
def Transformation.forwards (t : Transformation) (inputs outputs : List RoleBinding) :
    Except PyError (List TransformationInstantiation) :=
  (inputs.zipIdx.filter (fun p => p.1.distinct)).mapM
    (if t.stateMode = .guard then t.guardForward outputs else t.requireForward outputs)

/-- The justifications of the outputs of an exact rule. -/
def Transformation.supports (t : Transformation) (inputs outputs : List RoleBinding) :
    Except PyError (List TransformationInstantiation) :=
  if t.isExact then (outputs.zipIdx.filter (fun p => p.1.distinct)).mapM (t.support inputs)
  else .ok []

/-- `_instantiate_transformation`. -/
def instantiateTransformation (t : Transformation) (events : List EventInstance) :
    Except PyError TransformationInstantiation := do
  let inputs := roleBindings t.inputs events
  let outputs := roleBindings t.outputs events
  let forwards ← t.forwards inputs outputs
  let supports ← t.supports inputs outputs
  return .concat (forwards ++ supports)

/-! ## Problems -/

/-- Fill the missing required fields of an observed event with symbols. -/
def materializePartialEvent (catalog : EventCatalog) (event : EventInstance) :
    Except PyError EventInstance := do
  let eventType ← catalog.resolve event.eventType
  return { event with
           fields := EventSlot.completeFields s!"trace::{event.id}::field::" eventType
             event.fields }

def namedConstraints (namePrefix origin : String) (constraints : List Expr) :
    List NamedConstraint :=
  constraints.zipIdx.map (fun p => { name := s!"{namePrefix}{p.2}", expression := p.1, origin })

/-- An event that occurs falls into the horizon. -/
def cycleBound (horizon : Nat) (event : EventInstance) : NamedConstraint where
  name := s!"cycle.bound.{event.id}"
  expression := .binary .implies (.eventField event.id "occurs" .bool)
    (Expr.conjunction
      [.binary .le (.literal (.int 0) .int) (.eventField event.id "cycle" .int),
        .binary .le (.eventField event.id "cycle" .int) (.literal (.int horizon) .int)])
  origin := "completion"

def buildProblem (catalog : EventCatalog) (trace : Trace) (spec : CompletionSpec) :
    Except PyError BoundedProblem := do
  trace.validate catalog trace.isPartial
  spec.validate catalog trace
  let observed ← trace.events.mapM (materializePartialEvent catalog)
  let slots ← spec.slots.mapM (fun slot => slot.materialize catalog)
  let events := observed ++ slots
  let parts ← spec.transformations.mapM (fun t => instantiateTransformation t events)
  let instantiated := TransformationInstantiation.concat parts
  return { catalog
           sourceTrace := trace
           spec
           events
           constraints :=
             namedConstraints "trace.constraint." "trace" trace.constraints ++
               namedConstraints "completion.constraint." "completion" spec.constraints ++
               (events.filter EventInstance.hasCycle).map (cycleBound spec.horizon) ++
               instantiated.constraints
           stateRequirements := instantiated.requirements
           stateUpdates := instantiated.updates
           guardedForwards := instantiated.guardedForwards
           guardedSupports := instantiated.guardedSupports
           transformationActivations := instantiated.activations
           slotIds := spec.slots.map EventSlot.id }

end Umcm
