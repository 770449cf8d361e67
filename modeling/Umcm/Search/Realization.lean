import Umcm.Composition.Engine
import Umcm.Ir.Constructor
import Umcm.Search.Configuration
import Umcm.Search.Engine
import Umcm.Search.Schedules
import Umcm.Solver.Completion

/-!
# Realization stages

A stage runs the schedules of a candidate execution through a composition, up to
the first one that realizes it. The coherence stage completes one problem for a
schedule; the end-to-end stage tries every initial configuration and completes
two problems.

* `stageVerdicts`: what the status of a stage says about its attempts.
-/

namespace Umcm

open FinOrder Except

/-! ## Stages -/

inductive StageStatus where
  | realizable
  | unrealizable
  | blocked
  | unknown
deriving DecidableEq, Repr

inductive StageKind where
  | coherenceAccess
  | boomEndToEnd
deriving DecidableEq, Repr

/-- A stage that realizes candidates. -/
structure RealizationStage where
  name : String
  kind : StageKind
  inputEventTypes : List String
  eventTypes : Dict String String
  cycleStart : Nat
  cycleStride : Nat
  maxSchedules : Nat
  name_ne : name ≠ ""
  named : ∀ n ∈ ["line_init", "access", "load_result", "store_result"],
    (eventTypes.get? n).isSome = true
  stride_pos : 0 < cycleStride
  schedules_pos : 0 < maxSchedules

structure StageResult where
  status : StageStatus
  attempts : Nat
  schedule : List String
  witness : Option Trace
  reason : String

namespace RealizationStage

/-- `stage.event_types[name]`. -/
def eventType (stage : RealizationStage) (name : String) : Except PyError String :=
  match stage.eventTypes.get? name with
  | some eventType => .ok eventType
  | none => .error .keyError

/-- The event types that the adapter of the stage produces. -/
def generatedNames (stage : RealizationStage) : List String :=
  ["line_init", "access"] ++
    match stage.kind with
    | .coherenceAccess => []
    | .boomEndToEnd => ["init_write", "memory_instruction", "page_map"]

/-- `_validate_adapter_surface`; `isInternal` is the visibility of the types. -/
def validateAdapterSurface (stage : RealizationStage) (catalog : EventCatalog)
    (isInternal : String → Bool) : Except PyError Unit := do
  let generated ← stage.generatedNames.mapM stage.eventType
  let undeclared := generated.filter (· ∉ stage.inputEventTypes)
  Except.require (undeclared = []) (.searchError
    s!"stage {quoted stage.name} adapter would inject undeclared input type(s): {joinSorted undeclared}")
  (stage.inputEventTypes ++ stage.eventTypes.values).forM (fun eventType => do
    let _ ← catalog.resolve eventType
    Except.require (isInternal eventType = false) (.searchError
      s!"stage {quoted stage.name} references private event type {quoted eventType}"))

/-- The outputs that a stage puts obligations on. -/
def obligationTypes (stage : RealizationStage) : Except PyError (List String) :=
  match stage.kind with
  | .coherenceAccess => ["load_result", "store_result"].mapM stage.eventType
  | .boomEndToEnd => do
    let named ← ["load_result", "store_result", "arch_load", "arch_store", "commit_read"].mapM
      stage.eventType
    return named ++ ["Core.MemoryComplete"]

/-- `_validate_public_outputs`. -/
def validatePublicOutputs (stage : RealizationStage) (composed : CompositionResult) :
    Except PyError Unit := do
  let outputs := (composed.modules.flatMap (fun loaded => loaded.spec.ports)).filter
    (fun port => port.direction = .output)
  let required ← stage.obligationTypes
  let missing := required.filter (· ∉ outputs.map ModulePort.eventType)
  Except.require (missing = []) (.searchError
    s!"stage {quoted stage.name} obligation output(s) are not public module ports: {joinSorted missing}")

end RealizationStage

/-! ## The input of the coherence stage -/

/-- The initial write of the address; of several, the last one by its id. -/
def initialByAddress (graph : ExecutionGraph) (address : Value) : Option MemoryOperation :=
  ((byId graph.operations).filter (fun op => op.kind = .initWrite)).reverse.find?
    (fun op => op.address.pyEq address)

/-- A number, or `None`. -/
def optionalInt (n : Option Int) : Value :=
  match n with
  | some n => .int n
  | none => .none

/-- The event that a line starts with its initial value. -/
def lineEvent (lineInit : String) (operation : MemoryOperation) (index : Nat) :
    Except PyError EventInstance :=
  EventInstance.make s!"search_line_{index}_{operation.id}" lineInit
    (.ofList [("line_id", .value (.str operation.address.pyStr)),
      ("address", .value operation.address), ("value", .value operation.value),
      ("version", .value (.int 0)), ("source_op_id", .value (.str operation.id))]) 0

/-- The request of one access, after the one before it in the schedule. -/
def accessEvent (stage : RealizationStage) (graph : ExecutionGraph) (access opId previous : String)
    (index : Nat) : Except PyError EventInstance :=
  match findOp graph.operations opId with
  | none => .error .keyError
  | some operation =>
    match initialByAddress graph operation.address with
    | none => .error (.searchError
        s!"operation {quoted opId} has no initial value for address {operation.address.repr}")
    | some initial =>
      let writeValue := if operation.kind = .write then operation.storedValue else initial.value
      EventInstance.make s!"search_access_{index}_{opId}" access
        (.ofList [("op_id", .value (.str operation.id)),
          ("hart", .value (optionalInt operation.hart)),
          ("program_index", .value (optionalInt operation.programIndex)),
          ("line_id", .value (.str operation.address.pyStr)),
          ("address", .value operation.address),
          ("mem_kind", .value (.str (if operation.isRead then "load" else "store"))),
          ("write_value", .value writeValue), ("after_op_id", .value (.str previous))])
        (stage.cycleStart + index * stage.cycleStride)

/-- `_coherence_input_trace`. -/
def coherenceInputTrace (stage : RealizationStage) (graph : ExecutionGraph)
    (schedule : List String) : Except PyError Trace := do
  let lineInit ← stage.eventType "line_init"
  let access ← stage.eventType "access"
  let lines ← ((byId graph.operations).zipIdx.filter (fun p => p.1.kind = .initWrite)).mapM
    (fun p => lineEvent lineInit p.1 p.2)
  let accesses ← (schedule.zip ("NONE" :: schedule)).zipIdx.mapM
    (fun p => accessEvent stage graph access p.1.1 p.1.2 p.2)
  Trace.make (lines ++ accesses) [] true

/-! ## Obligations -/

/-- One comparison of `_matching_public_event`. -/
def obligationComparison (eventType : EventType) (event : EventInstance)
    (expected : String × Value) : Except PyError Expr := do
  match eventType.field? expected.1 with
  | none => .error (.searchError
      s!"public obligation event {quoted eventType.name} has no field {quoted expected.1}")
  | some spec =>
    let comparison := Expr.binary .eq (.eventField event.id expected.1 spec.sort)
      (.literal expected.2 spec.sort)
    comparison.check
    return comparison

/-- `_matching_public_event`: some event of the type occurs with the expected fields. -/
def matchingPublicEvent (problem : BoundedProblem) (eventType : String)
    (expected : List (String × Value)) : Except PyError Expr := do
  let schema ← problem.catalog.resolve eventType
  let alternatives ← (problem.events.filter (fun event => event.eventType = eventType)).mapM
    (fun event => do
      let comparisons ← expected.mapM (obligationComparison schema event)
      return Expr.conjunction (.eventField event.id "occurs" .bool :: comparisons))
  Except.require (alternatives ≠ []) (.searchError
    s!"composition produced no bounded public {quoted eventType} output slot")
  return Expr.disjunction alternatives

/-- The obligation of one access: a read returns its value from its source, a write stores
its value. -/
def coherenceObligation (stage : RealizationStage) (graph : ExecutionGraph) (rf : Relation)
    (problem : BoundedProblem) (operation : MemoryOperation) : Except PyError NamedConstraint := do
  if operation.isRead then do
    let loadResult ← stage.eventType "load_result"
    let source ← readSource graph rf operation
    let expression ← matchingPublicEvent problem loadResult
      [("op_id", .str operation.id), ("address", operation.address),
        ("value", operation.readValue), ("source_op_id", .str source.id)]
    return { name := s!"search.obligation.read_from.{operation.id}.{source.id}"
             expression, origin := "hierarchical-search:architectural-obligation" }
  else do
    let storeResult ← stage.eventType "store_result"
    let expression ← matchingPublicEvent problem storeResult
      [("op_id", .str operation.id), ("address", operation.address),
        ("value", operation.storedValue), ("source_op_id", .str operation.id)]
    return { name := s!"search.obligation.write_value.{operation.id}"
             expression, origin := "hierarchical-search:architectural-obligation" }

/-- `_add_coherence_obligations`. -/
def addCoherenceObligations (stage : RealizationStage) (graph : ExecutionGraph)
    (problem : BoundedProblem) : Except PyError BoundedProblem := do
  let rf ← graph.relation "rf"
  let obligations ← (graph.operations.filter (fun op => op.kind ≠ .initWrite)).mapM
    (coherenceObligation stage graph rf problem)
  return { problem with constraints := problem.constraints ++ obligations }

/-! ## Attempts -/

/-- What one attempt comes to. -/
inductive AttemptResult (α : Type) where
  | realized (witness : α)
  | refused (reason : String) (undecided : Bool)

def CompletionStatus.text : CompletionStatus → String
  | .feasible => "feasible"
  | .infeasible => "infeasible"
  | .unknown => "unknown"

/-- `solved.reason or solved.status.value`. -/
def CompletionResult.explanation (solved : CompletionResult) : String :=
  if solved.reason = "" then solved.status.text else solved.reason

/-- What the loop over the attempts keeps. -/
structure Tally where
  attempts : Nat
  lastReason : String
  sawUnknown : Bool

def Tally.start (reason : String) : Tally :=
  { attempts := 0, lastReason := reason, sawUnknown := false }

/-- The attempts up to the first one that is realized. -/
def tryAttempts {ι α : Type} (attempt : ι → Except PyError (AttemptResult α)) :
    List ι → Tally → Except PyError (Tally × Option (ι × α))
  | [], tally => .ok (tally, none)
  | i :: rest, tally => do
    match ← attempt i with
    | .realized witness => return ({ tally with attempts := tally.attempts + 1 }, some (i, witness))
    | .refused reason undecided =>
      tryAttempts attempt rest
        { attempts := tally.attempts + 1, lastReason := reason
          sawUnknown := tally.sawUnknown || undecided }

/-- The result of a stage after its loop. -/
def stageResult {ι : Type} (schedule : ι → List String) :
    Tally × Option (ι × Option Trace) → StageResult
  | (tally, some (i, witness)) =>
    { status := .realizable, attempts := tally.attempts, schedule := schedule i, witness
      reason := "" }
  | (tally, none) =>
    { status := if tally.sawUnknown then .unknown else .unrealizable
      attempts := tally.attempts, schedule := [], witness := none, reason := tally.lastReason }

/-! ## The coherence stage -/

/-- What a coherence stage reads besides the candidate. -/
structure CoherenceStage where
  stage : RealizationStage
  catalog : EventCatalog
  isInternal : String → Bool
  compose : Trace → Except PyError CompositionResult
  interpreter : Interpreter
  backend : Backend

namespace CoherenceStage

/-- The completion of one schedule. -/
def complete (s : CoherenceStage) (graph : ExecutionGraph) (schedule : List String) :
    Except PyError CompletionResult := do
  let trace ← coherenceInputTrace s.stage graph schedule
  trace.validate s.catalog trace.isPartial
  let composed ← s.compose trace
  s.stage.validatePublicOutputs composed
  let problem ← buildProblem s.catalog trace composed.completion
  let problem ← addCoherenceObligations s.stage graph problem
  completeProblem problem s.interpreter s.backend

def attempt (s : CoherenceStage) (graph : ExecutionGraph) (schedule : List String) :
    Except PyError (AttemptResult (Option Trace)) := do
  let solved ← s.complete graph schedule
  match solved.status with
  | .feasible => return .realized solved.completedTrace
  | status => return .refused solved.explanation (status = .unknown)

/-- `_realize_coherence`. -/
def realize (s : CoherenceStage) (graph : ExecutionGraph) : Except PyError StageResult := do
  s.stage.validateAdapterSurface s.catalog s.isInternal
  let outcome ← tryAttempts (s.attempt graph) (candidateSchedules graph s.stage.maxSchedules)
    (.start "no candidate schedule was solved")
  return stageResult id outcome

end CoherenceStage

/-! ## The end-to-end stage -/

/-- A reset state: the permissions of the line, the state and owner of the shared cache,
and the harts whose translations are valid. -/
structure Configuration where
  h0Perm : String
  h1Perm : String
  l2State : String
  owner : Int
  tlbInitialValidByHart : List (Option Int × Bool)
deriving DecidableEq

/-- The numbers of a set in increasing order. -/
def sortedHarts (operations : List MemoryOperation) : List (Option Int) :=
  (operations.map MemoryOperation.hart).dedup.insertionSort
    (fun a b => a.getD 0 ≤ b.getD 0)

/-- `_initial_microarchitecture_configurations`. -/
def initialConfigurations (graph : ExecutionGraph) : List Configuration :=
  let dynamic := graph.operations.filter (fun op => op.kind ≠ .initWrite)
  let usedHarts := sortedHarts dynamic
  let loadHarts := sortedHarts (dynamic.filter MemoryOperation.isRead)
  let preferred := if loadHarts ≠ [] then loadHarts else if usedHarts ≠ [] then usedHarts
    else [some 0]
  let lineStates := preferred.map (fun hart =>
      ((if hart = some 0 then "B" else "N"), (if hart = some 1 then "B" else "N"), "BRANCH")) ++
    [("N", "N", "INVALID")]
  let tlbStates := preferred.map (fun delayed => usedHarts.map (fun hart => (hart, decide (hart ≠ delayed))))
    ++ [usedHarts.map (fun hart => (hart, true))]
  lineStates.flatMap (fun line => tlbStates.map (fun tlb =>
    { h0Perm := line.1, h1Perm := line.2.1, l2State := line.2.2, owner := -1
      tlbInitialValidByHart := tlb }))

/-- What an end-to-end stage reads besides the candidate. The traces of an attempt, the
constraints it adds to a problem and the check of its completion are functions of what
they read; `compose` and `composeCore` are the two compositions. -/
structure EndToEndStage where
  stage : RealizationStage
  catalog : EventCatalog
  isInternal : String → Bool
  target : String
  inputTrace : ExecutionGraph → List String → Configuration → Except PyError Trace
  coherenceChildInput : Trace → Except PyError Trace
  compose : Trace → Except PyError CompositionResult
  addPublicProtocolWellFormedness : BoundedProblem → Except PyError BoundedProblem
  retimeTrace : Trace → Except PyError Trace
  coreInput : Trace → Trace → Except PyError Trace
  composeCore : Trace → Except PyError CompositionResult
  validateOutputs : CompositionResult → CompositionResult → Except PyError Unit
  addRetirementObligations : ExecutionGraph → BoundedProblem → Except PyError BoundedProblem
  addCoreWellFormedness : BoundedProblem → Except PyError BoundedProblem
  mergeCompletedTraces : Trace → Trace → Except PyError Trace
  checkCompletedArchitecture : Trace → Except PyError String
  interpreter : Interpreter
  backend : Backend

/-- `assert solved.completed_trace is not None`. -/
def CompletionResult.completed (solved : CompletionResult) : Except PyError Trace :=
  match solved.completedTrace with
  | some trace => .ok trace
  | none => .error .assertionError

namespace EndToEndStage

/-- The input of one attempt. -/
def input (s : EndToEndStage) (graph : ExecutionGraph) (p : List String × Configuration) :
    Except PyError Trace := do
  let trace ← s.inputTrace graph p.1 p.2
  trace.validate s.catalog trace.isPartial
  return trace

/-- The coherence half of an attempt. -/
def completeCoherence (s : EndToEndStage) (graph : ExecutionGraph) (trace : Trace) :
    Except PyError (CompositionResult × CompletionResult) := do
  let child ← s.coherenceChildInput trace
  let model ← s.compose child
  let problem ← buildProblem s.catalog child model.completion
  let problem ← addCoherenceObligations s.stage graph problem
  let problem ← s.addPublicProtocolWellFormedness problem
  let solved ← completeProblem problem s.interpreter s.backend
  return (model, solved)

/-- The core half of an attempt, over the completed coherence trace. -/
def completeCore (s : EndToEndStage) (graph : ExecutionGraph) (trace retimed : Trace)
    (model : CompositionResult) : Except PyError CompletionResult := do
  let coreTrace ← s.coreInput trace retimed
  let coreModel ← s.composeCore coreTrace
  s.validateOutputs model coreModel
  let problem ← buildProblem s.catalog coreTrace coreModel.completion
  let problem ← s.addRetirementObligations graph problem
  let problem ← s.addCoreWellFormedness problem
  completeProblem problem s.interpreter s.backend

/-- The status of the merged completions. -/
def project (s : EndToEndStage) (retimed : Trace) (core : CompletionResult) :
    Except PyError (Trace × String) := do
  let completed ← core.completed
  let merged ← s.mergeCompletedTraces retimed completed
  let checked ← s.checkCompletedArchitecture merged
  return (merged, checked)

/-- An attempt whose coherence problem is feasible. -/
def retire (s : EndToEndStage) (graph : ExecutionGraph) (trace : Trace)
    (model : CompositionResult) (solved : CompletionResult) :
    Except PyError (AttemptResult (Option Trace)) := do
  let coherence ← solved.completed
  let retimed ← s.retimeTrace coherence
  let core ← s.completeCore graph trace retimed model
  match core.status with
  | .feasible => do
    let (merged, checked) ← s.project retimed core
    if checked = s.target then return .realized (some merged)
    else return .refused ("retired architectural projection was " ++ checked) false
  | status => return .refused core.explanation (status = .unknown)

def attempt (s : EndToEndStage) (graph : ExecutionGraph) (p : List String × Configuration) :
    Except PyError (AttemptResult (Option Trace)) := do
  let trace ← s.input graph p
  match s.completeCoherence graph trace with
  -- the composition lacks a role of the candidate
  | .error (.compositionError message) => return .refused message false
  | .error e => .error e
  | .ok (model, solved) =>
    match solved.status with
    | .feasible => s.retire graph trace model solved
    | status => return .refused solved.explanation (status = .unknown)

/-- `_realize_boom_end_to_end`. -/
def realize (s : EndToEndStage) (graph : ExecutionGraph) : Except PyError StageResult := do
  s.stage.validateAdapterSurface s.catalog s.isInternal
  let outcome ← tryAttempts (s.attempt graph)
    ((candidateSchedules graph s.stage.maxSchedules).product (initialConfigurations graph))
    (.start "no public schedule/finite initial-state candidate was solved")
  return stageResult Prod.fst outcome

end EndToEndStage

/-! ## Loops -/

/-- The attempt is not realized. -/
def Refuses {ι α : Type} (attempt : ι → Except PyError (AttemptResult α)) (i : ι)
    (undecided : Bool) : Prop :=
  ∃ reason, attempt i = .ok (.refused reason undecided)

section TryAttempts

variable {ι α : Type} {attempt : ι → Except PyError (AttemptResult α)}

theorem tryAttempts_cons_of_refused {i : ι} {rest : List ι} {tally : Tally} {reason : String}
    {undecided : Bool} (h : attempt i = .ok (.refused reason undecided)) :
    tryAttempts attempt (i :: rest) tally = tryAttempts attempt rest
      { attempts := tally.attempts + 1, lastReason := reason
        sawUnknown := tally.sawUnknown || undecided } := by
  rw [tryAttempts, h]
  rfl

theorem tryAttempts_cons_of_realized {i : ι} {rest : List ι} {tally : Tally} {witness : α}
    (h : attempt i = .ok (.realized witness)) :
    tryAttempts attempt (i :: rest) tally =
      .ok ({ tally with attempts := tally.attempts + 1 }, some (i, witness)) := by
  rw [tryAttempts, h]
  rfl

/-- What the tally says after a loop without a realized attempt. -/
structure AllRefused (attempt : ι → Except PyError (AttemptResult α)) (items : List ι)
    (before after : Tally) : Prop where
  refuses : ∀ i ∈ items, ∃ undecided, Refuses attempt i undecided
  attempts : after.attempts = before.attempts + items.length
  sawUnknown : after.sawUnknown = true ↔
    before.sawUnknown = true ∨ ∃ i ∈ items, Refuses attempt i true

theorem AllRefused.nil {tally : Tally} : AllRefused attempt [] tally tally :=
  ⟨by simp, by simp, by simp⟩

theorem Refuses.unique {i : ι} {u v : Bool} (hu : Refuses attempt i u) (hv : Refuses attempt i v) :
    u = v := by
  obtain ⟨_, hu⟩ := hu
  obtain ⟨_, hv⟩ := hv
  rw [hu] at hv
  cases hv
  rfl

/-- One more refused attempt in front. -/
theorem AllRefused.cons {i : ι} {rest : List ι} {tally after : Tally} {reason : String}
    {undecided : Bool} (hi : attempt i = .ok (.refused reason undecided))
    (h : AllRefused attempt rest
      { attempts := tally.attempts + 1, lastReason := reason
        sawUnknown := tally.sawUnknown || undecided } after) :
    AllRefused attempt (i :: rest) tally after := by
  have hrefuses : Refuses attempt i undecided := ⟨reason, hi⟩
  refine ⟨?_, ?_, ?_⟩
  · intro j hj
    rcases List.mem_cons.mp hj with rfl | hj
    · exact ⟨undecided, hrefuses⟩
    · exact h.refuses j hj
  · rw [h.attempts, List.length_cons]
    show tally.attempts + 1 + rest.length = _
    omega
  · have hundecided : undecided = true ↔ Refuses attempt i true := by
      constructor
      · rintro rfl
        exact hrefuses
      · exact fun htrue => hrefuses.unique htrue
    rw [h.sawUnknown]
    simp only [Bool.or_eq_true, List.mem_cons, exists_eq_or_imp, hundecided, or_assoc]

/-- A loop ends without a realized attempt exactly when all attempts are refused. -/
theorem tryAttempts_eq_none {items : List ι} {tally after : Tally}
    (h : tryAttempts attempt items tally = .ok (after, none)) :
    AllRefused attempt items tally after := by
  induction items generalizing tally with
  | nil =>
      cases h
      exact .nil
  | cons i rest ih =>
      cases hi : attempt i with
      | error e =>
          rw [tryAttempts, hi] at h
          cases h
      | ok result =>
          cases result with
          | realized witness =>
              rw [tryAttempts_cons_of_realized hi] at h
              cases h
          | refused reason undecided =>
              rw [tryAttempts_cons_of_refused hi] at h
              exact .cons hi (ih h)

theorem exists_tryAttempts_eq_none {items : List ι}
    (h : ∀ i ∈ items, ∃ undecided, Refuses attempt i undecided) (tally : Tally) :
    ∃ after, tryAttempts attempt items tally = .ok (after, none) := by
  induction items generalizing tally with
  | nil => exact ⟨tally, rfl⟩
  | cons i rest ih =>
      obtain ⟨undecided, reason, hi⟩ := h i List.mem_cons_self
      rw [tryAttempts_cons_of_refused hi]
      exact ih (fun j hj => h j (List.mem_cons_of_mem _ hj)) _

/-- A loop ends with a realized attempt exactly when those in front of it are refused. -/
theorem tryAttempts_eq_some_iff {items : List ι} {tally : Tally} :
    (∃ after i witness, tryAttempts attempt items tally = .ok (after, some (i, witness))) ↔
      ∃ before i after witness, items = before ++ i :: after ∧
        (∀ j ∈ before, ∃ undecided, Refuses attempt j undecided) ∧
        attempt i = .ok (.realized witness) := by
  induction items generalizing tally with
  | nil => simp [tryAttempts]
  | cons i rest ih =>
      cases hi : attempt i with
      | error e =>
          rw [tryAttempts, hi]
          constructor
          · rintro ⟨_, _, _, h⟩
            cases h
          · rintro ⟨before, j, after, witness, hsplit, hbefore, hj⟩
            cases before with
            | nil =>
                cases hsplit
                rw [hi] at hj
                cases hj
            | cons x before =>
                cases hsplit
                obtain ⟨undecided, reason, hx⟩ := hbefore i List.mem_cons_self
                rw [hi] at hx
                cases hx
      | ok result =>
          cases result with
          | realized witness =>
              rw [tryAttempts_cons_of_realized hi]
              constructor
              · intro _
                exact ⟨[], i, rest, witness, rfl, by simp, hi⟩
              · intro _
                exact ⟨_, _, _, rfl⟩
          | refused reason undecided =>
              rw [tryAttempts_cons_of_refused hi, ih]
              constructor
              · rintro ⟨before, j, after, witness, rfl, hbefore, hj⟩
                refine ⟨i :: before, j, after, witness, rfl, ?_, hj⟩
                intro x hx
                rcases List.mem_cons.mp hx with rfl | hx
                · exact ⟨undecided, reason, hi⟩
                · exact hbefore x hx
              · rintro ⟨before, j, after, witness, hsplit, hbefore, hj⟩
                cases before with
                | nil =>
                    cases hsplit
                    rw [hi] at hj
                    cases hj
                | cons x before =>
                    cases hsplit
                    exact ⟨before, j, after, witness, rfl,
                      fun x hx => hbefore x (List.mem_cons_of_mem _ hx), hj⟩

end TryAttempts

/-! ## Verdicts -/

/-- What the status of a stage says about its attempts, of which the loop makes all up to
the first one that is realized. -/
structure StageVerdicts {ι : Type} (surface : Prop) (outcome : Except PyError StageResult)
    (attempts : List ι) (realized refuted undecided : ι → Prop) : Prop where
  unrealizable : (∃ r, outcome = .ok r ∧ r.status = .unrealizable) ↔
    surface ∧ ∀ i ∈ attempts, refuted i
  unknown : (∃ r, outcome = .ok r ∧ r.status = .unknown) ↔
    surface ∧ (∀ i ∈ attempts, refuted i ∨ undecided i) ∧ ∃ i ∈ attempts, undecided i
  realizable : (∃ r, outcome = .ok r ∧ r.status = .realizable) ↔
    surface ∧ ∃ before i after, attempts = before ++ i :: after ∧
      (∀ j ∈ before, refuted j ∨ undecided j) ∧ realized i
  attempts : ∀ r, outcome = .ok r → r.status ≠ .realizable → r.attempts = attempts.length

section Verdicts

variable {ι : Type} {surface : Except PyError Unit}
  {attempt : ι → Except PyError (AttemptResult (Option Trace))} {items : List ι}
  {reason : String} {schedule : ι → List String} {outcome : Except PyError StageResult}

theorem stageResult_none_status {tally : Tally} :
    (stageResult schedule (tally, none)).status =
      if tally.sawUnknown then .unknown else .unrealizable := rfl

/-- A stage checks its surface, runs its loop and turns the tally into a status. -/
theorem stageVerdicts_of_loop {realized refuted undecided : ι → Prop}
    (houtcome : outcome = surface >>= fun _ => tryAttempts attempt items (.start reason) >>=
      fun result => pure (stageResult schedule result))
    (hrealized : ∀ i, (∃ witness, attempt i = .ok (.realized witness)) ↔ realized i)
    (hrefuted : ∀ i, Refuses attempt i false ↔ refuted i)
    (hundecided : ∀ i, Refuses attempt i true ↔ undecided i) :
    StageVerdicts (surface = .ok ()) outcome items realized refuted undecided := by
  have hrefuses : ∀ i, (∃ u, Refuses attempt i u) ↔ refuted i ∨ undecided i := by
    intro i
    rw [← hrefuted, ← hundecided, Bool.exists_bool]
  -- the outcomes of the loop
  have hok : ∀ r, outcome = .ok r ↔ surface = .ok () ∧ ∃ result,
      tryAttempts attempt items (.start reason) = .ok result ∧
        r = stageResult schedule result := by
    intro r
    rw [houtcome, bind_eq_ok]
    constructor
    · rintro ⟨⟨⟩, hsurface, h⟩
      obtain ⟨result, hresult, h⟩ := bind_eq_ok.mp h
      cases h
      exact ⟨hsurface, result, hresult, rfl⟩
    · rintro ⟨hsurface, result, hresult, rfl⟩
      exact ⟨(), hsurface, bind_eq_ok.mpr ⟨result, hresult, rfl⟩⟩
  have hnone : ∀ r, outcome = .ok r → r.status ≠ .realizable →
      surface = .ok () ∧ ∃ tally, AllRefused attempt items (.start reason) tally ∧
        r = stageResult schedule (tally, none) := by
    intro r hr hstatus
    obtain ⟨hsurface, ⟨tally, found⟩, hloop, rfl⟩ := (hok r).mp hr
    cases found with
    | none => exact ⟨hsurface, tally, tryAttempts_eq_none hloop, rfl⟩
    | some found => exact absurd rfl hstatus
  have hrun : surface = .ok () → (∀ i ∈ items, refuted i ∨ undecided i) →
      ∃ tally, AllRefused attempt items (.start reason) tally ∧
        outcome = .ok (stageResult schedule (tally, none)) := by
    intro hsurface hall
    obtain ⟨tally, hloop⟩ := exists_tryAttempts_eq_none
      (fun i hi => (hrefuses i).mpr (hall i hi)) (.start reason)
    exact ⟨tally, tryAttempts_eq_none hloop, (hok _).mpr ⟨hsurface, _, hloop, rfl⟩⟩
  refine ⟨⟨?_, ?_⟩, ⟨?_, ?_⟩, ⟨?_, ?_⟩, ?_⟩
  · rintro ⟨r, hr, hstatus⟩
    obtain ⟨hsurface, tally, hloop, rfl⟩ := hnone r hr (by simp [hstatus])
    refine ⟨hsurface, ?_⟩
    intro i hi
    rcases (hrefuses i).mp (hloop.refuses i hi) with h | h
    · exact h
    · have hsaw := hloop.sawUnknown.mpr (.inr ⟨i, hi, (hundecided i).mpr h⟩)
      simp [stageResult_none_status, hsaw] at hstatus
  · rintro ⟨hsurface, hall⟩
    obtain ⟨tally, hloop, hr⟩ := hrun hsurface (fun i hi => .inl (hall i hi))
    refine ⟨_, hr, ?_⟩
    have hsaw : ¬ tally.sawUnknown = true := by
      rw [hloop.sawUnknown]
      rintro (h | ⟨i, hi, h⟩)
      · cases h
      · exact Bool.noConfusion (h.unique ((hrefuted i).mpr (hall i hi)))
    rw [stageResult_none_status, if_neg hsaw]
  · rintro ⟨r, hr, hstatus⟩
    obtain ⟨hsurface, tally, hloop, rfl⟩ := hnone r hr (by simp [hstatus])
    refine ⟨hsurface, fun i hi => (hrefuses i).mp (hloop.refuses i hi), ?_⟩
    have hsaw : tally.sawUnknown = true := by
      by_contra h
      simp [stageResult_none_status, h] at hstatus
    rcases hloop.sawUnknown.mp hsaw with h | ⟨i, hi, h⟩
    · cases h
    · exact ⟨i, hi, (hundecided i).mp h⟩
  · rintro ⟨hsurface, hall, i, hi, h⟩
    obtain ⟨tally, hloop, hr⟩ := hrun hsurface hall
    refine ⟨_, hr, ?_⟩
    rw [stageResult_none_status,
      if_pos (hloop.sawUnknown.mpr (.inr ⟨i, hi, (hundecided i).mpr h⟩))]
  · rintro ⟨r, hr, hstatus⟩
    obtain ⟨hsurface, ⟨tally, found⟩, hloop, rfl⟩ := (hok r).mp hr
    cases found with
    | none =>
        rw [stageResult_none_status] at hstatus
        split_ifs at hstatus
    | some found =>
        obtain ⟨before, i, after, witness, hsplit, hbefore, hi⟩ :=
          tryAttempts_eq_some_iff.mp ⟨tally, found.1, found.2, hloop⟩
        exact ⟨hsurface, before, i, after, hsplit,
          fun j hj => (hrefuses j).mp (hbefore j hj), (hrealized i).mp ⟨witness, hi⟩⟩
  · rintro ⟨hsurface, before, i, after, hsplit, hbefore, hi⟩
    obtain ⟨witness, hi⟩ := (hrealized i).mpr hi
    obtain ⟨tally, j, found, hloop⟩ := (@tryAttempts_eq_some_iff _ _ attempt items
      (.start reason)).mpr
      ⟨before, i, after, witness, hsplit, fun j hj => (hrefuses j).mpr (hbefore j hj), hi⟩
    exact ⟨_, (hok _).mpr ⟨hsurface, _, hloop, rfl⟩, rfl⟩
  · intro r hr hstatus
    obtain ⟨-, tally, hloop, rfl⟩ := hnone r hr hstatus
    show tally.attempts = items.length
    rw [hloop.attempts]
    exact Nat.zero_add _

end Verdicts

theorem CompletionStatus.eq_infeasible {status : CompletionStatus} (hfeasible : status ≠ .feasible)
    (hunknown : false = decide (status = .unknown)) : status = .infeasible := by
  cases status with
  | feasible => exact absurd rfl hfeasible
  | infeasible => rfl
  | unknown => cases hunknown

/-! ## The coherence stage -/

/-- The completion of a schedule has this status. -/
def CoherenceStage.Solved (s : CoherenceStage) (graph : ExecutionGraph)
    (status : CompletionStatus) (schedule : List String) : Prop :=
  ∃ solved, s.complete graph schedule = .ok solved ∧ solved.status = status

section Coherence

variable {s : CoherenceStage} {graph : ExecutionGraph} {schedule : List String}

theorem CoherenceStage.attempt_of_ok {solved : CompletionResult}
    (h : s.complete graph schedule = .ok solved) :
    s.attempt graph schedule = match solved.status with
      | .feasible => .ok (.realized solved.completedTrace)
      | status => .ok (.refused solved.explanation (status = .unknown)) := by
  rw [attempt, h]
  cases solved with
  | mk status =>
    cases status <;> rfl

theorem CoherenceStage.attempt_eq_ok {result : AttemptResult (Option Trace)}
    (h : s.attempt graph schedule = .ok result) :
    ∃ solved, s.complete graph schedule = .ok solved := by
  obtain ⟨solved, hsolved, -⟩ := bind_eq_ok.mp h
  exact ⟨solved, hsolved⟩

theorem CoherenceStage.realized_iff :
    (∃ witness, s.attempt graph schedule = .ok (.realized witness)) ↔
      s.Solved graph .feasible schedule := by
  constructor
  · rintro ⟨witness, h⟩
    obtain ⟨solved, hsolved⟩ := attempt_eq_ok h
    rw [attempt_of_ok hsolved] at h
    refine ⟨solved, hsolved, ?_⟩
    cases hstatus : solved.status <;> simp [hstatus] at h ⊢
  · rintro ⟨solved, hsolved, hstatus⟩
    rw [attempt_of_ok hsolved, hstatus]
    exact ⟨_, rfl⟩

theorem CoherenceStage.refuses_iff {undecided : Bool} :
    Refuses (s.attempt graph) schedule undecided ↔
      s.Solved graph (if undecided then .unknown else .infeasible) schedule := by
  constructor
  · rintro ⟨reason, h⟩
    obtain ⟨solved, hsolved⟩ := attempt_eq_ok h
    rw [attempt_of_ok hsolved] at h
    refine ⟨solved, hsolved, ?_⟩
    cases hstatus : solved.status <;> simp [hstatus] at h <;> simp [← h.2]
  · rintro ⟨solved, hsolved, hstatus⟩
    unfold Refuses
    rw [attempt_of_ok hsolved, hstatus]
    cases undecided <;> exact ⟨_, rfl⟩

end Coherence

/-! ## The end-to-end stage -/

namespace EndToEndStage

/-- The coherence problem of an attempt is feasible; its completed trace, in the time of
the parent. -/
structure Cohered (s : EndToEndStage) (graph : ExecutionGraph) (p : List String × Configuration)
    (trace retimed : Trace) (model : CompositionResult) : Prop where
  input : s.input graph p = .ok trace
  coherence : ∃ solved completed, s.completeCoherence graph trace = .ok (model, solved) ∧
    solved.status = .feasible ∧ solved.completed = .ok completed ∧
    s.retimeTrace completed = .ok retimed

/-- The coherence problem of an attempt is composed, and its completion has this status. -/
def CoherenceSolved (s : EndToEndStage) (graph : ExecutionGraph)
    (p : List String × Configuration) (status : CompletionStatus) : Prop :=
  ∃ trace model solved, s.input graph p = .ok trace ∧
    s.completeCoherence graph trace = .ok (model, solved) ∧ solved.status = status

/-- The attempt gets to the core problem, whose completion has this status. -/
def CoreSolved (s : EndToEndStage) (graph : ExecutionGraph) (p : List String × Configuration)
    (status : CompletionStatus) : Prop :=
  ∃ trace retimed model core, s.Cohered graph p trace retimed model ∧
    s.completeCore graph trace retimed model = .ok core ∧ core.status = status

/-- Both problems are feasible, and the merged completion has this status. -/
def Projected (s : EndToEndStage) (graph : ExecutionGraph) (p : List String × Configuration)
    (checked : String) : Prop :=
  ∃ trace retimed model core merged, s.Cohered graph p trace retimed model ∧
    s.completeCore graph trace retimed model = .ok core ∧ core.status = .feasible ∧
    s.project retimed core = .ok (merged, checked)

/-- The coherence problem of an attempt cannot be composed. -/
def NotComposed (s : EndToEndStage) (graph : ExecutionGraph)
    (p : List String × Configuration) : Prop :=
  ∃ trace message, s.input graph p = .ok trace ∧
    s.completeCoherence graph trace = .error (.compositionError message)

/-- An attempt is refuted: not composed, infeasible in one of its problems, or not of the
target status. -/
inductive Refuted (s : EndToEndStage) (graph : ExecutionGraph)
    (p : List String × Configuration) : Prop where
  | notComposed (h : s.NotComposed graph p)
  | coherence (h : s.CoherenceSolved graph p .infeasible)
  | core (h : s.CoreSolved graph p .infeasible)
  | offTarget (checked : String) (h : s.Projected graph p checked) (hne : checked ≠ s.target)

/-- A solver call of the attempt is undecided. -/
inductive Undecided (s : EndToEndStage) (graph : ExecutionGraph)
    (p : List String × Configuration) : Prop where
  | coherence (h : s.CoherenceSolved graph p .unknown)
  | core (h : s.CoreSolved graph p .unknown)

section

variable {s : EndToEndStage} {graph : ExecutionGraph} {p : List String × Configuration}
  {trace retimed : Trace} {model : CompositionResult} {solved core : CompletionResult}

/-- The five ways an attempt returns. -/
inductive Attempted (s : EndToEndStage) (graph : ExecutionGraph)
    (p : List String × Configuration) : AttemptResult (Option Trace) → Prop where
  | notComposed {trace : Trace} {message : String} (hinput : s.input graph p = .ok trace)
      (hcoherence : s.completeCoherence graph trace = .error (.compositionError message)) :
      Attempted s graph p (.refused message false)
  | coherence {trace : Trace} {model : CompositionResult} {solved : CompletionResult}
      (hinput : s.input graph p = .ok trace)
      (hcoherence : s.completeCoherence graph trace = .ok (model, solved))
      (hstatus : solved.status ≠ .feasible) :
      Attempted s graph p (.refused solved.explanation (solved.status = .unknown))
  | core {trace retimed : Trace} {model : CompositionResult} {core : CompletionResult}
      (hcohered : s.Cohered graph p trace retimed model)
      (hcore : s.completeCore graph trace retimed model = .ok core)
      (hstatus : core.status ≠ .feasible) :
      Attempted s graph p (.refused core.explanation (core.status = .unknown))
  | offTarget {checked : String} (h : s.Projected graph p checked) (hne : checked ≠ s.target) :
      Attempted s graph p (.refused ("retired architectural projection was " ++ checked) false)
  | realized {trace retimed merged : Trace} {model : CompositionResult} {core : CompletionResult}
      (hcohered : s.Cohered graph p trace retimed model)
      (hcore : s.completeCore graph trace retimed model = .ok core)
      (hstatus : core.status = .feasible)
      (hproject : s.project retimed core = .ok (merged, s.target)) :
      Attempted s graph p (.realized (some merged))

/-- An attempt with a feasible coherence problem. -/
theorem attempted_of_retire {result : AttemptResult (Option Trace)}
    (hinput : s.input graph p = .ok trace)
    (hcoherence : s.completeCoherence graph trace = .ok (model, solved))
    (hstatus : solved.status = .feasible)
    (h : s.retire graph trace model solved = .ok result) : Attempted s graph p result := by
  unfold retire at h
  obtain ⟨completed, hcompleted, h⟩ := bind_eq_ok.mp h
  obtain ⟨retimed, hretimed, h⟩ := bind_eq_ok.mp h
  obtain ⟨core, hcore, h⟩ := bind_eq_ok.mp h
  have hcohered : s.Cohered graph p trace retimed model :=
    ⟨hinput, solved, completed, hcoherence, hstatus, hcompleted, hretimed⟩
  cases hcoreStatus : core.status with
  | feasible =>
      rw [hcoreStatus] at h
      obtain ⟨⟨merged, checked⟩, hproject, h⟩ := bind_eq_ok.mp h
      dsimp only at h
      by_cases htarget : checked = s.target
      · rw [if_pos htarget] at h
        cases h
        exact .realized hcohered hcore hcoreStatus (htarget ▸ hproject)
      · rw [if_neg htarget] at h
        cases h
        exact .offTarget ⟨trace, retimed, model, core, merged, hcohered, hcore, hcoreStatus,
          hproject⟩ htarget
  | infeasible =>
      have := Attempted.core hcohered hcore (by simp [hcoreStatus])
      rw [hcoreStatus] at h this
      cases h
      exact this
  | unknown =>
      have := Attempted.core hcohered hcore (by simp [hcoreStatus])
      rw [hcoreStatus] at h this
      cases h
      exact this

theorem attempted_of_ok {result : AttemptResult (Option Trace)}
    (h : s.attempt graph p = .ok result) : Attempted s graph p result := by
  unfold attempt at h
  obtain ⟨trace, hinput, h⟩ := bind_eq_ok.mp h
  cases hcoherence : s.completeCoherence graph trace with
  | error e =>
      rw [hcoherence] at h
      cases e with
      | compositionError message =>
          cases h
          exact .notComposed hinput hcoherence
      | _ => cases h
  | ok found =>
      obtain ⟨model, solved⟩ := found
      rw [hcoherence] at h
      cases hstatus : solved.status with
      | feasible =>
          simp only [hstatus] at h
          exact attempted_of_retire hinput hcoherence hstatus h
      | infeasible =>
          have := Attempted.coherence hinput hcoherence (by simp [hstatus])
          simp only [hstatus] at h
          rw [hstatus] at this
          cases h
          exact this
      | unknown =>
          have := Attempted.coherence hinput hcoherence (by simp [hstatus])
          simp only [hstatus] at h
          rw [hstatus] at this
          cases h
          exact this

theorem attempt_of_cohered (hcohered : s.Cohered graph p trace retimed model)
    (hcore : s.completeCore graph trace retimed model = .ok core) :
    s.attempt graph p = match core.status with
      | .feasible => s.project retimed core >>= fun result =>
        if result.2 = s.target then .ok (.realized (some result.1))
        else .ok (.refused ("retired architectural projection was " ++ result.2) false)
      | status => .ok (.refused core.explanation (status = .unknown)) := by
  obtain ⟨hinput, solved, completed, hcoherence, hstatus, hcompleted, hretimed⟩ := hcohered
  unfold attempt
  simp only [hinput, ok_bind, hcoherence, hstatus, retire, hcompleted, hretimed, hcore]
  cases core.status <;> rfl

theorem attempt_of_attempted {result : AttemptResult (Option Trace)}
    (h : Attempted s graph p result) : s.attempt graph p = .ok result := by
  cases h with
  | notComposed hinput hcoherence =>
      unfold attempt
      simp only [hinput, ok_bind, hcoherence]
      rfl
  | @coherence trace model solved hinput hcoherence hstatus =>
      unfold attempt
      simp only [hinput, ok_bind, hcoherence]
      cases hsolved : solved.status with
      | feasible => exact absurd hsolved hstatus
      | _ => rfl
  | @core trace retimed model core hcohered hcore hstatus =>
      rw [attempt_of_cohered hcohered hcore]
      cases hsolved : core.status with
      | feasible => exact absurd hsolved hstatus
      | _ => rfl
  | offTarget h hne =>
      obtain ⟨trace, retimed, model, core, merged, hcohered, hcore, hstatus, hproject⟩ := h
      rw [attempt_of_cohered hcohered hcore, hstatus]
      simp only [hproject, ok_bind, if_neg hne]
  | realized hcohered hcore hstatus hproject =>
      rw [attempt_of_cohered hcohered hcore, hstatus]
      simp only [hproject, ok_bind, if_pos]

theorem attempt_eq_ok_iff {result : AttemptResult (Option Trace)} :
    s.attempt graph p = .ok result ↔ Attempted s graph p result :=
  ⟨attempted_of_ok, attempt_of_attempted⟩

theorem realized_iff : (∃ witness, s.attempt graph p = .ok (.realized witness)) ↔
    s.Projected graph p s.target := by
  constructor
  · rintro ⟨witness, h⟩
    cases attempted_of_ok h with
    | realized hcohered hcore hstatus hproject =>
        exact ⟨_, _, _, _, _, hcohered, hcore, hstatus, hproject⟩
  · rintro ⟨_, _, _, _, merged, hcohered, hcore, hstatus, hproject⟩
    exact ⟨some merged, attempt_of_attempted (.realized hcohered hcore hstatus hproject)⟩

theorem refuses_false_iff : Refuses (s.attempt graph) p false ↔ s.Refuted graph p := by
  constructor
  · rintro ⟨reason, h⟩
    -- an infeasible problem refuses with a false flag, an undecided one does not
    generalize hresult : AttemptResult.refused reason false = result at h
    cases attempted_of_ok h with
    | notComposed hinput hcoherence => exact .notComposed ⟨_, _, hinput, hcoherence⟩
    | @coherence trace model solved hinput hcoherence hstatus =>
        injection hresult with _ hdecided
        exact .coherence ⟨trace, model, solved, hinput, hcoherence,
          CompletionStatus.eq_infeasible hstatus hdecided⟩
    | @core trace retimed model core hcohered hcore hstatus =>
        injection hresult with _ hdecided
        exact .core ⟨trace, retimed, model, core, hcohered, hcore,
          CompletionStatus.eq_infeasible hstatus hdecided⟩
    | offTarget hprojected hne => exact .offTarget _ hprojected hne
    | realized => cases hresult
  · intro h
    cases h with
    | notComposed h =>
        obtain ⟨trace, message, hinput, hcoherence⟩ := h
        exact ⟨_, attempt_of_attempted (.notComposed hinput hcoherence)⟩
    | coherence h =>
        obtain ⟨trace, model, solved, hinput, hcoherence, hstatus⟩ := h
        have := attempt_of_attempted (.coherence hinput hcoherence (by simp [hstatus]))
        exact ⟨_, by simpa [hstatus] using this⟩
    | core h =>
        obtain ⟨trace, retimed, model, core, hcohered, hcore, hstatus⟩ := h
        have := attempt_of_attempted (.core hcohered hcore (by simp [hstatus]))
        exact ⟨_, by simpa [hstatus] using this⟩
    | offTarget checked h hne => exact ⟨_, attempt_of_attempted (.offTarget h hne)⟩

theorem refuses_true_iff : Refuses (s.attempt graph) p true ↔ s.Undecided graph p := by
  constructor
  · rintro ⟨reason, h⟩
    generalize hresult : AttemptResult.refused reason true = result at h
    cases attempted_of_ok h with
    | @coherence trace model solved hinput hcoherence hstatus =>
        injection hresult with _ hdecided
        exact .coherence ⟨trace, model, solved, hinput, hcoherence, by simpa using hdecided⟩
    | @core trace retimed model core hcohered hcore hstatus =>
        injection hresult with _ hdecided
        exact .core ⟨trace, retimed, model, core, hcohered, hcore, by simpa using hdecided⟩
    | notComposed | offTarget | realized => cases hresult
  · intro h
    cases h with
    | coherence h =>
        obtain ⟨trace, model, solved, hinput, hcoherence, hstatus⟩ := h
        have := attempt_of_attempted (.coherence hinput hcoherence (by simp [hstatus]))
        exact ⟨_, by simpa [hstatus] using this⟩
    | core h =>
        obtain ⟨trace, retimed, model, core, hcohered, hcore, hstatus⟩ := h
        have := attempt_of_attempted (.core hcohered hcore (by simp [hstatus]))
        exact ⟨_, by simpa [hstatus] using this⟩

end

end EndToEndStage

/-! ## Stages over the schedules -/

/-- All orders of the accesses are tried exactly when the bound is not below their number. -/
theorem all_schedules_iff {graph : ExecutionGraph} {limit : Nat} :
    (∀ schedule, schedule.Perm graph.dynamicIds → schedule ∈ candidateSchedules graph limit) ↔
      graph.dynamicIds.length.factorial ≤ limit := by
  have hlength : (rankedOrders graph.preferredEdges graph.dynamicIds).length = _ :=
    length_rankedOrders nodup_dynamicIds
  constructor
  · intro h
    have hsub : rankedOrders graph.preferredEdges graph.dynamicIds ⊆
        candidateSchedules graph limit := fun schedule hmem => h _ (mem_rankedOrders.mp hmem)
    have hle := ((nodup_rankedOrders nodup_dynamicIds).subperm hsub).length_le
    rw [hlength, candidateSchedules, List.length_take] at hle
    omega
  · intro hle schedule hperm
    rw [candidateSchedules, List.take_of_length_le (by omega)]
    exact mem_rankedOrders.mpr hperm

/-- What the status of a realization stage says: it is `UNREALIZABLE` exactly when the
attempt of every schedule up to the bound is refuted, in the end-to-end stage from every
initial configuration. -/
theorem stageVerdicts (graph : ExecutionGraph) (coherence : CoherenceStage)
    (endToEnd : EndToEndStage) :
    StageVerdicts
      (coherence.stage.validateAdapterSurface coherence.catalog coherence.isInternal = .ok ())
      (coherence.realize graph) (candidateSchedules graph coherence.stage.maxSchedules)
      (coherence.Solved graph .feasible) (coherence.Solved graph .infeasible)
      (coherence.Solved graph .unknown) ∧
    StageVerdicts
      (endToEnd.stage.validateAdapterSurface endToEnd.catalog endToEnd.isInternal = .ok ())
      (endToEnd.realize graph)
      ((candidateSchedules graph endToEnd.stage.maxSchedules).product (initialConfigurations graph))
      (endToEnd.Projected graph · endToEnd.target) (endToEnd.Refuted graph)
      (endToEnd.Undecided graph) ∧
    ∀ limit, (∀ schedule, schedule.Perm graph.dynamicIds →
      schedule ∈ candidateSchedules graph limit) ↔ graph.dynamicIds.length.factorial ≤ limit := by
  refine ⟨stageVerdicts_of_loop rfl (fun _ => CoherenceStage.realized_iff)
    (fun _ => CoherenceStage.refuses_iff) (fun _ => CoherenceStage.refuses_iff),
    stageVerdicts_of_loop rfl (fun _ => EndToEndStage.realized_iff)
      (fun _ => EndToEndStage.refuses_false_iff) (fun _ => EndToEndStage.refuses_true_iff), ?_⟩
  exact fun limit => all_schedules_iff

/-! ## A schedule that is not tried -/

def stringField (name : String) (name_ne : name ≠ "") : FieldSpec :=
  ⟨name, stringSort, true, name_ne⟩

def intField (name : String) (name_ne : name ≠ "") : FieldSpec := ⟨name, .int, true, name_ne⟩

def idField (name : String) (name_ne : name ≠ "") : FieldSpec := ⟨name, opIdSort, true, name_ne⟩

theorem hartField_ne : "hart" ≠ "" := by decide

theorem indexField_ne : "program_index" ≠ "" := by decide

theorem accessRole_ne : "a" ≠ "" := by decide

theorem initPort_ne : "init" ≠ "" := by decide

theorem accessPort_ne : "access" ≠ "" := by decide

theorem loadPort_ne : "load" ≠ "" := by decide

theorem storePort_ne : "store" ≠ "" := by decide

/-- The fields of the shipped event type that are always set. -/
def coherenceLineInit : EventType :=
  ⟨"Coherence.LineInit", [stringField "line_id" (by decide), addressField, valueField true,
    intField "version" (by decide), idField "source_op_id" (by decide)], by decide, by decide⟩

def coherenceAccess : EventType :=
  ⟨"Coherence.Access", [opIdField, intField "hart" hartField_ne, intField "program_index" indexField_ne,
    stringField "line_id" (by decide), addressField, stringField "mem_kind" (by decide),
    ⟨"write_value", valueSort, true, by decide⟩, idField "after_op_id" (by decide)],
    by decide, by decide⟩

def resultFields : List FieldSpec :=
  [opIdField, intField "hart" hartField_ne, stringField "line_id" (by decide), addressField,
    valueField true, intField "version" (by decide), idField "source_op_id" (by decide),
    stringField "path" (by decide)]

def coherenceLoadResult : EventType := ⟨"Coherence.LoadResult", resultFields, by decide, by decide⟩

def coherenceStorePerformed : EventType :=
  ⟨"Coherence.StorePerformed", resultFields, by decide, by decide⟩

def coherenceCatalog : EventCatalog where
  eventTypes := .ofList [("Coherence.LineInit", coherenceLineInit),
    ("Coherence.Access", coherenceAccess), ("Coherence.LoadResult", coherenceLoadResult),
    ("Coherence.StorePerformed", coherenceStorePerformed)]
  named := by decide +kernel

/-- A result that occurs with these fields. -/
def resultSlot (id eventType opId sourceId : String) (hart value version : Int)
    (id_ne : id ≠ "") (eventType_ne : eventType ≠ "") : ModuleSlot where
  slot :=
    { id, eventType, required := true, cycle := .value (.int 1), id_ne, eventType_ne
      fields := .ofList [("op_id", .value (.str opId)), ("hart", .value (.int hart)),
        ("line_id", .value (.str "8")), ("address", .value (.int 8)),
        ("value", .value (.int value)), ("version", .value (.int version)),
        ("source_op_id", .value (.str sourceId)),
        ("path", .value (.str "hit"))] }
  annotations := .empty

/-- No load is the first access. -/
def orderRule : Transformation where
  name := "no_first_load"
  inputs := [⟨"a", "Coherence.Access", accessRole_ne, by decide⟩]
  outputs := []
  when := .conjunction [
    .binary .eq (.eventField "a" "mem_kind" stringSort) (.literal (.str "load") stringSort),
    .binary .eq (.eventField "a" "after_op_id" opIdSort) (.literal (.str "NONE") opIdSort)]
  outputWhen := .literal (.bool true) .bool
  ensure := [.literal (.bool false) .bool]
  stateRequirements := []
  stateUpdates := []
  isExact := false
  stateMode := .require
  name_ne := by decide
  roles_nodup := by decide
  when_bool := rfl
  outputWhen_bool := Expr.bool_of_true
  ensure_bool := by decide
  exact_output := Transformation.inexact_outputs
  guard_outputs := Transformation.require_outputs
  guard_updates := Transformation.require_updates

/-- A line with the results of one load and one store. -/
def lineModule : ModuleSpec where
  name := "Line"
  ports := [⟨"init", .input, "Coherence.LineInit", false, initPort_ne, by decide⟩,
    ⟨"access", .input, "Coherence.Access", false, accessPort_ne, by decide⟩,
    ⟨"load", .output, "Coherence.LoadResult", false, loadPort_ne, by decide⟩,
    ⟨"store", .output, "Coherence.StorePerformed", false, storePort_ne, by decide⟩]
  internalEvents := []
  slots := [resultSlot "load_result" "Coherence.LoadResult" "b" "i" 1 0 0 (by decide) (by decide),
    resultSlot "store_result" "Coherence.StorePerformed" "a" "a" 0 1 1 (by decide) (by decide)]
  rules := [⟨orderRule, []⟩]
  stateVariables := []
  constraints := []
  name_ne := by decide
  ports_nodup := by decide
  internalEvents_nodup := by decide
  slots_nodup := by decide
  rules_nodup := by decide
  stateVariables_nodup := by decide
  constraints_bool := Expr.bool_of_mem_nil

def lineComposition : CompositionSpec where
  name := "line"
  modules := [⟨"Line", "line.yaml", by decide, by decide⟩]
  connections := []
  constraints := []
  horizon := 10
  metadata := .empty
  name_ne := by decide
  modules_nodup := by decide
  connections_nodup := by decide
  constraints_bool := Expr.bool_of_mem_nil

/-- A coherence stage over the line, with the given bound on its schedules. -/
def lineStage (maxSchedules : Nat) (h : 0 < maxSchedules) : CoherenceStage where
  stage :=
    { name := "coherence", kind := .coherenceAccess
      inputEventTypes := ["Coherence.LineInit", "Coherence.Access"]
      eventTypes := .ofList [("line_init", "Coherence.LineInit"), ("access", "Coherence.Access"),
        ("load_result", "Coherence.LoadResult"), ("store_result", "Coherence.StorePerformed")]
      cycleStart := 1, cycleStride := 9, maxSchedules
      name_ne := by decide, named := by decide +kernel, stride_pos := by decide, schedules_pos := h }
  catalog := coherenceCatalog
  isInternal := fun _ => false
  compose := fun _ => composeModules coherenceCatalog (.ok ())
    (fun _ _ => .ok ⟨"line.yaml", lineModule⟩) lineComposition
  interpreter := .integers
  backend := .finite 100

/-- A store of one hart, and a load of another one that reads before it. -/
def beforeTrace : Trace where
  events :=
    [ occurring 0 "Arch" "InitWrite" [("op_id", .str "i"), ("address", .int 8), ("value", .int 0)],
      occurring 1 "Arch" "Store"
        [("op_id", .str "a"), ("address", .int 8), ("value", .int 1), ("hart", .int 0),
          ("program_index", .int 0)],
      occurring 2 "Arch" "Load"
        [("op_id", .str "b"), ("address", .int 8), ("hart", .int 1), ("program_index", .int 0)],
      occurring 3 "Arch" "CommitRead" [("op_id", .str "b"), ("value", .int 0)] ]
  constraints := []
  isPartial := false
  nodup := by decide
  bool_constraints := Expr.bool_of_mem_nil

/-- The stage that tries one schedule is unrealizable, though the other schedule has a
feasible completion. -/
theorem untried_schedule_feasible : ∃ graphs graph result schedule,
    iterExecutionGraphs beforeTrace amoSpec 4 = .ok graphs ∧ graph ∈ graphs ∧
      (lineStage 1 Nat.one_pos).realize graph = .ok result ∧ result.status = .unrealizable ∧
      schedule.Perm graph.dynamicIds ∧ schedule ∉ candidateSchedules graph 1 ∧
      (lineStage 1 Nat.one_pos).Solved graph .feasible schedule := by
  have hchecks : (iterExecutionGraphs beforeTrace amoSpec 4).toOption.bind (fun graphs =>
      graphs.head?.map (fun graph =>
        (((lineStage 1 Nat.one_pos).realize graph).toOption.map StageResult.status,
          graph.dynamicIds, candidateSchedules graph 1,
          ((lineStage 1 Nat.one_pos).complete graph ["a", "b"]).toOption.map
            CompletionResult.status))) =
      some (some .unrealizable, ["a", "b"], [["b", "a"]], some .feasible) := by decide +kernel
  obtain ⟨graphs, hgraphs, hchecks⟩ := Option.bind_eq_some_iff.mp hchecks
  obtain ⟨graph, hhead, hchecks⟩ := Option.map_eq_some_iff.mp hchecks
  simp only [Prod.mk.injEq] at hchecks
  obtain ⟨hstatus, hids, hschedules, hsolved⟩ := hchecks
  obtain ⟨result, hresult, hunrealizable⟩ := Option.map_eq_some_iff.mp hstatus
  obtain ⟨solved, hsolved, hfeasible⟩ := Option.map_eq_some_iff.mp hsolved
  refine ⟨graphs, graph, result, ["a", "b"], toOption_eq_some.mp hgraphs,
    List.mem_of_mem_head? hhead, toOption_eq_some.mp hresult, hunrealizable, ?_, ?_,
    solved, toOption_eq_some.mp hsolved, hfeasible⟩
  · rw [hids]
  · rw [hschedules]
    decide

end Umcm
