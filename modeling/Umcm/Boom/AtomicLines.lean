import Umcm.Boom.Atomic
import Umcm.Solver.Origin

/-!
# Atomic operations on several lines

Rules exist for every pair of an operation and a line. The ones that start from
a translation compare its line; the ones that continue an operation compare the
operation only, so every event of an operation in the unit also asks for an
event on each foreign line.

* `independentLines_iff_quiet`: lines are independent when no operation with a
  foreign line has an event in the unit.
* `no_own_of_foreign_line`: with the slots of the module alone there is no such
  event, so an operation on a new line stops the others.
-/

namespace Umcm

namespace Boom

namespace Atomic

open Except EvaluationContext

/-- The events that the unit keeps to itself. -/
def unitTypes : List String :=
  ["Atomic.AMORead", "Atomic.AMOWrite", "Atomic.LRRead", "Atomic.ReservationSet",
    "Atomic.SCDecision", "Atomic.SCWrite"]

/-- The types of events that follow them. -/
def followingTypes : List String :=
  ["Atomic.AMOWrite", "Core.MemoryComplete", "Atomic.ReservationSet", "Atomic.SCWrite"]

/-! ## Triggers -/

section Triggers

variable (problem : BoundedProblem) (context : EvaluationContext)

/-- The event is the input of the rule and satisfies its guard. -/
structure Triggers (rule : ModuleRule.Fields) (eventType a : String) : Prop where
  occurring : Occurring problem context eventType a
  when : ∃ role, rule.inputs = [(role, eventType)] ∧
    context.Holds (RoleBinding.instantiate [(role, a)] rule.when)

/-- No event of an operation in the unit triggers a rule for a foreign line. -/
def IndependentLines (ops : List Op) (lines : List Line) : Prop :=
  ∀ op ∈ ops, ∀ line ∈ lines, line.reservationId.key ≠ op.reservationId.key → ∀ index,
    ∀ rule ∈ rules op line index, ∀ eventType ∈ unitTypes, ∀ a,
      context.Carries a "reservation_id" op.reservationId → ¬ Triggers problem context rule eventType a

/-- The success of the decision has a truth value. -/
def Settled (context : EvaluationContext) (a : String) : Prop :=
  context.Reads a "success" (.bool true) ∨ ∃ v, context.Reads a "success" v ∧ v.truthy = false

/-- An event of the operation in the unit, a decision with its outcome. -/
structure Own (op : Op) (eventType a : String) : Prop where
  unit : eventType ∈ unitTypes
  showing : Showing problem context eventType
    [("op_id", op.opId), ("reservation_id", op.reservationId)] a
  settled : eventType = "Atomic.SCDecision" → Settled context a

/-- An operation with a foreign line has no event in the unit. -/
def Quiet (ops : List Op) (lines : List Line) : Prop :=
  ∀ op ∈ ops, (∃ line ∈ lines, line.reservationId.key ≠ op.reservationId.key) →
    ∀ eventType a, ¬ Own problem context op eventType a

end Triggers

section Contexts

variable {problem : BoundedProblem} {context : EvaluationContext} {op : Op} {line : Line}
  {index : Nat}

theorem Own.id {eventType a : String} (hown : Own problem context op eventType a) :
    context.Carries a "op_id" op.opId :=
  hown.showing.carries ("op_id", op.opId) (by simp)

/-- A rule of the pair that takes the event on to an event of the line. -/
structure Continues (op : Op) (line : Line) (context : EvaluationContext)
    (rule : ModuleRule.Fields) (role eventType a : String) : Prop where
  inputs : rule.inputs = [(role, eventType)]
  mode : rule.stateMode = .require
  when : context.Holds (RoleBinding.instantiate [(role, a)] rule.when)
  outputs : ∃ role' eventType', rule.outputs = [(role', eventType')] ∧ eventType' ∈ followingTypes ∧
    ∀ b, context.Holds (RoleBinding.instantiate [(role, a), (role', b)] rule.outputWhen) →
      context.Carries b "op_id" op.opId ∧ context.Carries b "reservation_id" line.reservationId

theorem continues_of_read {a : String} (hid : context.Carries a "op_id" op.opId) :
    Continues op line context (amoReadPrecedesWrite op line index) "read" "Atomic.AMORead" a := by
  refine ⟨rfl, rfl, by simpa [amoReadPrecedesWrite] using hid, _, _, rfl, by decide, ?_⟩
  intro b hscope
  rwa [amoReadPrecedesWrite, holds_onLine, apply_output (by decide : "write" ≠ "read")] at hscope

theorem continues_of_write {a : String} (hid : context.Carries a "op_id" op.opId) :
    Continues op line context (amoWriteCompletes op line index) "write" "Atomic.AMOWrite" a := by
  refine ⟨rfl, rfl, by simpa [amoWriteCompletes] using hid, _, _, rfl, by decide, ?_⟩
  intro b hscope
  simp only [amoWriteCompletes, holds_completes,
    apply_output (by decide : "complete" ≠ "write")] at hscope
  exact hscope.2.2

theorem continues_of_lrRead {a : String} (hid : context.Carries a "op_id" op.opId) :
    Continues op line context (lrSetsReservation op line index) "read" "Atomic.LRRead" a := by
  refine ⟨rfl, rfl, by simpa [lrSetsReservation] using hid, _, _, rfl, by decide, ?_⟩
  intro b hscope
  rwa [lrSetsReservation, holds_onLine, apply_output (by decide : "set" ≠ "read")] at hscope

theorem continues_of_set {a : String} (hid : context.Carries a "op_id" op.opId) :
    Continues op line context (lrCompletion op line index) "set" "Atomic.ReservationSet" a := by
  refine ⟨rfl, rfl, by simpa [lrCompletion] using hid, _, _, rfl, by decide, ?_⟩
  intro b hscope
  simp only [lrCompletion, holds_completes, apply_output (by decide : "complete" ≠ "set")]
    at hscope
  exact hscope.2.2

theorem continues_of_success {a : String} (hid : context.Carries a "op_id" op.opId)
    (hsuccess : context.Reads a "success" (.bool true)) :
    Continues op line context (successfulScWrites op line index) "decision" "Atomic.SCDecision"
      a := by
  refine ⟨rfl, rfl, by simpa [successfulScWrites] using ⟨hsuccess, hid⟩, _, _, rfl, by decide, ?_⟩
  intro b hscope
  rwa [successfulScWrites, holds_onLine, apply_output (by decide : "write" ≠ "decision")] at hscope

theorem continues_of_failure {a : String} (hid : context.Carries a "op_id" op.opId) {v : Value}
    (hv : context.Reads a "success" v) (hfalse : v.truthy = false) :
    Continues op line context (failedScCompletesWithoutWrite op line index) "decision"
      "Atomic.SCDecision" a := by
  have hnot : context.Holds (RoleBinding.instantiate [("decision", a)]
      (isNot (flag "decision" "success"))) := by
    rw [holds_isNot_flag, apply_single]
    exact ⟨v, hv, hfalse⟩
  refine ⟨rfl, rfl, ?_, _, _, rfl, by decide, ?_⟩
  · simpa [failedScCompletesWithoutWrite] using ⟨hnot, hid⟩
  · intro b hscope
    simp only [failedScCompletesWithoutWrite, holds_completes,
      apply_output (by decide : "complete" ≠ "decision")] at hscope
    exact hscope.2.2

theorem continues_of_scWrite {a : String} (hid : context.Carries a "op_id" op.opId) :
    Continues op line context (successfulScCompletes op line index) "write" "Atomic.SCWrite" a := by
  refine ⟨rfl, rfl, by simpa [successfulScCompletes] using hid, _, _, rfl, by decide, ?_⟩
  intro b hscope
  simp only [successfulScCompletes, holds_completes,
    apply_output (by decide : "complete" ≠ "write")] at hscope
  exact hscope.2.2

/-- Every event of an operation in the unit has a continuation for every line. -/
theorem exists_continuation {eventType a : String} (hown : Own problem context op eventType a)
    (line : Line) (index : Nat) : ∃ rule ∈ rules op line index, ∃ role,
      Continues op line context rule role eventType a := by
  have hunit := hown.unit
  simp only [unitTypes, List.mem_cons, List.not_mem_nil, or_false] at hunit
  rcases hunit with rfl | rfl | rfl | rfl | rfl | rfl
  · exact ⟨amoReadPrecedesWrite op line index, by simp [rules], _, continues_of_read hown.id⟩
  · exact ⟨amoWriteCompletes op line index, by simp [rules], _, continues_of_write hown.id⟩
  · exact ⟨lrSetsReservation op line index, by simp [rules], _, continues_of_lrRead hown.id⟩
  · exact ⟨lrCompletion op line index, by simp [rules], _, continues_of_set hown.id⟩
  · rcases hown.settled rfl with hsuccess | ⟨v, hv, hfalse⟩
    · exact ⟨successfulScWrites op line index, by simp [rules], _, continues_of_success hown.id hsuccess⟩
    · exact ⟨failedScCompletesWithoutWrite op line index, by simp [rules], _, continues_of_failure hown.id hv hfalse⟩
  · exact ⟨successfulScCompletes op line index, by simp [rules], _, continues_of_scWrite hown.id⟩

/-- A rule that an event of the unit triggers is triggered by an event of its operation. -/
theorem own_of_triggers {rule : ModuleRule.Fields} (hrule : rule ∈ rules op line index)
    {eventType a : String} (hunit : eventType ∈ unitTypes)
    (hreservation : context.Carries a "reservation_id" op.reservationId)
    (h : Triggers problem context rule eventType a) : Own problem context op eventType a := by
  obtain ⟨hoccurring, role, hinputs, hwhen⟩ := h
  have hown : context.Carries a "op_id" op.opId →
      (eventType = "Atomic.SCDecision" → Settled context a) → Own problem context op eventType a :=
    fun hid hsettled => ⟨hunit, ⟨hoccurring, by simpa using ⟨hid, hreservation⟩⟩, hsettled⟩
  simp only [rules, List.mem_cons, List.not_mem_nil, or_false] at hrule
  rcases hrule with rfl | rfl | rfl | rfl | rfl | rfl | rfl | rfl | rfl | rfl <;> cases hinputs
  · exact absurd hunit (by decide)
  · exact hown (by simpa [amoReadPrecedesWrite] using hwhen) (fun heq => absurd heq (by decide))
  · exact hown (by simpa [amoWriteCompletes] using hwhen) (fun heq => absurd heq (by decide))
  · exact absurd hunit (by decide)
  · exact hown (by simpa [lrSetsReservation] using hwhen) (fun heq => absurd heq (by decide))
  · exact hown (by simpa [lrCompletion] using hwhen) (fun heq => absurd heq (by decide))
  · exact absurd hunit (by decide)
  · simp only [successfulScWrites, holds_allOf, List.forall_mem_cons, holds_flag, holds_fieldIs,
      apply_single] at hwhen
    exact hown hwhen.2.1 (fun _ => Or.inl hwhen.1)
  · exact hown (by simpa [successfulScCompletes] using hwhen) (fun heq => absurd heq (by decide))
  · simp only [failedScCompletesWithoutWrite, holds_allOf, List.forall_mem_cons, holds_isNot_flag,
      holds_fieldIs, apply_single] at hwhen
    exact hown hwhen.2.1 (fun _ => Or.inr hwhen.1)

/-- Lines are independent when no operation with a foreign line has an event in
the unit, and only then. -/
theorem independentLines_iff_quiet (problem : BoundedProblem) (context : EvaluationContext)
    (ops : List Op) (lines : List Line) :
    IndependentLines problem context ops lines ↔ Quiet problem context ops lines := by
  constructor
  · rintro h op hop ⟨line, hline, hforeign⟩ eventType a hown
    obtain ⟨rule, hrule, role, hcontinues⟩ := exists_continuation hown line 0
    refine h op hop line hline hforeign 0 rule hrule eventType hown.unit a ?_
      ⟨hown.showing.occurring, role, hcontinues.inputs, hcontinues.when⟩
    exact hown.showing.carries ("reservation_id", op.reservationId) (by simp)
  · intro h op hop line hline hforeign index rule hrule eventType hunit a hreservation htriggers
    exact h op hop ⟨line, hline, hforeign⟩ eventType a
      (own_of_triggers hrule hunit hreservation htriggers)

end Contexts

/-! ## Completions -/

/-- The slots of an operation name it and its line. -/
theorem fields_of_slot {op : Op} {index : Nat} {slot : EventSlot.Fields}
    (hslot : slot ∈ slots op index) :
    (Dict.ofList slot.fields).get? "op_id" = some (.value op.opId) ∧
      (Dict.ofList slot.fields).get? "reservation_id" = some (.value op.reservationId) := by
  simp only [slots, List.mem_cons, List.not_mem_nil, or_false] at hslot
  have hnodup : (slot.fields.map Prod.fst).Nodup := by
    rcases hslot with rfl | rfl | rfl | rfl | rfl | rfl | rfl | rfl | rfl | rfl <;>
      simp [completionFields]
  constructor
  · refine Dict.get?_ofList_of_mem hnodup ?_
    rcases hslot with rfl | rfl | rfl | rfl | rfl | rfl | rfl | rfl | rfl | rfl <;>
      simp [completionFields]
  · refine Dict.get?_ofList_of_mem hnodup ?_
    rcases hslot with rfl | rfl | rfl | rfl | rfl | rfl | rfl | rfl | rfl | rfl <;>
      simp [completionFields]

section Completion

variable {ops : List Op} {lines : List Line} {catalog : EventCatalog} {trace : Trace}
  {spec : CompletionSpec} {problem : BoundedProblem} {interpreter : Interpreter}
  {assignment : Dict String Value} {pre : CellStates}

/-- An event of an operation in the unit is followed by an event on every line. -/
theorem exists_following
    (h : ModuleCompletion (atomicCore ops lines) catalog trace spec problem interpreter assignment
      pre) {op : Op} (hop : op ∈ ops) {line : Line} (hline : line ∈ lines) {eventType a : String}
    (hown : Own problem (problem.context interpreter assignment) op eventType a) :
    ∃ eventType' ∈ followingTypes, ∃ b,
      Showing problem (problem.context interpreter assignment) eventType'
        [("op_id", op.opId), ("reservation_id", line.reservationId)] b := by
  obtain ⟨i, hrules⟩ := mem_rules hop hline
  obtain ⟨rule, hrule, role, hcontinues⟩ := exists_continuation hown line i
  obtain ⟨role', eventType', houtputs, hfollowing, hscope⟩ := hcontinues.outputs
  obtain ⟨b, hb, hlinks⟩ := h.forward_one (hrules rule hrule) hcontinues.mode hcontinues.inputs
    houtputs hown.showing.occurring hcontinues.when
  obtain ⟨hid, hreservation⟩ := hscope b (guards_of_link hcontinues.inputs houtputs hlinks).2
  exact ⟨eventType', hfollowing, b, hb, by simpa using ⟨hid, hreservation⟩⟩

/-- With the slots of the module alone, only operations whose line is the only
one have events in the unit. -/
theorem no_own_of_foreign_line
    (h : ModuleCompletion (atomicCore ops lines) catalog trace spec problem interpreter assignment
      pre) {horizon : Nat} (hspec : (atomicCore ops lines).alone horizon = .ok spec)
    (htrace : ∀ e ∈ trace.events, e.eventType ∉ followingTypes)
    (hops : ∀ op ∈ ops, ∀ op' ∈ ops, op.opId.key = op'.opId.key →
      op.reservationId.key = op'.reservationId.key) :
    Quiet problem (problem.context interpreter assignment) ops lines := by
  rintro op hop ⟨line, hline, hforeign⟩ eventType a hown
  obtain ⟨eventType', hfollowing, b, hb⟩ := exists_following h hop hline hown
  obtain ⟨event, hevent, htype, rfl⟩ := hb.occurring.event
  have hid := hb.carries ("op_id", op.opId) (by simp)
  have hreservation := hb.carries ("reservation_id", line.reservationId) (by simp)
  rcases h.toCompletion.origin hevent with ⟨e, he, hok⟩ | ⟨slot, hslot, hok⟩
  · obtain ⟨-, htype', -⟩ := materializePartialEvent_eq_ok hok
    refine htrace e he ?_
    rw [← htype', htype]
    exact hfollowing
  · obtain ⟨f, hf, -, -, hfields⟩ := slotsFrom_of_alone hspec slot hslot
    obtain ⟨op', line', i, hmem, hf⟩ :=
      (mem_repeatProduct (f := fun op _ index => slots op index)).mp hf
    have hop' := (mem_of_mem_product_zipIdx hmem).1
    obtain ⟨hid', hreservation'⟩ := fields_of_slot hf
    obtain ⟨-, -, hreads⟩ := h.toCompletion.filled hevent hok
    rw [hfields] at hreads
    have hsame : op.opId.key = op'.opId.key :=
      hid.unique ⟨_, hreads "op_id" _ (by decide) (by decide) hid', rfl⟩
    have hsame' : line.reservationId.key = op'.reservationId.key :=
      hreservation.unique
      ⟨_, hreads "reservation_id" _ (by decide) (by decide) hreservation', rfl⟩
    exact hforeign (hsame'.trans (hops op hop op' hop' hsame).symm)

/-- A translated AMO reads its line. -/
theorem own_of_translated
    (h : ModuleCompletion (atomicCore ops lines) catalog trace spec problem interpreter assignment
      pre) {op : Op} (hop : op ∈ ops) {line : Line} (hline : line ∈ lines)
    (hsame : line.reservationId.key = op.reservationId.key) {a : String}
    (ha : Showing problem (problem.context interpreter assignment) "Core.TranslatedMemory"
      [("mem_kind", .str "amo"), ("reservation_id", line.reservationId), ("op_id", op.opId)] a) :
    ∃ b, Own problem (problem.context interpreter assignment) op "Atomic.AMORead" b := by
  obtain ⟨i, hrules⟩ := mem_rules hop hline
  obtain ⟨b, hb, hlinks⟩ := h.forward_one (hrules (amoStartsRead op line i) (by simp [rules])) rfl
    rfl rfl ha.occurring (by simpa [amoStartsRead, translatedFor] using ha.carries)
  have hscope := (guards_of_link rfl rfl hlinks).2
  rw [amoStartsRead, holds_onLine, apply_output (by decide : "read" ≠ "translated")] at hscope
  refine ⟨b, by decide, ⟨hb, ?_⟩, fun heq => absurd heq (by decide)⟩
  simpa using ⟨hscope.1, hscope.2.congr hsame⟩

end Completion

/-! ## Runs -/

def amoOnY : Op := operation "b" "amo" "y" 1

def lineY : Line := ⟨.str "y"⟩

/-- An operation on its line. -/
def oneLine : ModuleRun where
  file := atomicCore [amoA] [lineX]
  eventTypes := atomicTypes
  events := [translated amoA "t0"]
  horizon := 12
  assignment := amoAt 0 1 2 3

/-- The same with a second operation on a new line, for any number of cycles. -/
def twoLines (horizon : Nat) : ModuleRun where
  file := atomicCore [amoA, amoOnY] [lineX, lineY]
  eventTypes := atomicTypes
  events := [translated amoA "t0", translated amoOnY "t1"]
  horizon := horizon
  assignment := ModuleRun.chosen (indexed "atomic_amo_read" 0) 1

theorem amoOnX_feasible : ∃ problem pre, oneLine.Completes .integers problem pre := by
  have haccepted : oneLine.demonstrates .integers (fun _ _ => true) = true := by decide +kernel
  obtain ⟨problem, pre, hcompletes, -⟩ := ModuleRun.exists_completion haccepted
  exact ⟨problem, pre, hcompletes⟩

/-- With the second operation there is no completion. -/
theorem twoLines_infeasible {horizon : Nat} {built : ModuleRun.Built}
    (hbuild : (twoLines horizon).build = .ok built) (interpreter : Interpreter)
    (assignment : Dict String Value) (pre : CellStates) :
    ¬ Completes built.problem interpreter assignment pre := by
  intro hcompletes
  have h := ModuleRun.completion_of_build hbuild hcompletes
  obtain ⟨hspec, -, hevents⟩ := ModuleRun.build_eq_ok hbuild
  have hmem : translated amoA "t0" ∈ (twoLines horizon).events := List.mem_cons_self
  have htranslated := ModuleRun.showing_of_event hbuild hcompletes hmem (by decide) (by decide)
  have hop : amoA ∈ [amoA, amoOnY] := List.mem_cons_self
  have hline : lineX ∈ [lineX, lineY] := List.mem_cons_self
  obtain ⟨b, hown⟩ := own_of_translated h hop hline rfl (htranslated.congr (by decide))
  refine no_own_of_foreign_line h hspec ?_ ?_ amoA (by simp)
    ⟨lineY, by simp, by decide⟩ _ b hown
  · intro e he
    obtain ⟨f, hf, hok⟩ := mapM_origin hevents he
    rw [(ModuleRun.event_eq_ok hok).2.1]
    have htype : f.eventType = "Core.TranslatedMemory" := by
      simp only [twoLines, List.mem_cons, List.not_mem_nil, or_false] at hf
      rcases hf with rfl | rfl <;> rfl
    rw [htype]
    decide
  · decide

end Atomic

end Boom

end Umcm
