import Umcm.Boom.Atomic
import Umcm.Data.Timeline

/-!
# Reservations

The valid cell of a line as a flag: a `ReservationSet` sets it, an invalidation
or a decision clears it. A decision succeeds when it finds the flag set, and its
operation writes when it succeeds.

* `success_iff_latest_sets`: outcomes of decisions from the events before them.
-/

namespace Umcm

namespace Boom

namespace Atomic

open EvaluationContext

/-! ## Events of a reservation -/

section Events

variable (problem : BoundedProblem) (context : EvaluationContext) (ops : List Op) (line : Line)

/-- An event of the type for an operation of the module and the line. -/
def ShowingOf (eventType id : String) : Prop :=
  ∃ op ∈ ops, Showing problem context eventType
    [("op_id", op.opId), ("reservation_id", line.reservationId)] id

/-- A reservation is set in the cycle. -/
def SetAt (c : Nat) : Prop :=
  ∃ id, ShowingOf problem context ops line "Atomic.ReservationSet" id ∧ context.AtCycle id c

/-- The reservation is invalidated or decided on in the cycle. -/
def ClearedAt (c : Nat) : Prop :=
  Seen problem context "Core.ReservationInvalidate" [("reservation_id", line.reservationId)] c ∨
    ∃ id, ShowingOf problem context ops line "Atomic.SCDecision" id ∧ context.AtCycle id c

/-- There are events of the reservation before the cycle, and the latest ones set it. -/
def LatestSets (c : Nat) : Prop :=
  ∃ d < c, SetAt problem context ops line d ∧ ¬ ClearedAt problem context ops line d ∧
    ∀ e, d < e → e < c → ¬ SetAt problem context ops line e ∧
      ¬ ClearedAt problem context ops line e

/-- A decision has its outcome from the latest events of the reservation, and an
operation writes when a decision of it succeeds. -/
structure DecidedByLatest : Prop where
  decision : ∀ id, ShowingOf problem context ops line "Atomic.SCDecision" id → ∃ c,
    context.AtCycle id c ∧
      (context.Carries id "success" (.bool true) ↔ LatestSets problem context ops line c)
  write : ∀ op ∈ ops,
    (∃ id, Showing problem context "Atomic.SCWrite"
      [("op_id", op.opId), ("reservation_id", line.reservationId)] id) ↔
    ∃ id, Showing problem context "Atomic.SCDecision" [("op_id", op.opId)] id ∧
      context.Reads id "success" (.bool true)

end Events

section Completion

variable {ops : List Op} {lines : List Line} {catalog : EventCatalog} {trace : Trace}
  {spec : CompletionSpec} {problem : BoundedProblem} {interpreter : Interpreter}
  {assignment : Dict String Value} {pre : CellStates}

theorem ShowingOf.carries {context : EvaluationContext} {op : Op} {line : Line}
    {eventType id : String} (h : Showing problem context eventType
      [("op_id", op.opId), ("reservation_id", line.reservationId)] id) :
    context.Carries id "op_id" op.opId ∧
      context.Carries id "reservation_id" line.reservationId :=
  ⟨h.carries ("op_id", op.opId) (by simp),
    h.carries ("reservation_id", line.reservationId) (by simp)⟩

/-- A set reservation is valid afterwards. -/
theorem valid_of_set
    (h : ModuleCompletion (atomicCore ops lines) catalog trace spec problem interpreter assignment
      pre) {line : Line} (hline : line ∈ lines) {c : Nat}
    (hset : SetAt problem (problem.context interpreter assignment) ops line c) :
    CellIs pre (c + 1) (valid line) (.bool true) := by
  obtain ⟨b, ⟨op, hop, hb⟩, hcycle⟩ := hset
  obtain ⟨hid, hon⟩ := ShowingOf.carries hb
  obtain ⟨i, hrules⟩ := mem_rules hop hline
  have hrule := hrules (lrSetsReservation op line i) (by simp [rules])
  obtain ⟨a, -, -, hlinks⟩ := cause h hrule rfl rfl rfl rfl (by decide)
    (by simp [lrSetsReservation, follows]) (by simp [lrSetsReservation, follows]) hb.occurring hid
    (by rw [lrSetsReservation, holds_onLine, apply_single]; exact ⟨hid, hon⟩)
  exact (sets_at_output h hrule rfl rfl rfl (by decide) hlinks hcycle List.mem_cons_self).2

/-- A decision finds the reservation as its outcome says and clears it. -/
theorem valid_at_decision
    (h : ModuleCompletion (atomicCore ops lines) catalog trace spec problem interpreter assignment
      pre) {line : Line} (hline : line ∈ lines) {b : String}
    (hb : ShowingOf problem (problem.context interpreter assignment) ops line "Atomic.SCDecision"
      b) :
    ∃ c ≤ spec.horizon, (problem.context interpreter assignment).AtCycle b c ∧
      CellIs pre (c + 1) (valid line) (.bool false) ∧
      ∃ v, (problem.context interpreter assignment).Reads b "success" v ∧
        CellIs pre c (valid line) v := by
  obtain ⟨op, hop, hb⟩ := hb
  obtain ⟨hid, hon⟩ := ShowingOf.carries hb
  obtain ⟨i, hrules⟩ := mem_rules hop hline
  have hrule := hrules (scChecksReservation op line i) (by simp [rules])
  obtain ⟨a, -, -, hlinks⟩ := cause h hrule rfl rfl rfl rfl (by decide)
    (by simp [scChecksReservation, follows]) (by simp [scChecksReservation, follows]) hb.occurring
    hid (by rw [scChecksReservation, holds_onLine, apply_single]; exact ⟨hid, hon⟩)
  obtain ⟨c, v, actual, hc, hcycle, hv, hactual, hcompare⟩ :=
    h.requirement hrule rfl hlinks List.mem_cons_self
  rw [anchor_output rfl rfl (by decide : "decision" ≠ "translated")] at hcycle
  have hkey : actual.key = v.key := by simpa [CompareOp.compare] using hcompare
  have hreads : (problem.context interpreter assignment).Reads b "success" v := by
    rw [Transformation.Fields.Links.binding_eq rfl rfl, flag, RoleBinding.instantiate_eventField,
      apply_output (by decide : "decision" ≠ "translated"), evaluate_eventField] at hv
    exact hv
  exact ⟨c, hc, hcycle,
    (sets_at_output h hrule rfl rfl rfl (by decide) hlinks hcycle List.mem_cons_self).2, v, hreads,
    actual, hactual, hkey⟩

/-- A cleared reservation is not valid afterwards. -/
theorem invalid_of_cleared
    (h : ModuleCompletion (atomicCore ops lines) catalog trace spec problem interpreter assignment
      pre) {line : Line} (hline : line ∈ lines) {c : Nat}
    (hcleared : ClearedAt problem (problem.context interpreter assignment) ops line c) :
    CellIs pre (c + 1) (valid line) (.bool false) := by
  rcases hcleared with ⟨b, hb, hcycle⟩ | ⟨b, hb, hcycle⟩
  · obtain ⟨i, hi⟩ := exists_mem_zipIdx hline
    have hrule : probeInvalidatesReservation line i ∈ (atomicCore ops lines).rules :=
      List.mem_append_left _ (mem_repeatOver.mpr ⟨line, i, hi, List.mem_singleton_self _⟩)
    have hon := hb.carries _ (List.mem_singleton_self _)
    have hfires := h.fires_alone hrule rfl rfl rfl hb.occurring
      (by simpa [probeInvalidatesReservation] using hon)
    obtain ⟨d, -, hdcycle, hcell⟩ := h.sets hrule rfl hfires List.mem_cons_self
    rw [Transformation.Fields.binding_single rfl rfl, apply_single] at hdcycle
    cases hdcycle.unique hcycle
    exact hcell
  · obtain ⟨d, -, hdcycle, hcell, -⟩ := valid_at_decision h hline hb
    cases hdcycle.unique hcycle
    exact hcell

/-- The valid cell of a line changes when it is set or cleared. -/
theorem set_or_cleared_of_change
    (h : ModuleCompletion (atomicCore ops lines) catalog trace spec problem interpreter assignment
      pre) {line : Line} (hline : line ∈ lines) {c : Nat} (hc : c ≤ spec.horizon)
    (hne : ¬ (CellIs pre c (valid line) (.bool true) ↔
      CellIs pre (c + 1) (valid line) (.bool true))) :
    SetAt problem (problem.context interpreter assignment) ops line c ∨
      ClearedAt problem (problem.context interpreter assignment) ops line c := by
  have hcells : ∀ line : Line, ⟨valid line, .bool, .bool false⟩ ∈ cells line := by
    intro line
    simp [cells]
  obtain ⟨rule, hrule, ins, outs, hfires, u, hu, hstate, hcycle, -⟩ :=
    h.sets_of_ne (mem_cells hline (hcells line)) hc hne
  have hsame : ∀ line' ∈ lines, valid line' = valid line → line' = line := by
    intro line' hline' heq
    exact line_of_cell h hline' hline (hcells line') (hcells line) heq
  rcases List.mem_append.mp hrule with hrule | hrule
  · obtain ⟨line', i, hmem, hrule⟩ := mem_repeatOver.mp hrule
    obtain rfl := List.mem_singleton.mp hrule
    obtain rfl := List.mem_singleton.mp hu
    obtain rfl := hsame line' (mem_of_mem_zipIdx hmem) hstate
    obtain ⟨b, rfl, rfl, hb⟩ := hfires.single rfl rfl
    have hwhen := hfires.when
    rw [Transformation.Fields.binding_single rfl rfl] at hcycle hwhen
    rw [apply_single] at hcycle
    simp only [probeInvalidatesReservation, holds_fieldIs, apply_single] at hwhen
    exact Or.inr (Or.inl ⟨b, ⟨hb, by simpa using hwhen⟩, hcycle⟩)
  · obtain ⟨op, line', i, hmem, hrule⟩ := mem_repeatProduct.mp hrule
    obtain ⟨hop, hline'⟩ := mem_of_mem_product_zipIdx hmem
    simp only [rules, List.mem_cons, List.not_mem_nil, or_false] at hrule
    rcases hrule with rfl | rfl | rfl | rfl | rfl | rfl | rfl | rfl | rfl | rfl
    · obtain rfl := List.mem_singleton.mp hu
      exact absurd hstate.symm valid_ne_busy
    · obtain rfl := List.mem_singleton.mp hu
      exact absurd hstate.symm valid_ne_busy
    · cases hu
    · cases hu
    · -- a load-reserved sets it
      obtain rfl := List.mem_singleton.mp hu
      obtain rfl := hsame line' hline' hstate
      obtain ⟨a, b, rfl, rfl, hlinks, -, hb⟩ := hfires.links rfl rfl
      rw [anchor_output rfl rfl (by decide : "set" ≠ "read")] at hcycle
      have hscope := (guards_of_link rfl rfl hlinks).2
      rw [lrSetsReservation, holds_onLine, apply_output (by decide : "set" ≠ "read")] at hscope
      exact Or.inl ⟨b, ⟨op, hop, hb, by simpa using hscope⟩, hcycle⟩
    · cases hu
    · -- a decision clears it
      obtain rfl := List.mem_singleton.mp hu
      obtain rfl := hsame line' hline' hstate
      obtain ⟨a, b, rfl, rfl, hlinks, -, hb⟩ := hfires.links rfl rfl
      rw [anchor_output rfl rfl (by decide : "decision" ≠ "translated")] at hcycle
      have hscope := (guards_of_link rfl rfl hlinks).2
      rw [scChecksReservation, holds_onLine, apply_output (by decide : "decision" ≠ "translated")]
        at hscope
      exact Or.inr (Or.inr ⟨b, ⟨op, hop, hb, by simpa using hscope⟩, hcycle⟩)
    · cases hu
    · cases hu
    · cases hu

/-- The valid cell of a line is a flag. -/
theorem valid_flag
    (h : ModuleCompletion (atomicCore ops lines) catalog trace spec problem interpreter assignment
      pre) {line : Line} (hline : line ∈ lines) :
    Timeline.Flag spec.horizon (fun c => CellIs pre c (valid line) (.bool true))
      (SetAt problem (problem.context interpreter assignment) ops line)
      (ClearedAt problem (problem.context interpreter assignment) ops line) := by
  constructor
  case start =>
    have hcell : ⟨valid line, .bool, .bool false⟩ ∈ (atomicCore ops lines).stateVariables :=
      mem_cells hline (by simp [cells])
    exact (h.starts hcell).not_true
  case set => exact fun c hset => valid_of_set h hline hset
  case clear => exact fun c hcleared => CellIs.not_true (invalid_of_cleared h hline hcleared)
  case kept =>
    intro c hc hset hcleared
    by_contra hne
    rcases set_or_cleared_of_change h hline hc (fun hiff => hne hiff.symm) with hset' | hcleared'
    · exact hset hset'
    · exact hcleared hcleared'

/-- The flag is on when the latest events of the reservation set it. -/
theorem valid_iff_latestSets
    (h : ModuleCompletion (atomicCore ops lines) catalog trace spec problem interpreter assignment
      pre) {line : Line} (hline : line ∈ lines) {c : Nat} (hc : c ≤ spec.horizon + 1) :
    CellIs pre c (valid line) (.bool true) ↔
      LatestSets problem (problem.context interpreter assignment) ops line c := by
  have hflag := valid_flag h hline
  rw [hflag.on_iff hc]
  refine exists_congr (fun d => and_congr_right (fun _ => ?_))
  constructor
  · rintro ⟨hset, hlast⟩
    exact ⟨hset, hflag.not_clear_of_set hset, hlast⟩
  · rintro ⟨hset, -, hlast⟩
    exact ⟨hset, hlast⟩

/-- A write of a store-conditional comes from a decision that succeeded. -/
theorem decision_of_write
    (h : ModuleCompletion (atomicCore ops lines) catalog trace spec problem interpreter assignment
      pre) {line : Line} (hline : line ∈ lines) {op : Op} (hop : op ∈ ops) {b : String}
    (hb : Showing problem (problem.context interpreter assignment) "Atomic.SCWrite"
      [("op_id", op.opId), ("reservation_id", line.reservationId)] b) :
    ∃ a, Showing problem (problem.context interpreter assignment) "Atomic.SCDecision"
        [("op_id", op.opId)] a ∧
      (problem.context interpreter assignment).Reads a "success" (.bool true) := by
  obtain ⟨hid, hon⟩ := ShowingOf.carries hb
  obtain ⟨i, hrules⟩ := mem_rules hop hline
  obtain ⟨a, ha, -, hlinks⟩ := cause h (hrules (successfulScWrites op line i) (by simp [rules])) rfl
    rfl rfl rfl (by decide) (by simp [successfulScWrites, follows])
    (by simp [successfulScWrites, follows]) hb.occurring hid
    (by rw [successfulScWrites, holds_onLine, apply_single]; exact ⟨hid, hon⟩)
  have hwhen := (guards_of_link rfl rfl hlinks).1
  simp only [successfulScWrites, holds_allOf, List.forall_mem_cons, holds_flag, apply_input]
    at hwhen
  exact ⟨a, ha, hwhen.1⟩

/-- A decision that succeeds is followed by a write. -/
theorem write_of_decision
    (h : ModuleCompletion (atomicCore ops lines) catalog trace spec problem interpreter assignment
      pre) {line : Line} (hline : line ∈ lines) {op : Op} (hop : op ∈ ops) {a : String}
    (ha : Showing problem (problem.context interpreter assignment) "Atomic.SCDecision"
      [("op_id", op.opId)] a)
    (hsuccess : (problem.context interpreter assignment).Reads a "success" (.bool true)) :
    ∃ b, Showing problem (problem.context interpreter assignment) "Atomic.SCWrite"
      [("op_id", op.opId), ("reservation_id", line.reservationId)] b := by
  obtain ⟨i, hrules⟩ := mem_rules hop hline
  obtain ⟨b, hb, hlinks⟩ := h.forward_one (hrules (successfulScWrites op line i) (by simp [rules]))
    rfl rfl rfl ha.occurring
    (by simpa [successfulScWrites] using ⟨hsuccess, ha.carries _ (List.mem_singleton_self _)⟩)
  have hscope := (guards_of_link rfl rfl hlinks).2
  rw [successfulScWrites, holds_onLine, apply_output (by decide : "write" ≠ "decision")] at hscope
  exact ⟨b, hb, by simpa using hscope⟩

/-- Decisions succeed when the latest events of the reservation set it, and
operations write when their decisions succeed. -/
theorem success_iff_latest_sets
    (h : ModuleCompletion (atomicCore ops lines) catalog trace spec problem interpreter assignment
      pre) {line : Line} (hline : line ∈ lines) :
    DecidedByLatest problem (problem.context interpreter assignment) ops line := by
  constructor
  case decision =>
    intro id hid
    obtain ⟨c, hc, hcycle, -, v, hv, hcell⟩ := valid_at_decision h hline hid
    refine ⟨c, hcycle, ?_⟩
    rw [← valid_iff_latestSets h hline (Nat.le_succ_of_le hc)]
    constructor
    · rintro ⟨w, hw, hkey⟩
      rw [hv.unique hw] at hcell
      exact hcell.congr hkey
    · intro hvalid
      exact ⟨v, hv, hcell.unique hvalid⟩
  case write =>
    intro op hop
    constructor
    · rintro ⟨id, hid⟩
      exact decision_of_write h hline hop hid
    · rintro ⟨id, hid, hsuccess⟩
      exact write_of_decision h hline hop hid hsuccess

end Completion

/-! ## Runs -/

def lrA : Op := operation "a" "lr" "x" 0

def scB : Op := operation "b" "sc" "x" 1

/-- A load-reserved sets the reservation in cycle 2, a store-conditional decides
in cycle 3. -/
def reserved : ModuleRun where
  file := atomicCore [lrA, scB] [lineX]
  eventTypes := atomicTypes
  events := [translated lrA "t0", translated scB "t1"]
  horizon := 12
  assignment := idle 0 (amoStems ++ scStems) ++
    ModuleRun.chosen (indexed "atomic_lr_read" 0) 1 ++
    ModuleRun.chosen (indexed "reservation_set" 0) 2 ++
    ModuleRun.chosen (indexed "atomic_complete_lr" 0) 3 ++
    idle 1 (amoStems ++ lrStems ++ ["atomic_complete_sc_fail"]) ++
    ModuleRun.chosen (indexed "atomic_sc_decision" 1) 3 ++
    [("atomic::b::sc_success", .bool true)] ++
    ModuleRun.chosen (indexed "atomic_sc_write" 1) 4 ++
    ModuleRun.chosen (indexed "atomic_complete_sc_success" 1) 5

theorem reserved_success : ∃ problem pre, reserved.Completes .integers problem pre ∧
    DecidedByLatest problem (problem.context .integers (.ofList reserved.assignment))
      [lrA, scB] lineX ∧
    (∃ id, ShowingOf problem (problem.context .integers (.ofList reserved.assignment))
        [lrA, scB] lineX "Atomic.SCDecision" id ∧
      (problem.context .integers (.ofList reserved.assignment)).Carries id "success"
        (.bool true)) := by
  have haccepted : reserved.demonstrates .integers (fun problem context =>
      problem.events.any (shows context "Atomic.SCDecision"
        [("op_id", scB.opId), ("reservation_id", lineX.reservationId),
          ("success", .bool true)])) = true := by
    decide +kernel
  obtain ⟨problem, pre, ⟨catalog, trace, spec, h⟩, htest⟩ := ModuleRun.exists_completion haccepted
  obtain ⟨event, hevent, hshows⟩ := List.any_eq_true.mp htest
  have hshowing := showing_iff.mpr ⟨event, hevent, hshows, rfl⟩
  refine ⟨problem, pre, ⟨catalog, trace, spec, h⟩,
    success_iff_latest_sets h (List.mem_singleton_self lineX), event.id, ⟨scB, by simp, ?_⟩, ?_⟩
  · exact hshowing.congr (by decide)
  · exact hshowing.carries ("success", .bool true) (by simp)

end Atomic

end Boom

end Umcm
