import Umcm.Boom.Rob
import Umcm.Data.Timeline

/-!
# Retirement

The flags of a reorder-buffer entry are set by the events of its operation and
never cleared. Commits and precise exceptions wait for the commits of older
operations; a squash checks no flag, so it can hit an operation that has
committed.

* `retiresInOrder`: older operations have committed before.
* `exclusive_iff_uncommitted`: no operation commits and is cancelled when
  cancellations find it uncommitted.
-/

namespace Umcm

namespace Boom

namespace Rob

open EvaluationContext

/-- The event that sets a flag of an entry. -/
def eventOf (field : String) : String :=
  if field = "allocated" then "ROB.Allocate"
  else if field = "completed" then "ROB.Writeback"
  else if field = "faulted" then "ROB.ExceptionRecord"
  else if field = "squashed" then "Core.SquashMemory"
  else "ROB.Commit"

section Events

variable (problem : BoundedProblem) (context : EvaluationContext)

/-- An event of the type for the operation in the cycle. -/
def HappensAt (eventType : String) (op : Op) (c : Nat) : Prop :=
  Seen problem context eventType [("op_id", op.opId)] c

/-- The event has the operation, the hart and the place of the operation. -/
def identity (op : Op) : List (String × Value) :=
  [("op_id", op.opId), ("hart", op.hart), ("program_index", op.programIndex)]

/-- The first operation comes before the second on the same hart. -/
structure Older (older target : Op) : Prop where
  hart : older.hart.key = target.hart.key
  index : older.programIndex.pyLt target.programIndex = .ok true

/-- When an operation commits or raises its exception, older operations have
committed in earlier cycles. -/
def RetiresInOrder (ops : List Op) : Prop :=
  ∀ target ∈ ops, ∀ older ∈ ops, Older older target → ∀ c,
    Seen problem context "ROB.Commit" (identity target) c ∨
      Seen problem context "ROB.PreciseException" (identity target) c →
    ∃ d < c, HappensAt problem context "ROB.Commit" older d

/-- An operation that commits has no precise exception and no squash. -/
def CommitsOrCancels (ops : List Op) : Prop :=
  ∀ op ∈ ops, (∃ id, Showing problem context "ROB.Commit" [("op_id", op.opId)] id) →
    (¬ ∃ id, Showing problem context "ROB.PreciseException" [("op_id", op.opId)] id) ∧
      ¬ ∃ id, Showing problem context "Core.SquashMemory" [("op_id", op.opId)] id

/-- Exceptions and squashes find their operation uncommitted, and it does not
commit in the cycle of a squash. -/
structure CancelsUncommitted (pre : CellStates) (ops : List Op) : Prop where
  exception : ∀ op ∈ ops, ∀ c, HappensAt problem context "ROB.PreciseException" op c →
    ¬ CellIs pre c (entry op "committed") (.bool true)
  squash : ∀ op ∈ ops, ∀ c, HappensAt problem context "Core.SquashMemory" op c →
    ¬ CellIs pre c (entry op "committed") (.bool true) ∧
      ¬ HappensAt problem context "ROB.Commit" op c

end Events

section Completion

variable {ops : List Op} {branches : List Branch} {catalog : EventCatalog} {trace : Trace}
  {spec : CompletionSpec} {problem : BoundedProblem} {interpreter : Interpreter}
  {assignment : Dict String Value} {pre : CellStates}

theorem mem_rules {op : Op} (hop : op ∈ ops) :
    ∃ i, ∀ rule ∈ rules op i, rule ∈ (robCore ops branches).rules := by
  obtain ⟨i, hi⟩ := exists_mem_zipIdx hop
  exact ⟨i, fun rule hrule => List.mem_append_left _
    (List.mem_append_left _ (mem_repeatOver.mpr ⟨op, i, hi, hrule⟩))⟩

theorem mem_orderRules {older target : Op} (holder : older ∈ ops) (htarget : target ∈ ops) :
    ∃ i, ∀ rule ∈ orderRules older target i, rule ∈ (robCore ops branches).rules := by
  obtain ⟨i, hi⟩ := exists_mem_product_zipIdx holder htarget
  exact ⟨i, fun rule hrule => List.mem_append_left _
    (List.mem_append_right _ (mem_repeatProduct.mpr ⟨older, target, i, hi, hrule⟩))⟩

theorem mem_cells {op : Op} (hop : op ∈ ops) {field : String} (hfield : field ∈ entryFields) :
    ⟨entry op field, .bool, .bool false⟩ ∈ (robCore ops branches).stateVariables := by
  obtain ⟨i, hi⟩ := exists_mem_zipIdx hop
  exact (mem_repeatOver (f := fun op _ => cells op)).mpr ⟨op, i, hi, List.mem_map_of_mem hfield⟩

theorem entryFields_dotless {field : String} (hfield : field ∈ entryFields) :
    '.' ∉ field.toList := by
  revert field
  decide

/-- A cell has one operation and one field. -/
theorem eq_of_entry
    (h : ModuleCompletion (robCore ops branches) catalog trace spec problem interpreter assignment
      pre) {op op' : Op} (hop : op ∈ ops) (hop' : op' ∈ ops) {field field' : String}
    (hfield : field ∈ entryFields) (hfield' : field' ∈ entryFields)
    (heq : entry op field = entry op' field') : op = op' ∧ field = field' := by
  obtain ⟨i, hi⟩ := exists_mem_zipIdx hop
  obtain ⟨j, hj⟩ := exists_mem_zipIdx hop'
  have hops := eq_of_mem_repeatOver (f := fun op _ => cells op) h.cells_nodup hi hj
    (List.mem_map_of_mem hfield) (List.mem_map_of_mem hfield') heq
  exact ⟨hops.1, field_of_cellOf (entryFields_dotless hfield) (entryFields_dotless hfield') heq⟩

/-- The output of a firing for an operation is an event of the operation. -/
theorem happens_of_output {context : EvaluationContext} {rule : ModuleRule.Fields} {op : Op}
    {role eventType : String} (houtputs : rule.outputs = [(role, eventType)])
    (hrole : role ∉ rule.inputs.map Prod.fst) (hscope : rule.outputWhen = ofOp op role)
    {ins outs : List String} (hfires : rule.Fires problem context ins outs) {c : Nat}
    (hcycle : context.AtCycle ((rule.binding (ins ++ outs)).apply role) c) :
    HappensAt problem context eventType op c := by
  have hout := hfires.outputs
  rw [houtputs] at hout
  obtain ⟨b, rfl, hb⟩ := Transformation.Fields.eq_singleton hout
  have hanchor := anchor_of_output hfires houtputs hrole
  have hwhen := hfires.outputWhen
  rw [hscope, ofOp, holds_fieldIs, hanchor] at hwhen
  rw [hanchor] at hcycle
  exact ⟨b, ⟨hb, by simpa using hwhen⟩, hcycle⟩

/-- A flag changes because of the event that sets it. -/
theorem happens_of_change
    (h : ModuleCompletion (robCore ops branches) catalog trace spec problem interpreter assignment
      pre) {op : Op} (hop : op ∈ ops) {field : String} (hfield : field ∈ entryFields) {c : Nat}
    (hc : c ≤ spec.horizon)
    (hne : ¬ (CellIs pre c (entry op field) (.bool true) ↔
      CellIs pre (c + 1) (entry op field) (.bool true))) :
    HappensAt problem (problem.context interpreter assignment) (eventOf field) op c := by
  obtain ⟨rule, hrule, ins, outs, hfires, u, hu, hstate, hcycle, -⟩ :=
    h.sets_of_ne (mem_cells hop hfield) hc hne
  rcases List.mem_append.mp hrule with hrule | hrule
  rcases List.mem_append.mp hrule with hrule | hrule
  · obtain ⟨op', i, hmem, hrule⟩ := mem_repeatOver.mp hrule
    have hop' := mem_of_mem_zipIdx hmem
    simp only [rules, List.mem_cons, List.not_mem_nil, or_false] at hrule
    rcases hrule with rfl | rfl | rfl | rfl | rfl | rfl
    · obtain rfl := List.mem_singleton.mp hu
      obtain ⟨rfl, rfl⟩ := eq_of_entry h hop' hop (by decide) hfield hstate
      exact happens_of_output rfl (by simp [robAllocatesMemoryOp]) rfl hfires hcycle
    · obtain rfl := List.mem_singleton.mp hu
      obtain ⟨rfl, rfl⟩ := eq_of_entry h hop' hop (by decide) hfield hstate
      exact happens_of_output rfl (by simp [robCapturesCompletion]) rfl hfires hcycle
    · obtain rfl := List.mem_singleton.mp hu
      obtain ⟨rfl, rfl⟩ := eq_of_entry h hop' hop (by decide) hfield hstate
      exact happens_of_output rfl (by simp [robCommitsCompletedOp]) rfl hfires hcycle
    · obtain rfl := List.mem_singleton.mp hu
      obtain ⟨rfl, rfl⟩ := eq_of_entry h hop' hop (by decide) hfield hstate
      exact happens_of_output rfl (by simp [robRecordsMemoryFault]) rfl hfires hcycle
    · cases hu
    · obtain rfl := List.mem_singleton.mp hu
      obtain ⟨rfl, rfl⟩ := eq_of_entry h hop' hop (by decide) hfield hstate
      obtain ⟨b, rfl, rfl, hb⟩ := hfires.single rfl rfl
      have hwhen := hfires.when
      rw [Transformation.Fields.binding_single rfl rfl] at hcycle hwhen
      rw [apply_single] at hcycle
      simp only [squashMarksEntry, ofOp, holds_fieldIs, apply_single] at hwhen
      exact ⟨b, ⟨hb, by simpa using hwhen⟩, hcycle⟩
  · -- the rules of the order write nothing
    obtain ⟨older, target, i, -, hrule⟩ := mem_repeatProduct.mp hrule
    simp only [orderRules, List.mem_cons, List.not_mem_nil, or_false] at hrule
    rcases hrule with rfl | rfl | rfl <;> cases hu
  · obtain ⟨branch, victim, i, -, hrule⟩ := mem_repeatProduct.mp hrule
    simp only [branchRules, List.mem_cons, List.not_mem_nil, or_false] at hrule
    rcases hrule with rfl | rfl <;> cases hu

/-- An event of the operation that an exact rule gives comes from a firing. -/
theorem exists_firing
    (h : ModuleCompletion (robCore ops branches) catalog trace spec problem interpreter assignment
      pre) {rule : ModuleRule.Fields} (hrule : rule ∈ (robCore ops branches).rules)
    (hmode : rule.stateMode = .require) (hexact : rule.isExact = true) {op : Op}
    {role eventType : String} (houtputs : rule.outputs = [(role, eventType)])
    (hscope : rule.outputWhen = ofOp op role) {b : String}
    (hb : Showing problem (problem.context interpreter assignment) eventType [("op_id", op.opId)]
      b) :
    ∃ ins, rule.Fires problem (problem.context interpreter assignment) ins [b] := by
  refine h.support hrule hmode hexact (by rw [houtputs]; exact .cons hb.occurring .nil)
    (List.nodup_singleton b) ?_
  rw [Transformation.Fields.outputBinding, houtputs, hscope, ofOp]
  simpa using hb.carries

/-- A commit finds its operation neither faulted nor squashed and leaves it committed. -/
theorem flags_of_commit
    (h : ModuleCompletion (robCore ops branches) catalog trace spec problem interpreter assignment
      pre) {op : Op} (hop : op ∈ ops) {b : String}
    (hb : Showing problem (problem.context interpreter assignment) "ROB.Commit"
      [("op_id", op.opId)] b) :
    ∃ c ≤ spec.horizon, (problem.context interpreter assignment).AtCycle b c ∧
      CellIs pre c (entry op "faulted") (.bool false) ∧
      CellIs pre c (entry op "squashed") (.bool false) ∧
      CellIs pre (c + 1) (entry op "committed") (.bool true) := by
  obtain ⟨i, hrules⟩ := mem_rules hop
  have hrule := hrules (robCommitsCompletedOp op i) (by simp [rules])
  obtain ⟨ins, hfires⟩ := exists_firing h hrule rfl rfl rfl rfl hb
  have hanchor := anchor_of_output hfires rfl (by simp [robCommitsCompletedOp])
  have hunfaulted : ⟨entry op "faulted", "commit", .eq, isFalse⟩ ∈
      (robCommitsCompletedOp op i).stateRequirements := by simp [robCommitsCompletedOp]
  have hunsquashed : ⟨entry op "squashed", "commit", .eq, isFalse⟩ ∈
      (robCommitsCompletedOp op i).stateRequirements := by simp [robCommitsCompletedOp]
  obtain ⟨c, hc, hcycle, hfaulted⟩ := h.requires hrule rfl hfires hunfaulted
  obtain ⟨d, -, hcycle', hsquashed⟩ := h.requires hrule rfl hfires hunsquashed
  obtain ⟨e, -, hcycle'', hcommitted⟩ := h.sets hrule rfl hfires List.mem_cons_self
  rw [hanchor] at hcycle hcycle' hcycle''
  cases hcycle.unique hcycle'
  cases hcycle.unique hcycle''
  exact ⟨c, hc, hcycle, hfaulted, hsquashed, hcommitted⟩

/-- A recorded fault leaves its operation faulted. -/
theorem faulted_of_record
    (h : ModuleCompletion (robCore ops branches) catalog trace spec problem interpreter assignment
      pre) {op : Op} (hop : op ∈ ops) {c : Nat}
    (hrecord : HappensAt problem (problem.context interpreter assignment) "ROB.ExceptionRecord" op
      c) :
    CellIs pre (c + 1) (entry op "faulted") (.bool true) := by
  obtain ⟨b, hb, hcycle⟩ := hrecord
  obtain ⟨i, hrules⟩ := mem_rules hop
  have hrule := hrules (robRecordsMemoryFault op i) (by simp [rules])
  obtain ⟨ins, hfires⟩ := exists_firing h hrule rfl rfl rfl rfl hb
  obtain ⟨d, -, hdcycle, hfaulted⟩ := h.sets hrule rfl hfires List.mem_cons_self
  rw [anchor_of_output hfires rfl (by simp [robRecordsMemoryFault])] at hdcycle
  cases hdcycle.unique hcycle
  exact hfaulted

/-- A squash leaves its operation squashed. -/
theorem squashed_of_squash
    (h : ModuleCompletion (robCore ops branches) catalog trace spec problem interpreter assignment
      pre) {op : Op} (hop : op ∈ ops) {b : String}
    (hb : Showing problem (problem.context interpreter assignment) "Core.SquashMemory"
      [("op_id", op.opId)] b) :
    ∃ c ≤ spec.horizon, (problem.context interpreter assignment).AtCycle b c ∧
      CellIs pre (c + 1) (entry op "squashed") (.bool true) := by
  obtain ⟨i, hrules⟩ := mem_rules hop
  have hrule := hrules (squashMarksEntry op i) (by simp [rules])
  have hfires := h.fires_alone hrule rfl rfl rfl hb.occurring
    (by simpa [squashMarksEntry, ofOp] using hb.carries)
  obtain ⟨c, hc, hcycle, hsquashed⟩ := h.sets hrule rfl hfires List.mem_cons_self
  rw [Transformation.Fields.binding_single rfl rfl, apply_single] at hcycle
  exact ⟨c, hc, hcycle, hsquashed⟩

/-- A flag that its event sets is never cleared. -/
theorem entry_flag
    (h : ModuleCompletion (robCore ops branches) catalog trace spec problem interpreter assignment
      pre) {op : Op} (hop : op ∈ ops) {field : String} (hfield : field ∈ entryFields)
    (hset : ∀ c, HappensAt problem (problem.context interpreter assignment) (eventOf field) op c →
      CellIs pre (c + 1) (entry op field) (.bool true)) :
    Timeline.Flag spec.horizon (fun c => CellIs pre c (entry op field) (.bool true))
      (HappensAt problem (problem.context interpreter assignment) (eventOf field) op)
      (fun _ => False) := by
  constructor
  case start => exact (h.starts (mem_cells hop hfield)).not_true
  case set => exact hset
  case clear => exact fun c hclear => hclear.elim
  case kept =>
    intro c hc hnone _
    by_contra hne
    exact hnone (happens_of_change h hop hfield hc (fun hiff => hne hiff.symm))

/-- An operation is committed before a cycle when it has a commit at an earlier one. -/
theorem committed_iff
    (h : ModuleCompletion (robCore ops branches) catalog trace spec problem interpreter assignment
      pre) {op : Op} (hop : op ∈ ops) {c : Nat} (hc : c ≤ spec.horizon + 1) :
    CellIs pre c (entry op "committed") (.bool true) ↔
      ∃ d < c, HappensAt problem (problem.context interpreter assignment) "ROB.Commit" op d := by
  refine (entry_flag h hop (by decide) ?_).on_iff_exists hc
  rintro d ⟨b, hb, hcycle⟩
  obtain ⟨e, -, hecycle, -, -, hcommitted⟩ := flags_of_commit h hop hb
  cases hecycle.unique hcycle
  exact hcommitted

theorem squashed_iff
    (h : ModuleCompletion (robCore ops branches) catalog trace spec problem interpreter assignment
      pre) {op : Op} (hop : op ∈ ops) {c : Nat} (hc : c ≤ spec.horizon + 1) :
    CellIs pre c (entry op "squashed") (.bool true) ↔
      ∃ d < c, HappensAt problem (problem.context interpreter assignment) "Core.SquashMemory" op
        d := by
  refine (entry_flag h hop (by decide) ?_).on_iff_exists hc
  rintro d ⟨b, hb, hcycle⟩
  obtain ⟨e, -, hecycle, hsquashed⟩ := squashed_of_squash h hop hb
  cases hecycle.unique hcycle
  exact hsquashed

theorem faulted_iff
    (h : ModuleCompletion (robCore ops branches) catalog trace spec problem interpreter assignment
      pre) {op : Op} (hop : op ∈ ops) {c : Nat} (hc : c ≤ spec.horizon + 1) :
    CellIs pre c (entry op "faulted") (.bool true) ↔
      ∃ d < c, HappensAt problem (problem.context interpreter assignment) "ROB.ExceptionRecord" op
        d :=
  (entry_flag h hop (by decide) (fun _ hrecord => faulted_of_record h hop hrecord)).on_iff_exists hc

theorem pyLt_congr {u v w : Value} (h : u.pyLt v = .ok true) (hkey : w.key = v.key) :
    u.pyLt w = .ok true := by
  rw [pyLt_eq_true] at h ⊢
  rwa [hkey]

theorem holds_ofYounger {context : EvaluationContext} {older target : Op}
    (holder : Older older target) {eventType role b : String}
    (hb : Showing problem context eventType (identity target) b) :
    context.Holds (RoleBinding.instantiate [(role, b)] (ofYounger older target role)) := by
  have hid := hb.carries ("op_id", target.opId) (by simp [identity])
  have hhart := hb.carries ("hart", target.hart) (by simp [identity])
  obtain ⟨w, hw, hkey⟩ := hb.carries ("program_index", target.programIndex) (by simp [identity])
  rw [ofYounger, holds_allOf]
  simp only [List.forall_mem_cons, List.not_mem_nil, false_imp_iff, implies_true, and_true]
  refine ⟨by simpa [ofOp] using hid, ?_, ?_⟩
  · rw [holds_fieldIs, apply_single]
    exact hhart.congr holder.hart.symm
  · rw [RoleBinding.instantiate_binary, RoleBinding.instantiate_literal,
      RoleBinding.instantiate_eventField, apply_single, holds_lt, evaluate_eventField,
      evaluate_literal]
    exact ⟨_, w, rfl, hw, pyLt_congr holder.index hkey⟩

/-- Commits and precise exceptions find older operations committed. -/
theorem committed_of_younger
    (h : ModuleCompletion (robCore ops branches) catalog trace spec problem interpreter assignment
      pre) {older target : Op} (holder : older ∈ ops) (htarget : target ∈ ops)
    (hbefore : Older older target) {c : Nat}
    (hretires : Seen problem (problem.context interpreter assignment) "ROB.Commit"
        (identity target) c ∨
      Seen problem (problem.context interpreter assignment) "ROB.PreciseException"
        (identity target) c) :
    c ≤ spec.horizon ∧ CellIs pre c (entry older "committed") (.bool true) := by
  obtain ⟨i, hrules⟩ := @mem_orderRules _ branches _ _ holder htarget
  rcases hretires with ⟨b, hb, hcycle⟩ | ⟨b, hb, hcycle⟩
  · have hrule := hrules (commitWaitsForOlder older target i) (by simp [orderRules])
    have hfires := h.fires_alone hrule rfl rfl rfl hb.occurring (holds_ofYounger hbefore hb)
    obtain ⟨d, hd, hdcycle, hcommitted⟩ := h.requires hrule rfl hfires List.mem_cons_self
    rw [Transformation.Fields.binding_single rfl rfl, apply_single] at hdcycle
    cases hdcycle.unique hcycle
    exact ⟨hd, hcommitted⟩
  · have hrule := hrules (preciseExceptionWaitsForOlder older target i) (by simp [orderRules])
    have hfires := h.fires_alone hrule rfl rfl rfl hb.occurring (holds_ofYounger hbefore hb)
    obtain ⟨d, hd, hdcycle, hcommitted⟩ := h.requires hrule rfl hfires List.mem_cons_self
    rw [Transformation.Fields.binding_single rfl rfl, apply_single] at hdcycle
    cases hdcycle.unique hcycle
    exact ⟨hd, hcommitted⟩

/-- Retirement is in program order and precise. -/
theorem retiresInOrder
    (h : ModuleCompletion (robCore ops branches) catalog trace spec problem interpreter assignment
      pre) : RetiresInOrder problem (problem.context interpreter assignment) ops := by
  intro target htarget older holder hbefore c hretires
  obtain ⟨hc, hcommitted⟩ := committed_of_younger h holder htarget hbefore hretires
  exact (committed_iff h holder (Nat.le_succ_of_le hc)).mp hcommitted

/-- A precise exception finds its operation faulted. -/
theorem faulted_of_exception
    (h : ModuleCompletion (robCore ops branches) catalog trace spec problem interpreter assignment
      pre) {op : Op} (hop : op ∈ ops) {b : String}
    (hb : Showing problem (problem.context interpreter assignment) "ROB.PreciseException"
      [("op_id", op.opId)] b) :
    ∃ c ≤ spec.horizon, (problem.context interpreter assignment).AtCycle b c ∧
      CellIs pre c (entry op "faulted") (.bool true) := by
  obtain ⟨i, hrules⟩ := mem_rules hop
  have hrule := hrules (robRaisesPreciseException op i) (by simp [rules])
  obtain ⟨ins, hfires⟩ := exists_firing h hrule rfl rfl rfl rfl hb
  obtain ⟨c, hc, hcycle, hfaulted⟩ := h.requires hrule rfl hfires List.mem_cons_self
  rw [anchor_of_output hfires rfl (by simp [robRaisesPreciseException])] at hcycle
  exact ⟨c, hc, hcycle, hfaulted⟩

/-- An exception of an operation that commits comes after the commit. -/
theorem commit_before_exception
    (h : ModuleCompletion (robCore ops branches) catalog trace spec problem interpreter assignment
      pre) {op : Op} (hop : op ∈ ops) {c d : Nat} (hd : d ≤ spec.horizon)
    (hunfaulted : CellIs pre c (entry op "faulted") (.bool false)) (hc : c ≤ spec.horizon)
    (hfaulted : CellIs pre d (entry op "faulted") (.bool true)) : c < d := by
  obtain ⟨e, he, hrecord⟩ := (faulted_iff h hop (Nat.le_succ_of_le hd)).mp hfaulted
  by_contra hnot
  refine hunfaulted.not_true ((faulted_iff h hop (Nat.le_succ_of_le hc)).mpr ⟨e, ?_, hrecord⟩)
  omega

/-- An operation that commits has no precise exception as long as exceptions
find their operation uncommitted. -/
theorem no_exception_of_commit
    (h : ModuleCompletion (robCore ops branches) catalog trace spec problem interpreter assignment
      pre)
    (hcancels : CancelsUncommitted problem (problem.context interpreter assignment) pre ops)
    {op : Op} (hop : op ∈ ops) {b : String}
    (hb : Showing problem (problem.context interpreter assignment) "ROB.Commit"
      [("op_id", op.opId)] b) :
    ¬ ∃ id, Showing problem (problem.context interpreter assignment) "ROB.PreciseException"
      [("op_id", op.opId)] id := by
  rintro ⟨p, hp⟩
  obtain ⟨c, hc, hcycle, hunfaulted, -, -⟩ := flags_of_commit h hop hb
  obtain ⟨d, hd, hdcycle, hfaulted⟩ := faulted_of_exception h hop hp
  have hcd := commit_before_exception h hop hd hunfaulted hc hfaulted
  exact hcancels.exception op hop d ⟨p, hp, hdcycle⟩
    ((committed_iff h hop (Nat.le_succ_of_le hd)).mpr ⟨c, hcd, b, hb, hcycle⟩)

/-- Neither has it a squash: an earlier one stops the commit, a later one finds
the operation committed. -/
theorem no_squash_of_commit
    (h : ModuleCompletion (robCore ops branches) catalog trace spec problem interpreter assignment
      pre)
    (hcancels : CancelsUncommitted problem (problem.context interpreter assignment) pre ops)
    {op : Op} (hop : op ∈ ops) {b : String}
    (hb : Showing problem (problem.context interpreter assignment) "ROB.Commit"
      [("op_id", op.opId)] b) :
    ¬ ∃ id, Showing problem (problem.context interpreter assignment) "Core.SquashMemory"
      [("op_id", op.opId)] id := by
  rintro ⟨q, hq⟩
  obtain ⟨c, hc, hcycle, -, hunsquashed, -⟩ := flags_of_commit h hop hb
  obtain ⟨d, hd, hdcycle, -⟩ := squashed_of_squash h hop hq
  have hcommit : HappensAt problem (problem.context interpreter assignment) "ROB.Commit" op c :=
    ⟨b, hb, hcycle⟩
  have hsquash : HappensAt problem (problem.context interpreter assignment) "Core.SquashMemory"
      op d := ⟨q, hq, hdcycle⟩
  obtain ⟨huncommitted, hapart⟩ := hcancels.squash op hop d hsquash
  rcases Nat.lt_trichotomy d c with hlt | rfl | hlt
  · exact hunsquashed.not_true
      ((squashed_iff h hop (Nat.le_succ_of_le hc)).mpr ⟨d, hlt, hsquash⟩)
  · exact hapart hcommit
  · exact huncommitted ((committed_iff h hop (Nat.le_succ_of_le hd)).mpr ⟨c, hlt, hcommit⟩)

/-- Commits and cancellations exclude each other when cancellations find their
operation uncommitted. -/
theorem exclusive_iff_uncommitted
    (h : ModuleCompletion (robCore ops branches) catalog trace spec problem interpreter assignment
      pre) :
    CommitsOrCancels problem (problem.context interpreter assignment) ops ↔
      CancelsUncommitted problem (problem.context interpreter assignment) pre ops := by
  constructor
  · intro hexclusive
    constructor
    case exception =>
      rintro op hop c ⟨p, hp, hcycle⟩ hcommitted
      obtain ⟨d, hd, hdcycle, -⟩ := faulted_of_exception h hop hp
      cases hdcycle.unique hcycle
      obtain ⟨e, -, b, hb, -⟩ := (committed_iff h hop (Nat.le_succ_of_le hd)).mp hcommitted
      exact (hexclusive op hop ⟨b, hb⟩).1 ⟨p, hp⟩
    case squash =>
      rintro op hop c ⟨q, hq, hcycle⟩
      obtain ⟨d, hd, hdcycle, -⟩ := squashed_of_squash h hop hq
      cases hdcycle.unique hcycle
      constructor
      · intro hcommitted
        obtain ⟨e, -, b, hb, -⟩ := (committed_iff h hop (Nat.le_succ_of_le hd)).mp hcommitted
        exact (hexclusive op hop ⟨b, hb⟩).2 ⟨q, hq⟩
      · rintro ⟨b, hb, -⟩
        exact (hexclusive op hop ⟨b, hb⟩).2 ⟨q, hq⟩
  · rintro hcancels op hop ⟨b, hb⟩
    exact ⟨no_exception_of_commit h hcancels hop hb, no_squash_of_commit h hcancels hop hb⟩

end Completion

/-! ## Runs -/

def operation (opId : String) (index : Int) : Op where
  opId := .str opId
  hart := .int 0
  programIndex := .int index
  robIdx := .int index
  memKind := .str "store"
  address := .int 4096
  writeValue := .int 1
  byteMask := .int 15

/-- The operation enters the core in cycle 0. -/
def entering (op : Op) (id : String) : EventFields where
  id := id
  eventType := "Core.MemoryInstruction"
  cycle := 0
  fields :=
    [("op_id", op.opId), ("hart", op.hart), ("program_index", op.programIndex),
      ("rob_idx", op.robIdx), ("mem_kind", op.memKind), ("vaddr", op.address),
      ("address", op.address), ("vpn", .int 1), ("value", .int 0),
      ("write_value", op.writeValue), ("byte_mask", op.byteMask), ("cacheable", .bool true),
      ("io_id", .int 0), ("reservation_id", .str "none"), ("uses_tlb", .bool true),
      ("execution_class", .str "cacheable")]

def completing (op : Op) (id : String) (cycle : Nat) : EventFields where
  id := id
  eventType := "Core.MemoryComplete"
  cycle := cycle
  fields :=
    [("op_id", op.opId), ("hart", op.hart), ("program_index", op.programIndex),
      ("rob_idx", op.robIdx), ("mem_kind", op.memKind), ("address", op.address),
      ("value", .int 0), ("write_value", op.writeValue), ("byte_mask", op.byteMask),
      ("success", .bool true)]

def faulting (op : Op) (id : String) (cycle : Nat) : EventFields where
  id := id
  eventType := "Core.MemoryFault"
  cycle := cycle
  fields :=
    [("op_id", op.opId), ("hart", op.hart), ("program_index", op.programIndex),
      ("rob_idx", op.robIdx), ("vpn", .int 1), ("cause", .str "page_fault")]

def slotStems : List String :=
  ["rob_allocate", "rob_writeback", "rob_exception_record", "rob_commit",
    "rob_precise_exception", "rob_exception_squash", "rob_branch_squash", "rob_branch_kill"]

/-- The slots of an operation that occur, in these cycles; its other slots do not. -/
def slotsAt (index : Nat) (cycles : List (String × Nat)) : List (String × Value) :=
  slotStems.flatMap (fun stem => match cycles.lookup stem with
    | some c => ModuleRun.chosen (indexed stem index) c
    | none => ModuleRun.skipped (indexed stem index))

/-- The value and the success of the operation. -/
def outcome (opId : String) (success : Bool) : List (String × Value) :=
  [(s!"rob::{opId}::value", .int 0), (s!"rob::{opId}::success", .bool success)]

def older : Op := operation "a" 0

def younger : Op := operation "b" 1

/-- The older operation commits in cycle 4, the younger one faults. -/
def faulted : ModuleRun where
  file := robCore [older, younger] []
  eventTypes := robTypes
  events := [entering older "t0", entering younger "t1", completing older "t2" 2,
    faulting younger "t3" 2]
  horizon := 12
  assignment :=
    slotsAt 0 [("rob_allocate", 1), ("rob_writeback", 3), ("rob_commit", 4)] ++
      outcome "a" true ++
      slotsAt 1 [("rob_allocate", 1), ("rob_exception_record", 3), ("rob_precise_exception", 6),
        ("rob_exception_squash", 7)] ++
      outcome "b" false

theorem faulted_retiresInOrder : ∃ problem pre, faulted.Completes .integers problem pre ∧
    RetiresInOrder problem (problem.context .integers (.ofList faulted.assignment))
      [older, younger] ∧
    Older older younger ∧
    Seen problem (problem.context .integers (.ofList faulted.assignment)) "ROB.PreciseException"
      (identity younger) 6 := by
  have haccepted : faulted.demonstrates .integers (fun problem context =>
      sightings problem context "ROB.PreciseException" (identity younger) = [6]) = true := by
    decide +kernel
  obtain ⟨problem, pre, ⟨catalog, trace, spec, h⟩, htest⟩ := ModuleRun.exists_completion haccepted
  rw [decide_eq_true_eq] at htest
  refine ⟨problem, pre, ⟨catalog, trace, spec, h⟩, retiresInOrder h, ?_, ?_⟩
  · exact ⟨rfl, by decide⟩
  · exact mem_sightings.mp (htest ▸ List.mem_singleton_self 6)

/-- No event of the type for the operation. -/
def absent (problem : BoundedProblem) (context : EvaluationContext) (eventType : String) (op : Op) :
    Bool :=
  problem.events.all (fun event => !shows context eventType [("op_id", op.opId)] event)

theorem not_exists_of_absent {problem : BoundedProblem} {context : EvaluationContext}
    {eventType : String} {op : Op} (h : absent problem context eventType op = true) :
    ¬ ∃ id, Showing problem context eventType [("op_id", op.opId)] id := by
  rintro ⟨id, hid⟩
  obtain ⟨event, hevent, hshows, -⟩ := showing_iff.mp hid
  have hnot := List.all_eq_true.mp h event hevent
  rw [hshows] at hnot
  cases hnot

theorem faulted_exclusive : ∃ problem pre, faulted.Completes .integers problem pre ∧
    CommitsOrCancels problem (problem.context .integers (.ofList faulted.assignment))
      [older, younger] ∧
    CancelsUncommitted problem (problem.context .integers (.ofList faulted.assignment)) pre
      [older, younger] := by
  have haccepted : faulted.demonstrates .integers (fun problem context =>
      absent problem context "ROB.PreciseException" older &&
        absent problem context "Core.SquashMemory" older &&
        absent problem context "ROB.Commit" younger) = true := by
    decide +kernel
  obtain ⟨problem, pre, ⟨catalog, trace, spec, h⟩, htest⟩ := ModuleRun.exists_completion haccepted
  rw [Bool.and_eq_true, Bool.and_eq_true] at htest
  obtain ⟨⟨hexception, hsquash⟩, hcommit⟩ := htest
  have hexclusive : CommitsOrCancels problem
      (problem.context .integers (.ofList faulted.assignment)) [older, younger] := by
    intro op hop hcommits
    rcases List.mem_pair.mp hop with rfl | rfl
    · exact ⟨not_exists_of_absent hexception, not_exists_of_absent hsquash⟩
    · exact absurd hcommits (not_exists_of_absent hcommit)
  exact ⟨problem, pre, ⟨catalog, trace, spec, h⟩, hexclusive,
    (exclusive_iff_uncommitted h).mp hexclusive⟩

def branch : Branch := ⟨.str "br"⟩

/-- The operation commits in cycle 4, an older branch mispredicts in cycle 6. -/
def mispredicted : ModuleRun where
  file := robCore [younger] [branch]
  eventTypes := robTypes
  events := [entering younger "t0", completing younger "t1" 2,
    { id := "t2", eventType := "Core.BranchMispredict", cycle := 6
      fields := [("branch_op_id", branch.branchOpId), ("hart", .int 0),
        ("program_index", .int 0)] }]
  horizon := 12
  assignment :=
    slotsAt 0 [("rob_allocate", 1), ("rob_writeback", 3), ("rob_commit", 4),
      ("rob_branch_squash", 7), ("rob_branch_kill", 7)] ++ outcome "b" true

/-- A committed operation is squashed. -/
theorem mispredicted_not_exclusive : ∃ problem pre,
    mispredicted.Completes .integers problem pre ∧
      ¬ CommitsOrCancels problem (problem.context .integers (.ofList mispredicted.assignment))
        [younger] := by
  have haccepted : mispredicted.demonstrates .integers (fun problem context =>
      sightings problem context "ROB.Commit" [("op_id", younger.opId)] = [4] &&
        sightings problem context "Core.SquashMemory" [("op_id", younger.opId)] = [7]) = true := by
    decide +kernel
  obtain ⟨problem, pre, hcompletes, htest⟩ := ModuleRun.exists_completion haccepted
  rw [Bool.and_eq_true, decide_eq_true_eq, decide_eq_true_eq] at htest
  obtain ⟨hcommit, hsquash⟩ := htest
  refine ⟨problem, pre, hcompletes, fun hexclusive => ?_⟩
  obtain ⟨b, hb, -⟩ := mem_sightings.mp (hcommit ▸ List.mem_singleton_self 4)
  obtain ⟨q, hq, -⟩ := mem_sightings.mp (hsquash ▸ List.mem_singleton_self 7)
  exact (hexclusive younger List.mem_cons_self ⟨b, hb⟩).2 ⟨q, hq⟩

end Rob

end Boom

end Umcm
