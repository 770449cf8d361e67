import Umcm.Xiangshan.Core
import Umcm.Composition.Flags

/-!
# Commits and redirects

The flags of a reorder-buffer entry are set by the events of its operation and
never cleared. A commit waits for the commits of older operations; a redirect is
applied to the operations that it reaches, which must then be uncommitted, and no
operation that it reaches commits afterwards.

* `commits_ordered`: older operations have committed before.
* `no_commit_of_redirect`: operations that a redirect reaches never commit.
-/

namespace Umcm

namespace Xiangshan

open Boom EvaluationContext

namespace Core

/-! ## Operations of a trace -/

/-- The instruction is that of the operation. -/
structure Describes (e : EventInstance) (op : Op) : Prop where
  opId : e.fields.get? "op_id" = some (.value op.opId)
  hart : e.fields.get? "hart" = some (.value op.hart)
  programIndex : e.fields.get? "program_index" = some (.value op.programIndex)

/-- The types of the events that enter the core. -/
def inputTypes : List String :=
  ["Core.MemoryInstruction", "Core.MemoryWriteback", "Core.MemoryFault", "Core.Redirect"]

/-- The operations are the instructions of the trace, with different ids. -/
structure Operations (ops : List Op) (trace : Trace) : Prop where
  describes : List.Forall₂ Describes
    (trace.events.filter (fun e => e.eventType = "Core.MemoryInstruction")) ops
  opIds : (ops.map (fun op => op.opId.key)).Nodup
  types : ∀ e ∈ trace.events, e.eventType ∈ inputTypes

theorem Operations.op_unique {ops : List Op} {trace : Trace} (h : Operations ops trace)
    {op op' : Op} (hop : op ∈ ops) (hop' : op' ∈ ops) (hkey : op.opId.key = op'.opId.key) :
    op = op' :=
  List.inj_on_of_nodup_map h.opIds hop hop' hkey

/-- The first operation comes before the second on the same hart. -/
structure Older (older target : Op) : Prop where
  hart : older.hart.key = target.hart.key
  index : older.programIndex.pyLt target.programIndex = .ok true

section Events

variable (problem : BoundedProblem) (context : EvaluationContext)

/-- The event is of the operation. -/
def Of (eventType : String) (op : Op) (id : String) : Prop :=
  Showing problem context eventType [("op_id", op.opId)] id

/-- The operation has an event of the type in the cycle. -/
def Has (eventType : String) (op : Op) (c : Nat) : Prop :=
  Seen problem context eventType [("op_id", op.opId)] c

/-- An operation commits after all older operations of its hart. -/
def CommitsInOrder (ops : List Op) : Prop :=
  ∀ target ∈ ops, ∀ older ∈ ops, Older older target → ∀ id,
    Of problem context "Core.MemoryCommit" target id →
      ∃ c, context.AtCycle id c ∧ ∃ d < c, Has problem context "Core.MemoryCommit" older d

/-- The redirect reaches the victim: it is on its hart and of the source, and the
victim is younger, or is the source when the redirect flushes itself. -/
structure Reaches (source victim : Op) (r : String) : Prop where
  redirect : Showing problem context "Core.Redirect" [("source_op_id", source.opId)] r
  hart : context.Carries r "hart" victim.hart
  reach : source.programIndex.pyLt victim.programIndex = .ok true ∨
    victim = source ∧ context.Reads r "flush_self" (.bool true)

/-- An operation that a redirect reaches does not commit, at any cycle. -/
def RedirectsExclude (ops : List Op) : Prop :=
  ∀ source ∈ ops, ∀ victim ∈ ops, ∀ r, Reaches problem context source victim r →
    ∀ id, ¬ Of problem context "Core.MemoryCommit" victim id

end Events

/-! ## Expressions -/

section Expressions

variable {context : EvaluationContext} {b : RoleBinding}

@[simp] theorem holds_ofOp {op : Op} {role : String} :
    context.Holds (b.instantiate (ofOp op role)) ↔
      context.Carries (b.apply role) "op_id" op.opId := by
  rw [ofOp, holds_fieldIs]

@[simp] theorem holds_olderIndex {older target : Op} :
    context.Holds (b.instantiate (olderIndex older target)) ↔
      older.programIndex.pyLt target.programIndex = .ok true := by
  rw [olderIndex, RoleBinding.instantiate_binary, RoleBinding.instantiate_literal,
    RoleBinding.instantiate_literal, holds_lt, evaluate_literal, evaluate_literal]
  simp

theorem holds_reaches {source victim : Op}
    (hreturns : context.Returns (b.instantiate (reaches source victim))) :
    context.Holds (b.instantiate (reaches source victim)) ↔
      source.programIndex.pyLt victim.programIndex = .ok true ∨
        source.programIndex.key = victim.programIndex.key ∧
          context.Reads (b.apply "redirect") "flush_self" (.bool true) := by
  rw [reaches, RoleBinding.instantiate_nary] at hreturns ⊢
  rw [holds_or (returns_nary.mp hreturns)]
  simp

end Expressions

section Completion

variable {ops : List Op} {catalog : EventCatalog} {trace : Trace} {spec : CompletionSpec}
  {problem : BoundedProblem} {interpreter : Interpreter} {assignment : Dict String Value}
  {pre : CellStates}

/-! ## Flags -/

theorem mem_rules {op : Op} (hop : op ∈ ops) :
    ∃ i, ∀ rule ∈ rules op i, rule ∈ (coreLifecycle ops).rules := by
  obtain ⟨i, hi⟩ := exists_mem_zipIdx hop
  exact ⟨i, fun rule hrule => List.mem_append_left _
    (List.mem_append_left _ (mem_repeatOver.mpr ⟨op, i, hi, hrule⟩))⟩

theorem mem_orderRules {older target : Op} (holder : older ∈ ops) (htarget : target ∈ ops) :
    ∃ i, ∀ rule ∈ orderRules older target i, rule ∈ (coreLifecycle ops).rules := by
  obtain ⟨i, hi⟩ := exists_mem_product_zipIdx holder htarget
  exact ⟨i, fun rule hrule => List.mem_append_left _
    (List.mem_append_right _ (mem_repeatProduct.mpr ⟨older, target, i, hi, hrule⟩))⟩

theorem mem_redirectRules {source victim : Op} (hsource : source ∈ ops) (hvictim : victim ∈ ops) :
    ∃ i, ∀ rule ∈ redirectRules source victim i, rule ∈ (coreLifecycle ops).rules := by
  obtain ⟨i, hi⟩ := exists_mem_product_zipIdx hsource hvictim
  exact ⟨i, fun rule hrule => List.mem_append_right _
    (mem_repeatProduct.mpr ⟨source, victim, i, hi, hrule⟩)⟩

theorem mem_cells {op : Op} (hop : op ∈ ops) {field : String} (hfield : field ∈ entryFields) :
    ⟨entry op field, .bool, .bool false⟩ ∈ (coreLifecycle ops).stateVariables := by
  obtain ⟨i, hi⟩ := exists_mem_zipIdx hop
  exact (mem_repeatOver (f := fun op _ => cells op)).mpr ⟨op, i, hi, List.mem_map_of_mem hfield⟩

/-- The event that sets a flag of an entry. -/
def eventOf (field : String) : String :=
  if field = "allocated" then "Core.DispatchAllocate"
  else if field = "issued" then "Core.MemoryIssue"
  else if field = "completed" then "Core.ROBWriteback"
  else if field = "faulted" then "Core.ExceptionRecord"
  else if field = "squashed" then "Core.RedirectApply"
  else "Core.MemoryCommit"

/-- A rule that sets a flag of an operation. -/
structure Sets (rule : ModuleRule.Fields) (u : StateUpdate.Fields) (op : Op) (field role : String) :
    Prop where
  update : u = turnsOn op field role
  known : field ∈ entryFields
  output : rule.outputs = [(role, eventOf field)]
  scope : ∀ {context : EvaluationContext} {b : RoleBinding},
    context.Holds (b.instantiate rule.outputWhen) →
      context.Carries (b.apply role) "op_id" op.opId
  mode : rule.stateMode = .require
  exact : rule.isExact = true
  apart : rule.RolesApart

/-- Every update of the module turns a flag on. -/
theorem sets_of_update {rule : ModuleRule.Fields} (hrule : rule ∈ (coreLifecycle ops).rules)
    {u : StateUpdate.Fields} (hu : u ∈ rule.stateUpdates) :
    ∃ op ∈ ops, ∃ field role, Sets rule u op field role := by
  rcases List.mem_append.mp hrule with hrule | hrule
  rcases List.mem_append.mp hrule with hrule | hrule
  · obtain ⟨op, i, hmem, hrule⟩ := mem_repeatOver.mp hrule
    refine ⟨op, mem_of_mem_zipIdx hmem, ?_⟩
    simp only [rules, List.mem_cons, List.not_mem_nil, or_false] at hrule
    rcases hrule with rfl | rfl | rfl | rfl | rfl | rfl | rfl
    · exact ⟨"allocated", "allocate", List.mem_singleton.mp hu, by decide, rfl,
        fun h => holds_ofOp.mp h, rfl, rfl, (by decide : ["instruction", "allocate"].Nodup)⟩
    · exact ⟨"issued", "issue", List.mem_singleton.mp hu, by decide, rfl,
        fun h => holds_ofOp.mp h, rfl, rfl, (by decide : ["allocate", "issue"].Nodup)⟩
    · exact ⟨"completed", "writeback", List.mem_singleton.mp hu, by decide, rfl,
        fun h => holds_ofOp.mp h, rfl, rfl,
        (by decide : ["issue", "complete", "writeback"].Nodup)⟩
    · cases hu
    · exact ⟨"committed", "commit", List.mem_singleton.mp hu, by decide, rfl,
        fun h => holds_ofOp.mp h, rfl, rfl, (by decide : ["select", "commit"].Nodup)⟩
    · exact ⟨"faulted", "record", List.mem_singleton.mp hu, by decide, rfl,
        fun h => holds_ofOp.mp h, rfl, rfl, (by decide : ["issue", "fault", "record"].Nodup)⟩
    · cases hu
  · -- the rules of the order write nothing
    obtain ⟨older, target, i, -, hrule⟩ := mem_repeatProduct.mp hrule
    simp only [orderRules, List.mem_cons, List.not_mem_nil, or_false] at hrule
    rcases hrule with rfl | rfl <;> cases hu
  · obtain ⟨source, victim, i, hmem, hrule⟩ := mem_repeatProduct.mp hrule
    refine ⟨victim, (mem_of_mem_product_zipIdx hmem).2, ?_⟩
    simp only [redirectRules, List.mem_cons, List.not_mem_nil, or_false] at hrule
    rcases hrule with rfl | rfl | rfl
    · refine ⟨"squashed", "apply", List.mem_singleton.mp hu, by decide, rfl, ?_, rfl, rfl,
        (by decide : ["redirect", "instruction", "apply"].Nodup)⟩
      exact fun h => holds_ofOp.mp (holds_allOf.mp h _ List.mem_cons_self)
    · cases hu
    · cases hu

theorem entryFields_dotless {field : String} (hfield : field ∈ entryFields) :
    '.' ∉ field.toList := by
  revert field
  decide

/-- A cell has one operation and one field. -/
theorem eq_of_entry
    (h : ModuleCompletion (coreLifecycle ops) catalog trace spec problem interpreter assignment pre)
    {op op' : Op} (hop : op ∈ ops) (hop' : op' ∈ ops) {field field' : String}
    (hfield : field ∈ entryFields) (hfield' : field' ∈ entryFields)
    (heq : entry op field = entry op' field') : op = op' ∧ field = field' := by
  obtain ⟨i, hi⟩ := exists_mem_zipIdx hop
  obtain ⟨j, hj⟩ := exists_mem_zipIdx hop'
  have hops := eq_of_mem_repeatOver (f := fun op _ => cells op) h.cells_nodup hi hj
    (List.mem_map_of_mem hfield) (List.mem_map_of_mem hfield') heq
  exact ⟨hops.1, field_of_cellOf (entryFields_dotless hfield) (entryFields_dotless hfield') heq⟩

theorem isFlag {op : Op} (hop : op ∈ ops) {field : String} (hfield : field ∈ entryFields) :
    (coreLifecycle ops).IsFlag (entry op field) := by
  refine ⟨mem_cells hop hfield, fun rule hrule u hu _ => ?_⟩
  obtain ⟨op', -, field', role, hsets⟩ := sets_of_update hrule hu
  exact ⟨hsets.mode, true, .bool, by rw [hsets.update]; rfl⟩

/-- A flag is set by the event of its field, and never cleared. -/
theorem has_of_setsFlag
    (h : ModuleCompletion (coreLifecycle ops) catalog trace spec problem interpreter assignment pre)
    {op : Op} (hop : op ∈ ops) {field : String} (hfield : field ∈ entryFields) {value : Bool}
    {c : Nat} (hset : (coreLifecycle ops).SetsFlag problem (problem.context interpreter assignment)
      (entry op field) value c) :
    value = true ∧ Has problem (problem.context interpreter assignment) (eventOf field) op c := by
  obtain ⟨rule, hrule, ins, outs, hfires, u, hu, hstate, ⟨sort, hvalue⟩, hcycle⟩ := hset
  obtain ⟨op', hop', field', role, hsets⟩ := sets_of_update hrule hu
  obtain rfl := hsets.update
  obtain ⟨rfl, rfl⟩ := eq_of_entry h hop' hop hsets.known hfield hstate
  refine ⟨by cases hvalue; rfl, _, ⟨?_, ?_⟩, hcycle⟩
  · refine hfires.occurring hsets.apart (List.mem_append_right _ ?_)
    rw [hsets.output]
    exact List.mem_singleton_self _
  · exact List.forall_mem_singleton.mpr (hsets.scope hfires.outputWhen)

/-- What a commit finds and leaves. -/
theorem flags_of_commit
    (h : ModuleCompletion (coreLifecycle ops) catalog trace spec problem interpreter assignment pre)
    {op : Op} (hop : op ∈ ops) {b : String}
    (hb : Of problem (problem.context interpreter assignment) "Core.MemoryCommit" op b) :
    ∃ c ≤ spec.horizon, (problem.context interpreter assignment).AtCycle b c ∧
      CellIs pre c (entry op "squashed") (.bool false) ∧
      CellIs pre (c + 1) (entry op "committed") (.bool true) := by
  obtain ⟨i, hrules⟩ := mem_rules hop
  have hrule := hrules (robCommitsSelectedOp op i) (by simp [rules])
  obtain ⟨ins, hfires, hanchor⟩ := h.exists_firing hrule rfl rfl
    (by decide : ["select", "commit"].Nodup) rfl hb.occurring (by
      refine holds_ofOp.mpr ?_
      rw [apply_single]
      exact hb.carries _ List.mem_cons_self)
  have hunsquashed : isOff op "squashed" "commit" ∈
      (robCommitsSelectedOp op i).stateRequirements := by
    simp [robCommitsSelectedOp, committable]
  obtain ⟨c, hc, hcycle, hsquashed⟩ := h.requires hrule rfl hfires hunsquashed
  obtain ⟨d, -, hdcycle, hcommitted⟩ := h.sets hrule rfl hfires List.mem_cons_self
  rw [hanchor] at hcycle hdcycle
  cases hcycle.unique hdcycle
  exact ⟨c, hc, hcycle, hsquashed, hcommitted⟩

/-- A flag that its event sets is never cleared. -/
theorem entry_flag
    (h : ModuleCompletion (coreLifecycle ops) catalog trace spec problem interpreter assignment pre)
    {op : Op} (hop : op ∈ ops) {field : String} (hfield : field ∈ entryFields)
    (hset : ∀ c, Has problem (problem.context interpreter assignment) (eventOf field) op c →
      CellIs pre (c + 1) (entry op field) (.bool true)) :
    Timeline.Flag spec.horizon (fun c => CellIs pre c (entry op field) (.bool true))
      (Has problem (problem.context interpreter assignment) (eventOf field) op)
      (fun _ => False) := by
  have hflag := h.flag (isFlag hop hfield)
  constructor
  case start => exact hflag.start
  case set => exact hset
  case clear => exact fun c hclear => hclear.elim
  case kept =>
    intro c hc hnone _
    refine hflag.kept c hc (fun hsets => hnone (has_of_setsFlag h hop hfield hsets).2) ?_
    exact fun hclears => absurd (has_of_setsFlag h hop hfield hclears).1 (by decide)

/-- An operation is committed before a cycle when it has a commit at an earlier one. -/
theorem committed_iff
    (h : ModuleCompletion (coreLifecycle ops) catalog trace spec problem interpreter assignment pre)
    {op : Op} (hop : op ∈ ops) {c : Nat} (hc : c ≤ spec.horizon + 1) :
    CellIs pre c (entry op "committed") (.bool true) ↔
      ∃ d < c, Has problem (problem.context interpreter assignment) "Core.MemoryCommit" op d := by
  refine (entry_flag h hop (by decide) ?_).on_iff_exists hc
  rintro d ⟨b, hb, hcycle⟩
  obtain ⟨e, -, hecycle, -, hcommitted⟩ := flags_of_commit h hop hb
  cases hecycle.unique hcycle
  exact hcommitted

/-! ## Order of commits -/

/-- The slots of the module. -/
theorem slot_nodup {f : EventSlot.Fields} (hf : f ∈ (coreLifecycle ops).slots) :
    (f.fields.map Prod.fst).Nodup := by
  rcases List.mem_append.mp hf with hf | hf
  · obtain ⟨op, i, -, hf⟩ := mem_repeatOver.mp hf
    simp only [slots, List.mem_cons, List.not_mem_nil, or_false] at hf
    rcases hf with rfl | rfl | rfl | rfl | rfl | rfl | rfl <;> simp
  · obtain ⟨source, victim, i, -, hf⟩ := mem_repeatProduct.mp hf
    obtain rfl := List.mem_singleton.mp hf
    simp

/-- A commit is on the hart of its operation. -/
theorem hart_of_commit
    (h : ModuleCompletion (coreLifecycle ops) catalog trace spec problem interpreter assignment pre)
    (hoperations : Operations ops trace) (hslots : spec.SlotsFrom (coreLifecycle ops).slots)
    {op : Op} (hop : op ∈ ops) {b : String}
    (hb : Of problem (problem.context interpreter assignment) "Core.MemoryCommit" op b) :
    (problem.context interpreter assignment).Carries b "hart" op.hart := by
  rcases h.toCompletion.origin_fields hslots (fun f hf => slot_nodup hf) hb.occurring with
    ⟨e, he, htype, -⟩ | ⟨f, hf, htype, -, hreads⟩
  · -- commits do not enter the core
    have hinput := hoperations.types e he
    rw [htype] at hinput
    exact absurd hinput (by decide)
  · rcases List.mem_append.mp hf with hf | hf
    · obtain ⟨op', i, hmem, hf⟩ := mem_repeatOver.mp hf
      have hfields : ("op_id", Term.value op'.opId) ∈ f.fields ∧
          ("hart", Term.value op'.hart) ∈ f.fields := by
        simp only [slots, List.mem_cons, List.not_mem_nil, or_false] at hf
        rcases hf with rfl | rfl | rfl | rfl | rfl | rfl | rfl <;>
          simp at htype ⊢
      have hid := hreads "op_id" op'.opId (by decide) (by decide) hfields.1
      have hhart := hreads "hart" op'.hart (by decide) (by decide) hfields.2
      obtain rfl := hoperations.op_unique (mem_of_mem_zipIdx hmem) hop
        ((show (problem.context interpreter assignment).Carries b "op_id" op'.opId from
          ⟨_, hid, rfl⟩).unique (hb.carries _ List.mem_cons_self))
      exact ⟨_, hhart, rfl⟩
    · obtain ⟨source, victim, i, -, hf⟩ := mem_repeatProduct.mp hf
      obtain rfl := List.mem_singleton.mp hf
      exact absurd htype (by simp)

/-- Operations commit in program order. -/
theorem commits_ordered
    (h : ModuleCompletion (coreLifecycle ops) catalog trace spec problem interpreter assignment pre)
    (hoperations : Operations ops trace) (hslots : spec.SlotsFrom (coreLifecycle ops).slots) :
    CommitsInOrder problem (problem.context interpreter assignment) ops := by
  intro target htarget older holder hbefore b hb
  obtain ⟨i, hrules⟩ := mem_orderRules holder htarget
  have hrule := hrules (commitWaitsForOlder older target i) (by simp [orderRules])
  have hhart := hart_of_commit h hoperations hslots htarget hb
  have hfires := h.fires_alone hrule rfl rfl rfl hb.occurring (by
    refine holds_allOf.mpr ?_
    simp only [List.forall_mem_cons, holds_ofOp, holds_fieldIs, holds_olderIndex, apply_single]
    exact ⟨hb.carries _ List.mem_cons_self, hhart.congr hbefore.hart.symm, hbefore.index,
      fun _ he => absurd he List.not_mem_nil⟩)
  obtain ⟨c, hc, hcycle, hcommitted⟩ := h.requires hrule rfl hfires List.mem_cons_self
  rw [Transformation.Fields.binding_single rfl rfl, apply_single] at hcycle
  exact ⟨c, hcycle, (committed_iff h holder (Nat.le_succ_of_le hc)).mp hcommitted⟩

/-! ## Redirects -/

/-- The output of an exact rule of an operation has an input of the operation. -/
theorem exists_input
    (h : ModuleCompletion (coreLifecycle ops) catalog trace spec problem interpreter assignment pre)
    {rule : ModuleRule.Fields} (hrule : rule ∈ (coreLifecycle ops).rules)
    (hmode : rule.stateMode = .require) (hexact : rule.isExact = true) (hapart : rule.RolesApart)
    {role role' eventType eventType' : String} {op : Op}
    (hinput : (role, eventType) ∈ rule.inputs) (houtputs : rule.outputs = [(role', eventType')])
    (hscope : rule.outputWhen = ofOp op role')
    (hwhen : ∀ {context : EvaluationContext} {b : RoleBinding},
      context.Holds (b.instantiate rule.when) → context.Carries (b.apply role) "op_id" op.opId)
    {b : String} (hb : Of problem (problem.context interpreter assignment) eventType' op b) :
    ∃ a, Of problem (problem.context interpreter assignment) eventType op a := by
  obtain ⟨ins, hfires, -⟩ := h.exists_firing hrule hmode hexact hapart houtputs hb.occurring (by
    rw [hscope, holds_ofOp, apply_single]
    exact hb.carries _ List.mem_cons_self)
  exact ⟨_, hfires.occurring hapart (List.mem_append_left _ hinput),
    List.forall_mem_singleton.mpr (hwhen hfires.when)⟩

/-- An operation that commits has been dispatched. -/
theorem instruction_of_commit
    (h : ModuleCompletion (coreLifecycle ops) catalog trace spec problem interpreter assignment pre)
    {op : Op} (hop : op ∈ ops) {b : String}
    (hb : Of problem (problem.context interpreter assignment) "Core.MemoryCommit" op b) :
    ∃ a, Of problem (problem.context interpreter assignment) "Core.MemoryInstruction" op a := by
  obtain ⟨i, hrules⟩ := mem_rules hop
  have hselect := hrules (robSelectsCompletedOp op i) (by simp [rules])
  have hcommit := hrules (robCommitsSelectedOp op i) (by simp [rules])
  have hwriteback := hrules (robCapturesSuccessfulWriteback op i) (by simp [rules])
  have hissue := hrules (allocatedOpIssues op i) (by simp [rules])
  have hallocate := hrules (dispatchAllocates op i) (by simp [rules])
  obtain ⟨select, hselected⟩ := exists_input h hcommit rfl rfl
    (by decide : ["select", "commit"].Nodup) List.mem_cons_self rfl rfl
    (fun hholds => holds_ofOp.mp hholds) hb
  obtain ⟨writeback, hwritten⟩ := exists_input h hselect rfl rfl
    (by decide : ["writeback", "select"].Nodup) List.mem_cons_self rfl rfl
    (fun hholds => holds_ofOp.mp hholds) hselected
  obtain ⟨issue, hissued⟩ := exists_input h hwriteback rfl rfl
    (by decide : ["issue", "complete", "writeback"].Nodup) List.mem_cons_self rfl rfl
    (fun hholds => holds_ofOp.mp (holds_allOf.mp hholds _ List.mem_cons_self)) hwritten
  obtain ⟨allocate, hallocated⟩ := exists_input h hissue rfl rfl
    (by decide : ["allocate", "issue"].Nodup) List.mem_cons_self rfl rfl
    (fun hholds => holds_ofOp.mp hholds) hissued
  exact exists_input h hallocate rfl rfl (by decide : ["instruction", "allocate"].Nodup)
    List.mem_cons_self rfl rfl (fun hholds => holds_ofOp.mp hholds) hallocated

/-- An instruction is on the hart of its operation. -/
theorem hart_of_instruction
    (h : ModuleCompletion (coreLifecycle ops) catalog trace spec problem interpreter assignment pre)
    (hoperations : Operations ops trace) (hslots : spec.SlotsFrom (coreLifecycle ops).slots)
    {op : Op} (hop : op ∈ ops) {a : String}
    (ha : Of problem (problem.context interpreter assignment) "Core.MemoryInstruction" op a) :
    (problem.context interpreter assignment).Carries a "hart" op.hart := by
  rcases h.toCompletion.origin_fields hslots (fun f hf => slot_nodup hf) ha.occurring with
    ⟨e, he, htype, -, hreads⟩ | ⟨f, hf, htype, -⟩
  · have hmem : e ∈ trace.events.filter (fun e => e.eventType = "Core.MemoryInstruction") :=
      List.mem_filter.mpr ⟨he, by simpa using htype⟩
    obtain ⟨op', hop', hdescribes⟩ :=
      Except.exists_right_of_forall₂ hoperations.describes hmem
    have hid := hreads _ _ (by decide) (by decide) hdescribes.opId
    obtain rfl := hoperations.op_unique hop' hop
      ((show (problem.context interpreter assignment).Carries a "op_id" op'.opId from
        ⟨_, hid, rfl⟩).unique (ha.carries _ List.mem_cons_self))
    exact ⟨_, hreads _ _ (by decide) (by decide) hdescribes.hart, rfl⟩
  · -- instructions are not among the slots
    rcases List.mem_append.mp hf with hf | hf
    · obtain ⟨op', i, -, hf⟩ := mem_repeatOver.mp hf
      simp only [slots, List.mem_cons, List.not_mem_nil, or_false] at hf
      rcases hf with rfl | rfl | rfl | rfl | rfl | rfl | rfl <;> exact absurd htype (by simp)
    · obtain ⟨source, victim, i, -, hf⟩ := mem_repeatProduct.mp hf
      obtain rfl := List.mem_singleton.mp hf
      exact absurd htype (by simp)

/-- What the guards of the rules of a redirect ask of an event of the victim. -/
theorem holds_redirects {context : EvaluationContext} {source victim : Op} {role r a : String}
    (hrole : role ≠ "redirect") (hreaches : Reaches problem context source victim r)
    (hop : context.Carries a "op_id" victim.opId) (hhart : context.Carries a "hart" victim.hart)
    (hreturns : context.Returns
      (RoleBinding.instantiate [("redirect", r), (role, a)] (reaches source victim))) :
    ∀ e ∈ redirects source victim role,
      context.Holds (RoleBinding.instantiate [("redirect", r), (role, a)] e) := by
  obtain ⟨v, hv, hvkey⟩ := hreaches.hart
  obtain ⟨w, hw, hwkey⟩ := hhart
  simp only [redirects, List.forall_mem_cons, holds_ofOp, holds_fieldIs, holds_sameField,
    apply_input, apply_output hrole, holds_reaches hreturns]
  refine ⟨hreaches.redirect.carries _ List.mem_cons_self, hop,
    ⟨v, w, hv, hw, hvkey.trans hwkey.symm⟩, ?_, fun _ he => absurd he List.not_mem_nil⟩
  rcases hreaches.reach with hlt | ⟨rfl, hflush⟩
  · exact Or.inl hlt
  · exact Or.inr ⟨rfl, hflush⟩

theorem returns_reaches
    (h : ModuleCompletion (coreLifecycle ops) catalog trace spec problem interpreter assignment pre)
    {rule : ModuleRule.Fields} (hrule : rule ∈ (coreLifecycle ops).rules)
    (hmode : rule.stateMode = .require) {role eventType : String}
    (hinputs : rule.inputs = [("redirect", "Core.Redirect"), (role, eventType)])
    {source victim : Op} {es : List Expr} (hwhen : rule.when = allOf es)
    (hmem : reaches source victim ∈ es) {r a : String}
    (hr : Occurring problem (problem.context interpreter assignment) "Core.Redirect" r)
    (ha : Occurring problem (problem.context interpreter assignment) eventType a) (hne : r ≠ a) :
    (problem.context interpreter assignment).Returns
      (RoleBinding.instantiate [("redirect", r), (role, a)] (reaches source victim)) := by
  have hreturns := h.guard_returns hrule hmode
    (by rw [hinputs]; exact .cons hr (.cons ha .nil)) (by simpa using hne)
  rw [hinputs, hwhen, allOf, RoleBinding.instantiate_nary] at hreturns
  exact returns_nary.mp hreturns _ (List.mem_map_of_mem hmem)

/-- An event of the victim after the redirect finds it squashed. -/
theorem squashed_of_late
    (h : ModuleCompletion (coreLifecycle ops) catalog trace spec problem interpreter assignment pre)
    {source victim : Op} (hsource : source ∈ ops) (hvictim : victim ∈ ops) {r b : String}
    (hreaches : Reaches problem (problem.context interpreter assignment) source victim r)
    (hb : Of problem (problem.context interpreter assignment) "Core.MemoryCommit" victim b)
    (hhart : (problem.context interpreter assignment).Carries b "hart" victim.hart)
    (hlate : (problem.context interpreter assignment).Precedes r b) :
    ∃ c, (problem.context interpreter assignment).AtCycle b c ∧
      CellIs pre c (entry victim "squashed") (.bool true) := by
  obtain ⟨i, hrules⟩ := mem_redirectRules hsource hvictim
  have hrule := hrules (redirectedOpCannotCommitLate source victim i) (by simp [redirectRules])
  have hne : r ≠ b := by
    rintro rfl
    exact absurd (h.toCompletion.type_unique hreaches.redirect.occurring hb.occurring) (by decide)
  have hreturns := returns_reaches h hrule rfl rfl rfl
    (show reaches source victim ∈ _ by simp [redirects]) hreaches.redirect.occurring hb.occurring hne
  have hguards := holds_redirects (by decide) hreaches (hb.carries _ List.mem_cons_self) hhart
    hreturns
  obtain ⟨outs, hfires⟩ := h.forward hrule rfl
    (.cons hreaches.redirect.occurring (.cons hb.occurring .nil)) (by simpa using hne) (by
      refine holds_allOf.mpr (List.forall_mem_append.mpr ⟨hguards, ?_⟩)
      refine List.forall_mem_singleton.mpr (holds_before.mpr ?_)
      exact hlate)
  obtain ⟨c, -, hcycle, hsquashed⟩ := h.requires hrule rfl hfires List.mem_cons_self
  rw [hfires.apply_input (by decide : ["redirect", "commit"].Nodup)
    (show ("commit", b) ∈ [("redirect", r), ("commit", b)] by simp)] at hcycle
  exact ⟨c, hcycle, hsquashed⟩

/-- A redirect is applied to an operation that it reaches, and finds it uncommitted. -/
theorem uncommitted_of_redirect
    (h : ModuleCompletion (coreLifecycle ops) catalog trace spec problem interpreter assignment pre)
    {source victim : Op} (hsource : source ∈ ops) (hvictim : victim ∈ ops) {r a : String}
    (hreaches : Reaches problem (problem.context interpreter assignment) source victim r)
    (ha : Of problem (problem.context interpreter assignment) "Core.MemoryInstruction" victim a)
    (hhart : (problem.context interpreter assignment).Carries a "hart" victim.hart) :
    ∃ apply c, Of problem (problem.context interpreter assignment) "Core.RedirectApply" victim
        apply ∧
      (problem.context interpreter assignment).Precedes r apply ∧ c ≤ spec.horizon ∧
      (problem.context interpreter assignment).AtCycle apply c ∧
      CellIs pre c (entry victim "committed") (.bool false) := by
  obtain ⟨i, hrules⟩ := mem_redirectRules hsource hvictim
  have hrule := hrules (redirectSquashesSelfAndYounger source victim i) (by simp [redirectRules])
  have hapart : (redirectSquashesSelfAndYounger source victim i).RolesApart :=
    (by decide : ["redirect", "instruction", "apply"].Nodup)
  have hne : r ≠ a := by
    rintro rfl
    exact absurd (h.toCompletion.type_unique hreaches.redirect.occurring ha.occurring) (by decide)
  have hreturns := returns_reaches h hrule rfl rfl rfl
    (show reaches source victim ∈ _ by simp [redirects]) hreaches.redirect.occurring ha.occurring hne
  have hguards := holds_redirects (by decide) hreaches (ha.carries _ List.mem_cons_self) hhart
    hreturns
  obtain ⟨outs, hfires⟩ := h.forward hrule rfl
    (.cons hreaches.redirect.occurring (.cons ha.occurring .nil)) (by simpa using hne)
    (holds_allOf.mpr hguards)
  have huncommitted : isOff victim "committed" "apply" ∈
      (redirectSquashesSelfAndYounger source victim i).stateRequirements := by
    simp [redirectSquashesSelfAndYounger]
  obtain ⟨c, hc, hcycle, hcell⟩ := h.requires hrule rfl hfires huncommitted
  have hprecedes := holds_before.mp (hfires.ensure _ List.mem_cons_self)
  rw [hfires.apply_input hapart
    (show ("redirect", r) ∈ [("redirect", r), ("instruction", a)] by simp)] at hprecedes
  refine ⟨_, c, ⟨hfires.occurring hapart (by simp [redirectSquashesSelfAndYounger]), ?_⟩,
    hprecedes, hc, hcycle, hcell⟩
  exact List.forall_mem_singleton.mpr
    (holds_ofOp.mp (holds_allOf.mp hfires.outputWhen _ List.mem_cons_self))

/-- Two cycles are in order, or the second is not after a later one. -/
theorem precedes_or_lt {context : EvaluationContext} {r b apply : String} {c d : Nat}
    (hb : context.AtCycle b c) (happly : context.AtCycle apply d)
    (hprecedes : context.Precedes r apply) : context.Precedes r b ∨ c < d := by
  obtain ⟨v, w, hv, hw, hlt⟩ := hprecedes
  cases hw.unique happly
  rcases pyLt_eq_true.mp hlt with ⟨p, q, hp, hq, hpq⟩ | ⟨s, t, -, ht, -⟩
  · simp only [Value.key, Key.num.injEq] at hq
    subst hq
    by_cases hpc : p < ((c : Int) : ℚ)
    · have hlt : v.pyLt (.int c) = .ok true := pyLt_eq_true.mpr (Or.inl ⟨p, _, hp, rfl, hpc⟩)
      exact Or.inl ⟨v, .int c, hv, hb, hlt⟩
    · have hcd : ((c : Int) : ℚ) < ((d : Int) : ℚ) := lt_of_le_of_lt (not_lt.mp hpc) hpq
      exact Or.inr (by exact_mod_cast hcd)
  · cases ht

/-- Operations that a redirect reaches never commit. -/
theorem no_commit_of_redirect
    (h : ModuleCompletion (coreLifecycle ops) catalog trace spec problem interpreter assignment pre)
    (hoperations : Operations ops trace) (hslots : spec.SlotsFrom (coreLifecycle ops).slots) :
    RedirectsExclude problem (problem.context interpreter assignment) ops := by
  intro source hsource victim hvictim r hreaches b hb
  obtain ⟨c, hc, hcycle, hunsquashed, -⟩ := flags_of_commit h hvictim hb
  obtain ⟨a, ha⟩ := instruction_of_commit h hvictim hb
  obtain ⟨apply, d, -, hprecedes, hd, hdcycle, huncommitted⟩ := uncommitted_of_redirect h hsource
    hvictim hreaches ha (hart_of_instruction h hoperations hslots hvictim ha)
  rcases precedes_or_lt hcycle hdcycle hprecedes with hlate | hlt
  · -- a commit after the redirect finds the victim squashed and not squashed
    obtain ⟨e, hecycle, hsquashed⟩ := squashed_of_late h hsource hvictim hreaches hb
      (hart_of_commit h hoperations hslots hvictim hb) hlate
    cases hecycle.unique hcycle
    exact hunsquashed.not_true hsquashed
  · -- an earlier one is seen by the application of the redirect
    exact huncommitted.not_true
      ((committed_iff h hvictim (Nat.le_succ_of_le hd)).mpr ⟨c, hlt, b, hb, hcycle⟩)

end Completion

/-! ## Runs -/

def operation (opId : String) (index : Int) : Op where
  opId := .str opId
  hart := .int 0
  programIndex := .int index
  robIdx := .int index
  memKind := .str "load"
  vaddr := .int 4096
  address := .int 4096
  value := .int 0
  writeValue := .int 0
  size := .int 8
  byteMask := .int 255
  vector := .bool false

/-- The operation enters the core in cycle 0. -/
def entering (op : Op) (id : String) : EventFields where
  id := id
  eventType := "Core.MemoryInstruction"
  cycle := 0
  fields :=
    [("op_id", op.opId), ("hart", op.hart), ("program_index", op.programIndex),
      ("rob_idx", op.robIdx), ("mem_kind", op.memKind), ("vaddr", op.vaddr),
      ("address", op.address), ("value", op.value), ("write_value", op.writeValue),
      ("size", op.size), ("byte_mask", op.byteMask), ("vector", op.vector)]

def completing (op : Op) (id : String) (cycle : Nat) : EventFields where
  id := id
  eventType := "Core.MemoryWriteback"
  cycle := cycle
  fields :=
    [("op_id", op.opId), ("hart", op.hart), ("rob_idx", op.robIdx), ("mem_kind", op.memKind),
      ("value", op.value), ("success", .bool true)]

def faulting (op : Op) (id : String) (cycle : Nat) : EventFields where
  id := id
  eventType := "Core.MemoryFault"
  cycle := cycle
  fields :=
    [("op_id", op.opId), ("hart", op.hart), ("rob_idx", op.robIdx), ("vaddr", op.vaddr),
      ("cause", .str "page_fault")]

def slotStems : List String :=
  ["dispatch_allocate", "memory_issue", "rob_writeback", "rob_commit_select", "memory_commit",
    "exception_record", "exception_redirect"]

/-- The slots that occur, in these cycles; the others do not. -/
def slotsAt (stems : List String) (index : Nat) (cycles : List (String × Nat)) :
    List (String × Value) :=
  stems.flatMap (fun stem => match cycles.lookup stem with
    | some c => ModuleRun.chosen (indexed stem index) c
    | none => ModuleRun.skipped (indexed stem index))

/-- The cause of the fault of the operation. -/
def causeOf (opId : String) : List (String × Value) :=
  [(s!"core::{opId}::fault_cause", .str "page_fault")]

def older : Op := operation "a" 0

def younger : Op := operation "b" 1

/-- The older operation commits in cycle 6, the younger one faults. -/
def faulted : ModuleRun where
  file := coreLifecycle [older, younger]
  eventTypes := coreTypes
  events := [entering older "t0", entering younger "t1", completing older "t2" 3,
    faulting younger "t3" 3]
  horizon := 12
  assignment :=
    slotsAt slotStems 0 [("dispatch_allocate", 1), ("memory_issue", 2), ("rob_writeback", 4),
        ("rob_commit_select", 5), ("memory_commit", 6)] ++
      slotsAt slotStems 1 [("dispatch_allocate", 1), ("memory_issue", 2), ("exception_record", 4),
        ("exception_redirect", 7)] ++
      slotsAt ["redirect_apply"] 0 [] ++ slotsAt ["redirect_apply"] 1 [] ++
      slotsAt ["redirect_apply"] 2 [] ++ slotsAt ["redirect_apply"] 3 [("redirect_apply", 8)] ++
      causeOf "a" ++ causeOf "b"

theorem describes_of_event {op : Op} {id : String} {e : EventInstance}
    (h : ModuleRun.event (entering op id) = .ok e) : Describes e op := by
  obtain ⟨-, -, -, hfields⟩ := ModuleRun.event_eq_ok h
  have hget : ∀ field v, (field, v) ∈ (entering op id).fields →
      e.fields.get? field = some (.value v) := by
    intro field v hmem
    rw [hfields]
    refine Dict.get?_ofList_of_mem ?_ (List.mem_map_of_mem (f := fun p => (p.1, Term.value p.2)) hmem)
    simp [entering]
  constructor
  all_goals exact hget _ _ (by simp [entering])

theorem faulted_operations {built : ModuleRun.Built} (hbuild : faulted.build = .ok built) :
    Operations [older, younger] built.trace := by
  have hforall := Except.mapM_eq_ok.mp (ModuleRun.build_eq_ok hbuild).2.2
  generalize hlist : built.trace.events = events at hforall
  obtain - | ⟨he0, hrest⟩ := hforall
  obtain - | ⟨he1, hrest⟩ := hrest
  obtain - | ⟨he2, hrest⟩ := hrest
  obtain - | ⟨he3, hrest⟩ := hrest
  obtain - | - := hrest
  rename_i e0 e1 e2 e3
  have htype0 : e0.eventType = "Core.MemoryInstruction" := (ModuleRun.event_eq_ok he0).2.1
  have htype1 : e1.eventType = "Core.MemoryInstruction" := (ModuleRun.event_eq_ok he1).2.1
  have htype2 : e2.eventType = "Core.MemoryWriteback" := (ModuleRun.event_eq_ok he2).2.1
  have htype3 : e3.eventType = "Core.MemoryFault" := (ModuleRun.event_eq_ok he3).2.1
  refine ⟨?_, by decide, ?_⟩
  · rw [hlist]
    simp only [List.filter_cons, htype0, htype1, htype2, htype3, List.filter_nil]
    exact .cons (describes_of_event he0) (.cons (describes_of_event he1) .nil)
  · rw [hlist]
    simp [htype0, htype1, htype2, htype3, inputTypes]

/-- The older operation commits and the younger one redirects. -/
def showsRedirect (problem : BoundedProblem) (context : EvaluationContext) : Bool :=
  6 ∈ sightings problem context "Core.MemoryCommit" [("op_id", older.opId)] &&
    7 ∈ sightings problem context "Core.Redirect" [("source_op_id", younger.opId)]

theorem faulted_satisfies : faulted.satisfies .integers = true := by decide +kernel

theorem faulted_settles : faulted.settles .integers showsRedirect = true := by decide +kernel

end Core

end Xiangshan

end Umcm
