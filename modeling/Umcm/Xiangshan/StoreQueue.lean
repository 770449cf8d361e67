import Umcm.Xiangshan.Issue

/-!
# `virtual_store_queue`

The virtual store queue: an entry is allocated when its store is issued, retired after
the commit of the store and reclaimed after a redirect that reaches it.

* `retires_iff`: retirement excludes recovery and follows the program order, unless a store
  commits one or two cycles after a redirect that reaches its entry.
-/

namespace Umcm

namespace Xiangshan

open Boom EvaluationContext

namespace StoreQueue

/-- A store of `store_ops`. -/
structure Op extends MemoryOp where
  sqIdx : Value

/-! ## Cells -/

/-- `VSQ[${op.op_id}].allocated`. -/
def entry (op : MemoryOp) : String := cellOf "VSQ" op.opId.pyStr "allocated"

def cells (op : Op) : List StateVariable.Fields := [⟨entry op.toMemoryOp, .bool, .bool false⟩]

/-! ## Slots -/

/-- `vsq_op_fields`, with a path. -/
def opFields (op : Op) (path : String) : List (String × Term) :=
  [("op_id", .value op.opId), ("hart", .value op.hart), ("program_index", .value op.programIndex),
    ("rob_idx", .value op.robIdx), ("sq_idx", .value op.sqIdx), ("mem_kind", .value (.str "store")),
    ("queue_kind", .value (.str "virtual")), ("path", .value (.str path))]

/-- `vsq::${op.op_id}::redirect_cause`. -/
def redirectCause (op : Op) : Expr :=
  .symbol ("vsq::" ++ op.opId.pyStr ++ "::redirect_cause") stringSort

def slots (op : Op) (index : Nat) : List EventSlot.Fields :=
  [{ id := indexed "vsq_allocate" index, eventType := "SQ.Allocate", required := false
     fields := opFields op "issue" },
   { id := indexed "vsq_retire" index, eventType := "SQ.Retire", required := false
     fields := opFields op "rob_retire" ++ [("cause", .value (.str "committed"))] },
   { id := indexed "vsq_redirect_recover" index, eventType := "SQ.RedirectRecover"
     required := false
     fields := opFields op "redirect" ++ [("cause", .expr (redirectCause op))] }]

/-! ## Rules -/

def isAllocated (op : MemoryOp) (role : String) : StateRequirement.Fields :=
  ⟨entry op, role, .eq, isTrue⟩

def isFree (op : MemoryOp) (role : String) : StateRequirement.Fields :=
  ⟨entry op, role, .eq, isFalse⟩

def allocates (op : MemoryOp) (role : String) : StateUpdate.Fields := ⟨entry op, role, isTrue⟩

def frees (op : MemoryOp) (role : String) : StateUpdate.Fields := ⟨entry op, role, isFalse⟩

/-- The role is of the operation and has the path. -/
def onPath (op : MemoryOp) (role path : String) : Expr :=
  allOf [ofOp op role, fieldIs role "path" stringSort (.str path)]

def storeIssueAllocatesVsq (op : MemoryOp) (index : Nat) : ModuleRule.Fields where
  name := indexed "store_issue_allocates_vsq" index
  inputs := [("issue", "Core.MemoryIssue")]
  outputs := [("allocate", "SQ.Allocate")]
  when := allOf [ofOp op "issue", fieldIs "issue" "mem_kind" stringSort (.str "store")]
  outputWhen := ofOp op "allocate"
  ensure := [later "issue" "allocate" 1]
  stateRequirements := [isFree op "allocate"]
  stateUpdates := [allocates op "allocate"]
  isExact := true
  tags := ["vsq", "allocate", "source:VirtualStoreQueue.scala:160-206"]

def committedStoreRetiresVsq (op : MemoryOp) (index : Nat) : ModuleRule.Fields where
  name := indexed "committed_store_retires_vsq" index
  inputs := [("allocate", "SQ.Allocate"), ("commit", "Core.MemoryCommit")]
  outputs := [("retire", "SQ.Retire")]
  when := allOf [ofOp op "allocate", ofOp op "commit",
    fieldIs "commit" "mem_kind" stringSort (.str "store")]
  outputWhen := onPath op "retire" "rob_retire"
  ensure := [before "allocate" "commit", later "commit" "retire" 1]
  stateRequirements := [isAllocated op "commit"]
  stateUpdates := [frees op "retire"]
  isExact := true
  tags := ["vsq", "retire", "rob-head", "source:VirtualStoreQueue.scala:271-318,351-365"]

def redirectSelectsLiveVsqEntry (op : MemoryOp) (index : Nat) : ModuleRule.Fields where
  name := indexed "redirect_selects_live_vsq_entry" index
  inputs := [("allocate", "SQ.Allocate"), ("redirect", "Core.Redirect")]
  outputs := [("recover", "SQ.RedirectRecover")]
  when := allOf (ofOp op "allocate" :: redirects op)
  outputWhen := onPath op "recover" "redirect"
  ensure := [before "allocate" "redirect", later "redirect" "recover" 2,
    sameField "redirect" "recover" "cause" stringSort]
  stateRequirements := [isAllocated op "redirect"]
  stateMode := .guard
  isExact := true
  tags := ["vsq", "redirect", "walk", "source:VirtualStoreQueue.scala:251-284,367-389"]

def redirectRecoveryReclaimsVsq (op : MemoryOp) (index : Nat) : ModuleRule.Fields where
  name := indexed "redirect_recovery_reclaims_vsq" index
  inputs := [("recover", "SQ.RedirectRecover")]
  outputs := []
  when := onPath op "recover" "redirect"
  stateRequirements := [isAllocated op "recover"]
  stateUpdates := [frees op "recover"]
  tags := ["vsq", "redirect", "state-reclaim"]

def rules (op : Op) (index : Nat) : List ModuleRule.Fields :=
  [storeIssueAllocatesVsq op.toMemoryOp index, committedStoreRetiresVsq op.toMemoryOp index,
    redirectSelectsLiveVsqEntry op.toMemoryOp index,
    redirectRecoveryReclaimsVsq op.toMemoryOp index]

def youngerVsqRetireWaitsForOlder (older younger : MemoryOp) (index : Nat) : ModuleRule.Fields where
  name := indexed "younger_vsq_retire_waits_for_older" index
  inputs := [("retire", "SQ.Retire")]
  outputs := []
  when := allOf (ofOp younger "retire" :: isOlder older younger)
  stateRequirements := [isFree older "retire"]
  tags := ["vsq", "in-order-retire", "source:VirtualStoreQueue.scala:290-318"]

def orderRules (older younger : Op) (index : Nat) : List ModuleRule.Fields :=
  [youngerVsqRetireWaitsForOlder older.toMemoryOp younger.toMemoryOp index]

end StoreQueue

/-- `virtual_queue.yaml`, for the stores of a trace. -/
def virtualStoreQueue (ops : List StoreQueue.Op) : ModuleFields where
  name := "virtual_store_queue"
  ports :=
    [{ name := "memory_issue", direction := .input, eventType := "Core.MemoryIssue"
       requiredConnection := false },
     { name := "memory_commit", direction := .input, eventType := "Core.MemoryCommit"
       requiredConnection := false },
     { name := "redirect", direction := .input, eventType := "Core.Redirect"
       requiredConnection := false }]
  internalEvents := ["SQ.Allocate", "SQ.Retire", "SQ.RedirectRecover"]
  slots := repeatOver ops StoreQueue.slots
  stateVariables := repeatOver ops (fun op _ => StoreQueue.cells op)
  rules := repeatOver ops StoreQueue.rules ++ repeatProduct ops ops StoreQueue.orderRules

namespace StoreQueue

section Events

variable (problem : BoundedProblem) (context : EvaluationContext) (ops : List Op)

/-- No store is both retired and recovered. -/
def RetiredOrRecovered : Prop :=
  ∀ op ∈ ops, ∀ a b, op.Of problem context "SQ.Retire" a →
    ¬ op.Of problem context "SQ.RedirectRecover" b

/-- The stores of a hart retire in program order. -/
def RetiresInOrder : Prop :=
  ∀ older ∈ ops, ∀ younger ∈ ops, older.Older younger.toMemoryOp → ∀ a b,
    older.Of problem context "SQ.Retire" a → younger.Of problem context "SQ.Retire" b →
      ∃ c d, context.AtCycle a c ∧ context.AtCycle b d ∧ c < d

/-- The event commits the store. -/
def Committed (op : Op) (id : String) : Prop :=
  Showing problem context "Core.MemoryCommit" [("op_id", op.opId), ("mem_kind", .str "store")] id

/-- No store commits one or two cycles after a redirect that finds its entry allocated. -/
def CommitsApart (horizon : Nat) (pre : CellStates) : Prop :=
  ∀ op ∈ ops, ∀ r, ∀ c ≤ horizon, op.Redirected problem context r → context.AtCycle r c →
    CellIs pre c (entry op.toMemoryOp) (.bool true) → ∀ b d, Committed problem context op b →
      context.AtCycle b d → d ≠ c + 1 ∧ d ≠ c + 2

end Events

/-- The types of the events that enter the module. -/
def inputTypes : List String := ["Core.MemoryIssue", "Core.MemoryCommit", "Core.Redirect"]

section Completion

variable {ops : List Op} {catalog : EventCatalog} {trace : Trace} {spec : CompletionSpec}
  {problem : BoundedProblem} {interpreter : Interpreter} {assignment : Dict String Value}
  {pre : CellStates}

/-! ## Parts of the file -/

theorem mem_rules {op : Op} (hop : op ∈ ops) :
    ∃ i, ∀ rule ∈ rules op i, rule ∈ (virtualStoreQueue ops).rules := by
  obtain ⟨i, hi⟩ := exists_mem_zipIdx hop
  exact ⟨i, fun rule hrule => List.mem_append_left _ (mem_repeatOver.mpr ⟨op, i, hi, hrule⟩)⟩

theorem mem_orderRules {older younger : Op} (holder : older ∈ ops) (hyounger : younger ∈ ops) :
    ∃ i, ∀ rule ∈ orderRules older younger i, rule ∈ (virtualStoreQueue ops).rules := by
  obtain ⟨i, hi⟩ := exists_mem_product_zipIdx holder hyounger
  exact ⟨i, fun rule hrule => List.mem_append_right _
    (mem_repeatProduct.mpr ⟨older, younger, i, hi, hrule⟩)⟩

theorem mem_cells {op : Op} (hop : op ∈ ops) :
    ⟨entry op.toMemoryOp, .bool, .bool false⟩ ∈ (virtualStoreQueue ops).stateVariables := by
  obtain ⟨i, hi⟩ := exists_mem_zipIdx hop
  exact (mem_repeatOver (f := fun op _ => cells op)).mpr ⟨op, i, hi, List.mem_singleton_self _⟩

/-- The cells of different stores have different names. -/
theorem eq_of_entry
    (h : ModuleCompletion (virtualStoreQueue ops) catalog trace spec problem interpreter assignment
      pre) {op op' : Op} (hop : op ∈ ops) (hop' : op' ∈ ops)
    (heq : entry op.toMemoryOp = entry op'.toMemoryOp) : op = op' := by
  obtain ⟨i, hi⟩ := exists_mem_zipIdx hop
  obtain ⟨j, hj⟩ := exists_mem_zipIdx hop'
  exact (eq_of_mem_repeatOver (f := fun op _ => cells op) h.cells_nodup hi hj
    (List.mem_singleton_self _) (List.mem_singleton_self _) heq).1

/-- The rules that write a cell: the allocation sets it, retirement and recovery clear it. -/
theorem rule_of_update {rule : ModuleRule.Fields} (hrule : rule ∈ (virtualStoreQueue ops).rules)
    {u : StateUpdate.Fields} (hu : u ∈ rule.stateUpdates) : ∃ op ∈ ops, ∃ i,
      rule = storeIssueAllocatesVsq op.toMemoryOp i ∧ u = allocates op.toMemoryOp "allocate" ∨
      rule = committedStoreRetiresVsq op.toMemoryOp i ∧ u = frees op.toMemoryOp "retire" ∨
      rule = redirectRecoveryReclaimsVsq op.toMemoryOp i ∧ u = frees op.toMemoryOp "recover" := by
  rcases List.mem_append.mp hrule with hrule | hrule
  · obtain ⟨op, i, hmem, hrule⟩ := mem_repeatOver.mp hrule
    refine ⟨op, mem_of_mem_zipIdx hmem, i, ?_⟩
    simp only [rules, List.mem_cons, List.not_mem_nil, or_false] at hrule
    rcases hrule with rfl | rfl | rfl | rfl
    · exact Or.inl ⟨rfl, List.mem_singleton.mp hu⟩
    · exact Or.inr (Or.inl ⟨rfl, List.mem_singleton.mp hu⟩)
    · cases hu
    · exact Or.inr (Or.inr ⟨rfl, List.mem_singleton.mp hu⟩)
  · obtain ⟨older, younger, i, -, hrule⟩ := mem_repeatProduct.mp hrule
    obtain rfl := List.mem_singleton.mp hrule
    cases hu

theorem isFlag {op : Op} (hop : op ∈ ops) : (virtualStoreQueue ops).IsFlag (entry op.toMemoryOp) := by
  refine ⟨mem_cells hop, fun rule hrule u hu _ => ?_⟩
  obtain ⟨op', -, i, ⟨rfl, rfl⟩ | ⟨rfl, rfl⟩ | ⟨rfl, rfl⟩⟩ := rule_of_update hrule hu
  · exact ⟨rfl, true, .bool, rfl⟩
  · exact ⟨rfl, false, .bool, rfl⟩
  · exact ⟨rfl, false, .bool, rfl⟩

/-! ## Events of a store -/

/-- The slot of an event of the module. -/
theorem slot_of_event
    (h : ModuleCompletion (virtualStoreQueue ops) catalog trace spec problem interpreter assignment
      pre) (hslots : spec.SlotsFrom (virtualStoreQueue ops).slots)
    (hoperations : Operations inputTypes (ops.map Op.toMemoryOp) trace) {op : Op} (hop : op ∈ ops)
    {eventType stem path id : String}
    (hevent : (eventType, stem, path) ∈ [("SQ.Retire", "vsq_retire", "rob_retire"),
      ("SQ.RedirectRecover", "vsq_redirect_recover", "redirect")])
    (hid : op.Of problem (problem.context interpreter assignment) eventType id) :
    ∃ i, (op, i) ∈ ops.zipIdx ∧ id = indexed stem i ∧
      (problem.context interpreter assignment).Carries id "path" (.str path) := by
  have hnodup : ∀ f ∈ (virtualStoreQueue ops).slots, (f.fields.map Prod.fst).Nodup := by
    intro f hf
    obtain ⟨op, i, -, hf⟩ := mem_repeatOver.mp hf
    simp only [slots, List.mem_cons, List.not_mem_nil, or_false] at hf
    rcases hf with rfl | rfl | rfl <;> simp [opFields]
  rcases h.toCompletion.origin_fields hslots hnodup hid.occurring with
    ⟨e, he, htype, -⟩ | ⟨f, hf, htype, hfid, hreads⟩
  · -- the events of the trace have other types
    have hinput := hoperations.types e he
    rw [htype] at hinput
    revert hinput hevent
    simp only [List.mem_cons, Prod.mk.injEq, List.not_mem_nil, or_false, inputTypes]
    rintro (⟨rfl, -⟩ | ⟨rfl, -⟩) <;> simp
  · obtain ⟨op', i, hmem, hf⟩ := mem_repeatOver.mp hf
    have hfields : f.id = indexed stem i ∧ ("op_id", Term.value op'.opId) ∈ f.fields ∧
        ("path", Term.value (.str path)) ∈ f.fields := by
      simp only [List.mem_cons, Prod.mk.injEq, List.not_mem_nil, or_false] at hevent
      simp only [slots, List.mem_cons, List.not_mem_nil, or_false] at hf
      rcases hevent with ⟨rfl, rfl, rfl⟩ | ⟨rfl, rfl, rfl⟩ <;>
        rcases hf with rfl | rfl | rfl <;> simp [opFields] at htype ⊢
    have hopId := hreads "op_id" op'.opId (by decide) (by decide) hfields.2.1
    have hop' : op' ∈ ops := mem_of_mem_zipIdx hmem
    have hsame : op'.toMemoryOp = op.toMemoryOp :=
      hoperations.op_unique (List.mem_map_of_mem hop') (List.mem_map_of_mem hop)
        ((show (problem.context interpreter assignment).Carries id "op_id" op'.opId from
          ⟨_, hopId, rfl⟩).unique (hid.carries _ List.mem_cons_self))
    obtain rfl := eq_of_entry h hop' hop (congrArg entry hsame)
    exact ⟨i, hmem, hfid.symm.trans hfields.1, _, hreads _ _ (by decide) (by decide) hfields.2.2,
      rfl⟩

/-- A store is retired once. -/
theorem retire_unique
    (h : ModuleCompletion (virtualStoreQueue ops) catalog trace spec problem interpreter assignment
      pre) (hslots : spec.SlotsFrom (virtualStoreQueue ops).slots)
    (hoperations : Operations inputTypes (ops.map Op.toMemoryOp) trace) {op : Op} (hop : op ∈ ops)
    {a b : String} (ha : op.Of problem (problem.context interpreter assignment) "SQ.Retire" a)
    (hb : op.Of problem (problem.context interpreter assignment) "SQ.Retire" b) : a = b := by
  obtain ⟨i, hi, rfl, -⟩ := slot_of_event h hslots hoperations hop List.mem_cons_self ha
  obtain ⟨j, hj, rfl, -⟩ := slot_of_event h hslots hoperations hop List.mem_cons_self hb
  obtain ⟨-, rfl⟩ := eq_of_mem_repeatOver (f := fun op _ => cells op) h.cells_nodup hi hj
    (List.mem_singleton_self _) (List.mem_singleton_self _) rfl
  rfl

/-! ## Entries -/

/-- An entry is set by the allocation that follows the issue of its store. -/
theorem issue_of_set
    (h : ModuleCompletion (virtualStoreQueue ops) catalog trace spec problem interpreter assignment
      pre) {op : Op} (hop : op ∈ ops) {c : Nat}
    (hset : (virtualStoreQueue ops).SetsFlag problem (problem.context interpreter assignment)
      (entry op.toMemoryOp) true c) :
    ∃ a b, op.Issued problem (problem.context interpreter assignment) "store" a ∧
      op.Of problem (problem.context interpreter assignment) "SQ.Allocate" b ∧
      Later (problem.context interpreter assignment) a b 1 ∧
      (problem.context interpreter assignment).AtCycle b c := by
  obtain ⟨rule, hrule, ins, outs, hfires, u, hu, hstate, ⟨sort, hvalue⟩, hcycle⟩ := hset
  obtain ⟨op', hop', i, ⟨rfl, rfl⟩ | ⟨rfl, rfl⟩ | ⟨rfl, rfl⟩⟩ := rule_of_update hrule hu
  · obtain rfl := eq_of_entry h hop' hop hstate
    obtain ⟨a, b, rfl, rfl, hlinks, ha, hb⟩ := hfires.links rfl rfl
    have hbinding : (storeIssueAllocatesVsq op'.toMemoryOp i).binding ([a] ++ [b]) =
      [("issue", a), ("allocate", b)] := rfl
    have hwhen := holds_allOf.mp hfires.when
    have hof := holds_ofOp.mp hfires.outputWhen
    have hlater := holds_later.mp (hfires.ensure _ List.mem_cons_self)
    simp only [List.forall_mem_cons, holds_ofOp, holds_fieldIs, hbinding, apply_input] at hwhen
    rw [hbinding, apply_output (by decide)] at hof hlater
    rw [apply_input] at hlater
    refine ⟨a, b, ⟨ha, ?_⟩, ⟨hb, List.forall_mem_singleton.mpr hof⟩, hlater, hcycle⟩
    exact List.forall_mem_cons.mpr ⟨hwhen.1, List.forall_mem_singleton.mpr hwhen.2.1⟩
  · cases hvalue
  · cases hvalue

theorem set_unique
    (h : ModuleCompletion (virtualStoreQueue ops) catalog trace spec problem interpreter assignment
      pre)
    (hissued : IssuedInOrder problem (problem.context interpreter assignment) "store"
      (ops.map Op.toMemoryOp)) {op : Op} (hop : op ∈ ops) (c d : Nat)
    (hc : (virtualStoreQueue ops).SetsFlag problem (problem.context interpreter assignment)
      (entry op.toMemoryOp) true c)
    (hd : (virtualStoreQueue ops).SetsFlag problem (problem.context interpreter assignment)
      (entry op.toMemoryOp) true d) : c = d := by
  obtain ⟨a, b, ha, -, hlater, hcycle⟩ := issue_of_set h hop hc
  obtain ⟨a', b', ha', -, hlater', hcycle'⟩ := issue_of_set h hop hd
  obtain rfl := hissued.once _ (List.mem_map_of_mem hop) a a' ha ha'
  exact hlater.unique hlater' hcycle hcycle'

/-- An entry is cleared by the retirement or the recovery of its store. -/
theorem event_of_clear
    (h : ModuleCompletion (virtualStoreQueue ops) catalog trace spec problem interpreter assignment
      pre) {op : Op} (hop : op ∈ ops) {c : Nat}
    (hclear : (virtualStoreQueue ops).SetsFlag problem (problem.context interpreter assignment)
      (entry op.toMemoryOp) false c) :
    ∃ b, (problem.context interpreter assignment).AtCycle b c ∧
      (op.Of problem (problem.context interpreter assignment) "SQ.Retire" b ∨
        op.Of problem (problem.context interpreter assignment) "SQ.RedirectRecover" b) := by
  obtain ⟨rule, hrule, ins, outs, hfires, u, hu, hstate, ⟨sort, hvalue⟩, hcycle⟩ := hclear
  obtain ⟨op', hop', i, ⟨rfl, rfl⟩ | ⟨rfl, rfl⟩ | ⟨rfl, rfl⟩⟩ := rule_of_update hrule hu
  · cases hvalue
  · obtain rfl := eq_of_entry h hop' hop hstate
    have hapart : (committedStoreRetiresVsq op'.toMemoryOp i).RolesApart :=
      (by decide : ["allocate", "commit", "retire"].Nodup)
    have hrole : ("retire", "SQ.Retire") ∈ (committedStoreRetiresVsq op'.toMemoryOp i).inputs ++
        (committedStoreRetiresVsq op'.toMemoryOp i).outputs := by
      simp [committedStoreRetiresVsq]
    have hof := holds_ofOp.mp (holds_allOf.mp hfires.outputWhen _ List.mem_cons_self)
    exact ⟨_, hcycle, Or.inl ⟨hfires.occurring hapart hrole, List.forall_mem_singleton.mpr hof⟩⟩
  · obtain rfl := eq_of_entry h hop' hop hstate
    have hrole : ("recover", "SQ.RedirectRecover") ∈
        (redirectRecoveryReclaimsVsq op'.toMemoryOp i).inputs ++
          (redirectRecoveryReclaimsVsq op'.toMemoryOp i).outputs := List.mem_cons_self
    have hof := holds_ofOp.mp (holds_allOf.mp hfires.when _ List.mem_cons_self)
    exact ⟨_, hcycle, Or.inr ⟨hfires.occurring (by decide : ["recover"].Nodup) hrole,
      List.forall_mem_singleton.mpr hof⟩⟩

/-- The commit of a retired store is one cycle before its retirement and finds its entry
allocated. -/
theorem commit_of_retire
    (h : ModuleCompletion (virtualStoreQueue ops) catalog trace spec problem interpreter assignment
      pre) (hslots : spec.SlotsFrom (virtualStoreQueue ops).slots)
    (hoperations : Operations inputTypes (ops.map Op.toMemoryOp) trace) {op : Op} (hop : op ∈ ops)
    {b : String} (hb : op.Of problem (problem.context interpreter assignment) "SQ.Retire" b) :
    ∃ a c, Committed problem (problem.context interpreter assignment) op a ∧
      (problem.context interpreter assignment).AtCycle a c ∧
      CellIs pre c (entry op.toMemoryOp) (.bool true) ∧
      (problem.context interpreter assignment).AtCycle b (c + 1) ∧ c + 1 ≤ spec.horizon ∧
      (virtualStoreQueue ops).SetsFlag problem (problem.context interpreter assignment)
        (entry op.toMemoryOp) false (c + 1) := by
  obtain ⟨-, -, -, hpath⟩ := slot_of_event h hslots hoperations hop List.mem_cons_self hb
  obtain ⟨i, hrules⟩ := mem_rules hop
  have hrule := hrules (committedStoreRetiresVsq op.toMemoryOp i) (by simp [rules])
  have hapart : (committedStoreRetiresVsq op.toMemoryOp i).RolesApart :=
    (by decide : ["allocate", "commit", "retire"].Nodup)
  obtain ⟨ins, hfires, hretire⟩ := h.exists_firing hrule rfl rfl hapart rfl hb.occurring (by
    refine holds_allOf.mpr (List.forall_mem_cons.mpr ⟨holds_ofOp.mpr ?_,
      List.forall_mem_singleton.mpr (holds_fieldIs.mpr ?_)⟩)
    · rw [apply_single]
      exact hb.carries _ List.mem_cons_self
    · rw [apply_single]
      exact hpath)
  have hrole : ("commit", "Core.MemoryCommit") ∈ (committedStoreRetiresVsq op.toMemoryOp i).inputs ++
      (committedStoreRetiresVsq op.toMemoryOp i).outputs := by
    simp [committedStoreRetiresVsq]
  have hwhen := holds_allOf.mp hfires.when
  simp only [List.forall_mem_cons, holds_ofOp, holds_fieldIs] at hwhen
  obtain ⟨c, -, hcycle, hcell⟩ := h.requires hrule rfl hfires List.mem_cons_self
  obtain ⟨d, hd, hdcycle, -⟩ := h.sets hrule rfl hfires List.mem_cons_self
  have hlater := holds_later.mp (hfires.ensure _ (List.mem_cons_of_mem _ List.mem_cons_self))
  obtain rfl : d = c + 1 := hlater.cycle_eq hcycle hdcycle
  refine ⟨_, c, ⟨hfires.occurring hapart hrole, ?_⟩, hcycle, hcell, hretire ▸ hdcycle, hd,
    ⟨_, hrule, _, _, hfires, _, List.mem_cons_self, rfl, ⟨.bool, rfl⟩, hdcycle⟩⟩
  exact List.forall_mem_cons.mpr ⟨hwhen.2.1, List.forall_mem_singleton.mpr hwhen.2.2.1⟩

/-- The guards of the rule that selects the entries of a redirect have results. -/
theorem returns_redirects
    (h : ModuleCompletion (virtualStoreQueue ops) catalog trace spec problem interpreter assignment
      pre) {op : MemoryOp} {i : Nat}
    (hrule : redirectSelectsLiveVsqEntry op i ∈ (virtualStoreQueue ops).rules) {a r : String}
    (ha : Occurring problem (problem.context interpreter assignment) "SQ.Allocate" a)
    (hr : Occurring problem (problem.context interpreter assignment) "Core.Redirect" r) :
    ∀ e ∈ redirects op, (problem.context interpreter assignment).Returns
      (RoleBinding.instantiate [("allocate", a), ("redirect", r)] e) := by
  have hne : a ≠ r := by
    rintro rfl
    exact absurd (h.toCompletion.type_unique ha hr) (by decide)
  have hreturns := h.guarded_guard_returns hrule rfl
    (by simp [redirectSelectsLiveVsqEntry, isAllocated]) (.cons ha (.cons hr .nil)) (by simpa using hne)
  rw [show (redirectSelectsLiveVsqEntry op i).when = allOf (ofOp op "allocate" :: redirects op)
    from rfl, allOf, RoleBinding.instantiate_nary] at hreturns
  intro e he
  exact returns_nary.mp hreturns _ (List.mem_map_of_mem (List.mem_cons_of_mem _ he))

/-- The redirect of a recovered store is two cycles before its recovery; both find its entry
allocated. -/
theorem redirect_of_recover
    (h : ModuleCompletion (virtualStoreQueue ops) catalog trace spec problem interpreter assignment
      pre) (hslots : spec.SlotsFrom (virtualStoreQueue ops).slots)
    (hoperations : Operations inputTypes (ops.map Op.toMemoryOp) trace) {op : Op} (hop : op ∈ ops)
    {b : String}
    (hb : op.Of problem (problem.context interpreter assignment) "SQ.RedirectRecover" b) :
    ∃ r c, op.Redirected problem (problem.context interpreter assignment) r ∧
      (problem.context interpreter assignment).AtCycle r c ∧
      CellIs pre c (entry op.toMemoryOp) (.bool true) ∧ c + 2 ≤ spec.horizon ∧
      CellIs pre (c + 2) (entry op.toMemoryOp) (.bool true) ∧
      (virtualStoreQueue ops).SetsFlag problem (problem.context interpreter assignment)
        (entry op.toMemoryOp) false (c + 2) := by
  obtain ⟨-, -, -, hpath⟩ := slot_of_event h hslots hoperations hop
    (List.mem_cons_of_mem _ List.mem_cons_self) hb
  obtain ⟨i, hrules⟩ := mem_rules hop
  have hscope : (problem.context interpreter assignment).Holds
      (RoleBinding.instantiate [("recover", b)] (onPath op.toMemoryOp "recover" "redirect")) := by
    refine holds_allOf.mpr (List.forall_mem_cons.mpr ⟨holds_ofOp.mpr ?_,
      List.forall_mem_singleton.mpr (holds_fieldIs.mpr ?_)⟩)
    · rw [apply_single]
      exact hb.carries _ List.mem_cons_self
    · rw [apply_single]
      exact hpath
  -- the redirect finds the entry
  have hselect := hrules (redirectSelectsLiveVsqEntry op.toMemoryOp i) (by simp [rules])
  obtain ⟨ins, hfires, hmeets⟩ := h.guarded_support hselect rfl rfl (.cons hb.occurring .nil)
    (List.nodup_singleton b) hscope
  obtain ⟨a, r, rfl, ha, hr⟩ : ∃ a r, ins = [a, r] ∧
      Occurring problem (problem.context interpreter assignment) "SQ.Allocate" a ∧
      Occurring problem (problem.context interpreter assignment) "Core.Redirect" r := by
    obtain - | ⟨ha, hrest⟩ := hfires.inputs
    obtain - | ⟨hr, hrest⟩ := hrest
    cases hrest
    exact ⟨_, _, rfl, ha, hr⟩
  have hbinding : (redirectSelectsLiveVsqEntry op.toMemoryOp i).binding ([a, r] ++ [b]) =
    [("allocate", a), ("redirect", r), ("recover", b)] := rfl
  obtain ⟨c, hc, hcycle, hcell⟩ := (hmeets _ List.mem_cons_self).exists_cycle
  have hlater := holds_later.mp (hfires.ensure _ (List.mem_cons_of_mem _ List.mem_cons_self))
  rw [hbinding] at hcycle hlater
  have hsame : RoleBinding.apply [("allocate", a), ("redirect", r), ("recover", b)] "redirect" =
    RoleBinding.apply [("allocate", a), ("redirect", r)] "redirect" := rfl
  have hredirected := (holds_redirects hr (returns_redirects h hselect ha hr)).mp (by
    intro e he
    rw [← instantiate_redirects hsame he]
    exact holds_allOf.mp hfires.when e (List.mem_cons_of_mem _ he))
  -- the recovery finds it again, and frees it
  have hreclaim := hrules (redirectRecoveryReclaimsVsq op.toMemoryOp i) (by simp [rules])
  have hfrees := h.fires_alone hreclaim rfl rfl rfl hb.occurring hscope
  obtain ⟨d, hd, hdcycle, hfound⟩ := h.requires hreclaim rfl hfrees List.mem_cons_self
  obtain rfl : d = c + 2 := hlater.cycle_eq hcycle hdcycle
  exact ⟨r, c, hredirected, hcycle, of_decide_eq_true hcell, hd, hfound,
    ⟨_, hreclaim, _, _, hfrees, _, List.mem_cons_self, rfl, ⟨.bool, rfl⟩, hdcycle⟩⟩

/-! ## Retirement and recovery -/

/-- A store that is retired and recovered commits one or two cycles after its redirect. -/
theorem retiredOrRecovered_of_commitsApart
    (h : ModuleCompletion (virtualStoreQueue ops) catalog trace spec problem interpreter assignment
      pre) (hslots : spec.SlotsFrom (virtualStoreQueue ops).slots)
    (hoperations : Operations inputTypes (ops.map Op.toMemoryOp) trace)
    (hissued : IssuedInOrder problem (problem.context interpreter assignment) "store"
      (ops.map Op.toMemoryOp))
    (hapart : CommitsApart problem (problem.context interpreter assignment) ops spec.horizon pre) :
    RetiredOrRecovered problem (problem.context interpreter assignment) ops := by
  intro op hop a b ha hb
  obtain ⟨commit, c, hcommit, hccycle, hcommitted, -, hchorizon, hretires⟩ :=
    commit_of_retire h hslots hoperations hop ha
  obtain ⟨r, d, hredirected, hdcycle, hselected, hdhorizon, hfound, hrecovers⟩ :=
    redirect_of_recover h hslots hoperations hop hb
  have hflag := h.flag (isFlag hop)
  have honce := set_unique h hissued hop
  have hne := hapart op hop r d (by omega) hredirected hdcycle hselected commit c hcommit hccycle
  rcases Nat.lt_or_ge d c with hlt | hle
  · -- the recovery has freed the entry before the commit
    exact hflag.off_of_clear honce hselected (by omega) hrecovers (by omega) (by omega) hcommitted
  · -- the retirement has freed it before the recovery
    exact hflag.off_of_clear honce hcommitted (by omega) hretires (by omega) (by omega) hfound

/-- A store that commits with its entry allocated is retired. -/
theorem retire_of_commit
    (h : ModuleCompletion (virtualStoreQueue ops) catalog trace spec problem interpreter assignment
      pre) {op : Op} (hop : op ∈ ops) {a b : String}
    (ha : op.Of problem (problem.context interpreter assignment) "SQ.Allocate" a)
    (hb : Committed problem (problem.context interpreter assignment) op b) :
    ∃ c, op.Of problem (problem.context interpreter assignment) "SQ.Retire" c := by
  obtain ⟨i, hrules⟩ := mem_rules hop
  have hrule := hrules (committedStoreRetiresVsq op.toMemoryOp i) (by simp [rules])
  have hne : a ≠ b := by
    rintro rfl
    exact absurd (h.toCompletion.type_unique ha.occurring hb.occurring) (by decide)
  obtain ⟨outs, hfires⟩ := h.forward hrule rfl (.cons ha.occurring (.cons hb.occurring .nil))
    (by simpa using hne) (by
      refine holds_allOf.mpr ?_
      simp only [List.forall_mem_cons, holds_ofOp, holds_fieldIs]
      exact ⟨ha.carries _ List.mem_cons_self, hb.carries _ List.mem_cons_self,
        hb.carries _ (List.mem_cons_of_mem _ List.mem_cons_self), by simp⟩)
  have hapart : (committedStoreRetiresVsq op.toMemoryOp i).RolesApart :=
    (by decide : ["allocate", "commit", "retire"].Nodup)
  have hrole : ("retire", "SQ.Retire") ∈ (committedStoreRetiresVsq op.toMemoryOp i).inputs ++
      (committedStoreRetiresVsq op.toMemoryOp i).outputs := by
    simp [committedStoreRetiresVsq]
  have hof := holds_ofOp.mp (holds_allOf.mp hfires.outputWhen _ List.mem_cons_self)
  exact ⟨_, hfires.occurring hapart hrole, List.forall_mem_singleton.mpr hof⟩

/-- A store that a redirect reaches with its entry allocated is recovered. -/
theorem recover_of_redirect
    (h : ModuleCompletion (virtualStoreQueue ops) catalog trace spec problem interpreter assignment
      pre) {op : Op} (hop : op ∈ ops) {a r : String} {c : Nat}
    (ha : op.Of problem (problem.context interpreter assignment) "SQ.Allocate" a)
    (hr : op.Redirected problem (problem.context interpreter assignment) r)
    (hcycle : (problem.context interpreter assignment).AtCycle r c)
    (hcell : CellIs pre c (entry op.toMemoryOp) (.bool true)) :
    ∃ b, op.Of problem (problem.context interpreter assignment) "SQ.RedirectRecover" b := by
  obtain ⟨i, hrules⟩ := mem_rules hop
  have hrule := hrules (redirectSelectsLiveVsqEntry op.toMemoryOp i) (by simp [rules])
  have hne : a ≠ r := by
    rintro rfl
    exact absurd (h.toCompletion.type_unique ha.occurring hr.occurring) (by decide)
  have hguards := (holds_redirects (b := [("allocate", a), ("redirect", r)]) hr.occurring
    (returns_redirects h hrule ha.occurring hr.occurring)).mpr hr
  rcases h.guarded_forward hrule rfl (by simp [redirectSelectsLiveVsqEntry, isAllocated])
      (.cons ha.occurring (.cons hr.occurring .nil)) (by simpa using hne)
      (holds_allOf.mpr (List.forall_mem_cons.mpr
        ⟨holds_ofOp.mpr (ha.carries _ List.mem_cons_self), hguards⟩))
    with ⟨requirement, hrequirement, hunmet⟩ | ⟨-, outs, hfires⟩
  · -- the only requirement is that the entry is allocated
    obtain rfl := List.mem_singleton.mp hrequirement
    obtain ⟨d, -, hdcycle, hfree⟩ := hunmet.exists_cycle
    cases hdcycle.unique hcycle
    exact absurd hcell (of_decide_eq_false hfree)
  · have hapart : (redirectSelectsLiveVsqEntry op.toMemoryOp i).RolesApart :=
      (by decide : ["allocate", "redirect", "recover"].Nodup)
    have hrole : ("recover", "SQ.RedirectRecover") ∈
        (redirectSelectsLiveVsqEntry op.toMemoryOp i).inputs ++
          (redirectSelectsLiveVsqEntry op.toMemoryOp i).outputs := by
      simp [redirectSelectsLiveVsqEntry]
    have hof := holds_ofOp.mp (holds_allOf.mp hfires.outputWhen _ List.mem_cons_self)
    exact ⟨_, hfires.occurring hapart hrole, List.forall_mem_singleton.mpr hof⟩

/-- A store that commits shortly after a redirect found its entry is retired and recovered. -/
theorem commitsApart_of_retiredOrRecovered
    (h : ModuleCompletion (virtualStoreQueue ops) catalog trace spec problem interpreter assignment
      pre) (hexclusive : RetiredOrRecovered problem (problem.context interpreter assignment) ops) :
    CommitsApart problem (problem.context interpreter assignment) ops spec.horizon
      pre := by
  intro op hop r c hc hredirected hcycle hcell b d hcommit hdcycle
  by_contra hclose
  obtain ⟨s, -, hset, -⟩ := ((h.flag (isFlag hop)).on_iff (by omega)).mp hcell
  obtain ⟨-, a, -, ha, -⟩ := issue_of_set h hop hset
  obtain ⟨e, he⟩ := retire_of_commit h hop ha hcommit
  obtain ⟨f, hf⟩ := recover_of_redirect h hop ha hredirected hcycle hcell
  exact hexclusive op hop e f he hf

/-! ## Order of retirement -/

/-- A retirement finds the entries of older stores free. -/
theorem free_of_retire
    (h : ModuleCompletion (virtualStoreQueue ops) catalog trace spec problem interpreter assignment
      pre) {older younger : Op} (holder : older ∈ ops) (hyounger : younger ∈ ops)
    (hlt : older.Older younger.toMemoryOp) {b : String} {c : Nat}
    (hb : younger.Of problem (problem.context interpreter assignment) "SQ.Retire" b)
    (hcycle : (problem.context interpreter assignment).AtCycle b c) :
    ¬ CellIs pre c (entry older.toMemoryOp) (.bool true) := by
  obtain ⟨i, hrules⟩ := mem_orderRules holder hyounger
  have hrule := hrules _ List.mem_cons_self
  have hfires := h.fires_alone hrule rfl rfl rfl hb.occurring (by
    refine holds_allOf.mpr (List.forall_mem_cons.mpr ⟨holds_ofOp.mpr ?_, holds_isOlder.mpr hlt⟩)
    rw [apply_single]
    exact hb.carries _ List.mem_cons_self)
  obtain ⟨d, -, hdcycle, hfree⟩ := h.requires hrule rfl hfires List.mem_cons_self
  cases hdcycle.unique hcycle
  exact hfree.not_true

/-- The commit of a retired store finds it allocated, since one cycle after its issue. -/
theorem set_of_retire
    (h : ModuleCompletion (virtualStoreQueue ops) catalog trace spec problem interpreter assignment
      pre) (hslots : spec.SlotsFrom (virtualStoreQueue ops).slots)
    (hoperations : Operations inputTypes (ops.map Op.toMemoryOp) trace) {op : Op} (hop : op ∈ ops)
    {b : String} {c : Nat}
    (hb : op.Of problem (problem.context interpreter assignment) "SQ.Retire" b)
    (hcycle : (problem.context interpreter assignment).AtCycle b c) :
    ∃ d s a, c = d + 1 ∧ c ≤ spec.horizon ∧ CellIs pre d (entry op.toMemoryOp) (.bool true) ∧ s < d ∧
      (virtualStoreQueue ops).SetsFlag problem (problem.context interpreter assignment)
        (entry op.toMemoryOp) true s ∧
      op.Issued problem (problem.context interpreter assignment) "store" a ∧
      ∀ e, (problem.context interpreter assignment).AtCycle a e → s = e + 1 := by
  obtain ⟨-, d, -, -, hcell, hdcycle, hd, -⟩ := commit_of_retire h hslots hoperations hop hb
  cases hdcycle.unique hcycle
  obtain ⟨s, hs, hset, -⟩ := ((h.flag (isFlag hop)).on_iff (by omega)).mp hcell
  obtain ⟨a, b', ha, -, hlater, hscycle⟩ := issue_of_set h hop hset
  exact ⟨d, s, a, rfl, hd, hcell, hs, hset, ha, fun e he => hlater.cycle_eq he hscycle⟩

/-- The entry of a store stays allocated up to its retirement, unless it is recovered. -/
theorem allocated_of_retire
    (h : ModuleCompletion (virtualStoreQueue ops) catalog trace spec problem interpreter assignment
      pre) (hslots : spec.SlotsFrom (virtualStoreQueue ops).slots)
    (hoperations : Operations inputTypes (ops.map Op.toMemoryOp) trace)
    (hissued : IssuedInOrder problem (problem.context interpreter assignment) "store"
      (ops.map Op.toMemoryOp))
    (hexclusive : RetiredOrRecovered problem (problem.context interpreter assignment) ops)
    {op : Op} (hop : op ∈ ops) {b : String} {c d s : Nat}
    (hb : op.Of problem (problem.context interpreter assignment) "SQ.Retire" b)
    (hcycle : (problem.context interpreter assignment).AtCycle b (d + 1)) (hd : d ≤ spec.horizon)
    (hcell : CellIs pre d (entry op.toMemoryOp) (.bool true)) (hsd : s < d)
    (hset : (virtualStoreQueue ops).SetsFlag problem (problem.context interpreter assignment)
      (entry op.toMemoryOp) true s) (hsc : s < c) (hcd : c ≤ d + 1) :
    CellIs pre c (entry op.toMemoryOp) (.bool true) := by
  have hflag := h.flag (isFlag hop)
  have honce := set_unique h hissued hop
  rcases Nat.lt_or_ge d c with hlt | hle
  · -- nothing happens to the entry in the cycle before its retirement
    obtain rfl : c = d + 1 := by omega
    refine (hflag.kept d hd ?_ ?_).mpr hcell
    · intro hagain
      have heq := honce s d hset hagain
      omega
    · intro hclear
      obtain ⟨e, hecycle, he | he⟩ := event_of_clear h hop hclear
      · obtain rfl := retire_unique h hslots hoperations hop he hb
        have heq := hecycle.unique hcycle
        omega
      · exact hexclusive op hop b e hb he
  · exact hflag.on_of_on honce hset hsc hle (by omega) hcell

/-- Stores that are not recovered retire in program order. -/
theorem retiresInOrder_of_retiredOrRecovered
    (h : ModuleCompletion (virtualStoreQueue ops) catalog trace spec problem interpreter assignment
      pre) (hslots : spec.SlotsFrom (virtualStoreQueue ops).slots)
    (hoperations : Operations inputTypes (ops.map Op.toMemoryOp) trace)
    (hissued : IssuedInOrder problem (problem.context interpreter assignment) "store"
      (ops.map Op.toMemoryOp))
    (hexclusive : RetiredOrRecovered problem (problem.context interpreter assignment) ops) :
    RetiresInOrder problem (problem.context interpreter assignment) ops := by
  intro older holder younger hyounger hlt a b ha hb
  obtain ⟨-, c, -, -, -, hacycle, -⟩ := commit_of_retire h hslots hoperations holder ha
  obtain ⟨-, d, -, -, -, hbcycle, -⟩ := commit_of_retire h hslots hoperations hyounger hb
  obtain ⟨c', s, issue, hc', hchorizon, hon, hsc, hset, hissue, hs⟩ :=
    set_of_retire h hslots hoperations holder ha hacycle
  obtain ⟨d', t, issue', hd', -, -, htd, -, hissue', ht⟩ :=
    set_of_retire h hslots hoperations hyounger hb hbcycle
  obtain ⟨m, n, hm, hn, hmn⟩ := hissued.ordered _ (List.mem_map_of_mem holder) _
    (List.mem_map_of_mem hyounger) hlt issue issue' hissue hissue'
  have hsm := hs m hm
  have htn := ht n hn
  refine ⟨c + 1, d + 1, hacycle, hbcycle, ?_⟩
  by_contra hge
  refine free_of_retire h holder hyounger hlt hb hbcycle ?_
  -- the older store is still allocated when the younger one retires
  obtain rfl : c' = c := by omega
  exact allocated_of_retire h hslots hoperations hissued hexclusive holder ha hacycle (by omega) hon
    hsc hset (by omega) (by omega)

/-- Retirement excludes recovery and follows the program order exactly when no store commits
one or two cycles after a redirect that finds its entry allocated. -/
theorem retires_iff
    (h : ModuleCompletion (virtualStoreQueue ops) catalog trace spec problem interpreter assignment
      pre) {horizon : Nat} (hspec : (virtualStoreQueue ops).alone horizon = .ok spec)
    (hoperations : Operations inputTypes (ops.map Op.toMemoryOp) trace)
    (hissued : IssuedInOrder problem (problem.context interpreter assignment) "store"
      (ops.map Op.toMemoryOp)) :
    RetiredOrRecovered problem (problem.context interpreter assignment) ops ∧
      RetiresInOrder problem (problem.context interpreter assignment) ops ↔
    CommitsApart problem (problem.context interpreter assignment) ops horizon pre := by
  have hslots := slotsFrom_of_alone hspec
  obtain rfl := horizon_of_alone hspec
  constructor
  · intro hretires
    exact commitsApart_of_retiredOrRecovered h hretires.1
  · intro hapart
    have hexclusive := retiredOrRecovered_of_commitsApart h hslots hoperations hissued hapart
    exact ⟨hexclusive,
      retiresInOrder_of_retiredOrRecovered h hslots hoperations hissued hexclusive⟩

end Completion

/-! ## Runs -/

def store (opId : String) (index : Int) : Op where
  opId := .str opId
  hart := .int 0
  programIndex := .int index
  robIdx := .int index
  sqIdx := .int index

def issuing (op : Op) (id : String) (cycle : Nat) : EventFields where
  id := id
  eventType := "Core.MemoryIssue"
  cycle := cycle
  fields :=
    [("op_id", op.opId), ("hart", op.hart), ("program_index", op.programIndex),
      ("rob_idx", op.robIdx), ("mem_kind", .str "store"), ("vaddr", .int 4096), ("size", .int 8),
      ("sq_idx", op.sqIdx)]

def committing (op : Op) (id : String) (cycle : Nat) : EventFields where
  id := id
  eventType := "Core.MemoryCommit"
  cycle := cycle
  fields :=
    [("op_id", op.opId), ("hart", op.hart), ("rob_idx", op.robIdx), ("mem_kind", .str "store")]

def redirecting (id : String) (cycle : Nat) : EventFields where
  id := id
  eventType := "Core.Redirect"
  cycle := cycle
  fields :=
    [("hart", .int 0), ("program_index", .int 0), ("rob_idx", .int 0),
      ("cause", .str "memory_violation"), ("source_op_id", .str "z")]

def slotStems : List String := ["vsq_allocate", "vsq_retire", "vsq_redirect_recover"]

/-- The slots of a store that is allocated, retired and recovered. -/
def leaving (opId : String) (index allocate retire recover : Nat) : List (String × Value) :=
  ModuleRun.chosen (indexed "vsq_allocate" index) allocate ++
    ModuleRun.chosen (indexed "vsq_retire" index) retire ++
    ModuleRun.chosen (indexed "vsq_redirect_recover" index) recover ++
    [(s!"vsq::{opId}::redirect_cause", .str "memory_violation")]

def first : Op := store "a" 1

def second : Op := store "b" 2

/-- Two stores that commit one and two cycles after a redirect. -/
def overtaken : ModuleRun where
  file := virtualStoreQueue [first, second]
  eventTypes := storeQueueTypes
  events := [issuing first "t0" 0, issuing second "t1" 1, redirecting "t2" 4,
    committing first "t3" 5, committing second "t4" 6]
  horizon := 10
  assignment := leaving "a" 0 1 6 6 ++ leaving "b" 1 2 7 6

/-- The issues of the two stores, and the two ways out of the first one. -/
def showsOvertaken (problem : BoundedProblem) (context : EvaluationContext) : Bool :=
  allOccur problem context "Core.MemoryIssue" (fun id =>
      id = "t0" && context.Carries id "op_id" first.opId && context.cycle? id = some 0 ||
        id = "t1" && context.Carries id "op_id" second.opId && context.cycle? id = some 1) &&
    6 ∈ sightings problem context "SQ.Retire" [("op_id", first.opId)] &&
    6 ∈ sightings problem context "SQ.RedirectRecover" [("op_id", first.opId)]

theorem overtaken_satisfies : overtaken.satisfies .integers = true := by decide +kernel

theorem overtaken_settles : overtaken.settles .integers showsOvertaken = true := by decide +kernel

theorem overtaken_operations {built : ModuleRun.Built} (hbuild : overtaken.build = .ok built) :
    Operations inputTypes ([first, second].map Op.toMemoryOp) built.trace := by
  refine ⟨by decide, fun e he => ?_⟩
  obtain ⟨f, hf, hevent⟩ := ModuleRun.mem_events_of_build hbuild he
  rw [(ModuleRun.event_eq_ok hevent).2.1]
  revert f
  simp [overtaken, issuing, committing, redirecting, inputTypes]

/-- The issue of a store of the run. -/
theorem issue_of_shows {problem : BoundedProblem} {context : EvaluationContext}
    (h : showsOvertaken problem context = true) {op : MemoryOp}
    (hop : op ∈ [first, second].map Op.toMemoryOp) {id : String}
    (hid : op.Issued problem context "store" id) :
    op = first.toMemoryOp ∧ id = "t0" ∧ context.AtCycle id 0 ∨
      op = second.toMemoryOp ∧ id = "t1" ∧ context.AtCycle id 1 := by
  rw [showsOvertaken, Bool.and_eq_true, Bool.and_eq_true] at h
  have hall := of_allOccur h.1.1 hid.occurring
  simp only [Bool.or_eq_true, Bool.and_eq_true, decide_eq_true_eq,
    EvaluationContext.cycle?_eq_some] at hall
  have hopId := hid.carries _ List.mem_cons_self
  simp only [List.map_cons, List.map_nil, List.mem_cons, List.not_mem_nil, or_false] at hop
  rcases hall with ⟨⟨rfl, hcarries⟩, hcycle⟩ | ⟨⟨rfl, hcarries⟩, hcycle⟩
  · rcases hop with rfl | rfl
    · exact Or.inl ⟨rfl, rfl, hcycle⟩
    · exact absurd (hopId.unique hcarries) (by decide)
  · rcases hop with rfl | rfl
    · exact absurd (hopId.unique hcarries) (by decide)
    · exact Or.inr ⟨rfl, rfl, hcycle⟩

theorem issuedInOrder_of_shows {problem : BoundedProblem} {context : EvaluationContext}
    (h : showsOvertaken problem context = true) :
    IssuedInOrder problem context "store" ([first, second].map Op.toMemoryOp) := by
  constructor
  case once =>
    intro op hop a b ha hb
    rcases issue_of_shows h hop ha with ⟨rfl, rfl, -⟩ | ⟨rfl, rfl, -⟩ <;>
      rcases issue_of_shows h hop hb with ⟨hop', rfl, -⟩ | ⟨hop', rfl, -⟩
    · rfl
    · exact absurd (congrArg MemoryOp.opId hop') (by decide)
    · exact absurd (congrArg MemoryOp.opId hop') (by decide)
    · rfl
  case ordered =>
    intro older holder younger hyounger hlt a b ha hb
    rcases issue_of_shows h holder ha with ⟨rfl, -, ha⟩ | ⟨rfl, -, ha⟩ <;>
      rcases issue_of_shows h hyounger hb with ⟨rfl, -, hb⟩ | ⟨rfl, -, hb⟩
    · exact absurd hlt.index (by decide)
    · exact ⟨0, 1, ha, hb, by decide⟩
    · exact absurd hlt.index (by decide)
    · exact absurd hlt.index (by decide)

theorem overtaken_close : ∃ problem pre, overtaken.Completes .integers problem pre ∧
    Seen problem (problem.context .integers (.ofList overtaken.assignment)) "SQ.Retire"
      [("op_id", first.opId)] 6 ∧
    Seen problem (problem.context .integers (.ofList overtaken.assignment)) "SQ.RedirectRecover"
      [("op_id", first.opId)] 6 ∧
    ¬ CommitsApart problem (problem.context .integers (.ofList overtaken.assignment))
      [first, second] 10 pre := by
  obtain ⟨built, pre, hbuild, hcompletes, hshows⟩ := ModuleRun.exists_built
    (ModuleRun.demonstrates_of_settles overtaken_satisfies overtaken_settles)
  have h := ModuleRun.completion_of_build hbuild hcompletes
  have hspec := (ModuleRun.build_eq_ok hbuild).1
  have hiff := retires_iff h hspec (overtaken_operations hbuild) (issuedInOrder_of_shows hshows)
  rw [showsOvertaken, Bool.and_eq_true, Bool.and_eq_true, decide_eq_true_eq,
    decide_eq_true_eq] at hshows
  have hretire := mem_sightings.mp hshows.1.2
  have hrecover := mem_sightings.mp hshows.2
  refine ⟨built.problem, pre, ⟨_, _, _, h⟩, hretire, hrecover, ?_⟩
  intro hapart
  obtain ⟨a, ha, -⟩ := hretire
  obtain ⟨b, hb, -⟩ := hrecover
  exact (hiff.mpr hapart).1 first List.mem_cons_self a b ha hb

end StoreQueue

end Xiangshan

end Umcm
