import Umcm.Boom.Tlb
import Umcm.Data.Timeline

/-!
# Page-table walks

A miss takes the walker of its hart from `READY` to `REQUEST`, its request to
`WAIT` and a refill back to `READY`. The walker does not say whose walk it is
on: two misses of one cycle both find it `READY`, and a refill gives it back
whoever it is for.

* `oneWalk_of_answers`: a hart has one outstanding walk as long as its misses
  do not share a cycle and refills answer its latest miss.
-/

namespace Umcm

namespace Boom

open EvaluationContext

namespace Tlb

section Events

variable (problem : BoundedProblem) (context : EvaluationContext)

/-- A miss of the hart. -/
def Misses (hart : Int) (id : String) : Prop :=
  Showing problem context "TLB.Miss" [("hart", .int hart)] id

/-- Both events are of one operation, hart and page number. -/
structure SameWalk (id id' : String) : Prop where
  opId : context.Agree id id' "op_id" "op_id"
  hart : context.Agree id id' "hart" "hart"
  vpn : context.Agree id id' "vpn" "vpn"

/-- A refill for the miss comes before the cycle. -/
def RefilledBefore (miss : String) (c : Nat) : Prop :=
  ∃ refill e, Occurring problem context "TLB.Refill" refill ∧ SameWalk context miss refill ∧
    context.AtCycle refill e ∧ e < c

/-- Of two misses of a hart, one is refilled before the other. -/
def OneWalk : Prop :=
  ∀ hart a b c d, a ≠ b → Misses problem context hart a → Misses problem context hart b →
    context.AtCycle a c → context.AtCycle b d →
      RefilledBefore problem context a d ∨ RefilledBefore problem context b c

/-- The miss is the latest of the hart before the cycle. -/
structure LatestMiss (hart : Int) (miss : String) (c : Nat) : Prop where
  misses : Misses problem context hart miss
  earlier : ∃ d < c, context.AtCycle miss d ∧
    ∀ id e, Misses problem context hart id → context.AtCycle id e → e < c → e ≤ d

/-- The fields of an event of the operation on the page. -/
def walkOf (op : Op) (page : Page) : List (String × Value) :=
  [("op_id", op.opId), ("hart", .int op.hart), ("vpn", page.vpn)]

/-- Misses are of known operations and pages and do not share a cycle on a hart;
refills answer the latest miss. -/
structure AnswersMisses (ops : List Op) (pages : List Page) : Prop where
  known : ∀ id, Occurring problem context "TLB.Miss" id → ∃ op ∈ ops, ∃ page ∈ pages,
    op.hart = page.hart ∧ Showing problem context "TLB.Miss" (walkOf op page) id
  apart : ∀ hart a b c, Misses problem context hart a → Misses problem context hart b →
    context.AtCycle a c → context.AtCycle b c → a = b
  answers : ∀ op ∈ ops, ∀ refill c,
    Showing problem context "TLB.Refill" [("op_id", op.opId)] refill →
      context.AtCycle refill c → ∀ miss, LatestMiss problem context op.hart miss c →
        SameWalk context miss refill

end Events

section Completion

variable {ops : List Op} {pages : List Page} {catalog : EventCatalog} {trace : Trace}
  {spec : CompletionSpec} {problem : BoundedProblem} {interpreter : Interpreter}
  {assignment : Dict String Value} {pre : CellStates}

theorem mem_rules {op : Op} (hop : op ∈ ops) {page : Page} (hpage : page ∈ pages) :
    ∃ i, ∀ rule ∈ rules op page i, rule ∈ (nbdtlb ops pages).rules := by
  obtain ⟨i, hi⟩ := exists_mem_product_zipIdx hop hpage
  exact ⟨i, fun rule hrule =>
    List.mem_append_right _ (mem_repeatProduct.mpr ⟨op, page, i, hi, hrule⟩)⟩

theorem hart_mem {op : Op} (hop : op ∈ ops) : op.hart ∈ harts ops :=
  List.mem_eraseDups.mpr (List.mem_map_of_mem hop)

theorem walker_mem {hart : Int} (hhart : hart ∈ harts ops) :
    ⟨walker hart, stringSort, ready⟩ ∈ (nbdtlb ops pages).stateVariables :=
  List.mem_append_left _ (List.mem_map_of_mem hhart)

/-- A walker has one hart. -/
theorem hart_of_walker
    (h : ModuleCompletion (nbdtlb ops pages) catalog trace spec problem interpreter assignment pre)
    {hart hart' : Int} (hhart : hart ∈ harts ops) (hhart' : hart' ∈ harts ops)
    (heq : walker hart = walker hart') : hart = hart' := by
  have hnodup := h.cells_nodup
  rw [nbdtlb, List.map_append, List.map_map] at hnodup
  exact List.inj_on_of_nodup_map (List.Nodup.of_append_left hnodup) hhart hhart' heq

theorem walker_ne_valid {hart : Int} {page : Page} : valid page ≠ walker hart := by
  intro heq
  have hfield := field_of_cellOf (by decide) (by decide) heq
  exact absurd hfield (by decide)

/-- The scope of a walk, at an event with the hart of the operation. -/
theorem holds_inWalk {context : EvaluationContext} {op : Op} {page : Page}
    (hhart : op.hart = page.hart) {eventType role id : String}
    (hid : Showing problem context eventType (walkOf op page) id) :
    context.Holds (RoleBinding.instantiate [(role, id)] (inWalk op page role)) := by
  have hcarries := hid.carries
  simp only [walkOf, List.forall_mem_cons, List.not_mem_nil, false_imp_iff, implies_true,
    and_true] at hcarries
  rw [hhart] at hcarries
  simpa [inWalk, ofWalk, hartIs] using hcarries

/-- A miss finds the walker of its hart ready and leaves it on a request. -/
theorem walker_of_miss
    (h : ModuleCompletion (nbdtlb ops pages) catalog trace spec problem interpreter assignment pre)
    {op : Op} (hop : op ∈ ops) {page : Page} (hpage : page ∈ pages) (hhart : op.hart = page.hart)
    {id : String} (hid : Showing problem (problem.context interpreter assignment) "TLB.Miss"
      (walkOf op page) id) {c : Nat}
    (hcycle : (problem.context interpreter assignment).AtCycle id c) :
    c ≤ spec.horizon ∧ CellIs pre c (walker op.hart) ready ∧
      CellIs pre (c + 1) (walker op.hart) request := by
  obtain ⟨i, hrules⟩ := mem_rules hop hpage
  have hrule := hrules (missCapturesRefillTag op page i) (by simp [rules])
  obtain ⟨response, -, hlinks⟩ := h.support_one hrule rfl rfl rfl rfl hid.occurring
    (holds_inWalk hhart hid)
  obtain ⟨d, -, hdcycle, hready⟩ := requires_at_output h hrule rfl rfl rfl (by decide) hlinks
    List.mem_cons_self
  cases hdcycle.unique hcycle
  obtain ⟨hc, hrequest⟩ := sets_at_output h hrule rfl rfl rfl (by decide) hlinks hcycle
    List.mem_cons_self
  exact ⟨hc, hready, hrequest⟩

/-- A walker becomes ready at a refill of an operation of its hart. -/
theorem refill_of_ready
    (h : ModuleCompletion (nbdtlb ops pages) catalog trace spec problem interpreter assignment pre)
    {hart : Int} (hhart : hart ∈ harts ops) {c : Nat} (hc : c ≤ spec.horizon)
    (hbusy : ¬ CellIs pre c (walker hart) ready) (hready : CellIs pre (c + 1) (walker hart) ready) :
    ∃ op ∈ ops, op.hart = hart ∧ ∃ refill,
      Showing problem (problem.context interpreter assignment) "TLB.Refill" [("op_id", op.opId)]
        refill ∧ (problem.context interpreter assignment).AtCycle refill c := by
  obtain ⟨rule, hrule, ins, outs, hfires, u, hu, hstate, hcycle, w, hw, hafter⟩ :=
    h.sets_of_ne (walker_mem hhart) hc (fun hiff => hbusy (hiff.mpr hready))
  rcases List.mem_append.mp hrule with hrule | hrule
  · -- an invalidation writes a valid bit
    obtain ⟨page, i, -, hrule⟩ := mem_repeatOver.mp hrule
    obtain rfl := List.mem_singleton.mp hrule
    obtain rfl := List.mem_singleton.mp hu
    exact absurd hstate walker_ne_valid
  · obtain ⟨op, page, i, hmem, hrule⟩ := mem_repeatProduct.mp hrule
    have hop := (mem_of_mem_product_zipIdx hmem).1
    -- what is set is `READY`
    have hset : w.key = ready.key := hafter.unique hready
    simp only [rules, List.mem_cons, List.not_mem_nil, or_false] at hrule
    rcases hrule with rfl | rfl | rfl | rfl | rfl | rfl | rfl | rfl | rfl
    · cases hu
    · cases hu
    · cases hu
    · obtain rfl := List.mem_singleton.mp hu
      rw [walkerBecomes, RoleBinding.instantiate_literal, evaluate_literal] at hw
      cases hw
      exact absurd hset (by decide)
    · obtain rfl := List.mem_singleton.mp hu
      rw [walkerBecomes, RoleBinding.instantiate_literal, evaluate_literal] at hw
      cases hw
      exact absurd hset (by decide)
    · rcases List.mem_pair.mp hu with rfl | rfl
      · exact absurd hstate walker_ne_valid
      · obtain ⟨a, b, rfl, rfl, hlinks, -, hb⟩ := hfires.links rfl rfl
        rw [show (walkerBecomes op.hart "refill" ready).atRole = "refill" from rfl,
          anchor_output rfl rfl (by decide : "refill" ≠ "result")] at hcycle
        have hscope := (guards_of_link rfl rfl hlinks).2
        simp only [ptwResultRefillsEntry, inWalk, ofWalk, holds_allOf, List.forall_mem_cons,
          holds_fieldIs, apply_output (by decide : "refill" ≠ "result")] at hscope
        refine ⟨op, hop, hart_of_walker h (hart_mem hop) hhart hstate, b, ⟨hb, ?_⟩, hcycle⟩
        simpa using hscope.1
    · cases hu
    · cases hu
    · cases hu

/-- A known miss finds the walker of its hart ready and leaves it on a request. -/
theorem walker_of_known
    (h : ModuleCompletion (nbdtlb ops pages) catalog trace spec problem interpreter assignment pre)
    (hanswers : AnswersMisses problem (problem.context interpreter assignment) ops pages)
    {hart : Int} {id : String}
    (hid : Misses problem (problem.context interpreter assignment) hart id) {c : Nat}
    (hcycle : (problem.context interpreter assignment).AtCycle id c) :
    hart ∈ harts ops ∧ c ≤ spec.horizon ∧ CellIs pre c (walker hart) ready ∧
      CellIs pre (c + 1) (walker hart) request := by
  obtain ⟨op, hop, page, hpage, hhart, hwalk⟩ := hanswers.known id hid.occurring
  have hcarries := hwalk.carries ("hart", .int op.hart) (by simp [walkOf])
  have hkey := hcarries.unique (hid.carries ("hart", .int hart) List.mem_cons_self)
  have heq : op.hart = hart := by simpa [Value.key] using hkey
  subst heq
  exact ⟨hart_mem hop, walker_of_miss h hop hpage hhart hwalk hcycle⟩

/-- Between two misses of a hart the first one is refilled. -/
theorem refilled_between
    (h : ModuleCompletion (nbdtlb ops pages) catalog trace spec problem interpreter assignment pre)
    (hanswers : AnswersMisses problem (problem.context interpreter assignment) ops pages)
    {hart : Int} {a b : String} {c d : Nat}
    (ha : Misses problem (problem.context interpreter assignment) hart a)
    (hb : Misses problem (problem.context interpreter assignment) hart b)
    (hac : (problem.context interpreter assignment).AtCycle a c)
    (hbd : (problem.context interpreter assignment).AtCycle b d) (hlt : c < d) :
    RefilledBefore problem (problem.context interpreter assignment) a d := by
  obtain ⟨hhart, -, -, hrequest⟩ := walker_of_known h hanswers ha hac
  obtain ⟨-, hd, hready, -⟩ := walker_of_known h hanswers hb hbd
  have hbusy : ¬ CellIs pre (c + 1) (walker hart) ready := by
    intro hready'
    exact absurd (hrequest.unique hready') (by decide)
  obtain ⟨e, hce, hed, hall, hfall⟩ := @Timeline.exists_first_fall
    (fun e => ¬ CellIs pre e (walker hart) ready) (c + 1) d (by omega) hbusy (not_not_intro hready)
  obtain ⟨op, hop, hophart, refill, hrefill, hcycle⟩ :=
    refill_of_ready h hhart (by omega) (hall e hce le_rfl) (not_not.mp hfall)
  -- no miss falls between `a` and the refill: it would find the walker busy
  have hlatest : LatestMiss problem (problem.context interpreter assignment) op.hart a e := by
    rw [hophart]
    refine ⟨ha, c, by omega, hac, ?_⟩
    intro id f hid hf hfe
    by_contra hnot
    exact hall f (by omega) (by omega) (walker_of_known h hanswers hid hf).2.2.1
  exact ⟨refill, e, hrefill.occurring,
    hanswers.answers op hop refill e hrefill hcycle a hlatest, hcycle, hed⟩

/-- A hart has one outstanding walk as long as its misses do not share a cycle
and refills answer its latest miss. -/
theorem oneWalk_of_answers
    (h : ModuleCompletion (nbdtlb ops pages) catalog trace spec problem interpreter assignment pre)
    (hanswers : AnswersMisses problem (problem.context interpreter assignment) ops pages) :
    OneWalk problem (problem.context interpreter assignment) := by
  intro hart a b c d hne ha hb hac hbd
  rcases Nat.lt_trichotomy c d with hlt | rfl | hlt
  · exact Or.inl (refilled_between h hanswers ha hb hac hbd hlt)
  · exact absurd (hanswers.apart hart a b c ha hb hac hbd) hne
  · exact Or.inr (refilled_between h hanswers hb ha hbd hac hlt)

end Completion

/-! ## Runs -/

def load (opId : String) : Op where
  opId := .str opId
  hart := 0
  cacheable := .bool true

def loadA : Op := load "a"

def loadB : Op := load "b"

def page : Page where
  entryId := .str "p"
  hart := 0
  vpn := .int 1
  paddr := .int 4096
  initialValid := .bool false
  accessible := .bool true

/-- The first lookup of the operation, in cycle 0. -/
def requesting (op : Op) (id : String) : EventFields where
  id := id
  eventType := "TLB.Request"
  cycle := 0
  fields := walkOf op page ++ [("attempt", .int 0)]

/-- The result of the walk for the operation. -/
def walked (op : Op) (id : String) (cycle : Nat) : EventFields where
  id := id
  eventType := "TLB.PTWResult"
  cycle := cycle
  fields := walkOf op page ++ [("paddr", page.paddr), ("fault", .bool false)]

/-- An operation that misses in cycle `miss` and is refilled three cycles later. -/
def missAt (opId : String) (index miss : Nat) : List (String × Value) :=
  ModuleRun.chosen (indexed "tlb_decision_initial" index) 1 ++
    ModuleRun.chosen (indexed "tlb_response_initial" index) 2 ++
    ModuleRun.chosen (indexed "tlb_miss" index) miss ++
    ModuleRun.chosen (indexed "ptw_request" index) (miss + 1) ++
    ModuleRun.chosen (indexed "tlb_refill" index) (miss + 3) ++
    ModuleRun.chosen (indexed "tlb_miss_ready" index) (miss + 4) ++
    ModuleRun.skipped (indexed "tlb_decision_retry" index) ++
    ModuleRun.skipped (indexed "tlb_response_retry" index) ++
    [(s!"nbdtlb::{opId}::initial_hit", .bool false),
      (s!"nbdtlb::{opId}::initial_miss", .bool true),
      (s!"nbdtlb::{opId}::initial_pf", .bool false),
      (s!"nbdtlb::{opId}::retry_hit", .bool false),
      (s!"nbdtlb::{opId}::retry_miss", .bool false),
      (s!"nbdtlb::{opId}::retry_pf", .bool false)]

/-- Two loads of one page that miss in these cycles. -/
def twoLoads (missA missB : Nat) : ModuleRun where
  file := nbdtlb [loadA, loadB] [page]
  eventTypes := tlbTypes
  events := [requesting loadA "t0", requesting loadB "t1", walked loadA "t2" (missA + 2),
    walked loadB "t3" (missB + 2)]
  horizon := 14
  assignment := ModuleRun.skipped (indexed "tlb_invalidate" 0) ++ missAt "a" 0 missA ++
    missAt "b" 1 missB

/-- The event is that of the slot, of the walk of the operation and in the cycle. -/
def isSlot (context : EvaluationContext) (stem : String) (index : Nat) (op : Op) (c : Nat)
    (id : String) : Bool :=
  id = indexed stem index && (walkOf op page).all (fun p => context.Carries id p.1 p.2) &&
    context.cycle? id = some c

theorem of_isSlot {context : EvaluationContext} {stem : String} {index : Nat} {op : Op} {c : Nat}
    {id : String} (h : isSlot context stem index op c id = true) :
    id = indexed stem index ∧ (∀ p ∈ walkOf op page, context.Carries id p.1 p.2) ∧
      context.AtCycle id c := by
  simp only [isSlot, Bool.and_eq_true, decide_eq_true_eq, List.all_eq_true, cycle?_eq_some] at h
  exact ⟨h.1.1, h.1.2, h.2⟩

/-- The misses are the two of the loads in these cycles, and each is refilled
three cycles later. -/
def showsWalks (missA missB : Nat) (problem : BoundedProblem) (context : EvaluationContext) : Bool :=
  allOccur problem context "TLB.Miss" (fun id =>
    isSlot context "tlb_miss" 0 loadA missA id || isSlot context "tlb_miss" 1 loadB missB id) &&
  allOccur problem context "TLB.Refill" (fun id =>
    isSlot context "tlb_refill" 0 loadA (missA + 3) id ||
      isSlot context "tlb_refill" 1 loadB (missB + 3) id) &&
  sightings problem context "TLB.Miss" (walkOf loadA page) = [missA] &&
  sightings problem context "TLB.Miss" (walkOf loadB page) = [missB]

section Shows

variable {missA missB : Nat} {problem : BoundedProblem} {context : EvaluationContext}

theorem miss_of_shows (h : showsWalks missA missB problem context = true) {id : String}
    (hid : Occurring problem context "TLB.Miss" id) :
    isSlot context "tlb_miss" 0 loadA missA id = true ∨
      isSlot context "tlb_miss" 1 loadB missB id = true := by
  simp only [showsWalks, Bool.and_eq_true] at h
  have hmiss := of_allOccur h.1.1.1 hid
  rwa [Bool.or_eq_true] at hmiss

theorem refill_of_shows (h : showsWalks missA missB problem context = true) {id : String}
    (hid : Occurring problem context "TLB.Refill" id) :
    isSlot context "tlb_refill" 0 loadA (missA + 3) id = true ∨
      isSlot context "tlb_refill" 1 loadB (missB + 3) id = true := by
  simp only [showsWalks, Bool.and_eq_true] at h
  have hrefill := of_allOccur h.1.1.2 hid
  rwa [Bool.or_eq_true] at hrefill

/-- Both loads miss on hart 0. -/
theorem exists_misses (h : showsWalks missA missB problem context = true) :
    ∃ a b, a ≠ b ∧ Misses problem context 0 a ∧ Misses problem context 0 b ∧
      context.AtCycle a missA ∧ context.AtCycle b missB := by
  simp only [showsWalks, Bool.and_eq_true, decide_eq_true_eq] at h
  obtain ⟨a, ha, hac⟩ := mem_sightings.mp (h.1.2 ▸ List.mem_singleton_self missA)
  obtain ⟨b, hb, hbc⟩ := mem_sightings.mp (h.2 ▸ List.mem_singleton_self missB)
  refine ⟨a, b, ?_, ha.congr ?_, hb.congr ?_, hac, hbc⟩
  · rintro rfl
    have hkey := (ha.carries ("op_id", loadA.opId) (by simp [walkOf])).unique
      (hb.carries ("op_id", loadB.opId) (by simp [walkOf]))
    exact absurd hkey (by decide)
  · simp [walkOf, loadA, load]
  · simp [walkOf, loadB, load]

end Shows

/-- Both loads miss in cycle 3. -/
def sharedMisses : ModuleRun := twoLoads 3 3

theorem sharedMisses_not_oneWalk : ∃ problem pre, sharedMisses.Completes .integers problem pre ∧
    ¬ OneWalk problem (problem.context .integers (.ofList sharedMisses.assignment)) := by
  have haccepted : sharedMisses.demonstrates .integers (showsWalks 3 3) = true := by
    decide +kernel
  obtain ⟨problem, pre, hcompletes, hshows⟩ := ModuleRun.exists_completion haccepted
  refine ⟨problem, pre, hcompletes, fun hone => ?_⟩
  obtain ⟨a, b, hne, ha, hb, hac, hbc⟩ := exists_misses hshows
  -- both refills come in cycle 6
  have hlate : ∀ miss, ¬ RefilledBefore problem
      (problem.context .integers (.ofList sharedMisses.assignment)) miss 3 := by
    rintro miss ⟨refill, e, hrefill, -, hcycle, he⟩
    rcases refill_of_shows hshows hrefill with hslot | hslot
    · have heq := (of_isSlot hslot).2.2.unique hcycle
      omega
    · have heq := (of_isSlot hslot).2.2.unique hcycle
      omega
  rcases hone 0 a b 3 3 hne ha hb hac hbc with hrefilled | hrefilled
  · exact hlate a hrefilled
  · exact hlate b hrefilled

/-- The second load misses after the first one is refilled. -/
def sequentialMisses : ModuleRun := twoLoads 3 8

theorem sameWalk_of_carries {context : EvaluationContext} {op : Op} {id id' : String}
    (h : ∀ p ∈ walkOf op page, context.Carries id p.1 p.2)
    (h' : ∀ p ∈ walkOf op page, context.Carries id' p.1 p.2) : SameWalk context id id' := by
  have hagree : ∀ p ∈ walkOf op page, context.Agree id id' p.1 p.1 := by
    intro p hp
    obtain ⟨v, hv, hvkey⟩ := h p hp
    obtain ⟨w, hw, hwkey⟩ := h' p hp
    exact ⟨v, w, hv, hw, hvkey.trans hwkey.symm⟩
  simp only [walkOf, List.forall_mem_cons] at hagree
  exact ⟨hagree.1, hagree.2.1, hagree.2.2.1⟩

theorem answersMisses_of_shows {problem : BoundedProblem} {context : EvaluationContext}
    (h : showsWalks 3 8 problem context = true) :
    AnswersMisses problem context [loadA, loadB] [page] := by
  constructor
  case known =>
    intro id hid
    rcases miss_of_shows h hid with hslot | hslot
    · exact ⟨loadA, by simp, page, by simp, rfl, hid, (of_isSlot hslot).2.1⟩
    · exact ⟨loadB, by simp, page, by simp, rfl, hid, (of_isSlot hslot).2.1⟩
  case apart =>
    intro hart a b c ha hb hac hbc
    rcases miss_of_shows h ha.occurring with hslot | hslot <;>
      rcases miss_of_shows h hb.occurring with hslot' | hslot' <;>
      obtain ⟨rfl, -, hcycle⟩ := of_isSlot hslot <;>
      obtain ⟨rfl, -, hcycle'⟩ := of_isSlot hslot' <;>
      have heq := hac.unique hcycle <;> have heq' := hbc.unique hcycle'
    · rfl
    · omega
    · omega
    · rfl
  case answers =>
    rintro op hop refill c hrefill hcycle miss ⟨hmiss, d, hdc, hd, hlast⟩
    have hhart : op.hart = 0 := by
      rcases List.mem_pair.mp hop with rfl | rfl <;> rfl
    rw [hhart] at hlast
    rcases refill_of_shows h hrefill.occurring with hslot | hslot <;>
      rcases miss_of_shows h hmiss.occurring with hslot' | hslot' <;>
      obtain ⟨-, hcarries, hc⟩ := of_isSlot hslot <;>
      obtain ⟨-, hcarries', hd'⟩ := of_isSlot hslot' <;>
      have heq := hcycle.unique hc <;> have heq' := hd.unique hd'
    · exact sameWalk_of_carries hcarries' hcarries
    · omega
    · -- the second miss is later
      obtain ⟨-, b, -, -, hb, -, hbc⟩ := exists_misses h
      have hle := hlast b 8 hb hbc (by omega)
      omega
    · exact sameWalk_of_carries hcarries' hcarries

theorem sequentialMisses_oneWalk : ∃ problem pre,
    sequentialMisses.Completes .integers problem pre ∧
      showsWalks 3 8 problem (problem.context .integers (.ofList sequentialMisses.assignment)) ∧
      OneWalk problem (problem.context .integers (.ofList sequentialMisses.assignment)) := by
  have haccepted : sequentialMisses.demonstrates .integers (showsWalks 3 8) = true := by
    decide +kernel
  obtain ⟨problem, pre, ⟨catalog, trace, spec, h⟩, hshows⟩ := ModuleRun.exists_completion haccepted
  exact ⟨problem, pre, ⟨catalog, trace, spec, h⟩, hshows,
    oneWalk_of_answers h (answersMisses_of_shows hshows)⟩

end Tlb

end Boom

end Umcm
