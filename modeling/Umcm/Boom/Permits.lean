import Umcm.Boom.Entries
import Umcm.Data.Timeline

/-!
# Primary permits

An answer has an admission of its request in its cycle and finds the file as its
rule asks. A permit for an entry finds it free and leaves it with the block of
the admission, so that an entry is permitted again after a finish only. What the
file does not rule out are two permits of one cycle: they see the same file, and
their updates agree when their admissions do.

* `support_choice`: the admission of an answer.
* `onePrimary_of_apart`: an entry serves one primary request at a time as long
  as the admissions of a cycle differ.
-/

namespace Umcm

namespace Boom

open EvaluationContext

namespace Allocator

section Completion

variable {integrated : Bool} {reqs : List Req} {catalog : EventCatalog} {trace : Trace}
  {spec : CompletionSpec} {problem : BoundedProblem} {interpreter : Interpreter}
  {assignment : Dict String Value} {pre : CellStates}

/-- The event is an answer of the file to the request. -/
def Answers (problem : BoundedProblem) (context : EvaluationContext) (req : Req)
    (choice : Choice) (id : String) : Prop :=
  Showing problem context choice.output.2 (("op_id", req.opId) :: choice.label) id

/-- An answer has an admission of the request in its cycle, suits it and finds
the guards of its rule met. -/
structure Supported (problem : BoundedProblem) (context : EvaluationContext) (horizon : Nat)
    (pre : CellStates) (req : Req) (k : Nat) (choice : Choice) (id a : String) (c : Nat) : Prop where
  admission : Showing problem context "DCache.MSHRAdmissionRequest" [("op_id", req.opId)] a
  cycle : context.AtCycle a c
  le : c ≤ horizon
  same : context.Agree a id "cycle" "cycle"
  when : context.Holds
    (RoleBinding.instantiate [("admission", a), (choice.output.1, id)] (choice.rule req k).when)
  guards : ∀ guard ∈ choice.guards, guard.requirement.Meets context horizon pre
    [("admission", a), (choice.output.1, id)] true

theorem Choice.guards_ne_nil {choice : Choice} : ∃ guard, guard ∈ choice.guards := by
  rcases choice with i | i | ⟨i, _ | _ | _⟩ | i | _ | i | i
  case onlyFree => fin_cases i <;> exact ⟨_, List.mem_cons_self⟩
  all_goals exact ⟨_, List.mem_cons_self⟩

theorem Guard.anchored {guard : Guard} : guard.requirement.atRole = "admission" := by
  cases guard <;> rfl

/-- The rules of the answers are exact. -/
theorem support_choice
    (h : ModuleCompletion (mshrFileAllocator integrated reqs) catalog trace spec problem
      interpreter assignment pre) {req : Req} {k : Nat} (hreq : (req, k) ∈ reqs.zipIdx)
    {choice : Choice} {id : String}
    (hid : Answers problem (problem.context interpreter assignment) req choice id) :
    ∃ a c, Supported problem (problem.context interpreter assignment) spec.horizon pre req k
      choice id a c := by
  obtain ⟨hinputs, houtputs, hmode, hexact, hensure, -, -⟩ := @Choice.rule_shape req k choice
  have hrule : choice.rule req k ∈ (mshrFileAllocator integrated reqs).rules :=
    mem_rules hreq _ (Choice.rule_mem integrated)
  have happly : RoleBinding.apply [(choice.output.1, id)] choice.output.1 = id := apply_single
  have hscope : (problem.context interpreter assignment).Holds
      (RoleBinding.instantiate [(choice.output.1, id)] (choice.rule req k).outputWhen) := by
    apply Choice.scope_of_label
    · rw [happly]
      exact hid.carries _ List.mem_cons_self
    · rw [happly]
      exact fun p hp => hid.carries p (List.mem_cons_of_mem _ hp)
  obtain ⟨a, ha, hlinks, hmet⟩ := h.guarded_support_one hrule hmode hexact hinputs houtputs
    hid.occurring hscope
  have hguards : ∀ guard ∈ choice.guards, guard.requirement.Meets
      (problem.context interpreter assignment) spec.horizon pre
      [("admission", a), (choice.output.1, id)] true := by
    intro guard hguard
    refine hmet _ ?_
    rw [Choice.rule_requirements]
    exact List.mem_map_of_mem hguard
  obtain ⟨guard, hguard⟩ := @Choice.guards_ne_nil choice
  obtain ⟨c, -, -, hle, hcycle, -⟩ := hguards guard hguard
  rw [Guard.anchored, apply_input] at hcycle
  have hwhen := (guards_of_link hinputs houtputs hlinks).1
  have hop := Choice.opId_of_when hwhen
  rw [apply_input] at hop
  refine ⟨a, c, ⟨ha, List.forall_mem_singleton.mpr ?_⟩, hcycle, hle, ?_, hwhen, hguards⟩
  · exact hop
  · exact (holds_link hinputs houtputs Choice.output_ne hlinks).1 _ _ (by
      rw [hensure]
      exact List.mem_singleton_self _)

/-! ## Slots -/

/-- The types of the slots of the file. -/
def fileTypes : List String :=
  ["MSHRFile.PrimaryPermit", "MSHRFile.SecondaryPermit", "MSHRFile.RequestBlocked",
    "DCache.MSHRRequest"]

/-- An event of a type of the file that is not observed fills a slot of a request. -/
theorem exists_slot
    (h : Completion catalog trace spec problem interpreter assignment pre)
    {others : List EventSlot.Fields}
    (hslots : spec.SlotsFrom ((mshrFileAllocator integrated reqs).slots ++ others))
    (hothers : ∀ f ∈ others, (f.fields.map Prod.fst).Nodup ∧ f.eventType ∉ fileTypes)
    {eventType id : String} (htype : eventType ∈ fileTypes)
    (htrace : ∀ e ∈ trace.events, e.eventType ≠ eventType)
    (hid : Occurring problem (problem.context interpreter assignment) eventType id) :
    ∃ req k, (req, k) ∈ reqs.zipIdx ∧ ∃ f ∈ slots req k, f.eventType = eventType ∧ f.id = id ∧
      ∀ field v, field ≠ "occurs" → field ≠ "cycle" → (field, .value v) ∈ f.fields →
        (problem.context interpreter assignment).Reads id field v := by
  have hnodup : ∀ f ∈ (mshrFileAllocator integrated reqs).slots ++ others,
      (f.fields.map Prod.fst).Nodup := by
    intro f hf
    rcases List.mem_append.mp hf with hf | hf
    · obtain ⟨req, k, -, hf⟩ := mem_repeatOver.mp hf
      exact slot_nodup hf
    · exact (hothers f hf).1
  rcases h.origin_fields hslots hnodup hid with ⟨e, he, hname, -⟩ | ⟨f, hf, hname, hid', hreads⟩
  · exact absurd hname (htrace e he)
  · rcases List.mem_append.mp hf with hf | hf
    · obtain ⟨req, k, hreq, hf⟩ := mem_repeatOver.mp hf
      exact ⟨req, k, hreq, f, hf, hname, hid', hreads⟩
    · exact absurd (hname ▸ htype) (hothers f hf).2

/-- An answer that is not observed fills its slot. -/
theorem exists_answer
    (h : Completion catalog trace spec problem interpreter assignment pre)
    {others : List EventSlot.Fields}
    (hslots : spec.SlotsFrom ((mshrFileAllocator integrated reqs).slots ++ others))
    (hothers : ∀ f ∈ others, (f.fields.map Prod.fst).Nodup ∧ f.eventType ∉ fileTypes)
    {eventType id : String} (htype : eventType ∈ fileTypes) (hne : eventType ≠ "DCache.MSHRRequest")
    (htrace : ∀ e ∈ trace.events, e.eventType ≠ eventType)
    (hid : Occurring problem (problem.context interpreter assignment) eventType id) :
    ∃ req k choice, (req, k) ∈ reqs.zipIdx ∧ choice.output.2 = eventType ∧
      id = indexed choice.stem k ∧
      Answers problem (problem.context interpreter assignment) req choice id := by
  obtain ⟨req, k, hreq, f, hf, hname, rfl, hreads⟩ :=
    exists_slot h hslots hothers htype htrace hid
  rcases slot_cases hf with ⟨choice, hanswer⟩ | ⟨entry, secondary, rfl⟩
  · refine ⟨req, k, choice, hreq, hanswer.eventType.symm.trans hname, hanswer.id, ?_, ?_⟩
    · rw [← hanswer.eventType, hname]
      exact hid
    · intro p hp
      obtain ⟨hoccurs, hcycle⟩ := Choice.label_names p hp
      exact ⟨p.2, hreads p.1 p.2 hoccurs hcycle (hanswer.fields p hp), rfl⟩
  · exact absurd hname.symm hne

/-- A request of the file that is not observed fills its slot. -/
theorem exists_request
    (h : Completion catalog trace spec problem interpreter assignment pre)
    {others : List EventSlot.Fields}
    (hslots : spec.SlotsFrom ((mshrFileAllocator integrated reqs).slots ++ others))
    (hothers : ∀ f ∈ others, (f.fields.map Prod.fst).Nodup ∧ f.eventType ∉ fileTypes)
    (htrace : ∀ e ∈ trace.events, e.eventType ≠ "DCache.MSHRRequest") {id : String}
    (hid : Occurring problem (problem.context interpreter assignment) "DCache.MSHRRequest" id) :
    ∃ req k entry secondary, (req, k) ∈ reqs.zipIdx ∧ id = indexed (requestStem entry secondary) k ∧
      (problem.context interpreter assignment).Reads id "op_id" req.opId ∧
      (problem.context interpreter assignment).Reads id "mshr_id" (idOf entry) ∧
      (problem.context interpreter assignment).Reads id "secondary" (.bool secondary) ∧
      (problem.context interpreter assignment).Reads id "needs_acquire" req.needsAcquire := by
  obtain ⟨req, k, hreq, f, hf, hname, rfl, hreads⟩ :=
    exists_slot h hslots hothers (by decide) htrace hid
  rcases slot_cases hf with ⟨choice, hanswer⟩ | ⟨entry, secondary, rfl⟩
  · have htype := hanswer.eventType.symm.trans hname
    rcases choice with i | i | i | i | _ | i | i <;> exact absurd htype (by simp [Choice.output])
  · refine ⟨req, k, entry, secondary, hreq, rfl, ?_, ?_, ?_, ?_⟩
    · exact hreads "op_id" _ (by decide) (by decide) (by simp [requestSlot])
    · exact hreads "mshr_id" _ (by decide) (by decide) (by simp [requestSlot])
    · exact hreads "secondary" _ (by decide) (by decide) (by simp [requestSlot])
    · exact hreads "needs_acquire" _ (by decide) (by decide) (by simp [requestSlot])

/-! ## Permits of an entry -/

/-- A primary permit of the operation for the entry. -/
def Permitted (problem : BoundedProblem) (context : EvaluationContext) (op mshr : Value)
    (id : String) : Prop :=
  Showing problem context "MSHRFile.PrimaryPermit" [("op_id", op), ("mshr_id", mshr)] id

/-- The answers that permit the entry. -/
def Choice.permits : Choice → Option (Fin 2)
  | emptyHead i => some i
  | onlyFree i => some i
  | _ => none

theorem Choice.permits_of_output {choice : Choice}
    (h : choice.output.2 = "MSHRFile.PrimaryPermit") : ∃ i, choice.permits = some i ∧
      choice.output = ("permit", "MSHRFile.PrimaryPermit") ∧
      ("mshr_id", idOf i) ∈ choice.label ∧ Guard.isFree i ∈ choice.guards := by
  rcases choice with i | i | ⟨i, readiness⟩ | i | _ | i | i
  case emptyHead =>
    refine ⟨i, rfl, rfl, List.mem_cons_self, ?_⟩
    fin_cases i <;> simp [guards]
  case onlyFree =>
    refine ⟨i, rfl, rfl, ?_⟩
    fin_cases i <;> simp [guards, label]
  all_goals exact absurd h (by simp [output])

/-- The primary permits of the file are those of its slots. -/
def PermitsFromSlots (reqs : List Req) (problem : BoundedProblem) (context : EvaluationContext) :
    Prop :=
  ∀ id, Occurring problem context "MSHRFile.PrimaryPermit" id →
    ∃ req k choice, (req, k) ∈ reqs.zipIdx ∧ choice.output.2 = "MSHRFile.PrimaryPermit" ∧
      Answers problem context req choice id

/-- A permit finds its entry free and takes it, in the cycle of its admission. -/
theorem taken_of_permitted
    (h : ModuleCompletion (mshrFileAllocator integrated reqs) catalog trace spec problem
      interpreter assignment pre)
    (hslots : PermitsFromSlots reqs problem (problem.context interpreter assignment))
    {op mshr : Value} {p : String}
    (hp : Permitted problem (problem.context interpreter assignment) op mshr p) :
    ∃ i a c, mshr.key = (idOf i).key ∧
      Showing problem (problem.context interpreter assignment) "DCache.MSHRAdmissionRequest"
        [("op_id", op)] a ∧
      c ≤ spec.horizon ∧ (problem.context interpreter assignment).AtCycle a c ∧
      (problem.context interpreter assignment).AtCycle p c ∧ CellIs pre c (block i) emptyAddr ∧
      Taken (problem.context interpreter assignment) pre i a (c + 1) := by
  obtain ⟨req, k, choice, hreq, houtput, hanswer⟩ := hslots p hp.occurring
  obtain ⟨i, -, -, hlabel, hfree⟩ := Choice.permits_of_output houtput
  obtain ⟨a, c, hsupported⟩ := support_choice h hreq hanswer
  have hop := hanswer.carries ("op_id", req.opId) List.mem_cons_self
  have hid := hanswer.carries ("mshr_id", idOf i) (List.mem_cons_of_mem _ hlabel)
  have hopkey := hop.unique (hp.carries ("op_id", op) List.mem_cons_self)
  have hmshr := (hp.carries ("mshr_id", mshr) (by simp)).unique hid
  have hpermit : Showing problem (problem.context interpreter assignment) "MSHRFile.PrimaryPermit"
      [("op_id", req.opId), ("mshr_id", idOf i)] p := by
    refine ⟨hp.occurring, ?_⟩
    exact List.forall_mem_cons.mpr ⟨hop, List.forall_mem_singleton.mpr hid⟩
  have hfires := commit_of_permit h hreq hsupported.admission hpermit
  -- the permit has the cycle of its admission, since its updates have a cycle
  have hcycle : (problem.context interpreter assignment).AtCycle p c := by
    have hturns : ⟨head, "permit", .literal (idOf (other i)) .int⟩ ∈
        (commitPrimaryAllocation i req k).stateUpdates := by
      simp [commitPrimaryAllocation]
    have hrule : commitPrimaryAllocation i req k ∈ (mshrFileAllocator integrated reqs).rules :=
      mem_rules hreq _ (by fin_cases i <;> simp [rules])
    obtain ⟨d, -, hd, -⟩ := h.sets hrule rfl hfires hturns
    rw [apply_permit] at hd
    obtain ⟨v, w, hv, hw, hkey⟩ := hsupported.same
    cases hv.unique hsupported.cycle
    cases hw.unique hd
    have heq : c = d := by simpa [Value.key] using hkey
    exact heq ▸ hd
  have htaken := taken_of_commit h hreq hfires hcycle
  refine ⟨i, a, c, hmshr, hsupported.admission.congr ?_, htaken.1, hsupported.cycle, hcycle, ?_,
    htaken.2⟩
  · simp [hopkey]
  · have hmet := hsupported.guards _ hfree
    have hiff := hmet.eq_iff rfl (show (problem.context interpreter assignment).AtCycle
      (RoleBinding.apply _ "admission") c by rw [apply_input]; exact hsupported.cycle)
      (by
        change (problem.context interpreter assignment).evaluate
          (RoleBinding.instantiate _ (.literal emptyAddr addressSort)) = _
        rw [RoleBinding.instantiate_literal, evaluate_literal])
    exact of_decide_eq_true hiff

/-! ## One primary request at a time -/

/-- Two admissions leave the same entry behind. -/
def SameEntry (context : EvaluationContext) (a b : String) : Prop :=
  (∀ f ∈ keptFields, context.Agree a b f f) ∧
    ∃ value, Intends context a value ∧ Intends context b value

/-- Admissions have a block, and admissions of one cycle differ in what their
entry keeps. -/
structure AdmissionsApart (problem : BoundedProblem) (context : EvaluationContext) : Prop where
  blocks : ∀ a, Occurring problem context "DCache.MSHRAdmissionRequest" a →
    ¬ context.Carries a "block_address" emptyAddr
  apart : ∀ v w a b c, v.key ≠ w.key →
    Showing problem context "DCache.MSHRAdmissionRequest" [("op_id", v)] a →
    Showing problem context "DCache.MSHRAdmissionRequest" [("op_id", w)] b →
      context.AtCycle a c → context.AtCycle b c → ¬ SameEntry context a b

/-- Between the permits of an entry for two operations, a finish gives it back. -/
def OnePrimary (problem : BoundedProblem) (context : EvaluationContext) : Prop :=
  ∀ mshr v w p q c d, v.key ≠ w.key → Permitted problem context v mshr p →
    Permitted problem context w mshr q → context.AtCycle p c → context.AtCycle q d → c ≤ d →
      ∃ finish e, Showing problem context "MSHR.MemFinish" [("mshr_id", mshr)] finish ∧
        context.AtCycle finish e ∧ c < e ∧ e < d

theorem sameEntry_of_taken {context : EvaluationContext} {i : Fin 2} {a b : String} {c : Nat}
    (ha : Taken context pre i a c) (hb : Taken context pre i b c) : SameEntry context a b := by
  constructor
  · intro f hf
    obtain ⟨v, hv, hcell⟩ := ha.kept f hf
    obtain ⟨w, hw, hcell'⟩ := hb.kept f hf
    exact ⟨v, w, hv, hw, hcell.unique hcell'⟩
  · obtain ⟨value, hintends, hcell⟩ := ha.intent
    obtain ⟨value', hintends', hcell'⟩ := hb.intent
    have hkey := hcell.unique hcell'
    have heq : value = value' := by
      cases value <;> cases value' <;> simp_all [Value.key]
    exact ⟨value, hintends, heq ▸ hintends'⟩

/-- A taken entry is busy. -/
theorem busy_of_taken
    (hapart : AdmissionsApart problem (problem.context interpreter assignment)) {i : Fin 2}
    {a : String} (ha : Occurring problem (problem.context interpreter assignment)
      "DCache.MSHRAdmissionRequest" a) {c : Nat}
    (h : Taken (problem.context interpreter assignment) pre i a c) :
    ¬ CellIs pre c (block i) emptyAddr := by
  intro hfree
  obtain ⟨v, hv, hcell⟩ := h.kept "block_address" (by decide)
  exact hapart.blocks a ha ⟨v, hv, hcell.unique hfree⟩

/-- A busy entry becomes free at a finish. -/
theorem finish_of_free
    (h : ModuleCompletion (mshrFileAllocator integrated reqs) catalog trace spec problem
      interpreter assignment pre)
    (hapart : AdmissionsApart problem (problem.context interpreter assignment)) {i : Fin 2}
    {c : Nat} (hc : c ≤ spec.horizon) (hbusy : ¬ CellIs pre c (block i) emptyAddr)
    (hfree : CellIs pre (c + 1) (block i) emptyAddr) :
    Releases problem (problem.context interpreter assignment) i c := by
  rcases entry_step h i hc with ⟨req, k, a, p, hreq, hfires, hcycle⟩ | hreleases | hkept
  · have htaken := (taken_of_commit h hreq hfires hcycle).2
    exact absurd hfree (busy_of_taken hapart (showing_of_commit hfires).1.occurring htaken)
  · exact hreleases
  · exact absurd (CellIs.of_eq (hkept "block_address" (by decide)).symm hfree) hbusy

/-- Permits of one entry are apart, or their admissions leave the same entry behind. -/
theorem onePrimary_of_slots
    (h : ModuleCompletion (mshrFileAllocator integrated reqs) catalog trace spec problem
      interpreter assignment pre)
    (hslots : PermitsFromSlots reqs problem (problem.context interpreter assignment))
    (hapart : AdmissionsApart problem (problem.context interpreter assignment)) :
    OnePrimary problem (problem.context interpreter assignment) := by
  intro mshr v w p q c d hne hp hq hpc hqd hle
  obtain ⟨i, a, c', hi, ha, -, hac, hpc', -, htaken⟩ := taken_of_permitted h hslots hp
  obtain ⟨j, b, d', hj, hb, hd, hbd, hqd', hfree, htaken'⟩ := taken_of_permitted h hslots hq
  cases hpc'.unique hpc
  cases hqd'.unique hqd
  obtain rfl := idOf_inj (hi.symm.trans hj)
  rcases Nat.eq_or_lt_of_le hle with rfl | hlt
  · -- both permits take the entry in one cycle
    exact absurd (sameEntry_of_taken htaken htaken') (hapart.apart v w a b _ hne ha hb hac hbd)
  · have hbusy := busy_of_taken hapart ha.occurring htaken
    obtain ⟨e, hce, hed, hall, hfall⟩ := @Timeline.exists_first_fall
      (fun e => ¬ CellIs pre e (block i) emptyAddr) (c + 1) d (by omega) hbusy (not_not_intro hfree)
    obtain ⟨finish, hfinish, hcycle⟩ :=
      finish_of_free h hapart (by omega) (hall e hce le_rfl) (not_not.mp hfall)
    refine ⟨finish, e, hfinish.congr ?_, hcycle, by omega, hed⟩
    simp [hi]

/-- The permits of the module alone are those of its slots. -/
theorem permitsFromSlots_of_alone
    (h : ModuleCompletion (mshrFileAllocator integrated reqs) catalog trace spec problem
      interpreter assignment pre) {horizon : Nat}
    (hspec : (mshrFileAllocator integrated reqs).alone horizon = .ok spec)
    (htrace : ∀ e ∈ trace.events, e.eventType ≠ "MSHRFile.PrimaryPermit") :
    PermitsFromSlots reqs problem (problem.context interpreter assignment) := by
  intro id hid
  have hslots : spec.SlotsFrom ((mshrFileAllocator integrated reqs).slots ++ []) := by
    rw [List.append_nil]
    exact slotsFrom_of_alone hspec
  obtain ⟨req, k, choice, hreq, houtput, -, hanswer⟩ := exists_answer h.toCompletion hslots
    (fun f hf => absurd hf List.not_mem_nil) (by decide) (by decide) htrace hid
  exact ⟨req, k, choice, hreq, houtput, hanswer⟩

end Completion

/-! ## Runs -/

/-- A load of a block in a set. -/
def load (opId block : String) (set : Int) : Req where
  opId := .str opId
  queueKind := .str "ldq"
  queueIdx := .int 0
  address := .str (block ++ "0")
  blockAddress := .str block
  setIndex := .int set
  tag := .int 1
  wayId := .int 0
  value := .int 0
  memKind := .str "load"
  cacheTagMatch := .bool false
  oldLineDirty := .bool false
  needsAcquire := .bool true
  isProbe := false
  sdqId := .int 0

def admissionOf (req : Req) : List (String × Value) :=
  [("op_id", req.opId), ("queue_kind", req.queueKind), ("queue_idx", req.queueIdx),
    ("address", req.address), ("block_address", req.blockAddress), ("set_index", req.setIndex),
    ("tag", req.tag), ("way_id", req.wayId), ("value", req.value), ("mem_kind", req.memKind),
    ("cache_tag_match", req.cacheTagMatch), ("old_line_dirty", req.oldLineDirty),
    ("needs_acquire", req.needsAcquire), ("is_probe", .bool req.isProbe), ("sdq_id", req.sdqId)]

def admitting (req : Req) (id : String) (cycle : Nat) : EventFields where
  id := id
  eventType := "DCache.MSHRAdmissionRequest"
  cycle := cycle
  fields := admissionOf req

def finish (entry : Fin 2) (id : String) (cycle : Nat) : EventFields where
  id := id
  eventType := "MSHR.MemFinish"
  cycle := cycle
  fields := [("mshr_id", idOf entry), ("address", .str "x0")]

/-- The symbols of the slots of a request, when these are its answer and its request. -/
def answered (req : Req) (k : Nat) (stems : List String) (cycle : Nat) : List (String × Value) :=
  (slots req k).flatMap (fun slot =>
    if slot.id ∈ stems.map (indexed · k) then ModuleRun.chosen slot.id cycle
    else ModuleRun.skipped slot.id)

def loadA : Req := load "A" "block_x" 0

def loadB : Req := load "B" "block_x" 0

/-- Two loads of one block are admitted in cycle 1. -/
def sharedAdmissions : ModuleRun where
  file := mshrFileAllocator false [loadA, loadB]
  eventTypes := mshrTypes
  events := [admitting loadA "a" 1, admitting loadB "b" 1]
  horizon := 3
  assignment := answered loadA 0 ["permit_empty_h0", "allocated_primary_0"] 1 ++
    answered loadB 1 ["permit_empty_h0", "allocated_primary_0"] 1

/-- Both loads are permitted in cycle 1. -/
def showsBoth (problem : BoundedProblem) (context : EvaluationContext) : Bool :=
  1 ∈ sightings problem context "MSHRFile.PrimaryPermit" [("op_id", .str "A"), ("mshr_id", .int 0)] &&
    1 ∈ sightings problem context "MSHRFile.PrimaryPermit" [("op_id", .str "B"), ("mshr_id", .int 0)]

theorem sharedAdmissions_settles : sharedAdmissions.settles .integers showsBoth = true := by
  decide +kernel

/-! The constraints of the rules, a part of the rules at a time: an evaluation keeps all its
terms in memory. -/

theorem sharedAdmissions_rulesFirst : ∀ remainder < 4,
    sharedAdmissions.satisfiesRules .integers 8 remainder = true := by
  intro remainder hremainder
  interval_cases remainder
  all_goals decide +kernel

theorem sharedAdmissions_rulesSecond : ∀ remainder < 4,
    sharedAdmissions.satisfiesRules .integers 8 (4 + remainder) = true := by
  intro remainder hremainder
  interval_cases remainder
  all_goals decide +kernel

theorem sharedAdmissions_satisfies : sharedAdmissions.satisfies .integers = true := by
  have hbounds : sharedAdmissions.satisfiesBounds .integers = true := by decide +kernel
  have hparts : 0 < 8 := by decide
  refine ModuleRun.satisfies_of_rules sharedAdmissions_settles hbounds hparts ?_
  intro remainder hremainder
  rcases Nat.lt_or_ge remainder 4 with hlt | hge
  · exact sharedAdmissions_rulesFirst remainder hlt
  · obtain ⟨later, rfl⟩ := Nat.exists_eq_add_of_le hge
    exact sharedAdmissions_rulesSecond later (by omega)

/-- One load is admitted in cycle 1. -/
def oneAdmission : ModuleRun where
  file := mshrFileAllocator false [loadA]
  eventTypes := mshrTypes
  events := [admitting loadA "a" 1]
  horizon := 3
  assignment := answered loadA 0 ["permit_empty_h0", "allocated_primary_0"] 1

/-- The admissions are those of the load. -/
def showsLoad (problem : BoundedProblem) (context : EvaluationContext) : Bool :=
  allOccur problem context "DCache.MSHRAdmissionRequest" (fun id =>
    context.Carries id "op_id" loadA.opId && context.Carries id "block_address" loadA.blockAddress)

theorem oneAdmission_accepted : oneAdmission.demonstrates .integers showsLoad = true := by
  decide +kernel

theorem admissionsApart_of_showsLoad {problem : BoundedProblem} {context : EvaluationContext}
    (h : showsLoad problem context = true) : AdmissionsApart problem context := by
  have hload : ∀ a, Occurring problem context "DCache.MSHRAdmissionRequest" a →
      context.Carries a "op_id" loadA.opId ∧
        context.Carries a "block_address" loadA.blockAddress := by
    intro a ha
    have hcarries := of_allOccur h ha
    rwa [Bool.and_eq_true, decide_eq_true_eq, decide_eq_true_eq] at hcarries
  constructor
  case blocks =>
    intro a ha hempty
    exact absurd ((hload a ha).2.unique hempty) (by decide)
  case apart =>
    intro v w a b c hne ha hb
    -- both admissions are of the load
    have hv := (ha.carries _ List.mem_cons_self).unique (hload a ha.occurring).1
    have hw := (hb.carries _ List.mem_cons_self).unique (hload b hb.occurring).1
    exact absurd (hv.trans hw.symm) hne

theorem trace_of_build {run : ModuleRun} {built : ModuleRun.Built} (hbuild : run.build = .ok built)
    {eventType : String} (hevents : ∀ f ∈ run.events, f.eventType ≠ eventType) :
    ∀ e ∈ built.trace.events, e.eventType ≠ eventType := by
  intro e he
  obtain ⟨f, hf, hok⟩ := ModuleRun.mem_events_of_build hbuild he
  rw [(ModuleRun.event_eq_ok hok).2.1]
  exact hevents f hf

end Allocator

end Boom

end Umcm
