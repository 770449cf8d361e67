import Umcm.Boom.FileSets

/-!
# Decisions of the MSHR file

Every admission sees a well-formed file and gets the one answer of its view: a
primary permit of a free entry, a secondary permit of the entry of its block, or
a refusal.

* `decides`: every admission has exactly one decision.
-/

namespace Umcm

namespace Boom

open EvaluationContext

namespace Allocator

section Completion

variable {integrated : Bool} {reqs : List Req} {catalog : EventCatalog} {trace : Trace}
  {spec : CompletionSpec} {problem : BoundedProblem} {interpreter : Interpreter}
  {assignment : Dict String Value} {pre : CellStates}

/-- The type of the permits of primary or secondary requests. -/
def permitType (secondary : Bool) : String :=
  if secondary then "MSHRFile.SecondaryPermit" else "MSHRFile.PrimaryPermit"

/-- The request leaves the file as a secondary or as a primary one. -/
def secondaryIs (secondary : Bool) : Expr :=
  if secondary then flag "request" "secondary" else isNot (flag "request" "secondary")

/-- The rule for the requests that leave the file. -/
def materializeRequest (secondary : Bool) : Fin 2 → Req → Nat → ModuleRule.Fields :=
  if secondary then materializeSecondary else materializePrimary

/-- An admission of the request in a cycle of the run. -/
structure Admitted (reqs : List Req) (problem : BoundedProblem) (context : EvaluationContext)
    (horizon : Nat) (req : Req) (k : Nat) (a : String) (c : Nat) : Prop where
  mem : (req, k) ∈ reqs.zipIdx
  occurring : Occurring problem context "DCache.MSHRAdmissionRequest" a
  carried : Carried context req a
  cycle : context.AtCycle a c
  le : c ≤ horizon

theorem Admitted.showing {context : EvaluationContext} {horizon : Nat} {req : Req} {k : Nat}
    {a : String} {c : Nat} (h : Admitted reqs problem context horizon req k a c) :
    Showing problem context "DCache.MSHRAdmissionRequest" [("op_id", req.opId)] a := by
  refine ⟨h.occurring, List.forall_mem_singleton.mpr ?_⟩
  exact ⟨_, h.carried.opId, rfl⟩

/-- The requirements of an answer are those of the admission. -/
theorem Choice.when_of_suits {choice : Choice} {c : Nat} {k : Nat} {req : Req} {a : String}
    {context : EvaluationContext} (hcarried : Carried context req a)
    (hkind : ∃ kind ∈ memKinds, req.memKind.key = (Value.str kind).key)
    (h : choice.suits (viewAt pre c req) = true) :
    context.Holds (RoleBinding.instantiate [("admission", a)] (choice.rule req k).when) :=
  (Choice.holds_when apply_single hcarried hkind).mpr h

/-- Every admission is that of a request, in a cycle of the run. -/
theorem exists_admitted
    (h : ModuleCompletion (mshrFileAllocator false reqs) catalog trace spec problem
      interpreter assignment pre) (halone : Alone reqs trace spec) {a : String}
    (ha : Occurring problem (problem.context interpreter assignment)
      "DCache.MSHRAdmissionRequest" a) :
    ∃ req k c, Admitted reqs problem (problem.context interpreter assignment) spec.horizon
      req k a c := by
  obtain ⟨e, -, -, -, req, hmem, -, hcarried⟩ :=
    exists_carried h.toCompletion halone.requests.toAdmissions halone.slots slots_admission ha
  obtain ⟨k, hreq⟩ := exists_mem_zipIdx hmem
  -- the rule of a busy file looks at its cells in the cycle of any admission
  obtain ⟨hinputs, houtputs, hmode, -, -, -, hanchored⟩ := @Choice.rule_shape req k .allBusy
  have hmeets : ∃ guard ∈ Choice.allBusy.guards, ∃ result, guard.requirement.Meets
      (problem.context interpreter assignment) spec.horizon pre [("admission", a)] result := by
    rcases h.guarded_forward_one (mem_rules hreq _ (Choice.rule_mem false)) hmode hinputs houtputs
      hanchored ha (@Choice.when_of_suits pre _ 0 _ _ _ _ hcarried
        (halone.requests.kinds req hmem) rfl) with ⟨r, hr, hunmet⟩ | ⟨hmet, -⟩
    · rw [Choice.rule_requirements] at hr
      obtain ⟨guard, hguard, rfl⟩ := List.mem_map.mp hr
      exact ⟨guard, hguard, false, hunmet⟩
    · refine ⟨.isBusy 0, List.mem_cons_self, true, hmet _ ?_⟩
      rw [Choice.rule_requirements]
      exact List.mem_map_of_mem List.mem_cons_self
  obtain ⟨guard, -, result, c, -, -, hle, hcycle, -⟩ := hmeets
  rw [Guard.anchored, apply_single] at hcycle
  exact ⟨req, k, c, hreq, ha, hcarried, hcycle, hle⟩

section Admitted

variable {req : Req} {k c : Nat} {a : String}

/-- An answer to an admission is the answer of its view. -/
theorem answer_unique
    (h : ModuleCompletion (mshrFileAllocator false reqs) catalog trace spec problem
      interpreter assignment pre) (halone : Alone reqs trace spec)
    (hadmitted : Admitted reqs problem (problem.context interpreter assignment) spec.horizon
      req k a c) {eventType id : String} (htype : eventType ∈ fileTypes)
    (hne : eventType ≠ "DCache.MSHRRequest")
    (hid : Showing problem (problem.context interpreter assignment) eventType
      [("op_id", req.opId)] id) :
    (viewAt pre c req).answer.output.2 = eventType ∧
      id = indexed (viewAt pre c req).answer.stem k ∧
      Answers problem (problem.context interpreter assignment) req (viewAt pre c req).answer id ∧
      (problem.context interpreter assignment).Agree a id "cycle" "cycle" := by
  have hfile : eventType ≠ "DCache.MSHRAdmissionRequest" ∧ eventType ≠ "MSHR.MemFinish" := by
    constructor
    · rintro rfl
      exact absurd htype (by decide)
    · rintro rfl
      exact absurd htype (by decide)
  obtain ⟨req', k', choice, hreq', houtput, hname, hanswer⟩ := exists_answer h.toCompletion
    halone.slots_append (fun f hf => absurd hf List.not_mem_nil) htype hne
    (halone.no_event hfile.1 hfile.2) hid.occurring
  have hadmissions := halone.requests.toAdmissions
  obtain ⟨rfl, rfl⟩ := hadmissions.req_unique hadmitted.mem hreq'
    ((hid.carries ("op_id", req.opId) List.mem_cons_self).unique
      (hanswer.carries _ List.mem_cons_self))
  obtain ⟨b, d, hsupported, henabled⟩ := enabled_of_answers h halone hreq' hanswer
  obtain rfl := admission_unique h.toCompletion hadmissions halone.slots slots_admission
    hsupported.admission hadmitted.showing
  cases hsupported.cycle.unique hadmitted.cycle
  have hle : c ≤ spec.horizon + 1 := Nat.le_succ_of_le hadmitted.le
  have hwell := wellFormed_viewAt halone.requests (inv h halone hle) (mem_of_mem_zipIdx hreq')
  obtain rfl := eq_answer_of_enabled hwell henabled
  exact ⟨houtput, hname, hanswer, hsupported.same⟩

/-- The answer of the view is given. -/
theorem exists_given
    (h : ModuleCompletion (mshrFileAllocator false reqs) catalog trace spec problem
      interpreter assignment pre) (halone : Alone reqs trace spec)
    (hadmitted : Admitted reqs problem (problem.context interpreter assignment) spec.horizon
      req k a c) :
    ∃ id, Showing problem (problem.context interpreter assignment)
      (viewAt pre c req).answer.output.2 [("op_id", req.opId)] id := by
  have henabled := enabled_iff_guards.mp (@enabled_answer (viewAt pre c req))
  generalize (viewAt pre c req).answer = choice at henabled ⊢
  obtain ⟨hinputs, houtputs, hmode, -, -, -, hanchored⟩ := @Choice.rule_shape req k choice
  have hle : c ≤ spec.horizon + 1 := Nat.le_succ_of_le hadmitted.le
  have htyped := typed h hle
  rcases h.guarded_forward_one (mem_rules hadmitted.mem _ (Choice.rule_mem false)) hmode hinputs
    houtputs hanchored hadmitted.occurring (Choice.when_of_suits hadmitted.carried
      (halone.requests.kinds req (mem_of_mem_zipIdx hadmitted.mem)) henabled.1)
    with ⟨r, hr, hunmet⟩ | ⟨-, id, hid, hlinks⟩
  · -- the guards of the answer are met
    rw [Choice.rule_requirements] at hr
    obtain ⟨guard, hguard, rfl⟩ := List.mem_map.mp hr
    have hfalse := Guard.holds_of_meets htyped apply_single hadmitted.carried hadmitted.cycle hunmet
    rw [henabled.2 guard hguard] at hfalse
    cases hfalse
  · have hscope : (problem.context interpreter assignment).Holds (RoleBinding.instantiate
        [("admission", a), (choice.output.1, id)] (choice.rule req k).outputWhen) :=
      (guards_of_link hinputs houtputs hlinks).2
    have hop := Choice.opId_of_scope hscope
    rw [apply_output Choice.output_ne] at hop
    exact ⟨id, hid, List.forall_mem_singleton.mpr hop⟩

/-! ## Requests that leave the file -/

theorem holds_secondaryIs {context : EvaluationContext} {b : RoleBinding} {secondary value : Bool}
    {r : String} (hr : b.apply "request" = r)
    (hreads : context.Reads r "secondary" (.bool value)) :
    context.Holds (b.instantiate (secondaryIs secondary)) ↔ value = secondary := by
  unfold secondaryIs
  cases secondary
  · rw [if_neg (by decide), holds_isNot_flag, hr]
    constructor
    · rintro ⟨v, hv, hfalse⟩
      cases hv.unique hreads
      exact hfalse
    · intro hvalue
      exact ⟨_, hreads, hvalue⟩
  · rw [if_pos rfl, holds_flag, hr]
    constructor
    · intro htrue
      cases hreads.unique htrue
      rfl
    · rintro rfl
      exact hreads

theorem materializeRequest_mem {secondary : Bool} {i : Fin 2} :
    materializeRequest secondary i req k ∈ rules integrated req k := by
  cases secondary <;> fin_cases i <;> simp [materializeRequest, rules]

theorem materializeRequest_shape {secondary : Bool} {i : Fin 2} :
    materializeRequest secondary i req k = materialize
      (if secondary then "materialize_secondary_" ++ i.val.repr
        else "materialize_primary_" ++ i.val.repr)
      (permitType secondary) i (secondaryIs secondary) req k := by
  cases secondary <;> rfl

/-- The events of a firing for a request that leaves. -/
theorem materialized_of_fires {context : EvaluationContext} {secondary : Bool} {i : Fin 2}
    {ins outs : List String}
    (h : (materializeRequest secondary i req k).Fires problem context ins outs)
    (hreads : ∀ r, Occurring problem context "DCache.MSHRRequest" r →
      ∃ value, context.Reads r "secondary" (.bool value)) :
    ∃ a p r, ins = [a, p] ∧ outs = [r] ∧
      Showing problem context "DCache.MSHRAdmissionRequest" [("op_id", req.opId)] a ∧
      Showing problem context (permitType secondary)
        [("op_id", req.opId), ("mshr_id", idOf i)] p ∧
      Showing problem context "DCache.MSHRRequest"
        [("op_id", req.opId), ("mshr_id", idOf i), ("secondary", .bool secondary)] r ∧
      context.Agree a r "cycle" "cycle" := by
  rw [materializeRequest_shape] at h
  obtain - | ⟨ha, hin⟩ := h.inputs
  obtain - | ⟨hp, hin⟩ := hin
  obtain - | - := hin
  obtain - | ⟨hr, hout⟩ := h.outputs
  obtain - | - := hout
  rename_i a p r
  refine ⟨a, p, r, rfl, rfl, ?_⟩
  -- what the guard, the scope and the effect say of the three events
  have hwhen := holds_allOf.mp h.when
  have hscope := holds_allOf.mp h.outputWhen
  have hensure := h.ensure _ (List.mem_singleton.mpr rfl)
  have hroles : ((materialize (if secondary then "materialize_secondary_" ++ i.val.repr
        else "materialize_primary_" ++ i.val.repr) (permitType secondary) i (secondaryIs secondary)
        req k).toFields.binding ([a, p] ++ [r])) =
      [("admission", a), ("permit", p), ("request", r)] := rfl
  rw [hroles] at hwhen hscope hensure
  have hpermit : RoleBinding.apply [("admission", a), ("permit", p), ("request", r)] "permit" = p :=
    apply_output (by decide)
  have hrequest : RoleBinding.apply [("admission", a), ("permit", p), ("request", r)]
      "request" = r := rfl
  simp only [List.forall_mem_cons, reqMatch, ofReq, entryIs, holds_fieldIs, hpermit,
    hrequest] at hwhen hscope
  obtain ⟨hop, hop', hid, -⟩ := hwhen
  obtain ⟨hopr, hidr, hsecondary, -⟩ := hscope
  obtain ⟨value, hvalue⟩ := hreads r hr
  obtain rfl := (holds_secondaryIs hrequest hvalue).mp hsecondary
  refine ⟨⟨ha, List.forall_mem_singleton.mpr hop⟩, ⟨hp, ?_⟩, ⟨hr, ?_⟩, ?_⟩
  · exact List.forall_mem_cons.mpr ⟨hop', List.forall_mem_singleton.mpr hid⟩
  · exact List.forall_mem_cons.mpr ⟨hopr, List.forall_mem_cons.mpr ⟨hidr,
      List.forall_mem_singleton.mpr ⟨_, hvalue, rfl⟩⟩⟩
  · rwa [sameCycle, holds_sameField, hrequest] at hensure

/-- A permit of an entry has its request. -/
theorem exists_materialized
    (h : ModuleCompletion (mshrFileAllocator integrated reqs) catalog trace spec problem
      interpreter assignment pre) (hreq : (req, k) ∈ reqs.zipIdx) {secondary : Bool} {i : Fin 2}
    {p : String}
    (hreads : ∀ r, Occurring problem (problem.context interpreter assignment)
      "DCache.MSHRRequest" r → ∃ value,
        (problem.context interpreter assignment).Reads r "secondary" (.bool value))
    (ha : Showing problem (problem.context interpreter assignment) "DCache.MSHRAdmissionRequest"
      [("op_id", req.opId)] a)
    (hp : Showing problem (problem.context interpreter assignment) (permitType secondary)
      [("op_id", req.opId), ("mshr_id", idOf i)] p) :
    ∃ r, Showing problem (problem.context interpreter assignment) "DCache.MSHRRequest"
        [("op_id", req.opId), ("mshr_id", idOf i), ("secondary", .bool secondary)] r ∧
      (problem.context interpreter assignment).Agree a r "cycle" "cycle" := by
  have hnodup : [a, p].Nodup := by
    rw [List.nodup_cons, List.mem_singleton]
    refine ⟨?_, List.nodup_singleton p⟩
    rintro rfl
    exact absurd (h.toCompletion.type_unique ha.occurring hp.occurring)
      (by cases secondary <;> decide)
  have hrule : materializeRequest secondary i req k ∈ (mshrFileAllocator integrated reqs).rules :=
    mem_rules hreq _ materializeRequest_mem
  have hforward := h.forward hrule (by rw [materializeRequest_shape]; rfl)
    (show List.Forall₂ _ _ [a, p] by
      rw [materializeRequest_shape]
      exact .cons ha.occurring (.cons hp.occurring .nil)) hnodup (by
      have hop := ha.carries ("op_id", req.opId) List.mem_cons_self
      have hop' := hp.carries ("op_id", req.opId) List.mem_cons_self
      have hid := hp.carries ("mshr_id", idOf i) (by simp)
      have happly : RoleBinding.apply [("admission", a), ("permit", p)] "permit" = p :=
        apply_output (by decide)
      rw [materializeRequest_shape]
      refine holds_allOf.mpr ?_
      change ∀ e ∈ [reqMatch req, ofReq req "permit", entryIs "permit" i],
        (problem.context interpreter assignment).Holds
          (RoleBinding.instantiate [("admission", a), ("permit", p)] e)
      simp only [List.forall_mem_cons, reqMatch, ofReq, entryIs, holds_fieldIs, apply_input, happly]
      exact ⟨hop, hop', hid, fun _ he => absurd he List.not_mem_nil⟩)
  obtain ⟨outs, hfires⟩ := hforward
  obtain ⟨a', p', r, heq, -, -, -, hr, hcycle⟩ := materialized_of_fires hfires hreads
  cases heq
  exact ⟨r, hr, hcycle⟩

/-- A request that leaves the file has its permit. -/
theorem exists_permit
    (h : ModuleCompletion (mshrFileAllocator integrated reqs) catalog trace spec problem
      interpreter assignment pre) (hreq : (req, k) ∈ reqs.zipIdx) {secondary : Bool} {i : Fin 2}
    {r : String}
    (hreads : ∀ r, Occurring problem (problem.context interpreter assignment)
      "DCache.MSHRRequest" r → ∃ value,
        (problem.context interpreter assignment).Reads r "secondary" (.bool value))
    (hr : Showing problem (problem.context interpreter assignment) "DCache.MSHRRequest"
      [("op_id", req.opId), ("mshr_id", idOf i), ("secondary", .bool secondary)] r) :
    ∃ b p, Showing problem (problem.context interpreter assignment) "DCache.MSHRAdmissionRequest"
        [("op_id", req.opId)] b ∧
      Showing problem (problem.context interpreter assignment) (permitType secondary)
        [("op_id", req.opId), ("mshr_id", idOf i)] p ∧
      (problem.context interpreter assignment).Agree b r "cycle" "cycle" := by
  have hrule : materializeRequest secondary i req k ∈ (mshrFileAllocator integrated reqs).rules :=
    mem_rules hreq _ materializeRequest_mem
  obtain ⟨value, hvalue⟩ := hreads r hr.occurring
  have hsecondary : value = secondary := by
    have hkey := (show (problem.context interpreter assignment).Carries r "secondary" (.bool value)
      from ⟨_, hvalue, rfl⟩).unique (hr.carries ("secondary", .bool secondary) (by simp))
    cases value <;> cases secondary <;> simp_all [Value.key]
  have hsupport := h.support hrule (by rw [materializeRequest_shape]; rfl)
    (by rw [materializeRequest_shape]; rfl) (show List.Forall₂ _ _ [r] by
      rw [materializeRequest_shape]
      exact .cons hr.occurring .nil) (List.nodup_singleton r) (by
      have hop := hr.carries ("op_id", req.opId) List.mem_cons_self
      have hid := hr.carries ("mshr_id", idOf i) (by simp)
      rw [materializeRequest_shape]
      refine holds_allOf.mpr ?_
      change ∀ e ∈ [ofReq req "request", entryIs "request" i, secondaryIs secondary],
        (problem.context interpreter assignment).Holds
          (RoleBinding.instantiate [("request", r)] e)
      simp only [List.forall_mem_cons, ofReq, entryIs, holds_fieldIs, apply_single,
        holds_secondaryIs apply_single hvalue]
      exact ⟨hop, hid, hsecondary, fun _ he => absurd he List.not_mem_nil⟩)
  obtain ⟨ins, hfires⟩ := hsupport
  obtain ⟨b, p, r', -, heq, hb, hp, -, hcycle⟩ := materialized_of_fires hfires hreads
  cases heq
  exact ⟨b, p, hb, hp, hcycle⟩

/-! ## One decision -/

/-- What the file decides on an admission. -/
inductive Decision where
  | granted (secondary : Bool) (entry : Fin 2)
  | blocked
deriving DecidableEq, Repr

/-- The operation has exactly one event of the type. It has the fields, and the cycle. -/
def Sole (problem : BoundedProblem) (context : EvaluationContext) (eventType : String) (op : Value)
    (fields : List (String × Value)) (c : Nat) : Prop :=
  ∃ id, (∀ id', Showing problem context eventType [("op_id", op)] id' ↔ id' = id) ∧
    ∀ p ∈ ("cycle", .int c) :: fields, context.Carries id p.1 p.2

/-- The operation has no event of the type. -/
def Absent (problem : BoundedProblem) (context : EvaluationContext) (eventType : String)
    (op : Value) : Prop :=
  ∀ id, ¬ Showing problem context eventType [("op_id", op)] id

/-- The decision is the one that the events of the operation show: a primary
permit of a free entry, a secondary permit of the entry of the block, or a refusal. -/
def Decision.Shown (problem : BoundedProblem) (context : EvaluationContext) (pre : CellStates)
    (op blockAddress : Value) (c : Nat) : Decision → Prop
  | granted secondary i =>
      CellIs pre c (block i) (if secondary then blockAddress else emptyAddr) ∧
      Sole problem context (permitType secondary) op [("mshr_id", idOf i)] c ∧
      Sole problem context "DCache.MSHRRequest" op
        [("mshr_id", idOf i), ("secondary", .bool secondary)] c ∧
      Absent problem context (permitType (!secondary)) op ∧
      Absent problem context "MSHRFile.RequestBlocked" op
  | blocked =>
      Sole problem context "MSHRFile.RequestBlocked" op [] c ∧
      Absent problem context "DCache.MSHRRequest" op ∧
      ∀ secondary, Absent problem context (permitType secondary) op

theorem Sole.not_absent {context : EvaluationContext} {eventType : String} {op : Value}
    {fields : List (String × Value)} (h : Sole problem context eventType op fields c) :
    ¬ Absent problem context eventType op := by
  obtain ⟨id, hid, -⟩ := h
  exact fun habsent => habsent id ((hid id).mpr rfl)

theorem Sole.carries_unique {context : EvaluationContext} {eventType : String} {op : Value}
    {fields fields' : List (String × Value)} (h : Sole problem context eventType op fields c)
    (h' : Sole problem context eventType op fields' c) {field : String} {v w : Value}
    (hv : (field, v) ∈ fields) (hw : (field, w) ∈ fields') : v.key = w.key := by
  obtain ⟨id, hid, hcarries⟩ := h
  obtain ⟨id', hid', hcarries'⟩ := h'
  obtain rfl := (hid' id).mp ((hid id).mpr rfl)
  exact (hcarries _ (List.mem_cons_of_mem _ hv)).unique (hcarries' _ (List.mem_cons_of_mem _ hw))

/-- Two decisions are not shown at once. -/
theorem Decision.Shown.unique {context : EvaluationContext} {op blockAddress : Value}
    {d d' : Decision} (h : d.Shown problem context pre op blockAddress c)
    (h' : d'.Shown problem context pre op blockAddress c) : d = d' := by
  rcases d with ⟨s, i⟩ | _ <;> rcases d' with ⟨s', i'⟩ | _
  · obtain ⟨-, hpermit, -, habsent, -⟩ := h
    obtain ⟨-, hpermit', -, -, -⟩ := h'
    have hs : s' = s := by
      by_contra hne
      have hnot : (!s) = s' := by cases s <;> cases s' <;> simp_all
      rw [hnot] at habsent
      exact hpermit'.not_absent habsent
    subst hs
    rw [idOf_inj (hpermit.carries_unique hpermit' List.mem_cons_self List.mem_cons_self)]
  · exact absurd h.2.2.2.2 h'.1.not_absent
  · exact absurd h'.2.2.2.2 h.1.not_absent
  · rfl

/-- The decision of an answer. -/
def Choice.decision : Choice → Decision
  | emptyHead i => .granted false i
  | onlyFree i => .granted false i
  | secondary i _ => .granted true i
  | _ => .blocked

/-- The type of the event that shows the decision. -/
def Decision.eventType : Decision → String
  | granted secondary _ => permitType secondary
  | blocked => "MSHRFile.RequestBlocked"

theorem Choice.output_eq {choice : Choice} : choice.output.2 = choice.decision.eventType := by
  rcases choice with i | i | i | i | _ | i | i <;> rfl

theorem Choice.label_of_granted {choice : Choice} {secondary : Bool} {i : Fin 2}
    (h : choice.decision = .granted secondary i) : ("mshr_id", idOf i) ∈ choice.label := by
  rcases choice with j | j | j | j | _ | j | j <;> cases h
  case onlyFree => fin_cases i <;> exact List.mem_cons_self
  all_goals exact List.mem_cons_self

/-- The entry of a permit is free, or has the block. -/
theorem block_of_enabled {choice : Choice} (h : choice.Enabled (viewAt pre c req))
    {secondary : Bool} {i : Fin 2} (hdecision : choice.decision = .granted secondary i) :
    CellIs pre c (block i) (if secondary then req.blockAddress else emptyAddr) := by
  rcases choice with j | j | ⟨j, _ | _ | _⟩ | j | _ | j | j <;> cases hdecision
  case emptyHead =>
    obtain ⟨-, h0, h1⟩ := h
    fin_cases i
    · exact of_decide_eq_true h0
    · exact of_decide_eq_true h1
  case onlyFree => exact of_decide_eq_true h.1
  all_goals exact of_decide_eq_true h.2.2.1

end Admitted

/-- What the file decides in a run: the head is an entry, busy entries do not
share a set, and every admission has one decision in its cycle. -/
structure Decides (problem : BoundedProblem) (context : EvaluationContext) (horizon : Nat)
    (pre : CellStates) : Prop where
  head : ∀ c ≤ horizon + 1, CellIs pre c head (idOf 0) ∨ CellIs pre c head (idOf 1)
  apart : ∀ c ≤ horizon + 1, ∀ v,
    ¬ CellIs pre c (block 0) emptyAddr → ¬ CellIs pre c (block 1) emptyAddr →
      ¬ (CellIs pre c (set 0) v ∧ CellIs pre c (set 1) v)
  decision : ∀ a, Occurring problem context "DCache.MSHRAdmissionRequest" a →
    ∃ op blockAddress c, context.Reads a "op_id" op ∧
      context.Reads a "block_address" blockAddress ∧ context.AtCycle a c ∧
      ∃! d, Decision.Shown problem context pre op blockAddress c d

section Decides

variable {req : Req} {k c : Nat} {a : String}

theorem Choice.output_mem {choice : Choice} : choice.output.2 ∈ fileTypes ∧
    choice.output.2 ≠ "DCache.MSHRRequest" := by
  rcases choice with i | i | i | i | _ | i | i <;> simp [output, fileTypes]

/-- The answer of the view is the only answer. -/
theorem sole_answer
    (h : ModuleCompletion (mshrFileAllocator false reqs) catalog trace spec problem
      interpreter assignment pre) (halone : Alone reqs trace spec)
    (hadmitted : Admitted reqs problem (problem.context interpreter assignment) spec.horizon
      req k a c) :
    Sole problem (problem.context interpreter assignment) (viewAt pre c req).answer.output.2
      req.opId (viewAt pre c req).answer.label c := by
  obtain ⟨hmem, hne⟩ := @Choice.output_mem (viewAt pre c req).answer
  obtain ⟨id, hid⟩ := exists_given h halone hadmitted
  obtain ⟨-, hname, hanswer, hcycle⟩ := answer_unique h halone hadmitted hmem hne hid
  refine ⟨id, fun id' => ⟨fun hid' => ?_, fun heq => heq ▸ hid⟩, List.forall_mem_cons.mpr ⟨?_, ?_⟩⟩
  · obtain ⟨-, hname', -⟩ := answer_unique h halone hadmitted hmem hne hid'
    rw [hname', hname]
  · exact hcycle.carries_right ⟨_, hadmitted.cycle, rfl⟩
  · exact fun p hp => hanswer.carries p (List.mem_cons_of_mem _ hp)

theorem absent_answer
    (h : ModuleCompletion (mshrFileAllocator false reqs) catalog trace spec problem
      interpreter assignment pre) (halone : Alone reqs trace spec)
    (hadmitted : Admitted reqs problem (problem.context interpreter assignment) spec.horizon
      req k a c) {eventType : String} (htype : eventType ∈ fileTypes)
    (hrequest : eventType ≠ "DCache.MSHRRequest")
    (hne : (viewAt pre c req).answer.output.2 ≠ eventType) :
    Absent problem (problem.context interpreter assignment) eventType req.opId := by
  intro id hid
  exact hne (answer_unique h halone hadmitted htype hrequest hid).1

/-- The requests that leave the file are those of its slots. -/
theorem reads_secondary
    (h : ModuleCompletion (mshrFileAllocator false reqs) catalog trace spec problem
      interpreter assignment pre) (halone : Alone reqs trace spec) {r : String}
    (hr : Occurring problem (problem.context interpreter assignment) "DCache.MSHRRequest" r) :
    ∃ value, (problem.context interpreter assignment).Reads r "secondary" (.bool value) := by
  obtain ⟨req, k, entry, secondary, -, -, -, -, hreads, -⟩ := exists_request h.toCompletion
    halone.slots_append (fun f hf => absurd hf List.not_mem_nil)
    (halone.no_event (by decide) (by decide)) hr
  exact ⟨secondary, hreads⟩

/-- A request that leaves the file is that of the decision. -/
theorem request_unique
    (h : ModuleCompletion (mshrFileAllocator false reqs) catalog trace spec problem
      interpreter assignment pre) (halone : Alone reqs trace spec)
    (hadmitted : Admitted reqs problem (problem.context interpreter assignment) spec.horizon
      req k a c) {r : String}
    (hr : Showing problem (problem.context interpreter assignment) "DCache.MSHRRequest"
      [("op_id", req.opId)] r) :
    ∃ secondary i, (viewAt pre c req).answer.decision = .granted secondary i ∧
      r = indexed (requestStem i secondary) k := by
  obtain ⟨req', k', i, secondary, hreq', hname, hop, hid, hsecondary, -⟩ := exists_request
    h.toCompletion halone.slots_append (fun f hf => absurd hf List.not_mem_nil)
    (halone.no_event (by decide) (by decide)) hr.occurring
  obtain ⟨rfl, rfl⟩ := halone.requests.req_unique hadmitted.mem hreq'
    ((hr.carries ("op_id", req.opId) List.mem_cons_self).unique ⟨_, hop, rfl⟩)
  refine ⟨secondary, i, ?_, hname⟩
  have hshowing : Showing problem (problem.context interpreter assignment) "DCache.MSHRRequest"
      [("op_id", req.opId), ("mshr_id", idOf i), ("secondary", .bool secondary)] r := by
    refine ⟨hr.occurring, ?_⟩
    exact List.forall_mem_cons.mpr ⟨⟨_, hop, rfl⟩, List.forall_mem_cons.mpr ⟨⟨_, hid, rfl⟩,
      List.forall_mem_singleton.mpr ⟨_, hsecondary, rfl⟩⟩⟩
  obtain ⟨-, p, -, hp, -⟩ := exists_permit h hadmitted.mem
    (fun r hr => reads_secondary h halone hr) hshowing
  -- its permit is the answer
  have hpermit : permitType secondary ∈ fileTypes ∧
      permitType secondary ≠ "DCache.MSHRRequest" := by
    cases secondary <;> decide
  obtain ⟨houtput, -, hanswer, -⟩ := answer_unique h halone hadmitted hpermit.1 hpermit.2
    ⟨hp.occurring, List.forall_mem_singleton.mpr (hp.carries _ List.mem_cons_self)⟩
  rw [Choice.output_eq] at houtput
  cases hdecision : (viewAt pre c req).answer.decision with
  | granted secondary' j =>
      rw [hdecision] at houtput
      have hij : i = j := idOf_inj ((hp.carries ("mshr_id", idOf i) (by simp)).unique
        (hanswer.carries ("mshr_id", idOf j)
          (List.mem_cons_of_mem _ (Choice.label_of_granted hdecision))))
      have hsame : secondary' = secondary := by
        cases secondary <;> cases secondary' <;>
          simp_all [Decision.eventType, permitType]
      rw [hij, hsame]
  | blocked =>
      rw [hdecision] at houtput
      cases secondary <;> exact absurd houtput (by decide)

/-- A permit of the answer has one request. -/
theorem sole_request
    (h : ModuleCompletion (mshrFileAllocator false reqs) catalog trace spec problem
      interpreter assignment pre) (halone : Alone reqs trace spec)
    (hadmitted : Admitted reqs problem (problem.context interpreter assignment) spec.horizon
      req k a c) {secondary : Bool} {i : Fin 2}
    (hdecision : (viewAt pre c req).answer.decision = .granted secondary i) :
    Sole problem (problem.context interpreter assignment) "DCache.MSHRRequest" req.opId
      [("mshr_id", idOf i), ("secondary", .bool secondary)] c := by
  obtain ⟨hmem, hne⟩ := @Choice.output_mem (viewAt pre c req).answer
  obtain ⟨p, hp⟩ := exists_given h halone hadmitted
  obtain ⟨-, -, hanswer, -⟩ := answer_unique h halone hadmitted hmem hne hp
  have hpermit : Showing problem (problem.context interpreter assignment) (permitType secondary)
      [("op_id", req.opId), ("mshr_id", idOf i)] p := by
    have htype : (viewAt pre c req).answer.output.2 = permitType secondary := by
      rw [Choice.output_eq, hdecision]
      rfl
    rw [← htype]
    refine ⟨hp.occurring, List.forall_mem_cons.mpr ⟨hp.carries _ List.mem_cons_self, ?_⟩⟩
    exact List.forall_mem_singleton.mpr (hanswer.carries _
      (List.mem_cons_of_mem _ (Choice.label_of_granted hdecision)))
  obtain ⟨r, hr, hcycle⟩ := exists_materialized h hadmitted.mem
    (fun r hr => reads_secondary h halone hr) hadmitted.showing hpermit
  have hop : Showing problem (problem.context interpreter assignment) "DCache.MSHRRequest"
      [("op_id", req.opId)] r :=
    ⟨hr.occurring, List.forall_mem_singleton.mpr (hr.carries _ List.mem_cons_self)⟩
  refine ⟨r, fun r' => ⟨fun hr' => ?_, fun heq => heq ▸ hop⟩, List.forall_mem_cons.mpr ⟨?_, ?_⟩⟩
  · obtain ⟨s, j, hgranted, hname⟩ := request_unique h halone hadmitted hop
    obtain ⟨s', j', hgranted', hname'⟩ := request_unique h halone hadmitted hr'
    cases hgranted.symm.trans hgranted'
    rw [hname', hname]
  · exact hcycle.carries_right ⟨_, hadmitted.cycle, rfl⟩
  · exact fun p hp => hr.carries p (List.mem_cons_of_mem _ hp)

/-- The decision of the answer is shown. -/
theorem shown_of_admitted
    (h : ModuleCompletion (mshrFileAllocator false reqs) catalog trace spec problem
      interpreter assignment pre) (halone : Alone reqs trace spec)
    (hadmitted : Admitted reqs problem (problem.context interpreter assignment) spec.horizon
      req k a c) :
    Decision.Shown problem (problem.context interpreter assignment) pre req.opId req.blockAddress c
      (viewAt pre c req).answer.decision := by
  have hsole := sole_answer h halone hadmitted
  have habsent := fun {eventType} => @absent_answer _ _ _ _ _ _ _ _ _ _ _ _ h halone hadmitted
    eventType
  rw [Choice.output_eq] at hsole
  simp only [Choice.output_eq] at habsent
  cases hdecision : (viewAt pre c req).answer.decision with
  | granted secondary i =>
      rw [hdecision] at hsole habsent
      refine ⟨block_of_enabled enabled_answer hdecision, ?_, sole_request h halone hadmitted hdecision,
        ?_, ?_⟩
      · obtain ⟨id, hid, hcarries⟩ := hsole
        refine ⟨id, hid, List.forall_mem_cons.mpr ⟨hcarries _ List.mem_cons_self, ?_⟩⟩
        exact List.forall_mem_singleton.mpr (hcarries _
          (List.mem_cons_of_mem _ (Choice.label_of_granted hdecision)))
      · cases secondary
        · exact habsent (by decide) (by decide) (by simp [Decision.eventType, permitType])
        · exact habsent (by decide) (by decide) (by simp [Decision.eventType, permitType])
      · cases secondary
        · exact habsent (by decide) (by decide) (by simp [Decision.eventType, permitType])
        · exact habsent (by decide) (by decide) (by simp [Decision.eventType, permitType])
  | blocked =>
      rw [hdecision] at hsole habsent
      refine ⟨?_, ?_, ?_⟩
      · obtain ⟨id, hid, hcarries⟩ := hsole
        exact ⟨id, hid, List.forall_mem_singleton.mpr (hcarries _ List.mem_cons_self)⟩
      · intro r hr
        obtain ⟨s, i, hgranted, -⟩ := request_unique h halone hadmitted hr
        rw [hdecision] at hgranted
        cases hgranted
      · intro secondary
        cases secondary
        · exact habsent (by decide) (by decide) (by decide)
        · exact habsent (by decide) (by decide) (by decide)

end Decides

end Completion

/-! ## Runs -/

theorem admits_of_event {req : Req} {id : String} {cycle : Nat} {e : EventInstance}
    (h : ModuleRun.event (admitting req id cycle) = .ok e) : Admits e req := by
  obtain ⟨-, -, -, hfields⟩ := ModuleRun.event_eq_ok h
  have hget : ∀ field v, (field, v) ∈ admissionOf req →
      e.fields.get? field = some (.value v) := by
    intro field v hmem
    rw [hfields]
    refine Dict.get?_ofList_of_mem ?_ (List.mem_map_of_mem (f := fun p => (p.1, Term.value p.2)) hmem)
    simp [admitting, admissionOf]
  constructor
  all_goals exact hget _ _ (by simp [admissionOf])

/-- The requests of the run with one admission. -/
theorem oneAdmission_requests {built : ModuleRun.Built} (hbuild : oneAdmission.build = .ok built) :
    Requests [loadA] built.trace := by
  obtain ⟨-, -, hevents⟩ := ModuleRun.build_eq_ok hbuild
  have hforall := Except.mapM_eq_ok.mp hevents
  generalize hlist : built.trace.events = events at hforall
  obtain - | ⟨he, hrest⟩ := hforall
  obtain - | - := hrest
  rename_i e
  have htype : e.eventType = "DCache.MSHRAdmissionRequest" := (ModuleRun.event_eq_ok he).2.1
  refine ⟨⟨?_, by decide, ?_⟩, ?_, ?_, ?_⟩
  · rw [hlist, List.filter_singleton, htype]
    exact .cons (admits_of_event he) .nil
  · exact List.forall_mem_singleton.mpr (by decide)
  · rw [hlist]
    exact List.forall_mem_singleton.mpr (Or.inl htype)
  · exact List.forall_mem_singleton.mpr ⟨"load", List.mem_cons_self, rfl⟩
  · rw [List.forall_mem_singleton, List.forall_mem_singleton]
    exact fun _ => rfl

end Allocator

end Boom

end Umcm
