import Umcm.Boom.Permits

/-!
# Sets of the MSHR file

A file whose requests have a block that determines their set never holds one set
twice: a request for a set that is held joins its entry or is refused, and two
permits of one cycle are for the head or for the only free entry.

* `inv`: busy entries hold requests, and do not share a set.
-/

namespace Umcm

namespace Boom

open EvaluationContext

namespace Allocator

/-! ## Requests of a trace -/

/-- The request has the fields of the admission. -/
structure Admits (e : EventInstance) (req : Req) : Prop where
  opId : e.fields.get? "op_id" = some (.value req.opId)
  blockAddress : e.fields.get? "block_address" = some (.value req.blockAddress)
  setIndex : e.fields.get? "set_index" = some (.value req.setIndex)
  memKind : e.fields.get? "mem_kind" = some (.value req.memKind)
  isProbe : e.fields.get? "is_probe" = some (.value (.bool req.isProbe))

/-- The requests are the admissions of the trace, with different operations. -/
structure Admissions (reqs : List Req) (trace : Trace) : Prop where
  admits : List.Forall₂ Admits
    (trace.events.filter (fun e => e.eventType = "DCache.MSHRAdmissionRequest")) reqs
  opIds : (reqs.map (fun req => req.opId.key)).Nodup
  blocks : ∀ req ∈ reqs, req.blockAddress.key ≠ emptyAddr.key

/-- The requests have a memory kind, and their block determines their set. -/
structure Requests (reqs : List Req) (trace : Trace) : Prop extends Admissions reqs trace where
  types : ∀ e ∈ trace.events,
    e.eventType = "DCache.MSHRAdmissionRequest" ∨ e.eventType = "MSHR.MemFinish"
  kinds : ∀ req ∈ reqs, ∃ kind ∈ memKinds, req.memKind.key = (Value.str kind).key
  sets : ∀ req ∈ reqs, ∀ req' ∈ reqs, req.blockAddress.key = req'.blockAddress.key →
    req.setIndex.key = req'.setIndex.key

/-- The operation of an event, when it is given. -/
def opKey (e : EventInstance) : Option Key :=
  match e.fields.get? "op_id" with
  | some (.value v) => some v.key
  | _ => none

theorem Admits.opKey_eq {e : EventInstance} {req : Req} (h : Admits e req) :
    opKey e = some req.opId.key := by
  unfold opKey
  rw [h.opId]

section Trace

variable {reqs : List Req} {trace : Trace}

/-- A request is told by its operation. -/
theorem Admissions.req_unique (h : Admissions reqs trace) {req req' : Req} {k k' : Nat}
    (hreq : (req, k) ∈ reqs.zipIdx) (hreq' : (req', k') ∈ reqs.zipIdx)
    (hkey : req.opId.key = req'.opId.key) : req = req' ∧ k = k' := by
  have hget := List.mem_zipIdx_iff_getElem?.mp hreq
  have hget' := List.mem_zipIdx_iff_getElem?.mp hreq'
  have hlt : k < (reqs.map (fun req => req.opId.key)).length := by
    rw [List.length_map]
    exact (List.getElem?_eq_some_iff.mp hget).1
  have hsame : k = k' := by
    refine (List.getElem?_inj hlt h.opIds).mp ?_
    rw [List.getElem?_map, List.getElem?_map, hget, hget']
    exact congrArg some hkey
  subst hsame
  rw [hget] at hget'
  exact ⟨Option.some.inj hget', rfl⟩

/-- The admissions of a trace have different operations. -/
theorem Admissions.event_unique (h : Admissions reqs trace) {e e' : EventInstance}
    (he : e ∈ trace.events) (he' : e' ∈ trace.events)
    (htype : e.eventType = "DCache.MSHRAdmissionRequest")
    (htype' : e'.eventType = "DCache.MSHRAdmissionRequest") (hkey : opKey e = opKey e') :
    e = e' := by
  have hkeys : (trace.events.filter
      (fun e => e.eventType = "DCache.MSHRAdmissionRequest")).map opKey =
      reqs.map (fun req => some req.opId.key) := by
    rw [← List.forall₂_eq_eq_eq, List.forall₂_map_left_iff, List.forall₂_map_right_iff]
    exact h.admits.imp (fun _ _ hadmits => hadmits.opKey_eq)
  have hnodup : ((trace.events.filter
      (fun e => e.eventType = "DCache.MSHRAdmissionRequest")).map opKey).Nodup := by
    rw [hkeys, show (fun req : Req => some req.opId.key) = some ∘ (fun req => req.opId.key) from rfl,
      ← List.map_map]
    exact h.opIds.map (Option.some_injective _)
  exact List.inj_on_of_nodup_map hnodup (List.mem_filter.mpr ⟨he, by simpa using htype⟩)
    (List.mem_filter.mpr ⟨he', by simpa using htype'⟩) hkey

end Trace

section Completion

variable {integrated : Bool} {reqs : List Req} {catalog : EventCatalog} {trace : Trace}
  {spec : CompletionSpec} {problem : BoundedProblem} {interpreter : Interpreter}
  {assignment : Dict String Value} {pre : CellStates}

/-- An admission is that of a request. -/
theorem exists_carried
    (h : Completion catalog trace spec problem interpreter assignment pre)
    (hadmissions : Admissions reqs trace) {fs : List EventSlot.Fields} (hslots : spec.SlotsFrom fs)
    (hfs : ∀ f ∈ fs, (f.fields.map Prod.fst).Nodup ∧
      f.eventType ≠ "DCache.MSHRAdmissionRequest") {a : String}
    (ha : Occurring problem (problem.context interpreter assignment)
      "DCache.MSHRAdmissionRequest" a) :
    ∃ e ∈ trace.events, e.eventType = "DCache.MSHRAdmissionRequest" ∧ e.id = a ∧
      ∃ req ∈ reqs, Admits e req ∧ Carried (problem.context interpreter assignment) req a := by
  rcases h.origin_fields hslots (fun f hf => (hfs f hf).1) ha with
    ⟨e, he, htype, hid, hreads⟩ | ⟨f, hf, htype, -⟩
  · have hmem : e ∈ trace.events.filter
        (fun e => e.eventType = "DCache.MSHRAdmissionRequest") :=
      List.mem_filter.mpr ⟨he, by simpa using htype⟩
    obtain ⟨req, hreq, hadmits⟩ := Except.exists_right_of_forall₂ hadmissions.admits hmem
    refine ⟨e, he, htype, hid, req, hreq, hadmits, ?_⟩
    constructor
    · exact hreads _ _ (by decide) (by decide) hadmits.opId
    · exact hreads _ _ (by decide) (by decide) hadmits.blockAddress
    · exact hreads _ _ (by decide) (by decide) hadmits.setIndex
    · exact hreads _ _ (by decide) (by decide) hadmits.memKind
    · exact hreads _ _ (by decide) (by decide) hadmits.isProbe
  · exact absurd htype (hfs f hf).2

/-- An operation has one admission. -/
theorem admission_unique
    (h : Completion catalog trace spec problem interpreter assignment pre)
    (hadmissions : Admissions reqs trace) {fs : List EventSlot.Fields} (hslots : spec.SlotsFrom fs)
    (hfs : ∀ f ∈ fs, (f.fields.map Prod.fst).Nodup ∧
      f.eventType ≠ "DCache.MSHRAdmissionRequest") {op : Value} {a b : String}
    (ha : Showing problem (problem.context interpreter assignment)
      "DCache.MSHRAdmissionRequest" [("op_id", op)] a)
    (hb : Showing problem (problem.context interpreter assignment)
      "DCache.MSHRAdmissionRequest" [("op_id", op)] b) : a = b := by
  obtain ⟨e, he, htype, rfl, req, -, hadmits, hcarried⟩ :=
    exists_carried h hadmissions hslots hfs ha.occurring
  obtain ⟨e', he', htype', rfl, req', -, hadmits', hcarried'⟩ :=
    exists_carried h hadmissions hslots hfs hb.occurring
  have hop : op.key = req.opId.key :=
    (ha.carries _ List.mem_cons_self).unique ⟨_, hcarried.opId, rfl⟩
  have hop' : op.key = req'.opId.key :=
    (hb.carries _ List.mem_cons_self).unique ⟨_, hcarried'.opId, rfl⟩
  have heq := hadmissions.event_unique he he' htype htype' (by
    rw [hadmits.opKey_eq, hadmits'.opKey_eq, ← hop, hop'])
  rw [heq]

/-- The admission of a request carries it. -/
theorem carried_of_showing
    (h : Completion catalog trace spec problem interpreter assignment pre)
    (hadmissions : Admissions reqs trace) {fs : List EventSlot.Fields} (hslots : spec.SlotsFrom fs)
    (hfs : ∀ f ∈ fs, (f.fields.map Prod.fst).Nodup ∧
      f.eventType ≠ "DCache.MSHRAdmissionRequest") {req : Req} {k : Nat}
    (hreq : (req, k) ∈ reqs.zipIdx) {a : String}
    (ha : Showing problem (problem.context interpreter assignment)
      "DCache.MSHRAdmissionRequest" [("op_id", req.opId)] a) :
    Carried (problem.context interpreter assignment) req a := by
  obtain ⟨e, -, -, -, req', hreq', -, hcarried⟩ :=
    exists_carried h hadmissions hslots hfs ha.occurring
  obtain ⟨k', hk'⟩ := exists_mem_zipIdx hreq'
  have hop : req.opId.key = req'.opId.key :=
    (ha.carries _ List.mem_cons_self).unique ⟨_, hcarried.opId, rfl⟩
  obtain ⟨rfl, -⟩ := hadmissions.req_unique hreq hk' hop
  exact hcarried

/-! ## The file -/

/-- Busy entries hold the block and the set of a request, and not the same set. -/
structure Inv (reqs : List Req) (pre : CellStates) (c : Nat) : Prop where
  entry : ∀ i, CellIs pre c (block i) emptyAddr ∨ ∃ req ∈ reqs,
    CellIs pre c (block i) req.blockAddress ∧ CellIs pre c (set i) req.setIndex
  apart : ∀ i, ¬ CellIs pre c (block i) emptyAddr → ¬ CellIs pre c (block (1 - i)) emptyAddr →
    ∀ v, CellIs pre c (set i) v → ¬ CellIs pre c (set (1 - i)) v

theorem wellFormed_viewAt (hrequests : Requests reqs trace) {c : Nat} (hinv : Inv reqs pre c)
    {req : Req} (hreq : req ∈ reqs) : (viewAt pre c req).WellFormed := by
  have hblock : ∀ i, CellIs pre c (block i) req.blockAddress →
      ¬ CellIs pre c (block i) emptyAddr ∧ CellIs pre c (set i) req.setIndex := by
    intro i hcell
    have hbusy : ¬ CellIs pre c (block i) emptyAddr := fun hfree =>
      hrequests.blocks req hreq (hcell.unique hfree)
    refine ⟨hbusy, ?_⟩
    obtain ⟨req', hreq', hcell', hset⟩ := (hinv.entry i).resolve_left hbusy
    exact hset.congr (hrequests.sets req' hreq' req hreq (hcell'.unique hcell))
  constructor
  case busy =>
    intro i hi
    exact decide_eq_false (hblock i (of_decide_eq_true hi)).1
  case set =>
    intro i hi
    exact decide_eq_true (hblock i (of_decide_eq_true hi)).2
  case apart =>
    rintro h0 h1 ⟨hs0, hs1⟩
    exact hinv.apart 0 (of_decide_eq_false h0) (of_decide_eq_false h1) _ (of_decide_eq_true hs0)
      (of_decide_eq_true hs1)

/-- What a request that is permitted an entry sees. -/
theorem granted_of_enabled {view : View} {choice : Choice} {i : Fin 2}
    (hpermits : choice.permits = some i) (h : choice.Enabled view) :
    (view.entry i).free = true ∧
      ((view.entry (1 - i)).free = true ∧ view.head = i ∨
        (view.entry (1 - i)).free = false ∧ (view.entry (1 - i)).sameSet = false) := by
  rcases choice with j | j | j | j | _ | j | j
  case emptyHead =>
    cases hpermits
    obtain ⟨hhead, h0, h1⟩ := h
    have hfree : ∀ j, (view.entry j).free = true := by
      intro j
      fin_cases j
      · exact h0
      · exact h1
    exact ⟨hfree i, Or.inl ⟨hfree _, hhead⟩⟩
  case onlyFree =>
    cases hpermits
    exact ⟨h.1, Or.inr h.2⟩
  all_goals cases hpermits

/-- The hypotheses of the file alone. -/
structure Alone (reqs : List Req) (trace : Trace) (spec : CompletionSpec) : Prop where
  requests : Requests reqs trace
  slots : spec.SlotsFrom (mshrFileAllocator false reqs).slots

theorem Alone.no_event (h : Alone reqs trace spec) {eventType : String}
    (hadmission : eventType ≠ "DCache.MSHRAdmissionRequest") (hfinish : eventType ≠ "MSHR.MemFinish") :
    ∀ e ∈ trace.events, e.eventType ≠ eventType := by
  intro e he heq
  rcases h.requests.types e he with htype | htype
  · exact hadmission (heq.symm.trans htype)
  · exact hfinish (heq.symm.trans htype)

theorem Alone.slots_append (h : Alone reqs trace spec) :
    spec.SlotsFrom ((mshrFileAllocator false reqs).slots ++ []) := by
  rw [List.append_nil]
  exact h.slots

theorem slots_admission : ∀ f ∈ (mshrFileAllocator integrated reqs).slots,
    (f.fields.map Prod.fst).Nodup ∧ f.eventType ≠ "DCache.MSHRAdmissionRequest" := by
  intro f hf
  obtain ⟨req, k, -, hf⟩ := mem_repeatOver.mp hf
  refine ⟨slot_nodup hf, ?_⟩
  rcases slot_cases hf with ⟨choice, hanswer⟩ | ⟨entry, secondary, rfl⟩
  · rw [hanswer.eventType]
    rcases choice with i | i | i | i | _ | i | i <;> simp [Choice.output]
  · simp [requestSlot]

/-- An answer is enabled in the view of its request. -/
theorem enabled_of_answers
    (h : ModuleCompletion (mshrFileAllocator false reqs) catalog trace spec problem
      interpreter assignment pre) (halone : Alone reqs trace spec) {req : Req} {k : Nat}
    (hreq : (req, k) ∈ reqs.zipIdx) {choice : Choice} {id : String}
    (hid : Answers problem (problem.context interpreter assignment) req choice id) :
    ∃ a c, Supported problem (problem.context interpreter assignment) spec.horizon pre req k
      choice id a c ∧ choice.Enabled (viewAt pre c req) := by
  obtain ⟨a, c, hsupported⟩ := support_choice h hreq hid
  have hmem : req ∈ reqs := mem_of_mem_zipIdx hreq
  have hcarried := carried_of_showing h.toCompletion halone.requests.toAdmissions halone.slots
    slots_admission hreq hsupported.admission
  have htyped := typed h (c := c) (by have := hsupported.le; omega)
  refine ⟨a, c, hsupported, enabled_iff_guards.mpr ⟨?_, ?_⟩⟩
  · exact (Choice.holds_when apply_input hcarried (halone.requests.kinds req hmem)).mp
      hsupported.when
  · intro guard hguard
    exact Guard.holds_of_meets htyped apply_input hcarried hsupported.cycle
      (hsupported.guards guard hguard)

/-- A permit of an entry, as its request sees the file. -/
theorem granted_of_commits
    (h : ModuleCompletion (mshrFileAllocator false reqs) catalog trace spec problem
      interpreter assignment pre) (halone : Alone reqs trace spec) {i : Fin 2} {c : Nat}
    (hcommits : Commits reqs problem (problem.context interpreter assignment) i c) :
    ∃ req ∈ reqs, (∃ choice, Choice.permits choice = some i ∧ choice.Enabled (viewAt pre c req)) ∧
      CellIs pre (c + 1) (block i) req.blockAddress ∧
      CellIs pre (c + 1) (set i) req.setIndex := by
  obtain ⟨req, k, a, p, hreq, hfires, hcycle⟩ := hcommits
  obtain ⟨ha, hp⟩ := showing_of_commit hfires
  obtain ⟨req', k', choice, hreq', houtput, -, hanswer⟩ := exists_answer h.toCompletion
    halone.slots_append (fun f hf => absurd hf List.not_mem_nil) (by decide) (by decide)
    (halone.no_event (by decide) (by decide)) hp.occurring
  have hadmissions := halone.requests.toAdmissions
  -- the permit is of the request and of the entry of its slot
  obtain ⟨rfl, rfl⟩ := hadmissions.req_unique hreq hreq'
    ((hp.carries ("op_id", req.opId) List.mem_cons_self).unique
      (hanswer.carries _ List.mem_cons_self))
  obtain ⟨j, hpermits, -, hlabel, -⟩ := Choice.permits_of_output houtput
  have hij : i = j := idOf_inj ((hp.carries ("mshr_id", idOf i) (by simp)).unique
    (hanswer.carries ("mshr_id", idOf j) (List.mem_cons_of_mem _ hlabel)))
  subst hij
  obtain ⟨b, d, hsupported, henabled⟩ := enabled_of_answers h halone hreq hanswer
  have hcd : c = d := by
    obtain ⟨v, w, hv, hw, hkey⟩ := hsupported.same
    cases hv.unique hsupported.cycle
    cases hw.unique hcycle
    have heq : d = c := by simpa [Value.key] using hkey
    exact heq.symm
  subst hcd
  have hcarried := carried_of_showing h.toCompletion hadmissions halone.slots slots_admission hreq ha
  have htaken := (taken_of_commit h hreq hfires hcycle).2
  obtain ⟨v, hv, hblock⟩ := htaken.kept "block_address" (by decide)
  obtain ⟨w, hw, hset⟩ := htaken.kept "set_index" (by decide)
  cases hv.unique hcarried.blockAddress
  cases hw.unique hcarried.setIndex
  exact ⟨req, mem_of_mem_zipIdx hreq, ⟨choice, hpermits, henabled⟩, hblock, hset⟩

/-- One cycle keeps the invariant. -/
theorem inv_step
    (h : ModuleCompletion (mshrFileAllocator false reqs) catalog trace spec problem
      interpreter assignment pre) (halone : Alone reqs trace spec) {c : Nat} (hc : c ≤ spec.horizon)
    (hinv : Inv reqs pre c) : Inv reqs pre (c + 1) := by
  constructor
  case entry =>
    intro i
    rcases entry_step h i hc with hcommits | ⟨finish, hfinish, hcycle⟩ | hkept
    · obtain ⟨req, hreq, -, hblock, hset⟩ := granted_of_commits h halone hcommits
      exact Or.inr ⟨req, hreq, hblock, hset⟩
    · exact Or.inl (freed_of_release h hfinish hcycle).2.2.1
    · have hblock := hkept "block_address" (by decide)
      have hset := hkept "set_index" (by decide)
      rcases hinv.entry i with hfree | ⟨req, hreq, hcell, hcell'⟩
      · exact Or.inl (hfree.of_eq hblock)
      · exact Or.inr ⟨req, hreq, hcell.of_eq hblock, hcell'.of_eq hset⟩
  case apart =>
    -- an entry that is taken does not meet the set of an entry that is kept
    have htaken : ∀ i, Commits reqs problem (problem.context interpreter assignment) i c →
        (∀ f ∈ entryFields, pre (c + 1) (cell (1 - i) f) = pre c (cell (1 - i) f)) →
        ¬ CellIs pre (c + 1) (block (1 - i)) emptyAddr → ∀ v, CellIs pre (c + 1) (set i) v →
          ¬ CellIs pre (c + 1) (set (1 - i)) v := by
      intro i hcommits hkept hbusy v hv hv'
      obtain ⟨req, -, ⟨choice, hpermits, henabled⟩, -, hset⟩ :=
        granted_of_commits h halone hcommits
      rcases (granted_of_enabled hpermits henabled).2 with ⟨hfree, -⟩ | ⟨-, hother⟩
      · exact hbusy ((of_decide_eq_true hfree).of_eq (hkept "block_address" (by decide)))
      · refine of_decide_eq_false hother ?_
        exact (hv'.of_eq (hkept "set_index" (by decide)).symm).congr (hv.unique hset)
    intro i hbusy hbusy' v hv hv'
    have hother : (1 : Fin 2) - (1 - i) = i := by fin_cases i <;> rfl
    rcases entry_step h i hc with hcommits | ⟨finish, hfinish, hcycle⟩ | hkept
    · rcases entry_step h (1 - i) hc with hcommits' | ⟨finish, hfinish, hcycle⟩ | hkept'
      · -- both entries are taken: the head is not both of them
        obtain ⟨req, -, ⟨choice, hpermits, henabled⟩, -⟩ := granted_of_commits h halone hcommits
        obtain ⟨req', -, ⟨choice', hpermits', henabled'⟩, -⟩ :=
          granted_of_commits h halone hcommits'
        obtain ⟨hfree, hgranted⟩ := granted_of_enabled hpermits henabled
        obtain ⟨hfree', hgranted'⟩ := granted_of_enabled hpermits' henabled'
        rw [hother] at hgranted'
        have hhead : (viewAt pre c req).head = i := by
          rcases hgranted with ⟨-, hhead⟩ | ⟨hbusy, -⟩
          · exact hhead
          · exact absurd hfree' (Bool.eq_false_iff.mp hbusy)
        have hhead' : (viewAt pre c req').head = 1 - i := by
          rcases hgranted' with ⟨-, hhead⟩ | ⟨hbusy, -⟩
          · exact hhead
          · exact absurd hfree (Bool.eq_false_iff.mp hbusy)
        have heq : i = 1 - i := hhead.symm.trans hhead'
        fin_cases i <;> simp at heq
      · exact hbusy' (freed_of_release h hfinish hcycle).2.2.1
      · exact htaken i hcommits hkept' hbusy' v hv hv'
    · exact hbusy (freed_of_release h hfinish hcycle).2.2.1
    · rcases entry_step h (1 - i) hc with hcommits' | ⟨finish, hfinish, hcycle⟩ | hkept'
      · refine htaken (1 - i) hcommits' ?_ ?_ v hv' ?_
        · rw [hother]
          exact hkept
        · rw [hother]
          exact hbusy
        · rw [hother]
          exact hv
      · exact hbusy' (freed_of_release h hfinish hcycle).2.2.1
      · -- both entries are kept
        have hblock := hkept "block_address" (by decide)
        have hblock' := hkept' "block_address" (by decide)
        refine hinv.apart i (fun hfree => hbusy (hfree.of_eq hblock))
          (fun hfree => hbusy' (hfree.of_eq hblock')) v ?_ ?_
        · exact hv.of_eq (hkept "set_index" (by decide)).symm
        · exact hv'.of_eq ( hkept' "set_index" (by decide)).symm

/-- Busy entries never share a set. -/
theorem inv
    (h : ModuleCompletion (mshrFileAllocator false reqs) catalog trace spec problem
      interpreter assignment pre) (halone : Alone reqs trace spec) {c : Nat}
    (hc : c ≤ spec.horizon + 1) : Inv reqs pre c := by
  induction c with
  | zero =>
      have hempty : ∀ i, CellIs pre 0 (block i) emptyAddr := by
        intro i
        have hcell : (⟨block i, addressSort, emptyAddr⟩ : StateVariable.Fields) ∈
            (mshrFileAllocator false reqs).stateVariables := by
          refine List.mem_cons_of_mem _ ?_
          fin_cases i
          · exact List.mem_append_left _ List.mem_cons_self
          · exact List.mem_append_right _ List.mem_cons_self
        exact h.starts hcell
      exact ⟨fun i => Or.inl (hempty i), fun i hbusy => absurd (hempty i) hbusy⟩
  | succ c ih => exact inv_step h halone (by omega) (ih (by omega))

end Completion

end Allocator

end Boom

end Umcm
