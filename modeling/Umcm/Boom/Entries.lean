import Umcm.Boom.FileView

/-!
# The entries of the MSHR file

A primary permit takes its entry in the cycle of its admission and turns the
head, a finish gives the entry back, and nothing else changes an entry.

* `commits`, `releases`: what a permit and a finish do.
* `entry_step`: an entry is taken, given back or kept.
-/

namespace Umcm

namespace Boom

open EvaluationContext

namespace Allocator

/-! ## Cells -/

theorem cell_inj {i j : Fin 2} {f g : String} (hf : '.' ∉ f.toList) (hg : '.' ∉ g.toList)
    (h : cell i f = cell j g) : i = j ∧ f = g := by
  obtain rfl := field_of_cellOf hf hg h
  have hid := id_of_cellOf hf h
  refine ⟨?_, rfl⟩
  fin_cases i <;> fin_cases j
  · rfl
  · exact absurd hid (by decide)
  · exact absurd hid (by decide)
  · rfl

theorem head_ne_cell {i : Fin 2} {f : String} (hf : '.' ∉ f.toList) : head ≠ cell i f := by
  intro h
  unfold head cell cellOf at h
  rw [show "MSHRFile.head" = "MSHRFile" ++ "." ++ "head" from rfl] at h
  have hprefix := congrArg String.toList (append_dot_inj (by decide) hf h).1
  simp [String.toList_append] at hprefix

/-- The fields of an entry. -/
def entryFields : List String :=
  ["block_address", "set_index", "tag", "way_id", "primary_write_intent"]

theorem dot_not_mem {f : String} (hf : f ∈ entryFields) : '.' ∉ f.toList := by
  fin_cases hf <;> decide

section Completion

variable {integrated : Bool} {reqs : List Req} {catalog : EventCatalog} {trace : Trace}
  {spec : CompletionSpec} {problem : BoundedProblem} {interpreter : Interpreter}
  {assignment : Dict String Value} {pre : CellStates}

theorem cell_mem {i : Fin 2} {f : String} (hf : f ∈ entryFields) :
    ∃ v ∈ (mshrFileAllocator integrated reqs).stateVariables, v.name = cell i f := by
  have hmem : cell i f ∈ (cells i).map StateVariable.Fields.name := by
    fin_cases hf <;> simp [cells, block, set, intent]
  obtain ⟨v, hv, hname⟩ := List.mem_map.mp hmem
  refine ⟨v, List.mem_cons_of_mem _ ?_, hname⟩
  fin_cases i
  · exact List.mem_append_left _ hv
  · exact List.mem_append_right _ hv

theorem mem_rules {req : Req} {k : Nat} (hreq : (req, k) ∈ reqs.zipIdx) :
    ∀ rule ∈ rules integrated req k, rule ∈ (mshrFileAllocator integrated reqs).rules :=
  fun _ hrule => List.mem_append_right _ (mem_repeatOver.mpr ⟨req, k, hreq, hrule⟩)

/-- Finishes and primary permits are the only ones to update a cell. -/
theorem updates_origin {rule : ModuleRule.Fields}
    (hrule : rule ∈ (mshrFileAllocator integrated reqs).rules) {u : StateUpdate.Fields}
    (hu : u ∈ rule.stateUpdates) : (∃ i, rule = releaseEntryOnFinish i) ∨
      ∃ i req k, (req, k) ∈ reqs.zipIdx ∧ rule = commitPrimaryAllocation i req k := by
  rcases List.mem_append.mp hrule with hrule | hrule
  · rcases List.mem_pair.mp hrule with rfl | rfl
    · exact Or.inl ⟨0, rfl⟩
    · exact Or.inl ⟨1, rfl⟩
  · obtain ⟨req, k, hreq, hrule⟩ := mem_repeatOver.mp hrule
    right
    have hmem : rule ∈ (rules integrated req k).filter (fun rule => !rule.stateUpdates.isEmpty) :=
      List.mem_filter.mpr ⟨hrule, by rw [List.isEmpty_eq_false_iff.mpr (List.ne_nil_of_mem hu)]; rfl⟩
    rcases List.mem_pair.mp hmem with rfl | rfl
    · exact ⟨0, req, k, hreq, rfl⟩
    · exact ⟨1, req, k, hreq, rfl⟩

/-! ## Permits and finishes -/

/-- A primary permit takes the entry in the cycle. -/
def Commits (reqs : List Req) (problem : BoundedProblem) (context : EvaluationContext) (i : Fin 2)
    (c : Nat) : Prop :=
  ∃ req k admission permit, (req, k) ∈ reqs.zipIdx ∧
    (commitPrimaryAllocation i req k).Fires problem context [admission, permit] [] ∧
    context.AtCycle permit c

/-- A finish gives the entry back in the cycle. -/
def Releases (problem : BoundedProblem) (context : EvaluationContext) (i : Fin 2) (c : Nat) :
    Prop :=
  ∃ finish, Showing problem context "MSHR.MemFinish" [("mshr_id", idOf i)] finish ∧
    context.AtCycle finish c

/-- The two inputs of an allocation. -/
theorem inputs_of_commit {context : EvaluationContext} {i : Fin 2} {req : Req} {k : Nat}
    {ins outs : List String}
    (h : (commitPrimaryAllocation i req k).Fires problem context ins outs) :
    ∃ admission permit, ins = [admission, permit] ∧ outs = [] := by
  have hin := h.inputs
  have hout := h.outputs
  cases hout
  obtain - | ⟨-, hin⟩ := hin
  obtain - | ⟨-, hin⟩ := hin
  obtain - | - := hin
  exact ⟨_, _, rfl, rfl⟩

theorem apply_admission {i : Fin 2} {req : Req} {k : Nat} {a p : String} :
    ((commitPrimaryAllocation i req k).binding ([a, p] ++ [])).apply "admission" = a :=
  apply_input

theorem apply_permit {i : Fin 2} {req : Req} {k : Nat} {a p : String} :
    ((commitPrimaryAllocation i req k).binding ([a, p] ++ [])).apply "permit" = p :=
  apply_output (by decide)

/-- The admission and the permit of an allocation. -/
theorem showing_of_commit {context : EvaluationContext} {i : Fin 2} {req : Req} {k : Nat}
    {a p : String} (h : (commitPrimaryAllocation i req k).Fires problem context [a, p] []) :
    Showing problem context "DCache.MSHRAdmissionRequest" [("op_id", req.opId)] a ∧
      Showing problem context "MSHRFile.PrimaryPermit"
        [("op_id", req.opId), ("mshr_id", idOf i)] p := by
  obtain - | ⟨ha, hin⟩ := h.inputs
  obtain - | ⟨hp, -⟩ := hin
  have hwhen : ∀ e ∈ [reqMatch req, ofReq req "permit", entryIs "permit" i], context.Holds
      (((commitPrimaryAllocation i req k).binding ([a, p] ++ [])).instantiate e) :=
    holds_allOf.mp h.when
  simp only [List.forall_mem_cons, reqMatch, ofReq, entryIs, holds_fieldIs, apply_admission,
    apply_permit] at hwhen
  obtain ⟨hop, hop', hid, -⟩ := hwhen
  refine ⟨⟨ha, List.forall_mem_singleton.mpr hop⟩, ⟨hp, ?_⟩⟩
  exact List.forall_mem_cons.mpr ⟨hop', List.forall_mem_singleton.mpr hid⟩

/-- The rule takes an admission and a primary permit of one request. -/
theorem commit_of_permit
    (h : ModuleCompletion (mshrFileAllocator integrated reqs) catalog trace spec problem
      interpreter assignment pre) {req : Req} {k : Nat} (hreq : (req, k) ∈ reqs.zipIdx)
    {i : Fin 2} {a p : String}
    (ha : Showing problem (problem.context interpreter assignment) "DCache.MSHRAdmissionRequest"
      [("op_id", req.opId)] a)
    (hp : Showing problem (problem.context interpreter assignment) "MSHRFile.PrimaryPermit"
      [("op_id", req.opId), ("mshr_id", idOf i)] p) :
    (commitPrimaryAllocation i req k).Fires problem (problem.context interpreter assignment)
      [a, p] [] := by
  have hrule : commitPrimaryAllocation i req k ∈ (mshrFileAllocator integrated reqs).rules :=
    mem_rules hreq _ (by fin_cases i <;> simp [rules])
  have hnodup : [a, p].Nodup := by
    rw [List.nodup_cons, List.mem_singleton]
    refine ⟨?_, List.nodup_singleton p⟩
    rintro rfl
    exact absurd (h.toCompletion.type_unique ha.occurring hp.occurring) (by decide)
  obtain ⟨outs, hfires⟩ := h.forward hrule rfl (.cons ha.occurring (.cons hp.occurring .nil)) hnodup
    (holds_allOf.mpr (by
      have hop := ha.carries ("op_id", req.opId) List.mem_cons_self
      have hop' := hp.carries ("op_id", req.opId) List.mem_cons_self
      have hid := hp.carries ("mshr_id", idOf i) (by simp)
      have happly : RoleBinding.apply [("admission", a), ("permit", p)] "permit" = p :=
        apply_output (by decide)
      change ∀ e ∈ [reqMatch req, ofReq req "permit", entryIs "permit" i],
        (problem.context interpreter assignment).Holds
          (RoleBinding.instantiate [("admission", a), ("permit", p)] e)
      simp only [List.forall_mem_cons, reqMatch, ofReq, entryIs, holds_fieldIs, apply_input, happly]
      exact ⟨hop, hop', hid, fun _ he => absurd he List.not_mem_nil⟩))
  cases hfires.outputs
  exact hfires

/-- The admission has a write intent. -/
def Intends (context : EvaluationContext) (a : String) (value : Bool) : Prop :=
  context.evaluate (RoleBinding.instantiate [("admission", a)] writeIntent) =
    .ok (some (.bool value))

/-- The fields of an admission that its entry keeps. -/
def keptFields : List String := ["block_address", "set_index", "tag", "way_id"]

/-- A taken entry has the fields of its admission, and the head turns. -/
structure Taken (context : EvaluationContext) (pre : CellStates) (i : Fin 2) (a : String)
    (c : Nat) : Prop where
  kept : ∀ f ∈ keptFields, ∃ v, context.Reads a f v ∧ CellIs pre c (cell i f) v
  intent : ∃ value, Intends context a value ∧ CellIs pre c (intent i) (.bool value)
  head : CellIs pre c head (idOf (other i))

theorem evaluate_writeIntent {context : EvaluationContext} {b : RoleBinding} {a : String}
    (ha : b.apply "admission" = a) {v : Value}
    (h : context.evaluate (b.instantiate writeIntent) = .ok (some v)) :
    ∃ value, v = .bool value ∧ Intends context a value := by
  have heq : b.instantiate writeIntent =
      RoleBinding.instantiate [("admission", a)] writeIntent := by
    simp [writeIntent, kindIs, fieldIs, ha]
  obtain ⟨values, -, hv⟩ := evaluate_nary_eq_ok.mp
    (show context.evaluate (.nary .or _) = .ok (some v) by
      rw [writeIntent, RoleBinding.instantiate_nary] at h
      exact h)
  rw [heq] at h
  simp only [evaluateNary] at hv
  split_ifs at hv
  · cases hv
    exact ⟨true, rfl, h⟩
  · cases hv
    exact ⟨false, rfl, h⟩

/-- A primary permit takes its entry. -/
theorem taken_of_commit
    (h : ModuleCompletion (mshrFileAllocator integrated reqs) catalog trace spec problem
      interpreter assignment pre) {req : Req} {k : Nat} (hreq : (req, k) ∈ reqs.zipIdx)
    {i : Fin 2} {a p : String}
    (hfires : (commitPrimaryAllocation i req k).Fires problem
      (problem.context interpreter assignment) [a, p] []) {c : Nat}
    (hc : (problem.context interpreter assignment).AtCycle p c) :
    c ≤ spec.horizon ∧ Taken (problem.context interpreter assignment) pre i a (c + 1) := by
  have hrule : commitPrimaryAllocation i req k ∈ (mshrFileAllocator integrated reqs).rules :=
    mem_rules hreq _ (by fin_cases i <;> simp [rules])
  have hkept : ∀ f sort, ⟨cell i f, "permit", .eventField "admission" f sort⟩ ∈
      (commitPrimaryAllocation i req k).stateUpdates →
      ∃ v, (problem.context interpreter assignment).Reads a f v ∧
        CellIs pre (c + 1) (cell i f) v := by
    intro f sort hu
    obtain ⟨d, -, hd, v, hv, hcell⟩ := h.copies hrule rfl hfires hu
    rw [apply_permit] at hd
    rw [apply_admission] at hv
    cases hd.unique hc
    exact ⟨v, hv, hcell⟩
  have hturns : ⟨head, "permit", .literal (idOf (other i)) .int⟩ ∈
      (commitPrimaryAllocation i req k).stateUpdates := by
    simp [commitPrimaryAllocation]
  obtain ⟨d, hd, hdc, hhead⟩ := h.sets hrule rfl hfires hturns
  rw [apply_permit] at hdc
  cases hdc.unique hc
  refine ⟨hd, ?_, ?_, hhead⟩
  · intro f hf
    fin_cases hf
    · exact hkept _ addressSort (by simp [commitPrimaryAllocation, block])
    · exact hkept _ .int (by simp [commitPrimaryAllocation, set])
    · exact hkept _ .int (by simp [commitPrimaryAllocation])
    · exact hkept _ .int (by simp [commitPrimaryAllocation])
  · have hwrites : ⟨intent i, "permit", writeIntent⟩ ∈
        (commitPrimaryAllocation i req k).stateUpdates := by
      simp [commitPrimaryAllocation]
    obtain ⟨e, v, actual, -, hec, hv, hactual, hkey⟩ := h.update hrule rfl hfires hwrites
    rw [apply_permit] at hec
    cases hec.unique hc
    obtain ⟨value, rfl, hintends⟩ := evaluate_writeIntent apply_admission hv
    exact ⟨value, hintends, actual, hactual, hkey⟩

/-- A finish finds its entry busy and leaves it free. -/
theorem freed_of_release
    (h : ModuleCompletion (mshrFileAllocator integrated reqs) catalog trace spec problem
      interpreter assignment pre) {i : Fin 2} {finish : String}
    (hfinish : Showing problem (problem.context interpreter assignment) "MSHR.MemFinish"
      [("mshr_id", idOf i)] finish) {c : Nat}
    (hc : (problem.context interpreter assignment).AtCycle finish c) :
    c ≤ spec.horizon ∧ ¬ CellIs pre c (block i) emptyAddr ∧
      CellIs pre (c + 1) (block i) emptyAddr ∧ CellIs pre (c + 1) (intent i) (.bool false) := by
  have hrule : releaseEntryOnFinish i ∈ (mshrFileAllocator integrated reqs).rules := by
    refine List.mem_append_left _ ?_
    fin_cases i <;> simp
  have hfires := h.fires_alone hrule rfl rfl rfl hfinish.occurring
    (holds_fieldIs.mpr (by
      rw [apply_single]
      exact hfinish.carries _ List.mem_cons_self))
  have hanchor : ((releaseEntryOnFinish i).binding ([finish] ++ [])).apply "finish" = finish :=
    apply_single
  obtain ⟨d, hd, hdc, hbusy⟩ := h.forbids hrule rfl hfires List.mem_cons_self
  obtain ⟨e, -, hec, hfree⟩ := h.sets hrule rfl hfires List.mem_cons_self
  have hclears : ⟨intent i, "finish", isFalse⟩ ∈ (releaseEntryOnFinish i).stateUpdates := by
    simp [releaseEntryOnFinish]
  obtain ⟨f, -, hfc, hintent⟩ := h.sets hrule rfl hfires hclears
  rw [hanchor] at hdc hec hfc
  cases hdc.unique hc
  cases hec.unique hc
  cases hfc.unique hc
  exact ⟨hd, hbusy, hfree, hintent⟩

/-! ## Steps -/

/-- A cell of an entry that changes is set by a permit or by a finish. -/
theorem entry_step
    (h : ModuleCompletion (mshrFileAllocator integrated reqs) catalog trace spec problem
      interpreter assignment pre) (i : Fin 2) {c : Nat} (hc : c ≤ spec.horizon) :
    Commits reqs problem (problem.context interpreter assignment) i c ∨
      Releases problem (problem.context interpreter assignment) i c ∨
      ∀ f ∈ entryFields, pre (c + 1) (cell i f) = pre c (cell i f) := by
  by_contra hnone
  push Not at hnone
  obtain ⟨hcommits, hreleases, f, hf, hchanged⟩ := hnone
  obtain ⟨v, hv, hname⟩ := @cell_mem integrated reqs i f hf
  rw [← hname] at hchanged
  obtain ⟨rule, hrule, ins, outs, hfires, u, hu, hstate, hcycle, -⟩ := h.changed hv hc hchanged
  rw [hname] at hstate
  rcases updates_origin hrule hu with ⟨j, rfl⟩ | ⟨j, req, k, hreq, rfl⟩
  · -- a finish sets the cells of its entry
    obtain ⟨finish, rfl, rfl, hfinish⟩ := hfires.single rfl rfl
    have hanchor : ((releaseEntryOnFinish j).binding ([finish] ++ [])).apply "finish" = finish :=
      apply_single
    have hwhen := hfires.when
    rw [show (releaseEntryOnFinish j).toFields.when = entryIs "finish" j from rfl, entryIs,
      holds_fieldIs, hanchor] at hwhen
    have hu' : u.atRole = "finish" ∧ ∃ g ∈ entryFields, u.state = cell j g := by
      simp only [releaseEntryOnFinish, List.mem_cons, List.not_mem_nil, or_false] at hu
      rcases hu with rfl | rfl | rfl | rfl | rfl
      · exact ⟨rfl, "block_address", by decide, rfl⟩
      · exact ⟨rfl, "set_index", by decide, rfl⟩
      · exact ⟨rfl, "tag", by decide, rfl⟩
      · exact ⟨rfl, "way_id", by decide, rfl⟩
      · exact ⟨rfl, "primary_write_intent", by decide, rfl⟩
    obtain ⟨hrole, g, hg, hcell⟩ := hu'
    obtain ⟨rfl, -⟩ := cell_inj (dot_not_mem hg) (dot_not_mem hf) (hcell.symm.trans hstate)
    rw [hrole, hanchor] at hcycle
    exact hreleases ⟨finish, ⟨hfinish, List.forall_mem_singleton.mpr hwhen⟩, hcycle⟩
  · -- a permit sets the cells of its entry, and the head
    obtain ⟨a, p, rfl, rfl⟩ := inputs_of_commit hfires
    have hu' : u.atRole = "permit" ∧ (u.state = head ∨ ∃ g ∈ entryFields, u.state = cell j g) := by
      simp only [commitPrimaryAllocation, List.mem_cons, List.not_mem_nil, or_false] at hu
      rcases hu with rfl | rfl | rfl | rfl | rfl | rfl
      · exact ⟨rfl, Or.inr ⟨"block_address", by decide, rfl⟩⟩
      · exact ⟨rfl, Or.inr ⟨"set_index", by decide, rfl⟩⟩
      · exact ⟨rfl, Or.inr ⟨"tag", by decide, rfl⟩⟩
      · exact ⟨rfl, Or.inr ⟨"way_id", by decide, rfl⟩⟩
      · exact ⟨rfl, Or.inr ⟨"primary_write_intent", by decide, rfl⟩⟩
      · exact ⟨rfl, Or.inl rfl⟩
    obtain ⟨hrole, hcell | ⟨g, hg, hcell⟩⟩ := hu'
    · exact absurd (hcell.symm.trans hstate) (head_ne_cell (dot_not_mem hf))
    · obtain ⟨rfl, -⟩ := cell_inj (dot_not_mem hg) (dot_not_mem hf) (hcell.symm.trans hstate)
      rw [hrole, apply_permit] at hcycle
      exact hcommits ⟨req, k, a, p, hreq, hfires, hcycle⟩

/-- The head turns at a permit. -/
theorem head_step
    (h : ModuleCompletion (mshrFileAllocator integrated reqs) catalog trace spec problem
      interpreter assignment pre) {c : Nat} (hc : c ≤ spec.horizon) :
    (∃ i, Commits reqs problem (problem.context interpreter assignment) i c) ∨
      pre (c + 1) head = pre c head := by
  by_contra hnone
  push Not at hnone
  obtain ⟨hcommits, hchanged⟩ := hnone
  obtain ⟨rule, hrule, ins, outs, hfires, u, hu, hstate, hcycle, -⟩ :=
    h.changed (List.mem_cons_self : _ ∈ (mshrFileAllocator integrated reqs).stateVariables) hc
      hchanged
  rcases updates_origin hrule hu with ⟨j, rfl⟩ | ⟨j, req, k, hreq, rfl⟩
  · -- a finish does not set the head
    simp only [releaseEntryOnFinish, List.mem_cons, List.not_mem_nil, or_false] at hu
    rcases hu with rfl | rfl | rfl | rfl | rfl <;>
      exact absurd hstate.symm (head_ne_cell (by decide))
  · obtain ⟨a, p, rfl, rfl⟩ := inputs_of_commit hfires
    have hrole : u.atRole = "permit" := by
      simp only [commitPrimaryAllocation, List.mem_cons, List.not_mem_nil, or_false] at hu
      rcases hu with rfl | rfl | rfl | rfl | rfl | rfl <;> rfl
    rw [hrole, apply_permit] at hcycle
    exact hcommits j ⟨req, k, a, p, hreq, hfires, hcycle⟩

/-- The head is always an entry, and the intents are always truth values. -/
theorem typed
    (h : ModuleCompletion (mshrFileAllocator integrated reqs) catalog trace spec problem
      interpreter assignment pre) {c : Nat} (hc : c ≤ spec.horizon + 1) : Typed pre c := by
  induction c with
  | zero =>
      refine ⟨Or.inl (h.starts List.mem_cons_self), fun i => Or.inr ?_⟩
      have hmem : (⟨intent i, .bool, .bool false⟩ : StateVariable.Fields) ∈ cells i := by
        simp [cells]
      have hcell : (⟨intent i, .bool, .bool false⟩ : StateVariable.Fields) ∈
          (mshrFileAllocator integrated reqs).stateVariables := by
        refine List.mem_cons_of_mem _ ?_
        fin_cases i
        · exact List.mem_append_left _ hmem
        · exact List.mem_append_right _ hmem
      exact h.starts hcell
  | succ c ih =>
      have hle : c ≤ spec.horizon := by omega
      have htyped := ih (by omega)
      constructor
      · rcases head_step h hle with ⟨i, req, k, a, p, hreq, hfires, hcycle⟩ | heq
        · have htaken := (taken_of_commit h hreq hfires hcycle).2.head
          fin_cases i
          · exact Or.inr htaken
          · exact Or.inl htaken
        · exact htyped.head.imp (CellIs.of_eq heq) (CellIs.of_eq heq)
      · intro i
        rcases entry_step h i hle with ⟨req, k, a, p, hreq, hfires, hcycle⟩ |
          ⟨finish, hfinish, hcycle⟩ | heq
        · obtain ⟨value, -, hintent⟩ := (taken_of_commit h hreq hfires hcycle).2.intent
          cases value
          · exact Or.inr hintent
          · exact Or.inl hintent
        · exact Or.inr (freed_of_release h hfinish hcycle).2.2.2
        · have hintent := heq "primary_write_intent" (by decide)
          exact (htyped.intent i).imp (CellIs.of_eq hintent) (CellIs.of_eq hintent)

end Completion

end Allocator

end Boom

end Umcm
