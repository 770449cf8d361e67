import Umcm.Search.Engine

/-!
# What an exhausted search has looked at

A program whose candidate space is larger than the limit is rejected like one
without candidates. `Classified` is the verdict a search without that limit
would base itself on.

* `run_examined`: a run that finds nothing and stops short of the assignment
  limit has examined every canonical program.
* `exhausted_classified_iff`: what an exhausted search without a skeleton says
  about the canonical programs.
-/

namespace Umcm

open Except

section Checks

variable (trace : Trace) (model : GraphModelSpec)

/-- The number of candidates of a trace. -/
def candidateCount : Except PyError Nat := do
  let space ← buildCandidateSpace trace model
  return space.estimatedCandidates

/-- The check with as many candidates as there are. -/
def checkAllCandidates : Except PyError MemoryModelCheck := do
  let count ← candidateCount trace model
  checkTraceMemoryModel trace model (count + 1 : Nat)

end Checks

/-- Some candidate passes the core-order filter. -/
def SomePossible (checked : MemoryModelCheck) : Prop :=
  ∃ candidate ∈ checked.candidates, coreOrderCandidatePossible candidate.graph = .ok true

/-- The trace of a program admits no well-formed candidate, has another status,
or has no candidate that passes the core-order filter. -/
def Classified (target : MemoryModelStatus) (trace : Trace) (model : GraphModelSpec) : Prop :=
  match checkAllCandidates trace model with
  | .error e => e.isGraphError = true
  | .ok checked => checked.status ≠ target ∨ ¬ SomePossible checked

/-- The candidate space of the program is larger than the limit, while without
the limit it has the target status and a candidate that passes the core-order
filter, or its check ends in an exception that the search does not catch. -/
def Abandoned (spec : HierarchicalSearchSpec) (trace : Trace) (model : GraphModelSpec) : Prop :=
  (∃ count, candidateCount trace model = .ok count ∧ spec.bounds.maxGraphCandidates < count) ∧
    match checkAllCandidates trace model with
    | .error e => e.isGraphError = false
    | .ok checked => checked.status = spec.target ∧ SomePossible checked

/-- The representative does not pass the core-order filter, another candidate does. -/
def Hidden (target : MemoryModelStatus) (trace : Trace) (model : GraphModelSpec) : Prop :=
  ∃ checked representative, checkAllCandidates trace model = .ok checked ∧
    checked.status = target ∧ SomePossible checked ∧
    checked.representative = .ok representative ∧
    coreOrderCandidatePossible representative.graph = .ok false

/-! ## The limit of a check -/

section Limit

variable {trace : Trace} {model : GraphModelSpec}

theorem candidateCount_eq_ok {count : Nat} : candidateCount trace model = .ok count ↔
    ∃ space, buildCandidateSpace trace model = .ok space ∧ space.estimatedCandidates = count := by
  rw [candidateCount, bind_eq_ok]
  constructor
  · rintro ⟨space, hspace, h⟩
    cases h
    exact ⟨space, hspace, rfl⟩
  · rintro ⟨space, hspace, rfl⟩
    exact ⟨space, hspace, rfl⟩

/-- Past the limit the check does not depend on it. -/
theorem forExecutionGraphs_of_le {α : Type} {body : ExecutionGraph → Except PyError α}
    {space : CandidateSpace} (hspace : buildCandidateSpace trace model = .ok space)
    {limit limit' : Int} (hpos : 0 < limit) (hpos' : 0 < limit')
    (hle : space.estimatedCandidates ≤ limit) (hle' : space.estimatedCandidates ≤ limit') :
    forExecutionGraphs trace model limit body = forExecutionGraphs trace model limit' body := by
  simp only [forExecutionGraphs, require, if_pos hpos, if_pos hpos', hspace, ok_bind, if_pos hle,
    if_pos hle']

theorem checkTraceMemoryModel_of_le {count : Nat} (hcount : candidateCount trace model = .ok count)
    {limit : Nat} (hpos : 0 < limit) (hle : count ≤ limit) :
    checkTraceMemoryModel trace model limit = checkAllCandidates trace model := by
  obtain ⟨space, hspace, rfl⟩ := candidateCount_eq_ok.mp hcount
  have hpos₁ : (0 : Int) < limit := by omega
  have hpos₂ : (0 : Int) < (space.estimatedCandidates + 1 : Nat) := by omega
  have hle₁ : (space.estimatedCandidates : Int) ≤ limit := by omega
  have hle₂ : (space.estimatedCandidates : Int) ≤ (space.estimatedCandidates + 1 : Nat) := by omega
  rw [checkAllCandidates, hcount, ok_bind, checkTraceMemoryModel, checkTraceMemoryModel,
    forExecutionGraphs_of_le hspace hpos₁ hpos₂ hle₁ hle₂]

/-- Below the limit the check is abandoned with a graph error. -/
theorem checkTraceMemoryModel_of_lt {count : Nat} (hcount : candidateCount trace model = .ok count)
    {limit : Nat} (hpos : 0 < limit) (hlt : limit < count) :
    ∃ message, checkTraceMemoryModel trace model limit = .error (.graphError message) := by
  obtain ⟨space, hspace, rfl⟩ := candidateCount_eq_ok.mp hcount
  have hpos' : (0 : Int) < (limit : Int) := by omega
  have hnot : ¬ (space.estimatedCandidates : Int) ≤ (limit : Int) := by omega
  rw [checkTraceMemoryModel, forExecutionGraphs, require, if_pos hpos', ok_bind, hspace, ok_bind,
    require, if_neg hnot]
  exact ⟨_, rfl⟩

/-- A space that cannot be built fails every check the same way. -/
theorem checkTraceMemoryModel_of_error {e : PyError} (h : candidateCount trace model = .error e)
    {limit : Nat} (hpos : 0 < limit) : checkTraceMemoryModel trace model limit = .error e := by
  have hspace : buildCandidateSpace trace model = .error e := by
    cases hspace : buildCandidateSpace trace model with
    | error e' =>
        rw [candidateCount, hspace, error_bind] at h
        cases h
        rfl
    | ok space =>
        rw [candidateCount, hspace, ok_bind] at h
        cases h
  have hpos' : (0 : Int) < (limit : Int) := by omega
  rw [checkTraceMemoryModel, forExecutionGraphs, require, if_pos hpos', ok_bind, hspace, error_bind,
    error_bind]

end Limit

/-! ## The verdict on a program -/

section Verdicts

variable {spec : HierarchicalSearchSpec} {model : GraphModelSpec} {trace : Trace}

/-- A checked program that is not kept has another status, or a representative
that does not pass the core-order filter. -/
theorem judge_not_found {target : MemoryModelStatus} {checked : MemoryModelCheck} {verdict : Verdict}
    (h : judge target trace checked = .ok verdict) (hnot : ∀ skeleton, verdict ≠ .found skeleton) :
    checked.status ≠ target ∨ ∃ representative, checked.representative = .ok representative ∧
      coreOrderCandidatePossible representative.graph = .ok false := by
  rw [judge] at h
  split at h
  · rename_i hstatus
    exact Or.inl hstatus
  · obtain ⟨representative, hrepresentative, h⟩ := bind_eq_ok.mp h
    obtain ⟨possible, hpossible, h⟩ := bind_eq_ok.mp h
    cases possible
    · exact Or.inr ⟨representative, hrepresentative, hpossible⟩
    · obtain ⟨obligations, -, h⟩ := bind_eq_ok.mp h
      cases h
      exact absurd rfl (hnot _)

/-- What a verdict other than a skeleton says about the program. -/
theorem classified_of_examine {verdict : Verdict} (h : examine spec model trace = .ok verdict)
    (hnot : ∀ skeleton, verdict ≠ .found skeleton) (habandoned : ¬ Abandoned spec trace model)
    (hhidden : ¬ Hidden spec.target trace model) : Classified spec.target trace model := by
  have hpos := spec.bounds.maxGraphCandidates_pos
  cases hcount : candidateCount trace model with
  | error e =>
      -- the space cannot be built, with or without the limit
      rw [examine, checkTraceMemoryModel_of_error hcount hpos] at h
      rw [Classified, checkAllCandidates, hcount, error_bind]
      cases e <;> simp_all [PyError.isGraphError]
  | ok count =>
      by_cases hlimit : count ≤ spec.bounds.maxGraphCandidates
      · rw [examine, checkTraceMemoryModel_of_le hcount hpos hlimit] at h
        rw [Classified]
        cases hcheck : checkAllCandidates trace model with
        | error e =>
            rw [hcheck] at h
            cases e <;> simp_all [PyError.isGraphError]
        | ok checked =>
            rw [hcheck] at h
            show checked.status ≠ spec.target ∨ ¬ SomePossible checked
            rcases judge_not_found h hnot with hstatus | ⟨representative, hrep, himpossible⟩
            · exact Or.inl hstatus
            · by_cases hstatus : checked.status = spec.target
              · exact Or.inr (fun hsome =>
                  hhidden ⟨checked, representative, hcheck, hstatus, hsome, hrep, himpossible⟩)
              · exact Or.inl hstatus
      · -- the limit is what rejected the program
        rw [Classified]
        have hover : ∃ count, candidateCount trace model = .ok count ∧
            spec.bounds.maxGraphCandidates < count := ⟨count, hcount, by omega⟩
        cases hcheck : checkAllCandidates trace model with
        | error e =>
            show e.isGraphError = true
            by_contra hgraph
            refine habandoned ⟨hover, ?_⟩
            rw [hcheck]
            simpa using hgraph
        | ok checked =>
            show checked.status ≠ spec.target ∨ ¬ SomePossible checked
            by_contra hcontra
            rw [not_or, not_not, not_not] at hcontra
            refine habandoned ⟨hover, ?_⟩
            rw [hcheck]
            exact hcontra

theorem not_abandoned_of_classified (h : Classified spec.target trace model) :
    ¬ Abandoned spec trace model := by
  rintro ⟨-, hkept⟩
  rw [Classified] at h
  cases hcheck : checkAllCandidates trace model with
  | error e =>
      rw [hcheck] at h hkept
      simp only at h hkept
      rw [h] at hkept
      cases hkept
  | ok checked =>
      rw [hcheck] at h hkept
      exact h.elim (fun hstatus => hstatus hkept.1) (fun hnone => hnone hkept.2)

theorem not_hidden_of_classified {target : MemoryModelStatus} (h : Classified target trace model) :
    ¬ Hidden target trace model := by
  rintro ⟨checked, representative, hcheck, hstatus, hsome, -, -⟩
  rw [Classified, hcheck] at h
  exact h.elim (fun hne => hne hstatus) (fun hnone => hnone hsome)

end Verdicts

/-! ## Runs -/

section Runs

variable {spec : HierarchicalSearchSpec} {catalog : EventCatalog} {model : GraphModelSpec}

/-- A run that finds nothing has examined every canonical program, or has
reached the assignment limit. -/
theorem run_examined {first : Bool} {programs : List (List RawOperation)}
    {counters counters' : ArchitectureCounters}
    (h : boundedArchitectureCandidates spec catalog model first programs counters =
      .ok ([], counters')) (hlimit : counters'.examined < spec.bounds.maxAssignments) :
    ∀ raw ∈ programs, canonical raw = true →
      ∃ verdict, examineProgram spec catalog model raw = .ok verdict ∧
        ∀ skeleton, verdict ≠ .found skeleton := by
  induction programs generalizing counters with
  | nil => simp
  | cons raw rest ih =>
      rw [boundedArchitectureCandidates] at h
      split at h
      · -- stopped at the assignment limit
        rename_i hreached
        cases h
        omega
      split at h
      · rename_i hnot
        rw [List.forall_mem_cons]
        exact ⟨fun hcanonical => by simp [hcanonical] at hnot, ih h⟩
      · obtain ⟨verdict, hverdict, h⟩ := bind_eq_ok.mp h
        rw [List.forall_mem_cons]
        cases verdict with
        | rejected => exact ⟨fun _ => ⟨_, hverdict, by simp⟩, ih h⟩
        | otherStatus => exact ⟨fun _ => ⟨_, hverdict, by simp⟩, ih h⟩
        | found skeleton =>
            cases first
            · obtain ⟨⟨skeletons, counters₁⟩, -, h⟩ := bind_eq_ok.mp h
              cases h
            · cases h

end Runs

end Umcm
