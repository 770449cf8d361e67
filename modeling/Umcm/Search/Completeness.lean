import Umcm.Search.Configuration

/-!
# What a search yields

A program of the target status is kept when its representative candidate
passes the core-order filter; the other candidates are not consulted.

* `run_yields`: below the assignment limit a run has examined every canonical
  program and yields the skeletons that were found.
* `yields_possible_iff`: a search yields all programs with a possible candidate
  exactly when none of them is hidden by its representative.
-/

namespace Umcm

open Except

section Runs

variable {spec : HierarchicalSearchSpec} {catalog : EventCatalog} {model : GraphModelSpec}

/-- The canonical programs of the bounds. -/
def canonicalPrograms (bounds : SearchBounds) : List (List RawOperation) :=
  (rawPrograms bounds).filter canonical

/-- A search whose programs are all examined without an error is completed. -/
theorem run_total {first : Bool} {programs : List (List RawOperation)}
    {counters : ArchitectureCounters}
    (h : ∀ raw ∈ programs, canonical raw = true →
      ∃ verdict, examineProgram spec catalog model raw = .ok verdict) :
    ∃ skeletons counters',
      boundedArchitectureCandidates spec catalog model first programs counters =
        .ok (skeletons, counters') := by
  induction programs generalizing counters with
  | nil => exact ⟨[], counters, rfl⟩
  | cons raw rest ih =>
      have hrest (later : ArchitectureCounters) : ∃ skeletons counters',
          boundedArchitectureCandidates spec catalog model first rest later =
            .ok (skeletons, counters') :=
        ih fun other hother => h other (List.mem_cons_of_mem _ hother)
      rw [boundedArchitectureCandidates]
      split
      · exact ⟨[], counters, rfl⟩
      split
      · exact hrest _
      · rename_i hcanonical
        obtain ⟨verdict, hverdict⟩ := h raw List.mem_cons_self (by simpa using hcanonical)
        rw [hverdict, ok_bind]
        cases verdict with
        | rejected => exact hrest _
        | otherStatus => exact hrest _
        | found skeleton =>
            cases first with
            | true => exact ⟨_, _, rfl⟩
            | false =>
                obtain ⟨skeletons, counters', hlater⟩ := hrest
                  { counters with
                    examined := counters.examined + 1, candidates := counters.candidates + 1 }
                exact ⟨skeleton :: skeletons, counters', by simp [hlater]⟩

theorem run_yields {programs : List (List RawOperation)} {counters counters' : ArchitectureCounters}
    {skeletons : List ArchitecturalSkeleton}
    (h : boundedArchitectureCandidates spec catalog model false programs counters =
      .ok (skeletons, counters'))
    (hlimit : counters.examined + (programs.filter canonical).length ≤ spec.bounds.maxAssignments) :
    (∀ raw ∈ programs, canonical raw = true → ∃ verdict,
      examineProgram spec catalog model raw = .ok verdict ∧
        ∀ skeleton, verdict = .found skeleton → skeleton ∈ skeletons) ∧
    ∀ skeleton ∈ skeletons, ∃ raw ∈ programs,
      examineProgram spec catalog model raw = .ok (.found skeleton) := by
  induction programs generalizing counters skeletons with
  | nil =>
      cases h
      simp
  | cons raw rest ih =>
      rw [boundedArchitectureCandidates] at h
      rw [List.forall_mem_cons]
      by_cases hcanonical : canonical raw = true
      · rw [List.filter_cons_of_pos hcanonical, List.length_cons] at hlimit
        rw [if_neg (by omega), if_neg (by simp [hcanonical])] at h
        obtain ⟨verdict, hverdict, h⟩ := bind_eq_ok.mp h
        cases verdict with
        | rejected =>
            obtain ⟨hall, horigin⟩ := ih h (by simp only; omega)
            refine ⟨⟨fun _ => ⟨_, hverdict, by simp⟩, hall⟩, fun skeleton hskeleton => ?_⟩
            obtain ⟨raw', hraw', hfound⟩ := horigin skeleton hskeleton
            exact ⟨raw', List.mem_cons_of_mem _ hraw', hfound⟩
        | otherStatus =>
            obtain ⟨hall, horigin⟩ := ih h (by simp only; omega)
            refine ⟨⟨fun _ => ⟨_, hverdict, by simp⟩, hall⟩, fun skeleton hskeleton => ?_⟩
            obtain ⟨raw', hraw', hfound⟩ := horigin skeleton hskeleton
            exact ⟨raw', List.mem_cons_of_mem _ hraw', hfound⟩
        | found found =>
            obtain ⟨⟨later, counters₁⟩, hlater, h⟩ := bind_eq_ok.mp h
            cases h
            obtain ⟨hall, horigin⟩ := ih hlater (by simp only; omega)
            refine ⟨⟨fun _ => ⟨_, hverdict, ?_⟩, ?_⟩, ?_⟩
            · intro skeleton heq
              cases heq
              exact List.mem_cons_self
            · intro raw' hraw' hcanonical'
              obtain ⟨verdict, hverdict, hmem⟩ := hall raw' hraw' hcanonical'
              exact ⟨verdict, hverdict, fun s hs => List.mem_cons_of_mem _ (hmem s hs)⟩
            · intro skeleton hskeleton
              rcases List.mem_cons.mp hskeleton with rfl | hskeleton
              · exact ⟨raw, List.mem_cons_self, hverdict⟩
              · obtain ⟨raw', hraw', hfound⟩ := horigin skeleton hskeleton
                exact ⟨raw', List.mem_cons_of_mem _ hraw', hfound⟩
      · rw [List.filter_cons_of_neg hcanonical] at hlimit
        split at h
        · -- the limit is reached, and no canonical program is left
          rename_i hreached
          cases h
          have hnone : rest.filter canonical = [] :=
            List.length_eq_zero_iff.mp (by omega)
          refine ⟨⟨fun h => absurd h hcanonical, fun raw' hraw' hcanonical' => ?_⟩, by simp⟩
          have hmem := List.mem_filter.mpr ⟨hraw', hcanonical'⟩
          rw [hnone] at hmem
          cases hmem
        · rw [if_pos (by simp [hcanonical])] at h
          obtain ⟨hall, horigin⟩ := ih h hlimit
          refine ⟨⟨fun h => absurd h hcanonical, hall⟩, fun skeleton hskeleton => ?_⟩
          obtain ⟨raw', hraw', hfound⟩ := horigin skeleton hskeleton
          exact ⟨raw', List.mem_cons_of_mem _ hraw', hfound⟩

end Runs

/-! ## Hidden programs -/

section Verdicts

variable {target : MemoryModelStatus} {trace : Trace} {checked : MemoryModelCheck}

/-- A check that returns has a representative. -/
theorem representative_of_check {model : GraphModelSpec} {limit : Int}
    (h : checkTraceMemoryModel trace model limit = .ok checked) :
    ∃ representative, checked.representative = .ok representative := by
  obtain ⟨candidates, -, h⟩ := bind_eq_ok.mp h
  obtain ⟨_, hne, h⟩ := bind_eq_ok.mp h
  cases h
  rw [require_eq_ok] at hne
  rw [MemoryModelCheck.representative]
  cases candidates with
  | nil => exact absurd rfl hne
  | cons first rest =>
      by_cases hany : (first :: rest).any CandidateCheck.allowed = true
      · obtain ⟨candidate, hfind⟩ := Option.isSome_iff_exists.mp
          (List.find?_isSome.mpr (List.any_eq_true.mp hany))
        exact ⟨candidate, by simp only [if_pos hany, hfind]⟩
      · exact ⟨first, by simp only [if_neg hany]⟩

/-- The skeleton of a found program carries its trace, and its representative
passes the filter. -/
theorem judge_found {skeleton : ArchitecturalSkeleton}
    (h : judge target trace checked = .ok (.found skeleton)) : skeleton.trace = trace ∧
      checked.status = target ∧ ∃ representative, checked.representative = .ok representative ∧
        coreOrderCandidatePossible representative.graph = .ok true := by
  rw [judge] at h
  split at h
  · cases h
  · rename_i hstatus
    obtain ⟨representative, hrepresentative, h⟩ := bind_eq_ok.mp h
    obtain ⟨possible, hpossible, h⟩ := bind_eq_ok.mp h
    cases possible
    · cases h
    · obtain ⟨obligations, -, h⟩ := bind_eq_ok.mp h
      cases h
      exact ⟨rfl, not_not.mp hstatus, representative, hrepresentative, hpossible⟩

end Verdicts

/-! ## Completeness of a search -/

/-- Every canonical program of the target status with a candidate that passes
the core-order filter is yielded. -/
def YieldsPossible (spec : HierarchicalSearchSpec) (model : GraphModelSpec)
    (skeletons : List ArchitecturalSkeleton) : Prop :=
  ∀ raw ∈ rawPrograms spec.bounds, canonical raw = true →
    ∀ trace, programTrace spec raw = .ok trace → ∀ checked,
      checkAllCandidates trace model = .ok checked → checked.status = spec.target →
        SomePossible checked → ∃ skeleton ∈ skeletons, skeleton.trace = trace

/-- No candidate space is larger than the graph-candidate limit. -/
def WithinCandidateLimit (spec : HierarchicalSearchSpec) (model : GraphModelSpec) : Prop :=
  ∀ raw ∈ rawPrograms spec.bounds, canonical raw = true →
    ∀ trace, programTrace spec raw = .ok trace → ∀ count,
      candidateCount trace model = .ok count → count ≤ spec.bounds.maxGraphCandidates

theorem candidateCount_of_check {trace : Trace} {model : GraphModelSpec} {checked : MemoryModelCheck}
    (h : checkAllCandidates trace model = .ok checked) :
    ∃ count, candidateCount trace model = .ok count := by
  obtain ⟨count, hcount, -⟩ := bind_eq_ok.mp h
  exact ⟨count, hcount⟩

/-- What a search yields below the limits is not hidden by its representative. -/
theorem not_hidden_of_yielded {spec : HierarchicalSearchSpec} {catalog : EventCatalog}
    {model : GraphModelSpec} {skeletons : List ArchitecturalSkeleton} {counters : ArchitectureCounters}
    (h : boundedArchitectureCandidates spec catalog model false (rawPrograms spec.bounds)
      (.start spec.bounds) = .ok (skeletons, counters))
    (hassignments : (canonicalPrograms spec.bounds).length ≤ spec.bounds.maxAssignments)
    (hcandidates : WithinCandidateLimit spec model) {skeleton : ArchitecturalSkeleton}
    (hskeleton : skeleton ∈ skeletons) {raw : List RawOperation} (hraw : raw ∈ rawPrograms spec.bounds)
    (hcanonical : canonical raw = true) (htrace : programTrace spec raw = .ok skeleton.trace) :
    ¬ Hidden spec.target skeleton.trace model := by
  have hstart : (ArchitectureCounters.start spec.bounds).examined +
      ((rawPrograms spec.bounds).filter canonical).length ≤ spec.bounds.maxAssignments := by
    rw [ArchitectureCounters.start, Nat.zero_add]
    exact hassignments
  rintro ⟨checked, representative, hcheck, hstatus, hsome, hrep, himpossible⟩
  obtain ⟨raw', -, hfound⟩ := (run_yields h hstart).2 skeleton hskeleton
  obtain ⟨trace', htrace', hfound⟩ := bind_eq_ok.mp hfound
  obtain ⟨_, -, hfound⟩ := bind_eq_ok.mp hfound
  obtain ⟨count, hcount⟩ := candidateCount_of_check hcheck
  have hle := hcandidates raw hraw hcanonical skeleton.trace htrace count hcount
  have htraces : skeleton.trace = trace' := by
    rw [examine] at hfound
    split at hfound
    · cases hfound
    · cases hfound
    · exact (judge_found hfound).1
  rw [← htraces, examine, checkTraceMemoryModel_of_le hcount spec.bounds.maxGraphCandidates_pos hle,
    hcheck] at hfound
  obtain ⟨-, -, representative', hrep', hpossible⟩ := judge_found hfound
  rw [hrep] at hrep'
  cases hrep'
  rw [himpossible] at hpossible
  cases hpossible

/-- Below the limits a search yields every program with a possible candidate
exactly when no program is hidden by its representative. -/
theorem yields_possible_iff {spec : HierarchicalSearchSpec} {catalog : EventCatalog}
    {model : GraphModelSpec} {skeletons : List ArchitecturalSkeleton} {counters : ArchitectureCounters}
    (h : boundedArchitectureCandidates spec catalog model false (rawPrograms spec.bounds)
      (.start spec.bounds) = .ok (skeletons, counters))
    (hassignments : (canonicalPrograms spec.bounds).length ≤ spec.bounds.maxAssignments)
    (hcandidates : WithinCandidateLimit spec model) :
    YieldsPossible spec model skeletons ↔
      ∀ raw ∈ rawPrograms spec.bounds, canonical raw = true →
        ∀ trace, programTrace spec raw = .ok trace → ¬ Hidden spec.target trace model := by
  have hpos := spec.bounds.maxGraphCandidates_pos
  have hstart : (ArchitectureCounters.start spec.bounds).examined +
      ((rawPrograms spec.bounds).filter canonical).length ≤ spec.bounds.maxAssignments := by
    rw [ArchitectureCounters.start, Nat.zero_add]
    exact hassignments
  obtain ⟨hexamined, -⟩ := run_yields h hstart
  constructor
  · intro hyields raw hraw hcanonical trace htrace hhidden
    obtain ⟨checked, _, hcheck, hstatus, hsome, -, -⟩ := id hhidden
    obtain ⟨skeleton, hskeleton, rfl⟩ :=
      hyields raw hraw hcanonical trace htrace checked hcheck hstatus hsome
    exact not_hidden_of_yielded h hassignments hcandidates hskeleton hraw hcanonical htrace hhidden
  · intro hclean raw hraw hcanonical trace htrace checked hcheck hstatus hsome
    obtain ⟨verdict, hverdict, hmem⟩ := hexamined raw hraw hcanonical
    obtain ⟨trace', htrace', hverdict⟩ := bind_eq_ok.mp hverdict
    obtain ⟨_, -, hverdict⟩ := bind_eq_ok.mp hverdict
    rw [htrace] at htrace'
    cases htrace'
    obtain ⟨count, hcount⟩ := candidateCount_of_check hcheck
    have hle := hcandidates raw hraw hcanonical trace htrace count hcount
    rw [examine, checkTraceMemoryModel_of_le hcount hpos hle, hcheck] at hverdict
    by_cases hfound : ∃ skeleton, verdict = .found skeleton
    · obtain ⟨skeleton, rfl⟩ := hfound
      exact ⟨skeleton, hmem skeleton rfl, (judge_found hverdict).1⟩
    · push Not at hfound
      exfalso
      rcases judge_not_found hverdict hfound with hne | ⟨representative, hrep, himpossible⟩
      · exact hne hstatus
      · exact hclean raw hraw hcanonical trace htrace
          ⟨checked, representative, hcheck, hstatus, hsome, hrep, himpossible⟩

/-! ## A search with a hidden program -/

theorem hidingLimit_pos : 0 < 10000 := by decide

/-- One hart, one address, two values and three operations. -/
def hidingBounds : SearchBounds where
  harts := 1
  memoryOps := 3
  addresses := 1
  values := 2
  maxAssignments := 10000
  maxGraphCandidates := 10000
  harts_pos := Nat.one_pos
  memoryOps_pos := by decide
  addresses_pos := Nat.one_pos
  values_pos := Nat.two_pos
  maxAssignments_pos := hidingLimit_pos
  maxGraphCandidates_pos := hidingLimit_pos

def hidingSearch : HierarchicalSearchSpec where
  bounds := hidingBounds
  events := boomEvents
  target := .forbidden

/-- A load of the initial value behind two stores, the first of which stores it as well. -/
def hiddenProgram : List RawOperation :=
  [⟨.store, 0, "x", 0⟩, ⟨.store, 0, "x", 1⟩, ⟨.load, 0, "x", 0⟩]

/-- No canonical program ends the search with an error. -/
theorem hidingSearch_examines : ∀ raw ∈ canonicalPrograms hidingSearch.bounds,
    ∃ verdict, examineProgram hidingSearch boomCatalog boomModel raw = .ok verdict := by
  -- evaluated a few programs at a time, since one evaluation keeps all its terms in memory
  have hblock : ∀ start < 8, ((canonicalPrograms hidingSearch.bounds).drop (7 * start)).take 7
      |>.all (fun raw => (examineProgram hidingSearch boomCatalog boomModel raw).isOk) := by
    intro start hstart
    interval_cases start
    all_goals decide +kernel
  have hlength : (canonicalPrograms hidingSearch.bounds).length = 56 := by decide +kernel
  intro raw hraw
  obtain ⟨i, hi, rfl⟩ := List.mem_iff_getElem.mp hraw
  have hmem : (canonicalPrograms hidingSearch.bounds)[i] ∈
      ((canonicalPrograms hidingSearch.bounds).drop (7 * (i / 7))).take 7 := by
    rw [List.mem_take_iff_getElem]
    refine ⟨i % 7, by rw [List.length_drop]; omega, ?_⟩
    rw [List.getElem_drop]
    congr 1
    omega
  have hok := List.all_eq_true.mp (hblock (i / 7) (by omega)) _ hmem
  cases hverdict : examineProgram hidingSearch boomCatalog boomModel
      (canonicalPrograms hidingSearch.bounds)[i] with
  | ok verdict => exact ⟨verdict, rfl⟩
  | error e =>
      rw [hverdict] at hok
      cases hok

theorem hidingSearch_runs : ∃ skeletons counters,
    boundedArchitectureCandidates hidingSearch boomCatalog boomModel false
      (rawPrograms hidingSearch.bounds) (.start hidingSearch.bounds) = .ok (skeletons, counters) :=
  run_total fun raw hraw hcanonical =>
    hidingSearch_examines raw (List.mem_filter.mpr ⟨hraw, hcanonical⟩)

theorem hidingSearch_assignments :
    (canonicalPrograms hidingSearch.bounds).length ≤ hidingSearch.bounds.maxAssignments := by
  decide +kernel

theorem hidingSearch_candidates : WithinCandidateLimit hidingSearch boomModel := by
  have h : (canonicalPrograms hidingSearch.bounds).all (fun raw =>
      match (do
        let trace ← programTrace hidingSearch raw
        candidateCount trace boomModel : Except PyError Nat) with
      | .ok count => decide (count ≤ hidingSearch.bounds.maxGraphCandidates)
      | .error _ => true) = true := by decide +kernel
  intro raw hraw hcanonical trace htrace count hcount
  have hle := List.all_eq_true.mp h raw (List.mem_filter.mpr ⟨hraw, hcanonical⟩)
  rw [htrace, ok_bind, hcount] at hle
  exact of_decide_eq_true hle

/-- No candidate of the program is allowed. The first one reads the initial value past the
stores, while another one reads the store of that value and passes the filter. -/
theorem hiddenProgram_hidden : ∃ trace, programTrace hidingSearch hiddenProgram = .ok trace ∧
    Hidden hidingSearch.target trace boomModel := by
  have h : (do
      let trace ← programTrace hidingSearch hiddenProgram
      let checked ← checkAllCandidates trace boomModel
      let representative ← checked.representative
      let possible ← coreOrderCandidatePossible representative.graph
      return (checked.status, possible, checked.candidates.any (fun candidate =>
        (coreOrderCandidatePossible candidate.graph).toOption == some true)) :
          Except PyError (MemoryModelStatus × Bool × Bool)) =
      .ok (.forbidden, false, true) := by decide +kernel
  obtain ⟨trace, htrace, h⟩ := bind_eq_ok.mp h
  obtain ⟨checked, hchecked, h⟩ := bind_eq_ok.mp h
  obtain ⟨representative, hrepresentative, h⟩ := bind_eq_ok.mp h
  obtain ⟨possible, hpossible, h⟩ := bind_eq_ok.mp h
  have hparts := Except.ok.inj h
  obtain ⟨hstatus, hrest⟩ := Prod.mk.inj hparts
  obtain ⟨rfl, hany⟩ := Prod.mk.inj hrest
  exact ⟨trace, htrace, checked, representative, hchecked, hstatus, somePossible_of_any hany,
    hrepresentative, hpossible⟩

theorem hiddenProgram_mem : hiddenProgram ∈ rawPrograms hidingSearch.bounds := by decide

theorem hiddenProgram_canonical : canonical hiddenProgram = true := by decide

/-- The search ends below its limits and does not yield the program. -/
theorem hidingSearch_not_yields : ∃ skeletons counters,
    boundedArchitectureCandidates hidingSearch boomCatalog boomModel false
      (rawPrograms hidingSearch.bounds) (.start hidingSearch.bounds) = .ok (skeletons, counters) ∧
    (canonicalPrograms hidingSearch.bounds).length ≤ hidingSearch.bounds.maxAssignments ∧
    WithinCandidateLimit hidingSearch boomModel ∧
    ¬ YieldsPossible hidingSearch boomModel skeletons := by
  obtain ⟨skeletons, counters, h⟩ := hidingSearch_runs
  refine ⟨skeletons, counters, h, hidingSearch_assignments, hidingSearch_candidates, ?_⟩
  intro hyields
  obtain ⟨trace, htrace, hhidden⟩ := hiddenProgram_hidden
  obtain ⟨checked, _, hcheck, hstatus, hsome, -, -⟩ := id hhidden
  obtain ⟨skeleton, hskeleton, rfl⟩ := hyields hiddenProgram hiddenProgram_mem
    hiddenProgram_canonical trace htrace checked hcheck hstatus hsome
  exact not_hidden_of_yielded h hidingSearch_assignments hidingSearch_candidates hskeleton
    hiddenProgram_mem hiddenProgram_canonical htrace hhidden

/-- The condition on this search. -/
theorem hidingSearch_yields_iff : ∃ skeletons counters,
    boundedArchitectureCandidates hidingSearch boomCatalog boomModel false
      (rawPrograms hidingSearch.bounds) (.start hidingSearch.bounds) = .ok (skeletons, counters) ∧
    (YieldsPossible hidingSearch boomModel skeletons ↔
      ∀ raw ∈ rawPrograms hidingSearch.bounds, canonical raw = true →
        ∀ trace, programTrace hidingSearch raw = .ok trace →
          ¬ Hidden hidingSearch.target trace boomModel) := by
  obtain ⟨skeletons, counters, h⟩ := hidingSearch_runs
  exact ⟨skeletons, counters, h,
    yields_possible_iff h hidingSearch_assignments hidingSearch_candidates⟩

end Umcm
