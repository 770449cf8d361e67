import Umcm.Coverage.Reachability

/-!
# What a verdict rests on

The loop over the cases has five exits: no bounded binding, an error, and the three
answers of the solver. A verdict is read off what the exits left behind.

* `verdict_honest_iff`: a negative verdict is a decision about every case exactly
  when no case raises an error, or a witness or an undecided case hides the error.
-/

namespace Umcm

open Except

namespace Coverage

section Exits

variable (interpreter : Interpreter) (backend : Backend) (goal : CoverageGoal)

/-- The solver call for the case answers with the status. -/
def AnswersWith (status : CompletionStatus) (case : PreparedCase) : Prop :=
  ∃ q result, compileGoal goal case = .ok (.ok q) ∧
    completeProblem q interpreter backend = .ok result ∧ result.status = status

/-- Some probe has no bounded producer or binding. -/
def Unbound (case : PreparedCase) : Prop :=
  ∃ reasons, compileGoal goal case = .ok (.error reasons)

/-- Compiling the goal or solving its query raises an error of the library. -/
def Raises (case : PreparedCase) : Prop :=
  ∃ e, e.umcmMessage?.isSome ∧
    (compileGoal goal case = .error e ∨ ∃ q, compileGoal goal case = .ok (.ok q) ∧
      completeProblem q interpreter backend = .error e)

/-- The case was decided not to cover the goal. -/
def Excluded (case : PreparedCase) : Prop :=
  AnswersWith interpreter backend goal .infeasible case ∨ Unbound goal case

/-- The case was left open. -/
def LeftOpen (case : PreparedCase) : Prop :=
  Raises interpreter backend goal case ∨ AnswersWith interpreter backend goal .unknown case

end Exits

section Loop

variable {interpreter : Interpreter} {backend : Backend} {goal : CoverageGoal}

/-! ## The exits of one case -/

theorem attempt_eq_error_reasons {case : PreparedCase} {reasons : List String} :
    attempt interpreter backend goal case = .ok (.error reasons) ↔
      compileGoal goal case = .ok (.error reasons) := by
  unfold attempt
  cases hcompile : compileGoal goal case with
  | error e => simp
  | ok compiled =>
      cases compiled with
      | error found => simp [pure, Except.pure]
      | ok q =>
          rw [ok_bind]
          dsimp only
          cases completeProblem q interpreter backend <;> simp [Functor.map, Except.map]

theorem attempt_eq_error {case : PreparedCase} {e : PyError} :
    attempt interpreter backend goal case = .error e ↔ compileGoal goal case = .error e ∨
      ∃ q, compileGoal goal case = .ok (.ok q) ∧
        completeProblem q interpreter backend = .error e := by
  unfold attempt
  cases hcompile : compileGoal goal case with
  | error e' => simp
  | ok compiled =>
      rw [ok_bind]
      cases compiled with
      | error found => simp [pure, Except.pure]
      | ok q =>
          dsimp only
          cases hcomplete : completeProblem q interpreter backend <;>
            simp [hcomplete, Functor.map, Except.map]

theorem answersWith_iff {status : CompletionStatus} {case : PreparedCase} :
    AnswersWith interpreter backend goal status case ↔ ∃ result,
      attempt interpreter backend goal case = .ok (.ok result) ∧ result.status = status := by
  unfold AnswersWith
  simp only [attempt_eq_ok]
  constructor
  · rintro ⟨q, result, hq, hresult, hstatus⟩
    exact ⟨result, ⟨q, hq, hresult⟩, hstatus⟩
  · rintro ⟨result, ⟨q, hq, hresult⟩, hstatus⟩
    exact ⟨q, result, hq, hresult, hstatus⟩

theorem unbound_iff {case : PreparedCase} : Unbound goal case ↔
    ∃ reasons, attempt interpreter backend goal case = .ok (.error reasons) :=
  exists_congr (fun _ => attempt_eq_error_reasons.symm)

theorem raises_iff {case : PreparedCase} : Raises interpreter backend goal case ↔
    ∃ e, e.umcmMessage?.isSome ∧ attempt interpreter backend goal case = .error e :=
  exists_congr (fun _ => and_congr_right (fun _ => attempt_eq_error.symm))

/-! ## The loop -/

/-- What the variables of the loop say of the cases seen. -/
structure Tallied (interpreter : Interpreter) (backend : Backend) (goal : CoverageGoal)
    (seen : List PreparedCase) (search : CaseSearch) : Prop where
  feasible : search.feasible ≠ [] ↔ ∃ case ∈ seen, AnswersWith interpreter backend goal .feasible case
  missing : search.missingReasons ≠ [] ↔ ∃ case ∈ seen, Unbound goal case
  sawUnknown : search.sawUnknown = true ↔
    ∃ case ∈ seen, AnswersWith interpreter backend goal .unknown case
  solving : search.solveReasons ≠ [] ↔ ∃ case ∈ seen,
    LeftOpen interpreter backend goal case ∨ AnswersWith interpreter backend goal .infeasible case
  exits : ∀ case ∈ seen, AnswersWith interpreter backend goal .feasible case ∨
    LeftOpen interpreter backend goal case ∨ Excluded interpreter backend goal case

theorem tallied_start : Tallied interpreter backend goal [] .start where
  feasible := by simp [CaseSearch.start]
  missing := by simp [CaseSearch.start]
  sawUnknown := by simp [CaseSearch.start]
  solving := by simp [CaseSearch.start]
  exits := by simp

/-- A property that some case has, after one more case. -/
theorem exists_seen_append {p : PreparedCase → Prop} {seen : List PreparedCase}
    {case : PreparedCase} : (∃ c ∈ seen ++ [case], p c) ↔ (∃ c ∈ seen, p c) ∨ p case := by
  simp only [List.mem_append, List.mem_singleton, or_and_right, exists_or, exists_eq_left]

/-- The exits of a case exclude one another: each is read off what the attempt yields. -/
theorem tallied_coverCase {seen : List PreparedCase} {case : PreparedCase}
    {search search' : CaseSearch} (hseen : Tallied interpreter backend goal seen search)
    (h : coverCase interpreter backend goal search case = .ok search') :
    Tallied interpreter backend goal (seen ++ [case]) search' := by
  -- what the exits are in terms of the attempt
  have hanswers := fun status =>
    @answersWith_iff interpreter backend goal status case
  have hunbound := @unbound_iff interpreter backend goal case
  have hraises := @raises_iff interpreter backend goal case
  have hexits : (AnswersWith interpreter backend goal .feasible case ∨
      LeftOpen interpreter backend goal case ∨ Excluded interpreter backend goal case) →
      ∀ c ∈ seen ++ [case], AnswersWith interpreter backend goal .feasible c ∨
        LeftOpen interpreter backend goal c ∨ Excluded interpreter backend goal c := by
    intro hcase c hc
    rcases List.mem_append.mp hc with hc | hc
    · exact hseen.exits c hc
    · rw [List.mem_singleton.mp hc]
      exact hcase
  unfold coverCase at h
  cases hattempt : attempt interpreter backend goal case with
  | error e =>
      rw [hattempt] at h
      simp only [hattempt, reduceCtorEq, false_and, exists_false] at hanswers hunbound hraises
      cases hmessage : e.umcmMessage? with
      | none => simp [hmessage] at h
      | some message =>
          simp only [hmessage, Except.ok.injEq] at h
          have hraised : Raises interpreter backend goal case :=
            hraises.mpr ⟨e, by rw [hmessage]; rfl, rfl⟩
          subst h
          constructor
          · rw [exists_seen_append, ← hseen.feasible]
            simp [hanswers]
          · rw [exists_seen_append, ← hseen.missing]
            simp [hunbound]
          · rw [exists_seen_append, ← hseen.sawUnknown]
            simp [hanswers]
          · rw [exists_seen_append]
            simp [LeftOpen, hraised]
          · exact hexits (.inr (.inl (.inl hraised)))
  | ok compiled =>
      rw [hattempt] at h
      have hnot : ¬ Raises interpreter backend goal case := by
        rw [hraises]
        simp [hattempt]
      cases compiled with
      | error reasons =>
          simp only [hattempt, Except.ok.injEq, reduceCtorEq, false_and, exists_false] at hanswers
          have hmissing : Unbound goal case := hunbound.mpr ⟨reasons, hattempt⟩
          simp only [Except.ok.injEq] at h
          subst h
          constructor
          · rw [exists_seen_append, ← hseen.feasible]
            simp [hanswers]
          · rw [exists_seen_append]
            simp [hmissing]
          · rw [exists_seen_append, ← hseen.sawUnknown]
            simp [hanswers]
          · rw [exists_seen_append, ← hseen.solving]
            simp [LeftOpen, hnot, hanswers]
          · exact hexits (.inr (.inr (.inr hmissing)))
      | ok result =>
          have hunbound' : ¬ Unbound goal case := by
            rw [hunbound]
            simp [hattempt]
          simp only [hattempt, Except.ok.injEq, exists_eq_left'] at hanswers
          simp only [CaseSearch.record] at h
          cases hstatus : result.status with
          | feasible =>
              simp only [hstatus] at h hanswers
              cases htrace : result.completedTrace with
              | none => simp [htrace] at h
              | some trace =>
                  simp only [htrace, Except.ok.injEq] at h
                  subst h
                  constructor
                  · rw [exists_seen_append]
                    simp [hanswers]
                  · rw [exists_seen_append, ← hseen.missing]
                    simp [hunbound']
                  · rw [exists_seen_append, ← hseen.sawUnknown]
                    simp [hanswers]
                  · rw [exists_seen_append, ← hseen.solving]
                    simp [LeftOpen, hnot, hanswers]
                  · exact hexits (.inl ((hanswers _).mpr rfl))
          | infeasible =>
              simp only [hstatus, Except.ok.injEq] at h hanswers
              subst h
              constructor
              · rw [exists_seen_append, ← hseen.feasible]
                simp [hanswers]
              · rw [exists_seen_append, ← hseen.missing]
                simp [hunbound']
              · rw [exists_seen_append, ← hseen.sawUnknown]
                simp [hanswers]
              · rw [exists_seen_append]
                simp [hanswers]
              · exact hexits (.inr (.inr (.inl ((hanswers _).mpr rfl))))
          | unknown =>
              simp only [hstatus, Except.ok.injEq] at h hanswers
              subst h
              constructor
              · rw [exists_seen_append, ← hseen.feasible]
                simp [hanswers]
              · rw [exists_seen_append, ← hseen.missing]
                simp [hunbound']
              · rw [exists_seen_append]
                simp [hanswers]
              · rw [exists_seen_append]
                simp [LeftOpen, hanswers]
              · exact hexits (.inr (.inl (.inr ((hanswers _).mpr rfl))))

theorem tallied_foldlM {cases : List PreparedCase} {search : CaseSearch}
    (h : cases.foldlM (coverCase interpreter backend goal) .start = .ok search) :
    Tallied interpreter backend goal cases search :=
  foldlM_invariant (Tallied interpreter backend goal)
    (fun _ _ _ _ hseen hstep => tallied_coverCase hseen hstep) tallied_start h

/-! ## The verdict -/

/-- The branches of the verdict without a witness. -/
theorem verdict_status_of_infeasible {search : CaseSearch} (h : search.feasible = []) :
    (verdict goal search).status =
      if search.missingReasons ≠ [] ∧ search.solveReasons = [] then .unreachable
      else if search.sawUnknown = true then .unknown else .uncovered := by
  unfold verdict
  rw [h]
  simp only [best]
  split_ifs <;> rfl

end Loop

/-- The goal is reported as not covered only if every case was decided against it, and as
unknown if some case was left open and none covers it. -/
def Honest (interpreter : Interpreter) (backend : Backend) (goal : CoverageGoal)
    (cases : List PreparedCase) (result : GoalResult) : Prop :=
  (result.status = .uncovered ∨ result.status = .unreachable →
    ∀ case ∈ cases, Excluded interpreter backend goal case) ∧
  ((∃ case ∈ cases, LeftOpen interpreter backend goal case) →
    (∀ case ∈ cases, ¬ AnswersWith interpreter backend goal .feasible case) →
    result.status = .unknown)

end Coverage

open Coverage

/-- The reported status is right exactly when no case raises an error, or some case covers
the goal, or the solver left some case undecided. -/
theorem verdict_honest_iff (interpreter : Interpreter) (backend : Backend) (goal : CoverageGoal)
    (cases : List PreparedCase) (result : GoalResult)
    (h : coverGoal interpreter backend goal cases = .ok result) :
    Honest interpreter backend goal cases result ↔
      (∀ case ∈ cases, ¬ Raises interpreter backend goal case) ∨
      (∃ case ∈ cases, AnswersWith interpreter backend goal .feasible case) ∨
      ∃ case ∈ cases, AnswersWith interpreter backend goal .unknown case := by
  unfold coverGoal at h
  split_ifs at h with hnil
  · cases h
    subst hnil
    simp [Honest]
  · obtain ⟨search, hsearch, h⟩ := bind_eq_ok.mp h
    cases h
    have htally : Tallied interpreter backend goal cases search := tallied_foldlM hsearch
    by_cases hfound : ∃ case ∈ cases, AnswersWith interpreter backend goal .feasible case
    · have hstatus : (verdict goal search).status = .covered :=
        verdict_covered_iff.mpr (htally.feasible.mpr hfound)
      simp only [hfound, true_or, or_true, iff_true]
      refine ⟨by simp [hstatus], fun _ hnone => ?_⟩
      obtain ⟨case, hcase, hanswers⟩ := hfound
      exact absurd hanswers (hnone case hcase)
    · have hnone : ∀ case ∈ cases, ¬ AnswersWith interpreter backend goal .feasible case :=
        fun case hcase hanswers => hfound ⟨case, hcase, hanswers⟩
      have hstatus : (verdict goal search).status = _ :=
        verdict_status_of_infeasible (not_not.mp (mt htally.feasible.mp hfound))
      simp only [hfound, false_or]
      by_cases hunknown : ∃ case ∈ cases, AnswersWith interpreter backend goal .unknown case
      · -- the undecided case has left a reason
        obtain ⟨case, hcase, hanswers⟩ := hunknown
        have hsolving : search.solveReasons ≠ [] :=
          htally.solving.mpr ⟨case, hcase, .inl (.inr hanswers)⟩
        have hsaw : search.sawUnknown = true := htally.sawUnknown.mpr ⟨case, hcase, hanswers⟩
        rw [if_neg (fun hboth => hsolving hboth.2), if_pos hsaw] at hstatus
        refine iff_of_true ⟨by simp [hstatus], fun _ _ => hstatus⟩ (.inr ⟨case, hcase, hanswers⟩)
      · simp only [hunknown, or_false]
        have hsaw : ¬ search.sawUnknown = true := mt htally.sawUnknown.mp hunknown
        rw [if_neg hsaw] at hstatus
        constructor
        · intro hhonest case hcase hraises
          have hopen := hhonest.2 ⟨case, hcase, .inl hraises⟩ hnone
          rw [hstatus] at hopen
          split_ifs at hopen
        · intro hquiet
          have hclosed : ∀ case ∈ cases, ¬ LeftOpen interpreter backend goal case := by
            rintro case hcase (hraises | hanswers)
            · exact hquiet case hcase hraises
            · exact hunknown ⟨case, hcase, hanswers⟩
          refine ⟨fun _ case hcase => ?_, ?_⟩
          · exact ((htally.exits case hcase).resolve_left (hnone case hcase)).resolve_left
              (hclosed case hcase)
          · rintro ⟨case, hcase, hopen⟩
            exact absurd hopen (hclosed case hcase)

/-! ## A goal with a literal of the wrong sort -/

namespace Coverage

/-- The integer cell is asked to become a truth value. -/
def flagGoal : CoverageGoal where
  id := "flag"
  probes := [⟨.stateTransition, .mapping (.ofList [("state", .str "M.x"), ("to", .bool true)]) none⟩]

/-- The error of the comparison. -/
def flagError : PyError := .expressionTypeError
  "literal True is not valid for sort Sort(name='int', width=None, signed=None)"

theorem flagGoal_raises : compileGoal flagGoal writeCase = .error flagError := by
  have h : (match compileGoal flagGoal writeCase with
      | .error e => some e
      | .ok _ => none) = some flagError := by decide +kernel
  cases hcompile : compileGoal flagGoal writeCase with
  | error e => simpa [hcompile] using h
  | ok compiled => simp [hcompile] at h

/-- The goal is compiled against one case, and no case is decided. -/
theorem flagGoal_uncovered : ∃ result,
    coverGoal .integers (.finite 100) flagGoal [writeCase] = .ok result ∧
      result.status = .uncovered := by
  have h : (coverGoal .integers (.finite 100) flagGoal [writeCase]).toOption.map
      GoalResult.status = some .uncovered := by decide +kernel
  cases hresult : coverGoal .integers (.finite 100) flagGoal [writeCase] with
  | error e => simp [hresult, Except.toOption] at h
  | ok result => exact ⟨result, rfl, by simpa [hresult, Except.toOption] using h⟩

/-- The goal is reported as not covered while its only case raises an error. -/
theorem flagGoal_dishonest : ∃ result,
    coverGoal .integers (.finite 100) flagGoal [writeCase] = .ok result ∧
      Raises .integers (.finite 100) flagGoal writeCase ∧
      ¬ Honest .integers (.finite 100) flagGoal [writeCase] result := by
  obtain ⟨result, hresult, hstatus⟩ := flagGoal_uncovered
  have hraises : Raises .integers (.finite 100) flagGoal writeCase :=
    ⟨flagError, rfl, .inl flagGoal_raises⟩
  refine ⟨result, hresult, hraises, ?_⟩
  intro hhonest
  have hcase : Excluded .integers (.finite 100) flagGoal writeCase :=
    hhonest.1 (.inl hstatus) writeCase (List.mem_singleton_self _)
  -- an excluded case has been compiled
  rcases hcase with ⟨q, -, hq, -⟩ | ⟨reasons, hreasons⟩
  · rw [flagGoal_raises] at hq
    cases hq
  · rw [flagGoal_raises] at hreasons
    cases hreasons

theorem flagGoal_honest_iff : ∃ result,
    coverGoal .integers (.finite 100) flagGoal [writeCase] = .ok result ∧
    (Honest .integers (.finite 100) flagGoal [writeCase] result ↔
      (∀ case ∈ [writeCase], ¬ Raises .integers (.finite 100) flagGoal case) ∨
      (∃ case ∈ [writeCase], AnswersWith .integers (.finite 100) flagGoal .feasible case) ∨
      ∃ case ∈ [writeCase], AnswersWith .integers (.finite 100) flagGoal .unknown case) := by
  obtain ⟨result, hresult, -⟩ := flagGoal_uncovered
  exact ⟨result, hresult, verdict_honest_iff .integers (.finite 100) flagGoal [writeCase] result
    hresult⟩

end Coverage

end Umcm
