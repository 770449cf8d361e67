import Umcm.Solver.StateRun

/-!
# The order of effects

The simulation of the state cells visits requirements, updates and guarded rules
in the order in which they are listed, and stops at the first that is rejected.
Unless an evaluation raises, another order gives the same verdict and the same
states, in the sense of `==`.

* `simulateState_agree`: listing the effects and the rules in another order.
-/

namespace Umcm

open Except

namespace StateCheck

/-! ## Results with the same states -/

/-- The cells hold the same values, in the sense of `==`. -/
def SameCells (state state' : Dict String Value) : Prop :=
  ∀ name, (state.get? name).map Value.key = (state'.get? name).map Value.key

structure SameStep (a b : StateStep) : Prop where
  cycle : a.cycle = b.cycle
  before : SameCells a.before b.before
  after : SameCells a.after b.after

structure SameResult (r r' : StateCheckResult) : Prop where
  feasible : r.feasible = r'.feasible
  initial : SameCells r.initialState r'.initialState
  final : SameCells r.finalState r'.finalState
  steps : List.Forall₂ SameStep r.steps r'.steps

theorem SameCells.refl (state : Dict String Value) : SameCells state state := fun _ => rfl

theorem SameCells.insert {state state' : Dict String Value} (h : SameCells state state')
    (name : String) {v v' : Value} (hv : v.key = v'.key) :
    SameCells (state.insert name v) (state'.insert name v') := by
  intro other
  rw [Dict.get?_insert, Dict.get?_insert]
  by_cases hname : other = name
  · rw [if_pos hname, if_pos hname]
    exact congrArg some hv
  · rw [if_neg hname, if_neg hname]
    exact h other

theorem SameResult.rejected {reason reason' : String}
    {initial initial' final final' : Dict String Value} {steps steps' : List StateStep}
    (hinitial : SameCells initial initial') (hfinal : SameCells final final')
    (hsteps : List.Forall₂ SameStep steps steps') :
    SameResult (.rejected reason initial final steps) (.rejected reason' initial' final' steps') :=
  ⟨rfl, hinitial, hfinal, hsteps⟩

/-! ## Computations that agree -/

section Agree

variable {α β γ δ : Type}

/-- Both computations return related results, or both are rejected with the same
states, unless one of them raises. -/
inductive Agree (R : α → β → Prop) : Except StateAbort α → Except StateAbort β → Prop
  | ok {a : α} {b : β} (h : R a b) : Agree R (.ok a) (.ok b)
  | rejected {r r' : StateCheckResult} (h : SameResult r r') :
      Agree R (.error (.infeasible r)) (.error (.infeasible r'))
  | raisedLeft (e : PyError) (y : Except StateAbort β) : Agree R (.error (.raised e)) y
  | raisedRight (x : Except StateAbort α) (e : PyError) : Agree R x (.error (.raised e))

namespace Agree

variable {R : α → β → Prop} {S : γ → δ → Prop}

theorem bind {x : Except StateAbort α} {y : Except StateAbort β} {f : α → Except StateAbort γ}
    {g : β → Except StateAbort δ} (h : Agree R x y)
    (hf : ∀ a b, x = .ok a → y = .ok b → R a b → Agree S (f a) (g b)) :
    Agree S (x >>= f) (y >>= g) := by
  cases h with
  | ok h => exact hf _ _ rfl rfl h
  | rejected h => exact .rejected h
  | raisedLeft e y => exact .raisedLeft e _
  | raisedRight x e => exact .raisedRight _ e

theorem imp {R' : α → β → Prop} {x : Except StateAbort α} {y : Except StateAbort β}
    (h : Agree R x y) (hR : ∀ a b, R a b → R' a b) : Agree R' x y := by
  cases h with
  | ok h => exact .ok (hR _ _ h)
  | rejected h => exact .rejected h
  | raisedLeft e y => exact .raisedLeft e y
  | raisedRight x e => exact .raisedRight x e

/-- A computation that rejects nothing agrees with itself. -/
theorem mapError (x : Except PyError α) :
    Agree (fun a b => a = b) (x.mapError StateAbort.raised) (x.mapError StateAbort.raised) := by
  cases x with
  | error e => exact .raisedLeft e _
  | ok a => exact .ok rfl

theorem foldlM {f : α → γ → Except StateAbort α} {g : β → γ → Except StateAbort β} {l : List γ}
    (hstep : ∀ a b, ∀ c ∈ l, R a b → Agree R (f a c) (g b c)) {a : α} {b : β} (h : R a b) :
    Agree R (l.foldlM f a) (l.foldlM g b) := by
  induction l generalizing a b with
  | nil => exact .ok h
  | cons c rest ih =>
      rw [List.foldlM_cons, List.foldlM_cons]
      refine (hstep a b c List.mem_cons_self h).bind (fun a' b' _ _ h' => ?_)
      exact ih (fun a b c hc => hstep a b c (List.mem_cons_of_mem _ hc)) h'

end Agree

/-- A loop of checks stops at an element whose check stops. -/
theorem exists_forM_error {f : γ → Except StateAbort PUnit} {l : List γ} {e : StateAbort}
    (h : l.forM f = .error e) : ∃ a ∈ l, f a = .error e := by
  induction l with
  | nil => cases h
  | cons a rest ih =>
      change (f a >>= fun _ => rest.forM f) = _ at h
      cases ha : f a with
      | error e' =>
          rw [ha, error_bind] at h
          cases h
          exact ⟨a, List.mem_cons_self, ha⟩
      | ok u =>
          rw [ha, ok_bind] at h
          obtain ⟨b, hb, hfb⟩ := ih h
          exact ⟨b, List.mem_cons_of_mem _ hb, hfb⟩

theorem exists_mapM_error {f : γ → Except StateAbort δ} {l : List γ} {e : StateAbort}
    (h : l.mapM f = .error e) : ∃ a ∈ l, f a = .error e := by
  induction l with
  | nil => cases h
  | cons a rest ih =>
      rw [List.mapM_cons] at h
      cases ha : f a with
      | error e' =>
          rw [ha, error_bind] at h
          cases h
          exact ⟨a, List.mem_cons_self, ha⟩
      | ok u =>
          rw [ha, ok_bind] at h
          cases hrest : rest.mapM f with
          | error e' =>
              rw [hrest, error_bind] at h
              cases h
              obtain ⟨b, hb, hfb⟩ := ih hrest
              exact ⟨b, List.mem_cons_of_mem _ hb, hfb⟩
          | ok us =>
              rw [hrest, ok_bind] at h
              cases h

/-- Loops of checks over elements with agreeing checks agree, when a rejection
does not depend on the element that causes it. -/
theorem Agree.forM {R : PUnit → PUnit → Prop} {f : α → Except StateAbort PUnit}
    {g : β → Except StateAbort PUnit} {l : List α} {l' : List β}
    (hl : ∀ a ∈ l, ∃ b ∈ l', Agree R (f a) (g b)) (hr : ∀ b ∈ l', ∃ a ∈ l, Agree R (f a) (g b))
    (hsame : ∀ a b r r', f a = .error (.infeasible r) → g b = .error (.infeasible r') →
      SameResult r r') : Agree (fun _ _ => True) (l.forM f) (l'.forM g) := by
  cases hf : l.forM f with
  | error abort =>
      obtain ⟨a, ha, hfa⟩ := exists_forM_error hf
      cases abort with
      | raised e => exact .raisedLeft e _
      | infeasible r =>
          cases hg : l'.forM g with
          | error abort =>
              obtain ⟨b, -, hgb⟩ := exists_forM_error hg
              cases abort with
              | raised e => exact .raisedRight _ e
              | infeasible r' => exact .rejected (hsame a b r r' hfa hgb)
          | ok u =>
              obtain ⟨b, hb, h⟩ := hl a ha
              rw [hfa, forM_eq_ok.mp hg b hb] at h
              cases h
  | ok u =>
      cases hg : l'.forM g with
      | error abort =>
          obtain ⟨b, hb, hgb⟩ := exists_forM_error hg
          cases abort with
          | raised e => exact .raisedRight _ e
          | infeasible r' =>
              obtain ⟨a, ha, h⟩ := hr b hb
              rw [hgb, forM_eq_ok.mp hf a ha] at h
              cases h
      | ok u' => exact .ok trivial

/-- Collecting the results over a list in another order. -/
theorem Agree.mapM {f : γ → Except StateAbort δ} {l l' : List γ} (hperm : l.Perm l')
    (hsame : ∀ a b r r', f a = .error (.infeasible r) → f b = .error (.infeasible r') →
      SameResult r r') : Agree List.Perm (l.mapM f) (l'.mapM f) := by
  cases hf : l.mapM f with
  | ok bs =>
      obtain ⟨bs', hg, hbs⟩ := mapM_perm hperm hf
      rw [hg]
      exact .ok hbs
  | error abort =>
      obtain ⟨a, ha, hfa⟩ := exists_mapM_error hf
      cases abort with
      | raised e => exact .raisedLeft e _
      | infeasible r =>
          cases hg : l'.mapM f with
          | error abort =>
              obtain ⟨b, -, hgb⟩ := exists_mapM_error hg
              cases abort with
              | raised e => exact .raisedRight _ e
              | infeasible r' => exact .rejected (hsame a b r r' hfa hgb)
          | ok bs' =>
              obtain ⟨bs, hbs, -⟩ := mapM_perm hperm.symm hg
              rw [hf] at hbs
              cases hbs

end Agree

/-! ## Cycles -/

/-- The rejections all report the same states. -/
def RejectedWith (initial final : Dict String Value) (steps : List StateStep) : StateAbort → Prop
  | .raised _ => True
  | .infeasible r => ∃ reason, r = .rejected reason initial final steps

theorem RejectedWith.same {initial final final' : Dict String Value} {steps steps' : List StateStep}
    {r r' : StateCheckResult} (h : RejectedWith initial final steps (.infeasible r))
    (h' : RejectedWith initial final' steps' (.infeasible r')) (hfinal : SameCells final final')
    (hsteps : List.Forall₂ SameStep steps steps') : SameResult r r' := by
  obtain ⟨reason, rfl⟩ := h
  obtain ⟨reason', rfl⟩ := h'
  exact .rejected (SameCells.refl initial) hfinal hsteps

structure SameSim (sim sim' : Simulation) : Prop where
  state : SameCells sim.state sim'.state
  steps : List.Forall₂ SameStep sim.steps sim'.steps
  preStates : List.Forall₂ SameCells sim.preStates sim'.preStates

section Cycle

variable {initial : Dict String Value} {sim sim' : Simulation}

theorem compare_congr (op : CompareOp) {actual actual' : Value} (expected : Value)
    (h : actual.key = actual'.key) : op.compare actual expected = op.compare actual' expected := by
  cases op <;> simp [CompareOp.compare, Value.pyEq, Value.pyLt, Value.pyLe, h]

theorem cell_agree {state state' : Dict String Value} (h : SameCells state state')
    (name : String) :
    Agree (fun v v' => v.key = v'.key) (cell state name) (cell state' name) := by
  unfold cell
  have hname := h name
  cases hget : state.get? name with
  | none => exact .raisedLeft _ _
  | some v =>
      cases hget' : state'.get? name with
      | none => exact .raisedRight _ _
      | some v' =>
          rw [hget, hget'] at hname
          exact .ok (Option.some.inj hname)

theorem checkRequirement_agree (hsim : SameSim sim sim') (active : ActiveRequirement) :
    Agree (fun _ _ => True) (checkRequirement initial sim active)
      (checkRequirement initial sim' active) := by
  refine (cell_agree hsim.state active.requirement.state).bind (fun v v' _ _ hv => ?_)
  rw [compare_congr _ _ hv]
  refine (Agree.mapError _).bind ?_
  rintro holds _ - - rfl
  cases holds with
  | true => exact .ok trivial
  | false => exact .rejected (.rejected (SameCells.refl _) hsim.state hsim.steps)

theorem checkRequirements_agree (hsim : SameSim sim sim') {requirements requirements' :
    List ActiveRequirement} (hperm : requirements.Perm requirements') :
    Agree (fun _ _ => True) (requirements.forM (checkRequirement initial sim))
      (requirements'.forM (checkRequirement initial sim')) := by
  refine Agree.forM (fun a ha => ⟨a, hperm.mem_iff.mp ha, checkRequirement_agree hsim a⟩)
    (fun b hb => ⟨b, hperm.mem_iff.mpr hb, checkRequirement_agree hsim b⟩) ?_
  intro a b r r' hr hr'
  have hrejected : ∀ (sim : Simulation) a, Raises (RejectedWith initial sim.state sim.steps)
      (checkRequirement initial sim a) :=
    fun sim a => raises_checkRequirement (fun _ => trivial) (fun reason => ⟨reason, rfl⟩) a
  exact RejectedWith.same (hrejected sim a _ hr) (hrejected sim' b _ hr') hsim.state hsim.steps

/-- The writes to a cell agree, whichever of them is listed first. -/
theorem all_agree_iff {first : ActiveUpdate} {rest : List ActiveUpdate} :
    rest.all (fun active => active.value.pyEq first.value) = true ↔
      ∀ a ∈ first :: rest, ∀ b ∈ first :: rest, a.value.key = b.value.key := by
  simp only [List.all_eq_true, Value.pyEq_iff]
  constructor
  · intro h
    have hfirst : ∀ a ∈ first :: rest, a.value.key = first.value.key :=
      List.forall_mem_cons.mpr ⟨rfl, h⟩
    exact fun a ha b hb => (hfirst a ha).trans (hfirst b hb).symm
  · exact fun h a ha => h a (List.mem_cons_of_mem _ ha) first List.mem_cons_self

theorem writeCell_agree (hsim : SameSim sim sim') (cycle : Nat) {updates updates' :
    List ActiveUpdate} (hperm : updates.Perm updates') {writing writing' : Writing}
    (hwriting : SameCells writing.state writing'.state) (name : String) :
    Agree (fun w w' => SameCells w.state w'.state)
      (writeCell initial sim cycle updates writing name)
      (writeCell initial sim' cycle updates' writing' name) := by
  have hwrites : (writesTo updates name).Perm (writesTo updates' name) := hperm.filter _
  unfold writeCell
  generalize writesTo updates name = writes at hwrites
  generalize writesTo updates' name = writes' at hwrites
  rcases writes with _ | ⟨first, rest⟩
  · rw [List.nil_perm] at hwrites
    rw [hwrites]
    exact .ok hwriting
  rcases writes' with _ | ⟨first', rest'⟩
  · cases List.perm_nil.mp hwrites
  have hiff : rest.all (fun active => active.value.pyEq first.value) = true ↔
      rest'.all (fun active => active.value.pyEq first'.value) = true := by
    simp only [all_agree_iff, hwrites.mem_iff]
  by_cases hall : rest.all (fun active => active.value.pyEq first.value) = true
  · simp only [hall, hiff.mp hall, if_true]
    refine (cell_agree hwriting name).bind (fun old old' _ _ _ => .ok ?_)
    refine hwriting.insert name ?_
    exact all_agree_iff.mp hall first List.mem_cons_self first'
      (hwrites.mem_iff.mpr List.mem_cons_self)
  · simp only [if_neg hall, if_neg (mt hiff.mpr hall)]
    exact .rejected (.rejected (SameCells.refl _) hwriting hsim.steps)

theorem simulateCycle_agree (hsim : SameSim sim sim') {requirements requirements' :
    List ActiveRequirement} (hrequirements : requirements.Perm requirements')
    {updates updates' : List ActiveUpdate} (hupdates : updates.Perm updates') (cycle : Nat) :
    Agree SameSim (simulateCycle initial requirements updates sim cycle)
      (simulateCycle initial requirements' updates' sim' cycle) := by
  have hrequired := hrequirements.filter (fun active => active.cycle = cycle)
  have hwritten := hupdates.filter (fun active => active.cycle = cycle)
  refine (checkRequirements_agree hsim hrequired).bind (fun _ _ _ _ _ => ?_)
  -- the cells are written in the order of their names
  have hnames : ((updates.filter (fun active => active.cycle = cycle)).map
        (fun active => active.update.state)).toFinset =
      ((updates'.filter (fun active => active.cycle = cycle)).map
        (fun active => active.update.state)).toFinset :=
    List.toFinset_eq_of_perm _ _ (hwritten.map _)
  rw [hnames]
  have hstart : SameCells (Writing.state ⟨sim.state, [], []⟩) (Writing.state ⟨sim'.state, [], []⟩) :=
    hsim.state
  refine Agree.bind (R := fun w w' => SameCells w.state w'.state)
    (Agree.foldlM (fun w w' name _ hw => writeCell_agree hsim cycle hwritten hw name) hstart) ?_
  intro writing writing' _ _ hwriting
  have hempty : ((requirements.filter (fun active => active.cycle = cycle)).isEmpty &&
        (updates.filter (fun active => active.cycle = cycle)).isEmpty) =
      ((requirements'.filter (fun active => active.cycle = cycle)).isEmpty &&
        (updates'.filter (fun active => active.cycle = cycle)).isEmpty) := by
    rw [hrequired.isEmpty_eq, hwritten.isEmpty_eq]
  refine .ok ⟨hwriting, ?_, ?_⟩
  · show List.Forall₂ SameStep (if _ then _ else _) (if _ then _ else _)
    rw [hempty]
    split_ifs
    · exact hsim.steps
    · exact List.rel_append hsim.steps (.cons ⟨rfl, hsim.state, hwriting⟩ .nil)
  · exact List.rel_append hsim.preStates (.cons hsim.state .nil)

theorem simulate_agree (horizon : Nat) {requirements requirements' : List ActiveRequirement}
    (hrequirements : requirements.Perm requirements') {updates updates' : List ActiveUpdate}
    (hupdates : updates.Perm updates') :
    Agree SameSim (simulate horizon initial requirements updates)
      (simulate horizon initial requirements' updates') := by
  unfold simulate
  refine Agree.foldlM (fun _ _ cycle _ h => ?_) ?_
  · exact simulateCycle_agree h hrequirements hupdates cycle
  · exact ⟨SameCells.refl _, .nil, .nil⟩

end Cycle

/-! ## Guarded rules -/

section Guards

variable {context : EvaluationContext} {horizon : Nat} {initial : Dict String Value}
  {sim sim' : Simulation}

/-- The guard can be judged: its anchor cycle lies in the horizon and its expected
value is known, as far as they can be evaluated. -/
structure Judged (context : EvaluationContext) (horizon : Nat)
    (guard : GuardPredicateInstance) : Prop where
  cycle : ∀ r, context.evaluate guard.cycle = .ok r → (validCycle horizon r).isSome = true
  expected : ∀ r, context.evaluate guard.expected = .ok r → r.isSome = true

theorem sameCells_at {states states' : List (Dict String Value)}
    (h : List.Forall₂ SameCells states states') (c : Nat) :
    SameCells ((states[c]?).getD .empty) ((states'[c]?).getD .empty) := by
  induction h generalizing c with
  | nil => exact SameCells.refl _
  | cons hstate _ ih =>
      cases c with
      | zero => exact hstate
      | succ c => exact ih c

theorem guardPredicateHolds_agree (hsim : SameSim sim sim') (label label' : String)
    (guard : GuardPredicateInstance) :
    Agree (fun a b => a = b) (guardPredicateHolds context horizon initial sim label guard)
      (guardPredicateHolds context horizon initial sim' label' guard) := by
  refine (Agree.mapError _).bind ?_
  rintro at_ _ - - rfl
  refine (Agree.mapError _).bind ?_
  rintro expected _ - - rfl
  rcases hvalid : validCycle horizon at_ with _ | c
  · exact .rejected (.rejected (SameCells.refl _) hsim.state hsim.steps)
  rcases expected with _ | v
  · exact .rejected (.rejected (SameCells.refl _) hsim.state hsim.steps)
  refine (cell_agree (sameCells_at hsim.preStates c) guard.state).bind (fun w w' _ _ hw => ?_)
  rw [compare_congr _ _ hw]
  exact Agree.mapError _

theorem guardPredicatesHold_agree (hsim : SameSim sim sim') (label label' : String)
    (guards : List GuardPredicateInstance) :
    Agree (fun a b => a = b) (guardPredicatesHold context horizon initial sim label guards)
      (guardPredicatesHold context horizon initial sim' label' guards) := by
  induction guards with
  | nil => exact .ok rfl
  | cons guard rest ih =>
      refine (guardPredicateHolds_agree hsim label label' guard).bind ?_
      rintro holds _ - - rfl
      cases holds with
      | true => exact ih
      | false => exact .ok rfl

/-- A guard that can be judged is not a reason to reject. -/
theorem guardPredicateHolds_judged {label : String} {guard : GuardPredicateInstance}
    (h : Judged context horizon guard) (r : StateCheckResult) :
    guardPredicateHolds context horizon initial sim label guard ≠ .error (.infeasible r) := by
  intro hr
  unfold guardPredicateHolds at hr
  cases hcycle : context.evaluate guard.cycle with
  | error e => simp [concrete, hcycle, Except.mapError] at hr
  | ok at_ =>
      cases hexpected : context.evaluate guard.expected with
      | error e => simp [concrete, hcycle, hexpected, Except.mapError] at hr
      | ok expected =>
          obtain ⟨c, hc⟩ := Option.isSome_iff_exists.mp (h.cycle at_ hcycle)
          obtain ⟨v, rfl⟩ := Option.isSome_iff_exists.mp (h.expected expected hexpected)
          simp only [concrete, hcycle, hexpected, Except.mapError, ok_bind, hc] at hr
          have hraises : Raises (fun abort => ∃ e, abort = .raised e)
              (cell ((sim.preStates[c]?).getD .empty) guard.state >>= fun actual =>
                (guard.op.compare actual v).mapError StateAbort.raised) :=
            Raises.bind (raises_cell (fun e => ⟨e, rfl⟩) _ _)
              (fun _ _ => raises_mapError (fun e => ⟨e, rfl⟩) _)
          obtain ⟨e, he⟩ := hraises _ hr
          cases he

/-- The guards hold together, or the first that does not hold or stops decides. -/
theorem guardPredicatesHold_cases (context : EvaluationContext) (horizon : Nat)
    (initial : Dict String Value) (sim : Simulation) (label : String)
    (guards : List GuardPredicateInstance) :
    (guardPredicatesHold context horizon initial sim label guards = .ok true ∧
      ∀ guard ∈ guards, guardPredicateHolds context horizon initial sim label guard = .ok true) ∨
    (guardPredicatesHold context horizon initial sim label guards = .ok false ∧
      ∃ guard ∈ guards, guardPredicateHolds context horizon initial sim label guard = .ok false) ∨
    ∃ abort, guardPredicatesHold context horizon initial sim label guards = .error abort ∧
      ∃ guard ∈ guards,
        guardPredicateHolds context horizon initial sim label guard = .error abort := by
  induction guards with
  | nil => exact Or.inl ⟨rfl, by simp⟩
  | cons guard rest ih =>
      rw [guardPredicatesHold]
      cases hguard : guardPredicateHolds context horizon initial sim label guard with
      | error abort => exact Or.inr (Or.inr ⟨abort, rfl, guard, List.mem_cons_self, hguard⟩)
      | ok holds =>
          rw [ok_bind]
          cases holds with
          | false => exact Or.inr (Or.inl ⟨rfl, guard, List.mem_cons_self, hguard⟩)
          | true =>
              rw [if_pos rfl]
              rcases ih with ⟨h, hall⟩ | ⟨h, g, hg, hfalse⟩ | ⟨abort, h, g, hg, habort⟩
              · exact Or.inl ⟨h, List.forall_mem_cons.mpr ⟨hguard, hall⟩⟩
              · exact Or.inr (Or.inl ⟨h, g, List.mem_cons_of_mem _ hg, hfalse⟩)
              · exact Or.inr (Or.inr ⟨abort, h, g, List.mem_cons_of_mem _ hg, habort⟩)

/-- The guards of a rule, possibly in another order when all of them can be judged. -/
def SameGuards (context : EvaluationContext) (horizon : Nat)
    (guards guards' : List GuardPredicateInstance) : Prop :=
  guards = guards' ∨ (guards.Perm guards' ∧ ∀ guard ∈ guards, Judged context horizon guard)

theorem guards_agree (hsim : SameSim sim sim') {label label' : String}
    {guards guards' : List GuardPredicateInstance} (h : SameGuards context horizon guards guards') :
    Agree (fun a b => a = b) (guardPredicatesHold context horizon initial sim label guards)
      (guardPredicatesHold context horizon initial sim' label' guards') := by
  rcases h with rfl | ⟨hperm, hjudged⟩
  · exact guardPredicatesHold_agree hsim label label' guards
  have hone : ∀ guard, Agree (fun a b => a = b)
      (guardPredicateHolds context horizon initial sim label guard)
      (guardPredicateHolds context horizon initial sim' label' guard) :=
    fun guard => guardPredicateHolds_agree hsim label label' guard
  have hdiffer : ∀ guard,
      guardPredicateHolds context horizon initial sim label guard = .ok true →
      guardPredicateHolds context horizon initial sim' label' guard = .ok false → False := by
    intro guard htrue hfalse
    have h := hone guard
    rw [htrue, hfalse] at h
    cases h with
    | ok h => cases h
  have hdiffer' : ∀ guard,
      guardPredicateHolds context horizon initial sim label guard = .ok false →
      guardPredicateHolds context horizon initial sim' label' guard = .ok true → False := by
    intro guard hfalse htrue
    have h := hone guard
    rw [htrue, hfalse] at h
    cases h with
    | ok h => cases h
  rcases guardPredicatesHold_cases context horizon initial sim' label' guards' with
    ⟨h', hall'⟩ | ⟨h', guard', hguard', hfalse'⟩ | ⟨abort', h', guard', hguard', habort'⟩
  · rcases guardPredicatesHold_cases context horizon initial sim label guards with
      ⟨h, -⟩ | ⟨-, guard, hguard, hfalse⟩ | ⟨abort, h, guard, hguard, habort⟩
    · rw [h, h']
      exact .ok rfl
    · exact (hdiffer' guard hfalse (hall' guard (hperm.mem_iff.mp hguard))).elim
    · cases abort with
      | raised e =>
          rw [h]
          exact .raisedLeft e _
      | infeasible r => exact absurd habort (guardPredicateHolds_judged (hjudged guard hguard) r)
  · rcases guardPredicatesHold_cases context horizon initial sim label guards with
      ⟨-, hall⟩ | ⟨h, -, -⟩ | ⟨abort, h, guard, hguard, habort⟩
    · exact (hdiffer guard' (hall guard' (hperm.mem_iff.mpr hguard')) hfalse').elim
    · rw [h, h']
      exact .ok rfl
    · cases abort with
      | raised e =>
          rw [h]
          exact .raisedLeft e _
      | infeasible r => exact absurd habort (guardPredicateHolds_judged (hjudged guard hguard) r)
  · cases abort' with
    | raised e =>
        rw [h']
        exact .raisedRight _ e
    | infeasible r =>
        exact absurd habort'
          (guardPredicateHolds_judged (hjudged guard' (hperm.mem_iff.mpr hguard')) r)

/-- A guarded rule whose guards are listed in another order. -/
structure SameForward (context : EvaluationContext) (horizon : Nat)
    (item item' : GuardedForwardInstance) : Prop where
  antecedent : item.antecedent = item'.antecedent
  consequent : item.consequent = item'.consequent
  guards : context.Holds item.antecedent →
    SameGuards context horizon item.predicates item'.predicates

structure SameCandidate (context : EvaluationContext) (horizon : Nat)
    (candidate candidate' : GuardedSupportCandidate) : Prop where
  expression : candidate.expression = candidate'.expression
  guards : context.Holds candidate.expression →
    SameGuards context horizon candidate.predicates candidate'.predicates

structure SameSupport (context : EvaluationContext) (horizon : Nat)
    (item item' : GuardedSupportInstance) : Prop where
  antecedent : item.antecedent = item'.antecedent
  supports : context.Holds item.antecedent →
    List.Forall₂ (SameCandidate context horizon) item.supports item'.supports

theorem checkForward_agree (hsim : SameSim sim sim') {item item' : GuardedForwardInstance}
    (h : SameForward context horizon item item') :
    Agree (fun _ _ => True) (checkForward context horizon initial sim item)
      (checkForward context horizon initial sim' item') := by
  have hstates : ∀ reason reason', SameResult (.rejected reason initial sim.state sim.steps)
      (.rejected reason' initial sim'.state sim'.steps) :=
    fun _ _ => .rejected (SameCells.refl _) hsim.state hsim.steps
  unfold checkForward
  rw [← h.antecedent, ← h.consequent]
  refine (Agree.mapError _).bind ?_
  rintro antecedent _ hantecedent - rfl
  rcases antecedent with _ | v
  · exact .rejected (hstates _ _)
  by_cases hv : v = .bool true
  · subst hv
    refine (guards_agree hsim (h.guards (mapError_eq_ok.mp hantecedent))).bind ?_
    rintro guards _ - - rfl
    cases guards with
    | false => exact .ok trivial
    | true =>
        refine (Agree.mapError _).bind ?_
        rintro consequent _ - - rfl
        show Agree _ (if consequent.isTrue then _ else _) (if consequent.isTrue then _ else _)
        split_ifs
        · exact .ok trivial
        · exact .rejected (hstates _ _)
  · split
    · rename_i heq
      cases heq
    · rename_i heq
      cases heq
      exact absurd rfl hv
    · exact .ok trivial

theorem supported_agree (hsim : SameSim sim sim') {label label' : String}
    {candidates candidates' : List GuardedSupportCandidate}
    (h : List.Forall₂ (SameCandidate context horizon) candidates candidates') :
    Agree (fun a b => a = b) (supported context horizon initial sim label candidates)
      (supported context horizon initial sim' label' candidates') := by
  induction h with
  | nil => exact .ok rfl
  | @cons candidate candidate' _ _ hcandidate _ ih =>
      rw [supported, supported, ← hcandidate.expression]
      refine (Agree.mapError _).bind ?_
      rintro expression _ hexpression - rfl
      by_cases htrue : expression.isTrue = true
      · rw [if_pos htrue, if_pos htrue]
        have hholds : context.Holds candidate.expression := by
          rw [Result.isTrue, decide_eq_true_eq] at htrue
          rw [htrue] at hexpression
          exact mapError_eq_ok.mp hexpression
        refine (guards_agree hsim (hcandidate.guards hholds)).bind ?_
        rintro guards _ - - rfl
        cases guards with
        | true => exact .ok rfl
        | false => exact ih
      · rw [if_neg htrue, if_neg htrue]
        exact ih

theorem checkSupport_agree (hsim : SameSim sim sim') {item item' : GuardedSupportInstance}
    (h : SameSupport context horizon item item') :
    Agree (fun _ _ => True) (checkSupport context horizon initial sim item)
      (checkSupport context horizon initial sim' item') := by
  have hstates : ∀ reason reason', SameResult (.rejected reason initial sim.state sim.steps)
      (.rejected reason' initial sim'.state sim'.steps) :=
    fun _ _ => .rejected (SameCells.refl _) hsim.state hsim.steps
  unfold checkSupport
  rw [← h.antecedent]
  refine (Agree.mapError _).bind ?_
  rintro antecedent _ hantecedent - rfl
  rcases antecedent with _ | v
  · exact .rejected (hstates _ _)
  by_cases hv : v = .bool true
  · subst hv
    refine (supported_agree hsim (h.supports (mapError_eq_ok.mp hantecedent))).bind ?_
    rintro found _ - - rfl
    cases found with
    | true => exact .ok trivial
    | false => exact .rejected (hstates _ _)
  · split
    · rename_i heq
      cases heq
    · rename_i heq
      cases heq
      exact absurd rfl hv
    · exact .ok trivial

end Guards

end StateCheck

open StateCheck

/-! ## Problems listed in another order -/

/-- The requirements, updates and guarded rules of a problem, listed in another
order; the guards of one rule may be permuted too, as far as they can be judged. -/
structure Relisted (context : EvaluationContext) (problem problem' : BoundedProblem) : Prop where
  events : problem'.events = problem.events
  horizon : problem'.spec.horizon = problem.spec.horizon
  cells : problem'.spec.stateVariables = problem.spec.stateVariables
  requirements : problem.stateRequirements.Perm problem'.stateRequirements
  updates : problem.stateUpdates.Perm problem'.stateUpdates
  forwards : ∃ items, List.Forall₂ (SameForward context problem.spec.horizon)
    problem.guardedForwards items ∧ items.Perm problem'.guardedForwards
  supports : ∃ items, List.Forall₂ (SameSupport context problem.spec.horizon)
    problem.guardedSupports items ∧ items.Perm problem'.guardedSupports

section Relisted

variable {problem problem' : BoundedProblem} {context : EvaluationContext}

/-- A loop over related elements in another order. -/
theorem forM_agree {α : Type} {rel : α → α → Prop} {f g : α → Except StateAbort PUnit}
    {l items l' : List α} (hrel : List.Forall₂ rel l items) (hperm : items.Perm l')
    (hone : ∀ a b, rel a b → Agree (fun _ _ => True) (f a) (g b))
    (hsame : ∀ a b r r', f a = .error (.infeasible r) → g b = .error (.infeasible r') →
      SameResult r r') : Agree (fun _ _ => True) (l.forM f) (l'.forM g) := by
  refine Agree.forM (R := fun _ _ => True) (fun a ha => ?_) (fun b hb => ?_) hsame
  · obtain ⟨b, hb, hab⟩ := exists_right_of_forall₂ hrel ha
    exact ⟨b, hperm.mem_iff.mp hb, hone a b hab⟩
  · obtain ⟨a, ha, hab⟩ := exists_left_of_forall₂ hrel (hperm.mem_iff.mpr hb)
    exact ⟨a, ha, hone a b hab⟩

/-- Listing the effects and the guarded rules in another order gives the same
verdict and the same states, unless an evaluation raises. -/
theorem simulateState_agree (h : Relisted context problem problem') :
    Agree SameResult (simulateState problem context) (simulateState problem' context) := by
  unfold simulateState
  simp only [h.horizon, h.cells]
  have hinitial : Agree (fun a b => a = b) (initialState context problem.spec.stateVariables)
      (initialState context problem.spec.stateVariables) := by
    cases hstate : initialState context problem.spec.stateVariables with
    | ok state => exact .ok rfl
    | error abort =>
        cases abort with
        | raised e => exact .raisedLeft e _
        | infeasible r =>
            have hrejected : RejectedWith .empty .empty [] (.infeasible r) :=
              raises_initialState (fun _ => trivial) (fun reason => ⟨reason, rfl⟩) _ _ hstate
            exact .rejected (hrejected.same hrejected (SameCells.refl _) .nil)
  refine hinitial.bind ?_
  rintro initial _ - - rfl
  have heffect : ∀ {r r' : StateCheckResult},
      RejectedWith initial .empty [] (.infeasible r) →
      RejectedWith initial .empty [] (.infeasible r') → SameResult r r' :=
    fun hr hr' => hr.same hr' (SameCells.refl _) .nil
  refine (Agree.mapM h.requirements (fun a b r r' hr hr' => ?_)).bind
    (fun requirements requirements' _ _ hrequirements => ?_)
  · exact heffect (raises_activeRequirement (fun _ => trivial) (fun reason => ⟨reason, rfl⟩) a _ hr)
      (raises_activeRequirement (fun _ => trivial) (fun reason => ⟨reason, rfl⟩) b _ hr')
  refine (Agree.mapM h.updates (fun a b r r' hr hr' => ?_)).bind
    (fun updates updates' _ _ hupdates => ?_)
  · exact heffect (raises_activeUpdate (fun _ => trivial) (fun reason => ⟨reason, rfl⟩) a _ hr)
      (raises_activeUpdate (fun _ => trivial) (fun reason => ⟨reason, rfl⟩) b _ hr')
  refine (simulate_agree _ (hrequirements.filterMap id) (hupdates.filterMap id)).bind
    (fun sim sim' _ _ hsim => ?_)
  have hguard : ∀ {r r' : StateCheckResult},
      RejectedWith initial sim.state sim.steps (.infeasible r) →
      RejectedWith initial sim'.state sim'.steps (.infeasible r') → SameResult r r' :=
    fun hr hr' => hr.same hr' hsim.state hsim.steps
  obtain ⟨forwards, hforwards, hforwardsPerm⟩ := h.forwards
  obtain ⟨supports, hsupports, hsupportsPerm⟩ := h.supports
  refine (forM_agree hforwards hforwardsPerm (fun _ _ => checkForward_agree hsim)
    (fun a b r r' hr hr' => ?_)).bind (fun _ _ _ _ _ => ?_)
  · exact hguard (raises_checkForward (fun _ => trivial) (fun reason => ⟨reason, rfl⟩) a _ hr)
      (raises_checkForward (fun _ => trivial) (fun reason => ⟨reason, rfl⟩) b _ hr')
  refine (forM_agree hsupports hsupportsPerm (fun _ _ => checkSupport_agree hsim)
    (fun a b r r' hr hr' => ?_)).bind (fun _ _ _ _ _ => ?_)
  · exact hguard (raises_checkSupport (fun _ => trivial) (fun reason => ⟨reason, rfl⟩) a _ hr)
      (raises_checkSupport (fun _ => trivial) (fun reason => ⟨reason, rfl⟩) b _ hr')
  exact .ok ⟨rfl, SameCells.refl _, hsim.state, hsim.steps⟩

/-- Two runs of the check that return have the same verdict and the same states. -/
theorem checkStateSemantics_same {interpreter : Interpreter} {assignment : Dict String Value}
    (h : Relisted (problem.context interpreter assignment) problem problem')
    {result result' : StateCheckResult}
    (hresult : checkStateSemantics problem interpreter assignment = .ok result)
    (hresult' : checkStateSemantics problem' interpreter assignment = .ok result') :
    SameResult result result' := by
  have hcontext : problem'.context interpreter assignment =
      problem.context interpreter assignment := by
    unfold BoundedProblem.context BoundedProblem.eventMap
    rw [h.events]
  have hagree := simulateState_agree h
  unfold checkStateSemantics at hresult hresult'
  rw [hcontext] at hresult'
  generalize simulateState problem (problem.context interpreter assignment) = x at hagree hresult
  generalize simulateState problem' (problem.context interpreter assignment) = y at hagree hresult'
  cases hagree with
  | ok hsame =>
      cases hresult
      cases hresult'
      exact hsame
  | rejected hsame =>
      cases hresult
      cases hresult'
      exact hsame
  | raisedLeft e y => cases hresult
  | raisedRight x e => cases hresult'

end Relisted

end Umcm
