import Mathlib.Data.Fintype.Basic
import Mathlib.Tactic.FinCases

/-!
# Admissions to a file of two entries

What a request sees of the file: the head, and whether each entry is free, has
its block, has its set and was allocated for a write. A file that never holds
one set twice answers every request in exactly one way.

* `enabled_iff`: the answer is unique.
-/

namespace Umcm

namespace Boom

namespace Allocator

/-- The file has entries. -/
scoped instance (priority := high) twoEntries : @NeZero Nat Zero.ofOfNat0 2 := Nat.instNeZeroSucc

/-- The intents of a request and of the entry that it joins. -/
inductive Readiness where
  | noIntentAfterNoIntent
  | noIntentAfterWriteIntent
  | writeIntentAfterWriteIntent
deriving DecidableEq, Repr

/-- The answers to a request. -/
inductive Choice where
  | emptyHead (entry : Fin 2)
  | onlyFree (entry : Fin 2)
  | secondary (entry : Fin 2) (readiness : Readiness)
  | indexConflict (entry : Fin 2)
  | allBusy
  | secondAcquire (entry : Fin 2)
  | probe (entry : Fin 2)
deriving DecidableEq, Repr

/-- An entry, as a request sees it. -/
structure EntryView where
  free : Bool
  sameBlock : Bool
  sameSet : Bool
  intent : Bool

/-- The file, as a request sees it. -/
structure View where
  head : Fin 2
  entry : Fin 2 → EntryView
  isProbe : Bool
  isLoad : Bool

namespace View

/-- The entry with the block has its set and is busy, and busy entries do not share a set. -/
structure WellFormed (view : View) : Prop where
  busy : ∀ i, (view.entry i).sameBlock = true → (view.entry i).free = false
  set : ∀ i, (view.entry i).sameBlock = true → (view.entry i).sameSet = true
  apart : (view.entry 0).free = false → (view.entry 1).free = false →
    ¬ ((view.entry 0).sameSet = true ∧ (view.entry 1).sameSet = true)

/-- The entry is busy with the set of the request. -/
def conflicts (view : View) (i : Fin 2) : Bool :=
  !(view.entry i).free && (view.entry i).sameSet

/-- The answer when an entry is busy with the set. -/
def answerAt (view : View) (i : Fin 2) : Choice :=
  if !(view.entry i).sameBlock then .indexConflict i
  else if view.isProbe then .probe i
  else if view.isLoad then
    .secondary i (if (view.entry i).intent then .noIntentAfterWriteIntent
      else .noIntentAfterNoIntent)
  else if (view.entry i).intent then .secondary i .writeIntentAfterWriteIntent
  else .secondAcquire i

/-- The answer to the request. -/
def answer (view : View) : Choice :=
  if view.conflicts 0 then view.answerAt 0
  else if view.conflicts 1 then view.answerAt 1
  else if (view.entry 0).free && (view.entry 1).free then .emptyHead view.head
  else if (view.entry 0).free then .onlyFree 0
  else if (view.entry 1).free then .onlyFree 1
  else .allBusy

end View

/-- The conditions of an answer. -/
def Choice.Enabled (view : View) : Choice → Prop
  | emptyHead i => view.head = i ∧ (view.entry 0).free = true ∧ (view.entry 1).free = true
  | onlyFree i => (view.entry i).free = true ∧ (view.entry (1 - i)).free = false ∧
      (view.entry (1 - i)).sameSet = false
  | secondary i .noIntentAfterNoIntent => view.isProbe = false ∧ view.isLoad = true ∧
      (view.entry i).sameBlock = true ∧ (view.entry i).intent = false
  | secondary i .noIntentAfterWriteIntent => view.isProbe = false ∧ view.isLoad = true ∧
      (view.entry i).sameBlock = true ∧ (view.entry i).intent = true
  | secondary i .writeIntentAfterWriteIntent => view.isProbe = false ∧ view.isLoad = false ∧
      (view.entry i).sameBlock = true ∧ (view.entry i).intent = true
  | indexConflict i => (view.entry i).free = false ∧ (view.entry i).sameBlock = false ∧
      (view.entry i).sameSet = true
  | allBusy => (view.entry 0).free = false ∧ (view.entry 1).free = false ∧
      (view.entry 0).sameSet = false ∧ (view.entry 1).sameSet = false
  | secondAcquire i => view.isProbe = false ∧ view.isLoad = false ∧
      (view.entry i).sameBlock = true ∧ (view.entry i).intent = false
  | probe i => view.isProbe = true ∧ (view.entry i).sameBlock = true

/-- A question about the file. -/
inductive Guard where
  | headIs (entry : Fin 2)
  | isFree (entry : Fin 2)
  | isBusy (entry : Fin 2)
  | sameBlock (entry : Fin 2)
  | otherBlock (entry : Fin 2)
  | sameSet (entry : Fin 2)
  | otherSet (entry : Fin 2)
  | intentIs (entry : Fin 2) (value : Bool)
deriving DecidableEq, Repr

def Guard.holds (view : View) : Guard → Bool
  | headIs i => view.head = i
  | isFree i => (view.entry i).free
  | isBusy i => !(view.entry i).free
  | sameBlock i => (view.entry i).sameBlock
  | otherBlock i => !(view.entry i).sameBlock
  | sameSet i => (view.entry i).sameSet
  | otherSet i => !(view.entry i).sameSet
  | intentIs i value => (view.entry i).intent = value

/-- What an answer asks of the file. -/
def Choice.guards : Choice → List Guard
  | emptyHead i => [.headIs i, .isFree 0, .isFree 1]
  | onlyFree 0 => [.isFree 0, .isBusy 1, .otherSet 1]
  | onlyFree 1 => [.isBusy 0, .isFree 1, .otherSet 0]
  | secondary i .noIntentAfterNoIntent => [.sameBlock i, .intentIs i false]
  | secondary i .noIntentAfterWriteIntent => [.sameBlock i, .intentIs i true]
  | secondary i .writeIntentAfterWriteIntent => [.sameBlock i, .intentIs i true]
  | indexConflict i => [.isBusy i, .otherBlock i, .sameSet i]
  | allBusy => [.isBusy 0, .isBusy 1, .otherSet 0, .otherSet 1]
  | secondAcquire i => [.sameBlock i, .intentIs i false]
  | probe i => [.sameBlock i]

/-- The requests that an answer is for. -/
def Choice.suits (view : View) : Choice → Bool
  | secondary _ .noIntentAfterNoIntent => !view.isProbe && view.isLoad
  | secondary _ .noIntentAfterWriteIntent => !view.isProbe && view.isLoad
  | secondary _ .writeIntentAfterWriteIntent => !view.isProbe && !view.isLoad
  | secondAcquire _ => !view.isProbe && !view.isLoad
  | probe _ => view.isProbe
  | _ => true

variable {view : View} {i : Fin 2}

theorem enabled_answerAt (h : view.conflicts i = true) : (view.answerAt i).Enabled view := by
  rw [View.conflicts, Bool.and_eq_true, Bool.not_eq_true'] at h
  unfold View.answerAt
  split_ifs <;> simp_all [Choice.Enabled]

/-- The conditions of the answer hold. -/
theorem enabled_answer : view.answer.Enabled view := by
  unfold View.answer
  split_ifs with h0 h1 hboth hfree0 hfree1
  · exact enabled_answerAt h0
  · exact enabled_answerAt h1
  · exact ⟨rfl, by simpa using hboth⟩
  · simp_all [Choice.Enabled, View.conflicts]
  · simp_all [Choice.Enabled, View.conflicts]
  · simp_all [Choice.Enabled, View.conflicts]

/-- The conditions of an answer are about the request and about the file. -/
theorem enabled_iff_guards {choice : Choice} : choice.Enabled view ↔
    choice.suits view = true ∧ ∀ guard ∈ choice.guards, guard.holds view = true := by
  rcases choice with i | i | ⟨i, _ | _ | _⟩ | i | _ | i | i
  case onlyFree =>
    fin_cases i <;> simp [Choice.Enabled, Choice.suits, Choice.guards, Guard.holds]
    tauto
  all_goals simp [Choice.Enabled, Choice.suits, Choice.guards, Guard.holds, and_assoc]

theorem conflicts_of_sameBlock (h : view.WellFormed) (hblock : (view.entry i).sameBlock = true) :
    view.conflicts i = true := by
  rw [View.conflicts, h.busy i hblock, h.set i hblock]
  rfl

/-- One entry at most conflicts, and it gives the answer. -/
theorem answer_of_conflicts (h : view.WellFormed) (hi : view.conflicts i = true) :
    view.answer = view.answerAt i := by
  unfold View.answer
  fin_cases i
  · exact if_pos hi
  · have h0 : view.conflicts 0 = false := by
      by_contra hne
      have hapart := h.apart
      simp_all [View.conflicts]
    rw [h0]
    exact if_pos hi

/-- An answer whose conditions hold is the answer. -/
theorem eq_answer_of_enabled (h : view.WellFormed) {choice : Choice}
    (henabled : choice.Enabled view) : choice = view.answer := by
  cases choice with
  | emptyHead i =>
      obtain ⟨rfl, h0, h1⟩ := henabled
      simp [View.answer, View.conflicts, h0, h1]
  | onlyFree i =>
      obtain ⟨hfree, hbusy, hset⟩ := henabled
      fin_cases i <;> simp_all [View.answer, View.conflicts]
  | secondary i readiness =>
      have hblock : (view.entry i).sameBlock = true := by
        cases readiness <;> exact henabled.2.2.1
      rw [answer_of_conflicts h (conflicts_of_sameBlock h hblock)]
      cases readiness <;> simp_all [Choice.Enabled, View.answerAt]
  | indexConflict i =>
      obtain ⟨hbusy, hblock, hset⟩ := henabled
      rw [answer_of_conflicts h (i := i) (by simp [View.conflicts, hbusy, hset])]
      simp [View.answerAt, hblock]
  | allBusy =>
      obtain ⟨h0, h1, hs0, hs1⟩ := henabled
      simp [View.answer, View.conflicts, h0, h1, hs0, hs1]
  | secondAcquire i =>
      obtain ⟨hprobe, hload, hblock, hintent⟩ := henabled
      rw [answer_of_conflicts h (conflicts_of_sameBlock h hblock)]
      simp [View.answerAt, hprobe, hload, hblock, hintent]
  | probe i =>
      obtain ⟨hprobe, hblock⟩ := henabled
      rw [answer_of_conflicts h (conflicts_of_sameBlock h hblock)]
      simp [View.answerAt, hprobe, hblock]

/-- A request has exactly one answer. -/
theorem enabled_iff (h : view.WellFormed) {choice : Choice} :
    choice.Enabled view ↔ choice = view.answer :=
  ⟨eq_answer_of_enabled h, fun heq => heq ▸ enabled_answer⟩

end Allocator

end Boom

end Umcm
