import Umcm.Boom.Admission
import Umcm.Boom.Allocator
import Umcm.Composition.Guarded

/-!
# Allocation

The answers of the MSHR file, as rules and slots of the module.
-/

namespace Umcm

namespace Boom

open EvaluationContext

namespace Allocator

/-! ## Rules and slots of the answers -/

namespace Readiness

def name : Readiness → String
  | noIntentAfterNoIntent => "no-intent-after-no-intent"
  | noIntentAfterWriteIntent => "no-intent-after-write-intent"
  | writeIntentAfterWriteIntent => "write-intent-after-write-intent"

def short : Readiness → String
  | noIntentAfterNoIntent => "nn"
  | noIntentAfterWriteIntent => "nw"
  | writeIntentAfterWriteIntent => "ww"

end Readiness

/-- The requirement that asks a question about the file. -/
def Guard.requirement : Guard → StateRequirement.Fields
  | .headIs i => Allocator.headIs i
  | .isFree i => Allocator.isFree i
  | .isBusy i => Allocator.isBusy i
  | .sameBlock i => Allocator.sameBlock i
  | .otherBlock i => Allocator.otherBlock i
  | .sameSet i => Allocator.sameSet i
  | .otherSet i => Allocator.otherSet i
  | .intentIs i value => Allocator.intentIs i value

namespace Choice

/-- The rule that gives the answer. -/
def rule (req : Req) (index : Nat) : Choice → ModuleRule.Fields
  | emptyHead i => selectEmptyHead i req index
  | onlyFree 0 => selectOnly0Free req index
  | onlyFree 1 => selectOnly1Free req index
  | secondary i .noIntentAfterNoIntent => selectSecondaryNoIntentAfterNoIntent i req index
  | secondary i .noIntentAfterWriteIntent => selectSecondaryNoIntentAfterWriteIntent i req index
  | secondary i .writeIntentAfterWriteIntent =>
      selectSecondaryWriteIntentAfterWriteIntent i req index
  | indexConflict i => blockIndexConflict i req index
  | allBusy => blockAllBusy req index
  | secondAcquire i => blockSecondAcquire i req index
  | probe i => blockProbe i req index

/-- The role and the type of the answer. -/
def output : Choice → String × String
  | emptyHead _ => ("permit", "MSHRFile.PrimaryPermit")
  | onlyFree _ => ("permit", "MSHRFile.PrimaryPermit")
  | secondary _ _ => ("permit", "MSHRFile.SecondaryPermit")
  | _ => ("blocked", "MSHRFile.RequestBlocked")

/-- The fields that tell the answer. -/
def label : Choice → List (String × Value)
  | emptyHead i => [("mshr_id", idOf i), ("allocation_case", .str ("empty-head-" ++ i.val.repr))]
  | onlyFree 0 => [("mshr_id", idOf 0), ("allocation_case", .str "only-0-free")]
  | onlyFree 1 => [("mshr_id", idOf 1), ("allocation_case", .str "only-1-free")]
  | secondary i readiness => [("mshr_id", idOf i), ("readiness_case", .str readiness.name)]
  | indexConflict i => [("reason", .str ("index-conflict-" ++ i.val.repr))]
  | allBusy => [("reason", .str "all-busy")]
  | secondAcquire i => [("reason", .str ("second-acquire-" ++ i.val.repr))]
  | probe i => [("reason", .str ("probe-" ++ i.val.repr))]

/-- The slot of the answer. -/
def stem : Choice → String
  | emptyHead i => "permit_empty_h" ++ i.val.repr
  | onlyFree i => "permit_only_" ++ i.val.repr ++ "_free"
  | secondary i readiness => "secondary_permit_" ++ i.val.repr ++ "_" ++ readiness.short
  | indexConflict i => "blocked_index_" ++ i.val.repr
  | allBusy => "blocked_busy"
  | secondAcquire i => "blocked_secondary_" ++ i.val.repr
  | probe i => "blocked_probe_" ++ i.val.repr

variable {req : Req} {index : Nat} {choice : Choice}

theorem rule_mem (integrated : Bool) : choice.rule req index ∈ rules integrated req index := by
  rcases choice with i | i | ⟨i, _ | _ | _⟩ | i | _ | i | i <;>
    first
    | fin_cases i <;> simp [rule, rules]
    | simp [rule, rules]

/-- The rules of the answers are exact, guarded by the state, and take an
admission to the answer. -/
theorem rule_shape :
    (choice.rule req index).inputs = [("admission", "DCache.MSHRAdmissionRequest")] ∧
    (choice.rule req index).outputs = [choice.output] ∧
    (choice.rule req index).stateMode = .guard ∧ (choice.rule req index).isExact = true ∧
    (choice.rule req index).ensure = [sameCycle "admission" choice.output.1] ∧
    (choice.rule req index).stateUpdates = [] ∧
    ∀ r ∈ (choice.rule req index).stateRequirements, r.atRole = "admission" := by
  rcases choice with i | i | ⟨i, _ | _ | _⟩ | i | _ | i | i
  case onlyFree => fin_cases i <;> exact ⟨rfl, rfl, rfl, rfl, rfl, rfl, fun r hr => by
    fin_cases hr <;> rfl⟩
  all_goals exact ⟨rfl, rfl, rfl, rfl, rfl, rfl, fun r hr => by fin_cases hr <;> rfl⟩

theorem rule_requirements : (choice.rule req index).stateRequirements =
    choice.guards.map Guard.requirement := by
  rcases choice with i | i | ⟨i, _ | _ | _⟩ | i | _ | i | i
  case onlyFree => fin_cases i <;> rfl
  all_goals rfl

theorem output_ne : choice.output.1 ≠ "admission" := by
  rcases choice with i | i | i | i | _ | i | i <;> simp [output]

theorem label_names : ∀ p ∈ ("op_id", req.opId) :: choice.label,
    p.1 ≠ "occurs" ∧ p.1 ≠ "cycle" := by
  intro p hp
  rcases choice with i | i | i | i | _ | i | i
  case onlyFree => fin_cases i <;> fin_cases hp <;> simp
  all_goals fin_cases hp <;> simp

variable {context : EvaluationContext} {b : RoleBinding}

/-- What the scope of a rule says of its output. -/
theorem opId_of_scope (h : context.Holds (b.instantiate (choice.rule req index).outputWhen)) :
    context.Carries (b.apply choice.output.1) "op_id" req.opId := by
  rcases choice with i | i | ⟨i, _ | _ | _⟩ | i | _ | i | i
  all_goals
    first
    | fin_cases i
    | skip
  all_goals exact holds_fieldIs.mp (holds_allOf.mp h _ List.mem_cons_self)

/-- A rule is for the admissions of its request. -/
theorem opId_of_when (h : context.Holds (b.instantiate (choice.rule req index).when)) :
    context.Carries (b.apply "admission") "op_id" req.opId := by
  rcases choice with i | i | ⟨i, _ | _ | _⟩ | i | _ | i | i
  case onlyFree => fin_cases i <;> exact holds_fieldIs.mp h
  case emptyHead => exact holds_fieldIs.mp h
  case indexConflict => exact holds_fieldIs.mp h
  case allBusy => exact holds_fieldIs.mp h
  -- the other rules also ask for a load, a write intent or a probe
  all_goals exact holds_fieldIs.mp (holds_allOf.mp h _ List.mem_cons_self)

/-- An output with the fields of the answer is in the scope of its rule. -/
theorem scope_of_label (hid : context.Carries (b.apply choice.output.1) "op_id" req.opId)
    (hlabel : ∀ p ∈ choice.label, context.Carries (b.apply choice.output.1) p.1 p.2) :
    context.Holds (b.instantiate (choice.rule req index).outputWhen) := by
  rcases choice with i | i | ⟨i, _ | _ | _⟩ | i | _ | i | i
  all_goals
    first
    | fin_cases i
    | skip
  all_goals
    simp_all [label, output, rule, selectEmptyHead, selectPrimary, selectOnly0Free,
      selectOnly1Free, selectSecondary, selectSecondaryNoIntentAfterNoIntent,
      selectSecondaryNoIntentAfterWriteIntent, selectSecondaryWriteIntentAfterWriteIntent,
      blockRequest, blockIndexConflict, blockAllBusy, blockSecondAcquire, blockProbe, ofReq,
      entryIs, Readiness.name]

end Choice

/-- The slot of a request that leaves the file. -/
def requestStem (entry : Fin 2) (secondary : Bool) : String :=
  (if secondary then "allocated_secondary_" else "allocated_primary_") ++ entry.val.repr

section Slots

variable {req : Req} {index : Nat} {slot : EventSlot.Fields}

/-- The slot is that of the answer. -/
structure IsAnswer (req : Req) (index : Nat) (choice : Choice) (slot : EventSlot.Fields) : Prop where
  id : slot.id = indexed choice.stem index
  eventType : slot.eventType = choice.output.2
  fields : ∀ p ∈ ("op_id", req.opId) :: choice.label, (p.1, Term.value p.2) ∈ slot.fields

/-- A slot of a request is that of an answer or that of a request that leaves. -/
theorem slot_cases (hslot : slot ∈ slots req index) :
    (∃ choice, IsAnswer req index choice slot) ∨
      ∃ entry secondary, slot = requestSlot req (requestStem entry secondary) entry secondary
        index := by
  have hanswers : ∀ choice, IsAnswer req index choice slot →
      (∃ choice, IsAnswer req index choice slot) ∨
        ∃ entry secondary, slot = requestSlot req (requestStem entry secondary) entry secondary
          index := fun choice h => Or.inl ⟨choice, h⟩
  simp only [slots, List.mem_cons, List.not_mem_nil, or_false] at hslot
  rcases hslot with rfl | rfl | rfl | rfl | rfl | rfl | rfl | rfl | rfl | rfl | rfl | rfl | rfl |
    rfl | rfl | rfl | rfl | rfl | rfl | rfl | rfl
  · exact hanswers (.emptyHead 0) ⟨rfl, rfl, by simp [Choice.label, primaryPermitSlot]; rfl⟩
  · exact hanswers (.emptyHead 1) ⟨rfl, rfl, by simp [Choice.label, primaryPermitSlot]; rfl⟩
  · exact hanswers (.onlyFree 0) ⟨rfl, rfl, by simp [Choice.label, primaryPermitSlot]⟩
  · exact hanswers (.onlyFree 1) ⟨rfl, rfl, by simp [Choice.label, primaryPermitSlot]⟩
  · exact hanswers (.secondary 0 .noIntentAfterNoIntent)
      ⟨rfl, rfl, by simp [Choice.label, secondaryPermitSlot, Readiness.name]⟩
  · exact hanswers (.secondary 0 .noIntentAfterWriteIntent)
      ⟨rfl, rfl, by simp [Choice.label, secondaryPermitSlot, Readiness.name]⟩
  · exact hanswers (.secondary 0 .writeIntentAfterWriteIntent)
      ⟨rfl, rfl, by simp [Choice.label, secondaryPermitSlot, Readiness.name]⟩
  · exact hanswers (.secondary 1 .noIntentAfterNoIntent)
      ⟨rfl, rfl, by simp [Choice.label, secondaryPermitSlot, Readiness.name]⟩
  · exact hanswers (.secondary 1 .noIntentAfterWriteIntent)
      ⟨rfl, rfl, by simp [Choice.label, secondaryPermitSlot, Readiness.name]⟩
  · exact hanswers (.secondary 1 .writeIntentAfterWriteIntent)
      ⟨rfl, rfl, by simp [Choice.label, secondaryPermitSlot, Readiness.name]⟩
  · exact Or.inr ⟨0, false, rfl⟩
  · exact Or.inr ⟨1, false, rfl⟩
  · exact Or.inr ⟨0, true, rfl⟩
  · exact Or.inr ⟨1, true, rfl⟩
  · exact hanswers (.indexConflict 0) ⟨rfl, rfl, by simp [Choice.label, blockedSlot]; rfl⟩
  · exact hanswers (.indexConflict 1) ⟨rfl, rfl, by simp [Choice.label, blockedSlot]; rfl⟩
  · exact hanswers .allBusy ⟨rfl, rfl, by simp [Choice.label, blockedSlot]⟩
  · exact hanswers (.secondAcquire 0) ⟨rfl, rfl, by simp [Choice.label, blockedSlot]; rfl⟩
  · exact hanswers (.secondAcquire 1) ⟨rfl, rfl, by simp [Choice.label, blockedSlot]; rfl⟩
  · exact hanswers (.probe 0) ⟨rfl, rfl, by simp [Choice.label, blockedSlot]; rfl⟩
  · exact hanswers (.probe 1) ⟨rfl, rfl, by simp [Choice.label, blockedSlot]; rfl⟩

theorem slot_nodup (hslot : slot ∈ slots req index) : (slot.fields.map Prod.fst).Nodup := by
  simp only [slots, List.mem_cons, List.not_mem_nil, or_false] at hslot
  rcases hslot with rfl | rfl | rfl | rfl | rfl | rfl | rfl | rfl | rfl | rfl | rfl | rfl | rfl |
    rfl | rfl | rfl | rfl | rfl | rfl | rfl | rfl <;>
    simp [primaryPermitSlot, secondaryPermitSlot, requestSlot, blockedSlot]

end Slots

end Allocator

end Boom

end Umcm
