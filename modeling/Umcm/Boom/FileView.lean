import Umcm.Boom.Allocation

/-!
# What an admission sees

The cells of the MSHR file before a cycle, as a request sees them: the guards of
the rules are the questions about the view, and the rules are for the requests
that suit their answer.

* `holds_of_meets`, `holds_when`: a rule asks what its answer asks.
-/

namespace Umcm

namespace Boom

open EvaluationContext

namespace Allocator

/-- The file before the cycle, as the request sees it. -/
def viewAt (pre : CellStates) (c : Nat) (req : Req) : View where
  head := if CellIs pre c head (idOf 1) then 1 else 0
  entry i :=
    { free := CellIs pre c (block i) emptyAddr
      sameBlock := CellIs pre c (block i) req.blockAddress
      sameSet := CellIs pre c (set i) req.setIndex
      intent := CellIs pre c (intent i) (.bool true) }
  isProbe := req.isProbe
  isLoad := req.memKind.key = (Value.str "load").key

/-- The head is an entry and the intents are truth values. -/
structure Typed (pre : CellStates) (c : Nat) : Prop where
  head : CellIs pre c head (idOf 0) ∨ CellIs pre c head (idOf 1)
  intent : ∀ i, CellIs pre c (intent i) (.bool true) ∨ CellIs pre c (intent i) (.bool false)

/-- The event has the fields of the request. -/
structure Carried (context : EvaluationContext) (req : Req) (a : String) : Prop where
  opId : context.Reads a "op_id" req.opId
  blockAddress : context.Reads a "block_address" req.blockAddress
  setIndex : context.Reads a "set_index" req.setIndex
  memKind : context.Reads a "mem_kind" req.memKind
  isProbe : context.Reads a "is_probe" (.bool req.isProbe)

/-- `MEM_KINDS` -/
def memKinds : List String := ["load", "store", "lr", "sc", "amo"]

section View

variable {pre : CellStates} {c : Nat} {req : Req}

theorem idOf_inj {i j : Fin 2} (h : (idOf i).key = (idOf j).key) : i = j := by
  fin_cases i <;> fin_cases j
  · rfl
  · exact absurd h (by decide)
  · exact absurd h (by decide)
  · rfl

theorem head_viewAt (h : Typed pre c) {i : Fin 2} :
    (viewAt pre c req).head = i ↔ CellIs pre c head (idOf i) := by
  have hhead := h.head
  unfold viewAt
  fin_cases i
  · -- the head is not both 0 and 1
    by_cases h1 : CellIs pre c head (idOf 1)
    · have h0 : ¬ CellIs pre c head (idOf 0) := fun h0 => absurd (h0.unique h1) (by decide)
      simp [h1, h0]
    · simpa [h1] using hhead
  · by_cases h1 : CellIs pre c head (idOf 1) <;> simp [h1]

theorem intent_viewAt (h : Typed pre c) {i : Fin 2} {value : Bool} :
    ((viewAt pre c req).entry i).intent = value ↔ CellIs pre c (intent i) (.bool value) := by
  change decide (CellIs pre c (intent i) (.bool true)) = value ↔ _
  cases value
  · rw [decide_eq_false_iff_not]
    constructor
    · exact fun hnot => (h.intent i).resolve_left hnot
    · exact fun hfalse => hfalse.not_true
  · exact decide_eq_true_iff

variable {context : EvaluationContext} {horizon : Nat} {b : RoleBinding} {a : String}

/-- A requirement is met when the answer to its question is yes. -/
theorem Guard.holds_of_meets {guard : Guard} (htyped : Typed pre c)
    (ha : b.apply "admission" = a) (hcarried : Carried context req a) (hc : context.AtCycle a c)
    {result : Bool} (h : guard.requirement.Meets context horizon pre b result) :
    guard.holds (viewAt pre c req) = result := by
  rw [← ha] at hc
  have hblock : context.evaluate (b.instantiate
      (.eventField "admission" "block_address" addressSort)) = .ok (some req.blockAddress) := by
    rw [RoleBinding.instantiate_eventField, evaluate_eventField, ha]
    exact hcarried.blockAddress
  have hset : context.evaluate (b.instantiate
      (.eventField "admission" "set_index" .int)) = .ok (some req.setIndex) := by
    rw [RoleBinding.instantiate_eventField, evaluate_eventField, ha]
    exact hcarried.setIndex
  have hliteral : ∀ (v : Value) (sort : IrSort),
      context.evaluate (b.instantiate (.literal v sort)) = .ok (some v) := by
    intro v sort
    rw [RoleBinding.instantiate_literal, evaluate_literal]
  cases guard with
  | headIs i =>
      have hiff := h.eq_iff rfl hc (hliteral _ _)
      rw [← hiff]
      exact decide_eq_decide.mpr (head_viewAt htyped)
  | isFree i => exact h.eq_iff rfl hc (hliteral _ _)
  | isBusy i => exact h.ne_iff rfl hc (hliteral _ _)
  | sameBlock i => exact h.eq_iff rfl hc hblock
  | otherBlock i => exact h.ne_iff rfl hc hblock
  | sameSet i => exact h.eq_iff rfl hc hset
  | otherSet i => exact h.ne_iff rfl hc hset
  | intentIs i value =>
      have hiff := h.eq_iff rfl hc (hliteral _ _)
      rw [← hiff]
      exact decide_eq_decide.mpr (intent_viewAt htyped)

/-! ## Requests -/

theorem holds_kindIs (ha : b.apply "admission" = a) (hcarried : Carried context req a)
    {kind : String} : context.Holds (b.instantiate (kindIs kind)) ↔
      req.memKind.key = (Value.str kind).key := by
  rw [kindIs, holds_fieldIs, ha]
  constructor
  · exact fun h => (show context.Carries a "mem_kind" req.memKind from
      ⟨_, hcarried.memKind, rfl⟩).unique h
  · exact fun h => ⟨_, hcarried.memKind, h⟩

theorem returns_kindIs (ha : b.apply "admission" = a) (hcarried : Carried context req a)
    {kind : String} : context.Returns (b.instantiate (kindIs kind)) := by
  rw [kindIs, fieldIs, RoleBinding.instantiate_binary, RoleBinding.instantiate_eventField,
    RoleBinding.instantiate_literal, returns_eq, ha]
  exact ⟨⟨_, by rw [evaluate_eventField]; exact hcarried.memKind⟩, returns_literal⟩

theorem holds_writeIntent (ha : b.apply "admission" = a) (hcarried : Carried context req a) :
    context.Holds (b.instantiate writeIntent) ↔
      ∃ kind ∈ ["store", "lr", "sc", "amo"], req.memKind.key = (Value.str kind).key := by
  have hoperands : writeIntent = .nary .or (["store", "lr", "sc", "amo"].map kindIs) := rfl
  rw [hoperands, RoleBinding.instantiate_nary, List.map_map, holds_or]
  · constructor
    · rintro ⟨e, he, h⟩
      obtain ⟨kind, hkind, rfl⟩ := List.mem_map.mp he
      exact ⟨kind, hkind, (holds_kindIs ha hcarried).mp h⟩
    · rintro ⟨kind, hkind, h⟩
      exact ⟨_, List.mem_map_of_mem hkind, (holds_kindIs ha hcarried).mpr h⟩
  · intro e he
    obtain ⟨kind, -, rfl⟩ := List.mem_map.mp he
    exact returns_kindIs ha hcarried

/-- A request of one of the five kinds is a load or has a write intent. -/
theorem holds_writeIntent_iff (ha : b.apply "admission" = a) (hcarried : Carried context req a)
    (hkind : ∃ kind ∈ memKinds, req.memKind.key = (Value.str kind).key) :
    context.Holds (b.instantiate writeIntent) ↔ (viewAt pre c req).isLoad = false := by
  rw [holds_writeIntent ha hcarried]
  change _ ↔ decide (req.memKind.key = (Value.str "load").key) = false
  rw [decide_eq_false_iff_not]
  constructor
  · rintro ⟨kind, hmem, hkey⟩ hload
    rw [hkey] at hload
    fin_cases hmem <;> exact absurd hload (by decide)
  · intro hload
    obtain ⟨kind, hmem, hkey⟩ := hkind
    rcases List.mem_cons.mp hmem with rfl | hmem
    · exact absurd hkey hload
    · exact ⟨kind, hmem, hkey⟩

theorem holds_isProbe (ha : b.apply "admission" = a) (hcarried : Carried context req a) :
    context.Holds (b.instantiate (flag "admission" "is_probe")) ↔ req.isProbe = true := by
  rw [holds_flag, ha]
  constructor
  · intro h
    have heq := h.unique hcarried.isProbe
    simpa using heq.symm
  · intro h
    rw [← h]
    exact hcarried.isProbe

theorem holds_noProbe (ha : b.apply "admission" = a) (hcarried : Carried context req a) :
    context.Holds (b.instantiate noProbe) ↔ req.isProbe = false := by
  rw [noProbe, holds_isNot_flag, ha]
  constructor
  · rintro ⟨v, hv, hfalse⟩
    cases hv.unique hcarried.isProbe
    exact hfalse
  · intro h
    exact ⟨_, hcarried.isProbe, h⟩

theorem holds_reqMatch (ha : b.apply "admission" = a) (hcarried : Carried context req a) :
    context.Holds (b.instantiate (reqMatch req)) := by
  rw [reqMatch, ofReq, holds_fieldIs, ha]
  exact ⟨_, hcarried.opId, rfl⟩

/-- The rule of an answer is for the requests that suit the answer. -/
theorem Choice.holds_when {choice : Choice} {index : Nat} (ha : b.apply "admission" = a)
    (hcarried : Carried context req a)
    (hkind : ∃ kind ∈ memKinds, req.memKind.key = (Value.str kind).key) :
    context.Holds (b.instantiate (choice.rule req index).when) ↔
      choice.suits (viewAt pre c req) = true := by
  have hmatch := holds_reqMatch ha hcarried
  have hprobe := holds_isProbe ha hcarried
  have hnoProbe := holds_noProbe ha hcarried
  have hload : context.Holds (b.instantiate (kindIs "load")) ↔
      (viewAt pre c req).isLoad = true :=
    (holds_kindIs ha hcarried).trans decide_eq_true_iff.symm
  have hwrite : context.Holds (b.instantiate writeIntent) ↔ (viewAt pre c req).isLoad = false :=
    holds_writeIntent_iff ha hcarried hkind
  have hisProbe : (viewAt pre c req).isProbe = req.isProbe := rfl
  have hloads : context.Holds (b.instantiate (loadRequest req)) ↔
      req.isProbe = false ∧ (viewAt pre c req).isLoad = true := by
    rw [loadRequest, holds_allOf]
    simp [hmatch, hnoProbe, hload]
  have hwrites : context.Holds (b.instantiate (writeIntentRequest req)) ↔
      req.isProbe = false ∧ (viewAt pre c req).isLoad = false := by
    rw [writeIntentRequest, holds_allOf]
    simp [hmatch, hnoProbe, hwrite]
  have hprobes : context.Holds (b.instantiate (probeRequest req)) ↔ req.isProbe = true := by
    rw [probeRequest, holds_allOf]
    simp [hmatch, hprobe]
  rcases choice with i | i | ⟨i, _ | _ | _⟩ | i | _ | i | i
  case onlyFree =>
    fin_cases i <;> exact ⟨fun _ => rfl, fun _ => hmatch⟩
  case emptyHead => exact ⟨fun _ => rfl, fun _ => hmatch⟩
  case indexConflict => exact ⟨fun _ => rfl, fun _ => hmatch⟩
  case allBusy => exact ⟨fun _ => rfl, fun _ => hmatch⟩
  case probe => exact hprobes
  case secondAcquire => exact hwrites.trans (by simp [suits, hisProbe])
  case secondary.noIntentAfterNoIntent => exact hloads.trans (by simp [suits, hisProbe])
  case secondary.noIntentAfterWriteIntent => exact hloads.trans (by simp [suits, hisProbe])
  case secondary.writeIntentAfterWriteIntent => exact hwrites.trans (by simp [suits, hisProbe])

end View

end Allocator

end Boom

end Umcm
