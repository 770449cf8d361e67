import Umcm.Boom.Catalog
import Umcm.Data.Timeline

/-!
# `mmio_core`

Uncacheable operations and the one outstanding access of the IOMSHR. The busy
cell is a lock that a request takes and a load response or a store completion
gives back; two requests of one cycle both see it free.

* `oneOutstanding_of_apart`: accesses do not overlap when requests do not share
  a cycle and operations end once.
-/

namespace Umcm

namespace Boom

open EvaluationContext

namespace Mmio

/-- An operation of `mmio_ops`. -/
structure Op where
  opId : Value
  hart : Value
  programIndex : Value
  robIdx : Value
  memKind : Value
  address : Value
  value : Value
  writeValue : Value
  byteMask : Value
  ioId : Value

/-! ## The module file -/

def busy : String := "IOMSHR.busy"

def slots (op : Op) (index : Nat) : List EventSlot.Fields :=
  [{ id := indexed "core_io_request" index, eventType := "IOMSHR.Request", required := false
     fields := [("op_id", .value op.opId), ("address", .value op.address),
       ("mem_kind", .value op.memKind), ("value", .value op.writeValue),
       ("io_id", .value op.ioId)] },
   { id := indexed "core_io_access" index, eventType := "IOMSHR.MemAccess", required := false
     fields := [("op_id", .value op.opId), ("address", .value op.address),
       ("mem_kind", .value op.memKind), ("io_id", .value op.ioId)] },
   { id := indexed "core_io_ack" index, eventType := "IOMSHR.MemAck", required := false
     fields := [("op_id", .value op.opId), ("value", .value op.value),
       ("io_id", .value op.ioId)] },
   { id := indexed "core_io_response" index, eventType := "IOMSHR.Response", required := false
     fields := [("op_id", .value op.opId), ("value", .value op.value),
       ("io_id", .value op.ioId)] },
   { id := indexed "mmio_complete" index, eventType := "Core.MemoryComplete", required := false
     fields := [("op_id", .value op.opId), ("hart", .value op.hart),
       ("program_index", .value op.programIndex), ("rob_idx", .value op.robIdx),
       ("mem_kind", .value op.memKind), ("address", .value op.address),
       ("value", .value op.value), ("write_value", .value op.writeValue),
       ("byte_mask", .value op.byteMask), ("success", .value (.bool true))] }]

def uncacheableRoutesToIomshr (op : Op) (index : Nat) : ModuleRule.Fields where
  name := indexed "uncacheable_routes_to_iomshr" index
  inputs := [("translated", "Core.TranslatedMemory")]
  outputs := [("request", "IOMSHR.Request")]
  when := allOf [isNot (flag "translated" "cacheable"),
    fieldIs "translated" "op_id" opIdSort op.opId]
  outputWhen := fieldIs "request" "op_id" opIdSort op.opId
  ensure := [sameField "translated" "request" "op_id" opIdSort, before "translated" "request"]
  stateRequirements := [⟨busy, "request", .eq, isFalse⟩]
  stateUpdates := [⟨busy, "request", isTrue⟩]
  isExact := true
  tags := ["mmio", "uncacheable"]

def iomshrAccess (op : Op) (index : Nat) : ModuleRule.Fields where
  name := indexed "iomshr_access" index
  inputs := [("request", "IOMSHR.Request")]
  outputs := [("access", "IOMSHR.MemAccess")]
  when := fieldIs "request" "op_id" opIdSort op.opId
  outputWhen := fieldIs "access" "op_id" opIdSort op.opId
  ensure := [sameField "request" "access" "op_id" opIdSort, before "request" "access"]
  isExact := true

def iomshrAck (op : Op) (index : Nat) : ModuleRule.Fields where
  name := indexed "iomshr_ack" index
  inputs := [("access", "IOMSHR.MemAccess")]
  outputs := [("ack", "IOMSHR.MemAck")]
  when := fieldIs "access" "op_id" opIdSort op.opId
  outputWhen := fieldIs "ack" "op_id" opIdSort op.opId
  ensure := [sameField "access" "ack" "op_id" opIdSort, before "access" "ack"]
  isExact := true

def iomshrLoadResponse (op : Op) (index : Nat) : ModuleRule.Fields where
  name := indexed "iomshr_load_response" index
  inputs := [("ack", "IOMSHR.MemAck")]
  outputs := [("response", "IOMSHR.Response")]
  when := allOf [fieldIs "ack" "op_id" opIdSort op.opId,
    literalsEqual stringSort op.memKind (.str "load")]
  outputWhen := fieldIs "response" "op_id" opIdSort op.opId
  ensure := [sameField "ack" "response" "op_id" opIdSort, before "ack" "response"]
  stateRequirements := [⟨busy, "response", .eq, isTrue⟩]
  stateUpdates := [⟨busy, "response", isFalse⟩]
  isExact := true

def iomshrLoadCompletion (op : Op) (index : Nat) : ModuleRule.Fields where
  name := indexed "iomshr_load_completion" index
  inputs := [("response", "IOMSHR.Response")]
  outputs := [("complete", "Core.MemoryComplete")]
  when := fieldIs "response" "op_id" opIdSort op.opId
  outputWhen := allOf [fieldIs "complete" "op_id" opIdSort op.opId,
    fieldIs "complete" "mem_kind" stringSort (.str "load")]
  ensure := [sameField "response" "complete" "op_id" opIdSort, before "response" "complete"]
  isExact := true

def iomshrStoreCompletion (op : Op) (index : Nat) : ModuleRule.Fields where
  name := indexed "iomshr_store_completion" index
  inputs := [("ack", "IOMSHR.MemAck")]
  outputs := [("complete", "Core.MemoryComplete")]
  when := allOf [fieldIs "ack" "op_id" opIdSort op.opId,
    literalsEqual stringSort op.memKind (.str "store")]
  outputWhen := allOf [fieldIs "complete" "op_id" opIdSort op.opId,
    fieldIs "complete" "mem_kind" stringSort (.str "store")]
  ensure := [sameField "ack" "complete" "op_id" opIdSort, before "ack" "complete"]
  stateRequirements := [⟨busy, "complete", .eq, isTrue⟩]
  stateUpdates := [⟨busy, "complete", isFalse⟩]
  isExact := true

def rules (op : Op) (index : Nat) : List ModuleRule.Fields :=
  [uncacheableRoutesToIomshr op index, iomshrAccess op index, iomshrAck op index,
    iomshrLoadResponse op index, iomshrLoadCompletion op index, iomshrStoreCompletion op index]

end Mmio

open Mmio in
/-- `mmio.yaml`, for the operations of a trace. -/
def mmioCore (ops : List Mmio.Op) : ModuleFields where
  name := "mmio_core"
  ports :=
    [{ name := "translated_memory", direction := .input, eventType := "Core.TranslatedMemory" },
     { name := "io_request", direction := .output, eventType := "IOMSHR.Request" },
     { name := "io_access", direction := .output, eventType := "IOMSHR.MemAccess" },
     { name := "io_ack", direction := .output, eventType := "IOMSHR.MemAck" },
     { name := "io_response", direction := .output, eventType := "IOMSHR.Response" },
     { name := "memory_complete", direction := .output, eventType := "Core.MemoryComplete" }]
  internalEvents := []
  slots := repeatOver ops Mmio.slots
  stateVariables := [⟨busy, .bool, .bool false⟩]
  rules := repeatOver ops Mmio.rules

namespace Mmio

/-! ## Requests and ends -/

section Events

variable (problem : BoundedProblem) (context : EvaluationContext)

def RequestAt (op : Op) (c : Nat) : Prop :=
  Seen problem context "IOMSHR.Request" [("op_id", op.opId)] c

/-- A load ends with its response, a store with its completion. -/
def EndsAt (op : Op) (c : Nat) : Prop :=
  Seen problem context "IOMSHR.Response" [("op_id", op.opId)] c ∨
    Seen problem context "Core.MemoryComplete"
      [("op_id", op.opId), ("mem_kind", .str "store")] c

/-- Of two operations with requests, one ends before the other requests. -/
def OneOutstanding (ops : List Op) : Prop :=
  ∀ op ∈ ops, ∀ op' ∈ ops, op.opId.key ≠ op'.opId.key → ∀ r r',
    RequestAt problem context op r → RequestAt problem context op' r' →
      (∃ e, EndsAt problem context op e ∧ r < e ∧ e < r') ∨
        ∃ e, EndsAt problem context op' e ∧ r' < e ∧ e < r

/-- Requests of different operations do not share a cycle. -/
def RequestsApart (ops : List Op) : Prop :=
  ∀ op ∈ ops, ∀ op' ∈ ops, ∀ c, RequestAt problem context op c → RequestAt problem context op' c →
    op.opId.key = op'.opId.key

/-- An operation ends in one cycle only. -/
def EndsOnce (ops : List Op) : Prop :=
  ∀ op ∈ ops, ∀ c c', EndsAt problem context op c → EndsAt problem context op c' → c = c'

end Events

section Completion

variable {ops : List Op} {catalog : EventCatalog} {trace : Trace} {spec : CompletionSpec}
  {problem : BoundedProblem} {interpreter : Interpreter} {assignment : Dict String Value}
  {pre : CellStates}

theorem mem_rules {op : Op} (hop : op ∈ ops) :
    ∃ i, ∀ rule ∈ rules op i, rule ∈ (mmioCore ops).rules := by
  obtain ⟨i, hi⟩ := exists_mem_zipIdx hop
  exact ⟨i, fun rule hrule => mem_repeatOver.mpr ⟨op, i, hi, hrule⟩⟩

/-- A request finds the IOMSHR free and leaves it busy. -/
theorem busy_of_request
    (h : ModuleCompletion (mmioCore ops) catalog trace spec problem interpreter assignment pre)
    {op : Op} (hop : op ∈ ops) {b : String}
    (hb : Showing problem (problem.context interpreter assignment) "IOMSHR.Request"
      [("op_id", op.opId)] b) :
    ∃ c ≤ spec.horizon, (problem.context interpreter assignment).AtCycle b c ∧
      CellIs pre c busy (.bool false) ∧ CellIs pre (c + 1) busy (.bool true) := by
  obtain ⟨i, hrules⟩ := mem_rules hop
  have hcarries := hb.carries _ (List.mem_singleton_self _)
  have hrule := hrules (uncacheableRoutesToIomshr op i) (by simp [rules])
  obtain ⟨a, -, -, hlinks⟩ := cause h hrule rfl rfl rfl rfl (by decide)
    (by simp [uncacheableRoutesToIomshr]) (by simp [uncacheableRoutesToIomshr]) hb.occurring
    hcarries (by simpa [uncacheableRoutesToIomshr] using hcarries)
  obtain ⟨c, hc, hcycle, hfree⟩ := requires_at_output h hrule rfl rfl rfl (by decide) hlinks
    List.mem_cons_self
  exact ⟨c, hc, hcycle, hfree,
    (sets_at_output h hrule rfl rfl rfl (by decide) hlinks hcycle List.mem_cons_self).2⟩

/-- An acknowledgement comes from a request of the same operation. -/
theorem request_of_ack
    (h : ModuleCompletion (mmioCore ops) catalog trace spec problem interpreter assignment pre)
    {op : Op} (hop : op ∈ ops) {b : String}
    (hb : Showing problem (problem.context interpreter assignment) "IOMSHR.MemAck"
      [("op_id", op.opId)] b) :
    ∃ a, Showing problem (problem.context interpreter assignment) "IOMSHR.Request"
        [("op_id", op.opId)] a ∧
      (problem.context interpreter assignment).Precedes a b := by
  obtain ⟨i, hrules⟩ := mem_rules hop
  have hcarries := hb.carries _ (List.mem_singleton_self _)
  obtain ⟨access, haccess, hab, -⟩ := cause h (hrules (iomshrAck op i) (by simp [rules])) rfl rfl
    rfl rfl (by decide) (by simp [iomshrAck]) (by simp [iomshrAck]) hb.occurring hcarries
    (by simpa [iomshrAck] using hcarries)
  have hcarries' := haccess.carries _ (List.mem_singleton_self _)
  obtain ⟨a, ha, hra, -⟩ := cause h (hrules (iomshrAccess op i) (by simp [rules])) rfl rfl rfl rfl
    (by decide) (by simp [iomshrAccess]) (by simp [iomshrAccess]) haccess.occurring hcarries'
    (by simpa [iomshrAccess] using hcarries')
  exact ⟨a, ha, Precedes.trans hra hab⟩

/-- The end of an operation comes from an earlier request of the operation. -/
theorem request_of_end
    (h : ModuleCompletion (mmioCore ops) catalog trace spec problem interpreter assignment pre)
    {op : Op} (hop : op ∈ ops) {c : Nat}
    (hend : EndsAt problem (problem.context interpreter assignment) op c) :
    ∃ r < c, RequestAt problem (problem.context interpreter assignment) op r := by
  obtain ⟨i, hrules⟩ := mem_rules hop
  have hack : ∃ ack b, Showing problem (problem.context interpreter assignment) "IOMSHR.MemAck"
      [("op_id", op.opId)] ack ∧
      (problem.context interpreter assignment).Precedes ack b ∧
      (problem.context interpreter assignment).AtCycle b c := by
    rcases hend with ⟨b, hb, hcycle⟩ | ⟨b, hb, hcycle⟩
    · have hcarries := hb.carries _ (List.mem_singleton_self _)
      obtain ⟨ack, hack, hprecedes, -⟩ := cause h
        (hrules (iomshrLoadResponse op i) (by simp [rules])) rfl rfl rfl rfl (by decide)
        (by simp [iomshrLoadResponse]) (by simp [iomshrLoadResponse]) hb.occurring hcarries
        (by simpa [iomshrLoadResponse] using hcarries)
      exact ⟨ack, b, hack, hprecedes, hcycle⟩
    · have hcarries := hb.carries ("op_id", op.opId) (by simp)
      have hkind := hb.carries ("mem_kind", .str "store") (by simp)
      obtain ⟨ack, hack, hprecedes, -⟩ := cause h
        (hrules (iomshrStoreCompletion op i) (by simp [rules])) rfl rfl rfl rfl (by decide)
        (by simp [iomshrStoreCompletion]) (by simp [iomshrStoreCompletion]) hb.occurring hcarries
        (by simpa [iomshrStoreCompletion] using ⟨hcarries, hkind⟩)
      exact ⟨ack, b, hack, hprecedes, hcycle⟩
  obtain ⟨ack, b, hack, hprecedes, hcycle⟩ := hack
  obtain ⟨a, ha, hbefore⟩ := request_of_ack h hop hack
  obtain ⟨r, -, hr, -⟩ := busy_of_request h hop ha
  exact ⟨r, (Precedes.trans hbefore hprecedes).lt hr hcycle, a, ha, hr⟩

/-- The IOMSHR becomes free when an operation ends. -/
theorem end_of_fall
    (h : ModuleCompletion (mmioCore ops) catalog trace spec problem interpreter assignment pre)
    {c : Nat} (hc : c ≤ spec.horizon) (hbusy : CellIs pre c busy (.bool true))
    (hfree : ¬ CellIs pre (c + 1) busy (.bool true)) :
    ∃ op ∈ ops, EndsAt problem (problem.context interpreter assignment) op c := by
  have hcell : ⟨busy, .bool, .bool false⟩ ∈ (mmioCore ops).stateVariables := List.mem_cons_self
  obtain ⟨rule, hrule, ins, outs, hfires, u, hu, -, hcycle, w, hw, hafter⟩ :=
    h.sets_of_ne hcell hc (fun hiff => hfree (hiff.mp hbusy))
  obtain ⟨op, i, hmem, hrule⟩ := mem_repeatOver.mp hrule
  have hop := mem_of_mem_zipIdx hmem
  simp only [rules, List.mem_cons, List.not_mem_nil, or_false] at hrule
  rcases hrule with rfl | rfl | rfl | rfl | rfl | rfl
  · -- a request does not free it
    obtain rfl := List.mem_singleton.mp hu
    rw [evaluate_isTrue] at hw
    cases hw
    exact absurd hafter hfree
  · cases hu
  · cases hu
  · obtain rfl := List.mem_singleton.mp hu
    obtain ⟨a, b, rfl, rfl, hlinks, -, hb⟩ := hfires.links rfl rfl
    rw [anchor_output rfl rfl (by decide)] at hcycle
    have hscope := (guards_of_link rfl rfl hlinks).2
    simp only [iomshrLoadResponse, holds_fieldIs, apply_output (by decide : "response" ≠ "ack")]
      at hscope
    exact ⟨op, hop, Or.inl ⟨b, ⟨hb, by simpa using hscope⟩, hcycle⟩⟩
  · cases hu
  · obtain rfl := List.mem_singleton.mp hu
    obtain ⟨a, b, rfl, rfl, hlinks, -, hb⟩ := hfires.links rfl rfl
    rw [anchor_output rfl rfl (by decide)] at hcycle
    have hscope := (guards_of_link rfl rfl hlinks).2
    simp only [iomshrStoreCompletion, holds_allOf, List.forall_mem_cons, holds_fieldIs,
      apply_output (by decide : "complete" ≠ "ack")] at hscope
    exact ⟨op, hop, Or.inr ⟨b, ⟨hb, by simpa using ⟨hscope.1, hscope.2.1⟩⟩, hcycle⟩⟩

theorem EndsAt.congr {context : EvaluationContext} {op op' : Op} (hkey : op.opId.key = op'.opId.key)
    {c : Nat} (h : EndsAt problem context op c) : EndsAt problem context op' c := by
  rcases h with ⟨id, hid, hcycle⟩ | ⟨id, hid, hcycle⟩
  · exact Or.inl ⟨id, hid.congr (by simpa using hkey), hcycle⟩
  · exact Or.inr ⟨id, hid.congr (by simpa using hkey), hcycle⟩

/-- The busy cell is a lock: requests take it, ends give it back. -/
theorem busy_lock
    (h : ModuleCompletion (mmioCore ops) catalog trace spec problem interpreter assignment pre) :
    Timeline.Lock spec.horizon (fun c => CellIs pre c busy (.bool true))
      (fun k c => ∃ op ∈ ops, op.opId.key = k ∧
        RequestAt problem (problem.context interpreter assignment) op c)
      (fun k c => ∃ op ∈ ops, op.opId.key = k ∧
        EndsAt problem (problem.context interpreter assignment) op c) := by
  constructor
  case acquire =>
    rintro k c ⟨op, hop, -, b, hb, hcycle⟩
    obtain ⟨c', hc, hcycle', hfree, hbusy⟩ := busy_of_request h hop hb
    cases hcycle.unique hcycle'
    refine ⟨hc, fun hheld => ?_, hbusy⟩
    have hkey := hfree.unique hheld
    simp [Value.key] at hkey
  case fall =>
    intro c hc hbusy hfree
    obtain ⟨op, hop, hend⟩ := end_of_fall h hc hbusy hfree
    exact ⟨_, op, hop, rfl, hend⟩
  case justified =>
    rintro k c ⟨op, hop, hk, hend⟩
    obtain ⟨r, hr, hrequest⟩ := request_of_end h hop hend
    exact ⟨r, hr, op, hop, hk, hrequest⟩

/-- Accesses do not overlap when requests do not share a cycle and operations end once. -/
theorem oneOutstanding_of_apart
    (h : ModuleCompletion (mmioCore ops) catalog trace spec problem interpreter assignment pre)
    (hapart : RequestsApart problem (problem.context interpreter assignment) ops)
    (honce : EndsOnce problem (problem.context interpreter assignment) ops) :
    OneOutstanding problem (problem.context interpreter assignment) ops := by
  intro op hop op' hop' hne r r' hr hr'
  have hlocked := (busy_lock h).exclusive
    (by
      rintro k k' c ⟨p, hp, rfl, hreq⟩ ⟨p', hp', rfl, hreq'⟩
      exact hapart p hp p' hp' c hreq hreq')
    (by
      rintro k c c' ⟨p, hp, hk, hend⟩ ⟨p', hp', hk', hend'⟩
      exact honce p hp c c' hend (hend'.congr (hk'.trans hk.symm)))
    hne ⟨op, hop, rfl, hr⟩ ⟨op', hop', rfl, hr'⟩
  rcases hlocked with ⟨e, ⟨p, -, hk, hend⟩, hre, her⟩ | ⟨e, ⟨p, -, hk, hend⟩, hre, her⟩
  · exact Or.inl ⟨e, hend.congr hk, hre, her⟩
  · exact Or.inr ⟨e, hend.congr hk, hre, her⟩

end Completion

/-! ## Runs -/

/-- An uncacheable operation. -/
def uncacheable (opId memKind : String) (index : Int) : Op where
  opId := .str opId
  hart := .int 0
  programIndex := .int index
  robIdx := .int index
  memKind := .str memKind
  address := .int 4096
  value := .int 0
  writeValue := .int 0
  byteMask := .int 15
  ioId := .int index

def load : Op := uncacheable "load" "load" 0

def store : Op := uncacheable "store" "store" 1

/-- The translation of the operation. -/
def translated (op : Op) (id : String) : EventFields where
  id := id
  eventType := "Core.TranslatedMemory"
  cycle := 0
  fields :=
    [("op_id", op.opId), ("hart", op.hart), ("program_index", op.programIndex),
      ("rob_idx", op.robIdx), ("mem_kind", op.memKind), ("vaddr", op.address),
      ("address", op.address), ("vpn", .int 1), ("value", op.value),
      ("write_value", op.writeValue), ("byte_mask", op.byteMask), ("cacheable", .bool false),
      ("io_id", op.ioId), ("reservation_id", .str "none"), ("uses_tlb", .bool true),
      ("execution_class", .str "mmio")]

def run (assignment : List (String × Value)) : ModuleRun where
  file := mmioCore [load, store]
  eventTypes := [translatedMemory, memoryComplete, iomshrRequest, iomshrMemAccess, iomshrMemAck,
    iomshrResponse]
  events := [translated load "t0", translated store "t1"]
  horizon := 12
  assignment := assignment

open ModuleRun

/-- Both operations request in cycle 1. -/
def sharedRequests : ModuleRun := run
  (chosen "core_io_request_0" 1 ++ chosen "core_io_access_0" 2 ++ chosen "core_io_ack_0" 3 ++
    chosen "core_io_response_0" 4 ++ chosen "mmio_complete_0" 5 ++
    chosen "core_io_request_1" 1 ++ chosen "core_io_access_1" 2 ++ chosen "core_io_ack_1" 3 ++
    skipped "core_io_response_1" ++ chosen "mmio_complete_1" 4)

theorem sharedRequests_not_oneOutstanding : ∃ problem pre,
    sharedRequests.Completes .integers problem pre ∧
      ¬ OneOutstanding problem (problem.context .integers (.ofList sharedRequests.assignment))
        [load, store] := by
  have haccepted : sharedRequests.demonstrates .integers (fun problem context =>
      sightings problem context "IOMSHR.Request" [("op_id", load.opId)] = [1] &&
        sightings problem context "IOMSHR.Request" [("op_id", store.opId)] = [1]) = true := by
    decide +kernel
  obtain ⟨problem, pre, hcompletes, htest⟩ := exists_completion haccepted
  rw [Bool.and_eq_true, decide_eq_true_eq, decide_eq_true_eq] at htest
  obtain ⟨hload, hstore⟩ := htest
  refine ⟨problem, pre, hcompletes, fun hone => ?_⟩
  have hr := mem_sightings.mp (hload ▸ List.mem_singleton_self 1)
  have hr' := mem_sightings.mp (hstore ▸ List.mem_singleton_self 1)
  rcases hone load (by simp) store (by simp) (by decide) 1 1 hr hr' with ⟨e, -, h⟩ | ⟨e, -, h⟩
  · omega
  · omega

/-- The store requests after the load has its response. -/
def sequentialRequests : ModuleRun := run
  (chosen "core_io_request_0" 1 ++ chosen "core_io_access_0" 2 ++ chosen "core_io_ack_0" 3 ++
    chosen "core_io_response_0" 4 ++ chosen "mmio_complete_0" 5 ++
    chosen "core_io_request_1" 6 ++ chosen "core_io_access_1" 7 ++ chosen "core_io_ack_1" 8 ++
    skipped "core_io_response_1" ++ chosen "mmio_complete_1" 9)

/-- The requests and the ends of both operations. -/
structure Shows (problem : BoundedProblem) (context : EvaluationContext) : Prop where
  loadRequest : ∀ c, RequestAt problem context load c ↔ c = 1
  storeRequest : ∀ c, RequestAt problem context store c ↔ c = 6
  loadEnd : ∀ c, EndsAt problem context load c ↔ c = 4
  storeEnd : ∀ c, EndsAt problem context store c ↔ c = 9

theorem sequentialRequests_oneOutstanding : ∃ problem pre,
    sequentialRequests.Completes .integers problem pre ∧
      Shows problem (problem.context .integers (.ofList sequentialRequests.assignment)) ∧
      OneOutstanding problem (problem.context .integers (.ofList sequentialRequests.assignment))
        [load, store] := by
  have haccepted : sequentialRequests.demonstrates .integers (fun problem context =>
      [sightings problem context "IOMSHR.Request" [("op_id", load.opId)],
        sightings problem context "IOMSHR.Request" [("op_id", store.opId)],
        sightings problem context "IOMSHR.Response" [("op_id", load.opId)],
        sightings problem context "Core.MemoryComplete"
          [("op_id", load.opId), ("mem_kind", .str "store")],
        sightings problem context "IOMSHR.Response" [("op_id", store.opId)],
        sightings problem context "Core.MemoryComplete"
          [("op_id", store.opId), ("mem_kind", .str "store")]] =
            [[1], [6], [4], [], [], [9]]) = true := by
    decide +kernel
  obtain ⟨problem, pre, ⟨catalog, trace, spec, h⟩, htest⟩ := exists_completion haccepted
  simp only [decide_eq_true_eq, List.cons.injEq, and_true] at htest
  obtain ⟨h1, h2, h3, h4, h5, h6⟩ := htest
  have hshows : Shows problem
      (problem.context .integers (.ofList sequentialRequests.assignment)) := by
    constructor <;> intro c <;> simp only [RequestAt, EndsAt, ← mem_sightings, h1, h2, h3, h4, h5,
      h6, List.mem_singleton, List.not_mem_nil, or_false, false_or]
  refine ⟨problem, pre, ⟨catalog, trace, spec, h⟩, hshows, oneOutstanding_of_apart h ?_ ?_⟩
  · intro op hop op' hop' c hr hr'
    simp only [List.mem_cons, List.not_mem_nil, or_false] at hop hop'
    rcases hop with rfl | rfl <;> rcases hop' with rfl | rfl
    · rfl
    · have h1 := (hshows.loadRequest c).mp hr
      have h6 := (hshows.storeRequest c).mp hr'
      omega
    · have h6 := (hshows.storeRequest c).mp hr
      have h1 := (hshows.loadRequest c).mp hr'
      omega
    · rfl
  · intro op hop c c' he he'
    simp only [List.mem_cons, List.not_mem_nil, or_false] at hop
    rcases hop with rfl | rfl
    · rw [(hshows.loadEnd c).mp he, (hshows.loadEnd c').mp he']
    · rw [(hshows.storeEnd c).mp he, (hshows.storeEnd c').mp he']

end Mmio

end Boom

end Umcm
