import Umcm.Boom.Catalog

/-!
# `boom_v4_nbdtlb`

The non-blocking data TLB: lookups, misses, page-table walks, refills and
`SFENCE` invalidations. A hart has one walker state, a page one valid bit.
-/

namespace Umcm

namespace Boom

open EvaluationContext

namespace Tlb

/-- An operation of `tlb_ops`. The sort of a hart is `int`. -/
structure Op where
  opId : Value
  hart : Int
  cacheable : Value

/-- A page of `pages`. -/
structure Page where
  entryId : Value
  hart : Int
  vpn : Value
  paddr : Value
  initialValid : Value
  accessible : Value

/-- `tlb_harts`: the harts of the operations, once each. -/
def harts (ops : List Op) : List Int := (ops.map Op.hart).eraseDups

/-! ## Cells -/

/-- The walker of a hart: `READY`, `REQUEST` or `WAIT`. -/
def walker (hart : Int) : String := cellOf "NBDTLB" (Value.int hart).pyStr "state"

def valid (page : Page) : String := cellOf "NBDTLB.entry" page.entryId.pyStr "valid"

def ready : Value := .str "READY"

def request : Value := .str "REQUEST"

def wait : Value := .str "WAIT"

def walkerIs (hart : Int) (role : String) (state : Value) : StateRequirement.Fields :=
  ⟨walker hart, role, .eq, .literal state stringSort⟩

def walkerBecomes (hart : Int) (role : String) (state : Value) : StateUpdate.Fields :=
  ⟨walker hart, role, .literal state stringSort⟩

/-! ## Slots -/

/-- `nbdtlb::${op.op_id}::name`. -/
def outcome (op : Op) (name : String) : Expr :=
  .symbol ("nbdtlb::" ++ op.opId.pyStr ++ "::" ++ name) .bool

def decisionSlot (op : Op) (page : Page) (attempt : Int) (stem hit : String) (index : Nat) :
    EventSlot.Fields where
  id := indexed stem index
  eventType := "TLB.Decision"
  required := false
  fields := [("op_id", .value op.opId), ("hart", .value (.int op.hart)), ("vpn", .value page.vpn),
    ("attempt", .value (.int attempt)), ("hit", .expr (outcome op hit))]

def responseSlot (op : Op) (page : Page) (attempt : Int) (stem miss pageFault : String)
    (index : Nat) : EventSlot.Fields where
  id := indexed stem index
  eventType := "TLB.Response"
  required := false
  fields := [("op_id", .value op.opId), ("hart", .value (.int op.hart)), ("vpn", .value page.vpn),
    ("attempt", .value (.int attempt)), ("paddr", .value page.paddr),
    ("miss", .expr (outcome op miss)), ("page_fault", .expr (outcome op pageFault)),
    ("cacheable", .value op.cacheable)]

/-- The operation, its hart and the page number. -/
def tag (op : Op) (page : Page) : List (String × Term) :=
  [("op_id", .value op.opId), ("hart", .value (.int op.hart)), ("vpn", .value page.vpn)]

def slots (op : Op) (page : Page) (index : Nat) : List EventSlot.Fields :=
  [decisionSlot op page 0 "tlb_decision_initial" "initial_hit" index,
   responseSlot op page 0 "tlb_response_initial" "initial_miss" "initial_pf" index,
   { id := indexed "tlb_miss" index, eventType := "TLB.Miss", required := false
     fields := tag op page },
   { id := indexed "ptw_request" index, eventType := "TLB.PTWRequest", required := false
     fields := tag op page },
   { id := indexed "tlb_refill" index, eventType := "TLB.Refill", required := false
     fields := tag op page ++ [("paddr", .value page.paddr)] },
   { id := indexed "tlb_miss_ready" index, eventType := "TLB.MissReady", required := false
     fields := tag op page },
   decisionSlot op page 1 "tlb_decision_retry" "retry_hit" index,
   responseSlot op page 1 "tlb_response_retry" "retry_miss" "retry_pf" index]

def pageSlots (page : Page) (index : Nat) : List EventSlot.Fields :=
  [{ id := indexed "tlb_invalidate" index, eventType := "TLB.Invalidate", required := false
     fields := [("fence_id", .value (.str ("sfence_" ++ page.entryId.pyStr))),
       ("hart", .value (.int page.hart)), ("entry_id", .value page.entryId),
       ("vpn", .value page.vpn)] }]

/-! ## Rules -/

def hartIs (role : String) (hart : Int) : Expr := fieldIs role "hart" .int (.int hart)

/-- The role is of the operation, the hart of the page and the number of the page. -/
def ofWalk (op : Op) (page : Page) (role : String) : List Expr :=
  [fieldIs role "op_id" opIdSort op.opId, hartIs role page.hart, fieldIs role "vpn" .int page.vpn]

def inWalk (op : Op) (page : Page) (role : String) : Expr := allOf (ofWalk op page role)

def attemptIs (role : String) (attempt : Int) : Expr :=
  fieldIs role "attempt" .int (.int attempt)

/-- The role is the attempt of the operation on the page. -/
def inAttempt (op : Op) (page : Page) (role : String) (attempt : Int) : Expr :=
  allOf (ofWalk op page role ++ [attemptIs role attempt])

def sfenceInvalidatesEntry (page : Page) (index : Nat) : ModuleRule.Fields where
  name := indexed "sfence_invalidates_entry" index
  inputs := [("sfence", "TLB.SFence")]
  outputs := [("invalidate", "TLB.Invalidate")]
  when := allOf [hartIs "sfence" page.hart,
    .nary .or [fieldIs "sfence" "scope" stringSort (.str "all"),
      allOf [fieldIs "sfence" "scope" stringSort (.str "vpn"),
        fieldIs "sfence" "vpn" .int page.vpn]]]
  outputWhen := allOf [hartIs "invalidate" page.hart,
    fieldIs "invalidate" "entry_id" stringSort page.entryId]
  ensure := [before "sfence" "invalidate"]
  stateUpdates := [⟨valid page, "invalidate", isFalse⟩]
  isExact := true
  tags := ["tlb", "sfence", "source:352-364"]

def sfencePrecedesSubsequentLookup (op : Op) (page : Page) (index : Nat) : ModuleRule.Fields where
  name := indexed "sfence_precedes_subsequent_lookup" index
  inputs := [("invalidate", "TLB.Invalidate"), ("decision", "TLB.Decision")]
  outputs := []
  when := allOf ([fieldIs "invalidate" "entry_id" stringSort page.entryId] ++
    ofWalk op page "decision" ++ [attemptIs "decision" 0])
  ensure := [before "invalidate" "decision"]
  tags := ["tlb", "sfence", "source:352-364"]

def initialRequestReadsEntry (op : Op) (page : Page) (index : Nat) : ModuleRule.Fields where
  name := indexed "initial_request_reads_entry" index
  inputs := [("request", "TLB.Request")]
  outputs := [("decision", "TLB.Decision")]
  when := inAttempt op page "request" 0
  outputWhen := inAttempt op page "decision" 0
  ensure := [before "request" "decision"]
  stateRequirements := [⟨valid page, "decision", .eq, flag "decision" "hit"⟩]
  isExact := true
  tags := ["tlb", "lookup", "source:174-179,276-277"]

def initialDecisionReturnsResponse (op : Op) (page : Page) (index : Nat) : ModuleRule.Fields where
  name := indexed "initial_decision_returns_response" index
  inputs := [("decision", "TLB.Decision")]
  outputs := [("response", "TLB.Response")]
  when := inAttempt op page "decision" 0
  outputWhen := inAttempt op page "response" 0
  ensure := [before "decision" "response",
    .binary .eq (flag "response" "miss") (isNot (flag "decision" "hit")),
    .binary .eq (flag "response" "page_fault")
      (allOf [flag "decision" "hit", isNot (.literal page.accessible .bool)])]
  isExact := true
  tags := ["tlb", "response", "source:295-319"]

def missCapturesRefillTag (op : Op) (page : Page) (index : Nat) : ModuleRule.Fields where
  name := indexed "miss_captures_refill_tag" index
  inputs := [("response", "TLB.Response")]
  outputs := [("miss", "TLB.Miss")]
  when := allOf [inAttempt op page "response" 0, flag "response" "miss"]
  outputWhen := inWalk op page "miss"
  ensure := [before "response" "miss"]
  stateRequirements := [walkerIs op.hart "miss" ready]
  stateUpdates := [walkerBecomes op.hart "miss" request]
  isExact := true
  tags := ["tlb", "miss", "source:327-338"]

def missIssuesPtwRequest (op : Op) (page : Page) (index : Nat) : ModuleRule.Fields where
  name := indexed "miss_issues_ptw_request" index
  inputs := [("miss", "TLB.Miss")]
  outputs := [("request", "TLB.PTWRequest")]
  when := inWalk op page "miss"
  outputWhen := inWalk op page "request"
  ensure := [before "miss" "request"]
  stateRequirements := [walkerIs op.hart "request" request]
  stateUpdates := [walkerBecomes op.hart "request" wait]
  isExact := true
  tags := ["tlb", "ptw", "source:321-349"]

def ptwResultRefillsEntry (op : Op) (page : Page) (index : Nat) : ModuleRule.Fields where
  name := indexed "ptw_result_refills_entry" index
  inputs := [("result", "TLB.PTWResult")]
  outputs := [("refill", "TLB.Refill")]
  when := inWalk op page "result"
  outputWhen := inWalk op page "refill"
  ensure := [before "result" "refill"]
  stateRequirements := [walkerIs op.hart "refill" wait]
  stateUpdates := [⟨valid page, "refill", isTrue⟩, walkerBecomes op.hart "refill" ready]
  isExact := true
  tags := ["tlb", "refill", "source:145-214,348-350"]

def readyAfterRefill (op : Op) (page : Page) (index : Nat) : ModuleRule.Fields where
  name := indexed "ready_after_refill" index
  inputs := [("refill", "TLB.Refill")]
  outputs := [("ready", "TLB.MissReady")]
  when := inWalk op page "refill"
  outputWhen := inWalk op page "ready"
  ensure := [before "refill" "ready"]
  stateRequirements := [walkerIs op.hart "ready" ready]
  isExact := true
  tags := ["tlb", "miss-ready", "source:295"]

/-- The scope of a retry's decision also asks for a hit. -/
def retryDecision (op : Op) (page : Page) (role : String) : Expr :=
  allOf (ofWalk op page role ++ [attemptIs role 1, fieldIs role "hit" .bool (.bool true)])

def retryRequestReadsRefilledEntry (op : Op) (page : Page) (index : Nat) : ModuleRule.Fields where
  name := indexed "retry_request_reads_refilled_entry" index
  inputs := [("request", "TLB.Request")]
  outputs := [("decision", "TLB.Decision")]
  when := inAttempt op page "request" 1
  outputWhen := retryDecision op page "decision"
  ensure := [before "request" "decision"]
  stateRequirements := [⟨valid page, "decision", .eq, flag "decision" "hit"⟩]
  isExact := true
  tags := ["tlb", "retry-lookup", "source:595-606,676-677"]

def retryDecisionReturnsResponse (op : Op) (page : Page) (index : Nat) : ModuleRule.Fields where
  name := indexed "retry_decision_returns_response" index
  inputs := [("decision", "TLB.Decision")]
  outputs := [("response", "TLB.Response")]
  when := allOf [retryDecision op page "decision", flag "decision" "hit"]
  outputWhen := inAttempt op page "response" 1
  ensure := [before "decision" "response", isNot (flag "response" "miss"),
    .binary .ne (flag "response" "page_fault") (.literal page.accessible .bool)]
  isExact := true
  tags := ["tlb", "retry-response", "source:295-319"]

def rules (op : Op) (page : Page) (index : Nat) : List ModuleRule.Fields :=
  [sfencePrecedesSubsequentLookup op page index, initialRequestReadsEntry op page index,
    initialDecisionReturnsResponse op page index, missCapturesRefillTag op page index,
    missIssuesPtwRequest op page index, ptwResultRefillsEntry op page index,
    readyAfterRefill op page index, retryRequestReadsRefilledEntry op page index,
    retryDecisionReturnsResponse op page index]

end Tlb

/-- `tlb.yaml`, for the operations and the pages of a trace. -/
def nbdtlb (ops : List Tlb.Op) (pages : List Tlb.Page) : ModuleFields where
  name := "boom_v4_nbdtlb"
  ports :=
    [{ name := "request", direction := .input, eventType := "TLB.Request" },
     { name := "ptw_result", direction := .input, eventType := "TLB.PTWResult" },
     { name := "sfence", direction := .input, eventType := "TLB.SFence"
       requiredConnection := false },
     { name := "response", direction := .output, eventType := "TLB.Response" },
     { name := "miss", direction := .output, eventType := "TLB.Miss" },
     { name := "ptw_request", direction := .output, eventType := "TLB.PTWRequest" },
     { name := "miss_ready", direction := .output, eventType := "TLB.MissReady" }]
  internalEvents := ["TLB.Decision", "TLB.Refill", "TLB.Invalidate"]
  slots := repeatOver pages Tlb.pageSlots ++ repeatProduct ops pages Tlb.slots
  stateVariables :=
    (Tlb.harts ops).map (fun hart => ⟨Tlb.walker hart, stringSort, Tlb.ready⟩) ++
      pages.map (fun page => ⟨Tlb.valid page, .bool, page.initialValid⟩)
  rules := repeatOver pages (fun page index => [Tlb.sfenceInvalidatesEntry page index]) ++
    repeatProduct ops pages Tlb.rules

end Boom

end Umcm
