import Umcm.Boom.Admission
import Umcm.Boom.Catalog

/-!
# `boom_mshr_file_allocator_v021`

The two entries of the MSHR file: a request gets a primary permit for a free
entry, a secondary permit for the entry with its block, or is blocked. State
guards select one of the rules; a primary permit allocates its entry and a
finish releases it.
-/

namespace Umcm

namespace Boom

open EvaluationContext

namespace Allocator

/-- A request of `mshr_admissions`. The sort of `is_probe` is `bool`. -/
structure Req where
  opId : Value
  queueKind : Value
  queueIdx : Value
  address : Value
  blockAddress : Value
  setIndex : Value
  tag : Value
  wayId : Value
  value : Value
  memKind : Value
  cacheTagMatch : Value
  oldLineDirty : Value
  needsAcquire : Value
  isProbe : Bool
  sdqId : Value

/-- The index of an entry, as an integer. -/
def idOf (entry : Fin 2) : Value := .int entry.val

/-- The other entry. -/
def other (entry : Fin 2) : Fin 2 := 1 - entry

/-! ## Cells -/

def head : String := "MSHRFile.head"

def cell (entry : Fin 2) (field : String) : String := cellOf "MSHRFile.entry" entry.val.repr field

def block (entry : Fin 2) : String := cell entry "block_address"

def set (entry : Fin 2) : String := cell entry "set_index"

def intent (entry : Fin 2) : String := cell entry "primary_write_intent"

def emptyAddr : Value := .str "EMPTY_ADDR"

def cells (entry : Fin 2) : List StateVariable.Fields :=
  [⟨block entry, addressSort, emptyAddr⟩, ⟨set entry, .int, .int (-1)⟩,
    ⟨cell entry "tag", .int, .int (-1)⟩, ⟨cell entry "way_id", .int, .int (-1)⟩,
    ⟨intent entry, .bool, .bool false⟩]

/-! ## Releases -/

def releaseEntryOnFinish (entry : Fin 2) : ModuleRule.Fields where
  name := "release_entry_" ++ entry.val.repr ++ "_on_finish"
  inputs := [("finish", "MSHR.MemFinish")]
  outputs := []
  when := fieldIs "finish" "mshr_id" .int (idOf entry)
  stateRequirements := [⟨block entry, "finish", .ne, .literal emptyAddr addressSort⟩]
  stateUpdates :=
    [⟨block entry, "finish", .literal emptyAddr addressSort⟩,
     ⟨set entry, "finish", .literal (.int (-1)) .int⟩,
     ⟨cell entry "tag", "finish", .literal (.int (-1)) .int⟩,
     ⟨cell entry "way_id", "finish", .literal (.int (-1)) .int⟩,
     ⟨intent entry, "finish", isFalse⟩]
  tags := ["source:mshrs.scala:149-154", "entry-lifetime"]

/-! ## Slots -/

def primaryPermitSlot (req : Req) (stem : String) (entry : Fin 2) (allocationCase : String)
    (index : Nat) : EventSlot.Fields where
  id := indexed stem index
  eventType := "MSHRFile.PrimaryPermit"
  required := false
  fields := [("op_id", .value req.opId), ("mshr_id", .value (idOf entry)),
    ("allocation_case", .value (.str allocationCase))]

def secondaryPermitSlot (req : Req) (stem : String) (entry : Fin 2) (readinessCase : String)
    (index : Nat) : EventSlot.Fields where
  id := indexed stem index
  eventType := "MSHRFile.SecondaryPermit"
  required := false
  fields := [("op_id", .value req.opId), ("mshr_id", .value (idOf entry)),
    ("readiness_case", .value (.str readinessCase))]

def requestSlot (req : Req) (stem : String) (entry : Fin 2) (secondary : Bool) (index : Nat) :
    EventSlot.Fields where
  id := indexed stem index
  eventType := "DCache.MSHRRequest"
  required := false
  fields := [("op_id", .value req.opId), ("queue_kind", .value req.queueKind),
    ("queue_idx", .value req.queueIdx), ("address", .value req.address),
    ("value", .value req.value), ("mem_kind", .value req.memKind),
    ("mshr_id", .value (idOf entry)), ("tag_match", .value req.cacheTagMatch),
    ("old_line_dirty", .value req.oldLineDirty), ("needs_acquire", .value req.needsAcquire),
    ("grant_has_data", .value (.bool false)), ("secondary", .value (.bool secondary)),
    ("requires_second_acquire", .value (.bool false)), ("is_hit_again", .value (.bool false)),
    ("is_probe", .value (.bool req.isProbe)), ("sdq_id", .value req.sdqId)]

def blockedSlot (req : Req) (stem reason : String) (index : Nat) : EventSlot.Fields where
  id := indexed stem index
  eventType := "MSHRFile.RequestBlocked"
  required := false
  fields := [("op_id", .value req.opId), ("address", .value req.address),
    ("reason", .value (.str reason))]

def slots (req : Req) (index : Nat) : List EventSlot.Fields :=
  [primaryPermitSlot req "permit_empty_h0" 0 "empty-head-0" index,
   primaryPermitSlot req "permit_empty_h1" 1 "empty-head-1" index,
   primaryPermitSlot req "permit_only_0_free" 0 "only-0-free" index,
   primaryPermitSlot req "permit_only_1_free" 1 "only-1-free" index,
   secondaryPermitSlot req "secondary_permit_0_nn" 0 "no-intent-after-no-intent" index,
   secondaryPermitSlot req "secondary_permit_0_nw" 0 "no-intent-after-write-intent" index,
   secondaryPermitSlot req "secondary_permit_0_ww" 0 "write-intent-after-write-intent" index,
   secondaryPermitSlot req "secondary_permit_1_nn" 1 "no-intent-after-no-intent" index,
   secondaryPermitSlot req "secondary_permit_1_nw" 1 "no-intent-after-write-intent" index,
   secondaryPermitSlot req "secondary_permit_1_ww" 1 "write-intent-after-write-intent" index,
   requestSlot req "allocated_primary_0" 0 false index,
   requestSlot req "allocated_primary_1" 1 false index,
   requestSlot req "allocated_secondary_0" 0 true index,
   requestSlot req "allocated_secondary_1" 1 true index,
   blockedSlot req "blocked_index_0" "index-conflict-0" index,
   blockedSlot req "blocked_index_1" "index-conflict-1" index,
   blockedSlot req "blocked_busy" "all-busy" index,
   blockedSlot req "blocked_secondary_0" "second-acquire-0" index,
   blockedSlot req "blocked_secondary_1" "second-acquire-1" index,
   blockedSlot req "blocked_probe_0" "probe-0" index,
   blockedSlot req "blocked_probe_1" "probe-1" index]

/-! ## Expressions -/

/-- The role is of the request. -/
def ofReq (req : Req) (role : String) : Expr := fieldIs role "op_id" opIdSort req.opId

def entryIs (role : String) (entry : Fin 2) : Expr := fieldIs role "mshr_id" .int (idOf entry)

def sameCycle (role role' : String) : Expr := sameField role role' "cycle" .int

def kindIs (memKind : String) : Expr :=
  fieldIs "admission" "mem_kind" stringSort (.str memKind)

/-- The request is a store, a load-reserved, a store-conditional or an AMO. -/
def writeIntent : Expr := .nary .or [kindIs "store", kindIs "lr", kindIs "sc", kindIs "amo"]

def noProbe : Expr := isNot (flag "admission" "is_probe")

/-- `req_match` -/
def reqMatch (req : Req) : Expr := ofReq req "admission"

/-- `load_request` -/
def loadRequest (req : Req) : Expr := allOf [reqMatch req, noProbe, kindIs "load"]

/-- `write_intent_request` -/
def writeIntentRequest (req : Req) : Expr := allOf [reqMatch req, noProbe, writeIntent]

def probeRequest (req : Req) : Expr := allOf [reqMatch req, flag "admission" "is_probe"]

/-! ## Guards -/

def headIs (entry : Fin 2) : StateRequirement.Fields :=
  ⟨head, "admission", .eq, .literal (idOf entry) .int⟩

def isFree (entry : Fin 2) : StateRequirement.Fields :=
  ⟨block entry, "admission", .eq, .literal emptyAddr addressSort⟩

def isBusy (entry : Fin 2) : StateRequirement.Fields :=
  ⟨block entry, "admission", .ne, .literal emptyAddr addressSort⟩

def sameBlock (entry : Fin 2) : StateRequirement.Fields :=
  ⟨block entry, "admission", .eq, .eventField "admission" "block_address" addressSort⟩

def otherBlock (entry : Fin 2) : StateRequirement.Fields :=
  ⟨block entry, "admission", .ne, .eventField "admission" "block_address" addressSort⟩

def sameSet (entry : Fin 2) : StateRequirement.Fields :=
  ⟨set entry, "admission", .eq, .eventField "admission" "set_index" .int⟩

def otherSet (entry : Fin 2) : StateRequirement.Fields :=
  ⟨set entry, "admission", .ne, .eventField "admission" "set_index" .int⟩

def intentIs (entry : Fin 2) (b : Bool) : StateRequirement.Fields :=
  ⟨intent entry, "admission", .eq, .literal (.bool b) .bool⟩

/-! ## Readiness of the entries -/

/-- With detailed entries, a permit waits for the entry. -/
def permitRequiresReady (integrated : Bool) (name permitType readyType : String) (entry : Fin 2)
    (extra : List Expr) (tags : List String) (req : Req) (index : Nat) : ModuleRule.Fields where
  name := indexed name index
  inputs := [("permit", permitType)]
  outputs := [("ready", readyType)]
  when := allOf [.literal (.bool integrated) .bool, ofReq req "permit", entryIs "permit" entry]
  ensure := [sameCycle "permit" "ready", sameField "permit" "ready" "op_id" opIdSort,
    sameField "permit" "ready" "mshr_id" .int] ++ extra
  tags := tags

def primaryPermitRequiresReady (integrated : Bool) (entry : Fin 2) :
    Req → Nat → ModuleRule.Fields :=
  permitRequiresReady integrated ("primary_permit_" ++ entry.val.repr ++ "_requires_ready")
    "MSHRFile.PrimaryPermit" "MSHRFile.PrimaryReady" entry []
    ["entry-readiness", "source:mshrs.scala:234-240", "source:mshrs.scala:614-678"]

def secondaryPermitRequiresReady (integrated : Bool) (entry : Fin 2) :
    Req → Nat → ModuleRule.Fields :=
  permitRequiresReady integrated ("secondary_permit_" ++ entry.val.repr ++ "_requires_ready")
    "MSHRFile.SecondaryPermit" "MSHRFile.SecondaryReady" entry [flag "ready" "rpq_ready"]
    ["entry-readiness", "source:mshrs.scala:120-135", "source:mshrs.scala:619-660"]

/-! ## Selection -/

/-- A primary permit in the cycle of the admission. -/
def selectPrimary (name : String) (allocationCase : String)
    (guards : List StateRequirement.Fields) (req : Req) (index : Nat) : ModuleRule.Fields where
  name := indexed name index
  inputs := [("admission", "DCache.MSHRAdmissionRequest")]
  outputs := [("permit", "MSHRFile.PrimaryPermit")]
  when := reqMatch req
  outputWhen := allOf [ofReq req "permit",
    fieldIs "permit" "allocation_case" stringSort (.str allocationCase)]
  ensure := [sameCycle "admission" "permit"]
  stateRequirements := guards
  stateMode := .guard
  isExact := true
  tags := ["primary", "round-robin", "source:mshrs.scala:598-678"]

def selectEmptyHead (entry : Fin 2) : Req → Nat → ModuleRule.Fields :=
  selectPrimary ("select_empty_head_" ++ entry.val.repr) ("empty-head-" ++ entry.val.repr)
    [headIs entry, isFree 0, isFree 1]

def selectOnly0Free : Req → Nat → ModuleRule.Fields :=
  selectPrimary "select_only_0_free" "only-0-free" [isFree 0, isBusy 1, otherSet 1]

def selectOnly1Free : Req → Nat → ModuleRule.Fields :=
  selectPrimary "select_only_1_free" "only-1-free" [isBusy 0, isFree 1, otherSet 0]

/-- A secondary permit in the cycle of the admission. -/
def selectSecondary (name readinessCase : String) (entry : Fin 2) (intentValue : Bool)
    (when : Expr) (req : Req) (index : Nat) : ModuleRule.Fields where
  name := indexed ("select_secondary_" ++ entry.val.repr ++ "_" ++ name) index
  inputs := [("admission", "DCache.MSHRAdmissionRequest")]
  outputs := [("permit", "MSHRFile.SecondaryPermit")]
  when := when
  outputWhen := allOf [ofReq req "permit", entryIs "permit" entry,
    fieldIs "permit" "readiness_case" stringSort (.str readinessCase)]
  ensure := [sameCycle "admission" "permit"]
  stateRequirements := [sameBlock entry, intentIs entry intentValue]
  stateMode := .guard
  isExact := true
  tags := ["secondary", "command-coverage", "source:mshrs.scala:120-126",
    "source:Metadata.scala:98-110", "source:Consts.scala:80-86"]

def selectSecondaryNoIntentAfterNoIntent (entry : Fin 2) (req : Req) : Nat → ModuleRule.Fields :=
  selectSecondary "no_intent_after_no_intent" "no-intent-after-no-intent" entry false
    (loadRequest req) req

def selectSecondaryNoIntentAfterWriteIntent (entry : Fin 2) (req : Req) :
    Nat → ModuleRule.Fields :=
  selectSecondary "no_intent_after_write_intent" "no-intent-after-write-intent" entry true
    (loadRequest req) req

def selectSecondaryWriteIntentAfterWriteIntent (entry : Fin 2) (req : Req) :
    Nat → ModuleRule.Fields :=
  selectSecondary "write_intent_after_write_intent" "write-intent-after-write-intent" entry true
    (writeIntentRequest req) req

/-! ## Allocation -/

def commitPrimaryAllocation (entry : Fin 2) (req : Req) (index : Nat) : ModuleRule.Fields where
  name := indexed ("commit_primary_allocation_" ++ entry.val.repr) index
  inputs := [("admission", "DCache.MSHRAdmissionRequest"), ("permit", "MSHRFile.PrimaryPermit")]
  outputs := []
  when := allOf [reqMatch req, ofReq req "permit", entryIs "permit" entry]
  stateUpdates :=
    [⟨block entry, "permit", .eventField "admission" "block_address" addressSort⟩,
     ⟨set entry, "permit", .eventField "admission" "set_index" .int⟩,
     ⟨cell entry "tag", "permit", .eventField "admission" "tag" .int⟩,
     ⟨cell entry "way_id", "permit", .eventField "admission" "way_id" .int⟩,
     ⟨intent entry, "permit", writeIntent⟩,
     ⟨head, "permit", .literal (idOf (other entry)) .int⟩]
  tags := ["primary", "entry-lifetime", "source:mshrs.scala:614-678",
    "source:Metadata.scala:98-110", "source:Consts.scala:80-86"]

/-- The request that leaves the file, in the cycle of the admission. -/
def materialize (name permitType : String) (entry : Fin 2) (secondary : Expr) (req : Req)
    (index : Nat) : ModuleRule.Fields where
  name := indexed name index
  inputs := [("admission", "DCache.MSHRAdmissionRequest"), ("permit", permitType)]
  outputs := [("request", "DCache.MSHRRequest")]
  when := allOf [reqMatch req, ofReq req "permit", entryIs "permit" entry]
  outputWhen := allOf [ofReq req "request", entryIs "request" entry, secondary]
  ensure := [sameCycle "admission" "request"]
  isExact := true

def materializePrimary (entry : Fin 2) : Req → Nat → ModuleRule.Fields :=
  materialize ("materialize_primary_" ++ entry.val.repr) "MSHRFile.PrimaryPermit" entry
    (isNot (flag "request" "secondary"))

def materializeSecondary (entry : Fin 2) : Req → Nat → ModuleRule.Fields :=
  materialize ("materialize_secondary_" ++ entry.val.repr) "MSHRFile.SecondaryPermit" entry
    (flag "request" "secondary")

/-! ## Refusal -/

/-- A refusal in the cycle of the admission. -/
def blockRequest (name reason : String) (guards : List StateRequirement.Fields)
    (tags : List String) (when : Expr) (req : Req) (index : Nat) : ModuleRule.Fields where
  name := indexed name index
  inputs := [("admission", "DCache.MSHRAdmissionRequest")]
  outputs := [("blocked", "MSHRFile.RequestBlocked")]
  when := when
  outputWhen := allOf [ofReq req "blocked", fieldIs "blocked" "reason" stringSort (.str reason)]
  ensure := [sameCycle "admission" "blocked"]
  stateRequirements := guards
  stateMode := .guard
  isExact := true
  tags := tags

def blockIndexConflict (entry : Fin 2) (req : Req) : Nat → ModuleRule.Fields :=
  blockRequest ("block_index_conflict_" ++ entry.val.repr)
    ("index-conflict-" ++ entry.val.repr) [isBusy entry, otherBlock entry, sameSet entry]
    ["not-ready", "idx-match-tag-miss", "source:mshrs.scala:571-578",
      "source:mshrs.scala:726-730"] (reqMatch req) req

def blockAllBusy (req : Req) : Nat → ModuleRule.Fields :=
  blockRequest "block_all_busy" "all-busy" [isBusy 0, isBusy 1, otherSet 0, otherSet 1]
    ["not-ready", "all-mshrs-in-use", "source:mshrs.scala:598-678", "source:mshrs.scala:726-730"]
    (reqMatch req) req

def blockSecondAcquire (entry : Fin 2) (req : Req) : Nat → ModuleRule.Fields :=
  blockRequest ("block_second_acquire_" ++ entry.val.repr)
    ("second-acquire-" ++ entry.val.repr) [sameBlock entry, intentIs entry false]
    ["not-ready", "secondary", "second-acquire", "source:mshrs.scala:120-126",
      "source:Metadata.scala:98-110", "source:Consts.scala:80-86"] (writeIntentRequest req) req

def blockProbe (entry : Fin 2) (req : Req) : Nat → ModuleRule.Fields :=
  blockRequest ("block_probe_" ++ entry.val.repr) ("probe-" ++ entry.val.repr) [sameBlock entry]
    ["not-ready", "secondary", "probe", "source:mshrs.scala:120-126"] (probeRequest req) req

def rules (integrated : Bool) (req : Req) (index : Nat) : List ModuleRule.Fields :=
  [primaryPermitRequiresReady integrated 0 req index,
   primaryPermitRequiresReady integrated 1 req index,
   secondaryPermitRequiresReady integrated 0 req index,
   secondaryPermitRequiresReady integrated 1 req index,
   selectEmptyHead 0 req index, selectEmptyHead 1 req index,
   selectOnly0Free req index, selectOnly1Free req index,
   selectSecondaryNoIntentAfterNoIntent 0 req index,
   selectSecondaryNoIntentAfterWriteIntent 0 req index,
   selectSecondaryWriteIntentAfterWriteIntent 0 req index,
   selectSecondaryNoIntentAfterNoIntent 1 req index,
   selectSecondaryNoIntentAfterWriteIntent 1 req index,
   selectSecondaryWriteIntentAfterWriteIntent 1 req index,
   commitPrimaryAllocation 0 req index, commitPrimaryAllocation 1 req index,
   materializePrimary 0 req index, materializePrimary 1 req index,
   materializeSecondary 0 req index, materializeSecondary 1 req index,
   blockIndexConflict 0 req index, blockIndexConflict 1 req index, blockAllBusy req index,
   blockSecondAcquire 0 req index, blockSecondAcquire 1 req index,
   blockProbe 0 req index, blockProbe 1 req index]

end Allocator

/-- `file_allocator_v021.yaml`, for the requests of a trace. -/
def mshrFileAllocator (integrated : Bool) (reqs : List Allocator.Req) : ModuleFields where
  name := "boom_mshr_file_allocator_v021"
  ports :=
    [{ name := "admission", direction := .input, eventType := "DCache.MSHRAdmissionRequest"
       requiredConnection := false },
     { name := "finish", direction := .input, eventType := "MSHR.MemFinish"
       requiredConnection := false },
     { name := "primary_ready", direction := .input, eventType := "MSHRFile.PrimaryReady"
       requiredConnection := false },
     { name := "secondary_ready", direction := .input, eventType := "MSHRFile.SecondaryReady"
       requiredConnection := false },
     { name := "request", direction := .output, eventType := "DCache.MSHRRequest"
       requiredConnection := false },
     { name := "blocked", direction := .output, eventType := "MSHRFile.RequestBlocked"
       requiredConnection := false }]
  internalEvents := ["MSHRFile.PrimaryPermit", "MSHRFile.SecondaryPermit"]
  slots := repeatOver reqs Allocator.slots
  stateVariables :=
    ⟨Allocator.head, .int, .int 0⟩ :: (Allocator.cells 0 ++ Allocator.cells 1)
  rules := [Allocator.releaseEntryOnFinish 0, Allocator.releaseEntryOnFinish 1] ++
    repeatOver reqs (Allocator.rules integrated)

end Boom

end Umcm
