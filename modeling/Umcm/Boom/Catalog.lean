import Umcm.Boom.Vocabulary

/-!
# Event types of the BOOM modules

The types of `events.yaml` that the modelled modules use.
-/

namespace Umcm

namespace Boom

/-- A required field. -/
def needs (name : String) (sort : IrSort) : String × IrSort × Bool := (name, sort, true)

/-- An optional field. -/
def allows (name : String) (sort : IrSort) : String × IrSort × Bool := (name, sort, false)

/-! ## Core -/

/-- `core_memory_fields`. -/
def coreMemoryFields : List (String × IrSort × Bool) :=
  [needs "op_id" opIdSort, needs "hart" .int, needs "program_index" .int, needs "rob_idx" .int,
    needs "mem_kind" stringSort, needs "vaddr" addressSort, needs "address" addressSort,
    needs "vpn" .int, needs "value" valueSort, needs "write_value" valueSort,
    needs "byte_mask" maskSort, needs "cacheable" .bool, needs "io_id" .int,
    needs "reservation_id" stringSort, needs "uses_tlb" .bool, needs "execution_class" stringSort,
    allows "tlb_path" stringSort]

def translatedMemory : EventType.Fields := ⟨"Core.TranslatedMemory", coreMemoryFields⟩

def memoryComplete : EventType.Fields :=
  ⟨"Core.MemoryComplete",
    [needs "op_id" opIdSort, needs "hart" .int, needs "program_index" .int, needs "rob_idx" .int,
      needs "mem_kind" stringSort, needs "address" addressSort, needs "value" valueSort,
      needs "write_value" valueSort, needs "byte_mask" maskSort, needs "success" .bool,
      allows "reservation_id" stringSort]⟩

def reservationInvalidate : EventType.Fields :=
  ⟨"Core.ReservationInvalidate",
    [needs "source_op_id" opIdSort, needs "reservation_id" stringSort]⟩

def memoryInstruction : EventType.Fields := ⟨"Core.MemoryInstruction", coreMemoryFields⟩

def memoryFault : EventType.Fields :=
  ⟨"Core.MemoryFault",
    [needs "op_id" opIdSort, needs "hart" .int, needs "program_index" .int, needs "rob_idx" .int,
      needs "vpn" .int, needs "cause" stringSort]⟩

def branchMispredict : EventType.Fields :=
  ⟨"Core.BranchMispredict",
    [needs "branch_op_id" opIdSort, needs "hart" .int, needs "program_index" .int]⟩

def squashMemory : EventType.Fields :=
  ⟨"Core.SquashMemory",
    [needs "op_id" opIdSort, needs "hart" .int, needs "program_index" .int,
      needs "reason" stringSort]⟩

def branchKill : EventType.Fields := ⟨"Core.BranchKill", [needs "op_id" opIdSort]⟩

/-! ## Reorder buffer -/

def robAllocate : EventType.Fields :=
  ⟨"ROB.Allocate",
    [needs "op_id" opIdSort, needs "hart" .int, needs "program_index" .int, needs "rob_idx" .int]⟩

def robWriteback : EventType.Fields :=
  ⟨"ROB.Writeback", [needs "op_id" opIdSort, needs "rob_idx" .int]⟩

def robExceptionRecord : EventType.Fields :=
  ⟨"ROB.ExceptionRecord", [needs "op_id" opIdSort, needs "rob_idx" .int, needs "cause" stringSort]⟩

def robCommit : EventType.Fields :=
  ⟨"ROB.Commit",
    [needs "op_id" opIdSort, needs "hart" .int, needs "program_index" .int, needs "rob_idx" .int,
      needs "mem_kind" stringSort, needs "address" addressSort, needs "value" valueSort,
      needs "write_value" valueSort, needs "byte_mask" maskSort, needs "success" .bool]⟩

def robPreciseException : EventType.Fields :=
  ⟨"ROB.PreciseException",
    [needs "op_id" opIdSort, needs "hart" .int, needs "program_index" .int,
      needs "cause" stringSort]⟩

def robTypes : List EventType.Fields :=
  [memoryInstruction, memoryComplete, memoryFault, branchMispredict, squashMemory, branchKill,
    robAllocate, robWriteback, robExceptionRecord, robCommit, robPreciseException]

/-! ## TLB -/

/-- The operation, its hart and the page number. -/
def tlbFields : List (String × IrSort × Bool) :=
  [needs "op_id" opIdSort, needs "hart" .int, needs "vpn" .int]

def tlbRequest : EventType.Fields := ⟨"TLB.Request", tlbFields ++ [needs "attempt" .int]⟩

def tlbResponse : EventType.Fields :=
  ⟨"TLB.Response",
    tlbFields ++ [needs "attempt" .int, needs "paddr" addressSort, needs "miss" .bool,
      needs "page_fault" .bool, needs "cacheable" .bool]⟩

def tlbDecision : EventType.Fields :=
  ⟨"TLB.Decision", tlbFields ++ [needs "attempt" .int, needs "hit" .bool]⟩

def tlbMiss : EventType.Fields := ⟨"TLB.Miss", tlbFields⟩

def tlbPtwRequest : EventType.Fields := ⟨"TLB.PTWRequest", tlbFields⟩

def tlbPtwResult : EventType.Fields :=
  ⟨"TLB.PTWResult", tlbFields ++ [needs "paddr" addressSort, needs "fault" .bool]⟩

def tlbRefill : EventType.Fields := ⟨"TLB.Refill", tlbFields ++ [needs "paddr" addressSort]⟩

def tlbMissReady : EventType.Fields := ⟨"TLB.MissReady", tlbFields⟩

def tlbSFence : EventType.Fields :=
  ⟨"TLB.SFence",
    [needs "fence_id" opIdSort, needs "hart" .int, needs "vpn" .int, needs "scope" stringSort]⟩

def tlbInvalidate : EventType.Fields :=
  ⟨"TLB.Invalidate",
    [needs "fence_id" opIdSort, needs "hart" .int, needs "entry_id" stringSort,
      needs "vpn" .int]⟩

def tlbTypes : List EventType.Fields :=
  [tlbRequest, tlbResponse, tlbDecision, tlbMiss, tlbPtwRequest, tlbPtwResult, tlbRefill,
    tlbMissReady, tlbSFence, tlbInvalidate]

/-! ## Atomic unit -/

def atomicAmoRead : EventType.Fields :=
  ⟨"Atomic.AMORead",
    [needs "op_id" opIdSort, needs "reservation_id" stringSort, needs "value" valueSort]⟩

def atomicAmoWrite : EventType.Fields :=
  ⟨"Atomic.AMOWrite",
    [needs "op_id" opIdSort, needs "reservation_id" stringSort, needs "value" valueSort]⟩

def atomicLrRead : EventType.Fields :=
  ⟨"Atomic.LRRead",
    [needs "op_id" opIdSort, needs "reservation_id" stringSort, needs "value" valueSort]⟩

def atomicReservationSet : EventType.Fields :=
  ⟨"Atomic.ReservationSet", [needs "op_id" opIdSort, needs "reservation_id" stringSort]⟩

def atomicScDecision : EventType.Fields :=
  ⟨"Atomic.SCDecision",
    [needs "op_id" opIdSort, needs "reservation_id" stringSort, needs "success" .bool]⟩

def atomicScWrite : EventType.Fields :=
  ⟨"Atomic.SCWrite",
    [needs "op_id" opIdSort, needs "reservation_id" stringSort, needs "value" valueSort]⟩

def atomicTypes : List EventType.Fields :=
  [translatedMemory, memoryComplete, reservationInvalidate, atomicAmoRead, atomicAmoWrite,
    atomicLrRead, atomicReservationSet, atomicScDecision, atomicScWrite]

/-! ## MSHR file -/

def mshrAdmissionRequest : EventType.Fields :=
  ⟨"DCache.MSHRAdmissionRequest",
    [needs "op_id" opIdSort, needs "queue_kind" stringSort, needs "queue_idx" .int,
      needs "address" addressSort, needs "block_address" addressSort, needs "set_index" .int,
      needs "tag" .int, needs "way_id" .int, allows "value" valueSort, needs "mem_kind" stringSort,
      needs "cache_tag_match" .bool, needs "old_line_dirty" .bool, needs "needs_acquire" .bool,
      needs "is_probe" .bool, allows "sdq_id" .int]⟩

def mshrRequest : EventType.Fields :=
  ⟨"DCache.MSHRRequest",
    [needs "op_id" opIdSort, needs "queue_kind" stringSort, needs "queue_idx" .int,
      needs "address" addressSort, allows "value" valueSort, needs "mem_kind" stringSort,
      needs "mshr_id" .int, needs "tag_match" .bool, needs "old_line_dirty" .bool,
      needs "needs_acquire" .bool, needs "grant_has_data" .bool, needs "secondary" .bool,
      needs "requires_second_acquire" .bool, needs "is_hit_again" .bool, needs "is_probe" .bool,
      allows "sdq_id" .int]⟩

def mshrMemFinish : EventType.Fields :=
  ⟨"MSHR.MemFinish", [needs "mshr_id" .int, needs "address" addressSort]⟩

def mshrPrimaryPermit : EventType.Fields :=
  ⟨"MSHRFile.PrimaryPermit",
    [needs "op_id" opIdSort, needs "mshr_id" .int, needs "allocation_case" stringSort]⟩

def mshrSecondaryPermit : EventType.Fields :=
  ⟨"MSHRFile.SecondaryPermit",
    [needs "op_id" opIdSort, needs "mshr_id" .int, needs "readiness_case" stringSort]⟩

def mshrPrimaryReady : EventType.Fields :=
  ⟨"MSHRFile.PrimaryReady",
    [needs "op_id" opIdSort, needs "mshr_id" .int, needs "phase" stringSort]⟩

def mshrSecondaryReady : EventType.Fields :=
  ⟨"MSHRFile.SecondaryReady",
    [needs "op_id" opIdSort, needs "mshr_id" .int, needs "phase" stringSort,
      needs "rpq_ready" .bool]⟩

def mshrRequestBlocked : EventType.Fields :=
  ⟨"MSHRFile.RequestBlocked",
    [needs "op_id" opIdSort, needs "address" addressSort, needs "reason" stringSort]⟩

def mshrTypes : List EventType.Fields :=
  [mshrAdmissionRequest, mshrRequest, mshrMemFinish, mshrPrimaryPermit, mshrSecondaryPermit,
    mshrPrimaryReady, mshrSecondaryReady, mshrRequestBlocked]

/-! ## IOMSHR -/

def iomshrRequest : EventType.Fields :=
  ⟨"IOMSHR.Request",
    [needs "op_id" opIdSort, needs "address" addressSort, needs "mem_kind" stringSort,
      allows "value" valueSort, needs "io_id" .int]⟩

def iomshrMemAccess : EventType.Fields :=
  ⟨"IOMSHR.MemAccess",
    [needs "op_id" opIdSort, needs "address" addressSort, needs "mem_kind" stringSort,
      needs "io_id" .int]⟩

def iomshrMemAck : EventType.Fields :=
  ⟨"IOMSHR.MemAck", [needs "op_id" opIdSort, allows "value" valueSort, needs "io_id" .int]⟩

def iomshrResponse : EventType.Fields :=
  ⟨"IOMSHR.Response", [needs "op_id" opIdSort, needs "value" valueSort, needs "io_id" .int]⟩

end Boom

end Umcm
