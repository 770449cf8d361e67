import Umcm.Boom.Catalog

/-!
# Event types of the XiangShan modules

The types of `events.yaml` that the modelled modules use.
-/

namespace Umcm

namespace Xiangshan

open Boom (needs allows)

/-! ## Public events -/

def coreMemoryInstruction : EventType.Fields :=
  ⟨"Core.MemoryInstruction",
    [needs "op_id" opIdSort, needs "hart" .int, needs "program_index" .int, needs "rob_idx" .int,
     needs "mem_kind" stringSort, needs "vaddr" addressSort, needs "address" addressSort,
     needs "value" valueSort, needs "write_value" valueSort, needs "size" .int,
     needs "byte_mask" lineMaskSort, needs "vector" .bool]⟩

def coreMemoryIssue : EventType.Fields :=
  ⟨"Core.MemoryIssue",
    [needs "op_id" opIdSort, needs "hart" .int, needs "program_index" .int, needs "rob_idx" .int,
     needs "mem_kind" stringSort, needs "vaddr" addressSort, allows "address" addressSort,
     allows "value" valueSort, allows "write_value" valueSort, needs "size" .int,
     allows "byte_mask" lineMaskSort, allows "lq_idx" .int, allows "sq_idx" .int,
     allows "vector" .bool, allows "parent_op_id" opIdSort, allows "element_index" .int,
     allows "tlb_instance" stringSort, allows "vpn" .int, allows "asid" .int, allows "vmid" .int,
     allows "translation_stage" stringSort]⟩

def coreMemoryCommit : EventType.Fields :=
  ⟨"Core.MemoryCommit",
    [needs "op_id" opIdSort, needs "hart" .int, needs "rob_idx" .int, needs "mem_kind" stringSort]⟩

def coreRedirect : EventType.Fields :=
  ⟨"Core.Redirect",
    [needs "hart" .int, needs "program_index" .int, needs "rob_idx" .int, needs "cause" stringSort,
     needs "source_op_id" opIdSort, allows "target_op_id" opIdSort, allows "origin" stringSort,
     allows "flush_self" .bool]⟩

def coreMemoryWriteback : EventType.Fields :=
  ⟨"Core.MemoryWriteback",
    [needs "op_id" opIdSort, needs "hart" .int, needs "rob_idx" .int, needs "mem_kind" stringSort,
     allows "value" valueSort, needs "success" .bool, allows "parent_op_id" opIdSort,
     allows "element_index" .int]⟩

def coreMemoryFault : EventType.Fields :=
  ⟨"Core.MemoryFault",
    [needs "op_id" opIdSort, needs "hart" .int, needs "rob_idx" .int, needs "vaddr" addressSort,
     allows "gpaddr" addressSort, needs "cause" stringSort, allows "element_index" .int]⟩

def coreMemoryViolation : EventType.Fields :=
  ⟨"Core.MemoryViolation",
    [needs "op_id" opIdSort, needs "hart" .int, allows "source_op_id" opIdSort,
     needs "cause" stringSort, allows "program_index" .int, allows "rob_idx" .int,
     allows "lq_idx" .int, allows "address" addressSort, allows "byte_mask" lineMaskSort]⟩

def loadPipelineUpdate : EventType.Fields :=
  ⟨"Load.PipelineUpdate",
    [needs "op_id" opIdSort, needs "lq_idx" .int, allows "address" addressSort,
     allows "byte_mask" lineMaskSort, needs "executed" .bool, needs "succeeded" .bool,
     allows "replay_cause" stringSort, allows "attempt" .int, allows "fault" .bool]⟩

def loadOrderQuery : EventType.Fields :=
  ⟨"Load.OrderQuery",
    [needs "op_id" opIdSort, needs "hart" .int, needs "program_index" .int, needs "rob_idx" .int,
     needs "lq_idx" .int, needs "address" addressSort, needs "byte_mask" lineMaskSort,
     needs "data_valid" .bool, needs "nc" .bool]⟩

def storeAddressReady : EventType.Fields :=
  ⟨"Store.AddressReady",
    [needs "op_id" opIdSort, needs "sq_idx" .int, allows "hart" .int, allows "program_index" .int,
     allows "rob_idx" .int, needs "address" addressSort, needs "byte_mask" lineMaskSort]⟩

def l1ReleaseNotice : EventType.Fields :=
  ⟨"L1.ReleaseNotice",
    [needs "txn_id" opIdSort, allows "source_op_id" opIdSort, allows "hart" .int,
     needs "address" addressSort, needs "dirty" .bool]⟩

/-! ## Private events -/

/-- `private_op_fields`. -/
def privateOpFields : List (String × IrSort × Bool) :=
  [allows "op_id" opIdSort, allows "txn_id" opIdSort, allows "source_op_id" opIdSort,
   allows "hart" .int, allows "program_index" .int, allows "rob_idx" .int, allows "lq_idx" .int,
   allows "sq_idx" .int, allows "target_op_id" opIdSort, allows "mem_kind" stringSort,
   allows "vaddr" addressSort, allows "address" addressSort, allows "value" valueSort,
   allows "size" .int, allows "byte_mask" lineMaskSort, allows "word_mask" maskSort,
   allows "success" .bool, allows "vpn" .int, allows "attempt" .int, allows "entry_id" stringSort,
   allows "tlb_instance" stringSort, allows "map_id" opIdSort, allows "region_id" opIdSort,
   allows "paddr" addressSort, allows "gpaddr" addressSort, allows "asid" .int, allows "vmid" .int,
   allows "access_kind" stringSort, allows "translation_stage" stringSort,
   allows "stage" stringSort, allows "walk_source" stringSort,
   allows "resolution_source" stringSort, allows "level" .int, allows "hit" .bool,
   allows "accepted" .bool, allows "allowed" .bool, allows "check_kind" stringSort,
   allows "cacheable" .bool, allows "fault" .bool, allows "fault_source" stringSort,
   allows "queue_kind" stringSort, allows "data_valid" .bool, allows "released" .bool,
   allows "path" stringSort, allows "data_source" stringSort, allows "replay_source" stringSort,
   allows "source" stringSort, allows "priority" stringSort, allows "blocking" .bool,
   allows "issued" .bool, allows "pc" .int, allows "load_pc" .int, allows "store_pc" .int,
   allows "ssid" .int, allows "strict" .bool, allows "wait_for_rob_idx" .int,
   allows "fence_id" opIdSort, allows "cause" stringSort, allows "element_index" .int]

def privateType (name : String) : EventType.Fields := ⟨name, privateOpFields⟩

/-- The types of `core_lifecycle`. -/
def coreTypes : List EventType.Fields :=
  [coreMemoryInstruction, coreMemoryIssue, coreMemoryWriteback, coreMemoryFault, coreMemoryCommit,
    coreRedirect, privateType "Core.DispatchAllocate", privateType "Core.ROBWriteback",
    privateType "Core.ExceptionRecord", privateType "Core.ROBCommitSelect",
    privateType "Core.RedirectApply"]

/-- The types of `load_queue_lifecycle`. -/
def loadQueueTypes : List EventType.Fields :=
  [coreMemoryIssue, coreRedirect, coreMemoryViolation, loadPipelineUpdate, loadOrderQuery,
    storeAddressReady, l1ReleaseNotice, privateType "LQ.Allocate", privateType "LQ.Deallocate",
    privateType "LQ.RARTrack", privateType "LQ.RAWTrack", privateType "LQ.RARViolation",
    privateType "LQ.RAWViolation"]

/-- The types of `virtual_store_queue`. -/
def storeQueueTypes : List EventType.Fields :=
  [coreMemoryIssue, coreMemoryCommit, coreRedirect, privateType "SQ.Allocate",
    privateType "SQ.Retire", privateType "SQ.RedirectRecover"]

end Xiangshan

end Umcm
