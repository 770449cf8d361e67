import Umcm.Graph.Execution
import Mathlib.Data.Finset.Image

/-!
# Footprints and annotations of an operation

The bytes an operation touches, and what its metadata says about memory region
and ordering. Computing a footprint raises on malformed metadata; after every
pair of operations has been validated it no longer can, and `footprintOf` is
the footprint itself.
-/

namespace Umcm

/-- The offsets of the bits set in a positive mask. -/
def maskOffsets (mask : Nat) : List Nat :=
  (List.range (Nat.log2 mask + 1)).filter mask.testBit

/-- The byte at an offset from the address. -/
def byteAt (address : Int) (offset : Nat) : Key := .num ((address + offset : Int) : ℚ)

/-- The bytes from the address: `byte_mask` selects them, else `size` counts them. -/
def addressFootprint (op : MemoryOperation) : Except PyError (Finset Key) :=
  match op.address.asInt?, (op.metadata.get? "byte_mask").bind MetaValue.asInt? with
  | some address, some mask =>
    if mask ≤ 0 then .error (.graphError s!"operation {quoted op.id} has an empty byte_mask")
    else .ok ((maskOffsets mask.toNat).map (byteAt address)).toFinset
  | some address, none =>
    match ((op.metadata.get? "size").elim (some 1) MetaValue.asInt?) with
    | some size =>
      if size ≤ 0 then .error (.graphError s!"operation {quoted op.id} size must be positive")
      else .ok ((List.range size.toNat).map (byteAt address)).toFinset
    | none => .ok {op.address.key}
  | none, _ => .ok {op.address.key}

def footprint (op : MemoryOperation) : Except PyError (Finset Key) :=
  match op.metadata.get? "byte_addresses" with
  | none | some (.scalar .none) => addressFootprint op
  | some (.sequence (byte :: bytes)) => .ok ((byte :: bytes).map Value.key).toFinset
  | some _ =>
    .error (.graphError s!"operation {quoted op.id} byte_addresses must be a non-empty sequence")

theorem maskOffsets_ne_nil {mask : Nat} (h : 0 < mask) : maskOffsets mask ≠ [] := by
  apply List.ne_nil_of_mem (a := Nat.log2 mask)
  simp only [maskOffsets, List.mem_filter, List.mem_range]
  exact ⟨Nat.lt_succ_self _, Nat.testBit_log2 h.ne'⟩

theorem addressFootprint_nonempty {op : MemoryOperation} {s : Finset Key}
    (h : addressFootprint op = .ok s) : s.Nonempty := by
  unfold addressFootprint at h
  split at h
  · split at h
    · cases h
    · rename_i mask _ _ hpos
      cases h
      rw [List.toFinset_nonempty_iff]
      exact mt List.map_eq_nil_iff.mp (maskOffsets_ne_nil (by omega))
  · split at h
    · split at h
      · cases h
      · cases h
        rw [List.toFinset_nonempty_iff]
        exact mt List.map_eq_nil_iff.mp (mt List.range_eq_nil.mp (by omega))
    · cases h
      exact Finset.singleton_nonempty _
  · cases h
    exact Finset.singleton_nonempty _

/-- Every operation touches at least one byte. -/
theorem footprint_nonempty {op : MemoryOperation} {s : Finset Key} (h : footprint op = .ok s) :
    s.Nonempty := by
  unfold footprint at h
  split at h
  · exact addressFootprint_nonempty h
  · exact addressFootprint_nonempty h
  · cases h
    rw [List.toFinset_nonempty_iff]
    simp
  · cases h

/-- The footprint of an operation that has been validated. -/
def footprintOf (op : MemoryOperation) : Finset Key :=
  match footprint op with
  | .ok s => s
  | .error _ => ∅

theorem footprintOf_eq {op : MemoryOperation} {s : Finset Key} (h : footprint op = .ok s) :
    footprintOf op = s := by
  simp [footprintOf, h]

def Overlap (left right : MemoryOperation) : Prop :=
  (footprintOf left ∩ footprintOf right).Nonempty

instance (left right : MemoryOperation) : Decidable (Overlap left right) :=
  inferInstanceAs (Decidable (Finset.Nonempty _))

def SameLocation (left right : MemoryOperation) : Prop := footprintOf left = footprintOf right

instance (left right : MemoryOperation) : Decidable (SameLocation left right) :=
  inferInstanceAs (Decidable (_ = _))

/-! ## Annotations -/

def regular (op : MemoryOperation) : Bool :=
  pyLower ((op.metadata.get? "memory_region").elim "main" MetaValue.pyStr) ∈
    ["main", "regular", "memory"]

/-- The values of the `ordering` entry, in lower case with underscores. -/
def tokens (op : MemoryOperation) : List String :=
  let values : List Value :=
    match op.metadata.get? "ordering" with
    | some (.scalar (.str s)) => [.str s]
    | some (.sequence items) => items
    | _ => []
  values.map (fun v =>
    String.ofList ((pyLower v.pyStr).toList.map (fun c => if c = '-' then '_' else c)))

/-- A flag of the metadata, or one of the tokens that imply it. -/
def annotated (op : MemoryOperation) (flag : String) (implying : List String) : Bool :=
  (op.metadata.get? flag).elim false MetaValue.truthy || (tokens op).any (fun t => t ∈ implying)

def acquire (op : MemoryOperation) : Bool :=
  annotated op "acquire" ["acquire", "acquire_rcpc", "acquire_rcsc", "aq"]

def release (op : MemoryOperation) : Bool :=
  annotated op "release" ["release", "release_rcpc", "release_rcsc", "rl"]

def rcsc (op : MemoryOperation) : Bool :=
  annotated op "rcsc" ["acquire_rcsc", "release_rcsc", "rcsc", "aq", "rl"]

/-! ## Scalar locations -/

/-- One pair of operations: their footprints are computed and must not overlap
without being equal. -/
def validatePair (left right : MemoryOperation) : Except PyError Unit := do
  let _ ← footprint left
  let _ ← footprint right
  Except.require (Overlap left right → SameLocation left right) (.graphError
    s!"v0.16 rejects partially overlapping mixed-size accesses: {quoted left.id} and {quoted right.id}")

def validateScalarLocations (operations : List MemoryOperation) : Except PyError Unit :=
  (FinOrder.orderedPairs operations).forM (fun p => validatePair p.1 p.2)

/-- The footprints of the operations are computed, non-empty, and equal or disjoint. -/
structure ScalarLocations (operations : List MemoryOperation) : Prop where
  nonempty : ∀ a ∈ operations, ∀ b ∈ operations, a ≠ b → (footprintOf a).Nonempty
  same_of_overlap : ∀ a ∈ operations, ∀ b ∈ operations, a ≠ b → Overlap a b → SameLocation a b

theorem validatePair_eq_ok {left right : MemoryOperation} {u : Unit}
    (h : validatePair left right = .ok u) : (footprintOf left).Nonempty ∧
      (footprintOf right).Nonempty ∧ (Overlap left right → SameLocation left right) := by
  simp only [validatePair, Except.bind_eq_ok, Except.require_eq_ok] at h
  obtain ⟨s, hs, t, ht, h⟩ := h
  exact ⟨footprintOf_eq hs ▸ footprint_nonempty hs, footprintOf_eq ht ▸ footprint_nonempty ht, h⟩

theorem overlap_comm {left right : MemoryOperation} : Overlap left right ↔ Overlap right left := by
  rw [Overlap, Overlap, Finset.inter_comm]

theorem scalarLocations_of_validate {operations : List MemoryOperation} {u : Unit}
    (h : validateScalarLocations operations = .ok u) : ScalarLocations operations := by
  rw [validateScalarLocations, Except.forM_eq_ok] at h
  constructor
  · intro a ha b hb hne
    rcases FinOrder.orderedPairs_total ha hb hne with hp | hp
    · exact (validatePair_eq_ok (h _ hp)).1
    · exact (validatePair_eq_ok (h _ hp)).2.1
  · intro a ha b hb hne hov
    rcases FinOrder.orderedPairs_total ha hb hne with hp | hp
    · exact (validatePair_eq_ok (h _ hp)).2.2 hov
    · exact ((validatePair_eq_ok (h _ hp)).2.2 (overlap_comm.mp hov)).symm

/-- Of two different operations, overlapping means having one location. -/
theorem ScalarLocations.overlap_iff {operations : List MemoryOperation}
    (hs : ScalarLocations operations) {a b : MemoryOperation} (ha : a ∈ operations)
    (hb : b ∈ operations) (hne : a ≠ b) : Overlap a b ↔ SameLocation a b := by
  constructor
  · exact hs.same_of_overlap a ha b hb hne
  · intro hsame
    unfold Overlap SameLocation at *
    rw [← hsame, Finset.inter_self]
    exact hs.nonempty a ha b hb hne

end Umcm
