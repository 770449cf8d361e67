import Umcm.Graph.Execution
import Mathlib.Data.Int.Order.Basic

/-!
# Program order

Per hart, the operations in the order of their program index, each related to
every later one. The builder and the built-in model derive it the same way and
differ in the error they raise for a repeated index.
-/

namespace Umcm

open FinOrder

/-- `(item.program_index, item.id)`. -/
def programKey (op : MemoryOperation) : ℤ ×ₗ String := toLex (op.programIndex.getD 0, op.id)

/-- The edges of one hart. Sorting compares the program indexes, which fails
when only some of them are `None`. -/
def hartPo (duplicate : Int → PyError) (operations : List MemoryOperation) (hart : Int) :
    Except PyError (List Edge) := do
  let hartOperations := operations.filter (fun op => op.hart = some hart)
  let indexes := hartOperations.map MemoryOperation.programIndex
  Except.require (none ∈ indexes → ∀ index ∈ indexes, index = none) .typeError
  Except.require indexes.Nodup (duplicate hart)
  let ordered := hartOperations.insertionSort (fun a b => programKey a ≤ programKey b)
  return (orderedPairs ordered).map (fun p => (p.1.id, p.2.id))

/-- The harts in the order of their first operation. -/
def hartsOf (operations : List MemoryOperation) : List Int :=
  (operations.filterMap MemoryOperation.hart).eraseDups

def programOrder (duplicate : Int → PyError) (operations : List MemoryOperation) :
    Except PyError Relation := do
  let edges ← (hartsOf operations).mapM (hartPo duplicate operations)
  return { name := "po", edges := edges.flatten.toFinset }

/-- `a` is an older operation of the hart of `b`. -/
def PoBefore (a b : MemoryOperation) : Prop :=
  a.hart = b.hart ∧ a.hart ≠ none ∧
    ∃ i j, a.programIndex = some i ∧ b.programIndex = some j ∧ i < j

instance (a b : MemoryOperation) : Decidable (PoBefore a b) :=
  decidable_of_iff (a.hart = b.hart ∧ a.hart ≠ none ∧
      (match a.programIndex, b.programIndex with
      | some i, some j => decide (i < j)
      | _, _ => false) = true) (by
    unfold PoBefore
    cases ha : a.programIndex <;> cases hb : b.programIndex <;> simp)

variable {duplicate : Int → PyError} {operations : List MemoryOperation}

theorem PoBefore.irrefl (a : MemoryOperation) : ¬ PoBefore a a := by
  rintro ⟨-, -, i, j, hi, hj, hlt⟩
  rw [hi] at hj
  cases hj
  exact absurd hlt (lt_irrefl _)

theorem PoBefore.trans {a b c : MemoryOperation} (hab : PoBefore a b) (hbc : PoBefore b c) :
    PoBefore a c := by
  obtain ⟨hh, hne, i, j, hi, hj, hij⟩ := hab
  obtain ⟨hh', -, j', k, hj', hk, hjk⟩ := hbc
  rw [hj] at hj'
  cases hj'
  exact ⟨hh.trans hh', hne, i, k, hi, hk, hij.trans hjk⟩

theorem PoBefore.asymm {a b : MemoryOperation} (h : PoBefore a b) : ¬ PoBefore b a :=
  fun h' => PoBefore.irrefl a (h.trans h')

theorem programKey_lt {a b : MemoryOperation} (h : PoBefore a b) : programKey a < programKey b := by
  obtain ⟨-, -, i, j, hi, hj, hlt⟩ := h
  exact Prod.Lex.toLex_lt_toLex.mpr (Or.inl (by simpa [hi, hj] using hlt))

/-- Distinct operations of an accepted hart carry different program indexes. -/
theorem hart_total {hart : Int}
    (hnone : none ∈ (operations.filter (fun op => op.hart = some hart)).map
      MemoryOperation.programIndex → ∀ index ∈ (operations.filter (fun op => op.hart = some hart)).map
      MemoryOperation.programIndex, index = none)
    (hdistinct : ((operations.filter (fun op => op.hart = some hart)).map
      MemoryOperation.programIndex).Nodup) {a b : MemoryOperation} (ha : a ∈ operations)
    (hb : b ∈ operations) (hha : a.hart = some hart) (hhb : b.hart = some hart) (hne : a ≠ b) :
    PoBefore a b ∨ PoBefore b a := by
  have hma : a ∈ operations.filter (fun op => op.hart = some hart) := by simp [ha, hha]
  have hmb : b ∈ operations.filter (fun op => op.hart = some hart) := by simp [hb, hhb]
  have hindex : a.programIndex ≠ b.programIndex :=
    fun heq => hne (List.inj_on_of_nodup_map hdistinct hma hmb heq)
  have hsome : ∀ {x y}, x ∈ operations.filter (fun op => op.hart = some hart) →
      y ∈ operations.filter (fun op => op.hart = some hart) → x.programIndex ≠ y.programIndex →
      ∃ i, x.programIndex = some i := by
    intro x y hx hy hxy
    apply Option.ne_none_iff_exists'.mp
    intro hxn
    have hall := hnone (List.mem_map.mpr ⟨x, hx, hxn⟩)
    exact hxy (hxn.trans (hall _ (List.mem_map_of_mem hy)).symm)
  obtain ⟨i, hi⟩ := hsome hma hmb hindex
  obtain ⟨j, hj⟩ := hsome hmb hma hindex.symm
  have hij : i ≠ j := by
    rintro rfl
    exact hindex (hi.trans hj.symm)
  rcases lt_or_gt_of_ne hij with hlt | hlt
  · exact Or.inl ⟨hha.trans hhb.symm, by simp [hha], i, j, hi, hj, hlt⟩
  · exact Or.inr ⟨hhb.trans hha.symm, by simp [hhb], j, i, hj, hi, hlt⟩

/-- What an accepted hart looks like: its operations are totally ordered, and
its edges are that order. -/
theorem hartPo_eq_ok {hart : Int} {edges : List Edge}
    (hnd : (operations.map MemoryOperation.id).Nodup)
    (h : hartPo duplicate operations hart = .ok edges) :
    (∀ a ∈ operations, ∀ b ∈ operations, a.hart = some hart → b.hart = some hart → a ≠ b →
      PoBefore a b ∨ PoBefore b a) ∧
    ∀ e, e ∈ edges ↔ ∃ a ∈ operations, ∃ b ∈ operations, a.hart = some hart ∧ PoBefore a b ∧
      e = (a.id, b.id) := by
  simp only [hartPo, Except.bind_eq_ok, Except.require_eq_ok] at h
  obtain ⟨-, hnone, -, hdistinct, h⟩ := h
  cases h
  have htotal : ∀ a ∈ operations, ∀ b ∈ operations, a.hart = some hart → b.hart = some hart →
      a ≠ b → PoBefore a b ∨ PoBefore b a :=
    fun a ha b hb => hart_total hnone hdistinct ha hb
  refine ⟨htotal, ?_⟩
  set ordered := (operations.filter (fun op => op.hart = some hart)).insertionSort
    (fun a b => programKey a ≤ programKey b) with hordered
  have hmem : ∀ op, op ∈ ordered ↔ op ∈ operations ∧ op.hart = some hart := by
    intro op
    rw [hordered, List.mem_insertionSort]
    simp
  have hnodup : ordered.Nodup := by
    rw [hordered, (List.perm_insertionSort _ _).nodup_iff]
    exact (List.Nodup.of_map _ hnd).filter _
  -- sorted by key and pairwise comparable, so sorted by program order
  have hsorted : ordered.Pairwise PoBefore := by
    have hkey : ordered.Pairwise (fun a b => programKey a ≤ programKey b) :=
      List.pairwise_insertionSort _ _
    refine (hkey.and hnodup).imp_of_mem ?_
    rintro a b ha hb ⟨hle, hne⟩
    obtain ⟨ha, hha⟩ := (hmem a).mp ha
    obtain ⟨hb, hhb⟩ := (hmem b).mp hb
    rcases htotal a ha b hb hha hhb hne with hab | hba
    · exact hab
    · exact absurd hle (not_le_of_gt (programKey_lt hba))
  intro e
  simp only [List.mem_map, Prod.exists]
  constructor
  · rintro ⟨a, b, hab, rfl⟩
    obtain ⟨ha, hb⟩ := mem_of_mem_orderedPairs hab
    obtain ⟨ha, hha⟩ := (hmem a).mp ha
    obtain ⟨hb, -⟩ := (hmem b).mp hb
    exact ⟨a, ha, b, hb, hha, rel_of_mem_orderedPairs hsorted hab, rfl⟩
  · rintro ⟨a, ha, b, hb, hha, hab, rfl⟩
    have hne : a ≠ b := by
      rintro rfl
      exact PoBefore.irrefl a hab
    refine ⟨a, b, ?_, rfl⟩
    rcases orderedPairs_total ((hmem a).mpr ⟨ha, hha⟩) ((hmem b).mpr ⟨hb, hab.1 ▸ hha⟩) hne with h | h
    · exact h
    · exact absurd (rel_of_mem_orderedPairs hsorted h) hab.asymm

theorem mem_hartsOf {hart : Int} :
    hart ∈ hartsOf operations ↔ ∃ op ∈ operations, op.hart = some hart := by
  simp [hartsOf, List.mem_eraseDups]

/-- An accepted program order relates exactly the older operations of a hart to
the younger ones. -/
theorem mem_programOrder {po : Relation} (hnd : (operations.map MemoryOperation.id).Nodup)
    (h : programOrder duplicate operations = .ok po) (e : Edge) :
    e ∈ po.edges ↔ ∃ a ∈ operations, ∃ b ∈ operations, PoBefore a b ∧ e = (a.id, b.id) := by
  obtain ⟨edges, hall, h⟩ := Except.bind_eq_ok.mp h
  cases h
  simp only [List.mem_toFinset, List.mem_flatten]
  constructor
  · rintro ⟨es, hes, he⟩
    obtain ⟨hart, -, hok⟩ := Except.mapM_origin hall hes
    obtain ⟨a, ha, b, hb, -, hab, rfl⟩ := ((hartPo_eq_ok hnd hok).2 e).mp he
    exact ⟨a, ha, b, hb, hab, rfl⟩
  · rintro ⟨a, ha, b, hb, hab, rfl⟩
    obtain ⟨hart, hhart⟩ := Option.ne_none_iff_exists'.mp hab.2.1
    obtain ⟨es, hes, hok⟩ := Except.mapM_result hall (mem_hartsOf.mpr ⟨a, ha, hhart⟩)
    exact ⟨es, hes, ((hartPo_eq_ok hnd hok).2 _).mpr ⟨a, ha, b, hb, hhart, hab, rfl⟩⟩

/-- Two operations of one hart are ordered in an accepted program order. -/
theorem programOrder_total {po : Relation} (hnd : (operations.map MemoryOperation.id).Nodup)
    (h : programOrder duplicate operations = .ok po) {a b : MemoryOperation} (ha : a ∈ operations)
    (hb : b ∈ operations) (hh : a.hart = b.hart) (hne : a.hart ≠ none) (hab : a ≠ b) :
    PoBefore a b ∨ PoBefore b a := by
  obtain ⟨edges, hall, -⟩ := Except.bind_eq_ok.mp h
  obtain ⟨hart, hhart⟩ := Option.ne_none_iff_exists'.mp hne
  obtain ⟨es, -, hok⟩ := Except.mapM_result hall (mem_hartsOf.mpr ⟨a, ha, hhart⟩)
  exact (hartPo_eq_ok hnd hok).1 a ha b hb hhart (hh ▸ hhart) hab

end Umcm
