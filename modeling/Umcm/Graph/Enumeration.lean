import Umcm.Graph.Coherence

/-!
# Exactness of the enumeration

The table of coherence orders lists the orders of the permuted writes of every
address. Without AMOs these are all writes, and the enumeration is exact; with
an AMO that gets as far as the enumeration it misses every candidate.

* `coAssignments_iff`: without AMOs the listed orders are the coherence orders.
* `buildCandidateSpace_eq_ok`, `buildCandidateSpace_graphError_iff`: when the
  candidate space is built and when a graph error is raised instead.
-/

namespace Umcm

open FinOrder Except

/-! ## Addresses -/

/-- One step of the collection of addresses. -/
def addAddress (addresses : List Value) (write : MemoryOperation) : List Value :=
  if addresses.any (fun a => a.pyEq write.address) then addresses else addresses ++ [write.address]

theorem foldl_addAddress (writes : List MemoryOperation) (addresses : List Value) :
    (∀ a ∈ addresses, a ∈ writes.foldl addAddress addresses) ∧
      (∀ a ∈ writes.foldl addAddress addresses, a ∈ addresses ∨ ∃ w ∈ writes, w.address = a) ∧
      (∀ w ∈ writes, ∃ a ∈ writes.foldl addAddress addresses, a.key = w.address.key) ∧
      ((addresses.map Value.key).Nodup → ((writes.foldl addAddress addresses).map Value.key).Nodup) := by
  induction writes generalizing addresses with
  | nil => simp
  | cons w rest ih =>
      obtain ⟨hkeep, horigin, hall, hnodup⟩ := ih (addAddress addresses w)
      have hstep : ∀ a ∈ addresses, a ∈ addAddress addresses w := by
        intro a ha
        unfold addAddress
        split
        · exact ha
        · exact List.mem_append_left _ ha
      have hadded : ∃ a ∈ addAddress addresses w, a.key = w.address.key := by
        unfold addAddress
        split
        · rename_i hany
          obtain ⟨a, ha, heq⟩ := List.any_eq_true.mp hany
          exact ⟨a, ha, Value.pyEq_iff.mp heq⟩
        · exact ⟨w.address, List.mem_append_right _ List.mem_cons_self, rfl⟩
      refine ⟨fun a ha => hkeep a (hstep a ha), fun a ha => ?_, fun x hx => ?_, fun hnd => ?_⟩
      · rcases horigin a ha with ha | ⟨x, hx, rfl⟩
        · unfold addAddress at ha
          split at ha
          · exact Or.inl ha
          · rcases List.mem_append.mp ha with ha | ha
            · exact Or.inl ha
            · exact Or.inr ⟨w, List.mem_cons_self, (List.mem_singleton.mp ha).symm⟩
        · exact Or.inr ⟨x, List.mem_cons_of_mem _ hx, rfl⟩
      · rcases List.mem_cons.mp hx with rfl | hx
        · obtain ⟨a, ha, heq⟩ := hadded
          exact ⟨a, hkeep a ha, heq⟩
        · exact hall x hx
      · refine hnodup ?_
        unfold addAddress
        split
        · exact hnd
        · rename_i hany
          rw [List.map_append, List.nodup_append]
          refine ⟨hnd, List.nodup_singleton _, ?_⟩
          rintro k hk k' hk' rfl
          obtain ⟨a, ha, rfl⟩ := List.mem_map.mp hk
          rw [List.map_singleton, List.mem_singleton] at hk'
          exact hany (List.any_eq_true.mpr ⟨a, ha, Value.pyEq_iff.mpr hk'⟩)

theorem nodup_writeAddresses (operations : List MemoryOperation) :
    ((writeAddresses operations).map Value.key).Nodup :=
  (foldl_addAddress _ []).2.2.2 List.nodup_nil

theorem exists_writeAddress {operations : List MemoryOperation} {w : MemoryOperation}
    (hw : w ∈ operations) (hwrite : w.isWrite = true) :
    ∃ a ∈ writeAddresses operations, a.key = w.address.key :=
  (foldl_addAddress _ []).2.2.1 w (List.mem_filter.mpr ⟨hw, hwrite⟩)

theorem write_of_mem_writeAddresses {operations : List MemoryOperation} {a : Value}
    (ha : a ∈ writeAddresses operations) :
    ∃ w ∈ operations, w.isWrite = true ∧ w.address = a := by
  rcases (foldl_addAddress _ []).2.1 a ha with ha | ⟨w, hw, rfl⟩
  · cases ha
  · obtain ⟨hw, hwrite⟩ := List.mem_filter.mp hw
    exact ⟨w, hw, hwrite, rfl⟩

/-- Distinct addresses with distinct keys, covering the writes. -/
structure Addresses (operations : List MemoryOperation) (addresses : List Value) : Prop where
  keys : (addresses.map Value.key).Nodup
  cover : ∀ w ∈ operations, w.isWrite = true → ∃ a ∈ addresses, a.key = w.address.key

theorem Addresses.nodup {operations : List MemoryOperation} {addresses : List Value}
    (h : Addresses operations addresses) : addresses.Nodup := List.Nodup.of_map _ h.keys

theorem Addresses.eq {operations : List MemoryOperation} {addresses : List Value}
    (h : Addresses operations addresses) {a b : Value} (ha : a ∈ addresses) (hb : b ∈ addresses)
    (hkey : a.key = b.key) : a = b :=
  List.inj_on_of_nodup_map h.keys ha hb hkey

theorem addresses_writeAddresses (operations : List MemoryOperation) :
    Addresses operations (writeAddresses operations) :=
  ⟨nodup_writeAddresses operations, fun _ hw hwrite => exists_writeAddress hw hwrite⟩

theorem Addresses.perm {operations : List MemoryOperation} {addresses addresses' : List Value}
    (h : Addresses operations addresses) (hperm : addresses'.Perm addresses) :
    Addresses operations addresses' := by
  refine ⟨((hperm.map _).nodup_iff).mpr h.keys, fun w hw hwrite => ?_⟩
  obtain ⟨a, ha, hkey⟩ := h.cover w hw hwrite
  exact ⟨a, hperm.symm.subset ha, hkey⟩

/-! ## The writes of an address -/

section Writes

variable {operations : List MemoryOperation} {address : Value}
  (hnd : (operations.map MemoryOperation.id).Nodup)

/-- The ids of the writes of an address. -/
def writeIdsAt (operations : List MemoryOperation) (address : Value) : List String :=
  (writesAt operations address).map MemoryOperation.id

theorem mem_writesAt {w : MemoryOperation} : w ∈ writesAt operations address ↔
    w ∈ operations ∧ w.isWrite = true ∧ w.address.key = address.key := by
  rw [writesAt, List.mem_filter, List.mem_filter, Value.pyEq_iff, and_assoc]

theorem mem_writeIdsAt {x : String} : x ∈ writeIdsAt operations address ↔
    ∃ w ∈ operations, w.isWrite = true ∧ w.address.key = address.key ∧ w.id = x := by
  simp only [writeIdsAt, List.mem_map, mem_writesAt, and_assoc]

include hnd in
theorem nodup_writeIdsAt (address : Value) : (writeIdsAt operations address).Nodup :=
  hnd.sublist (List.Sublist.map _ (List.filter_sublist.trans List.filter_sublist))

include hnd in
theorem mem_writeIdsAt_of_mem {w : MemoryOperation} (hw : w ∈ operations) :
    w.id ∈ writeIdsAt operations address ↔ w.isWrite = true ∧ w.address.key = address.key := by
  rw [mem_writeIdsAt]
  constructor
  · rintro ⟨w', hw', hwrite, haddress, hid⟩
    rw [← List.inj_on_of_nodup_map hnd hw' hw hid]
    exact ⟨hwrite, haddress⟩
  · rintro ⟨hwrite, haddress⟩
    exact ⟨w, hw, hwrite, haddress, rfl⟩

include hnd in
theorem blocks_writeIdsAt {addresses : List Value} (h : Addresses operations addresses) :
    Blocks (addresses.map (writeIdsAt operations)) := by
  refine ⟨?_, ?_⟩
  · intro l hl
    obtain ⟨a, -, rfl⟩ := List.mem_map.mp hl
    exact nodup_writeIdsAt hnd a
  · rw [List.pairwise_map]
    refine (List.pairwise_map.mp h.keys).imp ?_
    intro a b hne x hxa hxb
    obtain ⟨w, hw, -, haddress, rfl⟩ := mem_writeIdsAt.mp hxa
    exact hne (haddress.symm.trans ((mem_writeIdsAt_of_mem hnd hw).mp hxb).2)

theorem mem_initWritesAt {x : String} : x ∈ initWritesAt operations address ↔
    ∃ w ∈ writesAt operations address, w.kind = .initWrite ∧ w.id = x := by
  rw [initWritesAt, sortIds, List.mem_insertionSort, List.mem_map]
  simp only [List.mem_filter, decide_eq_true_eq, and_assoc]

theorem mem_ordinaryWritesAt {x : String} : x ∈ ordinaryWritesAt operations address ↔
    ∃ w ∈ writesAt operations address, w.kind = .write ∧ w.id = x := by
  rw [ordinaryWritesAt, sortIds, List.mem_insertionSort, List.mem_map]
  simp only [List.mem_filter, decide_eq_true_eq, and_assoc]

include hnd in
theorem nodup_ordinaryWritesAt (address : Value) : (ordinaryWritesAt operations address).Nodup := by
  have hperm : (ordinaryWritesAt operations address).Perm
      (((writesAt operations address).filter (fun op => op.kind = .write)).map MemoryOperation.id) :=
    List.perm_insertionSort _ _
  rw [hperm.nodup_iff]
  exact (nodup_writeIdsAt hnd address).sublist (List.Sublist.map _ List.filter_sublist)

/-- Every order lists the initial write and the permuted writes. -/
theorem mem_orderCandidates_iff {order : List String} : order ∈ orderCandidates operations address ↔
    ∃ permuted, permuted.Perm (ordinaryWritesAt operations address) ∧
      order = initWritesAt operations address ++ permuted := by
  simp only [orderCandidates, List.mem_map, Choice.mem_permutations, eq_comm]

include hnd in
theorem nodup_orderCandidates (address : Value) : (orderCandidates operations address).Nodup :=
  (Choice.nodup_permutations (nodup_ordinaryWritesAt hnd address)).map
    (fun _ _ h => List.append_cancel_left h)

/-- The writes that an order lists are initial or permuted. -/
theorem kind_of_mem_orderCandidates {order : List String}
    (horder : order ∈ orderCandidates operations address) {x : String} (hx : x ∈ order) :
    ∃ w ∈ writesAt operations address, w.kind ≠ .amo ∧ w.id = x := by
  obtain ⟨permuted, hperm, rfl⟩ := mem_orderCandidates_iff.mp horder
  rcases List.mem_append.mp hx with hx | hx
  · obtain ⟨w, hw, hkind, hid⟩ := mem_initWritesAt.mp hx
    exact ⟨w, hw, by simp [hkind], hid⟩
  · obtain ⟨w, hw, hkind, hid⟩ := mem_ordinaryWritesAt.mp (hperm.subset hx)
    exact ⟨w, hw, by simp [hkind], hid⟩

/-- Without AMOs an order lists all writes of the address. -/
theorem perm_writeIdsAt (hamo : AmoFree operations) :
    (initWritesAt operations address ++ ordinaryWritesAt operations address).Perm
      (writeIdsAt operations address) := by
  have hrest : (writesAt operations address).filter (fun op => op.kind = .write) =
      (writesAt operations address).filter (fun op => !decide (op.kind = .initWrite)) := by
    apply List.filter_congr
    intro w hw
    obtain ⟨hw, hwrite, -⟩ := mem_writesAt.mp hw
    have hkind := hamo w hw
    cases h : w.kind <;> simp_all [MemoryOperation.isWrite]
  have hinit : (initWritesAt operations address).Perm
      (((writesAt operations address).filter (fun op => op.kind = .initWrite)).map
        MemoryOperation.id) := List.perm_insertionSort _ _
  have hordinary : (ordinaryWritesAt operations address).Perm
      (((writesAt operations address).filter (fun op => op.kind = .write)).map
        MemoryOperation.id) := List.perm_insertionSort _ _
  refine (hinit.append hordinary).trans ?_
  rw [hrest, ← List.map_append]
  exact (List.filter_append_perm _ _).map _

theorem nil_or_singleton {ids : List String} (h : ids.length ≤ 1) : ids = [] ∨ ∃ x, ids = [x] := by
  rcases ids with _ | ⟨x, _ | ⟨y, rest⟩⟩
  · exact Or.inl rfl
  · exact Or.inr ⟨x, rfl⟩
  · simp at h

/-- The orders are the listings of the initial and the permuted writes in which
the initial write is first. -/
theorem mem_orderCandidates (hinit : (initWritesAt operations address).length ≤ 1)
    (hlisted : (initWritesAt operations address ++ ordinaryWritesAt operations address).Nodup)
    {order : List String} : order ∈ orderCandidates operations address ↔
      order.Perm (initWritesAt operations address ++ ordinaryWritesAt operations address) ∧
      ∀ x ∈ initWritesAt operations address, ∀ y ∈ ordinaryWritesAt operations address,
        Precedes order x y := by
  rw [mem_orderCandidates_iff]
  rcases nil_or_singleton hinit with hnil | ⟨x, hx⟩
  · rw [hnil]
    simp only [List.nil_append, List.not_mem_nil, false_imp_iff, implies_true, and_true]
    constructor
    · rintro ⟨permuted, hperm, rfl⟩
      exact hperm
    · intro hperm
      exact ⟨order, hperm, rfl⟩
  · rw [hx] at hlisted ⊢
    simp only [List.cons_append, List.nil_append, List.mem_singleton, forall_eq] at hlisted ⊢
    obtain ⟨hx, -⟩ := List.nodup_cons.mp hlisted
    constructor
    · rintro ⟨permuted, hperm, rfl⟩
      refine ⟨hperm.cons x, fun y hy => ?_⟩
      have hne : x ≠ y := fun heq => hx (heq ▸ hy)
      refine ⟨List.mem_cons_self, List.mem_cons_of_mem _ (hperm.symm.subset hy), ?_⟩
      show List.idxOf x (x :: permuted) < List.idxOf y (x :: permuted)
      rw [List.idxOf_cons_self, List.idxOf_cons_ne _ hne]
      exact Nat.succ_pos _
    · rintro ⟨hperm, hfirst⟩
      cases order with
      | nil => exact absurd hperm.length_eq (by simp)
      | cons z permuted =>
          -- nothing else can be at the head
          have hz : z = x := by
            by_contra hne
            have hmem := hperm.subset (List.mem_cons_self (a := z))
            have hbefore := (hfirst z ((List.mem_cons.mp hmem).resolve_left hne)).2.2
            rw [List.idxOf_cons_self] at hbefore
            exact absurd hbefore (Nat.not_lt_zero _)
          subst hz
          exact ⟨permuted, hperm.cons_inv, rfl⟩

/-- The initial writes of the address are listed before its other writes. -/
def StartsWithInit (operations : List MemoryOperation) (address : Value) (order : List String) :
    Prop :=
  ∀ x ∈ writesAt operations address, x.kind = .initWrite →
    ∀ y ∈ writesAt operations address, y ≠ x → Precedes order x.id y.id

include hnd in
/-- Without AMOs the orders are the listings of all writes that start with the
initial write. -/
theorem mem_orderCandidates_of_amoFree (hamo : AmoFree operations)
    (hinit : (initWritesAt operations address).length ≤ 1) {order : List String} :
    order ∈ orderCandidates operations address ↔
      order.Perm (writeIdsAt operations address) ∧ StartsWithInit operations address order := by
  have hall : (initWritesAt operations address ++ ordinaryWritesAt operations address).Perm
      (writeIdsAt operations address) := perm_writeIdsAt hamo
  rw [mem_orderCandidates hinit (hall.nodup_iff.mpr (nodup_writeIdsAt hnd address))]
  refine and_congr ⟨fun h => h.trans hall, fun h => h.trans hall.symm⟩ ?_
  constructor
  · intro hfirst x hx hkind y hy hne
    have hx' : x.id ∈ initWritesAt operations address := mem_initWritesAt.mpr ⟨x, hx, hkind, rfl⟩
    refine hfirst x.id hx' y.id ?_
    have hy' : y.id ∈ initWritesAt operations address ++ ordinaryWritesAt operations address :=
      hall.symm.subset (List.mem_map_of_mem hy)
    refine (List.mem_append.mp hy').resolve_left (fun hyinit => ?_)
    have hid : y.id = x.id := by
      rcases nil_or_singleton hinit with hnil | ⟨z, hz⟩
      · rw [hnil] at hx'
        cases hx'
      · rw [hz] at hx' hyinit
        rw [List.mem_singleton.mp hx', List.mem_singleton.mp hyinit]
    exact hne (List.inj_on_of_nodup_map hnd (mem_writesAt.mp hy).1 (mem_writesAt.mp hx).1 hid)
  · intro hstarts x hx y hy
    obtain ⟨v, hv, hvkind, rfl⟩ := mem_initWritesAt.mp hx
    obtain ⟨w, hw, hwkind, rfl⟩ := mem_ordinaryWritesAt.mp hy
    refine hstarts v hv hvkind w hw ?_
    rintro rfl
    rw [hvkind] at hwkind
    cases hwkind

end Writes

/-! ## Coherence orders -/

section CoherenceOrders

variable {trace : Trace} {spec : GraphModelSpec} {operations : List MemoryOperation}
  {hints : List CoEvidence} {addresses : List Value}

/-- The edges at a write are those of the listing of its address. -/
theorem mem_listing_of_pair (hnd : (operations.map MemoryOperation.id).Nodup)
    (hcover : Addresses operations addresses) {g : Value → List String}
    (hperm : ∀ a ∈ addresses, (g a).Perm (writeIdsAt operations a)) {x : MemoryOperation}
    (hx : x ∈ operations) {y : String} (hpair : (x.id, y) ∈ pairsOf (addresses.map g)) {a : Value}
    (ha : a ∈ addresses) (haddress : x.address.key = a.key) : (x.id, y) ∈ orderedPairs (g a) := by
  obtain ⟨l, hl, hpair⟩ := mem_pairsOf.mp hpair
  obtain ⟨b, hb, rfl⟩ := List.mem_map.mp hl
  have hxb := (hperm b hb).subset (mem_of_mem_orderedPairs hpair).1
  have hkey := ((mem_writeIdsAt_of_mem hnd hx).mp hxb).2
  rwa [hcover.eq ha hb (haddress.symm.trans hkey)]

/-- Listings of the writes of every address that respect the hints are a
coherence order. -/
theorem isCoherenceOrder_of_listings (hnd : (operations.map MemoryOperation.id).Nodup)
    (hcover : Addresses operations addresses) (hamo : AmoFree operations)
    (hinit : ∀ a ∈ addresses, (initWritesAt operations a).length ≤ 1)
    (hhints : coHints trace spec = .ok hints) (hvalid : ∀ hint ∈ hints, CoHintValid operations hint)
    {g : Value → List String} (hg : ∀ a ∈ addresses, g a ∈ coherentOrders operations hints a) :
    IsCoherenceOrder trace spec operations (pairsOf (addresses.map g)) := by
  have hlisting : ∀ a ∈ addresses, (g a).Perm (writeIdsAt operations a) ∧
      StartsWithInit operations a (g a) := fun a ha =>
    (mem_orderCandidates_of_amoFree hnd hamo (hinit a ha)).mp (mem_coherentOrders.mp (hg a ha)).1
  have hperm := fun a ha => (hlisting a ha).1
  have hnodup : ∀ a ∈ addresses, (g a).Nodup := fun a ha =>
    (hperm a ha).nodup_iff.mpr (nodup_writeIdsAt hnd a)
  have hmem : ∀ {x y}, (x, y) ∈ pairsOf (addresses.map g) →
      ∃ a ∈ addresses, (x, y) ∈ orderedPairs (g a) := by
    intro x y hpair
    obtain ⟨l, hl, hpair⟩ := mem_pairsOf.mp hpair
    obtain ⟨a, ha, rfl⟩ := List.mem_map.mp hl
    exact ⟨a, ha, hpair⟩
  have hpairsOf : ∀ {x y a}, a ∈ addresses → (x, y) ∈ orderedPairs (g a) →
      (x, y) ∈ pairsOf (addresses.map g) := fun ha hpair =>
    mem_pairsOf.mpr ⟨_, List.mem_map_of_mem ha, hpair⟩
  refine ⟨?_, ?_, ?_, ?_, ?_⟩
  · rintro ⟨x, y⟩ he
    obtain ⟨a, ha, hpair⟩ := hmem he
    obtain ⟨hx, hy⟩ := mem_of_mem_orderedPairs hpair
    obtain ⟨v, hv, hvwrite, hvaddr, rfl⟩ := mem_writeIdsAt.mp ((hperm a ha).subset hx)
    obtain ⟨w, hw, hwwrite, hwaddr, rfl⟩ := mem_writeIdsAt.mp ((hperm a ha).subset hy)
    refine ⟨v, hv, w, hw, rfl, hvwrite, hwwrite, hvaddr.trans hwaddr.symm, ?_⟩
    rintro rfl
    exact Precedes.irrefl _ _ ((mem_orderedPairs (hnodup a ha)).mp hpair)
  · intro x y z hxy hyz
    obtain ⟨a, ha, hxy⟩ := hmem hxy
    have hy := (hperm a ha).subset (mem_of_mem_orderedPairs hxy).2
    obtain ⟨w, hw, -, hwaddr, rfl⟩ := mem_writeIdsAt.mp hy
    have hyz := mem_listing_of_pair hnd hcover hperm hw hyz ha hwaddr
    rw [mem_orderedPairs (hnodup a ha)] at hxy hyz
    exact hpairsOf ha ((mem_orderedPairs (hnodup a ha)).mpr (hxy.trans hyz))
  · intro v hv w hw hsame
    obtain ⟨a, ha, hkey⟩ := hcover.cover v hv hsame.left
    have hv' : v.id ∈ g a := (hperm a ha).symm.subset
      ((mem_writeIdsAt_of_mem hnd hv).mpr ⟨hsame.left, hkey.symm⟩)
    have hw' : w.id ∈ g a := (hperm a ha).symm.subset
      ((mem_writeIdsAt_of_mem hnd hw).mpr ⟨hsame.right, hsame.address.symm.trans hkey.symm⟩)
    exact (orderedPairs_total hv' hw' ((id_ne_iff hnd hv hw).mpr hsame.ne)).imp
      (hpairsOf ha) (hpairsOf ha)
  · intro v hv w hw hkind hsame
    obtain ⟨a, ha, hkey⟩ := hcover.cover v hv hsame.left
    have hprecedes := (hlisting a ha).2 v (mem_writesAt.mpr ⟨hv, hsame.left, hkey.symm⟩) hkind w
      (mem_writesAt.mpr ⟨hw, hsame.right, hsame.address.symm.trans hkey.symm⟩) hsame.ne.symm
    exact hpairsOf ha ((mem_orderedPairs (hnodup a ha)).mpr hprecedes)
  · intro evidence hevidence
    obtain ⟨hint, hhint, hkey⟩ := mem_of_coHinted hhints hevidence
    simp only [CoEvidence.semanticKey, Prod.mk.injEq] at hkey
    obtain ⟨v, hv, _, _, _, _, hsame, hvaddr⟩ := hvalid hint hhint
    obtain ⟨a, ha, hakey⟩ := hcover.cover v hv hsame.left
    have hat : hint ∈ hintsAt hints a := mem_hintsAt.mpr ⟨hhint, hvaddr.symm.trans hakey.symm⟩
    have hprecedes := (mem_coherentOrders.mp (hg a ha)).2 hint hat
    rw [hkey.1, hkey.2.1] at hprecedes
    exact hpairsOf ha ((mem_orderedPairs (hnodup a ha)).mpr hprecedes)

/-- A coherence order lists the writes of every address and respects the hints. -/
theorem exists_listings_of_isCoherenceOrder (hnd : (operations.map MemoryOperation.id).Nodup)
    (hcover : Addresses operations addresses) (hamo : AmoFree operations)
    (hinit : ∀ a ∈ addresses, (initWritesAt operations a).length ≤ 1)
    (hhints : coHints trace spec = .ok hints) (hvalid : ∀ hint ∈ hints, CoHintValid operations hint)
    {co : Finset Edge} (hco : IsCoherenceOrder trace spec operations co) :
    ∃ g : Value → List String, (∀ a ∈ addresses, g a ∈ coherentOrders operations hints a) ∧
      pairsOf (addresses.map g) = co := by
  have hirr : ∀ x, ¬ (x, x) ∈ co := by
    intro x hx
    obtain ⟨v, hv, w, hw, heq, hsame⟩ := hco.edge _ hx
    obtain ⟨hxv, hxw⟩ := Prod.mk.inj heq
    exact hsame.ne (List.inj_on_of_nodup_map hnd hv hw (hxv.symm.trans hxw))
  have htotal : ∀ l ∈ addresses.map (writeIdsAt operations), ∀ x ∈ l, ∀ y ∈ l, x ≠ y →
      (x, y) ∈ co ∨ (y, x) ∈ co := by
    intro l hl x hx y hy hne
    obtain ⟨a, -, rfl⟩ := List.mem_map.mp hl
    obtain ⟨v, hv, hvwrite, hvaddr, rfl⟩ := mem_writeIdsAt.mp hx
    obtain ⟨w, hw, hwwrite, hwaddr, rfl⟩ := mem_writeIdsAt.mp hy
    exact hco.total v hv w hw ⟨hvwrite, hwwrite, hvaddr.trans hwaddr.symm,
      (id_ne_iff hnd hv hw).mp hne⟩
  obtain ⟨listings, hblocks, hpairs⟩ := exists_listing (r := fun x y => (x, y) ∈ co)
    (blocks_writeIdsAt hnd hcover) hirr hco.trans htotal
  rw [List.forall₂_map_right_iff] at hblocks
  obtain ⟨g, rfl, hperm⟩ := (Choice.exists_map_iff hcover.nodup).mp hblocks
  have hnodup : ∀ a ∈ addresses, (g a).Nodup := fun a ha =>
    (hperm a ha).nodup_iff.mpr (nodup_writeIdsAt hnd a)
  -- every coherence edge stays inside the writes of one address
  have hmem : ∀ x y, (x, y) ∈ pairsOf (addresses.map g) ↔ (x, y) ∈ co := by
    intro x y
    rw [hpairs]
    refine ⟨fun h => h.1, fun h => ⟨h, ?_⟩⟩
    obtain ⟨v, hv, w, hw, heq, hsame⟩ := hco.edge _ h
    obtain ⟨rfl, rfl⟩ := Prod.mk.inj heq
    obtain ⟨a, ha, hkey⟩ := hcover.cover v hv hsame.left
    exact ⟨_, List.mem_map_of_mem ha, (mem_writeIdsAt_of_mem hnd hv).mpr ⟨hsame.left, hkey.symm⟩,
      (mem_writeIdsAt_of_mem hnd hw).mpr ⟨hsame.right, hsame.address.symm.trans hkey.symm⟩⟩
  have hprecedes : ∀ a ∈ addresses, ∀ v ∈ operations, v.address.key = a.key → ∀ y, (v.id, y) ∈ co →
      Precedes (g a) v.id y := by
    intro a ha v hv hkey y hy
    have hpair := mem_listing_of_pair hnd hcover hperm hv ((hmem _ _).mpr hy) ha hkey
    exact (mem_orderedPairs (hnodup a ha)).mp hpair
  refine ⟨g, fun a ha => mem_coherentOrders.mpr ⟨?_, ?_⟩, ?_⟩
  · rw [mem_orderCandidates_of_amoFree hnd hamo (hinit a ha)]
    refine ⟨hperm a ha, fun v hv hkind w hw hne => ?_⟩
    obtain ⟨hv, hvwrite, hvaddr⟩ := mem_writesAt.mp hv
    obtain ⟨hw, hwwrite, hwaddr⟩ := mem_writesAt.mp hw
    exact hprecedes a ha v hv hvaddr w.id
      (hco.initial v hv w hw hkind ⟨hvwrite, hwwrite, hvaddr.trans hwaddr.symm, hne.symm⟩)
  · intro hint hhint
    obtain ⟨hhint, hkey⟩ := mem_hintsAt.mp hhint
    obtain ⟨v, hv, _, _, hid, _, _, hvaddr⟩ := hvalid hint hhint
    have hedge := hco.hinted hint (coHinted_of_mem hhints hhint)
    rw [← hid] at hedge ⊢
    exact hprecedes a ha v hv (hvaddr.trans hkey) _ hedge
  · ext ⟨x, y⟩
    exact hmem x y

/-- The listed orders are the coherence orders. -/
theorem coAssignments_iff (hnd : (operations.map MemoryOperation.id).Nodup)
    (hcover : Addresses operations addresses) (hamo : AmoFree operations)
    (hinit : ∀ a ∈ addresses, (initWritesAt operations a).length ≤ 1)
    (hhints : coHints trace spec = .ok hints) (hvalid : ∀ hint ∈ hints, CoHintValid operations hint)
    (co : Finset Edge) :
    (∃ orders ∈ Choice.assignments (addresses.map
        (fun a => (a, coherentOrders operations hints a))),
      (coRelation (orders.map Prod.snd)).edges = co) ↔ IsCoherenceOrder trace spec operations co := by
  rw [Choice.exists_assignment_map hcover.nodup
    (P := fun listings => (coRelation listings).edges = co)]
  constructor
  · rintro ⟨g, hg, rfl⟩
    exact isCoherenceOrder_of_listings hnd hcover hamo hinit hhints hvalid hg
  · exact exists_listings_of_isCoherenceOrder hnd hcover hamo hinit hhints hvalid

end CoherenceOrders

end Umcm
