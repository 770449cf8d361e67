import Umcm.Graph.EnumerationExact

/-!
# Addresses and footprints

The builder groups accesses by the value of their address, the built-in model
by their footprint. Every candidate passes the validation of the built-in model
exactly when the two groupings agree on the accesses that are related.

* `rfSources_isOk_iff`, `validateCo_isOk_iff`: what the validation asks of an
  enumerated reads-from relation and coherence order.
* `candidatesValid_iff`: the condition on the operations of a trace.
* `maskTrace_not_valid`: two accesses at one address with disjoint byte masks.
-/

namespace Umcm

open FinOrder Except

/-- `_rf_sources` and `_validate_co` accept the base relations of a candidate. -/
def Candidate.Valid (operations : List MemoryOperation) (c : Candidate) : Prop :=
  (∃ sources, rfSources operations (rfRelation c.sources) = .ok sources) ∧
    validateCo operations (coRelation (c.orders.map Prod.snd)) = .ok ()

/-- On operations with scalar locations every candidate of the builder is accepted. -/
def CandidatesValid (trace : Trace) (spec : GraphModelSpec) : Prop :=
  ∀ space, buildCandidateSpace trace spec = .ok space →
    validateScalarLocations space.operations.list = .ok () →
    ∀ c ∈ space.candidates, c.Valid space.operations.list

/-- Two writes that the builder orders: at one address, and neither an AMO. -/
def OrderedWrites (a b : MemoryOperation) : Prop :=
  a.address.key = b.address.key ∧ a.kind ≠ .amo ∧ b.kind ≠ .amo

/-- A read has the footprint of every write it may be given, and two writes have
one footprint exactly when the builder orders them. -/
structure LocationsAgree (trace : Trace) (spec : GraphModelSpec) (operations : List MemoryOperation) :
    Prop where
  sources : ∀ r ∈ operations, r.isRead → ∀ w, Source trace spec operations r w → SameLocation w r
  writes : ∀ a ∈ operations, ∀ b ∈ operations, a.isWrite → b.isWrite → a ≠ b →
    (SameLocation a b ↔ OrderedWrites a b)

/-! ## Reads-from -/

section ReadsFrom

variable {trace : Trace} {spec : GraphModelSpec} {operations : List MemoryOperation}
  (hnd : (operations.map MemoryOperation.id).Nodup)
include hnd

/-- An enumerated reads-from edge is rejected only for crossing locations. -/
theorem validateRfEdge_eq_ok {w r : MemoryOperation} (hw : w ∈ operations) (hr : r ∈ operations)
    (hread : r.isRead = true) (hmay : MayRead w r) :
    validateRfEdge operations (w.id, r.id) = .ok () ↔ SameLocation w r := by
  have hne : w.id ≠ r.id := (id_ne_iff hnd hw hr).mpr hmay.ne
  simp only [validateRfEdge, endpoints_of_mem hnd hw hr, bind_eq_ok, require_eq_ok]
  constructor
  · rintro ⟨-, -, -, hloc, -⟩
    exact hloc
  · intro hloc
    exact ⟨(), ⟨hmay.write, hread, hne⟩, (), hloc, hmay.value⟩

omit hnd in
/-- A read of a reads-from relation has one source. -/
theorem rfSource_isOk {rf : Relation} (hrf : IsReadsFrom trace spec operations rf.edges)
    {r : MemoryOperation} (hr : r ∈ operations) (hread : r.isRead = true) :
    ∃ p, rfSource rf r = .ok p := by
  obtain ⟨x, hx⟩ := hrf.source r hr hread
  have hmem : ∀ y, y ∈ rfIncoming rf r.id ↔ (y, r.id) ∈ rf.edges := by
    intro y
    simp [rfIncoming]
  have hnodup : (rfIncoming rf r.id).Nodup := by
    rw [rfIncoming, List.nodup_map_iff_inj_on ((nodup_sortedEdges _).filter _)]
    intro e he e' he' heq
    have htarget : e.2 = r.id := by simpa using (List.mem_filter.mp he).2
    have htarget' : e'.2 = r.id := by simpa using (List.mem_filter.mp he').2
    exact Prod.ext heq (htarget.trans htarget'.symm)
  have hsingle : rfIncoming rf r.id = [x] := by
    apply List.perm_singleton.mp
    rw [List.perm_ext_iff_of_nodup hnodup (List.nodup_singleton x)]
    intro y
    rw [hmem, List.mem_singleton]
    constructor
    · intro hy
      exact hrf.unique y x r.id hy hx
    · rintro rfl
      exact hx
  exact ⟨(r.id, x), by rw [rfSource, hsingle]⟩

/-- The sources of an enumerated reads-from relation are accepted exactly when
no edge crosses locations. -/
theorem rfSources_isOk_iff {rf : Relation} (hrf : IsReadsFrom trace spec operations rf.edges) :
    (∃ sources, rfSources operations rf = .ok sources) ↔
      ∀ w ∈ operations, ∀ r ∈ operations, (w.id, r.id) ∈ rf.edges → SameLocation w r := by
  have hedge : ∀ w ∈ operations, ∀ r ∈ operations, (w.id, r.id) ∈ rf.edges →
      (validateRfEdge operations (w.id, r.id) = .ok () ↔ SameLocation w r) := by
    intro w hw r hr he
    obtain ⟨w', hw', r', hr', heq, hread, hmay, -⟩ := hrf.edge _ he
    rw [Prod.mk.injEq] at heq
    have hww := List.inj_on_of_nodup_map hnd hw hw' heq.1
    have hrr := List.inj_on_of_nodup_map hnd hr hr' heq.2
    subst hww hrr
    exact validateRfEdge_eq_ok hnd hw hr hread hmay
  constructor
  · rintro ⟨sources, h⟩ w hw r hr he
    obtain ⟨_, hedges, -⟩ := bind_eq_ok.mp h
    exact (hedge w hw r hr he).mp (forM_eq_ok.mp hedges _ (mem_sortedEdges.mpr he))
  · intro hloc
    have hedges : (sortedEdges rf.edges).forM (validateRfEdge operations) = .ok () := by
      rw [forM_eq_ok]
      intro e he
      rw [mem_sortedEdges] at he
      obtain ⟨w, hw, r, hr, rfl, -⟩ := hrf.edge e he
      exact (hedge w hw r hr he).mpr (hloc w hw r hr he)
    obtain ⟨sources, hsources⟩ : ∃ sources,
        (operations.filter MemoryOperation.isRead).mapM (rfSource rf) = .ok sources := by
      apply exists_mapM
      intro r hr
      obtain ⟨hr, hread⟩ := List.mem_filter.mp hr
      exact rfSource_isOk hrf hr hread
    exact ⟨_, bind_eq_ok.mpr ⟨(), hedges, bind_eq_ok.mpr ⟨sources, hsources, rfl⟩⟩⟩

end ReadsFrom

/-! ## Coherence order -/

/-- What an enumerated coherence order is: a strict order, total over the writes
of each address that are not AMOs, with the initial write first. -/
structure OrdinaryOrder (operations : List MemoryOperation) (co : Finset Edge) : Prop where
  edge : ∀ e ∈ co, ∃ a ∈ operations, ∃ b ∈ operations, e = (a.id, b.id) ∧ a.isWrite = true ∧
    b.isWrite = true ∧ a ≠ b ∧ OrderedWrites a b
  trans : ∀ x y z, (x, y) ∈ co → (y, z) ∈ co → (x, z) ∈ co
  total : ∀ a ∈ operations, ∀ b ∈ operations, a.isWrite = true → b.isWrite = true → a ≠ b →
    OrderedWrites a b → (a.id, b.id) ∈ co ∨ (b.id, a.id) ∈ co
  initial : ∀ a ∈ operations, ∀ b ∈ operations, a.isWrite = true → b.isWrite = true → a ≠ b →
    OrderedWrites a b → a.kind = .initWrite → (a.id, b.id) ∈ co

namespace OrdinaryOrder

variable {operations : List MemoryOperation} {co : Relation}
  (hnd : (operations.map MemoryOperation.id).Nodup) (h : OrdinaryOrder operations co.edges)
include hnd h

theorem irrefl (x : String) : (x, x) ∉ co.edges := by
  intro hx
  obtain ⟨a, ha, b, hb, heq, -, -, hne, -⟩ := h.edge _ hx
  rw [Prod.mk.injEq] at heq
  exact hne (List.inj_on_of_nodup_map hnd ha hb (heq.1.symm.trans heq.2))

theorem asymm {x y : String} (hxy : (x, y) ∈ co.edges) : (y, x) ∉ co.edges :=
  fun hyx => h.irrefl hnd x (h.trans x y x hxy hyx)

theorem edge_of_mem {a b : MemoryOperation} (ha : a ∈ operations) (hb : b ∈ operations)
    (he : (a.id, b.id) ∈ co.edges) : OrderedWrites a b := by
  obtain ⟨a', ha', b', hb', heq, -, -, -, hordered⟩ := h.edge _ he
  rw [Prod.mk.injEq] at heq
  have haa := List.inj_on_of_nodup_map hnd ha ha' heq.1
  have hbb := List.inj_on_of_nodup_map hnd hb hb' heq.2
  subst haa hbb
  exact hordered

theorem acyclic : findLabeledCycle [co] = none := by
  rw [findLabeledCycle_eq_none_iff]
  refine acyclic_of_subrelation (s := fun x y => (x, y) ∈ co.edges) ?_ (h.irrefl hnd) h.trans
  intro x y hxy
  simpa [mem_allEdges] using hxy

end OrdinaryOrder

theorem OrderedWrites.symm {a b : MemoryOperation} (h : OrderedWrites a b) : OrderedWrites b a :=
  ⟨h.1.symm, h.2.2, h.2.1⟩

/-- An enumerated coherence order is accepted exactly when the writes of one
footprint are those that it orders. -/
theorem validateCo_isOk_iff {operations : List MemoryOperation} {co : Relation}
    (hnd : (operations.map MemoryOperation.id).Nodup) (h : OrdinaryOrder operations co.edges) :
    validateCo operations co = .ok () ↔ ∀ a ∈ operations, ∀ b ∈ operations, a.isWrite → b.isWrite →
      a ≠ b → (SameLocation a b ↔ OrderedWrites a b) := by
  simp only [validateCo, bind_eq_ok, forM_eq_ok, require_eq_ok]
  constructor
  · rintro ⟨_, hedges, _, hpairs, -⟩ a ha b hb hwa hwb hne
    have hcross : ∀ {x y : MemoryOperation}, x ∈ operations → y ∈ operations →
        (x.id, y.id) ∈ co.edges → SameLocation x y := by
      intro x y hx hy he
      have hedge := hedges _ (mem_sortedEdges.mpr he)
      simp only [validateCoEdge, endpoints_of_mem hnd hx hy, require_eq_ok] at hedge
      exact hedge.2.2.2
    constructor
    · intro hloc
      -- the pair has a direction, so the builder has ordered it
      have hdirection : (a.id, b.id) ∈ co.edges ∨ (b.id, a.id) ∈ co.edges := by
        rcases orderedPairs_total (List.mem_filter.mpr ⟨ha, hwa⟩) (List.mem_filter.mpr ⟨hb, hwb⟩)
          hne with hp | hp
        · have hiff := require_eq_ok.mp (hpairs _ hp) hloc
          tauto
        · have hiff := require_eq_ok.mp (hpairs _ hp) hloc.symm
          tauto
      rcases hdirection with he | he
      · exact h.edge_of_mem hnd ha hb he
      · exact (h.edge_of_mem hnd hb ha he).symm
    · intro hordered
      rcases h.total a ha b hb hwa hwb hne hordered with he | he
      · exact hcross ha hb he
      · exact (hcross hb ha he).symm
  · intro hagree
    refine ⟨⟨⟩, ?_, ⟨⟩, ?_, (), h.acyclic hnd, ?_⟩
    · intro e he
      obtain ⟨a, ha, b, hb, rfl, hwa, hwb, hne, hordered⟩ := h.edge e (mem_sortedEdges.mp he)
      simp only [validateCoEdge, endpoints_of_mem hnd ha hb, require_eq_ok]
      exact ⟨hwa, hwb, (id_ne_iff hnd ha hb).mpr hne, (hagree a ha b hb hwa hwb hne).mpr hordered⟩
    · rintro ⟨a, b⟩ hp
      obtain ⟨ha, hb⟩ := mem_of_mem_orderedPairs hp
      obtain ⟨ha, hwa⟩ := List.mem_filter.mp ha
      obtain ⟨hb, hwb⟩ := List.mem_filter.mp hb
      have hwrites : (operations.filter MemoryOperation.isWrite).Nodup :=
        (List.Nodup.of_map _ hnd).filter _
      have hne : a ≠ b := by
        rintro rfl
        exact Precedes.irrefl _ _ ((mem_orderedPairs hwrites).mp hp)
      refine require_eq_ok.mpr (fun hloc => ?_)
      have hordered := (hagree a ha b hb hwa hwb hne).mp hloc
      constructor
      · exact h.asymm hnd
      · intro hnot
        exact (h.total a ha b hb hwa hwb hne hordered).resolve_right hnot
    · intro a ha b hb hid hloc
      obtain ⟨hmem, hkind⟩ := List.mem_filter.mp ha
      obtain ⟨ha, hwa⟩ := List.mem_filter.mp hmem
      obtain ⟨hb, hwb⟩ := List.mem_filter.mp hb
      have hne : a ≠ b := by
        rintro rfl
        exact hid rfl
      exact h.initial a ha b hb hwa hwb hne ((hagree a ha b hb hwa hwb hne).mp hloc)
        (by simpa using hkind)

/-! ## The enumerated orders -/

section Listings

variable {operations : List MemoryOperation} {address : Value} {order : List String}
  (hnd : (operations.map MemoryOperation.id).Nodup)
include hnd

/-- The initial and the permuted writes of an address are listed once. -/
theorem nodup_listed (address : Value) :
    (initWritesAt operations address ++ ordinaryWritesAt operations address).Nodup := by
  have hinit : (initWritesAt operations address).Perm
      (((writesAt operations address).filter (fun op => op.kind = .initWrite)).map
        MemoryOperation.id) := List.perm_insertionSort _ _
  have hnodup : (initWritesAt operations address).Nodup :=
    hinit.nodup_iff.mpr ((nodup_writeIdsAt hnd address).sublist
      (List.Sublist.map _ List.filter_sublist))
  refine hnodup.append (nodup_ordinaryWritesAt hnd address) ?_
  intro x hx hx'
  obtain ⟨v, hv, hvkind, rfl⟩ := mem_initWritesAt.mp hx
  obtain ⟨w, hw, hwkind, hid⟩ := mem_ordinaryWritesAt.mp hx'
  have heq := List.inj_on_of_nodup_map hnd (mem_writesAt.mp hw).1 (mem_writesAt.mp hv).1 hid
  rw [← heq, hwkind] at hvkind
  cases hvkind

theorem nodup_order (hinit : (initWritesAt operations address).length ≤ 1)
    (horder : order ∈ orderCandidates operations address) : order.Nodup := by
  rw [((mem_orderCandidates hinit (nodup_listed hnd address)).mp horder).1.nodup_iff]
  exact nodup_listed hnd address

omit hnd in
theorem mem_listed {x : String} :
    x ∈ initWritesAt operations address ++ ordinaryWritesAt operations address ↔
      ∃ w ∈ operations, w.isWrite = true ∧ w.address.key = address.key ∧ w.kind ≠ .amo ∧
        w.id = x := by
  rw [List.mem_append, mem_initWritesAt, mem_ordinaryWritesAt]
  constructor
  · rintro (⟨w, hw, hkind, hid⟩ | ⟨w, hw, hkind, hid⟩)
    · obtain ⟨hw, hwrite, haddress⟩ := mem_writesAt.mp hw
      exact ⟨w, hw, hwrite, haddress, by rw [hkind]; decide, hid⟩
    · obtain ⟨hw, hwrite, haddress⟩ := mem_writesAt.mp hw
      exact ⟨w, hw, hwrite, haddress, by rw [hkind]; decide, hid⟩
  · rintro ⟨w, hw, hwrite, haddress, hkind, hid⟩
    have hat := mem_writesAt.mpr ⟨hw, hwrite, haddress⟩
    cases hk : w.kind with
    | initWrite => exact Or.inl ⟨w, hat, hk, hid⟩
    | write => exact Or.inr ⟨w, hat, hk, hid⟩
    | read => simp [MemoryOperation.isWrite, hk] at hwrite
    | amo => exact absurd hk hkind

/-- An order lists the writes of its address that are not AMOs. -/
theorem mem_order (hinit : (initWritesAt operations address).length ≤ 1)
    (horder : order ∈ orderCandidates operations address) {w : MemoryOperation}
    (hw : w ∈ operations) :
    w.id ∈ order ↔ w.isWrite = true ∧ w.address.key = address.key ∧ w.kind ≠ .amo := by
  rw [((mem_orderCandidates hinit (nodup_listed hnd address)).mp horder).1.mem_iff, mem_listed]
  constructor
  · rintro ⟨w', hw', hwrite, haddress, hkind, hid⟩
    rw [← List.inj_on_of_nodup_map hnd hw' hw hid]
    exact ⟨hwrite, haddress, hkind⟩
  · rintro ⟨hwrite, haddress, hkind⟩
    exact ⟨w, hw, hwrite, haddress, hkind, rfl⟩

/-- The initial write is first. -/
theorem precedes_of_initial (hinit : (initWritesAt operations address).length ≤ 1)
    (horder : order ∈ orderCandidates operations address) {v w : MemoryOperation}
    (hv : v ∈ operations) (hw : w ∈ operations) (hvin : v.id ∈ order) (hwin : w.id ∈ order)
    (hkind : v.kind = .initWrite) (hne : v ≠ w) : Precedes order v.id w.id := by
  obtain ⟨hperm, hfirst⟩ := (mem_orderCandidates hinit (nodup_listed hnd address)).mp horder
  obtain ⟨hvwrite, hvaddress, -⟩ := (mem_order hnd hinit horder hv).mp hvin
  have hvinit : v.id ∈ initWritesAt operations address :=
    mem_initWritesAt.mpr ⟨v, mem_writesAt.mpr ⟨hv, hvwrite, hvaddress⟩, hkind, rfl⟩
  apply hfirst v.id hvinit
  rcases List.mem_append.mp (hperm.subset hwin) with hwinit | hordinary
  · rcases nil_or_singleton hinit with hnil | ⟨x, hx⟩
    · rw [hnil] at hvinit
      cases hvinit
    · rw [hx, List.mem_singleton] at hvinit hwinit
      exact absurd (List.inj_on_of_nodup_map hnd hv hw (hvinit.trans hwinit.symm)) hne
  · exact hordinary

/-- The edges of the chosen orders. -/
theorem ordinaryOrder_of_listings {addresses : List Value} (hcover : Addresses operations addresses)
    (hinit : ∀ a ∈ addresses, (initWritesAt operations a).length ≤ 1) {g : Value → List String}
    (hg : ∀ a ∈ addresses, g a ∈ orderCandidates operations a) :
    OrdinaryOrder operations (pairsOf (addresses.map g)) := by
  have hmem : ∀ {x y}, (x, y) ∈ pairsOf (addresses.map g) ↔
      ∃ a ∈ addresses, Precedes (g a) x y := by
    intro x y
    rw [mem_pairsOf]
    constructor
    · rintro ⟨l, hl, hpair⟩
      obtain ⟨a, ha, rfl⟩ := List.mem_map.mp hl
      exact ⟨a, ha, (mem_orderedPairs (nodup_order hnd (hinit a ha) (hg a ha))).mp hpair⟩
    · rintro ⟨a, ha, hprecedes⟩
      exact ⟨_, List.mem_map_of_mem ha,
        (mem_orderedPairs (nodup_order hnd (hinit a ha) (hg a ha))).mpr hprecedes⟩
  have hlisted : ∀ {a x}, a ∈ addresses → x ∈ g a → ∃ w ∈ operations, w.id = x ∧ w.isWrite = true ∧
      w.address.key = a.key ∧ w.kind ≠ .amo := by
    intro a x ha hx
    obtain ⟨w, hw, hkind, rfl⟩ := kind_of_mem_orderCandidates (hg a ha) hx
    obtain ⟨hw, hwrite, haddress⟩ := mem_writesAt.mp hw
    exact ⟨w, hw, rfl, hwrite, haddress, hkind⟩
  have hjoin : ∀ v ∈ operations, ∀ w ∈ operations, v.isWrite = true → w.isWrite = true →
      OrderedWrites v w → ∃ a ∈ addresses, v.id ∈ g a ∧ w.id ∈ g a := by
    intro v hv w hw hvwrite hwwrite ⟨haddress, hvkind, hwkind⟩
    obtain ⟨a, ha, hkey⟩ := hcover.cover v hv hvwrite
    exact ⟨a, ha, (mem_order hnd (hinit a ha) (hg a ha) hv).mpr ⟨hvwrite, hkey.symm, hvkind⟩,
      (mem_order hnd (hinit a ha) (hg a ha) hw).mpr
        ⟨hwwrite, haddress.symm.trans hkey.symm, hwkind⟩⟩
  constructor
  · rintro ⟨x, y⟩ he
    obtain ⟨a, ha, hprecedes⟩ := hmem.mp he
    obtain ⟨v, hv, rfl, hvwrite, hvaddress, hvkind⟩ := hlisted ha hprecedes.1
    obtain ⟨w, hw, rfl, hwwrite, hwaddress, hwkind⟩ := hlisted ha hprecedes.2.1
    refine ⟨v, hv, w, hw, rfl, hvwrite, hwwrite, ?_, hvaddress.trans hwaddress.symm, hvkind, hwkind⟩
    rintro rfl
    exact Precedes.irrefl _ _ hprecedes
  · intro x y z hxy hyz
    obtain ⟨a, ha, hxy⟩ := hmem.mp hxy
    obtain ⟨b, hb, hyz⟩ := hmem.mp hyz
    -- both edges come from the order of the address of `y`
    obtain ⟨w, hw, rfl, -, hwaddress, -⟩ := hlisted ha hxy.2.1
    have hwb := ((mem_order hnd (hinit b hb) (hg b hb) hw).mp hyz.1).2.1
    have hab : a = b := hcover.eq ha hb (hwaddress.symm.trans hwb)
    subst hab
    exact hmem.mpr ⟨a, ha, hxy.trans hyz⟩
  · intro v hv w hw hvwrite hwwrite hne hordered
    obtain ⟨a, ha, hvin, hwin⟩ := hjoin v hv w hw hvwrite hwwrite hordered
    exact (precedes_total hvin hwin ((id_ne_iff hnd hv hw).mpr hne)).imp
      (fun h => hmem.mpr ⟨a, ha, h⟩) (fun h => hmem.mpr ⟨a, ha, h⟩)
  · intro v hv w hw hvwrite hwwrite hne hordered hkind
    obtain ⟨a, ha, hvin, hwin⟩ := hjoin v hv w hw hvwrite hwwrite hordered
    exact hmem.mpr ⟨a, ha, precedes_of_initial hnd (hinit a ha) (hg a ha) hv hw hvin hwin hkind hne⟩

end Listings

/-! ## Every candidate -/

/-- A space is built only when no address has two initial writes. -/
theorem oneInitialWrite_of_ok {trace : Trace} {spec : GraphModelSpec} {space : CandidateSpace}
    {operations : Operations} (hops : projectOperations trace spec.projection = .ok operations)
    (h : buildCandidateSpace trace spec = .ok space) : OneInitialWrite operations.list := by
  simp only [buildCandidateSpace, bind_eq_ok, hops] at h
  obtain ⟨_, heq, _, -, hints, -, _, -, _, hcoOrders, -⟩ := h
  cases heq
  intro x hx y hy hxkind hykind haddress
  have hxwrite : x.isWrite = true := by simp [MemoryOperation.isWrite, hxkind]
  have hywrite : y.isWrite = true := by simp [MemoryOperation.isWrite, hykind]
  obtain ⟨a, ha, hkey⟩ := exists_writeAddress hx hxwrite
  obtain ⟨_, -, hchoice⟩ := mapM_result hcoOrders ha
  obtain ⟨_, hlength, -⟩ := bind_eq_ok.mp hchoice
  have hmem : ∀ w ∈ operations.list, w.isWrite = true → w.kind = .initWrite →
      w.address.key = a.key → w.id ∈ initWritesAt operations.list a := fun w hw hwrite hkind haddr =>
    mem_initWritesAt.mpr ⟨w, mem_writesAt.mpr ⟨hw, hwrite, haddr⟩, hkind, rfl⟩
  have hxin := hmem x hx hxwrite hxkind hkey.symm
  have hyin := hmem y hy hywrite hykind (haddress.symm.trans hkey.symm)
  rcases nil_or_singleton (require_eq_ok.mp hlength) with hnil | ⟨z, hz⟩
  · rw [hnil] at hxin
    cases hxin
  · rw [hz, List.mem_singleton] at hxin hyin
    exact List.inj_on_of_nodup_map operations.nodup hx hy (hxin.trans hyin.symm)

namespace SpaceParts

variable {trace : Trace} {spec : GraphModelSpec} {operations : List MemoryOperation}
  {space : CandidateSpace} {rfTable : Dict String RfEvidence} {hints : List CoEvidence}
  (hp : SpaceParts trace spec operations space rfTable hints)
  (hnd : (operations.map MemoryOperation.id).Nodup)
include hp hnd

theorem isReadsFrom {c : Candidate} (hc : c ∈ space.candidates) :
    IsReadsFrom trace spec operations (rfRelation c.sources).edges :=
  ((hp.rfTable_choices hnd).exists_iff _).mp ⟨c.sources, (mem_candidates.mp hc).1, rfl⟩

theorem ordinaryOrder (hone : OneInitialWrite operations) {c : Candidate}
    (hc : c ∈ space.candidates) :
    OrdinaryOrder operations (coRelation (c.orders.map Prod.snd)).edges := by
  obtain ⟨addresses, hcover, -, hordered⟩ := hp.exists_addresses
  have horders := (mem_candidates.mp hc).2
  rw [hordered] at horders
  obtain ⟨g, hg, heq⟩ := (Choice.exists_assignment_map hcover.nodup
    (P := fun listings => pairsOf listings = (coRelation (c.orders.map Prod.snd)).edges)).mp
    ⟨c.orders, horders, rfl⟩
  rw [← heq]
  exact ordinaryOrder_of_listings hnd hcover (fun a _ => length_initWritesAt hnd hone a)
    (fun a ha => (mem_coherentOrders.mp (hg a ha)).1)

/-- Every source of a read is chosen in some candidate. -/
theorem exists_candidate_of_source {r w : MemoryOperation} (hr : r ∈ operations)
    (hread : r.isRead = true) (hw : Source trace spec operations r w) :
    ∃ c ∈ space.candidates, (w.id, r.id) ∈ (rfRelation c.sources).edges := by
  have ht := hp.rfTable_choices hnd
  obtain ⟨c₀, hc₀⟩ := hp.exists_candidate hnd
  obtain ⟨q, hq, hid⟩ := ht.all r hr hread
  have hmem : w.id ∈ q.2 := (ht.mem q hq r hr hid w.id).mpr ⟨w, hw, rfl⟩
  obtain ⟨sources, hsources, hchosen⟩ := Choice.exists_assignment_through ht.choices_ne hq hmem
  refine ⟨⟨sources, c₀.orders⟩, mem_candidates.mpr ⟨hsources, (mem_candidates.mp hc₀).2⟩, ?_⟩
  rw [mem_rfRelation, ← hid]
  exact hchosen

end SpaceParts

/-- The candidates of a trace with scalar locations are accepted exactly when
addresses and footprints agree on its operations. -/
theorem candidatesValid_iff {trace : Trace} {spec : GraphModelSpec} {space : CandidateSpace}
    (hspace : buildCandidateSpace trace spec = .ok space)
    (hscalar : validateScalarLocations space.operations.list = .ok ()) :
    CandidatesValid trace spec ↔ LocationsAgree trace spec space.operations.list := by
  have hops : projectOperations trace spec.projection = .ok space.operations := by
    have h := hspace
    simp only [buildCandidateSpace, bind_eq_ok] at h
    obtain ⟨operations, hops, _, -, _, -, _, -, _, -, _, -, _, -, h⟩ := h
    cases h
    exact hops
  have hnd := space.operations.nodup
  have hone := oneInitialWrite_of_ok hops hspace
  obtain ⟨rfTable, hints, hp⟩ := spaceParts_of_ok hops hone hspace
  have hvalid : CandidatesValid trace spec ↔
      ∀ c ∈ space.candidates, c.Valid space.operations.list := by
    constructor
    · intro h
      exact h space hspace hscalar
    · intro h space' hspace' _
      rw [hspace] at hspace'
      cases hspace'
      exact h
  rw [hvalid]
  constructor
  · intro h
    constructor
    · intro r hr hread w hw
      obtain ⟨c, hc, he⟩ := hp.exists_candidate_of_source hnd hr hread hw
      exact (rfSources_isOk_iff hnd (hp.isReadsFrom hnd hc)).mp (h c hc).1 w hw.1 r hr he
    · obtain ⟨c, hc⟩ := hp.exists_candidate hnd
      exact (validateCo_isOk_iff hnd (hp.ordinaryOrder hnd hone hc)).mp (h c hc).2
  · intro h c hc
    constructor
    · rw [rfSources_isOk_iff hnd (hp.isReadsFrom hnd hc)]
      intro w hw r hr he
      obtain ⟨w', hw', r', hr', heq, hread, hmay, hhinted⟩ := (hp.isReadsFrom hnd hc).edge _ he
      rw [Prod.mk.injEq] at heq
      have hww := List.inj_on_of_nodup_map hnd hw hw' heq.1
      have hrr := List.inj_on_of_nodup_map hnd hr hr' heq.2
      subst hww hrr
      exact h.sources r hr hread w ⟨hw, hmay, hhinted⟩
    · exact (validateCo_isOk_iff hnd (hp.ordinaryOrder hnd hone hc)).mpr h.writes

/-! ## Disjoint byte masks at one address -/

def maskSpec : GraphModelSpec :=
  { amoSpec with
    projection := { amoProjection with metadataFields := .ofList [("byte_mask", "byte_mask")] } }

/-- The initial write of byte 0 and a store to byte 1 of one word. -/
def maskTrace : Trace where
  events :=
    [ occurring 0 "Arch" "InitWrite"
        [("op_id", .str "i"), ("address", .int 8), ("value", .int 0), ("byte_mask", .int 1)],
      occurring 1 "Arch" "Store"
        [("op_id", .str "w"), ("address", .int 8), ("value", .int 1), ("byte_mask", .int 2),
          ("hart", .int 0), ("program_index", .int 0)] ]
  constraints := []
  isPartial := false
  nodup := by decide
  bool_constraints := Expr.bool_of_mem_nil

theorem maskTrace_scalar : ∃ space, buildCandidateSpace maskTrace maskSpec = .ok space ∧
    validateScalarLocations space.operations.list = .ok () := by
  have h : (do
      let space ← buildCandidateSpace maskTrace maskSpec
      validateScalarLocations space.operations.list : Except PyError Unit) = .ok () := by
    decide +kernel
  obtain ⟨space, hspace, hscalar⟩ := bind_eq_ok.mp h
  exact ⟨space, hspace, hscalar⟩

/-- The condition on this trace. -/
theorem maskTrace_valid_iff : ∃ space, buildCandidateSpace maskTrace maskSpec = .ok space ∧
    (CandidatesValid maskTrace maskSpec ↔
      LocationsAgree maskTrace maskSpec space.operations.list) := by
  obtain ⟨space, hspace, hscalar⟩ := maskTrace_scalar
  exact ⟨space, hspace, candidatesValid_iff hspace hscalar⟩

/-- The footprints are disjoint, and the builder orders the two writes all the same. -/
theorem maskTrace_not_valid : ¬ CandidatesValid maskTrace maskSpec := by
  have h : (do
      let space ← buildCandidateSpace maskTrace maskSpec
      return space.candidates.map (fun c =>
        decide (validateCo space.operations.list (coRelation (c.orders.map Prod.snd)) = .ok ())) :
      Except PyError (List Bool)) = .ok [false] := by decide +kernel
  obtain ⟨space, hspace, h⟩ := bind_eq_ok.mp h
  obtain ⟨space', hspace', hscalar⟩ := maskTrace_scalar
  rw [hspace] at hspace'
  cases hspace'
  intro hvalid
  have hlist : space.candidates.map (fun c =>
      decide (validateCo space.operations.list (coRelation (c.orders.map Prod.snd)) = .ok ())) =
      [false] := Except.ok.inj h
  obtain ⟨c, hc, hfalse⟩ := List.mem_map.mp (hlist.symm ▸ List.mem_singleton_self false)
  exact of_decide_eq_false hfalse (hvalid space hspace hscalar c hc).2

end Umcm
