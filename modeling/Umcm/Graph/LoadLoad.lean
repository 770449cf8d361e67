import Umcm.Graph.Builder
import Umcm.Graph.RvwmoExecution

/-!
# Load-load order in the builder and in RVWMO

The builder has its own implementation of rule 2 of preserved program order. It
looks for plain stores between the two loads, where the built-in model looks for
every operation that writes.

* `ppoRelation_eq_rule2_iff`: when the two implementations agree.
-/

namespace Umcm

/-- Whether a write of the given kind to the location stands between the operations. -/
def WriteBetween (operations : List MemoryOperation) (isKind : MemoryOperation → Prop)
    (a b : MemoryOperation) : Prop :=
  ∃ m ∈ operations, isKind m ∧ m.address.key = a.address.key ∧ Between a m b

/-- Two loads of one location with different sources. -/
structure LoadPair (choice : List (String × String)) (a b : MemoryOperation) : Prop where
  source : a.isRead = true
  target : b.isRead = true
  location : a.address.key = b.address.key
  differ : Dict.lookup a.id choice ≠ Dict.lookup b.id choice

/-- A write to the location between two loads with different sources does not
stand there without a store: it is no AMO that stands there alone. -/
def WritesAccompanied (operations : List MemoryOperation) (choice : List (String × String)) :
    Prop :=
  ∀ a ∈ operations, ∀ b ∈ operations, LoadPair choice a b →
    WriteBetween operations (fun m => m.isWrite = true) a b →
    WriteBetween operations (fun m => m.kind = .write) a b

section Rule2

variable {operations : List MemoryOperation} {choice : List (String × String)}
  {sources : Dict String String}

/-- The choice of the builder is what the checker reads off the reads-from relation. -/
theorem lookup_choice (hnd : (operations.map MemoryOperation.id).Nodup)
    (hkeys : (choice.map Prod.fst).Nodup)
    (hsources : rfSources operations (rfRelation choice) = .ok sources) {r : MemoryOperation}
    (hr : r ∈ operations) (hread : r.isRead) :
    Dict.lookup r.id choice = sources.get? r.id := by
  obtain ⟨pairs, rfl, -, hpairsNodup, hpairs⟩ := rfSources_pairs hnd hsources
  obtain ⟨source, hmem, hincoming⟩ := hpairs r hr hread
  rw [Dict.get?_ofList_of_mem hpairsNodup hmem]
  refine Dict.lookup_of_mem hkeys ?_
  have hedge : source ∈ rfIncoming (rfRelation choice) r.id := by
    rw [hincoming]
    exact List.mem_singleton_self source
  simpa [rfIncoming, rfRelation] using hedge

theorem loadLoadPreserved_iff (hnd : (operations.map MemoryOperation.id).Nodup)
    {a b : MemoryOperation} (ha : a ∈ operations) (hb : b ∈ operations) :
    loadLoadPreserved operations choice (a.id, b.id) = true ↔
      LoadPair choice a b ∧ ¬ WriteBetween operations (fun m => m.kind = .write) a b := by
  have hany : operations.any (fun op => op.kind = .write && op.hart = a.hart &&
      op.address.pyEq a.address && Between a op b) = true ↔
        WriteBetween operations (fun m => m.kind = .write) a b := by
    simp only [List.any_eq_true, Bool.and_eq_true, decide_eq_true_eq, Value.pyEq_iff]
    constructor
    · rintro ⟨m, hm, ⟨⟨hkind, -⟩, haddress⟩, hbetween⟩
      exact ⟨m, hm, hkind, haddress, hbetween⟩
    · rintro ⟨m, hm, hkind, haddress, hbetween⟩
      exact ⟨m, hm, ⟨⟨hkind, hbetween.1.1.symm⟩, haddress⟩, hbetween⟩
  rw [loadLoadPreserved, endpoints_of_mem hnd ha hb]
  simp only [Bool.and_eq_true, Bool.not_eq_true', decide_eq_true_eq, Value.pyEq_iff]
  rw [← Bool.not_eq_true, hany]
  constructor
  · rintro ⟨⟨⟨⟨hread, hread'⟩, hlocation⟩, hdiffer⟩, hnone⟩
    exact ⟨⟨hread, hread', hlocation, hdiffer⟩, hnone⟩
  · rintro ⟨⟨hread, hread', hlocation, hdiffer⟩, hnone⟩
    exact ⟨⟨⟨⟨hread, hread'⟩, hlocation⟩, hdiffer⟩, hnone⟩

/-- The edges of the builder. -/
theorem mem_ppoRelation (hnd : (operations.map MemoryOperation.id).Nodup) {po : Relation}
    (hpo : canonicalPo operations = .ok po) {rules : List PpoRule}
    (hrules : .loadLoadDifferentWrite ∈ rules) {e : Edge} :
    e ∈ (ppoRelation po choice operations rules).edges ↔
      ∃ a ∈ operations, ∃ b ∈ operations, e = (a.id, b.id) ∧ PoBefore a b ∧ LoadPair choice a b ∧
        ¬ WriteBetween operations (fun m => m.kind = .write) a b := by
  rw [ppoRelation, if_pos hrules, Finset.mem_filter, mem_programOrder hnd hpo]
  constructor
  · rintro ⟨⟨a, ha, b, hb, hab, rfl⟩, hkept⟩
    exact ⟨a, ha, b, hb, rfl, hab, (loadLoadPreserved_iff hnd ha hb).mp hkept⟩
  · rintro ⟨a, ha, b, hb, rfl, hab, hkept⟩
    exact ⟨⟨a, ha, b, hb, hab, rfl⟩, (loadLoadPreserved_iff hnd ha hb).mpr hkept⟩

section Single

variable (hsingle : ∀ op ∈ operations, footprint op = .ok {op.address.key})

include hsingle

theorem ppoRule2_iff {ctx : PpoContext} (hctx : ctx.operations = operations)
    {a b : MemoryOperation} (ha : a ∈ operations) (hb : b ∈ operations)
    (hsource : a.isRead → Dict.lookup a.id choice = ctx.rfSources.get? a.id)
    (htarget : b.isRead → Dict.lookup b.id choice = ctx.rfSources.get? b.id) :
    ppoRule2 ctx a b = true ↔
      LoadPair choice a b ∧ ¬ WriteBetween operations (fun m => m.isWrite = true) a b := by
  have hfoot : ∀ op ∈ operations, footprintOf op = {op.address.key} :=
    fun op hop => footprintOf_eq (hsingle op hop)
  have hoverlap : Overlap a b ↔ a.address.key = b.address.key := by
    unfold Overlap
    rw [hfoot a ha, hfoot b hb]
    simp [Finset.Nonempty]
  have hany : a.address.key = b.address.key →
      (ctx.operations.any (fun middle => middle.isWrite && Between a middle b &&
        ((footprintOf a ∩ footprintOf b) ∩ footprintOf middle).Nonempty) = true ↔
      WriteBetween operations (fun m => m.isWrite = true) a b) := by
    intro hlocation
    have hcommon : footprintOf a ∩ footprintOf b = {a.address.key} := by
      rw [hfoot a ha, hfoot b hb, hlocation, Finset.inter_self]
    rw [hctx]
    simp only [List.any_eq_true, Bool.and_eq_true, decide_eq_true_eq, hcommon]
    constructor
    · rintro ⟨m, hm, ⟨hwrite, hbetween⟩, hmeets⟩
      rw [hfoot m hm] at hmeets
      obtain ⟨byte, hbyte⟩ := hmeets
      simp only [Finset.mem_inter, Finset.mem_singleton] at hbyte
      exact ⟨m, hm, hwrite, hbyte.2.symm.trans hbyte.1, hbetween⟩
    · rintro ⟨m, hm, hwrite, haddress, hbetween⟩
      refine ⟨m, hm, ⟨hwrite, hbetween⟩, ?_⟩
      rw [hfoot m hm, haddress, Finset.inter_self]
      exact Finset.singleton_nonempty _
  simp only [ppoRule2, Bool.and_eq_true, Bool.not_eq_true', decide_eq_true_eq, hoverlap]
  constructor
  · rintro ⟨⟨⟨⟨hread, hread'⟩, hlocation⟩, hnone⟩, hdiffer⟩
    rw [← Bool.not_eq_true, hany hlocation] at hnone
    rw [← hsource hread, ← htarget hread'] at hdiffer
    exact ⟨⟨hread, hread', hlocation, hdiffer⟩, hnone⟩
  · rintro ⟨⟨hread, hread', hlocation, hdiffer⟩, hnone⟩
    rw [hsource hread, htarget hread'] at hdiffer
    rw [← hany hlocation, Bool.not_eq_true] at hnone
    exact ⟨⟨⟨⟨hread, hread'⟩, hlocation⟩, hnone⟩, hdiffer⟩

/-- The edges of rule 2. -/
theorem exists_rule2 (hnd : (operations.map MemoryOperation.id).Nodup)
    (hregular : ∀ op ∈ operations, regular op) {po : Relation}
    (hpo : canonicalPo operations = .ok po) (hkeys : (choice.map Prod.fst).Nodup)
    (hsources : rfSources operations (rfRelation choice) = .ok sources)
    {relations : Dict String Relation} (hrelations : relations.get? "po" = some po)
    {named : List Relation} (hderive : derivePpo operations relations sources = .ok named) :
    ∃ r ∈ named, r.name = "ppo_rule2" ∧ ∀ e, e ∈ r.edges ↔
      ∃ a ∈ operations, ∃ b ∈ operations, e = (a.id, b.id) ∧ PoBefore a b ∧ LoadPair choice a b ∧
        ¬ WriteBetween operations (fun m => m.isWrite = true) a b := by
  simp only [derivePpo, Except.bind_eq_ok] at hderive
  obtain ⟨_, -, hderive⟩ := hderive
  cases hderive
  let edges := ppoEdges (PpoContext.of operations relations sources)
    (relationOrEmpty relations "po") 1
  refine ⟨⟨"ppo_rule2", edges⟩, List.mem_append_left _ ?_, rfl, fun e => ?_⟩
  · rw [List.mem_mapIdx]
    exact ⟨1, by decide, rfl⟩
  have hkept : ∀ a ∈ operations, ∀ b ∈ operations,
      (preserved (PpoContext.of operations relations sources) 1 (a.id, b.id) = true ↔
        LoadPair choice a b ∧ ¬ WriteBetween operations (fun m => m.isWrite = true) a b) := by
    intro a ha b hb
    have hends : endpoints (PpoContext.of operations relations sources).operations (a.id, b.id) =
        some (a, b) := endpoints_of_mem hnd ha hb
    have hcontext : (PpoContext.of operations relations sources).operations = operations := rfl
    rw [← ppoRule2_iff hsingle hcontext ha hb (lookup_choice hnd hkeys hsources ha)
      (lookup_choice hnd hkeys hsources hb)]
    simp [preserved, hends, hregular a ha, hregular b hb, ppoRules]
  show e ∈ ppoEdges _ (relationOrEmpty relations "po") 1 ↔ _
  rw [relationOrEmpty_of_get? hrelations, ppoEdges, Finset.mem_filter, mem_programOrder hnd hpo]
  constructor
  · rintro ⟨⟨a, ha, b, hb, hab, rfl⟩, h⟩
    exact ⟨a, ha, b, hb, rfl, hab, (hkept a ha b hb).mp h⟩
  · rintro ⟨a, ha, b, hb, rfl, hab, h⟩
    exact ⟨⟨a, ha, b, hb, hab, rfl⟩, (hkept a ha b hb).mpr h⟩

/-- The builder and rule 2 of the built-in model give the same edges exactly when
no AMO stands alone between two loads of its location with different sources. -/
theorem ppoRelation_eq_rule2_iff (hnd : (operations.map MemoryOperation.id).Nodup)
    (hregular : ∀ op ∈ operations, regular op) {po : Relation}
    (hpo : canonicalPo operations = .ok po) (hkeys : (choice.map Prod.fst).Nodup)
    (hsources : rfSources operations (rfRelation choice) = .ok sources)
    {relations : Dict String Relation} (hrelations : relations.get? "po" = some po)
    {named : List Relation} (hderive : derivePpo operations relations sources = .ok named)
    {rules : List PpoRule} (hrules : .loadLoadDifferentWrite ∈ rules) :
    ∃ r ∈ named, r.name = "ppo_rule2" ∧
      ((ppoRelation po choice operations rules).edges = r.edges ↔
        WritesAccompanied operations choice) := by
  obtain ⟨r, hr, hname, hedges⟩ :=
    exists_rule2 hsingle hnd hregular hpo hkeys hsources hrelations hderive
  refine ⟨r, hr, hname, ?_⟩
  constructor
  · intro heq a ha b hb hpair hwrite
    -- otherwise the edge belongs to the builder only
    by_contra hnone
    have hbetween := hwrite
    obtain ⟨m, -, -, -, ham, hmb⟩ := hbetween
    have hbuilder : (a.id, b.id) ∈ (ppoRelation po choice operations rules).edges :=
      (mem_ppoRelation hnd hpo hrules).mpr ⟨a, ha, b, hb, rfl, ham.trans hmb, hpair, hnone⟩
    rw [heq, hedges] at hbuilder
    obtain ⟨a', ha', b', hb', hids, -, -, hnot⟩ := hbuilder
    rw [Prod.mk.injEq] at hids
    obtain rfl := List.inj_on_of_nodup_map hnd ha ha' hids.1
    obtain rfl := List.inj_on_of_nodup_map hnd hb hb' hids.2
    exact hnot hwrite
  · intro haccompanied
    ext e
    rw [mem_ppoRelation hnd hpo hrules, hedges]
    constructor
    · rintro ⟨a, ha, b, hb, rfl, hab, hpair, hnone⟩
      exact ⟨a, ha, b, hb, rfl, hab, hpair,
        fun hwrite => hnone (haccompanied a ha b hb hpair hwrite)⟩
    · rintro ⟨a, ha, b, hb, rfl, hab, hpair, hnone⟩
      refine ⟨a, ha, b, hb, rfl, hab, hpair, ?_⟩
      rintro ⟨m, hm, hkind, haddress, hbetween⟩
      exact hnone ⟨m, hm, by simp [MemoryOperation.isWrite, hkind], haddress, hbetween⟩

end Single

end Rule2

/-! ## An AMO between two loads -/

theorem initOperation_ne : "init" ≠ "" := by decide

theorem firstOperation_ne : "first" ≠ "" := by decide

theorem swapId_ne : "swap" ≠ "" := by decide

theorem lastOperation_ne : "last" ≠ "" := by decide

theorem firstCommit_ne : "c1" ≠ "" := by decide

theorem swapCommit_ne : "c2" ≠ "" := by decide

theorem lastCommit_ne : "c3" ≠ "" := by decide

/-- Two loads around an AMO to their location, the second of which reads the AMO. -/
def loadSwapLoad : List MemoryOperation :=
  [.initial "init" (.int 8) (.int 0) "e0" initOperation_ne,
    .load "first" 0 0 (.int 8) (.int 0) "e1" "c1" firstOperation_ne firstCommit_ne,
    .amo "swap" 0 1 (.int 8) (.int 0) 1 "e2" "c2" swapId_ne swapCommit_ne,
    .load "last" 0 2 (.int 8) (.int 1) "e3" "c3" lastOperation_ne lastCommit_ne]

def loadSwapChoice : List (String × String) :=
  [("first", "init"), ("swap", "init"), ("last", "swap")]

def loadSwapGraph : ExecutionGraph where
  operations := loadSwapLoad
  relations := .ofList
    [("rf", rfRelation loadSwapChoice), ("co", { name := "co", edges := {("init", "swap")} })]
  candidateId := 0
  metadata :=
    { graphModel := none, rfAssignment := [], coOrders := .empty, builtinModel := none
      gmoOrder := none }
  nodup := by decide
  named := by decide
  known := by decide

/-- Whether the two implementations order the loads, on a graph the checker accepts. -/
def loadSwapOrdered : Except PyError (Bool × Bool) := do
  let completed ← completeRvwmoRelations loadSwapGraph
  return (("first", "last") ∈ (ppoRelation (completed.rel "po") loadSwapChoice
      completed.operations [.loadLoadDifferentWrite]).edges,
    ("first", "last") ∈ (completed.rel "ppo_rule2").edges)

theorem loadSwapOrdered_differ : loadSwapOrdered = .ok (true, false) := by decide +kernel

theorem loadSwap_rule2_iff : ∃ po sources named, canonicalPo loadSwapLoad = .ok po ∧
    rfSources loadSwapLoad (rfRelation loadSwapChoice) = .ok sources ∧
    derivePpo loadSwapLoad (.ofList [("po", po)]) sources = .ok named ∧
    ∃ r ∈ named, r.name = "ppo_rule2" ∧
      ((ppoRelation po loadSwapChoice loadSwapLoad [.loadLoadDifferentWrite]).edges = r.edges ↔
        WritesAccompanied loadSwapLoad loadSwapChoice) := by
  have h : (do
      let po ← canonicalPo loadSwapLoad
      let sources ← rfSources loadSwapLoad (rfRelation loadSwapChoice)
      derivePpo loadSwapLoad (.ofList [("po", po)]) sources : Except PyError (List Relation)
      ).toOption.isSome = true := by decide +kernel
  obtain ⟨named, h⟩ := Option.isSome_iff_exists.mp h
  obtain ⟨po, hpo, h⟩ := Except.bind_eq_ok.mp (Except.toOption_eq_some.mp h)
  obtain ⟨sources, hsources, hderive⟩ := Except.bind_eq_ok.mp h
  refine ⟨po, sources, named, hpo, hsources, hderive, ?_⟩
  have hget : (Dict.ofList [("po", po)]).get? "po" = some po := by simp [Dict.ofList]
  exact ppoRelation_eq_rule2_iff (by decide) (by decide) (by decide) hpo (by decide) hsources
    hget hderive List.mem_cons_self

end Umcm
