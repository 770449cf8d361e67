import Umcm.Graph.Completed
import Umcm.Graph.Hints
import Umcm.Order.Blocks

/-!
# The candidate executions of a trace

What a candidate execution is, apart from the code: a reads-from relation that
gives every read one source, and a coherence order that is total over all
writes of each address. `EnumerationExact` compares the enumeration of
`buildCandidateSpace` with it.

* `rfChoice_eq_ok`, `rfChoice_isOk_iff`: the choices of a read are its sources.
* `RfChoices.exists_iff`: the enumerated sources are the reads-from relations.
-/

namespace Umcm

open FinOrder Except

/-! ## Candidate executions -/

/-- `r` may take its value from `w`. -/
structure MayRead (w r : MemoryOperation) : Prop where
  write : w.isWrite = true
  ne : w ≠ r
  address : w.address.key = r.address.key
  value : w.storedValue.key = r.readValue.key

/-- A reads-from relation: every read has one source, which it may read and
which its hint names if it has one. -/
structure IsReadsFrom (trace : Trace) (spec : GraphModelSpec) (operations : List MemoryOperation)
    (rf : Finset Edge) : Prop where
  edge : ∀ e ∈ rf, ∃ w ∈ operations, ∃ r ∈ operations, e = (w.id, r.id) ∧ r.isRead = true ∧
    MayRead w r ∧ ∀ evidence, RfHinted trace spec r.id evidence → evidence.writeId = w.id
  source : ∀ r ∈ operations, r.isRead = true → ∃ x, (x, r.id) ∈ rf
  unique : ∀ x y id, (x, id) ∈ rf → (y, id) ∈ rf → x = y

/-- Two different writes of one address. -/
structure SameAddressWrites (a b : MemoryOperation) : Prop where
  left : a.isWrite = true
  right : b.isWrite = true
  address : a.address.key = b.address.key
  ne : a ≠ b

/-- A coherence order: a strict order, total over all writes of each address,
that starts with the initial write and contains the hinted edges. -/
structure IsCoherenceOrder (trace : Trace) (spec : GraphModelSpec) (operations : List MemoryOperation)
    (co : Finset Edge) : Prop where
  edge : ∀ e ∈ co, ∃ a ∈ operations, ∃ b ∈ operations, e = (a.id, b.id) ∧ SameAddressWrites a b
  trans : ∀ x y z, (x, y) ∈ co → (y, z) ∈ co → (x, z) ∈ co
  total : ∀ a ∈ operations, ∀ b ∈ operations, SameAddressWrites a b →
    (a.id, b.id) ∈ co ∨ (b.id, a.id) ∈ co
  initial : ∀ a ∈ operations, ∀ b ∈ operations, a.kind = .initWrite → SameAddressWrites a b →
    (a.id, b.id) ∈ co
  hinted : ∀ evidence, CoHinted trace spec evidence →
    (evidence.beforeWriteId, evidence.afterWriteId) ∈ co

/-- A candidate execution of the operations. -/
def IsCandidate (trace : Trace) (spec : GraphModelSpec) (operations : List MemoryOperation)
    (rf co : Finset Edge) : Prop :=
  IsReadsFrom trace spec operations rf ∧ IsCoherenceOrder trace spec operations co

/-- What a coherence hint has to say: two different writes of its address. -/
def CoHintValid (operations : List MemoryOperation) (evidence : CoEvidence) : Prop :=
  ∃ a ∈ operations, ∃ b ∈ operations, a.id = evidence.beforeWriteId ∧ b.id = evidence.afterWriteId ∧
    SameAddressWrites a b ∧ a.address.key = evidence.address.key

/-- What a reads-from hint of a read has to say: a write the read may take its
value from, with their address and value. -/
def RfHintValid (operations : List MemoryOperation) (r : MemoryOperation) (evidence : RfEvidence) :
    Prop :=
  ∃ w ∈ operations, w.id = evidence.writeId ∧ MayRead w r ∧
    evidence.address.key = r.address.key ∧ evidence.value.key = r.readValue.key

/-- Every hint event can be read, agrees with the others and names operations
that it can be about. -/
structure HintsConsistent (trace : Trace) (spec : GraphModelSpec) (operations : List MemoryOperation) :
    Prop where
  readable : HintsReadable trace spec
  agree : RfHintsAgree trace spec
  rf : ∀ r ∈ operations, r.isRead = true → ∀ evidence, RfHinted trace spec r.id evidence →
    RfHintValid operations r evidence
  co : ∀ evidence, CoHinted trace spec evidence → CoHintValid operations evidence
  relation : RelationHintsKnown trace spec operations

/-- The pairs of reads-from relation and coherence order that are enumerated. -/
def CandidateSpace.pairs (space : CandidateSpace) : List (Finset Edge × Finset Edge) :=
  space.candidates.map (fun c =>
    ((rfRelation c.sources).edges, (coRelation (c.orders.map Prod.snd)).edges))

/-- The edges a graph is enumerated for. -/
def ExecutionGraph.pair (g : ExecutionGraph) : Finset Edge × Finset Edge :=
  ((g.rel "rf").edges, (g.rel "co").edges)

/-- The error is raised after the enumeration: there is no program order, or a
candidate is not accepted by the built-in model or a derived relation. -/
def RejectedGraph (space : CandidateSpace) (spec : GraphModelSpec) (e : PyError) : Prop :=
  builderPo space.operations.list = .error e ∨ ∃ po, builderPo space.operations.list = .ok po ∧
    ∃ c ∈ space.candidates, ∃ candidateId, buildGraph space spec po candidateId c = .error e

/-- The enumeration is exact: it lists every candidate execution once and
nothing else, as many as estimated; the graphs are built for it in its order,
unless one of them is rejected; and a graph error is raised instead exactly
when there is nothing to list or a hint is inconsistent. -/
def EnumerationExact (trace : Trace) (spec : GraphModelSpec) (operations : List MemoryOperation) :
    Prop :=
  match buildCandidateSpace trace spec with
  | .ok space =>
    HintsConsistent trace spec operations ∧
    (∃ rf co, IsCandidate trace spec operations rf co) ∧
    (∀ rf co, (rf, co) ∈ space.pairs ↔ IsCandidate trace spec operations rf co) ∧
    space.pairs.Nodup ∧ space.pairs.length = space.estimatedCandidates ∧
    ∀ maxCandidates : Int, 0 < maxCandidates → space.estimatedCandidates ≤ maxCandidates →
      (∀ graphs, iterExecutionGraphs trace spec maxCandidates = .ok graphs →
        graphs.map ExecutionGraph.pair = space.pairs) ∧
      ∀ e, iterExecutionGraphs trace spec maxCandidates = .error e → RejectedGraph space spec e
  | .error (.graphError _) =>
    ¬ HintsConsistent trace spec operations ∨ ¬ ∃ rf co, IsCandidate trace spec operations rf co
  | .error _ => False

/-- No operation is an AMO. -/
def AmoFree (operations : List MemoryOperation) : Prop := ∀ op ∈ operations, op.kind ≠ .amo

/-! ## Sources -/

section Sources

variable {trace : Trace} {spec : GraphModelSpec} {operations : List MemoryOperation}
  {hints : Dict String RfEvidence} (hnd : (operations.map MemoryOperation.id).Nodup)
include hnd

theorem id_ne_iff {a b : MemoryOperation} (ha : a ∈ operations) (hb : b ∈ operations) :
    a.id ≠ b.id ↔ a ≠ b :=
  ⟨fun h heq => h (congrArg _ heq), fun h heq => h (List.inj_on_of_nodup_map hnd ha hb heq)⟩

theorem mem_rfCandidates {x : String} {r : MemoryOperation} (hr : r ∈ operations) :
    x ∈ rfCandidates operations r ↔ ∃ w ∈ operations, w.id = x ∧ MayRead w r := by
  simp only [rfCandidates, List.mem_map, List.mem_filter, Bool.and_eq_true, decide_eq_true_eq,
    Value.pyEq_iff]
  constructor
  · rintro ⟨w, ⟨⟨hw, hwrite⟩, ⟨hne, haddress⟩, hvalue⟩, rfl⟩
    exact ⟨w, hw, rfl, hwrite, (id_ne_iff hnd hw hr).mp hne, haddress, hvalue⟩
  · rintro ⟨w, hw, rfl, hwrite, hne, haddress, hvalue⟩
    exact ⟨w, ⟨⟨hw, hwrite⟩, ⟨(id_ne_iff hnd hw hr).mpr hne, haddress⟩, hvalue⟩, rfl⟩

theorem nodup_rfCandidates (r : MemoryOperation) : (rfCandidates operations r).Nodup :=
  hnd.sublist (List.Sublist.map _ (List.filter_sublist.trans List.filter_sublist))

theorem findOp_filter_write {x : String} {w : MemoryOperation} :
    (findOp operations x).filter MemoryOperation.isWrite = some w ↔
      w ∈ operations ∧ w.id = x ∧ w.isWrite = true := by
  rw [Option.filter_eq_some_iff]
  constructor
  · rintro ⟨hfind, hwrite⟩
    obtain ⟨hw, hid⟩ := findOp_eq_some hfind
    exact ⟨hw, hid, hwrite⟩
  · rintro ⟨hw, rfl, hwrite⟩
    exact ⟨findOp_of_mem hnd hw, hwrite⟩

/-- A hint narrows the candidates to its write when it is valid. -/
theorem hintedSource_eq_ok {r : MemoryOperation} (hr : r ∈ operations) {evidence : RfEvidence}
    {result : List String} :
    hintedSource operations r (rfCandidates operations r) evidence = .ok result ↔
      RfHintValid operations r evidence ∧ result = [evidence.writeId] := by
  unfold hintedSource
  cases hfind : (findOp operations evidence.writeId).filter MemoryOperation.isWrite with
  | none =>
      simp only [reduceCtorEq, false_iff, not_and]
      rintro ⟨w, hw, hid, hmay, -⟩
      have hsome := (findOp_filter_write hnd).mpr ⟨hw, hid, hmay.write⟩
      rw [hfind] at hsome
      cases hsome
  | some w =>
      obtain ⟨hw, hid, hwrite⟩ := (findOp_filter_write hnd).mp hfind
      simp only [bind_eq_ok, require_eq_ok, Value.pyEq_iff]
      constructor
      · rintro ⟨_, ⟨hread, hwaddr⟩, _, ⟨hvalue, hwvalue⟩, _, hmem, heq⟩
        cases heq
        obtain ⟨w', hw', hid', hmay⟩ := (mem_rfCandidates hnd hr).mp hmem
        exact ⟨⟨w', hw', hid', hmay, hread, hvalue⟩, rfl⟩
      · rintro ⟨⟨w', hw', hid', hmay, hread, hvalue⟩, rfl⟩
        have heq : w = w' := List.inj_on_of_nodup_map hnd hw hw' (hid.trans hid'.symm)
        subst heq
        exact ⟨(), ⟨hread, hread.trans hmay.address.symm⟩, (), ⟨hvalue, hvalue.trans hmay.value.symm⟩,
          (), (mem_rfCandidates hnd hr).mpr ⟨w, hw, hid, hmay⟩, rfl⟩

omit hnd in
theorem hintedSource_raises (r : MemoryOperation) (candidates : List String) (evidence : RfEvidence) :
    GraphRaises (hintedSource operations r candidates evidence) := by
  unfold hintedSource
  cases (findOp operations evidence.writeId).filter MemoryOperation.isWrite with
  | none => exact raises_error rfl
  | some w =>
      refine Raises.bind ?_ (fun _ _ => Raises.bind ?_ (fun _ _ => Raises.bind ?_ (fun _ _ => ?_)))
      · exact raises_require rfl
      · exact raises_require rfl
      · exact raises_require rfl
      · exact raises_ok _

omit hnd in
theorem rfChoice_raises (r : MemoryOperation) : GraphRaises (rfChoice operations hints r) := by
  refine Raises.bind ?_ (fun _ _ => Raises.bind ?_ (fun _ _ => raises_ok _))
  · unfold hintedCandidates
    split
    · exact hintedSource_raises r _ _
    · exact raises_ok _
  · exact raises_require rfl

omit hnd in
/-- Hints of one read that agree are valid together. -/
theorem RfHintValid.congr {r : MemoryOperation} {e e' : RfEvidence}
    (h : RfHintValid operations r e) (heq : e'.semanticKey = e.semanticKey) :
    RfHintValid operations r e' := by
  obtain ⟨w, hw, hid, hmay, haddress, hvalue⟩ := h
  simp only [RfEvidence.semanticKey, Prod.mk.injEq] at heq
  exact ⟨w, hw, hid.trans heq.1.symm, hmay, heq.2.1.trans haddress, heq.2.2.trans hvalue⟩

/-- The writes a read can be given: those it may read, narrowed by its hints. -/
def Source (trace : Trace) (spec : GraphModelSpec) (operations : List MemoryOperation)
    (r w : MemoryOperation) : Prop :=
  w ∈ operations ∧ MayRead w r ∧
    ∀ evidence, RfHinted trace spec r.id evidence → evidence.writeId = w.id

/-- The choices of a read that are returned are its sources. -/
theorem rfChoice_eq_ok (hrf : rfHints trace spec = .ok hints) {r : MemoryOperation}
    (hr : r ∈ operations) {p : String × List String} (h : rfChoice operations hints r = .ok p) :
    p.1 = r.id ∧ p.2 ≠ [] ∧ p.2.Nodup ∧
      (∀ x, x ∈ p.2 ↔ ∃ w, Source trace spec operations r w ∧ w.id = x) ∧
      ∀ evidence, RfHinted trace spec r.id evidence → RfHintValid operations r evidence := by
  obtain ⟨candidates, hcandidates, h⟩ := bind_eq_ok.mp h
  obtain ⟨_, hne, h⟩ := bind_eq_ok.mp h
  cases h
  have hsorted : ∀ x, x ∈ sortIds candidates ↔ x ∈ candidates :=
    fun x => List.mem_insertionSort _
  have hperm : (sortIds candidates).Perm candidates := List.perm_insertionSort _ _
  have hne' : sortIds candidates ≠ [] := by
    intro hnil
    rw [hnil] at hperm
    exact (require_eq_ok.mp hne) hperm.symm.eq_nil
  cases hget : hints.get? r.id with
  | none =>
      rw [hintedCandidates, hget] at hcandidates
      cases hcandidates
      have hno : ∀ evidence, ¬ RfHinted trace spec r.id evidence := by
        intro evidence hev
        obtain ⟨e', hget', -⟩ := get?_of_rfHinted hrf hev
        rw [hget] at hget'
        cases hget'
      refine ⟨rfl, hne', (hperm.nodup_iff).mpr (nodup_rfCandidates hnd r), fun x => ?_,
        fun evidence hev => absurd hev (hno evidence)⟩
      rw [hsorted, mem_rfCandidates hnd hr]
      constructor
      · rintro ⟨w, hw, hid, hmay⟩
        exact ⟨w, ⟨hw, hmay, fun evidence hev => absurd hev (hno evidence)⟩, hid⟩
      · rintro ⟨w, ⟨hw, hmay, -⟩, hid⟩
        exact ⟨w, hw, hid, hmay⟩
  | some e =>
      rw [hintedCandidates, hget] at hcandidates
      obtain ⟨hvalid, rfl⟩ := (hintedSource_eq_ok hnd hr).mp hcandidates
      have hkey : ∀ evidence, RfHinted trace spec r.id evidence →
          evidence.semanticKey = e.semanticKey := by
        intro evidence hev
        obtain ⟨e', hget', hkey⟩ := get?_of_rfHinted hrf hev
        rw [hget] at hget'
        cases hget'
        exact hkey.symm
      refine ⟨rfl, hne', (hperm.nodup_iff).mpr (List.nodup_singleton _), fun x => ?_,
        fun evidence hev => hvalid.congr (hkey evidence hev)⟩
      rw [hsorted, List.mem_singleton]
      obtain ⟨w, hw, hid, hmay, -⟩ := hvalid
      constructor
      · rintro rfl
        refine ⟨w, ⟨hw, hmay, fun evidence hev => ?_⟩, hid⟩
        exact (Prod.mk.inj (hkey evidence hev)).1.trans hid.symm
      · rintro ⟨w', ⟨-, -, hhinted⟩, rfl⟩
        exact (hhinted e (rfHinted_of_get? hrf hget)).symm

/-- A read has choices exactly when its hints are valid and it has a source. -/
theorem rfChoice_isOk_iff (hrf : rfHints trace spec = .ok hints) {r : MemoryOperation}
    (hr : r ∈ operations) : (∃ p, rfChoice operations hints r = .ok p) ↔
      (∀ evidence, RfHinted trace spec r.id evidence → RfHintValid operations r evidence) ∧
        ∃ w, Source trace spec operations r w := by
  constructor
  · rintro ⟨p, h⟩
    obtain ⟨-, hne, -, hmem, hvalid⟩ := rfChoice_eq_ok hnd hrf hr h
    obtain ⟨x, hx⟩ := List.exists_mem_of_ne_nil _ hne
    obtain ⟨w, hw, -⟩ := (hmem x).mp hx
    exact ⟨hvalid, w, hw⟩
  · rintro ⟨hvalid, w, hw, hmay, -⟩
    have hnonempty : ∀ {candidates : List String}, candidates ≠ [] → Except.require (candidates ≠ [])
        (PyError.graphError s!"read {quoted r.id} value {r.value.repr} at {r.address.repr} has no candidate source write")
        = .ok () := fun hne => require_eq_ok.mpr hne
    cases hget : hints.get? r.id with
    | none =>
        have hne : rfCandidates operations r ≠ [] :=
          List.ne_nil_of_mem ((mem_rfCandidates hnd hr).mpr ⟨w, hw, rfl, hmay⟩)
        have hcandidates : hintedCandidates operations hints r = .ok (rfCandidates operations r) := by
          rw [hintedCandidates, hget]
        exact ⟨_, bind_eq_ok.mpr ⟨_, hcandidates, bind_eq_ok.mpr ⟨(), hnonempty hne, rfl⟩⟩⟩
    | some e =>
        have hsource := (hintedSource_eq_ok hnd hr).mpr
          ⟨hvalid e (rfHinted_of_get? hrf hget), rfl⟩
        have hcandidates : hintedCandidates operations hints r = .ok [e.writeId] := by
          rw [hintedCandidates, hget]
          exact hsource
        exact ⟨_, bind_eq_ok.mpr ⟨_, hcandidates, bind_eq_ok.mpr
          ⟨(), hnonempty (List.cons_ne_nil _ _), rfl⟩⟩⟩

end Sources

/-! ## The enumerated reads-from relations -/

theorem mem_rfRelation {sources : List (String × String)} {x y : String} :
    (x, y) ∈ (rfRelation sources).edges ↔ (y, x) ∈ sources := by
  simp [rfRelation]

theorem rfRelation_edges_eq_iff {sources sources' : List (String × String)} :
    (rfRelation sources).edges = (rfRelation sources').edges ↔
      sources.toFinset = sources'.toFinset := by
  constructor
  · intro h
    ext ⟨x, y⟩
    rw [List.mem_toFinset, List.mem_toFinset, ← mem_rfRelation, h, mem_rfRelation]
  · intro h
    ext ⟨x, y⟩
    rw [mem_rfRelation, mem_rfRelation, ← List.mem_toFinset, h, List.mem_toFinset]

/-- The choices of sources, one for every read. -/
structure RfChoices (trace : Trace) (spec : GraphModelSpec) (operations : List MemoryOperation)
    (table : List (String × List String)) : Prop where
  nodup : (table.map Prod.fst).Nodup
  read : ∀ q ∈ table, ∃ r ∈ operations, r.isRead = true ∧ q.1 = r.id
  all : ∀ r ∈ operations, r.isRead = true → ∃ q ∈ table, q.1 = r.id
  choices_nodup : ∀ q ∈ table, q.2.Nodup
  choices_ne : ∀ q ∈ table, q.2 ≠ []
  mem : ∀ q ∈ table, ∀ r ∈ operations, q.1 = r.id →
    ∀ x, x ∈ q.2 ↔ ∃ w, Source trace spec operations r w ∧ w.id = x

theorem rfChoices_of_mapM {trace : Trace} {spec : GraphModelSpec} {operations : List MemoryOperation}
    {hints : Dict String RfEvidence} (hnd : (operations.map MemoryOperation.id).Nodup)
    (hrf : rfHints trace spec = .ok hints) {table : List (String × List String)}
    (h : (byId (operations.filter MemoryOperation.isRead)).mapM (rfChoice operations hints) =
      .ok table) : RfChoices trace spec operations table := by
  have hmem : ∀ r, r ∈ byId (operations.filter MemoryOperation.isRead) ↔
      r ∈ operations ∧ r.isRead = true := by
    intro r
    rw [byId, List.mem_insertionSort, List.mem_filter]
  have hspec : ∀ q ∈ table, ∃ r ∈ operations, r.isRead = true ∧
      rfChoice operations hints r = .ok q := by
    intro q hq
    obtain ⟨r, hr, hok⟩ := mapM_origin h hq
    exact ⟨r, ((hmem r).mp hr).1, ((hmem r).mp hr).2, hok⟩
  have hkeys : table.map Prod.fst =
      (byId (operations.filter MemoryOperation.isRead)).map MemoryOperation.id := by
    refine map_mapM h ?_
    intro r q hok
    obtain ⟨_, -, hok⟩ := bind_eq_ok.mp hok
    obtain ⟨_, -, hok⟩ := bind_eq_ok.mp hok
    cases hok
    rfl
  refine ⟨?_, ?_, ?_, ?_, ?_, ?_⟩
  · rw [hkeys]
    have hperm : (byId (operations.filter MemoryOperation.isRead)).Perm
        (operations.filter MemoryOperation.isRead) := List.perm_insertionSort _ _
    rw [(hperm.map _).nodup_iff]
    exact hnd.sublist (List.Sublist.map _ List.filter_sublist)
  · intro q hq
    obtain ⟨r, hr, hread, hok⟩ := hspec q hq
    exact ⟨r, hr, hread, (rfChoice_eq_ok hnd hrf hr hok).1⟩
  · intro r hr hread
    obtain ⟨q, hq, hok⟩ := mapM_result h ((hmem r).mpr ⟨hr, hread⟩)
    exact ⟨q, hq, (rfChoice_eq_ok hnd hrf hr hok).1⟩
  · intro q hq
    obtain ⟨r, hr, -, hok⟩ := hspec q hq
    exact (rfChoice_eq_ok hnd hrf hr hok).2.2.1
  · intro q hq
    obtain ⟨r, hr, -, hok⟩ := hspec q hq
    exact (rfChoice_eq_ok hnd hrf hr hok).2.1
  · intro q hq r hr hid
    obtain ⟨r', hr', -, hok⟩ := hspec q hq
    obtain ⟨hid', -, -, hchoices, -⟩ := rfChoice_eq_ok hnd hrf hr' hok
    have heq : r = r' := List.inj_on_of_nodup_map hnd hr hr' (hid.symm.trans hid')
    rw [heq]
    exact hchoices

/-- The enumerated sources are the reads-from relations. -/
theorem RfChoices.exists_iff {trace : Trace} {spec : GraphModelSpec}
    {operations : List MemoryOperation} {table : List (String × List String)}
    (ht : RfChoices trace spec operations table) (rf : Finset Edge) : (∃ sources ∈ Choice.assignments table, (rfRelation sources).edges = rf) ↔
      IsReadsFrom trace spec operations rf := by
  have hswap : (∃ sources ∈ Choice.assignments table, (rfRelation sources).edges = rf) ↔
      ∃ sources ∈ Choice.assignments table, sources.toFinset = rf.image Prod.swap := by
    have hrf : ∀ sources : List (String × String), (rfRelation sources).edges = rf ↔
        sources.toFinset = rf.image Prod.swap := by
      intro sources
      constructor
      · rintro rfl
        ext ⟨x, y⟩
        simp [mem_rfRelation]
      · intro h
        ext ⟨x, y⟩
        rw [mem_rfRelation, ← List.mem_toFinset, h]
        simp
    simp only [hrf]
  have hmem : ∀ x y, (x, y) ∈ rf.image Prod.swap ↔ (y, x) ∈ rf := by simp
  rw [hswap, Choice.exists_assignment_iff ht.nodup]
  constructor
  · rintro ⟨hlisted, htotal, hunique⟩
    refine ⟨?_, ?_, fun x y id hx hy => ?_⟩
    · rintro ⟨x, y⟩ he
      obtain ⟨q, hq, hkey, hvalue⟩ := hlisted (y, x) ((hmem y x).mpr he)
      obtain ⟨r, hr, hread, hid⟩ := ht.read q hq
      obtain ⟨w, ⟨hw, hmay, hhinted⟩, hwid⟩ := (ht.mem q hq r hr hid x).mp hvalue
      have hyid : y = r.id := hkey.trans hid
      exact ⟨w, hw, r, hr, by rw [hwid, hyid], hread, hmay, hhinted⟩
    · intro r hr hread
      obtain ⟨q, hq, hid⟩ := ht.all r hr hread
      obtain ⟨v, hv⟩ := htotal q hq
      rw [hid, hmem] at hv
      exact ⟨v, hv⟩
    · exact hunique id x y ((hmem id x).mpr hx) ((hmem id y).mpr hy)
  · intro h
    refine ⟨?_, ?_, fun k v v' hv hv' => h.unique v v' k ((hmem k v).mp hv) ((hmem k v').mp hv')⟩
    · rintro ⟨k, v⟩ hp
      obtain ⟨w, hw, r, hr, heq, hread, hmay, hhinted⟩ := h.edge _ ((hmem k v).mp hp)
      rw [Prod.mk.injEq] at heq
      obtain ⟨rfl, rfl⟩ := heq
      obtain ⟨q, hq, hid⟩ := ht.all r hr hread
      exact ⟨q, hq, hid.symm, (ht.mem q hq r hr hid w.id).mpr ⟨w, ⟨hw, hmay, hhinted⟩, rfl⟩⟩
    · intro q hq
      obtain ⟨r, hr, hread, hid⟩ := ht.read q hq
      obtain ⟨x, hx⟩ := h.source r hr hread
      exact ⟨x, by rw [hid, hmem]; exact hx⟩

theorem RfChoices.unique {trace : Trace} {spec : GraphModelSpec}
    {operations : List MemoryOperation} {table : List (String × List String)}
    (ht : RfChoices trace spec operations table) {l l' : List (String × String)}
    (hl : l ∈ Choice.assignments table) (hl' : l' ∈ Choice.assignments table)
    (h : (rfRelation l).edges = (rfRelation l').edges) : l = l' :=
  Choice.assignment_unique ht.nodup hl hl' (rfRelation_edges_eq_iff.mp h)

end Umcm
