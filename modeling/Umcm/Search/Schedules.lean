import Umcm.Graph.Locations
import Umcm.Order.Ranked

/-!
# Schedules of a candidate execution

The orders in which the accesses of a candidate execution are tried, and what
the loads read when the accesses run one at a time.

* `reads_of_head`: run in the first order, every load reads from its source,
  where the edges between the accesses have no cycle.
-/

namespace Umcm

open FinOrder Except

namespace ExecutionGraph

/-- The ids of the accesses, in increasing order. -/
def dynamicIds (g : ExecutionGraph) : List String :=
  sortIds ((g.operations.filter (fun op => op.kind ≠ .initWrite)).map MemoryOperation.id)

def initIds (g : ExecutionGraph) : List String :=
  (g.operations.filter (fun op => op.kind = .initWrite)).map MemoryOperation.id

/-- The edges that a schedule should respect: those of `rf`, `co` and `fr` between
accesses. -/
def preferredEdges (g : ExecutionGraph) : Finset Edge :=
  (allEdges (["rf", "co", "fr"].filterMap g.relations.get?)).filter
    (fun e => e.1 ∉ g.initIds ∧ e.2 ∉ g.initIds)

end ExecutionGraph

/-- `_candidate_schedules`. -/
def candidateSchedules (graph : ExecutionGraph) (limit : Nat) : List (List String) :=
  (rankedOrders graph.preferredEdges graph.dynamicIds).take limit

/-- An edge of `rf`, `co` or `fr` between accesses. -/
def ExecutionGraph.AccessEdge (g : ExecutionGraph) (a b : String) : Prop :=
  a ∉ g.initIds ∧ b ∉ g.initIds ∧ ∃ name ∈ ["rf", "co", "fr"], (a, b) ∈ (g.rel name).edges

/-! ## Runs of a schedule -/

/-- What an address holds: a value and the write it comes from. -/
structure Cell where
  writeId : String
  value : Value
deriving DecidableEq

abbrev Memory : Type := Key → Option Cell

/-- A write replaces what its address holds; a read leaves the memory. -/
def Memory.perform (memory : Memory) (op : MemoryOperation) : Memory :=
  if op.isWrite then Function.update memory op.address.key (some ⟨op.id, op.storedValue⟩)
  else memory

namespace ExecutionGraph

/-- The memory with the initial values. -/
def initialMemory (g : ExecutionGraph) : Memory :=
  (g.operations.filter (fun op => op.kind = .initWrite)).foldl Memory.perform (fun _ => none)

/-- The memory after the accesses with these ids, one at a time. -/
def memoryAfter (g : ExecutionGraph) (ids : List String) : Memory :=
  (ids.filterMap (findOp g.operations)).foldl Memory.perform g.initialMemory

/-- Run in the order of the schedule, every read finds the value it returned, from the
write it reads from. -/
def ReadsAsAssigned (g : ExecutionGraph) (schedule : List String) : Prop :=
  ∀ r ∈ g.operations, r.isRead = true →
    ∃ cell, g.memoryAfter (schedule.take (schedule.idxOf r.id)) r.address.key = some cell ∧
      (cell.writeId, r.id) ∈ (g.rel "rf").edges ∧ cell.value.pyEq r.readValue = true

end ExecutionGraph

/-- What the schedules of a graph are to be: different orders of the accesses, those
first that violate fewer edges; the first one violates none, and run in that order the
reads find what they returned. -/
structure SchedulesSound (g : ExecutionGraph) (limit : Nat) : Prop where
  perm : ∀ schedule ∈ candidateSchedules g limit, schedule.Perm g.dynamicIds
  nodup : (candidateSchedules g limit).Nodup
  sorted : (candidateSchedules g limit).Pairwise (fun a b =>
    violations g.preferredEdges a ≤ violations g.preferredEdges b)
  first : ∃ schedule, (candidateSchedules g limit).head? = some schedule ∧
    (∀ a b, g.AccessEdge a b → Precedes schedule a b) ∧ g.ReadsAsAssigned schedule

/-! ## Memory -/

namespace Memory

variable {memory : Memory} {k : Key}

theorem perform_of_ne {op : MemoryOperation} (h : op.isWrite = true → op.address.key ≠ k) :
    memory.perform op k = memory k := by
  unfold perform
  split_ifs with hwrite
  · exact Function.update_of_ne (h hwrite).symm _ _
  · rfl

theorem perform_self {op : MemoryOperation} (hwrite : op.isWrite = true) :
    memory.perform op op.address.key = some ⟨op.id, op.storedValue⟩ := by
  unfold perform
  rw [if_pos hwrite, Function.update_self]

/-- Accesses that do not write the address leave it. -/
theorem foldl_perform_of_ne {ops : List MemoryOperation}
    (h : ∀ op ∈ ops, op.isWrite = true → op.address.key ≠ k) :
    ops.foldl perform memory k = memory k := by
  induction ops generalizing memory with
  | nil => rfl
  | cons op rest ih =>
      rw [List.foldl_cons, ih (fun x hx => h x (List.mem_cons_of_mem _ hx)),
        perform_of_ne (h op List.mem_cons_self)]

/-- An address holds what was written to it last. -/
theorem foldl_perform_of_last {before after : List MemoryOperation} {w : MemoryOperation}
    (hwrite : w.isWrite = true)
    (hlater : ∀ op ∈ after, op.isWrite = true → op.address.key ≠ w.address.key) :
    (before ++ w :: after).foldl perform memory w.address.key = some ⟨w.id, w.storedValue⟩ := by
  rw [List.foldl_append, List.foldl_cons, foldl_perform_of_ne hlater, perform_self hwrite]

end Memory

/-! ## Reads -/

section Reads

variable {g : ExecutionGraph}

theorem mem_dynamicIds {id : String} :
    id ∈ g.dynamicIds ↔ ∃ op ∈ g.operations, op.kind ≠ .initWrite ∧ op.id = id := by
  simp only [ExecutionGraph.dynamicIds, sortIds, List.mem_insertionSort, List.mem_map,
    List.mem_filter, decide_eq_true_eq, and_assoc]

theorem nodup_dynamicIds : g.dynamicIds.Nodup := by
  refine (List.perm_insertionSort _ _).nodup_iff.mpr ?_
  exact (List.filter_sublist.map _).nodup g.nodup

theorem mem_initIds {id : String} :
    id ∈ g.initIds ↔ ∃ op ∈ g.operations, op.kind = .initWrite ∧ op.id = id := by
  simp only [ExecutionGraph.initIds, List.mem_map, List.mem_filter, decide_eq_true_eq, and_assoc]

theorem notMem_initIds {op : MemoryOperation} (hop : op ∈ g.operations) :
    op.id ∉ g.initIds ↔ op.kind ≠ .initWrite := by
  rw [mem_initIds, not_iff_not]
  constructor
  · rintro ⟨op', hop', hkind, hid⟩
    rwa [g.op_ext hop' hop hid] at hkind
  · exact fun hkind => ⟨op, hop, hkind, rfl⟩

/-- What the reads of a run rest on: the reads-from relation and the coherence order
are those of a candidate execution, and `fr` follows from them. -/
structure Enumerated (trace : Trace) (spec : GraphModelSpec) (g : ExecutionGraph) : Prop where
  candidate : IsCandidate trace spec g.operations (g.rel "rf").edges (g.rel "co").edges
  stored : ∀ name ∈ ["rf", "co", "fr"], g.relations.get? name = some (g.rel name)
  fr : ∀ w r x, (w, r) ∈ (g.rel "rf").edges → (w, x) ∈ (g.rel "co").edges → x ≠ r →
    (r, x) ∈ (g.rel "fr").edges
  one : OneInitialWrite g.operations
  amoFree : AmoFree g.operations

/-- The graphs that are iterated over are those of candidate executions. -/
theorem enumerated_of_iterExecutionGraphs {trace : Trace} {spec : GraphModelSpec}
    {maxCandidates : Int} {graphs : List ExecutionGraph}
    (h : iterExecutionGraphs trace spec maxCandidates = .ok graphs) (hg : g ∈ graphs)
    (hamo : AmoFree g.operations) : Enumerated trace spec g := by
  obtain ⟨space, hspace⟩ : ∃ space, buildCandidateSpace trace spec = .ok space := by
    rw [iterExecutionGraphs, forExecutionGraphs] at h
    obtain ⟨_, -, h⟩ := bind_eq_ok.mp h
    obtain ⟨space, hspace, -⟩ := bind_eq_ok.mp h
    exact ⟨space, hspace⟩
  obtain ⟨operations, hops, -⟩ := bind_eq_ok.mp hspace
  have hone := oneInitialWrite_of_ok hops hspace
  obtain ⟨rfTable, hints, hp⟩ := spaceParts_of_ok hops hone hspace
  obtain ⟨c, hc, hbuilt⟩ := builtFromCandidate_of_iterExecutionGraphs hspace
    (relationHints_names hp.relationHints) h hg
  have hlist : g.operations = operations.list := hbuilt.operations.trans hp.operations
  have hrf : g.rel "rf" = rfRelation c.sources := relationOrEmpty_of_get? hbuilt.rf
  have hco : g.rel "co" = coRelation (c.orders.map Prod.snd) := relationOrEmpty_of_get? hbuilt.co
  rw [hlist] at hamo
  refine ⟨?_, ?_, ?_, by rwa [hlist], by rwa [hlist]⟩
  · rw [hlist, hrf, hco]
    exact (hp.mem_pairs operations.nodup hone hamo _ _).mp (List.mem_map_of_mem hc)
  · intro name hname
    simp only [List.mem_cons, List.not_mem_nil, or_false] at hname
    rcases hname with rfl | rfl | rfl
    · rw [hrf, hbuilt.rf]
    · rw [hco, hbuilt.co]
    · rcases hbuilt.fr with hfr | hfr
      · rw [ExecutionGraph.rel, relationOrEmpty_of_get? hfr, hfr]
      · rw [ExecutionGraph.rel, relationOrEmpty_of_get? hfr, hfr]
  · intro w r x hwr hwx hne
    rw [hrf] at hwr
    rw [hco] at hwx
    rcases hbuilt.fr with hfr | hfr
    · rw [ExecutionGraph.rel, relationOrEmpty_of_get? hfr, Relation.mem_compose]
      exact ⟨w, Relation.mem_inverse.mpr hwr, hwx⟩
    · rw [ExecutionGraph.rel, relationOrEmpty_of_get? hfr]
      simp only [frOf, Finset.mem_biUnion, Finset.mem_image, Finset.mem_filter, mem_targetsOf]
      exact ⟨(w, r), hwr, x, ⟨hwx, hne⟩, rfl⟩

namespace Enumerated

variable {trace : Trace} {spec : GraphModelSpec} (h : Enumerated trace spec g)
  {schedule : List String}
include h

theorem mem_preferredEdges {a b : String} : (a, b) ∈ g.preferredEdges ↔ g.AccessEdge a b := by
  rw [ExecutionGraph.preferredEdges, Finset.mem_filter, mem_allEdges, ExecutionGraph.AccessEdge]
  constructor
  · rintro ⟨⟨r, hr, he⟩, ha, hb⟩
    obtain ⟨name, hname, hget⟩ := List.mem_filterMap.mp hr
    rw [h.stored name hname] at hget
    cases hget
    exact ⟨ha, hb, name, hname, he⟩
  · rintro ⟨ha, hb, name, hname, he⟩
    exact ⟨⟨g.rel name, List.mem_filterMap.mpr ⟨name, hname, h.stored name hname⟩, he⟩, ha, hb⟩

omit h in
theorem accessEdge {name : String} (hname : name ∈ ["rf", "co", "fr"])
    {a b : MemoryOperation} (ha : a ∈ g.operations) (hb : b ∈ g.operations)
    (hainit : a.kind ≠ .initWrite) (hbinit : b.kind ≠ .initWrite)
    (he : (a.id, b.id) ∈ (g.rel name).edges) : g.AccessEdge a.id b.id :=
  ⟨(notMem_initIds ha).mpr hainit, (notMem_initIds hb).mpr hbinit, name, hname, he⟩

theorem ne_of_isRead {r x : MemoryOperation} (hr : r ∈ g.operations) (hread : r.isRead = true)
    (hxwrite : x.isWrite = true) : x ≠ r := by
  rintro rfl
  have hkind := h.amoFree _ hr
  unfold MemoryOperation.isRead at hread
  unfold MemoryOperation.isWrite at hxwrite
  cases hx : x.kind <;> simp [hx] at hread hxwrite hkind

/-- A write that overwrites what a read finds comes after the read. -/
theorem precedes_of_later (hrespects : ∀ a b, g.AccessEdge a b → Precedes schedule a b)
    {r w x : MemoryOperation} (hr : r ∈ g.operations) (hx : x ∈ g.operations)
    (hread : r.isRead = true) (hrf : (w.id, r.id) ∈ (g.rel "rf").edges)
    (hco : (w.id, x.id) ∈ (g.rel "co").edges) (hxwrite : x.isWrite = true)
    (hxinit : x.kind ≠ .initWrite) : Precedes schedule r.id x.id := by
  have hne : x.id ≠ r.id := by
    intro heq
    exact h.ne_of_isRead hr hread hxwrite (g.op_ext hx hr heq)
  exact hrespects _ _ (accessEdge (by simp) hr hx (MemoryOperation.isRead_kind hread) hxinit
    (h.fr _ _ _ hrf hco hne))

/-- An address with an initial write holds it at first. -/
theorem initialMemory {w : MemoryOperation} (hw : w ∈ g.operations) (hinit : w.kind = .initWrite) :
    g.initialMemory w.address.key = some ⟨w.id, w.storedValue⟩ := by
  have hmem : w ∈ g.operations.filter (fun op => op.kind = .initWrite) := by
    rw [List.mem_filter]
    exact ⟨hw, by simpa using hinit⟩
  obtain ⟨before, after, hsplit⟩ := List.append_of_mem hmem
  have hnd : (g.operations.filter (fun op => op.kind = .initWrite)).Nodup :=
    (List.Nodup.of_map _ g.nodup).filter _
  rw [ExecutionGraph.initialMemory, hsplit, Memory.foldl_perform_of_last]
  · simp [MemoryOperation.isWrite, hinit]
  · intro y hy _ haddress
    have hymem : y ∈ g.operations.filter (fun op => op.kind = .initWrite) := by
      rw [hsplit]
      simp [hy]
    obtain ⟨hyops, hyinit⟩ := List.mem_filter.mp hymem
    have heq := h.one y hyops w hw (by simpa using hyinit) hinit haddress
    rw [hsplit, List.nodup_append] at hnd
    rw [heq] at hy
    exact (List.nodup_cons.mp hnd.2.1).1 hy

theorem reads (hperm : schedule.Perm g.dynamicIds)
    (hrespects : ∀ a b, g.AccessEdge a b → Precedes schedule a b) :
    g.ReadsAsAssigned schedule := by
  intro r hr hread
  obtain ⟨x, hx⟩ := h.candidate.1.source r hr hread
  obtain ⟨w, hw, r', hr', heq, -, hmay, -⟩ := h.candidate.1.edge _ hx
  obtain ⟨rfl, hid⟩ := Prod.mk.inj heq
  obtain rfl := g.op_ext hr hr' hid
  refine ⟨⟨w.id, w.storedValue⟩, ?_, hx, Value.pyEq_iff.mpr hmay.value⟩
  rw [← hmay.address, ExecutionGraph.memoryAfter]
  have hnd : schedule.Nodup := hperm.nodup_iff.mpr nodup_dynamicIds
  have hdynamic : ∀ y ∈ g.operations, y.id ∈ schedule → y.kind ≠ .initWrite := by
    intro y hy hmem
    obtain ⟨y', hy', hkind, hid⟩ := mem_dynamicIds.mp (hperm.mem_iff.mp hmem)
    rwa [g.op_ext hy' hy hid] at hkind
  -- no write in front of the read overwrites what it reads
  have hkept : ∀ y ∈ g.operations, y.isWrite = true → y.id ∈ schedule.take (schedule.idxOf r.id) →
      (w.id, y.id) ∉ (g.rel "co").edges := by
    intro y hy hywrite hbefore hco
    have hmem : y.id ∈ schedule := List.mem_of_mem_take hbefore
    have hlt := (List.mem_take_iff_idxOf_lt hmem).mp hbefore
    have hafter := h.precedes_of_later hrespects hr hy hread hx hco hywrite (hdynamic y hy hmem)
    exact absurd hafter.2.2 (Nat.lt_asymm hlt)
  rcases eq_or_ne w.kind .initWrite with hinit | hinit
  · rw [Memory.foldl_perform_of_ne, h.initialMemory hw hinit]
    intro y hy hywrite haddress
    obtain ⟨id, hid, hfind⟩ := List.mem_filterMap.mp hy
    obtain ⟨hyops, rfl⟩ := findOp_eq_some hfind
    have hne : w ≠ y := by
      rintro rfl
      exact hdynamic w hw (List.mem_of_mem_take hid) hinit
    exact hkept y hyops hywrite hid (h.candidate.2.initial w hw y hyops hinit
      ⟨hmay.write, hywrite, haddress.symm, hne⟩)
  · have hwr := hrespects _ _ (accessEdge (by simp) hw hr hinit (MemoryOperation.isRead_kind hread) hx)
    obtain ⟨before, after, hsplit⟩ := List.append_of_mem
      ((List.mem_take_iff_idxOf_lt hwr.1).mpr hwr.2.2)
    rw [hsplit, List.filterMap_append, List.filterMap_cons_some (findOp_of_mem g.nodup hw),
      Memory.foldl_perform_of_last hmay.write]
    intro y hy hywrite haddress
    obtain ⟨id, hid, hfind⟩ := List.mem_filterMap.mp hy
    obtain ⟨hyops, rfl⟩ := findOp_eq_some hfind
    have hwhole : schedule = (before ++ [w.id]) ++ (after ++ schedule.drop (schedule.idxOf r.id)) := by
      conv_lhs => rw [← List.take_append_drop (schedule.idxOf r.id) schedule, hsplit]
      simp
    have hapart : y.id ∉ before ++ [w.id] := by
      intro hmem
      rw [hwhole] at hnd
      exact (List.disjoint_of_nodup_append hnd) hmem (List.mem_append_left _ hid)
    have hwy : Precedes schedule w.id y.id := by
      rw [hwhole]
      exact precedes_append (by simp) (List.mem_append_left _ hid) hapart
    have hne : w ≠ y := by
      rintro rfl
      exact Precedes.irrefl _ _ hwy
    have hbefore : y.id ∈ schedule.take (schedule.idxOf r.id) := by
      rw [hsplit]
      simp [hid]
    rcases h.candidate.2.total w hw y hyops ⟨hmay.write, hywrite, haddress.symm, hne⟩ with hco | hco
    · exact hkept y hyops hywrite hbefore hco
    · have hyw := hrespects _ _ (accessEdge (by simp) hyops hw
        (hdynamic y hyops (List.mem_of_mem_take hbefore)) hinit hco)
      exact hyw.asymm hwy

end Enumerated

end Reads

/-- The schedules of a candidate execution without AMOs, where the edges between its
accesses have no cycle. -/
theorem schedulesSound_of_acyclic (trace : Trace) (spec : GraphModelSpec) (maxCandidates : Int)
    (graphs : List ExecutionGraph) (h : iterExecutionGraphs trace spec maxCandidates = .ok graphs)
    (g : ExecutionGraph) (hg : g ∈ graphs) (hamo : AmoFree g.operations)
    (hacyclic : Acyclic g.AccessEdge) (limit : Nat) (hlimit : 0 < limit) :
    SchedulesSound g limit := by
  have henumerated := enumerated_of_iterExecutionGraphs h hg hamo
  have hends : ∀ e ∈ g.preferredEdges, e.1 ∈ g.dynamicIds ∧ e.2 ∈ g.dynamicIds := by
    rintro ⟨x, y⟩ he
    obtain ⟨hx, hy, name, hname, hxy⟩ := henumerated.mem_preferredEdges.mp he
    obtain ⟨a, ha, b, hb, heq⟩ := g.edge_ops (henumerated.stored name hname) hxy
    obtain ⟨rfl, rfl⟩ := Prod.mk.inj heq
    exact ⟨mem_dynamicIds.mpr ⟨a, ha, (notMem_initIds ha).mp hx, rfl⟩,
      mem_dynamicIds.mpr ⟨b, hb, (notMem_initIds hb).mp hy, rfl⟩⟩
  have hcycle : Acyclic (fun a b => (a, b) ∈ g.preferredEdges) :=
    hacyclic.mono (fun a b hab => henumerated.mem_preferredEdges.mp hab)
  have hself : g.dynamicIds ∈ rankedOrders g.preferredEdges g.dynamicIds :=
    mem_rankedOrders.mpr (.refl _)
  obtain ⟨first, rest, horders⟩ := List.exists_cons_of_ne_nil (List.ne_nil_of_mem hself)
  have hfirst : (rankedOrders g.preferredEdges g.dynamicIds).head? = some first := by
    rw [horders]
    rfl
  have hperm : first.Perm g.dynamicIds :=
    mem_rankedOrders.mp (List.mem_of_mem_head? hfirst)
  have hzero := violations_head_of_acyclic nodup_dynamicIds hends hcycle hfirst
  have hmem : ∀ x ∈ g.dynamicIds, x ∈ first := fun x hx => hperm.mem_iff.mpr hx
  rw [violations_eq_zero_iff (fun e he => ⟨hmem _ (hends e he).1, hmem _ (hends e he).2⟩)] at hzero
  have hrespects : ∀ a b, g.AccessEdge a b → Precedes first a b :=
    fun a b hab => hzero (a, b) (henumerated.mem_preferredEdges.mpr hab)
  refine ⟨?_, ?_, ?_, first, ?_, hrespects, henumerated.reads hperm hrespects⟩
  · exact fun schedule hschedule => mem_rankedOrders.mp (List.mem_of_mem_take hschedule)
  · exact (List.take_sublist _ _).nodup (nodup_rankedOrders nodup_dynamicIds)
  · exact pairwise_rankedOrders.sublist (List.take_sublist _ _)
  · obtain ⟨n, rfl⟩ : ∃ n, limit = n + 1 := ⟨limit - 1, by omega⟩
    rw [candidateSchedules, horders]
    rfl

/-! ## Two loads around a store -/

/-- A store of one hart, and two loads of another one that read before and after it. -/
def aroundTrace : Trace where
  events :=
    [ occurring 0 "Arch" "InitWrite" [("op_id", .str "i"), ("address", .int 8), ("value", .int 0)],
      occurring 1 "Arch" "Store"
        [("op_id", .str "a"), ("address", .int 8), ("value", .int 1), ("hart", .int 0),
          ("program_index", .int 0)],
      occurring 2 "Arch" "Load"
        [("op_id", .str "b"), ("address", .int 8), ("hart", .int 1), ("program_index", .int 0)],
      occurring 3 "Arch" "Load"
        [("op_id", .str "c"), ("address", .int 8), ("hart", .int 1), ("program_index", .int 1)],
      occurring 4 "Arch" "CommitRead" [("op_id", .str "b"), ("value", .int 0)],
      occurring 5 "Arch" "CommitRead" [("op_id", .str "c"), ("value", .int 1)] ]
  constraints := []
  isPartial := false
  nodup := by decide
  bool_constraints := Expr.bool_of_mem_nil

theorem aroundTrace_schedules : ∃ graphs, iterExecutionGraphs aroundTrace amoSpec 4 = .ok graphs ∧
    graphs ≠ [] ∧ ∀ g ∈ graphs, SchedulesSound g 2 := by
  have hchecks : (iterExecutionGraphs aroundTrace amoSpec 4 >>= fun graphs => .ok
      (graphs.length, graphs.all (fun g => g.operations.all (fun op => op.kind ≠ .amo) &&
        (findLabeledCycle [{ name := "access", edges := g.preferredEdges }]).isNone))) =
      .ok (1, true) := by decide +kernel
  obtain ⟨graphs, hgraphs, hchecks⟩ := bind_eq_ok.mp hchecks
  obtain ⟨hlength, hall⟩ := Prod.mk.inj (Except.ok.inj hchecks)
  refine ⟨graphs, hgraphs, List.ne_nil_of_length_pos (by omega), ?_⟩
  intro g hg
  have hcheck := List.all_eq_true.mp hall g hg
  rw [Bool.and_eq_true, List.all_eq_true, Option.isNone_iff_eq_none,
    findLabeledCycle_eq_none_iff] at hcheck
  have hamo : AmoFree g.operations := fun op hop => by simpa using hcheck.1 op hop
  refine schedulesSound_of_acyclic _ _ _ _ hgraphs g hg hamo ?_ 2 (by decide)
  have henumerated := enumerated_of_iterExecutionGraphs hgraphs hg hamo
  refine hcheck.2.mono ?_
  intro x y hxy
  simpa using henumerated.mem_preferredEdges.mpr hxy

end Umcm
