import Umcm.Boom.Atomic
import Umcm.Data.Timeline

/-!
# Read-write windows

The lock of a line between the read and the write of an atomic operation. Two
reads of one cycle both find the lock free and both take it.

* `disjointWindows_of_apart`: the windows of a line are disjoint when reads do
  not share a cycle and operations write once.
-/

namespace Umcm

namespace Boom

namespace Atomic

open EvaluationContext

/-! ## Reads and writes -/

section Events

variable (problem : BoundedProblem) (context : EvaluationContext)

def ReadAt (op : Op) (c : Nat) : Prop :=
  Seen problem context "Atomic.AMORead" [("op_id", op.opId)] c

def WriteAt (op : Op) (c : Nat) : Prop :=
  Seen problem context "Atomic.AMOWrite" [("op_id", op.opId)] c

/-- All reads and writes are on the line. -/
structure OnOneLine (line : Line) : Prop where
  read : ∀ id, Occurring problem context "Atomic.AMORead" id →
    context.Carries id "reservation_id" line.reservationId
  write : ∀ id, Occurring problem context "Atomic.AMOWrite" id →
    context.Carries id "reservation_id" line.reservationId

/-- The windows from read to write of different operations do not overlap. -/
def DisjointWindows (ops : List Op) : Prop :=
  ∀ op ∈ ops, ∀ op' ∈ ops, op.opId.key ≠ op'.opId.key → ∀ r w r' w',
    ReadAt problem context op r → WriteAt problem context op w →
      ReadAt problem context op' r' → WriteAt problem context op' w' → w < r' ∨ w' < r

/-- Reads of different operations do not share a cycle. -/
def ReadsApart (ops : List Op) : Prop :=
  ∀ op ∈ ops, ∀ op' ∈ ops, ∀ c, ReadAt problem context op c → ReadAt problem context op' c →
    op.opId.key = op'.opId.key

/-- An operation writes in one cycle only. -/
def WritesOnce (ops : List Op) : Prop :=
  ∀ op ∈ ops, ∀ c c', WriteAt problem context op c → WriteAt problem context op c' → c = c'

end Events

/-! ## The lock -/

section Completion

variable {ops : List Op} {lines : List Line} {catalog : EventCatalog} {trace : Trace}
  {spec : CompletionSpec} {problem : BoundedProblem} {interpreter : Interpreter}
  {assignment : Dict String Value} {pre : CellStates}

/-- A read finds the lock of its line free and leaves it taken. -/
theorem busy_of_read
    (h : ModuleCompletion (atomicCore ops lines) catalog trace spec problem interpreter assignment
      pre) {op : Op} (hop : op ∈ ops) {line : Line} (hline : line ∈ lines) {b : String}
    (hb : Occurring problem (problem.context interpreter assignment) "Atomic.AMORead" b)
    (hid : (problem.context interpreter assignment).Carries b "op_id" op.opId)
    (hon : (problem.context interpreter assignment).Carries b "reservation_id"
      line.reservationId) :
    ∃ c ≤ spec.horizon, (problem.context interpreter assignment).AtCycle b c ∧
      CellIs pre c (busy line) (.bool false) ∧ CellIs pre (c + 1) (busy line) (.bool true) := by
  obtain ⟨i, hrules⟩ := mem_rules hop hline
  have hrule := hrules (amoStartsRead op line i) (by simp [rules])
  obtain ⟨a, -, -, hlinks⟩ := cause h hrule rfl rfl rfl rfl (by decide)
    (by simp [amoStartsRead, follows]) (by simp [amoStartsRead, follows]) hb hid
    (by simpa [amoStartsRead, onLine] using ⟨hid, hon⟩)
  obtain ⟨c, hc, hcycle, hfree⟩ := requires_at_output h hrule rfl rfl rfl (by decide) hlinks
    List.mem_cons_self
  exact ⟨c, hc, hcycle, hfree,
    (sets_at_output h hrule rfl rfl rfl (by decide) hlinks hcycle List.mem_cons_self).2⟩

/-- A write comes from an earlier read of the same operation. -/
theorem read_of_write
    (h : ModuleCompletion (atomicCore ops lines) catalog trace spec problem interpreter assignment
      pre) {op : Op} (hop : op ∈ ops) {line : Line} (hline : line ∈ lines)
    (hon : OnOneLine problem (problem.context interpreter assignment) line) {c : Nat}
    (hwrite : WriteAt problem (problem.context interpreter assignment) op c) :
    ∃ r < c, ReadAt problem (problem.context interpreter assignment) op r := by
  obtain ⟨i, hrules⟩ := mem_rules hop hline
  obtain ⟨b, hb, hcycle⟩ := hwrite
  have hid := hb.carries _ (List.mem_singleton_self _)
  have hline' := hon.write b hb.occurring
  obtain ⟨a, ha, hab, -⟩ := cause h (hrules (amoReadPrecedesWrite op line i) (by simp [rules]))
    rfl rfl rfl rfl (by decide) (by simp [amoReadPrecedesWrite, follows])
    (by simp [amoReadPrecedesWrite, follows]) hb.occurring hid
    (by simpa [amoReadPrecedesWrite, onLine] using ⟨hid, hline'⟩)
  obtain ⟨r, -, hr, -⟩ := busy_of_read h hop hline ha.occurring
    (ha.carries _ (List.mem_singleton_self _)) (hon.read a ha.occurring)
  exact ⟨r, hab.lt hr hcycle, a, ha, hr⟩

/-- The lock of a line becomes free when an operation writes. -/
theorem write_of_fall
    (h : ModuleCompletion (atomicCore ops lines) catalog trace spec problem interpreter assignment
      pre) {line : Line} (hline : line ∈ lines) {c : Nat} (hc : c ≤ spec.horizon)
    (hbusy : CellIs pre c (busy line) (.bool true))
    (hfree : ¬ CellIs pre (c + 1) (busy line) (.bool true)) :
    ∃ op ∈ ops, WriteAt problem (problem.context interpreter assignment) op c := by
  have hcell : ⟨busy line, .bool, .bool false⟩ ∈ (atomicCore ops lines).stateVariables :=
    mem_cells hline (by simp [cells])
  obtain ⟨rule, hrule, ins, outs, hfires, u, hu, hstate, hcycle, w, hw, hafter⟩ :=
    h.sets_of_ne hcell hc (fun hiff => hfree (hiff.mp hbusy))
  rcases List.mem_append.mp hrule with hrule | hrule
  · -- an invalidation writes the reservation, not the lock
    obtain ⟨line', i, -, hrule⟩ := mem_repeatOver.mp hrule
    obtain rfl := List.mem_singleton.mp hrule
    obtain rfl := List.mem_singleton.mp hu
    exact absurd hstate valid_ne_busy
  · obtain ⟨op, line', i, hmem, hrule⟩ := mem_repeatProduct.mp hrule
    have hop := (mem_of_mem_product_zipIdx hmem).1
    simp only [rules, List.mem_cons, List.not_mem_nil, or_false] at hrule
    rcases hrule with rfl | rfl | rfl | rfl | rfl | rfl | rfl | rfl | rfl | rfl
    · -- a read does not free it
      obtain rfl := List.mem_singleton.mp hu
      rw [evaluate_isTrue] at hw
      cases hw
      exact absurd hafter hfree
    · obtain rfl := List.mem_singleton.mp hu
      obtain ⟨a, b, rfl, rfl, hlinks, -, hb⟩ := hfires.links rfl rfl
      rw [anchor_output rfl rfl (by decide : "write" ≠ "read")] at hcycle
      have hscope := (guards_of_link rfl rfl hlinks).2
      simp only [amoReadPrecedesWrite, onLine, holds_allOf, List.forall_mem_cons, holds_fieldIs,
        apply_output (by decide : "write" ≠ "read")] at hscope
      exact ⟨op, hop, b, ⟨hb, by simpa using hscope.1⟩, hcycle⟩
    · cases hu
    · cases hu
    · obtain rfl := List.mem_singleton.mp hu
      exact absurd hstate valid_ne_busy
    · cases hu
    · obtain rfl := List.mem_singleton.mp hu
      exact absurd hstate valid_ne_busy
    · cases hu
    · cases hu
    · cases hu

theorem WriteAt.congr {context : EvaluationContext} {op op' : Op}
    (hkey : op.opId.key = op'.opId.key) {c : Nat} (h : WriteAt problem context op c) :
    WriteAt problem context op' c := by
  obtain ⟨id, hid, hcycle⟩ := h
  exact ⟨id, hid.congr (by simpa using hkey), hcycle⟩

/-- The busy cell of a line is a lock: reads take it, writes give it back. -/
theorem busy_lock
    (h : ModuleCompletion (atomicCore ops lines) catalog trace spec problem interpreter assignment
      pre) {line : Line} (hline : line ∈ lines)
    (hon : OnOneLine problem (problem.context interpreter assignment) line) :
    Timeline.Lock spec.horizon (fun c => CellIs pre c (busy line) (.bool true))
      (fun k c => ∃ op ∈ ops, op.opId.key = k ∧
        ReadAt problem (problem.context interpreter assignment) op c)
      (fun k c => ∃ op ∈ ops, op.opId.key = k ∧
        WriteAt problem (problem.context interpreter assignment) op c) := by
  constructor
  case acquire =>
    rintro k c ⟨op, hop, -, b, hb, hcycle⟩
    obtain ⟨c', hc, hcycle', hfree, hbusy⟩ := busy_of_read h hop hline hb.occurring
      (hb.carries _ (List.mem_singleton_self _)) (hon.read b hb.occurring)
    cases hcycle.unique hcycle'
    refine ⟨hc, fun hheld => ?_, hbusy⟩
    have hkey := hfree.unique hheld
    simp [Value.key] at hkey
  case fall =>
    intro c hc hbusy hfree
    obtain ⟨op, hop, hwrite⟩ := write_of_fall h hline hc hbusy hfree
    exact ⟨_, op, hop, rfl, hwrite⟩
  case justified =>
    rintro k c ⟨op, hop, hk, hwrite⟩
    obtain ⟨r, hr, hread⟩ := read_of_write h hop hline hon hwrite
    exact ⟨r, hr, op, hop, hk, hread⟩

/-- The windows of a line are disjoint when reads do not share a cycle and
operations write once. -/
theorem disjointWindows_of_apart
    (h : ModuleCompletion (atomicCore ops lines) catalog trace spec problem interpreter assignment
      pre) {line : Line} (hline : line ∈ lines)
    (hon : OnOneLine problem (problem.context interpreter assignment) line)
    (hapart : ReadsApart problem (problem.context interpreter assignment) ops)
    (honce : WritesOnce problem (problem.context interpreter assignment) ops) :
    DisjointWindows problem (problem.context interpreter assignment) ops := by
  intro op hop op' hop' hne r w r' w' hr hw hr' hw'
  have hlocked := (busy_lock h hline hon).exclusive
    (by
      rintro k k' c ⟨p, hp, rfl, hread⟩ ⟨p', hp', rfl, hread'⟩
      exact hapart p hp p' hp' c hread hread')
    (by
      rintro k c c' ⟨p, hp, hk, hwrite⟩ ⟨p', hp', hk', hwrite'⟩
      exact honce p hp c c' hwrite (hwrite'.congr (hk'.trans hk.symm)))
    hne ⟨op, hop, rfl, hr⟩ ⟨op', hop', rfl, hr'⟩
  rcases hlocked with ⟨e, ⟨p, hp, hk, hwrite⟩, -, he⟩ | ⟨e, ⟨p, hp, hk, hwrite⟩, -, he⟩
  · left
    rw [honce op hop w e hw (hwrite.congr hk)]
    exact he
  · right
    rw [honce op' hop' w' e hw' (hwrite.congr hk)]
    exact he

end Completion

/-! ## Runs -/

def twoAmos (assignment : List (String × Value)) : ModuleRun where
  file := atomicCore [amoA, amoB] [lineX]
  eventTypes := atomicTypes
  events := [translated amoA "t0", translated amoB "t1"]
  horizon := 12
  assignment := assignment

/-- Both operations read in cycle 1 and write in cycle 2. -/
def sharedReads : ModuleRun := twoAmos (amoAt 0 1 2 3 ++ amoAt 1 1 2 3)

/-- The second operation reads after the write of the first. -/
def sequentialReads : ModuleRun := twoAmos (amoAt 0 1 2 3 ++ amoAt 1 3 4 5)

/-- The reads and the writes of both operations are on the line, in these cycles. -/
def showsWindows (reads writes : List (List Nat)) (problem : BoundedProblem)
    (context : EvaluationContext) : Bool :=
  [amoA, amoB].map (fun op => sightings problem context "Atomic.AMORead" [("op_id", op.opId)]) =
      reads &&
    [amoA, amoB].map (fun op => sightings problem context "Atomic.AMOWrite" [("op_id", op.opId)]) =
      writes &&
    allCarry problem context "Atomic.AMORead" "reservation_id" lineX.reservationId &&
    allCarry problem context "Atomic.AMOWrite" "reservation_id" lineX.reservationId

structure ShowsWindows (problem : BoundedProblem) (context : EvaluationContext) (ra wa rb wb : Nat) :
    Prop where
  onLine : OnOneLine problem context lineX
  readA : ∀ c, ReadAt problem context amoA c ↔ c = ra
  writeA : ∀ c, WriteAt problem context amoA c ↔ c = wa
  readB : ∀ c, ReadAt problem context amoB c ↔ c = rb
  writeB : ∀ c, WriteAt problem context amoB c ↔ c = wb

theorem shows_of_showsWindows {problem : BoundedProblem} {context : EvaluationContext} {ra wa rb wb : Nat}
    (h : showsWindows [[ra], [rb]] [[wa], [wb]] problem context = true) :
    ShowsWindows problem context ra wa rb wb := by
  simp only [showsWindows, Bool.and_eq_true, decide_eq_true_eq, List.map_cons, List.map_nil,
    List.cons.injEq, and_true] at h
  obtain ⟨⟨⟨⟨hra, hrb⟩, hwa, hwb⟩, hread⟩, hwrite⟩ := h
  constructor
  case onLine => exact ⟨fun id => carries_of_allCarry hread, fun id => carries_of_allCarry hwrite⟩
  all_goals intro c
  case readA => rw [ReadAt, ← mem_sightings, hra, List.mem_singleton]
  case writeA => rw [WriteAt, ← mem_sightings, hwa, List.mem_singleton]
  case readB => rw [ReadAt, ← mem_sightings, hrb, List.mem_singleton]
  case writeB => rw [WriteAt, ← mem_sightings, hwb, List.mem_singleton]

theorem sharedReads_not_disjointWindows : ∃ problem pre,
    sharedReads.Completes .integers problem pre ∧
      OnOneLine problem (problem.context .integers (.ofList sharedReads.assignment)) lineX ∧
      ¬ DisjointWindows problem (problem.context .integers (.ofList sharedReads.assignment))
        [amoA, amoB] := by
  have haccepted : sharedReads.demonstrates .integers (showsWindows [[1], [1]] [[2], [2]]) = true := by
    decide +kernel
  obtain ⟨problem, pre, hcompletes, htest⟩ := ModuleRun.exists_completion haccepted
  have hshows := shows_of_showsWindows htest
  refine ⟨problem, pre, hcompletes, hshows.onLine, fun hdisjoint => ?_⟩
  have hwindows := hdisjoint amoA (by simp) amoB (by simp) (by decide) 1 2 1 2
    ((hshows.readA 1).mpr rfl) ((hshows.writeA 2).mpr rfl) ((hshows.readB 1).mpr rfl)
    ((hshows.writeB 2).mpr rfl)
  omega

theorem sequentialReads_disjointWindows : ∃ problem pre,
    sequentialReads.Completes .integers problem pre ∧
      ShowsWindows problem (problem.context .integers (.ofList sequentialReads.assignment))
        1 2 3 4 ∧
      DisjointWindows problem (problem.context .integers (.ofList sequentialReads.assignment))
        [amoA, amoB] := by
  have haccepted : sequentialReads.demonstrates .integers
      (showsWindows [[1], [3]] [[2], [4]]) = true := by
    decide +kernel
  obtain ⟨problem, pre, ⟨catalog, trace, spec, h⟩, htest⟩ := ModuleRun.exists_completion haccepted
  have hshows := shows_of_showsWindows htest
  refine ⟨problem, pre, ⟨catalog, trace, spec, h⟩, hshows, disjointWindows_of_apart h
    (List.mem_singleton_self lineX) hshows.onLine ?_ ?_⟩
  · intro op hop op' hop' c hr hr'
    simp only [List.mem_cons, List.not_mem_nil, or_false] at hop hop'
    rcases hop with rfl | rfl <;> rcases hop' with rfl | rfl
    · rfl
    · have h1 := (hshows.readA c).mp hr
      have h3 := (hshows.readB c).mp hr'
      omega
    · have h3 := (hshows.readB c).mp hr
      have h1 := (hshows.readA c).mp hr'
      omega
    · rfl
  · intro op hop c c' hw hw'
    simp only [List.mem_cons, List.not_mem_nil, or_false] at hop
    rcases hop with rfl | rfl
    · rw [(hshows.writeA c).mp hw, (hshows.writeA c').mp hw']
    · rw [(hshows.writeB c).mp hw, (hshows.writeB c').mp hw']

end Atomic

end Boom

end Umcm
