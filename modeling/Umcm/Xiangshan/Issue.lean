import Umcm.Xiangshan.Catalog
import Umcm.Composition.Flags

/-!
# Issued operations

What the queue modules share: the operations that the core issues to memory, the
redirects that reach them, and entries that are allocated once.

* `Timeline.Flag.off_of_clear`: an entry that is allocated once and freed stays free.
-/

namespace Timeline.Flag

variable {horizon : ℕ} {on Set Clear : ℕ → Prop}

/-- A flag that is set in one instant only stays off once it is cleared. -/
theorem off_of_clear (h : Flag horizon on Set Clear) (honce : ∀ c d, Set c → Set d → c = d)
    {b c d : ℕ} (hon : on b) (hbc : b ≤ c) (hclear : Clear c) (hcd : c < d)
    (hd : d ≤ horizon + 1) : ¬ on d := by
  intro hond
  obtain ⟨s, hsb, hset, -⟩ := (h.on_iff (by omega)).mp hon
  obtain ⟨s', hsd', hset', hlast⟩ := (h.on_iff hd).mp hond
  obtain rfl := honce s s' hset hset'
  exact (hlast c (by omega) hcd).2 hclear

/-- It is on from then on, as long as it is on. -/
theorem on_of_on (h : Flag horizon on Set Clear) (honce : ∀ c d, Set c → Set d → c = d)
    {s c d : ℕ} (hset : Set s) (hsc : s < c) (hcd : c ≤ d) (hd : d ≤ horizon + 1) (hond : on d) :
    on c := by
  obtain ⟨s', hsd', hset', hlast⟩ := (h.on_iff hd).mp hond
  obtain rfl := honce s s' hset hset'
  exact (h.on_iff (by omega)).mpr ⟨s, hsc, hset, fun e hse hec => hlast e hse (by omega)⟩

end Timeline.Flag

namespace Umcm

open Except EvaluationContext

namespace Xiangshan

open Boom

/-! ## Operations -/

/-- What the queues share of an operation. -/
structure MemoryOp where
  opId : Value
  hart : Value
  programIndex : Value
  robIdx : Value

/-- The first operation comes before the second on the same hart. -/
structure MemoryOp.Older (older younger : MemoryOp) : Prop where
  hart : older.hart.key = younger.hart.key
  index : older.programIndex.pyLt younger.programIndex = .ok true

/-- The operations have different ids, and the events of the trace enter the module. -/
structure Operations (inputTypes : List String) (ops : List MemoryOp) (trace : Trace) : Prop where
  opIds : (ops.map (fun op => op.opId.key)).Nodup
  types : ∀ e ∈ trace.events, e.eventType ∈ inputTypes

theorem Operations.op_unique {inputTypes : List String} {ops : List MemoryOp} {trace : Trace}
    (h : Operations inputTypes ops trace) {op op' : MemoryOp} (hop : op ∈ ops) (hop' : op' ∈ ops)
    (hkey : op.opId.key = op'.opId.key) : op = op' :=
  List.inj_on_of_nodup_map h.opIds hop hop' hkey

section Events

variable (problem : BoundedProblem) (context : EvaluationContext)

/-- The event is of the operation. -/
def MemoryOp.Of (op : MemoryOp) (eventType id : String) : Prop :=
  Showing problem context eventType [("op_id", op.opId)] id

/-- The event issues the operation. -/
def MemoryOp.Issued (op : MemoryOp) (kind id : String) : Prop :=
  Showing problem context "Core.MemoryIssue" [("op_id", op.opId), ("mem_kind", .str kind)] id

/-- The operations are issues of the trace, one each, and those of a hart are issued in
program order. -/
structure IssuedInOrder (kind : String) (ops : List MemoryOp) : Prop where
  once : ∀ op ∈ ops, ∀ a b, op.Issued problem context kind a → op.Issued problem context kind b →
    a = b
  ordered : ∀ older ∈ ops, ∀ younger ∈ ops, older.Older younger → ∀ a b,
    older.Issued problem context kind a → younger.Issued problem context kind b →
      ∃ c d, context.AtCycle a c ∧ context.AtCycle b d ∧ c < d

/-- The redirect is on the hart of the operation and of an older one, or it is of the operation
and flushes it. -/
structure MemoryOp.Redirected (op : MemoryOp) (r : String) : Prop where
  occurring : Occurring problem context "Core.Redirect" r
  hart : context.Carries r "hart" op.hart
  reach : (∃ v, context.Reads r "program_index" v ∧ v.pyLt op.programIndex = .ok true) ∨
    context.Carries r "program_index" op.programIndex ∧
      context.Reads r "flush_self" (.bool true)

end Events

/-! ## Expressions -/

/-- The role is of the operation. -/
def ofOp (op : MemoryOp) (role : String) : Expr := fieldIs role "op_id" opIdSort op.opId

/-- The cycle of the second role is that of the first and `n` more. -/
def later (role role' : String) (n : Int) : Expr :=
  .binary .eq (.eventField role' "cycle" .int)
    (.binary .add (.eventField role "cycle" .int) (.literal (.int n) .int))

/-- The redirect is of an older operation, or of this one and flushes it. -/
def isReached (op : MemoryOp) : Expr :=
  .nary .or
    [.binary .lt (.eventField "redirect" "program_index" .int) (.literal op.programIndex .int),
      allOf [fieldIs "redirect" "program_index" .int op.programIndex,
        flag "redirect" "flush_self"]]

/-- What the guards on a redirect ask of it. -/
def redirects (op : MemoryOp) : List Expr :=
  [fieldIs "redirect" "hart" .int op.hart, isReached op]

/-- The first operation is older than the second. -/
def isOlder (older younger : MemoryOp) : List Expr :=
  [literalsEqual .int older.hart younger.hart,
    .binary .lt (.literal older.programIndex .int) (.literal younger.programIndex .int)]

section Holds

variable {context : EvaluationContext} {b : RoleBinding}

@[simp] theorem holds_ofOp {op : MemoryOp} {role : String} :
    context.Holds (b.instantiate (ofOp op role)) ↔
      context.Carries (b.apply role) "op_id" op.opId := by
  rw [ofOp, holds_fieldIs]

/-- The second event is in the cycle of the first, plus `n`. -/
def Later (context : EvaluationContext) (a b : String) (n : Int) : Prop :=
  ∃ v w x, context.Reads a "cycle" v ∧ context.Reads b "cycle" w ∧
    applyArithmetic context.interpreter .add v (.int n) = .ok x ∧ w.key = x.key

@[simp] theorem holds_later {role role' : String} {n : Int} :
    context.Holds (b.instantiate (later role role' n)) ↔
      Later context (b.apply role) (b.apply role') n := by
  rw [later]
  simp only [RoleBinding.instantiate_binary, RoleBinding.instantiate_eventField,
    RoleBinding.instantiate_literal, holds_eq, evaluate_eventField, evaluate_binary_eq_ok,
    evaluate_literal]
  constructor
  · rintro ⟨w, x, hw, ⟨left, right, hl, hr, hx⟩, hkey⟩
    cases hr
    cases left with
    | none => cases hx
    | some v =>
        simp only [evaluateBinary, applyBinary] at hx
        cases hadd : applyArithmetic context.interpreter .add v (.int n) with
        | error e =>
            rw [hadd] at hx
            cases hx
        | ok y =>
            rw [hadd] at hx
            cases hx
            exact ⟨v, w, x, hl, hw, hadd, hkey⟩
  · rintro ⟨v, w, x, hv, hw, hx, hkey⟩
    refine ⟨w, x, hw, ⟨_, _, hv, rfl, ?_⟩, hkey⟩
    simp only [evaluateBinary, applyBinary, hx]
    rfl

theorem Later.cycle_eq {a b : String} {n c d : Nat} (h : Later context a b n)
    (ha : context.AtCycle a c) (hb : context.AtCycle b d) : d = c + n := by
  obtain ⟨v, w, x, hv, hw, hx, hkey⟩ := h
  cases hv.unique ha
  cases hw.unique hb
  cases hx
  have hcast : ((d : Int) : ℚ) = ((c + n : Int) : ℚ) := Key.num.inj hkey
  exact_mod_cast hcast

/-- Events in the same distance from an event have the same cycle. -/
theorem Later.unique {a b b' : String} {n : Int} {d d' : Nat} (h : Later context a b n)
    (h' : Later context a b' n) (hb : context.AtCycle b d) (hb' : context.AtCycle b' d') :
    d = d' := by
  obtain ⟨v, w, x, hv, hw, hx, hkey⟩ := h
  obtain ⟨v', w', x', hv', hw', hx', hkey'⟩ := h'
  cases hv.unique hv'
  rw [hx] at hx'
  cases hx'
  cases hw.unique hb
  cases hw'.unique hb'
  have hcast : ((d : Int) : ℚ) = ((d' : Int) : ℚ) := Key.num.inj (hkey.trans hkey'.symm)
  exact_mod_cast hcast

/-- The guards read the redirect only. -/
theorem instantiate_redirects {b' : RoleBinding} (h : b.apply "redirect" = b'.apply "redirect")
    {op : MemoryOp} {e : Expr} (he : e ∈ redirects op) : b.instantiate e = b'.instantiate e := by
  simp only [redirects, List.mem_cons, List.not_mem_nil, or_false] at he
  rcases he with rfl | rfl <;>
    simp [isReached, fieldIs, flag, allOf, RoleBinding.instantiate_binary,
      RoleBinding.instantiate_nary, RoleBinding.instantiate_eventField,
      RoleBinding.instantiate_literal, h]

theorem holds_isReached {op : MemoryOp} (hreturns : context.Returns (b.instantiate (isReached op))) :
    context.Holds (b.instantiate (isReached op)) ↔
      (∃ v, context.Reads (b.apply "redirect") "program_index" v ∧
        v.pyLt op.programIndex = .ok true) ∨
      context.Carries (b.apply "redirect") "program_index" op.programIndex ∧
        context.Reads (b.apply "redirect") "flush_self" (.bool true) := by
  rw [isReached, RoleBinding.instantiate_nary] at hreturns ⊢
  rw [holds_or (returns_nary.mp hreturns)]
  simp [holds_lt, EvaluationContext.Reads]

/-- A redirect that satisfies the guards reaches the operation. -/
theorem holds_redirects {problem : BoundedProblem} {op : MemoryOp}
    (hoccurring : Occurring problem context "Core.Redirect" (b.apply "redirect"))
    (hreturns : ∀ e ∈ redirects op, context.Returns (b.instantiate e)) :
    (∀ e ∈ redirects op, context.Holds (b.instantiate e)) ↔
      op.Redirected problem context (b.apply "redirect") := by
  have hreached := holds_isReached (hreturns _ (List.mem_cons_of_mem _ List.mem_cons_self))
  simp only [redirects, List.forall_mem_cons, holds_fieldIs, hreached]
  constructor
  · rintro ⟨hhart, hreach, -⟩
    exact ⟨hoccurring, hhart, hreach⟩
  · intro h
    exact ⟨h.hart, h.reach, fun _ he => absurd he List.not_mem_nil⟩

theorem holds_isOlder {older younger : MemoryOp} :
    (∀ e ∈ isOlder older younger, context.Holds (b.instantiate e)) ↔ older.Older younger := by
  simp only [isOlder, List.forall_mem_cons, holds_literalsEqual, RoleBinding.instantiate_binary,
    RoleBinding.instantiate_literal, holds_lt, evaluate_literal]
  constructor
  · rintro ⟨hhart, ⟨v, w, hv, hw, hlt⟩, -⟩
    cases hv
    cases hw
    exact ⟨hhart, hlt⟩
  · intro h
    exact ⟨h.hart, ⟨_, _, rfl, rfl, h.index⟩, fun _ he => absurd he List.not_mem_nil⟩

end Holds

end Xiangshan

end Umcm
