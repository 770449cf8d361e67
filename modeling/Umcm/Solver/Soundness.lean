import Umcm.Solver.Meaning
import Umcm.Solver.State
import Umcm.Solver.WellBuilt

/-!
# Sorts and evaluation

An expression is built with a sort, and its evaluation should return a literal of
that sort. The constructors check the sorts of operands, but not that the result
of an operation stays in its sort: bit vectors are added, subtracted, multiplied
and negated as integers, a call returns a boolean whatever sort it declares, and
the cycle of an event without one is `None`.

* `soundAt_iff`: evaluation is sound exactly when none of this happens.
-/

namespace Umcm

open Except

/-! ## Literals of a sort -/

namespace IrSort

theorem accepts_bool {s : IrSort} (h : s.isBool = true) {v : Value} :
    s.acceptsLiteral v = true ↔ ∃ b, v = .bool b := by
  unfold acceptsLiteral
  rw [if_pos h]
  cases v <;> simp [Value.isBool]

theorem accepts_int {s : IrSort} (h : s.isInt = true) {v : Value} :
    s.acceptsLiteral v = true ↔ ∃ n, v = .int n := by
  have hname : s.name = "int" := by simpa [isInt] using h
  have hbool : s.isBool = false := by simp [isBool, hname]
  unfold acceptsLiteral
  rw [if_neg (by simp [hbool]), if_pos h]
  cases v <;> simp [Value.asInt?, Value.isBool]

theorem accepts_bitvector {s : IrSort} (h : s.isBitvector = true) {v : Value} :
    s.acceptsLiteral v = true ↔ ∃ n, v = .int n ∧ 0 ≤ n ∧ n < 2 ^ s.width.getD 0 := by
  have hname : s.name = "bv" := by simpa [isBitvector] using h
  unfold acceptsLiteral
  rw [if_neg (by simp [isBool, hname]), if_neg (by simp [isInt, hname]),
    if_neg (by simp [isString, hname]), if_pos h]
  cases v <;> simp

/-- The literals of a numeric sort are integers. -/
theorem exists_int {s : IrSort} (h : s.isInt = true ∨ s.isBitvector = true) {v : Value}
    (hv : s.acceptsLiteral v = true) : ∃ n, v = .int n := by
  rcases h with h | h
  · exact (accepts_int h).mp hv
  · obtain ⟨n, rfl, -⟩ := (accepts_bitvector h).mp hv
    exact ⟨n, rfl⟩

/-- Sorts that hold one truth value hold both. -/
theorem accepts_bool_congr {s : IrSort} {b b' : Bool} (h : s.acceptsLiteral (.bool b) = true) :
    s.acceptsLiteral (.bool b') = true := by
  unfold acceptsLiteral at h ⊢
  split_ifs at h ⊢ <;> simp_all [Value.isBool, Value.asInt?]

end IrSort

/-! ## Results of a sort -/

/-- The computation raises no type error, and a value it returns is a literal of
the sort. -/
structure Result.Fits (s : IrSort) (x : Except PyError Result) : Prop where
  noTypeError : x ≠ .error .typeError
  accepted : ∀ v, x = .ok (some v) → s.acceptsLiteral v = true

namespace Result.Fits

variable {s : IrSort}

theorem unknown : Fits s (.ok none) := ⟨(fun h => nomatch h), (fun _ h => nomatch h)⟩

theorem value {v : Value} (h : s.acceptsLiteral v = true) : Fits s (.ok (some v)) := by
  refine ⟨(fun h => nomatch h), ?_⟩
  intro w hw
  cases hw
  exact h

theorem error {e : PyError} (h : e ≠ .typeError) : Fits s (.error e) := by
  refine ⟨?_, (fun _ h => nomatch h)⟩
  intro he
  cases he
  exact h rfl

theorem bind {α : Type} {x : Except PyError α} {f : α → Except PyError Result}
    (hx : x ≠ .error .typeError) (hf : ∀ a, x = .ok a → Fits s (f a)) : Fits s (x >>= f) := by
  cases x with
  | error e => exact error (fun h => hx (h ▸ rfl))
  | ok a => exact hf a rfl

theorem truth {b : Bool} : Fits .bool (.ok (some (.bool b))) :=
  value ((IrSort.accepts_bool rfl).mpr ⟨b, rfl⟩)

end Result.Fits

/-! ## Operators -/

/-- The exact result of an operation on bit vectors stays within their width. -/
def BinaryOp.InWidth (op : BinaryOp) (width : Nat) (m n : Int) : Prop :=
  match op with
  | .add => m + n < 2 ^ width
  | .sub => n ≤ m
  | .mul => m * n < 2 ^ width
  | _ => True

/-- A mask function that is given `None`, after arguments it could read. -/
def NoneMask (interpreter : Interpreter) (function : String) : List Value → Prop
  | [a, b] => (function = "mask_overlap" ∨ function = "mask_covers") ∧
      (a = .none ∨ (∃ n, a.toInt interpreter = .ok n) ∧ b = .none)
  | _ => False

section Operators

variable {interpreter : Interpreter}

theorem fits_unary_not {v : Value} {s : IrSort} (h : s.isBool = true) :
    Result.Fits s (some <$> applyUnary .not v) :=
  Result.Fits.value ((IrSort.accepts_bool h).mpr ⟨_, rfl⟩)

theorem pyLt_int {m n : Int} : Value.pyLt (.int m) (.int n) = .ok (decide ((m : ℚ) < n)) := rfl

theorem pyLe_int {m n : Int} : Value.pyLe (.int m) (.int n) = .ok (!decide ((n : ℚ) < m)) := rfl

/-- The arithmetic of a sort whose literals are integers. -/
theorem fits_arithmetic {op : BinaryOp} (hop : op.isPredicate = false) {s : IrSort} {m n : Int}
    (hs : s.isInt = true ∨ s.isBitvector = true)
    (hm : s.acceptsLiteral (.int m) = true) (hn : s.acceptsLiteral (.int n) = true)
    (hwidth : s.isBitvector = true → op.InWidth (s.width.getD 0) m n) :
    Result.Fits s (some <$> applyBinary interpreter op (.int m) (.int n)) := by
  have hint : ∀ k : Int, (s.isBitvector = true → 0 ≤ k ∧ k < 2 ^ s.width.getD 0) →
      Result.Fits s (.ok (some (.int k))) := by
    intro k hk
    rcases hs with hs | hs
    · exact Result.Fits.value ((IrSort.accepts_int hs).mpr ⟨k, rfl⟩)
    · exact Result.Fits.value ((IrSort.accepts_bitvector hs).mpr ⟨k, rfl, hk hs⟩)
  have hrange : ∀ {k : Int}, s.acceptsLiteral (.int k) = true → s.isBitvector = true →
      0 ≤ k ∧ k < 2 ^ s.width.getD 0 := by
    intro k hk hbv
    obtain ⟨_, heq, h⟩ := (IrSort.accepts_bitvector hbv).mp hk
    cases heq
    exact h
  cases op with
  | add =>
      refine hint (m + n) (fun hbv => ⟨?_, hwidth hbv⟩)
      have := hrange hm hbv
      have := hrange hn hbv
      omega
  | sub =>
      refine hint (m - n) (fun hbv => ?_)
      have hle : n ≤ m := hwidth hbv
      have := hrange hm hbv
      have := hrange hn hbv
      omega
  | mul =>
      refine hint (m * n) (fun hbv => ⟨?_, hwidth hbv⟩)
      exact mul_nonneg (hrange hm hbv).1 (hrange hn hbv).1
  | div =>
      by_cases hzero : (Value.int n).key = .num 0
      · rw [applyBinary, if_pos hzero]
        refine Result.Fits.error ?_
        rintro ⟨⟩
      · rw [applyBinary, if_neg hzero]
        refine hint (m.fdiv n) (fun hbv => ?_)
        have hm' := hrange hm hbv
        have hn' := hrange hn hbv
        rw [Int.fdiv_eq_ediv_of_nonneg _ hn'.1]
        exact ⟨Int.ediv_nonneg hm'.1 hn'.1, lt_of_le_of_lt (Int.ediv_le_self n hm'.1) hm'.2⟩
  | mod =>
      by_cases hzero : (Value.int n).key = .num 0
      · rw [applyBinary, if_pos hzero]
        refine Result.Fits.error ?_
        rintro ⟨⟩
      · rw [applyBinary, if_neg hzero]
        refine hint (m.fmod n) (fun hbv => ?_)
        have hn' := hrange hn hbv
        have hpos : 0 < n := by
          refine lt_of_le_of_ne hn'.1 ?_
          rintro rfl
          exact hzero (by simp [Value.key])
        exact ⟨Int.fmod_nonneg_of_pos _ hpos, lt_trans (Int.fmod_lt_of_pos _ hpos) hn'.2⟩
  | _ => cases hop

/-- A comparison of integers. -/
theorem fits_ordering {op : BinaryOp} (hop : op = .lt ∨ op = .le ∨ op = .gt ∨ op = .ge)
    {m n : Int} : Result.Fits .bool (some <$> applyBinary interpreter op (.int m) (.int n)) := by
  rcases hop with rfl | rfl | rfl | rfl
  all_goals exact Result.Fits.truth

theorem fits_binary {op : BinaryOp} {l r : Expr} (htyped : Expr.binaryTyped op l r = true)
    {left right : Result} (hleft : ∀ v, left = some v → l.sort.acceptsLiteral v = true)
    (hright : ∀ v, right = some v → r.sort.acceptsLiteral v = true)
    (hwidth : l.sort.isBitvector = true → ∀ m n, left = some (.int m) → right = some (.int n) →
      op.InWidth (l.sort.width.getD 0) m n) :
    Result.Fits (Expr.binary op l r).sort (evaluateBinary interpreter op left right) := by
  have hchoice : ∀ {p q : Prop} [Decidable p] [Decidable q] {b b' : Bool},
      Result.Fits .bool (.ok (if p then some (.bool b) else if q then some (.bool b') else none)) := by
    intro p q _ _ b b'
    split_ifs
    · exact Result.Fits.truth
    · exact Result.Fits.truth
    · exact Result.Fits.unknown
  rcases left with _ | v
  · cases op <;> first | exact hchoice | exact Result.Fits.unknown
  rcases right with _ | w
  · cases op <;> first | exact hchoice | exact Result.Fits.unknown
  have hints : l.sort.compatibleWith r.sort = true → l.numeric = true →
      (l.sort.isInt = true ∨ l.sort.isBitvector = true) ∧ ∃ m n, v = .int m ∧ w = .int n ∧
        l.sort.acceptsLiteral (.int m) = true ∧ l.sort.acceptsLiteral (.int n) = true := by
    intro hcompatible hnumeric
    have hsort : l.sort = r.sort := by simpa [IrSort.compatibleWith] using hcompatible
    have hs : l.sort.isInt = true ∨ l.sort.isBitvector = true := by
      simpa [Expr.numeric] using hnumeric
    have hv := hleft v rfl
    have hw := hright w rfl
    rw [← hsort] at hw
    obtain ⟨m, rfl⟩ := IrSort.exists_int hs hv
    obtain ⟨n, rfl⟩ := IrSort.exists_int hs hw
    exact ⟨hs, m, n, rfl, rfl, hv, hw⟩
  cases op with
  | and => exact hchoice
  | or => exact hchoice
  | implies => exact hchoice
  | xor => exact Result.Fits.truth
  | eq => exact Result.Fits.truth
  | ne => exact Result.Fits.truth
  | lt | le | gt | ge =>
      rw [Expr.binaryTyped, Bool.and_eq_true] at htyped
      obtain ⟨-, m, n, rfl, rfl, -, -⟩ := hints htyped.1 htyped.2
      exact fits_ordering (by simp)
  | add | sub | mul | div | mod =>
      rw [Expr.binaryTyped, Bool.and_eq_true] at htyped
      obtain ⟨hs, m, n, rfl, rfl, hm, hn⟩ := hints htyped.1 htyped.2
      exact fits_arithmetic rfl hs hm hn (fun hbv => hwidth hbv m n rfl rfl)

theorem fits_nary {op : NaryOp} {values : List Result} :
    Result.Fits .bool (.ok (evaluateNary op values)) := by
  cases op <;> (simp only [evaluateNary]; split_ifs) <;>
    first | exact Result.Fits.truth | exact Result.Fits.unknown

/-! ## Calls -/

/-- The functions are predicates. -/
theorem callFunction_bool {function : String} {values : List Value} {w : Value}
    (h : callFunction interpreter function values = .ok w) : ∃ b, w = .bool b := by
  have hmask : ∀ {x y : Except PyError Int} {f : Int → Int → Bool},
      (x >>= fun l => y >>= fun r => .ok (Value.bool (f l r))) = .ok w → ∃ b, w = .bool b := by
    intro x y f h
    obtain ⟨l, -, h⟩ := bind_eq_ok.mp h
    obtain ⟨r, -, h⟩ := bind_eq_ok.mp h
    cases h
    exact ⟨_, rfl⟩
  unfold callFunction at h
  split_ifs at h
  · cases h
    exact ⟨_, rfl⟩
  · rcases values with _ | ⟨a, _ | ⟨b, _ | ⟨c, _ | ⟨d, rest⟩⟩⟩⟩
    · cases h
    · cases h
    · cases h
      exact ⟨_, rfl⟩
    · simp only [sameBlock, sameBlockSized] at h
      split at h
      · split_ifs at h
        cases h
        exact ⟨_, rfl⟩
      · cases h
        exact ⟨_, rfl⟩
    · cases h
  · rcases values with _ | ⟨a, _ | ⟨b, _ | ⟨c, rest⟩⟩⟩
    · cases h
    · cases h
    · exact hmask h
    · cases h
  · rcases values with _ | ⟨a, _ | ⟨b, _ | ⟨c, rest⟩⟩⟩
    · cases h
    · cases h
    · exact hmask h
    · cases h

theorem callFunction_typeError (hparse : ∀ text, interpreter.parseInt text ≠ .error .typeError)
    {function : String} {values : List Value} :
    callFunction interpreter function values = .error .typeError ↔
      NoneMask interpreter function values := by
  have hint : ∀ v : Value, v.toInt interpreter = .error .typeError ↔ v = .none := by
    intro v
    cases v <;> simp [Value.toInt, hparse]
  have hmask : ∀ {a b : Value} {f : Int → Int → Bool},
      (a.toInt interpreter >>= fun l => b.toInt interpreter >>= fun r =>
        (.ok (Value.bool (f l r)) : Except PyError Value)) = .error .typeError ↔
      a = .none ∨ (∃ n, a.toInt interpreter = .ok n) ∧ b = .none := by
    intro a b f
    rw [← hint a, ← hint b]
    cases a.toInt interpreter with
    | error e => simp
    | ok l =>
        cases b.toInt interpreter with
        | error e => simp
        | ok r => simp
  have hother : function ≠ "mask_overlap" → function ≠ "mask_covers" →
      ¬ NoneMask interpreter function values := by
    intro hoverlap hcovers h
    rcases values with _ | ⟨a, _ | ⟨b, _ | ⟨c, rest⟩⟩⟩
    · exact h
    · exact h
    · exact h.1.elim hoverlap hcovers
    · exact h
  have hone : ∀ {f : List Value → Except PyError Value},
      (∀ a b, f [a, b] = .error .typeError ↔
        a = .none ∨ (∃ n, a.toInt interpreter = .ok n) ∧ b = .none) →
      (∀ values, values.length ≠ 2 → f values ≠ .error .typeError) →
      function = "mask_overlap" ∨ function = "mask_covers" →
      (f values = .error .typeError ↔ NoneMask interpreter function values) := by
    intro f htwo hlength hname
    rcases values with _ | ⟨a, _ | ⟨b, _ | ⟨c, rest⟩⟩⟩
    · exact iff_of_false (hlength _ (by simp)) (fun h => h)
    · exact iff_of_false (hlength _ (by simp)) (fun h => h)
    · rw [htwo, NoneMask, and_iff_right hname]
    · exact iff_of_false (hlength _ (by simp)) (fun h => h)
  unfold callFunction
  split_ifs with hsame hblock hoverlap hcovers
  · refine iff_of_false (fun h => nomatch h) (hother ?_ ?_)
    · rintro rfl
      simp at hsame
    · rintro rfl
      simp at hsame
  · subst hblock
    refine iff_of_false ?_ (hother (by decide) (by decide))
    rcases values with _ | ⟨a, _ | ⟨b, _ | ⟨c, _ | ⟨d, rest⟩⟩⟩⟩
    · exact fun h => nomatch h
    · exact fun h => nomatch h
    · exact fun h => nomatch h
    · intro h
      simp only [sameBlock, sameBlockSized] at h
      split at h
      · split_ifs at h
        cases h
      · cases h
    · exact fun h => nomatch h
  · refine hone (fun _ _ => hmask) ?_ (Or.inl hoverlap)
    intro values hlength
    rcases values with _ | ⟨a, _ | ⟨b, _ | ⟨c, rest⟩⟩⟩
    · exact fun h => nomatch h
    · exact fun h => nomatch h
    · exact absurd rfl hlength
    · exact fun h => nomatch h
  · refine hone (fun _ _ => hmask) ?_ (Or.inr hcovers)
    intro values hlength
    rcases values with _ | ⟨a, _ | ⟨b, _ | ⟨c, rest⟩⟩⟩
    · exact fun h => nomatch h
    · exact fun h => nomatch h
    · exact absurd rfl hlength
    · exact fun h => nomatch h
  · exact iff_of_false (fun h => nomatch h) (hother hoverlap hcovers)

end Operators

/-! ## Expressions -/

namespace EvaluationContext

variable (context : EvaluationContext)

/-- Every subexpression, and every subexpression of the attributes that are read,
meets `node`; no conditional is decided in advance, so that both branches count. -/
def NodesAt (node : Nat → Expr → Prop) (depth : Nat) (e : Expr) : Prop :=
  EveryVisited (fun _ => none) (context.AttributeVisitsAt (fun _ _ => none) node depth)
    (node depth) e

def Nodes (node : Nat → Expr → Prop) (e : Expr) : Prop :=
  context.NodesAt node (context.interpreter.depth + 1) e

/-- Evaluation raises no type error, and returns unknown or a literal of the sort. -/
def SoundAt (depth : Nat) (e : Expr) : Prop := Result.Fits e.sort (context.evaluateAt depth e)

/-- The attribute has a value of the sort, as far as the event has the attribute:
an absent cycle, which reads as `None`, is not of sort `int`. -/
def AttributeInSort : Nat → String → String → IrSort → Prop
  | 0, _, _, _ => True
  | depth + 1, eventId, field, s =>
    match context.events.get? eventId with
    | none => True
    | some event =>
      match event.attribute? field with
      | none => True
      | some (.value v) => s.acceptsLiteral v = true
      | some (.expr e) => e.sort = s ∨ ∀ v, context.FaultlessAt depth e →
          context.meaningAt depth e = some v → s.acceptsLiteral v = true

/-- The operation of the node keeps to the sort of the node: the attribute it
reads is of the declared sort, arithmetic on bit vectors stays within their
width, a call declares a sort that holds truth values, and no mask is `None`.
What an operation does to operands that raise does not matter. -/
def InSortAt (depth : Nat) : Expr → Prop
  | .eventField eventId field s => context.AttributeInSort depth eventId field s
  | .unary .neg e => e.sort.isBitvector = true → context.FaultlessAt depth e →
      ∀ n, context.meaningAt depth e = some (.int n) → n = 0
  | .binary op l r => l.sort.isBitvector = true → op.isPredicate = false →
      context.FaultlessAt depth l → context.FaultlessAt depth r →
      ∀ m n, context.meaningAt depth l = some (.int m) →
        context.meaningAt depth r = some (.int n) → op.InWidth (l.sort.width.getD 0) m n
  | .call function es s => (∀ e ∈ es, context.FaultlessAt depth e) →
      ∀ values : List Value, es.map (context.meaningAt depth) = values.map some →
        ¬ NoneMask context.interpreter function values ∧
          ((∃ w, callFunction context.interpreter function values = .ok w) →
            s.acceptsLiteral (.bool true) = true)
  | .literal _ _ | .symbol _ _ | .unary .not _ | .nary _ _ | .ite _ _ _ => True

/-- The expression passes the constructors' checks, and the values of its symbols
are literals of their sorts. -/
structure Admits (e : Expr) : Prop where
  typed : e.wellTyped = true
  accepted : ∀ p ∈ e.symbols, ∀ v, context.assignment.get? p.1 = some v →
    p.2.acceptsLiteral v = true

variable {context : EvaluationContext}

/-! ### Admitted expressions -/

theorem admits_unary {op : UnaryOp} {e : Expr} (h : context.Admits (.unary op e)) :
    context.Admits e := by
  refine ⟨?_, h.accepted⟩
  have htyped := h.typed
  cases op <;> (rw [Expr.wellTyped, Bool.and_eq_true] at htyped; exact htyped.2)

theorem admits_binary {op : BinaryOp} {l r : Expr} (h : context.Admits (.binary op l r)) :
    Expr.binaryTyped op l r = true ∧ context.Admits l ∧ context.Admits r := by
  obtain ⟨htyped, haccepted⟩ := h
  rw [Expr.wellTyped, Bool.and_eq_true, Bool.and_eq_true] at htyped
  rw [Expr.symbols, List.forall_mem_append] at haccepted
  exact ⟨htyped.1.1, ⟨htyped.1.2, haccepted.1⟩, ⟨htyped.2, haccepted.2⟩⟩

theorem admits_ite {c t e : Expr} (h : context.Admits (.ite c t e)) :
    t.sort = e.sort ∧ context.Admits c ∧ context.Admits t ∧ context.Admits e := by
  obtain ⟨htyped, haccepted⟩ := h
  rw [Expr.wellTyped] at htyped
  simp only [Bool.and_eq_true] at htyped
  rw [Expr.symbols, List.forall_mem_append, List.forall_mem_append] at haccepted
  obtain ⟨⟨⟨⟨-, hsort⟩, hc⟩, ht⟩, he⟩ := htyped
  exact ⟨by simpa [IrSort.compatibleWith] using hsort, ⟨hc, haccepted.1.1⟩, ⟨ht, haccepted.1.2⟩,
    ⟨he, haccepted.2⟩⟩

theorem admits_all {es : List Expr} (htyped : Expr.wellTypedAll es = true)
    (haccepted : ∀ p ∈ Expr.symbolsAll es, ∀ v, context.assignment.get? p.1 = some v →
      p.2.acceptsLiteral v = true) : ∀ e ∈ es, context.Admits e := by
  induction es with
  | nil => simp
  | cons e es ih =>
      rw [Expr.wellTypedAll, Bool.and_eq_true] at htyped
      rw [Expr.symbolsAll, List.forall_mem_append] at haccepted
      exact List.forall_mem_cons.mpr ⟨⟨htyped.1, haccepted.1⟩, ih htyped.2 haccepted.2⟩

theorem admits_nary {op : NaryOp} {es : List Expr} (h : context.Admits (.nary op es)) :
    ∀ e ∈ es, context.Admits e := by
  obtain ⟨htyped, haccepted⟩ := h
  rw [Expr.wellTyped, Bool.and_eq_true] at htyped
  exact admits_all htyped.2 haccepted

theorem admits_call {function : String} {es : List Expr} {s : IrSort}
    (h : context.Admits (.call function es s)) : ∀ e ∈ es, context.Admits e := by
  obtain ⟨htyped, haccepted⟩ := h
  rw [Expr.wellTyped, Bool.and_eq_true] at htyped
  exact admits_all htyped.2 haccepted

/-! ### Operands in a list -/

section Operands

variable {depth : Nat} {es : List Expr}

theorem evaluateAll_noTypeError (h : ∀ e ∈ es, context.SoundAt depth e) :
    evaluateAll context.interpreter context.assignment (context.eventAttributeAt depth) es ≠
      .error .typeError := by
  induction es with
  | nil =>
      rw [evaluateAll]
      exact fun h => nomatch h
  | cons e es ih =>
      rw [evaluateAll]
      intro herror
      have hfirst := (h e List.mem_cons_self).noTypeError
      rw [evaluateAt] at hfirst
      have hrest := ih (fun e he => h e (List.mem_cons_of_mem _ he))
      cases hv : evaluateWith context.interpreter context.assignment
          (context.eventAttributeAt depth) e with
      | error err =>
          rw [hv, error_bind] at herror
          cases herror
          exact hfirst hv
      | ok v =>
          rw [hv, ok_bind] at herror
          cases hvs : evaluateAll context.interpreter context.assignment
              (context.eventAttributeAt depth) es with
          | error err =>
              rw [hvs, error_bind] at herror
              cases herror
              exact hrest hvs
          | ok vs =>
              rw [hvs, ok_bind] at herror
              cases herror

theorem evaluateAll_eq_ok_iff_faultless {values : List Result} :
    evaluateAll context.interpreter context.assignment (context.eventAttributeAt depth) es =
        .ok values ↔
      (∀ e ∈ es, context.FaultlessAt depth e) ∧ es.map (context.meaningAt depth) = values := by
  induction es generalizing values with
  | nil => simp [evaluateAll]
  | cons e es ih =>
      rw [evaluateAll, bind_eq_ok, List.forall_mem_cons, List.map_cons]
      constructor
      · rintro ⟨v, hv, h⟩
        obtain ⟨vs, hvs, h⟩ := bind_eq_ok.mp h
        cases h
        obtain ⟨hfaultless, hmeaning⟩ := evaluateAt_eq_ok_iff.mp hv
        obtain ⟨hfaultless', hmeaning'⟩ := ih.mp hvs
        exact ⟨⟨hfaultless, hfaultless'⟩, by rw [hmeaning, hmeaning']⟩
      · rintro ⟨⟨hfaultless, hfaultless'⟩, rfl⟩
        exact ⟨_, evaluateAt_eq_ok_iff.mpr ⟨hfaultless, rfl⟩,
          bind_eq_ok.mpr ⟨_, ih.mpr ⟨hfaultless', rfl⟩, rfl⟩⟩

end Operands

theorem known_of_not_mem {values : List Result} (h : none ∉ values) :
    values = (values.filterMap id).map some := by
  induction values with
  | nil => rfl
  | cons r rest ih =>
      rw [List.mem_cons, not_or] at h
      cases r with
      | none => exact absurd rfl h.1
      | some v => rw [filterMap_some, List.map_cons, ← ih h.2]

/-! ### Soundness -/

section Sound

variable {depth : Nat}

mutual

/-- An expression whose operations keep to their sorts evaluates soundly. -/
theorem soundAt_of_inSort
    (hparse : ∀ text, context.interpreter.parseInt text ≠ .error .typeError)
    (hattribute : ∀ id field s,
      context.AttributeVisitsAt (fun _ _ => none) context.InSortAt depth id field →
      context.AttributeInSort depth id field s →
      Result.Fits s (context.eventAttributeAt depth id field)) : ∀ {e : Expr},
    context.Admits e → context.NodesAt context.InSortAt depth e → context.SoundAt depth e
  | .literal v s, hadmits, _ => by
      rw [SoundAt, evaluateAt, evaluateWith]
      exact Result.Fits.value hadmits.typed
  | .symbol name s, hadmits, _ => by
      rw [SoundAt, evaluateAt, evaluateWith]
      cases hget : context.assignment.get? name with
      | none => exact Result.Fits.unknown
      | some v =>
          exact Result.Fits.value (hadmits.accepted (name, s) (by simp [Expr.symbols]) v hget)
  | .eventField id field s, _, h => by
      rw [SoundAt, evaluateAt, evaluateWith]
      exact hattribute id field s h.1 h.2
  | .unary .not e, hadmits, h => by
      have ih := soundAt_of_inSort hparse hattribute (admits_unary hadmits) h.1
      rw [SoundAt, evaluateAt, evaluateWith]
      refine Result.Fits.bind ih.noTypeError (fun operand _ => ?_)
      rcases operand with _ | v
      · exact Result.Fits.unknown
      · exact fits_unary_not rfl
  | .unary .neg e, hadmits, h => by
      have ih := soundAt_of_inSort hparse hattribute (admits_unary hadmits) h.1
      have hnumeric : e.sort.isInt = true ∨ e.sort.isBitvector = true := by
        have htyped := hadmits.typed
        rw [Expr.wellTyped, Bool.and_eq_true] at htyped
        simpa [Expr.numeric] using htyped.1
      rw [SoundAt, evaluateAt, evaluateWith]
      refine Result.Fits.bind ih.noTypeError (fun operand hoperand => ?_)
      rcases operand with _ | v
      · exact Result.Fits.unknown
      have haccepted := ih.accepted v hoperand
      obtain ⟨n, rfl⟩ := IrSort.exists_int hnumeric haccepted
      rcases hnumeric with hint | hbv
      · exact Result.Fits.value ((IrSort.accepts_int hint).mpr ⟨-n, rfl⟩)
      · -- only zero has its negation in the sort
        obtain ⟨hfaultless, hmeaning⟩ := evaluateAt_eq_ok_iff.mp hoperand
        have hzero : n = 0 := h.2 hbv hfaultless n hmeaning
        subst hzero
        exact Result.Fits.value haccepted
  | .binary op l r, hadmits, h => by
      obtain ⟨htyped, hl, hr⟩ := admits_binary hadmits
      have ihl := soundAt_of_inSort hparse hattribute hl h.1
      have ihr := soundAt_of_inSort hparse hattribute hr h.2.1
      rw [SoundAt, evaluateAt, evaluateWith]
      refine Result.Fits.bind ihl.noTypeError (fun left hleft => ?_)
      refine Result.Fits.bind ihr.noTypeError (fun right hright => ?_)
      refine fits_binary htyped (fun v hv => ihl.accepted v (hv ▸ hleft))
        (fun v hv => ihr.accepted v (hv ▸ hright)) ?_
      rintro hbv m n rfl rfl
      obtain ⟨hfl, hml⟩ := evaluateAt_eq_ok_iff.mp hleft
      obtain ⟨hfr, hmr⟩ := evaluateAt_eq_ok_iff.mp hright
      cases hop : op.isPredicate with
      | true => cases op <;> trivial
      | false => exact h.2.2 hbv hop hfl hfr m n hml hmr
  | .nary op es, hadmits, h => by
      have ih := soundAll_of_inSort hparse hattribute (admits_nary hadmits) h.1
      rw [SoundAt, evaluateAt, evaluateWith]
      exact Result.Fits.bind (evaluateAll_noTypeError ih) (fun _ _ => fits_nary)
  | .ite c t e, hadmits, h => by
      obtain ⟨hsort, hc, ht, he⟩ := admits_ite hadmits
      have ihc := soundAt_of_inSort hparse hattribute hc h.1
      have iht := soundAt_of_inSort hparse hattribute ht h.2.1.1
      have ihe := soundAt_of_inSort hparse hattribute he h.2.1.2
      rw [SoundAt, evaluateAt, evaluateWith]
      refine Result.Fits.bind ihc.noTypeError (fun condition _ => ?_)
      split_ifs
      · exact iht
      · rw [Expr.sort, hsort]
        exact ihe
      · refine Result.Fits.bind iht.noTypeError (fun thenValue hthen => ?_)
        refine Result.Fits.bind ihe.noTypeError (fun elseValue _ => ?_)
        rcases thenValue with _ | v
        · exact Result.Fits.unknown
        rcases elseValue with _ | w
        · exact Result.Fits.unknown
        simp only [mergeBranches]
        split_ifs
        · exact Result.Fits.value (iht.accepted v hthen)
        · exact Result.Fits.unknown
  | .call function es s, hadmits, h => by
      have ih := soundAll_of_inSort hparse hattribute (admits_call hadmits) h.1
      rw [SoundAt, evaluateAt, evaluateWith]
      refine Result.Fits.bind (evaluateAll_noTypeError ih) (fun values hvalues => ?_)
      rw [evaluateCall]
      split_ifs with hnone
      · exact Result.Fits.unknown
      obtain ⟨hfaultless, hmeaning⟩ := evaluateAll_eq_ok_iff_faultless.mp hvalues
      obtain ⟨hmask, hsort⟩ := h.2 hfaultless (values.filterMap id)
        (hmeaning.trans (known_of_not_mem hnone))
      cases hcall : callFunction context.interpreter function (values.filterMap id) with
      | error err =>
          refine Result.Fits.error ?_
          rintro rfl
          exact hmask ((callFunction_typeError hparse).mp hcall)
      | ok w =>
          obtain ⟨b, rfl⟩ := callFunction_bool hcall
          exact Result.Fits.value (IrSort.accepts_bool_congr (hsort ⟨_, hcall⟩))

theorem soundAll_of_inSort
    (hparse : ∀ text, context.interpreter.parseInt text ≠ .error .typeError)
    (hattribute : ∀ id field s,
      context.AttributeVisitsAt (fun _ _ => none) context.InSortAt depth id field →
      context.AttributeInSort depth id field s →
      Result.Fits s (context.eventAttributeAt depth id field)) : ∀ {es : List Expr},
    (∀ e ∈ es, context.Admits e) →
    EveryVisitedOf (fun _ => none)
      (context.AttributeVisitsAt (fun _ _ => none) context.InSortAt depth)
      (context.InSortAt depth) es → ∀ e ∈ es, context.SoundAt depth e
  | [], _, _ => by simp
  | e :: es, hadmits, h => by
      rw [List.forall_mem_cons] at hadmits ⊢
      exact ⟨soundAt_of_inSort hparse hattribute hadmits.1 h.1,
        soundAll_of_inSort hparse hattribute hadmits.2 h.2⟩

end

end Sound

/-- The expressions in the attributes of the events are admitted. -/
def AdmitsAttributes (context : EvaluationContext) : Prop :=
  ∀ id event field e, context.events.get? id = some event →
    event.attribute? field = some (.expr e) → context.Admits e

theorem fits_eventAttribute
    (hparse : ∀ text, context.interpreter.parseInt text ≠ .error .typeError)
    (hevents : context.AdmitsAttributes) {depth : Nat} {id field : String} {s : IrSort}
    (h : context.AttributeVisitsAt (fun _ _ => none) context.InSortAt depth id field)
    (hsort : context.AttributeInSort depth id field s) :
    Result.Fits s (context.eventAttributeAt depth id field) := by
  induction depth generalizing id field s with
  | zero =>
      refine Result.Fits.error ?_
      rintro ⟨⟩
  | succ depth ih =>
      rw [AttributeVisitsAt] at h
      rw [AttributeInSort] at hsort
      rw [eventAttributeAt]
      cases hget : context.events.get? id with
      | none =>
          refine Result.Fits.error ?_
          rintro ⟨⟩
      | some event =>
          simp only [hget] at h hsort ⊢
          cases hattribute : event.attribute? field with
          | none => exact Result.Fits.unknown
          | some term =>
              simp only [hattribute] at h hsort ⊢
              cases term with
              | value v => exact Result.Fits.value hsort
              | expr e =>
                  have hsound := soundAt_of_inSort hparse (fun _ _ _ h hs => ih h hs)
                    (hevents id event field e hget hattribute) h
                  refine ⟨hsound.noTypeError, ?_⟩
                  intro v hv
                  rcases hsort with rfl | hvalue
                  · exact hsound.accepted v hv
                  · obtain ⟨hfaultless, hmeaning⟩ := evaluateAt_eq_ok_iff.mp hv
                    exact hvalue v hfaultless hmeaning

section Nodes

variable {depth : Nat}

mutual

theorem nodesAt_sound
    (hparse : ∀ text, context.interpreter.parseInt text ≠ .error .typeError)
    (hevents : context.AdmitsAttributes)
    (hattribute : ∀ id field,
      context.AttributeVisitsAt (fun _ _ => none) context.InSortAt depth id field →
      context.AttributeVisitsAt (fun _ _ => none) context.SoundAt depth id field) : ∀ {e : Expr},
    context.Admits e → context.NodesAt context.InSortAt depth e →
      context.NodesAt context.SoundAt depth e := by
  intro e hadmits h
  have hsound := soundAt_of_inSort hparse (fun _ _ _ => fits_eventAttribute hparse hevents)
    hadmits h
  match e, hadmits, h with
  | .literal _ _, _, _ => exact hsound
  | .symbol _ _, _, _ => exact hsound
  | .eventField _ _ _, _, h => exact ⟨hattribute _ _ h.1, hsound⟩
  | .unary _ _, hadmits, h =>
      exact ⟨nodesAt_sound hparse hevents hattribute (admits_unary hadmits) h.1, hsound⟩
  | .binary _ _ _, hadmits, h =>
      obtain ⟨-, hl, hr⟩ := admits_binary hadmits
      exact ⟨nodesAt_sound hparse hevents hattribute hl h.1,
        nodesAt_sound hparse hevents hattribute hr h.2.1, hsound⟩
  | .nary _ _, hadmits, h =>
      exact ⟨nodesOf_sound hparse hevents hattribute (admits_nary hadmits) h.1, hsound⟩
  | .ite _ _ _, hadmits, h =>
      obtain ⟨-, hc, ht, he⟩ := admits_ite hadmits
      exact ⟨nodesAt_sound hparse hevents hattribute hc h.1,
        ⟨nodesAt_sound hparse hevents hattribute ht h.2.1.1,
          nodesAt_sound hparse hevents hattribute he h.2.1.2⟩, hsound⟩
  | .call _ _ _, hadmits, h =>
      exact ⟨nodesOf_sound hparse hevents hattribute (admits_call hadmits) h.1, hsound⟩

theorem nodesOf_sound
    (hparse : ∀ text, context.interpreter.parseInt text ≠ .error .typeError)
    (hevents : context.AdmitsAttributes)
    (hattribute : ∀ id field,
      context.AttributeVisitsAt (fun _ _ => none) context.InSortAt depth id field →
      context.AttributeVisitsAt (fun _ _ => none) context.SoundAt depth id field) :
    ∀ {es : List Expr}, (∀ e ∈ es, context.Admits e) →
    EveryVisitedOf (fun _ => none)
      (context.AttributeVisitsAt (fun _ _ => none) context.InSortAt depth)
      (context.InSortAt depth) es →
    EveryVisitedOf (fun _ => none)
      (context.AttributeVisitsAt (fun _ _ => none) context.SoundAt depth)
      (context.SoundAt depth) es
  | [], _, _ => trivial
  | _ :: _, hadmits, h =>
      ⟨nodesAt_sound hparse hevents hattribute (List.forall_mem_cons.mp hadmits).1 h.1,
        nodesOf_sound hparse hevents hattribute (List.forall_mem_cons.mp hadmits).2 h.2⟩

end

end Nodes

theorem attributeNodes_sound
    (hparse : ∀ text, context.interpreter.parseInt text ≠ .error .typeError)
    (hevents : context.AdmitsAttributes) {depth : Nat} {id field : String}
    (h : context.AttributeVisitsAt (fun _ _ => none) context.InSortAt depth id field) :
    context.AttributeVisitsAt (fun _ _ => none) context.SoundAt depth id field := by
  induction depth generalizing id field with
  | zero => trivial
  | succ depth ih =>
      rw [AttributeVisitsAt] at h ⊢
      cases hget : context.events.get? id with
      | none => trivial
      | some event =>
          simp only [hget] at h ⊢
          cases hattribute : event.attribute? field with
          | none => trivial
          | some term =>
              cases term with
              | value v => trivial
              | expr e =>
                  simp only [hattribute] at h ⊢
                  exact nodesAt_sound hparse hevents (fun _ _ => ih)
                    (hevents id event field e hget hattribute) h

/-! ### Necessity -/

theorem evaluateAt_binary {depth : Nat} {op : BinaryOp} {l r : Expr} {left right : Result}
    (hl : context.evaluateAt depth l = .ok left) (hr : context.evaluateAt depth r = .ok right) :
    context.evaluateAt depth (.binary op l r) =
      evaluateBinary context.interpreter op left right := by
  rw [evaluateAt] at hl hr ⊢
  rw [evaluateWith, hl, ok_bind, hr, ok_bind]

/-- Arithmetic on bit vectors whose result is in the sort stays within the width. -/
theorem inWidth_of_sound {depth : Nat} {op : BinaryOp} {l r : Expr} {m n : Int}
    (hsound : context.SoundAt depth (.binary op l r)) (hbv : l.sort.isBitvector = true)
    (hop : op.isPredicate = false) (hl : context.evaluateAt depth l = .ok (some (.int m)))
    (hr : context.evaluateAt depth r = .ok (some (.int n))) :
    op.InWidth (l.sort.width.getD 0) m n := by
  have hresult : context.evaluateAt depth (.binary op l r) =
      evaluateBinary context.interpreter op _ _ := evaluateAt_binary hl hr
  have hrange : ∀ k, context.evaluateAt depth (.binary op l r) = .ok (some (.int k)) →
      0 ≤ k ∧ k < 2 ^ l.sort.width.getD 0 := by
    intro k hk
    have haccepted := hsound.accepted _ hk
    rw [Expr.sort, hop, if_neg Bool.false_ne_true] at haccepted
    obtain ⟨_, heq, h⟩ := (IrSort.accepts_bitvector hbv).mp haccepted
    cases heq
    exact h
  cases op with
  | add => exact (hrange (m + n) hresult).2
  | sub =>
      have hle := (hrange (m - n) hresult).1
      show n ≤ m
      omega
  | mul => exact (hrange (m * n) hresult).2
  | _ => trivial

theorem attributeInSort_of_sound {depth : Nat} {id field : String} {s : IrSort}
    (hsound : context.SoundAt depth (.eventField id field s)) :
    context.AttributeInSort depth id field s := by
  cases depth with
  | zero => trivial
  | succ depth =>
      have haccepted := hsound.accepted
      rw [evaluateAt, evaluateWith, eventAttributeAt] at haccepted
      rw [AttributeInSort]
      cases hget : context.events.get? id with
      | none => trivial
      | some event =>
          simp only [hget] at haccepted ⊢
          cases hattribute : event.attribute? field with
          | none => trivial
          | some term =>
              simp only [hattribute] at haccepted ⊢
              cases term with
              | value v => exact haccepted v rfl
              | expr e =>
                  refine Or.inr (fun v hfaultless hmeaning => ?_)
                  exact haccepted v (evaluateAt_eq_ok_iff.mpr ⟨hfaultless, hmeaning⟩)

theorem inSortAt_of_sound {depth : Nat} {e : Expr}
    (hparse : ∀ text, context.interpreter.parseInt text ≠ .error .typeError)
    (h : context.NodesAt context.SoundAt depth e) : context.InSortAt depth e := by
  have hself : context.SoundAt depth e := EveryVisited.self h
  cases e with
  | eventField id field s => exact attributeInSort_of_sound hself
  | unary op e =>
      cases op with
      | not => trivial
      | neg =>
          intro hbv hfaultless n hn
          have hoperand := evaluateAt_eq_ok_iff.mpr ⟨hfaultless, hn⟩
          have hresult : context.evaluateAt depth (.unary .neg e) = .ok (some (.int (-n))) := by
            rw [evaluateAt] at hoperand ⊢
            rw [evaluateWith, hoperand]
            rfl
          obtain ⟨_, heq, hrange, -⟩ := (IrSort.accepts_bitvector hbv).mp
            ((EveryVisited.self h.1 : context.SoundAt depth e).accepted _ hoperand)
          obtain ⟨_, heq', hrange', -⟩ := (IrSort.accepts_bitvector hbv).mp
            (hself.accepted _ hresult)
          cases heq
          cases heq'
          omega
  | binary op l r =>
      intro hbv hop hfl hfr m n hm hn
      exact inWidth_of_sound hself hbv hop (evaluateAt_eq_ok_iff.mpr ⟨hfl, hm⟩)
        (evaluateAt_eq_ok_iff.mpr ⟨hfr, hn⟩)
  | call function es s =>
      intro hfaultless values hvalues
      have hall := evaluateAll_eq_ok_iff_faultless.mpr ⟨hfaultless, hvalues⟩
      have hresult : context.evaluateAt depth (.call function es s) =
          some <$> callFunction context.interpreter function values := by
        rw [evaluateAt, evaluateWith, hall, ok_bind, evaluateCall, if_neg (by simp)]
        simp
      constructor
      · intro hmask
        have hraises := (callFunction_typeError hparse).mpr hmask
        rw [hraises] at hresult
        exact hself.noTypeError hresult
      · rintro ⟨w, hw⟩
        rw [hw] at hresult
        obtain ⟨b, rfl⟩ := callFunction_bool hw
        exact IrSort.accepts_bool_congr (hself.accepted _ hresult)
  | _ => trivial

/-- Every subexpression evaluates soundly exactly when every operation keeps to
its sort. -/
theorem soundAt_iff
    (hparse : ∀ text, context.interpreter.parseInt text ≠ .error .typeError)
    (hevents : context.AdmitsAttributes) {depth : Nat} {e : Expr} (hadmits : context.Admits e) :
    context.NodesAt context.SoundAt depth e ↔ context.NodesAt context.InSortAt depth e := by
  constructor
  · exact EveryVisited.deep
      (fun _ _ => AttributeVisitsAt.deep (fun _ _ => inSortAt_of_sound hparse))
      (fun _ => inSortAt_of_sound hparse)
  · exact nodesAt_sound hparse hevents (fun _ _ => attributeNodes_sound hparse hevents) hadmits

end EvaluationContext

/-! ## Problems -/

/-- The expressions of a problem: its constraints, and the symbolic attributes of
its events. -/
def BoundedProblem.Mentions (problem : BoundedProblem) (e : Expr) : Prop :=
  (∃ c ∈ problem.constraints, c.expression = e) ∨
    ∃ event ∈ problem.events, ∃ field, event.attribute? field = some (.expr e)

/-- The constraints of a problem, their subexpressions and the attributes they
read are evaluated soundly, under an assignment of literals to symbols, exactly
when their operations keep to their sorts. -/
theorem constraints_sound_iff {catalog : EventCatalog} {trace : Trace} {spec : CompletionSpec}
    {problem : BoundedProblem} (hbuild : buildProblem catalog trace spec = .ok problem)
    {interpreter : Interpreter} (hparse : ∀ text, interpreter.parseInt text ≠ .error .typeError)
    {assignment : Dict String Value}
    (hadmits : ∀ e, problem.Mentions e → (problem.context interpreter assignment).Admits e) :
    (∀ c ∈ problem.constraints, (problem.context interpreter assignment).Nodes
        (problem.context interpreter assignment).SoundAt c.expression) ↔
      ∀ c ∈ problem.constraints, (problem.context interpreter assignment).Nodes
        (problem.context interpreter assignment).InSortAt c.expression := by
  have hevents : (problem.context interpreter assignment).AdmitsAttributes := by
    intro id event field e hget hattribute
    have hmem := Dict.get?_eq_some_iff.mp hget
    change (id, event) ∈ problem.eventMap.entries at hmem
    have hnodup : ((problem.events.map (fun event => (event.id, event))).map Prod.fst).Nodup := by
      rw [List.map_map]
      exact (wellBuilt_of_buildProblem hbuild).nodup
    rw [BoundedProblem.eventMap, Dict.entries_ofList hnodup, List.mem_map] at hmem
    obtain ⟨event', hevent, heq⟩ := hmem
    cases heq
    exact hadmits e (Or.inr ⟨event, hevent, field, hattribute⟩)
  have hone : ∀ c ∈ problem.constraints,
      ((problem.context interpreter assignment).Nodes
        (problem.context interpreter assignment).SoundAt c.expression ↔
      (problem.context interpreter assignment).Nodes
        (problem.context interpreter assignment).InSortAt c.expression) :=
    fun c hc => EvaluationContext.soundAt_iff hparse hevents (hadmits _ (Or.inl ⟨c, hc, rfl⟩))
  exact forall₂_congr hone

/-! ### A sum that overflows and a cycle that is missing -/

theorem untimedId_ne : "load" ≠ "" := by decide

def untimedType : EventType := ⟨"LSU.Load", [], by decide, List.nodup_nil⟩

/-- An observed event without a cycle. -/
def untimedEvent : EventInstance where
  id := "load"
  eventType := "LSU.Load"
  fields := .empty
  cycle := .absent
  occurs := .known true
  id_ne := untimedId_ne
  eventType_ne := by decide
  cycle_sort := EventCycle.int_of_absent
  occurs_sort := Occurs.bool_of_known true

def untimedCatalog : EventCatalog := ⟨.ofList [("LSU.Load", untimedType)], by decide +kernel⟩

/-- `255 + 1`, over masks of 8 bits. -/
def maskSum : Expr := .binary .add (.literal (.int 255) maskSort) (.literal (.int 1) maskSort)

/-- `load.cycle <= 3`. -/
def untimedBound : Expr := .binary .le (.eventField "load" "cycle" .int) (.literal (.int 3) .int)

def untimedTrace : Trace where
  events := [untimedEvent]
  constraints := [.binary .eq maskSum (.literal (.int 0) maskSort), untimedBound]
  isPartial := true
  nodup := by decide
  bool_constraints := by simp [Expr.sort, untimedBound, BinaryOp.isPredicate]; decide

def untimedSpec : CompletionSpec where
  slots := []
  transformations := []
  stateVariables := []
  constraints := []
  horizon := 3
  slots_nodup := List.nodup_nil
  transformations_nodup := List.nodup_nil
  stateVariables_nodup := List.nodup_nil
  constraints_bool := Expr.bool_of_mem_nil

def untimedProblem : BoundedProblem where
  catalog := untimedCatalog
  sourceTrace := untimedTrace
  spec := untimedSpec
  events := [untimedEvent]
  constraints := namedConstraints "trace.constraint." "trace" untimedTrace.constraints
  stateRequirements := []
  stateUpdates := []
  guardedForwards := []
  guardedSupports := []
  transformationActivations := []
  slotIds := []

theorem integers_parseInt (text : String) :
    Interpreter.integers.parseInt text ≠ .error .typeError := by
  intro h
  cases h

theorem buildProblem_untimed :
    buildProblem untimedCatalog untimedTrace untimedSpec = .ok untimedProblem := rfl

theorem untimedProblem_admits (e : Expr) (h : untimedProblem.Mentions e) :
    (untimedProblem.context .integers .empty).Admits e := by
  refine ⟨?_, fun _ _ _ h => nomatch h⟩
  rcases h with ⟨c, hc, rfl⟩ | ⟨event, hevent, field, hattribute⟩
  · have hall : ∀ c ∈ untimedProblem.constraints, c.expression.wellTyped = true := by decide
    exact hall c hc
  · obtain rfl := List.mem_singleton.mp hevent
    unfold EventInstance.attribute? at hattribute
    split_ifs at hattribute <;> cases hattribute

theorem untimedProblem_sound_iff :
    (∀ c ∈ untimedProblem.constraints, (untimedProblem.context .integers .empty).Nodes
        (untimedProblem.context .integers .empty).SoundAt c.expression) ↔
      ∀ c ∈ untimedProblem.constraints, (untimedProblem.context .integers .empty).Nodes
        (untimedProblem.context .integers .empty).InSortAt c.expression :=
  constraints_sound_iff buildProblem_untimed integers_parseInt untimedProblem_admits

/-- The sum of two masks is no mask, and the comparison with the missing cycle
raises a type error. -/
theorem untimedProblem_unsound :
    (untimedProblem.context .integers .empty).evaluate maskSum = .ok (some (.int 256)) ∧
      maskSum.sort.acceptsLiteral (.int 256) = false ∧
      (untimedProblem.context .integers .empty).evaluate untimedBound = .error .typeError ∧
      ¬ ∀ c ∈ untimedProblem.constraints, (untimedProblem.context .integers .empty).Nodes
        (untimedProblem.context .integers .empty).SoundAt c.expression := by
  have hraises : (untimedProblem.context .integers .empty).evaluate untimedBound =
      .error .typeError := by decide
  refine ⟨by decide, by decide, hraises, ?_⟩
  intro hsound
  obtain ⟨named, hnamed, hbound⟩ := mem_namedConstraints "trace.constraint." "trace"
    (List.mem_cons_of_mem _ List.mem_cons_self : untimedBound ∈ untimedTrace.constraints)
  have hself := (hsound named hnamed).self
  rw [hbound] at hself
  exact hself.noTypeError hraises

end Umcm
