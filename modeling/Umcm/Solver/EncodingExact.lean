import Umcm.Solver.Encoding

/-!
# The encoding is exact

What the term of an expression means to the SMT solver is the code of what the
expression evaluates to, operator by operator and then over the whole tree.

* `exact_term`: if an expression in the encodable fragment has a term, it has a
  value, and the term has its code.
-/

namespace Umcm

open Except

/-- The value is a literal of the sort, and the term has its code. -/
structure Codec.Agrees (codec : Codec) (I : Smt.Interpretation) (s : IrSort) (v : Value)
    (t : Smt.Term) : Prop where
  accepted : s.acceptsLiteral v = true
  coded : ∃ w, codec.code s v = some w ∧ t.eval I = some w

namespace Codec

variable {codec : Codec} {interpreter : Interpreter} {I : Smt.Interpretation} {s : IrSort}

theorem agrees_bool_iff (hs : s.isBool = true) {v : Value} {t : Smt.Term} :
    codec.Agrees I s v t ↔ ∃ b, v = .bool b ∧ t.eval I = some (.bool b) := by
  constructor
  · rintro ⟨haccepted, w, hw, ht⟩
    obtain ⟨b, rfl⟩ := (IrSort.accepts_bool hs).mp haccepted
    rw [code_bool hs] at hw
    cases hw
    exact ⟨b, rfl, ht⟩
  · rintro ⟨b, rfl, ht⟩
    exact ⟨(IrSort.accepts_bool hs).mpr ⟨b, rfl⟩, _, code_bool hs b, ht⟩

theorem agrees_int_iff (hs : s.isInt = true) {v : Value} {t : Smt.Term} :
    codec.Agrees I s v t ↔ ∃ n, v = .int n ∧ t.eval I = some (.int n) := by
  constructor
  · rintro ⟨haccepted, w, hw, ht⟩
    obtain ⟨n, rfl⟩ := (IrSort.accepts_int hs).mp haccepted
    rw [code_int hs] at hw
    cases hw
    exact ⟨n, rfl, ht⟩
  · rintro ⟨n, rfl, ht⟩
    exact ⟨(IrSort.accepts_int hs).mpr ⟨n, rfl⟩, _, code_int hs n, ht⟩

theorem agrees_bitvec_iff (hs : s.isBitvector = true) {v : Value} {t : Smt.Term} :
    codec.Agrees I s v t ↔ ∃ n : Int, v = .int n ∧ 0 ≤ n ∧ n < 2 ^ s.width.getD 0 ∧
      t.eval I = some (.bitvec (s.width.getD 0) (BitVec.ofInt (s.width.getD 0) n)) := by
  constructor
  · rintro ⟨haccepted, w, hw, ht⟩
    obtain ⟨n, rfl, h0, hn⟩ := (IrSort.accepts_bitvector hs).mp haccepted
    rw [code_bitvec hs] at hw
    cases hw
    exact ⟨n, rfl, h0, hn, ht⟩
  · rintro ⟨n, rfl, h0, hn, ht⟩
    exact ⟨(IrSort.accepts_bitvector hs).mpr ⟨n, rfl, h0, hn⟩, _, code_bitvec hs n, ht⟩

/-- Formulas agree with truth values. -/
theorem Agrees.isFormula {v : Value} {t : Smt.Term} (h : codec.Agrees I s v t)
    (hs : s.isBool = true) : t.IsFormula I := by
  obtain ⟨b, -, ht⟩ := (agrees_bool_iff hs).mp h
  exact ⟨b, ht⟩

/-! ## Literals -/

theorem agrees_literal {v : Value} {t : Smt.Term} (hv : s.acceptsLiteral v = true)
    (h : codec.literalTerm interpreter s v = .ok t) : codec.Agrees I s v t := by
  unfold literalTerm at h
  split_ifs at h with hbool hint hbv
  · obtain ⟨b, rfl⟩ := (IrSort.accepts_bool hbool).mp hv
    cases h
    exact (agrees_bool_iff hbool).mpr ⟨b, rfl, rfl⟩
  · obtain ⟨n, rfl⟩ := (IrSort.accepts_int hint).mp hv
    cases h
    exact (agrees_int_iff hint).mpr ⟨n, rfl, rfl⟩
  · obtain ⟨n, rfl, h0, hn⟩ := (IrSort.accepts_bitvector hbv).mp hv
    cases h
    refine (agrees_bitvec_iff hbv).mpr ⟨n, rfl, h0, hn, ?_⟩
    rw [Smt.Term.eval, if_pos ⟨IrSort.width_getD_pos hbv, h0, hn⟩]
  · split at h
    · rename_i n hn
      cases h
      refine ⟨hv, .int n, ?_, rfl⟩
      rw [code_enum (by simpa using hbool) (by simpa using hint) (by simpa using hbv), hn]
      rfl
    · cases h

/-! ## Operators -/

theorem agrees_not {v : Value} {t : Smt.Term} (hs : s.isBool = true) (h : codec.Agrees I s v t) :
    ∃ u, applyUnary .not v = .ok u ∧ codec.Agrees I .bool u (.app .not [t]) := by
  obtain ⟨b, rfl, ht⟩ := (agrees_bool_iff hs).mp h
  exact ⟨_, rfl, (agrees_bool_iff rfl).mpr ⟨!b, rfl, Smt.Term.eval_not ht⟩⟩

theorem agrees_neg {v : Value} {t : Smt.Term} (hs : s.isInt = true) (h : codec.Agrees I s v t) :
    ∃ u, applyUnary .neg v = .ok u ∧ codec.Agrees I s u (.app .neg [t]) := by
  obtain ⟨n, rfl, ht⟩ := (agrees_int_iff hs).mp h
  exact ⟨_, rfl, (agrees_int_iff hs).mpr ⟨-n, rfl, Smt.Term.eval_one ht⟩⟩

/-- The connectives of two operands. -/
theorem agrees_connective {op : BinaryOp} (hop : op = .and ∨ op = .or ∨ op = .implies ∨ op = .xor)
    {s' : IrSort} (hs : s.isBool = true) (hs' : s'.isBool = true) {v w : Value} {a b : Smt.Term}
    (ha : codec.Agrees I s v a) (hb : codec.Agrees I s' w b) :
    ∃ u, evaluateBinary interpreter op (some v) (some w) = .ok (some u) ∧
      codec.Agrees I .bool u (.app op.smt [a, b]) := by
  obtain ⟨x, rfl, hx⟩ := (agrees_bool_iff hs).mp ha
  obtain ⟨y, rfl, hy⟩ := (agrees_bool_iff hs').mp hb
  have hone : ∀ {z : Bool}, evaluateBinary interpreter op (some (.bool x)) (some (.bool y)) =
      .ok (some (.bool z)) → op.smt.apply I [.bool x, .bool y] = some (.bool z) →
      ∃ u, evaluateBinary interpreter op (some (.bool x)) (some (.bool y)) = .ok (some u) ∧
        codec.Agrees I .bool u (.app op.smt [a, b]) := by
    intro z hz happly
    exact ⟨_, hz, (agrees_bool_iff rfl).mpr ⟨z, rfl, (Smt.Term.eval_two hx hy).trans happly⟩⟩
  rcases hop with rfl | rfl | rfl | rfl
  · refine hone (z := x && y) ?_ ?_ <;> cases x <;> cases y <;> rfl
  · refine hone (z := x || y) ?_ ?_ <;> cases x <;> cases y <;> rfl
  · refine hone (z := !x || y) ?_ ?_ <;> cases x <;> cases y <;> rfl
  · refine hone (z := x ^^ y) ?_ ?_ <;> cases x <;> cases y <;> rfl

theorem agrees_equality {op : BinaryOp} (hop : op = .eq ∨ op = .ne) {v w : Value} {a b : Smt.Term}
    (ha : codec.Agrees I s v a) (hb : codec.Agrees I s w b) :
    ∃ u, evaluateBinary interpreter op (some v) (some w) = .ok (some u) ∧
      codec.Agrees I .bool u (.app op.smt [a, b]) := by
  obtain ⟨hv, x, hx, hax⟩ := ha
  obtain ⟨hw, y, hy, hby⟩ := hb
  have hty : y.ty = x.ty := (code_ty hy).trans (code_ty hx).symm
  have hiff := code_eq_iff hw hv hy hx
  have heq : decide (y = x) = v.pyEq w := by
    rw [Value.pyEq, decide_eq_decide, hiff, eq_comm]
  rcases hop with rfl | rfl
  · refine ⟨_, rfl, (agrees_bool_iff rfl).mpr ⟨v.pyEq w, rfl, ?_⟩⟩
    rw [← heq]
    exact Smt.Term.eval_eq hax hby hty
  · refine ⟨_, rfl, (agrees_bool_iff rfl).mpr ⟨!v.pyEq w, rfl, ?_⟩⟩
    rw [← heq]
    refine (Smt.Term.eval_two hax hby).trans ?_
    rw [BinaryOp.smt, Smt.Op.apply]
    simp [hty, eq_comm]

theorem agrees_ordering {op : BinaryOp} (hop : op = .lt ∨ op = .le ∨ op = .gt ∨ op = .ge)
    {s' : IrSort} (hs : s.isInt = true) (hs' : s'.isInt = true) {v w : Value} {a b : Smt.Term}
    (ha : codec.Agrees I s v a) (hb : codec.Agrees I s' w b) :
    ∃ u, evaluateBinary interpreter op (some v) (some w) = .ok (some u) ∧
      codec.Agrees I .bool u (.app op.smt [a, b]) := by
  obtain ⟨m, rfl, hm⟩ := (agrees_int_iff hs).mp ha
  obtain ⟨n, rfl, hn⟩ := (agrees_int_iff hs').mp hb
  have hone : ∀ {p : Prop} [Decidable p], op.smt.apply I [.int m, .int n] = some (.bool (decide p)) →
      evaluateBinary interpreter op (some (.int m)) (some (.int n)) =
        .ok (some (.bool (decide p))) →
      ∃ u, evaluateBinary interpreter op (some (.int m)) (some (.int n)) = .ok (some u) ∧
        codec.Agrees I .bool u (.app op.smt [a, b]) := by
    intro p _ happly heval
    exact ⟨_, heval, (agrees_bool_iff rfl).mpr ⟨_, rfl, (Smt.Term.eval_two hm hn).trans happly⟩⟩
  have hlt : ∀ x y : Int, decide ((x : ℚ) < y) = decide (x < y) := by
    intro x y
    rw [decide_eq_decide, Int.cast_lt]
  have hle : ∀ x y : Int, (!decide ((y : ℚ) < x)) = decide (x ≤ y) := by
    intro x y
    rw [hlt, ← decide_not, decide_eq_decide, not_lt]
  rcases hop with rfl | rfl | rfl | rfl
  · refine hone (p := m < n) rfl ?_
    rw [← hlt m n]
    rfl
  · refine hone (p := m ≤ n) rfl ?_
    rw [← hle m n]
    rfl
  · refine hone (p := n < m) rfl ?_
    rw [← hlt n m]
    rfl
  · refine hone (p := n ≤ m) rfl ?_
    rw [← hle n m]
    rfl

/-- Division and remainder round down, which for positive divisors is what the SMT solver
does. -/
theorem agrees_arithmetic {op : BinaryOp} (hop : op.isPredicate = false) {s' : IrSort}
    (hs : s.isInt = true) (hs' : s'.isInt = true) {v w : Value} {a b : Smt.Term}
    (ha : codec.Agrees I s v a) (hb : codec.Agrees I s' w b)
    (hpositive : op = .div ∨ op = .mod → ∃ n : Int, w = .int n ∧ 0 < n) :
    ∃ u, evaluateBinary interpreter op (some v) (some w) = .ok (some u) ∧
      codec.Agrees I s u (.app op.smt [a, b]) := by
  obtain ⟨m, rfl, hm⟩ := (agrees_int_iff hs).mp ha
  obtain ⟨n, rfl, hn⟩ := (agrees_int_iff hs').mp hb
  have hone : ∀ {k : Int}, op.smt.apply I [.int m, .int n] = some (.int k) →
      evaluateBinary interpreter op (some (.int m)) (some (.int n)) = .ok (some (.int k)) →
      ∃ u, evaluateBinary interpreter op (some (.int m)) (some (.int n)) = .ok (some u) ∧
        codec.Agrees I s u (.app op.smt [a, b]) := by
    intro k happly heval
    exact ⟨_, heval, (agrees_int_iff hs).mpr ⟨_, rfl, (Smt.Term.eval_two hm hn).trans happly⟩⟩
  have hkey : 0 < n → ¬ (Value.int n).key = .num 0 := by
    intro hpos heq
    simp only [Value.key, Key.num.injEq, Int.cast_eq_zero] at heq
    omega
  cases op with
  | add => exact hone (k := m + n) (by simp [BinaryOp.smt, Smt.Op.apply, Smt.Val.int?]) rfl
  | sub => exact hone (k := m - n) rfl rfl
  | mul => exact hone (k := m * n) rfl rfl
  | div =>
      obtain ⟨_, heq, hpos⟩ := hpositive (.inl rfl)
      cases heq
      refine hone (k := m.fdiv n) ?_ ?_
      · rw [Int.fdiv_eq_ediv_of_nonneg m hpos.le]
        show some (Smt.Val.int (if n = 0 then _ else _)) = _
        rw [if_neg (by omega)]
      · show some <$> (if _ then _ else _) = _
        rw [if_neg (hkey hpos)]
        rfl
  | mod =>
      obtain ⟨_, heq, hpos⟩ := hpositive (.inr rfl)
      cases heq
      refine hone (k := m.fmod n) ?_ ?_
      · rw [Int.fmod_eq_emod_of_nonneg m hpos.le]
        show some (Smt.Val.int (if n = 0 then _ else _)) = _
        rw [if_neg (by omega)]
      · show some <$> (if _ then _ else _) = _
        rw [if_neg (hkey hpos)]
        rfl
  | _ => cases hop

/-! ## Operands in a list -/

/-- The values are literals of the sorts, and the terms have their codes. -/
inductive AgreesAll (codec : Codec) (I : Smt.Interpretation) :
    List IrSort → List Value → List Smt.Term → Prop
  | nil : AgreesAll codec I [] [] []
  | cons {s : IrSort} {v : Value} {t : Smt.Term} {ss : List IrSort} {vs : List Value}
      {ts : List Smt.Term} (h : codec.Agrees I s v t) (hrest : AgreesAll codec I ss vs ts) :
      AgreesAll codec I (s :: ss) (v :: vs) (t :: ts)

theorem AgreesAll.bools {ss : List IrSort} {vs : List Value} {ts : List Smt.Term}
    (h : codec.AgreesAll I ss vs ts) (hs : ∀ s ∈ ss, s.isBool = true) :
    ∃ bs : List Bool, vs = bs.map Value.bool ∧
      List.Forall₂ (fun t b => t.eval I = some (.bool b)) ts bs := by
  induction h with
  | nil => exact ⟨[], rfl, .nil⟩
  | cons hone _ ih =>
      obtain ⟨hs, hss⟩ := List.forall_mem_cons.mp hs
      obtain ⟨b, rfl, hb⟩ := (agrees_bool_iff hs).mp hone
      obtain ⟨bs, rfl, hbs⟩ := ih hss
      exact ⟨b :: bs, rfl, .cons hb hbs⟩

theorem AgreesAll.codes {ss : List IrSort} {vs : List Value} {ts : List Smt.Term}
    (h : codec.AgreesAll I ss vs ts) (hs : ∀ s' ∈ ss, s' = s) :
    ∃ ws : List Smt.Val,
      List.Forall₂ (fun v w => s.acceptsLiteral v = true ∧ codec.code s v = some w) vs ws ∧
      List.Forall₂ (fun t w => t.eval I = some w) ts ws := by
  induction h with
  | nil => exact ⟨[], .nil, .nil⟩
  | cons hone _ ih =>
      obtain ⟨rfl, hss⟩ := List.forall_mem_cons.mp hs
      obtain ⟨hv, w, hw, ht⟩ := hone
      obtain ⟨ws, hws, hts⟩ := ih hss
      exact ⟨w :: ws, .cons ⟨hv, hw⟩ hws, .cons ht hts⟩

theorem isTrue_bool (b : Bool) : Result.isTrue (some (.bool b)) = b := by
  cases b <;> rfl

theorem isFalse_bool (b : Bool) : Result.isFalse (some (.bool b)) = !b := by
  cases b <;> rfl

theorem evaluateNary_and (bs : List Bool) :
    evaluateNary .and ((bs.map Value.bool).map some) = some (.bool (bs.all id)) := by
  have hany : ((bs.map Value.bool).map some).any Result.isFalse = !bs.all id := by
    simp [List.any_map, Function.comp_def, isFalse_bool, List.not_all_eq_any_not]
  have hall : ((bs.map Value.bool).map some).all Result.isTrue = bs.all id := by
    simp only [List.all_map, Function.comp_def, isTrue_bool]
    rfl
  rw [evaluateNary, hany, hall]
  cases bs.all id <;> rfl

theorem evaluateNary_or (bs : List Bool) :
    evaluateNary .or ((bs.map Value.bool).map some) = some (.bool (bs.any id)) := by
  have hany : ((bs.map Value.bool).map some).any Result.isTrue = bs.any id := by
    simp only [List.any_map, Function.comp_def, isTrue_bool]
    rfl
  have hall : ((bs.map Value.bool).map some).all Result.isFalse = !bs.any id := by
    simp [List.all_map, Function.comp_def, isFalse_bool, List.not_any_eq_all_not]
  rw [evaluateNary, hany, hall]
  cases bs.any id <;> rfl

/-- Values of a sort are distinct exactly when their codes are. -/
theorem nodup_codes {vs : List Value} {ws : List Smt.Val}
    (h : List.Forall₂ (fun v w => s.acceptsLiteral v = true ∧ codec.code s v = some w) vs ws) :
    (vs.map Value.key).Nodup ↔ ws.Nodup := by
  have hmem : ∀ {v : Value} {w : Smt.Val}, s.acceptsLiteral v = true → codec.code s v = some w →
      ∀ {vs : List Value} {ws : List Smt.Val},
        List.Forall₂ (fun v w => s.acceptsLiteral v = true ∧ codec.code s v = some w) vs ws →
        (v.key ∈ vs.map Value.key ↔ w ∈ ws) := by
    intro v w hv hw vs ws h
    induction h with
    | nil => simp
    | cons hone _ ih =>
        rw [List.map_cons, List.mem_cons, List.mem_cons, ih, code_eq_iff hv hone.1 hw hone.2]
  induction h with
  | nil => simp
  | cons hone hrest ih =>
      rw [List.map_cons, List.nodup_cons, List.nodup_cons, hmem hone.1 hone.2 hrest]
      exact and_congr_right (fun _ => ih)

/-- All the values are the first one exactly when their codes are. -/
theorem allEqual_codes {v : Value} {w : Smt.Val} (hv : s.acceptsLiteral v = true)
    (hw : codec.code s v = some w) {vs : List Value} {ws : List Smt.Val}
    (h : List.Forall₂ (fun v w => s.acceptsLiteral v = true ∧ codec.code s v = some w) vs ws) :
    allEqual (v :: vs) = decide (∀ u ∈ ws, u = w) := by
  rw [allEqual, Bool.eq_iff_iff, decide_eq_true_eq]
  induction h with
  | nil => simp
  | cons hone _ ih =>
      rw [List.all_cons, Bool.and_eq_true, ih, List.forall_mem_cons, Value.pyEq_iff,
        code_eq_iff hone.1 hv hone.2 hw]

theorem ty_codes {vs : List Value} {ws : List Smt.Val}
    (h : List.Forall₂ (fun v w => s.acceptsLiteral v = true ∧ codec.code s v = some w) vs ws) :
    ∀ w ∈ ws, w.ty = s.ty := by
  intro w hw
  obtain ⟨v, -, -, hcode⟩ := exists_left_of_forall₂ h hw
  exact code_ty hcode

theorem agrees_nary {op : NaryOp} {es : List Expr} (hop : op.encodable es = true)
    {vs : List Value} {ts : List Smt.Term} (h : codec.AgreesAll I (es.map Expr.sort) vs ts) :
    ∃ u, evaluateNary op (vs.map some) = some u ∧ codec.Agrees I .bool u (naryTerm op ts) := by
  cases op with
  | and =>
      rw [NaryOp.encodable, Bool.and_eq_true, List.all_eq_true] at hop
      obtain ⟨bs, rfl, hts⟩ := h.bools (fun s hs => by
        obtain ⟨e, he, rfl⟩ := List.mem_map.mp hs
        exact hop.2 e he)
      rcases hts with _ | ⟨hb, hts⟩
      · cases es with
        | nil => simp at hop
        | cons e es => cases h
      · refine ⟨_, evaluateNary_and _, (agrees_bool_iff rfl).mpr ⟨_, rfl, ?_⟩⟩
        refine (Smt.Term.eval_app (Smt.Term.forall₂_bools.mpr (.cons hb hts))).trans ?_
        exact Smt.Term.apply_and.mpr ⟨_, rfl, rfl⟩
  | or =>
      rw [NaryOp.encodable, Bool.and_eq_true, List.all_eq_true] at hop
      obtain ⟨bs, rfl, hts⟩ := h.bools (fun s hs => by
        obtain ⟨e, he, rfl⟩ := List.mem_map.mp hs
        exact hop.2 e he)
      rcases hts with _ | ⟨hb, hts⟩
      · cases es with
        | nil => simp at hop
        | cons e es => cases h
      · refine ⟨_, evaluateNary_or _, (agrees_bool_iff rfl).mpr ⟨_, rfl, ?_⟩⟩
        refine (Smt.Term.eval_app (Smt.Term.forall₂_bools.mpr (.cons hb hts))).trans ?_
        exact Smt.Term.apply_or.mpr ⟨_, rfl, rfl⟩
  | distinct =>
      rcases es with _ | ⟨e, _ | ⟨e', es⟩⟩
      · cases hop
      · cases hop
      · rw [NaryOp.encodable, Bool.and_eq_true] at hop
        obtain ⟨ws, hvs, hts⟩ := h.codes (s := e.sort) (by
          intro s' hs'
          have hsame := hop.2
          rw [Expr.sameSort, List.all_eq_true] at hsame
          rcases List.mem_cons.mp hs' with rfl | hs'
          · rfl
          · obtain ⟨e'', he'', rfl⟩ := List.mem_map.mp hs'
            exact of_decide_eq_true (hsame e'' he''))
        have hnodup := nodup_codes hvs
        have hty := ty_codes hvs
        have hconcrete : (vs.map some).filterMap id = vs := by
          rw [List.filterMap_map]
          exact List.filterMap_some
        have heval : evaluateNary .distinct (vs.map some) = some (.bool (decide ws.Nodup)) := by
          simp only [evaluateNary, hconcrete, hnodup, List.length_map]
          by_cases hws : ws.Nodup <;> simp [hws]
        refine ⟨_, heval, (agrees_bool_iff rfl).mpr ⟨_, rfl, ?_⟩⟩
        rcases h with _ | ⟨-, _ | ⟨-, -⟩⟩
        rcases hts with _ | ⟨ht, _ | ⟨ht', hts⟩⟩
        refine (Smt.Term.eval_app (.cons ht (.cons ht' hts))).trans ?_
        obtain ⟨hw, hws⟩ := List.forall_mem_cons.mp hty
        rw [NaryOp.smt, Smt.Op.apply, if_pos (fun u hu => (hws u hu).trans hw.symm)]

/-! ## Conditionals and calls -/

theorem agrees_ite {s' : IrSort} (hs' : s'.isBool = true) {c v w : Value} {a b d : Smt.Term}
    (ha : codec.Agrees I s' c a) (hb : codec.Agrees I s v b) (hd : codec.Agrees I s w d) :
    ∃ x : Bool, c = .bool x ∧ codec.Agrees I s (if x then v else w) (.app .ite [a, b, d]) := by
  obtain ⟨x, rfl, hx⟩ := (agrees_bool_iff hs').mp ha
  obtain ⟨hv, y, hy, hby⟩ := hb
  obtain ⟨hw, z, hz, hdz⟩ := hd
  have hty : y.ty = z.ty := (code_ty hy).trans (code_ty hz).symm
  have heval : (Smt.Term.app .ite [a, b, d]).eval I = some (if x then y else z) := by
    refine (Smt.Term.eval_app (.cons hx (.cons hby (.cons hdz .nil)))).trans ?_
    rw [Smt.Op.apply, if_pos hty]
  refine ⟨x, rfl, ?_⟩
  cases x with
  | true => exact ⟨hv, y, hy, heval⟩
  | false => exact ⟨hw, z, hz, heval⟩

/-- The bits that two masks share. -/
theorem ofInt_and {width : Nat} {m n : Int} (hm : 0 ≤ m ∧ m < 2 ^ width)
    (hn : 0 ≤ n ∧ n < 2 ^ width) : (BitVec.ofInt width m &&& BitVec.ofInt width n) =
      BitVec.ofInt width (m.land n) ∧ 0 ≤ m.land n ∧ m.land n < 2 ^ width := by
  obtain ⟨m, rfl⟩ := Int.eq_ofNat_of_zero_le hm.1
  obtain ⟨n, rfl⟩ := Int.eq_ofNat_of_zero_le hn.1
  have hland : Int.land (m : Int) (n : Int) = ((m &&& n : Nat) : Int) := rfl
  have hlt : m &&& n < 2 ^ width := by
    refine lt_of_le_of_lt Nat.and_le_left ?_
    exact_mod_cast hm.2
  rw [hland]
  refine ⟨?_, Int.natCast_nonneg _, by exact_mod_cast hlt⟩
  rw [BitVec.ofInt_natCast, BitVec.ofInt_natCast, BitVec.ofInt_natCast]
  refine BitVec.eq_of_toNat_eq ?_
  have hmlt : m < 2 ^ width := by exact_mod_cast hm.2
  have hnlt : n < 2 ^ width := by exact_mod_cast hn.2
  rw [BitVec.toNat_and, BitVec.toNat_ofNat, BitVec.toNat_ofNat, BitVec.toNat_ofNat,
    Nat.mod_eq_of_lt hmlt, Nat.mod_eq_of_lt hnlt, Nat.mod_eq_of_lt hlt]

/-- Two masks of eight bits. -/
theorem eval_bvand (hs : s.isBitvector = true) (hwidth : s.width = some 8) {s' : IrSort}
    (hs' : s'.isBitvector = true) (hwidth' : s'.width = some 8) {v w : Value} {a b : Smt.Term}
    (ha : codec.Agrees I s v a) (hb : codec.Agrees I s' w b) :
    ∃ m n : Int, v = .int m ∧ w = .int n ∧ 0 ≤ m.land n ∧ m.land n < 2 ^ 8 ∧
      0 ≤ n ∧ n < 2 ^ 8 ∧ b.eval I = some (.bitvec 8 (BitVec.ofInt 8 n)) ∧
      (Smt.Term.app .bvand [a, b]).eval I = some (.bitvec 8 (BitVec.ofInt 8 (m.land n))) := by
  obtain ⟨m, rfl, hm0, hm, hma⟩ := (agrees_bitvec_iff hs).mp ha
  obtain ⟨n, rfl, hn0, hn, hnb⟩ := (agrees_bitvec_iff hs').mp hb
  rw [hwidth, Option.getD_some] at hm hma
  rw [hwidth', Option.getD_some] at hn hnb
  obtain ⟨hand, h0, hlt⟩ := ofInt_and ⟨hm0, hm⟩ ⟨hn0, hn⟩
  refine ⟨m, n, rfl, rfl, h0, hlt, hn0, hn, hnb, ?_⟩
  refine (Smt.Term.eval_two hma hnb).trans ?_
  rw [Smt.Op.apply, dif_pos rfl, BitVec.cast_eq, hand]

theorem agrees_call {function : String} {es : List Expr}
    (hcall : callEncodable function es = true) {vs : List Value} {ts : List Smt.Term}
    (h : codec.AgreesAll I (es.map Expr.sort) vs ts) {t : Smt.Term}
    (ht : callTerm function ts = .ok t) (hs : s.isBool = true) :
    ∃ u, callFunction interpreter function vs = .ok u ∧ codec.Agrees I s u t := by
  have hsame : Expr.sameSort es = true → ∀ e es', es = e :: es' →
      ∀ s' ∈ es.map Expr.sort, s' = e.sort := by
    rintro hsort e es' rfl s' hs'
    rw [Expr.sameSort, List.all_eq_true] at hsort
    rcases List.mem_cons.mp hs' with rfl | hs'
    · rfl
    · obtain ⟨e', he', rfl⟩ := List.mem_map.mp hs'
      exact of_decide_eq_true (hsort e' he')
  unfold callEncodable at hcall
  unfold callTerm at ht
  unfold callFunction
  split_ifs at hcall with hequal hblock
  · -- the arguments are compared with the first one
    rw [if_pos hequal] at ht ⊢
    refine ⟨_, rfl, ?_⟩
    rcases es with _ | ⟨e, es⟩
    · cases h
      cases ht
      exact (agrees_bool_iff hs).mpr ⟨true, rfl, rfl⟩
    · obtain ⟨ws, hvs, hts⟩ := h.codes (hsame hcall e es rfl)
      rcases hvs with _ | ⟨hv, hvs⟩
      · cases h
      rcases hts with _ | ⟨ht', hts⟩
      have hiff := allEqual_codes hv.1 hv.2 hvs
      rw [hiff]
      refine (agrees_bool_iff hs).mpr ⟨_, rfl, ?_⟩
      rcases hts with _ | ⟨ht'', hts⟩
      · cases ht
        simp [Smt.Term.eval]
      · cases ht
        refine (Smt.Term.eval_app (.cons ht' (.cons ht'' hts))).trans ?_
        have hw := code_ty hv.2
        rw [Smt.Op.apply, if_pos (fun u hu => (ty_codes hvs u hu).trans hw.symm)]
  · rw [if_neg hequal, if_pos hblock] at ht ⊢
    rw [Bool.and_eq_true, decide_eq_true_eq] at hcall
    rcases es with _ | ⟨e, _ | ⟨e', _ | ⟨e'', es⟩⟩⟩
    · cases hcall.1
    · cases hcall.1
    · obtain ⟨ws, hvs, hts⟩ := h.codes (hsame hcall.2 e [e'] rfl)
      rcases hvs with _ | ⟨hv, _ | ⟨hv', _ | _⟩⟩
      · cases h
      · rcases h with _ | ⟨_, h⟩
        cases h
      · rcases hts with _ | ⟨ht', _ | ⟨ht'', _ | _⟩⟩
        cases ht
        refine ⟨_, rfl, (agrees_bool_iff hs).mpr ⟨_, rfl, ?_⟩⟩
        rw [Smt.Term.eval_eq ht' ht'' ((code_ty hv'.2).trans (code_ty hv.2).symm), Value.pyEq]
        refine congrArg (fun b => some (Smt.Val.bool b)) ?_
        rw [decide_eq_decide, code_eq_iff hv'.1 hv.1 hv'.2 hv.2, eq_comm]
      · rcases h with _ | ⟨_, _ | ⟨_, h⟩⟩
        cases h
    · exact absurd hcall.1 (by simp)
  · rw [if_neg hequal, if_neg hblock] at ht ⊢
    rw [Bool.and_eq_true, decide_eq_true_eq, List.all_eq_true] at hcall
    rcases es with _ | ⟨e, _ | ⟨e', _ | ⟨e'', es⟩⟩⟩
    · cases hcall.1
    · cases hcall.1
    · obtain ⟨he, he'⟩ : (e.sort.isBitvector = true ∧ e.sort.width = some 8) ∧
          (e'.sort.isBitvector = true ∧ e'.sort.width = some 8) := by
        simpa using hcall.2
      rcases h with _ | ⟨ha, _ | ⟨hb, h⟩⟩
      cases h
      obtain ⟨m, n, rfl, rfl, h0, hlt, hn0, hn, heb, hand⟩ := eval_bvand he.1 he.2 he'.1 he'.2 ha hb
      split_ifs at ht with hoverlap hcovers
      · rw [if_pos hoverlap]
        cases ht
        refine ⟨_, rfl, (agrees_bool_iff hs).mpr ⟨_, rfl, ?_⟩⟩
        have hzero : (Smt.Term.bitvec 0 8).eval I = some (.bitvec 8 (BitVec.ofInt 8 0)) := by
          rw [Smt.Term.eval, if_pos (by decide)]
        rw [Smt.Term.eval_not (Smt.Term.eval_eq hand hzero rfl)]
        refine congrArg (fun b => some (Smt.Val.bool b)) ?_
        rw [← decide_not, decide_eq_decide, not_iff_not]
        constructor
        · intro heq
          simp only [Smt.Val.bitvec.injEq, heq_eq_eq, true_and] at heq
          exact (ofInt_inj ⟨le_refl 0, by norm_num⟩ ⟨h0, hlt⟩ heq).symm
        · intro heq
          rw [heq]
      · rw [if_neg hoverlap, if_pos hcovers]
        cases ht
        refine ⟨_, rfl, (agrees_bool_iff hs).mpr ⟨_, rfl, ?_⟩⟩
        rw [Smt.Term.eval_eq hand heb rfl]
        refine congrArg (fun b => some (Smt.Val.bool b)) ?_
        rw [decide_eq_decide]
        constructor
        · intro heq
          simp only [Smt.Val.bitvec.injEq, heq_eq_eq, true_and] at heq
          exact (ofInt_inj ⟨hn0, hn⟩ ⟨h0, hlt⟩ heq).symm
        · intro heq
          rw [heq]
    · exact absurd hcall.1 (by simp)

end Codec

/-! ## Expressions -/

/-- What a reference reads is of its sort, unless it is missing. -/
def EventInstance.AttributeSorted (event : EventInstance) (field : String) (s : IrSort) : Prop :=
  match event.attribute? field with
  | some (.value v) => v = .none ∨ s.acceptsLiteral v = true
  | some (.expr e) => e.sort = s
  | none => True

namespace Codec

variable (codec : Codec) (context : EvaluationContext) (I : Smt.Interpretation)

/-- The expression is in the fragment, its symbols have values that the interpretation
stands for, and its references read values of their sorts. -/
structure Covers (e : Expr) : Prop where
  encodable : e.encodable = true
  symbols : ∀ p ∈ e.symbols, ∃ v, context.assignment.get? p.1 = some v ∧
    codec.Agrees I p.2 v (.const p.1)
  references : ∀ r ∈ e.eventFields, ∀ event, context.events.get? r.1 = some event →
    event.AttributeSorted r.2.1 r.2.2

/-- The symbolic attributes of the events are covered. -/
def CoversAttributes : Prop :=
  ∀ id event field e, context.events.get? id = some event →
    event.attribute? field = some (.expr e) → codec.Covers context I e

variable {codec context I}

theorem covers_unary {op : UnaryOp} {e : Expr} (h : codec.Covers context I (.unary op e)) :
    codec.Covers context I e := by
  refine ⟨?_, h.symbols, h.references⟩
  have hencodable := h.encodable
  cases op <;> (rw [Expr.encodable, Bool.and_eq_true] at hencodable; exact hencodable.2)

theorem covers_binary {op : BinaryOp} {l r : Expr} (h : codec.Covers context I (.binary op l r)) :
    op.encodable l r = true ∧ codec.Covers context I l ∧ codec.Covers context I r := by
  obtain ⟨hencodable, hsymbols, hreferences⟩ := h
  rw [Expr.encodable, Bool.and_eq_true, Bool.and_eq_true] at hencodable
  rw [Expr.symbols, List.forall_mem_append] at hsymbols
  rw [Expr.eventFields, List.forall_mem_append] at hreferences
  exact ⟨hencodable.1.1, ⟨hencodable.1.2, hsymbols.1, hreferences.1⟩,
    ⟨hencodable.2, hsymbols.2, hreferences.2⟩⟩

theorem covers_ite {c t e : Expr} (h : codec.Covers context I (.ite c t e)) :
    c.sort.isBool = true ∧ t.sort = e.sort ∧ codec.Covers context I c ∧
      codec.Covers context I t ∧ codec.Covers context I e := by
  obtain ⟨hencodable, hsymbols, hreferences⟩ := h
  rw [Expr.encodable] at hencodable
  simp only [Bool.and_eq_true, decide_eq_true_eq] at hencodable
  rw [Expr.symbols, List.forall_mem_append, List.forall_mem_append] at hsymbols
  rw [Expr.eventFields, List.forall_mem_append, List.forall_mem_append] at hreferences
  obtain ⟨⟨⟨⟨hbool, hsort⟩, hc⟩, ht⟩, he⟩ := hencodable
  exact ⟨hbool, hsort, ⟨hc, hsymbols.1.1, hreferences.1.1⟩, ⟨ht, hsymbols.1.2, hreferences.1.2⟩,
    ⟨he, hsymbols.2, hreferences.2⟩⟩

theorem covers_all {es : List Expr} (hencodable : Expr.encodableAll es = true)
    (hsymbols : ∀ p ∈ Expr.symbolsAll es, ∃ v, context.assignment.get? p.1 = some v ∧
      codec.Agrees I p.2 v (.const p.1))
    (hreferences : ∀ r ∈ Expr.eventFieldsAll es, ∀ event, context.events.get? r.1 = some event →
      event.AttributeSorted r.2.1 r.2.2) : ∀ e ∈ es, codec.Covers context I e := by
  induction es with
  | nil => simp
  | cons e es ih =>
      rw [Expr.encodableAll, Bool.and_eq_true] at hencodable
      rw [Expr.symbolsAll, List.forall_mem_append] at hsymbols
      rw [Expr.eventFieldsAll, List.forall_mem_append] at hreferences
      exact List.forall_mem_cons.mpr ⟨⟨hencodable.1, hsymbols.1, hreferences.1⟩,
        ih hencodable.2 hsymbols.2 hreferences.2⟩

theorem covers_nary {op : NaryOp} {es : List Expr} (h : codec.Covers context I (.nary op es)) :
    op.encodable es = true ∧ ∀ e ∈ es, codec.Covers context I e := by
  obtain ⟨hencodable, hsymbols, hreferences⟩ := h
  rw [Expr.encodable, Bool.and_eq_true] at hencodable
  exact ⟨hencodable.1, covers_all hencodable.2 hsymbols hreferences⟩

theorem covers_call {function : String} {es : List Expr} {s : IrSort}
    (h : codec.Covers context I (.call function es s)) : s.isBool = true ∧
      callEncodable function es = true ∧ ∀ e ∈ es, codec.Covers context I e := by
  obtain ⟨hencodable, hsymbols, hreferences⟩ := h
  rw [Expr.encodable, Bool.and_eq_true, Bool.and_eq_true] at hencodable
  exact ⟨hencodable.1.1, hencodable.1.2, covers_all hencodable.2 hsymbols hreferences⟩

theorem sort_of_isPositive {e : Expr} (h : e.isPositive = true) : e.sort.isInt = true ∧
    ∃ n : Int, 0 < n ∧ e = .literal (.int n) e.sort := by
  unfold Expr.isPositive at h
  split at h
  · rw [Bool.and_eq_true, decide_eq_true_eq] at h
    exact ⟨h.1, _, h.2, rfl⟩
  · cases h

/-- What two operands of an operator in the fragment evaluate to. -/
theorem agrees_binary {op : BinaryOp} {l r : Expr} (hop : op.encodable l r = true) {v w : Value}
    {a b : Smt.Term} (ha : codec.Agrees I l.sort v a) (hb : codec.Agrees I r.sort w b)
    (hliteral : ∀ n : Int, r = .literal (.int n) r.sort → w = .int n) {interpreter : Interpreter} :
    ∃ u, evaluateBinary interpreter op (some v) (some w) = .ok (some u) ∧
      codec.Agrees I (Expr.binary op l r).sort u (.app op.smt [a, b]) := by
  cases op with
  | and | or | implies | xor =>
      rw [BinaryOp.encodable, Bool.and_eq_true] at hop
      exact agrees_connective (by simp) hop.1 hop.2 ha hb
  | eq | ne =>
      rw [BinaryOp.encodable, decide_eq_true_eq] at hop
      exact agrees_equality (by simp) ha (hop ▸ hb)
  | lt | le | gt | ge =>
      rw [BinaryOp.encodable, Bool.and_eq_true] at hop
      exact agrees_ordering (by simp) hop.1 hop.2 ha hb
  | add | sub | mul =>
      rw [BinaryOp.encodable, Bool.and_eq_true] at hop
      exact agrees_arithmetic rfl hop.1 hop.2 ha hb (by simp)
  | div | mod =>
      rw [BinaryOp.encodable, Bool.and_eq_true] at hop
      obtain ⟨hint, n, hpos, heq⟩ := sort_of_isPositive hop.2
      exact agrees_arithmetic rfl hop.1 hint ha hb (fun _ => ⟨n, hliteral n heq, hpos⟩)

section Trees

variable {attributeTerm : String → String → IrSort → Except PyError Smt.Term}
  {attributeOf : String → String → Except PyError Result}

mutual

/-- The induction over the tree, for attributes that are read as `hattribute` says. -/
theorem exact_termWith
    (hattribute : ∀ {id field : String} {s : IrSort} {t : Smt.Term},
      (∀ event, context.events.get? id = some event → event.AttributeSorted field s) →
      attributeTerm id field s = .ok t →
      ∃ v, attributeOf id field = .ok (some v) ∧ codec.Agrees I s v t) : ∀ {e : Expr} {t : Smt.Term},
    codec.Covers context I e → codec.termWith context.interpreter attributeTerm e = .ok t →
    ∃ v, evaluateWith context.interpreter context.assignment attributeOf e = .ok (some v) ∧
      codec.Agrees I e.sort v t
  | .literal v s, t, hcovers, h => by
      rw [termWith] at h
      exact ⟨v, rfl, agrees_literal hcovers.encodable h⟩
  | .symbol name s, t, hcovers, h => by
      rw [termWith] at h
      cases h
      obtain ⟨v, hget, hagrees⟩ := hcovers.symbols (name, s) (by simp [Expr.symbols])
      refine ⟨v, ?_, hagrees⟩
      rw [evaluateWith, hget]
  | .eventField id field s, t, hcovers, h => by
      rw [termWith] at h
      obtain ⟨v, hv, hagrees⟩ := hattribute
        (fun event hget => hcovers.references (id, field, s) (by simp [Expr.eventFields]) event hget) h
      exact ⟨v, hv, hagrees⟩
  | .unary op e, t, hcovers, h => by
      rw [termWith] at h
      obtain ⟨a, ha, h⟩ := bind_eq_ok.mp h
      cases h
      obtain ⟨v, hv, hagrees⟩ := exact_termWith hattribute (covers_unary hcovers) ha
      have hencodable := hcovers.encodable
      rw [evaluateWith, hv, ok_bind]
      cases op with
      | not =>
          rw [Expr.encodable, Bool.and_eq_true] at hencodable
          obtain ⟨u, hu, hagrees⟩ := agrees_not hencodable.1 hagrees
          exact ⟨u, by simp only [hu]; rfl, hagrees⟩
      | neg =>
          rw [Expr.encodable, Bool.and_eq_true] at hencodable
          obtain ⟨u, hu, hagrees⟩ := agrees_neg hencodable.1 hagrees
          exact ⟨u, by simp only [hu]; rfl, hagrees⟩
  | .binary op l r, t, hcovers, h => by
      obtain ⟨hop, hl, hr⟩ := covers_binary hcovers
      rw [termWith] at h
      obtain ⟨a, ha, h⟩ := bind_eq_ok.mp h
      obtain ⟨b, hb, h⟩ := bind_eq_ok.mp h
      cases h
      obtain ⟨v, hv, hva⟩ := exact_termWith hattribute hl ha
      obtain ⟨w, hw, hwb⟩ := exact_termWith hattribute hr hb
      rw [evaluateWith, hv, ok_bind, hw, ok_bind]
      refine agrees_binary hop hva hwb (fun n heq => ?_)
      rw [heq, evaluateWith] at hw
      cases hw
      rfl
  | .nary op es, t, hcovers, h => by
      obtain ⟨hop, hes⟩ := covers_nary hcovers
      rw [termWith] at h
      obtain ⟨ts, hts, h⟩ := bind_eq_ok.mp h
      cases h
      obtain ⟨vs, hvs, hall⟩ := exact_termsWith hattribute hes hts
      obtain ⟨u, hu, hagrees⟩ := agrees_nary hop hall
      refine ⟨u, ?_, hagrees⟩
      rw [evaluateWith, hvs, ok_bind, hu]
  | .ite c t e, d, hcovers, h => by
      obtain ⟨hbool, hsort, hc, ht, he⟩ := covers_ite hcovers
      rw [termWith] at h
      obtain ⟨a, ha, h⟩ := bind_eq_ok.mp h
      obtain ⟨b, hb, h⟩ := bind_eq_ok.mp h
      obtain ⟨b', hb', h⟩ := bind_eq_ok.mp h
      cases h
      obtain ⟨v, hv, hva⟩ := exact_termWith hattribute hc ha
      obtain ⟨w, hw, hwb⟩ := exact_termWith hattribute ht hb
      obtain ⟨w', hw', hwb'⟩ := exact_termWith hattribute he hb'
      rw [← hsort] at hwb'
      obtain ⟨x, rfl, hagrees⟩ := agrees_ite hbool hva hwb hwb'
      refine ⟨_, ?_, hagrees⟩
      rw [evaluateWith, hv, ok_bind]
      cases x with
      | true => exact hw
      | false => exact hw'
  | .call function es s, t, hcovers, h => by
      obtain ⟨hbool, hcall, hes⟩ := covers_call hcovers
      rw [termWith] at h
      obtain ⟨ts, hts, h⟩ := bind_eq_ok.mp h
      obtain ⟨vs, hvs, hall⟩ := exact_termsWith hattribute hes hts
      obtain ⟨u, hu, hagrees⟩ := agrees_call hcall hall h hbool
      refine ⟨u, ?_, hagrees⟩
      rw [evaluateWith, hvs, ok_bind, evaluateCall, if_neg (by simp)]
      rw [List.filterMap_map, show (id ∘ some : Value → Option Value) = some from rfl,
        List.filterMap_some, hu]
      rfl

theorem exact_termsWith
    (hattribute : ∀ {id field : String} {s : IrSort} {t : Smt.Term},
      (∀ event, context.events.get? id = some event → event.AttributeSorted field s) →
      attributeTerm id field s = .ok t →
      ∃ v, attributeOf id field = .ok (some v) ∧ codec.Agrees I s v t) :
    ∀ {es : List Expr} {ts : List Smt.Term}, (∀ e ∈ es, codec.Covers context I e) →
    codec.termsWith context.interpreter attributeTerm es = .ok ts →
    ∃ vs : List Value,
      evaluateAll context.interpreter context.assignment attributeOf es = .ok (vs.map some) ∧
      codec.AgreesAll I (es.map Expr.sort) vs ts
  | [], ts, _, h => by
      rw [termsWith] at h
      cases h
      exact ⟨[], rfl, .nil⟩
  | e :: es, ts, hcovers, h => by
      obtain ⟨he, hes⟩ := List.forall_mem_cons.mp hcovers
      rw [termsWith] at h
      obtain ⟨t, ht, h⟩ := bind_eq_ok.mp h
      obtain ⟨ts', hts, h⟩ := bind_eq_ok.mp h
      cases h
      obtain ⟨v, hv, hagrees⟩ := exact_termWith hattribute he ht
      obtain ⟨vs, hvs, hall⟩ := exact_termsWith hattribute hes hts
      refine ⟨v :: vs, ?_, .cons hagrees hall⟩
      rw [evaluateAll, hv, ok_bind, hvs, ok_bind]
      rfl

end

end Trees

/-- An attribute whose term is known has a value, and the term has its code. -/
theorem exact_attributeTermAt (hattributes : codec.CoversAttributes context I) {depth : Nat}
    {id field : String} {s : IrSort} {t : Smt.Term}
    (hsorted : ∀ event, context.events.get? id = some event → event.AttributeSorted field s)
    (h : codec.attributeTermAt context.interpreter context.events depth id field s = .ok t) :
    ∃ v, context.eventAttributeAt depth id field = .ok (some v) ∧ codec.Agrees I s v t := by
  induction depth generalizing id field s t with
  | zero => cases h
  | succ depth ih =>
      rw [attributeTermAt] at h
      rw [EvaluationContext.eventAttributeAt]
      cases hget : context.events.get? id with
      | none =>
          rw [hget] at h
          cases h
      | some event =>
          have hone := hsorted event hget
          unfold EventInstance.AttributeSorted at hone
          simp only [hget] at h ⊢
          cases hattribute : event.attribute? field with
          | none =>
              rw [hattribute] at h
              cases h
          | some term =>
              rw [hattribute] at hone h
              cases term with
              | value v =>
                  cases v with
                  | none => cases h
                  | bool _ | int _ | float _ _ | str _ =>
                      refine ⟨_, rfl, agrees_literal ?_ h⟩
                      refine hone.resolve_left fun heq => ?_
                      cases heq
              | expr e =>
                  simp only at hone h ⊢
                  subst hone
                  exact exact_termWith ih (hattributes id event field e hget hattribute) h

/-- An expression in the fragment that has a term has a value, and the term has its code. -/
theorem exact_term (hattributes : codec.CoversAttributes context I) {e : Expr} {t : Smt.Term}
    (hcovers : codec.Covers context I e)
    (h : codec.term context.interpreter context.events e = .ok t) :
    ∃ v, context.evaluate e = .ok (some v) ∧ codec.Agrees I e.sort v t :=
  exact_termWith (exact_attributeTermAt hattributes) hcovers h

/-- The term of a truth value is a formula, and it holds when the expression does. -/
theorem holds_term_iff (hattributes : codec.CoversAttributes context I) {e : Expr} {t : Smt.Term}
    (hcovers : codec.Covers context I e) (hs : e.sort.isBool = true)
    (h : codec.term context.interpreter context.events e = .ok t) :
    t.IsFormula I ∧ (t.Holds I ↔ context.Holds e) := by
  obtain ⟨v, hv, hagrees⟩ := exact_term hattributes hcovers h
  obtain ⟨b, rfl, ht⟩ := (agrees_bool_iff hs).mp hagrees
  refine ⟨⟨b, ht⟩, ?_⟩
  rw [Smt.Term.Holds, ht, EvaluationContext.Holds, hv]
  simp

end Codec

end Umcm
