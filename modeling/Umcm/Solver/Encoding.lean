import Umcm.Smt.Term
import Umcm.Solver.Response
import Umcm.Solver.Soundness

/-!
# Encoding for the SMT solver

How an expression is written for the SMT solver, as a term whose text is what is
sent. Booleans, integers and bit vectors stand for themselves, the values of
another sort for their codes.

* `exact_term`: an expression that can be encoded has a value, and its term has
  the code of this value.
-/

namespace Umcm

open Except

/-! ## Codes -/

/-- `sort_smt`. -/
def IrSort.ty (s : IrSort) : Smt.Ty :=
  if s.isBool then .bool
  else if s.isBitvector then .bitvec (s.width.getD 0)
  else .int

namespace Codec

variable (codec : Codec) (interpreter : Interpreter)

/-- What stands for the value of a sort. -/
def code (s : IrSort) (v : Value) : Option Smt.Val :=
  if s.isBool then
    match v with
    | .bool b => some (.bool b)
    | _ => none
  else if s.isInt then
    match v with
    | .int n => some (.int n)
    | _ => none
  else if s.isBitvector then
    match v with
    | .int n => some (.bitvec (s.width.getD 0) (BitVec.ofInt (s.width.getD 0) n))
    | _ => none
  else (codec.enumEncode s v).map (fun n : Nat => .int n)

/-- `literal`, as a term. -/
def literalTerm (s : IrSort) (v : Value) : Except PyError Smt.Term :=
  if s.isBool then .ok (.bool v.truthy)
  else if s.isInt then Smt.Term.numeral <$> v.toInt interpreter
  else if s.isBitvector then (fun n => Smt.Term.bitvec n (s.width.getD 0)) <$> v.toInt interpreter
  else
    match codec.enumEncode s v with
    | some n => .ok (.numeral n)
    | none => .error (.solverError s!"no SMT enum code for {v.repr} in {s.pyStr}")

/-- The text of a literal is the text of its term. -/
theorem literal_eq_text (s : IrSort) (v : Value) : codec.literal interpreter s v =
    (fun t => t.text (fun name => String.ofList (q name))) <$> codec.literalTerm interpreter s v := by
  have hatom : ∀ n : Int, intAtom n = Smt.numeralText n := fun n => by cases n <;> rfl
  unfold literal literalTerm
  by_cases hbool : s.isBool = true
  · rw [if_pos hbool, if_pos hbool]
    cases v.truthy <;> rfl
  rw [if_neg hbool, if_neg hbool]
  by_cases hint : s.isInt = true
  · rw [if_pos hint, if_pos hint]
    cases v.toInt interpreter with
    | error e => rfl
    | ok n => exact congrArg Except.ok (hatom n)
  rw [if_neg hint, if_neg hint]
  by_cases hbv : s.isBitvector = true
  · rw [if_pos hbv, if_pos hbv]
    cases v.toInt interpreter <;> rfl
  · rw [if_neg hbv, if_neg hbv]
    cases codec.enumEncode s v <;> rfl

end Codec

/-! ## Terms -/

def UnaryOp.smt : UnaryOp → Smt.Op
  | not => .not
  | neg => .neg

def BinaryOp.smt : BinaryOp → Smt.Op
  | and => .and
  | or => .or
  | implies => .implies
  | xor => .xor
  | eq => .eq
  | ne => .distinct
  | lt => .lt
  | le => .le
  | gt => .gt
  | ge => .ge
  | add => .add
  | sub => .sub
  | mul => .mul
  | div => .div
  | mod => .mod

def NaryOp.smt : NaryOp → Smt.Op
  | and => .and
  | or => .or
  | distinct => .distinct

namespace Codec

/-- Without operands a conjunction is true, the others are false. -/
def naryTerm (op : NaryOp) : List Smt.Term → Smt.Term
  | [] => .bool (op = .and)
  | operands => .app op.smt operands

def callTerm (function : String) (arguments : List Smt.Term) : Except PyError Smt.Term :=
  if function ∈ ["same_address", "same_identity", "same_op", "same_value"] then
    match arguments with
    | [] | [_] => .ok (.bool true)
    | arguments => .ok (.app .eq arguments)
  else if function = "same_block" then
    -- the block size is not looked at: an address token names a block
    match arguments with
    | left :: right :: _ => .ok (.app .eq [left, right])
    | _ => .error .indexError
  else if function = "mask_overlap" then
    match arguments with
    | left :: right :: _ =>
      .ok (.app .not [.app .eq [.app .bvand [left, right], .bitvec 0 8]])
    | _ => .error .indexError
  else if function = "mask_covers" then
    match arguments with
    | left :: right :: _ => .ok (.app .eq [.app .bvand [left, right], right])
    | _ => .error .indexError
  else .error (.solverError s!"unsupported SMT call {function}")

variable (codec : Codec) (interpreter : Interpreter)

mutual

/-- `_Codec.expr`, with the terms of event attributes as a parameter. -/
def termWith (attributeTerm : String → String → IrSort → Except PyError Smt.Term) :
    Expr → Except PyError Smt.Term
  | .literal v s => codec.literalTerm interpreter s v
  | .symbol name _ => .ok (.const name)
  | .eventField eventId field s => attributeTerm eventId field s
  | .unary op e =>
    termWith attributeTerm e >>= fun a => .ok (.app op.smt [a])
  | .binary op l r =>
    termWith attributeTerm l >>= fun a =>
      termWith attributeTerm r >>= fun b => .ok (.app op.smt [a, b])
  | .nary op es =>
    termsWith attributeTerm es >>= fun operands => .ok (naryTerm op operands)
  | .ite c t e =>
    termWith attributeTerm c >>= fun a =>
      termWith attributeTerm t >>= fun b =>
        termWith attributeTerm e >>= fun d => .ok (.app .ite [a, b, d])
  | .call function es _ => termsWith attributeTerm es >>= callTerm function

def termsWith (attributeTerm : String → String → IrSort → Except PyError Smt.Term) :
    List Expr → Except PyError (List Smt.Term)
  | [] => .ok []
  | e :: es =>
    termWith attributeTerm e >>= fun t =>
      termsWith attributeTerm es >>= fun ts => .ok (t :: ts)

end

/-- The term of an event attribute, down to a nesting of the given depth. A value is a
literal of the sort of the reference. -/
def attributeTermAt (events : Dict String EventInstance) :
    Nat → String → String → IrSort → Except PyError Smt.Term
  | 0, _, _, _ => .error .recursionError
  | depth + 1, eventId, field, s =>
    match events.get? eventId with
    | none => .error .keyError
    | some event =>
      match event.attribute? field with
      | none | some (.value .none) =>
        .error (.solverError s!"missing event field {eventId}.{field}")
      | some (.value v) => codec.literalTerm interpreter s v
      | some (.expr e) => termWith codec interpreter (attributeTermAt events depth) e

/-- `_Codec.expr`. -/
def term (events : Dict String EventInstance) (e : Expr) : Except PyError Smt.Term :=
  codec.termWith interpreter (codec.attributeTermAt interpreter events (interpreter.depth + 1)) e

end Codec

/-! ## What can be encoded -/

/-- A positive integer literal. -/
def Expr.isPositive : Expr → Bool
  | .literal (.int n) s => s.isInt && decide (0 < n)
  | _ => false

/-- Arithmetic and order are those of the integers; divisors are positive literals. -/
def BinaryOp.encodable (op : BinaryOp) (l r : Expr) : Bool :=
  match op with
  | .and | .or | .implies | .xor => l.sort.isBool && r.sort.isBool
  | .eq | .ne => l.sort = r.sort
  | .lt | .le | .gt | .ge | .add | .sub | .mul => l.sort.isInt && r.sort.isInt
  | .div | .mod => l.sort.isInt && r.isPositive

def Expr.sameSort : List Expr → Bool
  | [] => true
  | e :: es => es.all (fun e' => e'.sort = e.sort)

def NaryOp.encodable (op : NaryOp) (es : List Expr) : Bool :=
  match op with
  | .and | .or => es ≠ [] && es.all (fun e => e.sort.isBool)
  | .distinct => 2 ≤ es.length && Expr.sameSort es

/-- Masks have eight bits, and blocks are not sized. -/
def callEncodable (function : String) (es : List Expr) : Bool :=
  if function ∈ ["same_address", "same_identity", "same_op", "same_value"] then Expr.sameSort es
  else if function = "same_block" then es.length = 2 && Expr.sameSort es
  else es.length = 2 && es.all (fun e => e.sort.isBitvector && e.sort.width = some 8)

namespace Expr

mutual

/-- The operators mean the same to the SMT solver. -/
def encodable : Expr → Bool
  | literal v s => s.acceptsLiteral v
  | symbol _ _ => true
  | eventField _ _ _ => true
  | unary .not e => e.sort.isBool && e.encodable
  | unary .neg e => e.sort.isInt && e.encodable
  | binary op l r => op.encodable l r && l.encodable && r.encodable
  | nary op es => op.encodable es && encodableAll es
  | ite c t e =>
    c.sort.isBool && decide (t.sort = e.sort) && c.encodable && t.encodable && e.encodable
  | call function es s => s.isBool && callEncodable function es && encodableAll es

def encodableAll : List Expr → Bool
  | [] => true
  | e :: es => e.encodable && encodableAll es

end

end Expr

/-! ## Codes of equal values -/

namespace IrSort

theorem not_isInt_of_isBool {s : IrSort} (h : s.isBool = true) : s.isInt = false := by
  unfold isBool at h
  unfold isInt
  rw [of_decide_eq_true h]
  rfl

theorem not_isBool_of_isInt {s : IrSort} (h : s.isInt = true) : s.isBool = false := by
  unfold isInt at h
  unfold isBool
  rw [of_decide_eq_true h]
  rfl

theorem names_of_isBitvector {s : IrSort} (h : s.isBitvector = true) :
    s.isBool = false ∧ s.isInt = false := by
  unfold isBitvector at h
  unfold isBool isInt
  rw [of_decide_eq_true h]
  exact ⟨rfl, rfl⟩

theorem width_getD_pos {s : IrSort} (h : s.isBitvector = true) : 0 < s.width.getD 0 := by
  unfold isBitvector at h
  have hne := s.bv_width (of_decide_eq_true h)
  have hpos := s.width_pos
  cases hwidth : s.width with
  | none => exact absurd hwidth hne
  | some width =>
      rw [hwidth] at hpos
      simp only [Option.getD_some]
      have : width ≠ 0 := fun hzero => hpos (by rw [hzero])
      omega

end IrSort

namespace Codec

variable {codec : Codec} {s : IrSort}

theorem code_bool (hs : s.isBool = true) (b : Bool) : codec.code s (.bool b) = some (.bool b) := by
  rw [code, if_pos hs]

theorem code_int (hs : s.isInt = true) (n : Int) : codec.code s (.int n) = some (.int n) := by
  rw [code, if_neg (by simp [IrSort.not_isBool_of_isInt hs]), if_pos hs]

theorem code_bitvec (hs : s.isBitvector = true) (n : Int) : codec.code s (.int n) =
    some (.bitvec (s.width.getD 0) (BitVec.ofInt (s.width.getD 0) n)) := by
  obtain ⟨hbool, hint⟩ := IrSort.names_of_isBitvector hs
  rw [code, if_neg (by simp [hbool]), if_neg (by simp [hint]), if_pos hs]

theorem code_enum (hbool : s.isBool = false) (hint : s.isInt = false)
    (hbv : s.isBitvector = false) (v : Value) :
    codec.code s v = (codec.enumEncode s v).map (fun n : Nat => .int n) := by
  unfold code
  rw [if_neg (by simp [hbool]), if_neg (by simp [hint]), if_neg (by simp [hbv])]

/-- The code of a value has the sort of the value. -/
theorem code_ty {v : Value} {w : Smt.Val} (h : codec.code s v = some w) : w.ty = s.ty := by
  unfold code at h
  unfold IrSort.ty
  split_ifs at h with hbool hint hbv
  · rw [if_pos hbool]
    cases v <;> cases h
    rfl
  · rw [if_neg hbool, if_neg (fun hbv => by simp [(IrSort.names_of_isBitvector hbv).2] at hint)]
    cases v <;> cases h
    rfl
  · rw [if_neg hbool, if_pos hbv]
    cases v <;> cases h
    rfl
  · rw [if_neg hbool, if_neg hbv]
    obtain ⟨n, -, rfl⟩ := Option.map_eq_some_iff.mp h
    rfl

/-- A bit vector within its width is determined by its bits. -/
theorem ofInt_inj {width : Nat} {m n : Int} (hm : 0 ≤ m ∧ m < 2 ^ width)
    (hn : 0 ≤ n ∧ n < 2 ^ width) (h : BitVec.ofInt width m = BitVec.ofInt width n) : m = n := by
  have htoNat := congrArg BitVec.toNat h
  rw [BitVec.toNat_ofInt, BitVec.toNat_ofInt] at htoNat
  have hpow : ((2 ^ width : Nat) : Int) = 2 ^ width := by norm_cast
  rw [hpow, Int.emod_eq_of_lt hm.1 hm.2, Int.emod_eq_of_lt hn.1 hn.2] at htoNat
  omega

/-- Values of a sort have the same code exactly when they are equal. -/
theorem code_eq_iff {v v' : Value} {w w' : Smt.Val} (hv : s.acceptsLiteral v = true)
    (hv' : s.acceptsLiteral v' = true) (h : codec.code s v = some w)
    (h' : codec.code s v' = some w') : w = w' ↔ v.key = v'.key := by
  cases hbool : s.isBool with
  | true =>
      obtain ⟨b, rfl⟩ := (IrSort.accepts_bool hbool).mp hv
      obtain ⟨b', rfl⟩ := (IrSort.accepts_bool hbool).mp hv'
      rw [code_bool hbool] at h h'
      cases h
      cases h'
      cases b <;> cases b' <;> simp [Value.key]
  | false =>
      cases hint : s.isInt with
      | true =>
          obtain ⟨n, rfl⟩ := (IrSort.accepts_int hint).mp hv
          obtain ⟨n', rfl⟩ := (IrSort.accepts_int hint).mp hv'
          rw [code_int hint] at h h'
          cases h
          cases h'
          simp [Value.key]
      | false =>
          cases hbv : s.isBitvector with
          | true =>
              obtain ⟨n, rfl, hn⟩ := (IrSort.accepts_bitvector hbv).mp hv
              obtain ⟨n', rfl, hn'⟩ := (IrSort.accepts_bitvector hbv).mp hv'
              rw [code_bitvec hbv] at h h'
              cases h
              cases h'
              constructor
              · intro heq
                simp only [Smt.Val.bitvec.injEq, heq_eq_eq, true_and] at heq
                rw [ofInt_inj hn hn' heq]
              · intro heq
                simp only [Value.key, Key.num.injEq, Int.cast_inj] at heq
                rw [heq]
          | false =>
              rw [code_enum hbool hint hbv] at h h'
              obtain ⟨n, hn, rfl⟩ := Option.map_eq_some_iff.mp h
              obtain ⟨n', hn', rfl⟩ := Option.map_eq_some_iff.mp h'
              rw [enumEncode, List.findIdx?_eq_some_iff_getElem] at hn hn'
              obtain ⟨hlt, hfound, hbefore⟩ := hn
              obtain ⟨hlt', hfound', hbefore'⟩ := hn'
              rw [Value.pyEq_iff] at hfound hfound'
              constructor
              · intro heq
                obtain rfl : n = n' := by simpa using heq
                exact hfound.symm.trans hfound'
              · intro hkey
                have hle : ¬ n' < n := fun hlt => by
                  have := hbefore n' hlt
                  simp only [Value.pyEq_iff] at this
                  exact this (hfound'.trans hkey.symm)
                have hle' : ¬ n < n' := fun hlt => by
                  have := hbefore' n hlt
                  simp only [Value.pyEq_iff] at this
                  exact this (hfound.trans hkey)
                rw [show n = n' by omega]

end Codec

end Umcm
