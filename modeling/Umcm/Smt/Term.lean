import Mathlib

/-!
# SMT terms and scripts

Terms of SMT-LIB over booleans, integers and bit vectors, with their text and
their values. A term that is not well sorted has no value. Division and
remainder by zero are what an interpretation says. The models of a script are
the interpretations of what it declares that satisfy what it asserts.

* `Holds.and`, `Holds.or`, `Holds.implies`, `Holds.eq`: when a term holds, by its
  operator.
-/

namespace Smt

inductive Ty where
  | bool
  | int
  | bitvec (width : Nat)
deriving DecidableEq, Repr

inductive Val where
  | bool (b : Bool)
  | int (n : Int)
  | bitvec (width : Nat) (bits : BitVec width)
deriving DecidableEq, Repr

namespace Val

def ty : Val → Ty
  | bool _ => .bool
  | int _ => .int
  | bitvec width _ => .bitvec width

def bool? : Val → Option Bool
  | bool b => some b
  | _ => none

def int? : Val → Option Int
  | int n => some n
  | _ => none

theorem bool?_eq_some {v : Val} {b : Bool} : v.bool? = some b ↔ v = .bool b := by
  cases v <;> simp [bool?]

end Val

inductive Op where
  | not
  | and
  | or
  | implies
  | xor
  | eq
  | distinct
  | ite
  | lt
  | le
  | gt
  | ge
  | neg
  | add
  | sub
  | mul
  | div
  | mod
  | bvand
deriving DecidableEq, Repr

def Op.symbol : Op → String
  | not => "not"
  | and => "and"
  | or => "or"
  | implies => "=>"
  | xor => "xor"
  | eq => "="
  | distinct => "distinct"
  | ite => "ite"
  | lt => "<"
  | le => "<="
  | gt => ">"
  | ge => ">="
  | neg => "-"
  | add => "+"
  | sub => "-"
  | mul => "*"
  | div => "div"
  | mod => "mod"
  | bvand => "bvand"

/-- A numeral may be negative and a bit vector out of range, as the text can be. -/
inductive Term where
  | const (name : String)
  | bool (b : Bool)
  | numeral (n : Int)
  | bitvec (n : Int) (width : Nat)
  | app (op : Op) (arguments : List Term)

/-! ## Text -/

def Ty.text : Ty → String
  | bool => "Bool"
  | int => "Int"
  | bitvec width => "(_ BitVec " ++ toString width ++ ")"

def numeralText : Int → String
  | .ofNat n => toString n
  | .negSucc n => "(- " ++ toString (n + 1) ++ ")"

/-- The ways in which a value is written. -/
inductive Val.Prints : Val → List Char → Prop where
  | bool (b : Bool) : Prints (.bool b) (if b then "true" else "false").toList
  | int (n : Int) : Prints (.int n) (numeralText n).toList
  | hex {width k : Nat} (bits : BitVec width) (hk : width = 4 * k) :
      Prints (.bitvec width bits) ('#' :: 'x' :: (Nat.toDigits 16 bits.toNat).leftpad k '0')
  | binary {width : Nat} (bits : BitVec width) :
      Prints (.bitvec width bits) ('#' :: 'b' :: (Nat.toDigits 2 bits.toNat).leftpad width '0')
  | indexed {width : Nat} (bits : BitVec width) : Prints (.bitvec width bits)
      ("(_ bv" ++ toString bits.toNat ++ " " ++ toString width ++ ")").toList

section Text

variable (quote : String → String)

mutual

def Term.text : Term → String
  | .const name => quote name
  | .bool b => if b then "true" else "false"
  | .numeral n => numeralText n
  | .bitvec n width => "(_ bv" ++ toString n ++ " " ++ toString width ++ ")"
  | .app op arguments => "(" ++ " ".intercalate (op.symbol :: Term.texts arguments) ++ ")"

def Term.texts : List Term → List String
  | [] => []
  | t :: rest => t.text :: Term.texts rest

end

end Text

/-! ## Values -/

/-- The constants, and the results of operations that SMT-LIB leaves open. -/
structure Interpretation where
  constant : String → Option Val
  divZero : Int → Int
  modZero : Int → Int

/-- The value of an application; integer division rounds so that the remainder is not
negative. -/
def Op.apply (I : Interpretation) : Op → List Val → Option Val
  | .not, [.bool b] => some (.bool (!b))
  | .and, v :: vs => ((v :: vs).mapM Val.bool?).map (fun bs => .bool (bs.all id))
  | .or, v :: vs => ((v :: vs).mapM Val.bool?).map (fun bs => .bool (bs.any id))
  | .implies, [.bool a, .bool b] => some (.bool (!a || b))
  | .xor, [.bool a, .bool b] => some (.bool (a ^^ b))
  | .eq, v :: w :: vs =>
    if ∀ u ∈ w :: vs, u.ty = v.ty then some (.bool (decide (∀ u ∈ w :: vs, u = v))) else none
  | .distinct, v :: w :: vs =>
    if ∀ u ∈ w :: vs, u.ty = v.ty then some (.bool (decide (v :: w :: vs).Nodup)) else none
  | .ite, [.bool c, v, w] => if v.ty = w.ty then some (if c then v else w) else none
  | .lt, [.int m, .int n] => some (.bool (decide (m < n)))
  | .le, [.int m, .int n] => some (.bool (decide (m ≤ n)))
  | .gt, [.int m, .int n] => some (.bool (decide (n < m)))
  | .ge, [.int m, .int n] => some (.bool (decide (n ≤ m)))
  | .neg, [.int n] => some (.int (-n))
  | .add, v :: vs => ((v :: vs).mapM Val.int?).map (fun ns => .int ns.sum)
  | .sub, [.int m, .int n] => some (.int (m - n))
  | .mul, [.int m, .int n] => some (.int (m * n))
  | .div, [.int m, .int n] => some (.int (if n = 0 then I.divZero m else m / n))
  | .mod, [.int m, .int n] => some (.int (if n = 0 then I.modZero m else m % n))
  | .bvand, [.bitvec width x, .bitvec width' y] =>
    if h : width' = width then some (.bitvec width (x &&& y.cast h)) else none
  | _, _ => none

section Eval

variable (I : Interpretation)

mutual

def Term.eval : Term → Option Val
  | .const name => I.constant name
  | .bool b => some (.bool b)
  | .numeral n => some (.int n)
  | .bitvec n width =>
    if 0 < width ∧ 0 ≤ n ∧ n < 2 ^ width then some (.bitvec width (BitVec.ofInt width n)) else none
  | .app op arguments => (Term.evals arguments).bind (op.apply I)

def Term.evals : List Term → Option (List Val)
  | [] => some []
  | t :: rest => t.eval.bind (fun v => (Term.evals rest).map (fun vs => v :: vs))

end

/-- The term is a true formula. -/
def Term.Holds (t : Term) : Prop := t.eval I = some (.bool true)

/-- The term is a formula. -/
def Term.IsFormula (t : Term) : Prop := ∃ b, t.eval I = some (.bool b)

end Eval

namespace Term

variable {I : Interpretation}

theorem evals_eq_some {ts : List Term} {vs : List Val} :
    Term.evals I ts = some vs ↔ List.Forall₂ (fun t v => t.eval I = some v) ts vs := by
  induction ts generalizing vs with
  | nil => simp [Term.evals, eq_comm]
  | cons t rest ih =>
      rw [Term.evals, Option.bind_eq_some_iff]
      constructor
      · rintro ⟨v, hv, h⟩
        obtain ⟨vs', hvs, rfl⟩ := Option.map_eq_some_iff.mp h
        exact .cons hv (ih.mp hvs)
      · intro h
        rcases h with _ | ⟨hv, hvs⟩
        exact ⟨_, hv, Option.map_eq_some_iff.mpr ⟨_, ih.mpr hvs, rfl⟩⟩

theorem eval_app {op : Op} {ts : List Term} {vs : List Val}
    (h : List.Forall₂ (fun t v => t.eval I = some v) ts vs) :
    (Term.app op ts).eval I = op.apply I vs := by
  rw [Term.eval, evals_eq_some.mpr h]
  rfl

theorem eval_app_eq_some {op : Op} {ts : List Term} {v : Val} :
    (Term.app op ts).eval I = some v ↔
      ∃ vs, List.Forall₂ (fun t w => t.eval I = some w) ts vs ∧ op.apply I vs = some v := by
  rw [Term.eval, Option.bind_eq_some_iff]
  exact exists_congr (fun vs => and_congr_left (fun _ => evals_eq_some))

theorem eval_one {op : Op} {t : Term} {v : Val} (h : t.eval I = some v) :
    (Term.app op [t]).eval I = op.apply I [v] := eval_app (.cons h .nil)

theorem eval_two {op : Op} {t u : Term} {v w : Val} (ht : t.eval I = some v)
    (hu : u.eval I = some w) : (Term.app op [t, u]).eval I = op.apply I [v, w] :=
  eval_app (.cons ht (.cons hu .nil))

theorem Holds.isFormula {t : Term} (h : t.Holds I) : t.IsFormula I := ⟨true, h⟩

/-! ## Formulas -/

/-- The values of formulas are booleans. -/
theorem exists_bools {ts : List Term} (h : ∀ t ∈ ts, t.IsFormula I) :
    ∃ bs : List Bool, List.Forall₂ (fun t b => t.eval I = some (.bool b)) ts bs := by
  induction ts with
  | nil => exact ⟨[], .nil⟩
  | cons t rest ih =>
      obtain ⟨ht, hrest⟩ := List.forall_mem_cons.mp h
      obtain ⟨b, hb⟩ := ht
      obtain ⟨bs, hbs⟩ := ih hrest
      exact ⟨b :: bs, .cons hb hbs⟩

theorem mapM_bool? {vs : List Val} {bs : List Bool} :
    vs.mapM Val.bool? = some bs ↔ vs = bs.map Val.bool := by
  induction vs generalizing bs with
  | nil => simp [eq_comm]
  | cons v rest ih =>
      rw [List.mapM_cons]
      constructor
      · intro h
        obtain ⟨b, hb, h⟩ := Option.bind_eq_some_iff.mp h
        obtain ⟨bs', hbs, h⟩ := Option.bind_eq_some_iff.mp h
        cases h
        rw [Val.bool?_eq_some.mp hb, ih.mp hbs, List.map_cons]
      · intro h
        rcases bs with _ | ⟨b, bs⟩
        · cases h
        · rw [List.map_cons, List.cons.injEq] at h
          rw [h.1, ih.mpr h.2]
          rfl

theorem forall₂_bools {ts : List Term} {bs : List Bool} :
    List.Forall₂ (fun t v => t.eval I = some v) ts (bs.map Val.bool) ↔
      List.Forall₂ (fun t b => t.eval I = some (.bool b)) ts bs := List.forall₂_map_right_iff

theorem formula_of_forall₂ {ts : List Term} {bs : List Bool}
    (h : List.Forall₂ (fun t b => t.eval I = some (.bool b)) ts bs) :
    ∀ t ∈ ts, t.IsFormula I := by
  induction h with
  | nil => simp
  | cons hb _ ih => exact List.forall_mem_cons.mpr ⟨⟨_, hb⟩, ih⟩

theorem apply_and {v : Val} {vs : List Val} {w : Val} :
    Op.and.apply I (v :: vs) = some w ↔
      ∃ bs : List Bool, v :: vs = bs.map Val.bool ∧ w = .bool (bs.all id) := by
  rw [Op.apply, Option.map_eq_some_iff]
  exact exists_congr (fun bs => and_congr mapM_bool? eq_comm)

theorem apply_or {v : Val} {vs : List Val} {w : Val} :
    Op.or.apply I (v :: vs) = some w ↔
      ∃ bs : List Bool, v :: vs = bs.map Val.bool ∧ w = .bool (bs.any id) := by
  rw [Op.apply, Option.map_eq_some_iff]
  exact exists_congr (fun bs => and_congr mapM_bool? eq_comm)

theorem all_iff {ts : List Term} {bs : List Bool}
    (h : List.Forall₂ (fun t b => t.eval I = some (.bool b)) ts bs) :
    bs.all id = true ↔ ∀ t ∈ ts, t.Holds I := by
  induction h with
  | nil => simp
  | @cons t b ts bs hb _ ih =>
      rw [List.all_cons, Bool.and_eq_true, ih, List.forall_mem_cons, Term.Holds, hb]
      simp

theorem any_iff {ts : List Term} {bs : List Bool}
    (h : List.Forall₂ (fun t b => t.eval I = some (.bool b)) ts bs) :
    bs.any id = true ↔ ∃ t ∈ ts, t.Holds I := by
  induction h with
  | nil => simp
  | @cons t b ts bs hb _ ih =>
      rw [List.any_cons, Bool.or_eq_true, ih, List.exists_mem_cons_iff, Term.Holds, hb]
      simp

/-- A conjunction of formulas is a formula; it holds when all of them hold. -/
theorem eval_and {t : Term} {ts : List Term} (h : ∀ u ∈ t :: ts, u.IsFormula I) :
    ∃ b, (Term.app .and (t :: ts)).eval I = some (.bool b) ∧
      (b = true ↔ ∀ u ∈ t :: ts, u.Holds I) := by
  obtain ⟨bs, hbs⟩ := exists_bools h
  refine ⟨bs.all id, ?_, all_iff hbs⟩
  rw [eval_app (forall₂_bools.mpr hbs)]
  rcases bs with _ | ⟨b, bs⟩
  · cases hbs
  · exact apply_and.mpr ⟨b :: bs, rfl, rfl⟩

theorem eval_or {t : Term} {ts : List Term} (h : ∀ u ∈ t :: ts, u.IsFormula I) :
    ∃ b, (Term.app .or (t :: ts)).eval I = some (.bool b) ∧
      (b = true ↔ ∃ u ∈ t :: ts, u.Holds I) := by
  obtain ⟨bs, hbs⟩ := exists_bools h
  refine ⟨bs.any id, ?_, any_iff hbs⟩
  rw [eval_app (forall₂_bools.mpr hbs)]
  rcases bs with _ | ⟨b, bs⟩
  · cases hbs
  · exact apply_or.mpr ⟨b :: bs, rfl, rfl⟩

theorem Holds.and {ts : List Term} :
    (Term.app .and ts).Holds I ↔ ts ≠ [] ∧ ∀ t ∈ ts, t.Holds I := by
  constructor
  · intro h
    obtain ⟨vs, hvs, happly⟩ := eval_app_eq_some.mp h
    rcases hvs with _ | ⟨hv, hvs⟩
    · cases happly
    · obtain ⟨bs, hbs, hall⟩ := apply_and.mp happly
      refine ⟨List.cons_ne_nil _ _, (@all_iff I _ bs ?_).mp (Val.bool.inj hall).symm⟩
      rw [← forall₂_bools, ← hbs]
      exact .cons hv hvs
  · rintro ⟨hne, h⟩
    rcases ts with _ | ⟨t, ts⟩
    · exact absurd rfl hne
    · obtain ⟨b, hb, hiff⟩ := eval_and (fun u hu => (h u hu).isFormula)
      rw [Holds, hb, hiff.mpr h]

theorem Holds.or {ts : List Term} : (Term.app .or ts).Holds I ↔
    (∀ t ∈ ts, t.IsFormula I) ∧ ∃ t ∈ ts, t.Holds I := by
  constructor
  · intro h
    obtain ⟨vs, hvs, happly⟩ := eval_app_eq_some.mp h
    rcases hvs with _ | ⟨hv, hvs⟩
    · cases happly
    · obtain ⟨bs, hbs, hany⟩ := apply_or.mp happly
      have hvalues := List.Forall₂.cons (R := fun (t : Term) (v : Val) => t.eval I = some v) hv hvs
      rw [hbs] at hvalues
      have hbools := forall₂_bools.mp hvalues
      exact ⟨formula_of_forall₂ hbools, (any_iff hbools).mp (Val.bool.inj hany).symm⟩
  · rintro ⟨hformula, t, ht, h⟩
    rcases ts with _ | ⟨u, ts⟩
    · cases ht
    · obtain ⟨b, hb, hiff⟩ := eval_or hformula
      rw [Holds, hb, hiff.mpr ⟨t, ht, h⟩]

theorem eval_implies {t u : Term} {a b : Bool} (ht : t.eval I = some (.bool a))
    (hu : u.eval I = some (.bool b)) :
    (Term.app .implies [t, u]).eval I = some (.bool (!a || b)) := eval_two ht hu

theorem Holds.implies {t u : Term} (ht : t.IsFormula I) (hu : u.IsFormula I) :
    (Term.app .implies [t, u]).Holds I ↔ (t.Holds I → u.Holds I) := by
  obtain ⟨a, ha⟩ := ht
  obtain ⟨b, hb⟩ := hu
  rw [Holds, eval_implies ha hb, Holds, Holds, ha, hb]
  cases a <;> cases b <;> simp

theorem eval_not {t : Term} {a : Bool} (ht : t.eval I = some (.bool a)) :
    (Term.app .not [t]).eval I = some (.bool (!a)) := eval_one ht

theorem Holds.not {t : Term} (ht : t.IsFormula I) :
    (Term.app .not [t]).Holds I ↔ ¬ t.Holds I := by
  obtain ⟨a, ha⟩ := ht
  rw [Holds, eval_not ha, Holds, ha]
  cases a <;> simp

/-- A sum of integers. -/
theorem eval_add {t : Term} {ts : List Term} {ns : List Int}
    (h : List.Forall₂ (fun t n => t.eval I = some (.int n)) (t :: ts) ns) :
    (Term.app .add (t :: ts)).eval I = some (.int ns.sum) := by
  have hints : ∀ ns : List Int, (ns.map Val.int).mapM Val.int? = some ns := by
    intro ns
    induction ns with
    | nil => rfl
    | cons n ns ih =>
        rw [List.map_cons, List.mapM_cons, ih]
        rfl
  have hvalues : List.Forall₂ (fun t v => t.eval I = some v) (t :: ts) (ns.map Val.int) :=
    List.forall₂_map_right_iff.mpr h
  rw [eval_app hvalues]
  rcases ns with _ | ⟨n, ns⟩
  · cases h
  · rw [List.map_cons, Op.apply, ← List.map_cons, hints]
    rfl

theorem eval_eq {t u : Term} {v w : Val} (ht : t.eval I = some v) (hu : u.eval I = some w)
    (hty : w.ty = v.ty) : (Term.app .eq [t, u]).eval I = some (.bool (decide (w = v))) := by
  rw [eval_two ht hu, Op.apply]
  simp [hty]

theorem Holds.eq {t u : Term} {v w : Val} (ht : t.eval I = some v) (hu : u.eval I = some w)
    (hty : w.ty = v.ty) : (Term.app .eq [t, u]).Holds I ↔ w = v := by
  rw [Holds, eval_eq ht hu hty]
  simp

end Term

/-! ## Scripts -/

inductive Command where
  | declare (name : String) (ty : Ty)
  | assert (t : Term)
  | minimize (t : Term)

def Command.text (quote : String → String) : Command → String
  | declare name ty => "(declare-const " ++ quote name ++ " " ++ ty.text ++ ")"
  | assert t => "(assert " ++ t.text quote ++ ")"
  | minimize t => "(minimize " ++ t.text quote ++ ")"

abbrev Script := List Command

def Script.text (quote : String → String) (script : Script) : String :=
  "\n".intercalate (script.map (Command.text quote))

namespace Script

/-- The assertions hold. -/
def Holds (script : Script) (I : Interpretation) : Prop := ∀ t, .assert t ∈ script → t.Holds I

/-- The declared constants have values of their sorts and no others do, and the assertions
hold. -/
structure IsModel (script : Script) (I : Interpretation) : Prop where
  declared : ∀ name ty, .declare name ty ∈ script → ∃ v, I.constant name = some v ∧ v.ty = ty
  undeclared : ∀ name, (∀ ty, .declare name ty ∉ script) → I.constant name = none
  asserted : script.Holds I

/-- A model in which no objective is larger than in any other model. -/
structure IsOptimal (script : Script) (I : Interpretation) : Prop extends script.IsModel I where
  minimal : ∀ t, .minimize t ∈ script → ∀ J, script.IsModel J → ∀ m n,
    t.eval I = some (.int m) → t.eval J = some (.int n) → m ≤ n

variable {I : Interpretation}

theorem holds_nil : Holds [] I := fun _ h => nomatch h

theorem holds_append {s s' : Script} : Holds (s ++ s') I ↔ s.Holds I ∧ s'.Holds I := by
  unfold Holds
  constructor
  · intro h
    exact ⟨fun t ht => h t (List.mem_append_left _ ht),
      fun t ht => h t (List.mem_append_right _ ht)⟩
  · rintro ⟨h, h'⟩ t ht
    rcases List.mem_append.mp ht with ht | ht
    · exact h t ht
    · exact h' t ht

theorem holds_flatten {ss : List Script} : Holds ss.flatten I ↔ ∀ s ∈ ss, s.Holds I := by
  unfold Holds
  constructor
  · intro h s hs t ht
    exact h t (List.mem_flatten.mpr ⟨s, hs, ht⟩)
  · intro h t ht
    obtain ⟨s, hs, ht⟩ := List.mem_flatten.mp ht
    exact h s hs t ht

theorem holds_assert {t : Term} : Holds [.assert t] I ↔ t.Holds I := by
  simp [Holds]

/-- Objectives have no influence on the models. -/
theorem isModel_append_objectives {s objectives : Script}
    (h : ∀ command ∈ objectives, ∃ t, command = .minimize t) :
    (s ++ objectives).IsModel I ↔ s.IsModel I := by
  have hmem : ∀ command, (∀ t, command ≠ .minimize t) →
      (command ∈ s ++ objectives ↔ command ∈ s) := by
    intro command hcommand
    rw [List.mem_append]
    refine or_iff_left (fun hmem => ?_)
    obtain ⟨t, rfl⟩ := h _ hmem
    exact hcommand t rfl
  have hdeclare : ∀ name ty, .declare name ty ∈ s ++ objectives ↔ .declare name ty ∈ s :=
    fun name ty => hmem _ (fun _ h => nomatch h)
  have hassert : ∀ t, .assert t ∈ s ++ objectives ↔ .assert t ∈ s :=
    fun t => hmem _ (fun _ h => nomatch h)
  constructor
  · rintro ⟨hdeclared, hundeclared, hasserted⟩
    refine ⟨fun name ty hty => hdeclared name ty ((hdeclare name ty).mpr hty), ?_,
      fun t ht => hasserted t ((hassert t).mpr ht)⟩
    intro name hname
    exact hundeclared name (fun ty hty => hname ty ((hdeclare name ty).mp hty))
  · rintro ⟨hdeclared, hundeclared, hasserted⟩
    refine ⟨fun name ty hty => hdeclared name ty ((hdeclare name ty).mp hty), ?_,
      fun t ht => hasserted t ((hassert t).mp ht)⟩
    intro name hname
    exact hundeclared name (fun ty hty => hname ty ((hdeclare name ty).mpr hty))

end Script

end Smt
