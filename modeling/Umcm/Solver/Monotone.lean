import Umcm.Solver.Truth

/-!
# Evaluation and further assignments

Assigning more symbols turns unknown results into values and keeps the values,
as long as no conditional merges its branches. An `ite` with an unknown
condition returns its first branch when the branches are equal in Python's
sense, which `1` and `1.0` are although they are different values.

* `evaluate_mono`: without `ite`, a result only becomes better known.
-/

namespace Umcm

open Except

/-- `r'` is `r`, or `r` is unknown. -/
def Result.Below (r r' : Result) : Prop := r = none ∨ r = r'

namespace Result.Below

theorem refl (r : Result) : r.Below r := Or.inr rfl

theorem some_iff {v : Value} {r : Result} : Result.Below (some v) r ↔ r = some v := by
  constructor
  · rintro (h | rfl)
    · cases h
    · rfl
  · rintro rfl
    exact refl _

theorem isTrue {r r' : Result} (h : r.Below r') (ht : r.isTrue = true) : r'.isTrue = true := by
  rcases h with rfl | rfl
  · simp [Result.isTrue] at ht
  · exact ht

theorem isFalse {r r' : Result} (h : r.Below r') (ht : r.isFalse = true) : r'.isFalse = true := by
  rcases h with rfl | rfl
  · simp [Result.isFalse] at ht
  · exact ht

end Result.Below

namespace Expr

mutual

/-- There is no conditional in the tree. -/
def iteFree : Expr → Bool
  | literal _ _ | symbol _ _ | eventField _ _ _ => true
  | unary _ e => e.iteFree
  | binary _ l r => l.iteFree && r.iteFree
  | nary _ es => iteFreeAll es
  | ite _ _ _ => false
  | call _ es _ => iteFreeAll es

def iteFreeAll : List Expr → Bool
  | [] => true
  | e :: es => e.iteFree && iteFreeAll es

end

end Expr

def Term.iteFree : Term → Bool
  | .value _ => true
  | .expr e => e.iteFree

/-! ## Operators -/

theorem Result.not_isFalse {r : Result} (h : r.isTrue = true) : r.isFalse = false := by
  rw [Result.isTrue, decide_eq_true_eq] at h
  rw [h]
  rfl

/-- A choice between two truth values whose tests are monotone and exclude each
other. -/
theorem below_choice {a a' b b' : Bool} {u w : Value} (ha : a = true → a' = true)
    (hb : b = true → b' = true) (hex : a' = true → b' = true → False) :
    Result.Below (if a = true then some u else if b = true then some w else none)
      (if a' = true then some u else if b' = true then some w else none) := by
  by_cases h : a = true
  · rw [if_pos h, if_pos (ha h)]
    exact Result.Below.refl _
  · rw [if_neg h]
    by_cases hb₁ : b = true
    · have hnot : ¬ a' = true := fun ha' => hex ha' (hb hb₁)
      rw [if_pos hb₁, if_neg hnot, if_pos (hb hb₁)]
      exact Result.Below.refl _
    · rw [if_neg hb₁]
      exact Or.inl rfl

/-- An operator that needs both operands. -/
theorem below_strict {f : Value → Value → Except PyError Result} {l l' r r' v v' : Result}
    (hl : l.Below l') (hr : r.Below r')
    (h : (match l, r with
      | some a, some b => f a b
      | _, _ => .ok none) = .ok v)
    (h' : (match l', r' with
      | some a, some b => f a b
      | _, _ => .ok none) = .ok v') : v.Below v' := by
  rcases hl with rfl | rfl
  · cases h
    exact Or.inl rfl
  · rcases hr with rfl | rfl
    · cases l <;> (cases h; exact Or.inl rfl)
    · rw [h] at h'
      cases h'
      exact Result.Below.refl v

theorem evaluateBinary_mono {interpreter : Interpreter} {op : BinaryOp} {l l' r r' v v' : Result}
    (hl : l.Below l') (hr : r.Below r') (h : evaluateBinary interpreter op l r = .ok v)
    (h' : evaluateBinary interpreter op l' r' = .ok v') : v.Below v' := by
  have hor : ∀ {a a' b b' : Bool}, (a = true → a' = true) → (b = true → b' = true) →
      (a || b) = true → (a' || b') = true := by
    intro a a' b b' ha hb hab
    rw [Bool.or_eq_true] at hab ⊢
    exact hab.imp ha hb
  have hand : ∀ {a a' b b' : Bool}, (a = true → a' = true) → (b = true → b' = true) →
      (a && b) = true → (a' && b') = true := by
    intro a a' b b' ha hb hab
    rw [Bool.and_eq_true] at hab ⊢
    exact hab.imp ha hb
  cases op with
  | and =>
      cases h
      cases h'
      refine below_choice (hor hl.isFalse hr.isFalse) (hand hl.isTrue hr.isTrue) ?_
      intro hf ht
      rw [Bool.and_eq_true] at ht
      simp [Result.not_isFalse ht.1, Result.not_isFalse ht.2] at hf
  | or =>
      cases h
      cases h'
      refine below_choice (hor hl.isTrue hr.isTrue) (hand hl.isFalse hr.isFalse) ?_
      intro ht hf
      rw [Bool.and_eq_true] at hf
      rcases (Bool.or_eq_true _ _).mp ht with ht | ht
      · simp [Result.not_isFalse ht] at hf
      · simp [Result.not_isFalse ht] at hf
  | implies =>
      cases h
      cases h'
      refine below_choice (hor hl.isFalse hr.isTrue) (hand hl.isTrue hr.isFalse) ?_
      intro hft htf
      rw [Bool.and_eq_true] at htf
      rcases (Bool.or_eq_true _ _).mp hft with hf | ht
      · simp [Result.not_isFalse htf.1] at hf
      · simp [Result.not_isFalse ht] at htf
  | _ => exact below_strict hl hr h h'

section Nary

variable {values values' : List Result}

theorem any_below {p : Result → Bool} (hp : ∀ {r r'}, r.Below r' → p r = true → p r' = true)
    (h : List.Forall₂ Result.Below values values') (hany : values.any p = true) :
    values'.any p = true := by
  induction h with
  | nil => exact hany
  | cons hr _ ih =>
      rw [List.any_cons, Bool.or_eq_true] at hany ⊢
      exact hany.imp (hp hr) ih

theorem all_below {p : Result → Bool} (hp : ∀ {r r'}, r.Below r' → p r = true → p r' = true)
    (h : List.Forall₂ Result.Below values values') (hall : values.all p = true) :
    values'.all p = true := by
  induction h with
  | nil => exact hall
  | cons hr _ ih =>
      rw [List.all_cons, Bool.and_eq_true] at hall ⊢
      exact hall.imp (hp hr) ih

@[simp] theorem filterMap_some {v : Value} {l : List Result} :
    (some v :: l).filterMap id = v :: l.filterMap id := rfl

@[simp] theorem filterMap_none {l : List Result} :
    (none :: l).filterMap id = l.filterMap id := rfl

theorem concrete_sublist (h : List.Forall₂ Result.Below values values') :
    (values.filterMap id).Sublist (values'.filterMap id) := by
  induction h with
  | nil => exact List.Sublist.refl _
  | @cons r r' _ _ hr _ ih =>
      rcases hr with rfl | rfl
      · rw [filterMap_none]
        cases r' with
        | none => rwa [filterMap_none]
        | some v =>
            rw [filterMap_some]
            exact ih.cons v
      · cases r with
        | none => rwa [filterMap_none, filterMap_none]
        | some v =>
            rw [filterMap_some, filterMap_some]
            exact ih.cons_cons v

/-- Without unknown results there is nothing left to learn. -/
theorem eq_of_concrete (h : List.Forall₂ Result.Below values values')
    (hlength : (values.filterMap id).length = values.length) : values' = values := by
  induction h with
  | nil => rfl
  | @cons r r' rest rest' hr hrest ih =>
      have hle : (rest.filterMap id).length ≤ rest.length := List.length_filterMap_le _ _
      cases r with
      | none =>
          rw [filterMap_none, List.length_cons] at hlength
          omega
      | some v =>
          rw [filterMap_some, List.length_cons, List.length_cons] at hlength
          rw [Result.Below.some_iff.mp hr, ih (by omega)]

theorem evaluateNary_mono {op : NaryOp} (h : List.Forall₂ Result.Below values values') :
    (evaluateNary op values).Below (evaluateNary op values') := by
  have htrue : ∀ {r r' : Result}, r.Below r' → r.isTrue = true → r'.isTrue = true :=
    fun hr => hr.isTrue
  have hfalse : ∀ {r r' : Result}, r.Below r' → r.isFalse = true → r'.isFalse = true :=
    fun hr => hr.isFalse
  cases op with
  | and =>
      refine below_choice (any_below hfalse h) (all_below htrue h) ?_
      intro hany hall
      obtain ⟨r, hr, hf⟩ := List.any_eq_true.mp hany
      simp [Result.not_isFalse (List.all_eq_true.mp hall r hr)] at hf
  | or =>
      refine below_choice (any_below htrue h) (all_below hfalse h) ?_
      intro hany hall
      obtain ⟨r, hr, ht⟩ := List.any_eq_true.mp hany
      have hf := List.all_eq_true.mp hall r hr
      simp [Result.not_isFalse ht] at hf
  | distinct =>
      by_cases hnodup : ((values.filterMap id).map Value.key).Nodup
      · by_cases hlength : (values.filterMap id).length = values.length
        · rw [eq_of_concrete h hlength]
          exact Result.Below.refl _
        · refine Or.inl ?_
          simp only [evaluateNary, not_not.mpr hnodup, if_false, hlength]
      · have hnodup' : ¬ ((values'.filterMap id).map Value.key).Nodup :=
          fun hnd => hnodup (hnd.sublist ((concrete_sublist h).map _))
        refine Or.inr ?_
        simp only [evaluateNary, if_pos hnodup, if_pos hnodup']

/-- Without unknown results there is nothing left to learn. -/
theorem eq_of_known (h : List.Forall₂ Result.Below values values') (hknown : none ∉ values) :
    values' = values := by
  induction h with
  | nil => rfl
  | @cons r r' _ _ hr _ ih =>
      rw [List.mem_cons, not_or] at hknown
      rw [ih hknown.2]
      rcases hr with rfl | rfl
      · exact absurd rfl hknown.1
      · rfl

theorem evaluateCall_mono {interpreter : Interpreter} {function : String} {r r' : Result}
    (h : List.Forall₂ Result.Below values values')
    (hr : evaluateCall interpreter function values = .ok r)
    (hr' : evaluateCall interpreter function values' = .ok r') : r.Below r' := by
  by_cases hnone : none ∈ values
  · rw [evaluateCall, if_pos hnone] at hr
    cases hr
    exact Or.inl rfl
  · rw [eq_of_known h hnone, hr] at hr'
    cases hr'
    exact Result.Below.refl r

end Nary

/-! ## Reading attributes in another way -/

section Attributes

variable {interpreter : Interpreter} {assignment : Dict String Value}
  {attributeOf attributeOf' : String → String → Except PyError Result}

mutual

/-- A result depends only on the attributes the expression refers to. -/
theorem evaluateWith_congr : ∀ {e : Expr} {r : Result},
    (∀ ref ∈ e.eventFields, ∀ r, attributeOf ref.1 ref.2.1 = .ok r →
      attributeOf' ref.1 ref.2.1 = .ok r) →
    evaluateWith interpreter assignment attributeOf e = .ok r →
    evaluateWith interpreter assignment attributeOf' e = .ok r
  | .literal _ _, _, _, h => by
      rw [evaluateWith] at h ⊢
      exact h
  | .symbol _ _, _, _, h => by
      rw [evaluateWith] at h ⊢
      exact h
  | .eventField id field s, _, hattribute, h => by
      rw [evaluateWith] at h ⊢
      exact hattribute (id, field, s) (by simp [Expr.eventFields]) _ h
  | .unary op e, _, hattribute, h => by
      rw [Expr.eventFields] at hattribute
      rw [evaluateWith, bind_eq_ok] at h ⊢
      obtain ⟨v, hv, h⟩ := h
      exact ⟨v, evaluateWith_congr hattribute hv, h⟩
  | .binary op l e, _, hattribute, h => by
      rw [Expr.eventFields, List.forall_mem_append] at hattribute
      rw [evaluateWith, bind_eq_ok] at h ⊢
      obtain ⟨a, ha, h⟩ := h
      obtain ⟨b, hb, h⟩ := bind_eq_ok.mp h
      exact ⟨a, evaluateWith_congr hattribute.1 ha,
        bind_eq_ok.mpr ⟨b, evaluateWith_congr hattribute.2 hb, h⟩⟩
  | .nary op es, _, hattribute, h => by
      rw [Expr.eventFields] at hattribute
      rw [evaluateWith, bind_eq_ok] at h ⊢
      obtain ⟨values, hvalues, h⟩ := h
      exact ⟨values, evaluateAll_congr hattribute hvalues, h⟩
  | .ite c t e, _, hattribute, h => by
      rw [Expr.eventFields, List.forall_mem_append, List.forall_mem_append] at hattribute
      obtain ⟨⟨hc, ht⟩, he⟩ := hattribute
      rw [evaluateWith, bind_eq_ok] at h ⊢
      obtain ⟨condition, hcondition, h⟩ := h
      refine ⟨condition, evaluateWith_congr hc hcondition, ?_⟩
      by_cases htrue : condition.isTrue = true
      · rw [if_pos htrue] at h ⊢
        exact evaluateWith_congr ht h
      · rw [if_neg htrue] at h ⊢
        by_cases hfalse : condition.isFalse = true
        · rw [if_pos hfalse] at h ⊢
          exact evaluateWith_congr he h
        · rw [if_neg hfalse] at h ⊢
          obtain ⟨thenValue, hthen, h⟩ := bind_eq_ok.mp h
          obtain ⟨elseValue, helse, h⟩ := bind_eq_ok.mp h
          exact bind_eq_ok.mpr ⟨thenValue, evaluateWith_congr ht hthen,
            bind_eq_ok.mpr ⟨elseValue, evaluateWith_congr he helse, h⟩⟩
  | .call function es _, _, hattribute, h => by
      rw [Expr.eventFields] at hattribute
      rw [evaluateWith, bind_eq_ok] at h ⊢
      obtain ⟨values, hvalues, h⟩ := h
      exact ⟨values, evaluateAll_congr hattribute hvalues, h⟩

theorem evaluateAll_congr : ∀ {es : List Expr} {values : List Result},
    (∀ ref ∈ Expr.eventFieldsAll es, ∀ r, attributeOf ref.1 ref.2.1 = .ok r →
      attributeOf' ref.1 ref.2.1 = .ok r) →
    evaluateAll interpreter assignment attributeOf es = .ok values →
    evaluateAll interpreter assignment attributeOf' es = .ok values
  | [], _, _, h => by
      rw [evaluateAll] at h ⊢
      exact h
  | e :: es, _, hattribute, h => by
      rw [Expr.eventFieldsAll, List.forall_mem_append] at hattribute
      rw [evaluateAll, bind_eq_ok] at h ⊢
      obtain ⟨v, hv, h⟩ := h
      obtain ⟨rest, hrest, h⟩ := bind_eq_ok.mp h
      exact ⟨v, evaluateWith_congr hattribute.1 hv,
        bind_eq_ok.mpr ⟨rest, evaluateAll_congr hattribute.2 hrest, h⟩⟩

end

end Attributes

/-- A deeper stack changes no result. -/
theorem EvaluationContext.eventAttributeAt_succ {context : EvaluationContext} {depth : Nat}
    {id field : String} {r : Result} (h : context.eventAttributeAt depth id field = .ok r) :
    context.eventAttributeAt (depth + 1) id field = .ok r := by
  induction depth generalizing id field r with
  | zero => cases h
  | succ depth ih =>
      rw [eventAttributeAt] at h ⊢
      cases hget : context.events.get? id with
      | none => simp [hget] at h
      | some event =>
          simp only [hget] at h ⊢
          cases hattribute : event.attribute? field with
          | none => simpa [hattribute] using h
          | some term =>
              cases term with
              | value v => simpa [hattribute] using h
              | expr e =>
                  simp only [hattribute] at h ⊢
                  exact evaluateWith_congr (fun _ _ _ => ih) h

/-! ## Expressions -/

section Expressions

variable {interpreter : Interpreter} {assignment assignment' : Dict String Value}
  {attributeOf attributeOf' : String → String → Except PyError Result}

mutual

theorem evaluateWith_mono
    (hassignment : ∀ k v, assignment.get? k = some v → assignment'.get? k = some v)
    (hattribute : ∀ id field r r', attributeOf id field = .ok r →
      attributeOf' id field = .ok r' → r.Below r') :
    ∀ {e : Expr} {r r' : Result}, e.iteFree = true →
      evaluateWith interpreter assignment attributeOf e = .ok r →
      evaluateWith interpreter assignment' attributeOf' e = .ok r' → r.Below r'
  | .literal v s, r, r', _, h, h' => by
      rw [evaluateWith] at h h'
      cases h
      cases h'
      exact Result.Below.refl _
  | .symbol name s, r, r', _, h, h' => by
      rw [evaluateWith] at h h'
      cases h
      cases h'
      cases hget : assignment.get? name with
      | none => exact Or.inl rfl
      | some v => exact Or.inr (hassignment _ _ hget).symm
  | .eventField id field s, r, r', _, h, h' => by
      rw [evaluateWith] at h h'
      exact hattribute id field r r' h h'
  | .unary op e, r, r', hfree, h, h' => by
      rw [evaluateWith, bind_eq_ok] at h h'
      obtain ⟨v, hv, h⟩ := h
      obtain ⟨v', hv', h'⟩ := h'
      rcases evaluateWith_mono hassignment hattribute (by simpa [Expr.iteFree] using hfree) hv hv'
        with rfl | rfl
      · cases h
        exact Or.inl rfl
      · rw [h] at h'
        cases h'
        exact Result.Below.refl _
  | .binary op l e, r, r', hfree, h, h' => by
      rw [Expr.iteFree, Bool.and_eq_true] at hfree
      rw [evaluateWith, bind_eq_ok] at h h'
      obtain ⟨a, ha, h⟩ := h
      obtain ⟨a', ha', h'⟩ := h'
      obtain ⟨b, hb, h⟩ := bind_eq_ok.mp h
      obtain ⟨b', hb', h'⟩ := bind_eq_ok.mp h'
      exact evaluateBinary_mono (evaluateWith_mono hassignment hattribute hfree.1 ha ha')
        (evaluateWith_mono hassignment hattribute hfree.2 hb hb') h h'
  | .nary op es, r, r', hfree, h, h' => by
      rw [evaluateWith, bind_eq_ok] at h h'
      obtain ⟨values, hvalues, h⟩ := h
      obtain ⟨values', hvalues', h'⟩ := h'
      cases h
      cases h'
      exact evaluateNary_mono (evaluateAll_mono hassignment hattribute
        (by simpa [Expr.iteFree] using hfree) hvalues hvalues')
  | .ite c t e, r, r', hfree, _, _ => by
      simp [Expr.iteFree] at hfree
  | .call function es s, r, r', hfree, h, h' => by
      rw [evaluateWith, bind_eq_ok] at h h'
      obtain ⟨values, hvalues, h⟩ := h
      obtain ⟨values', hvalues', h'⟩ := h'
      exact evaluateCall_mono (evaluateAll_mono hassignment hattribute
        (by simpa [Expr.iteFree] using hfree) hvalues hvalues') h h'

theorem evaluateAll_mono
    (hassignment : ∀ k v, assignment.get? k = some v → assignment'.get? k = some v)
    (hattribute : ∀ id field r r', attributeOf id field = .ok r →
      attributeOf' id field = .ok r' → r.Below r') :
    ∀ {es : List Expr} {values values' : List Result}, Expr.iteFreeAll es = true →
      evaluateAll interpreter assignment attributeOf es = .ok values →
      evaluateAll interpreter assignment' attributeOf' es = .ok values' →
      List.Forall₂ Result.Below values values'
  | [], values, values', _, h, h' => by
      rw [evaluateAll] at h h'
      cases h
      cases h'
      exact .nil
  | e :: es, values, values', hfree, h, h' => by
      rw [Expr.iteFreeAll, Bool.and_eq_true] at hfree
      rw [evaluateAll, bind_eq_ok] at h h'
      obtain ⟨v, hv, h⟩ := h
      obtain ⟨v', hv', h'⟩ := h'
      obtain ⟨rest, hrest, h⟩ := bind_eq_ok.mp h
      obtain ⟨rest', hrest', h'⟩ := bind_eq_ok.mp h'
      cases h
      cases h'
      exact .cons (evaluateWith_mono hassignment hattribute hfree.1 hv hv')
        (evaluateAll_mono hassignment hattribute hfree.2 hrest hrest')

end

end Expressions

namespace EvaluationContext

variable {context context' : EvaluationContext}

theorem eventAttributeAt_mono (hevents : context'.events = context.events)
    (hinterpreter : context'.interpreter = context.interpreter)
    (hassignment : ∀ k v, context.assignment.get? k = some v →
      context'.assignment.get? k = some v)
    (hfree : ∀ id event field term, context.events.get? id = some event →
      event.attribute? field = some term → term.iteFree = true)
    {depth : Nat} {id field : String} {r r' : Result}
    (h : context.eventAttributeAt depth id field = .ok r)
    (h' : context'.eventAttributeAt depth id field = .ok r') : r.Below r' := by
  induction depth generalizing id field r r' with
  | zero => cases h
  | succ depth ih =>
      rw [eventAttributeAt] at h h'
      rw [hevents] at h'
      cases hget : context.events.get? id with
      | none => simp [hget] at h
      | some event =>
          simp only [hget] at h h'
          cases hattribute : event.attribute? field with
          | none =>
              simp only [hattribute] at h
              cases h
              exact Or.inl rfl
          | some term =>
              cases term with
              | value v =>
                  simp only [hattribute] at h h'
                  cases h
                  cases h'
                  exact Result.Below.refl _
              | expr e =>
                  simp only [hattribute, hinterpreter] at h h'
                  exact evaluateWith_mono hassignment (fun _ _ _ _ => ih)
                    (hfree id event field (.expr e) hget hattribute) h h'

/-- Without conditionals, more assigned symbols only make a result better known. -/
theorem evaluate_mono (hevents : context'.events = context.events)
    (hinterpreter : context'.interpreter = context.interpreter)
    (hassignment : ∀ k v, context.assignment.get? k = some v →
      context'.assignment.get? k = some v)
    (hfree : ∀ id event field term, context.events.get? id = some event →
      event.attribute? field = some term → term.iteFree = true)
    {e : Expr} (he : e.iteFree = true) {r r' : Result}
    (h : context.evaluate e = .ok r) (h' : context'.evaluate e = .ok r') : r.Below r' := by
  rw [evaluate] at h h'
  rw [eventAttribute, hinterpreter] at h'
  exact evaluateWith_mono hassignment (fun _ _ _ _ =>
    eventAttributeAt_mono hevents hinterpreter hassignment hfree) he h h'

end EvaluationContext

end Umcm
