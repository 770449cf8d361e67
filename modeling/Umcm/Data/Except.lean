import Umcm.Data.Name
import Mathlib.Data.List.ReduceOption
import Mathlib.Tactic

/-!
# Computations that may raise

Equations for `Except` used as the monad of computations that may raise: a
sequence of steps returns exactly when every step does.
-/

namespace Except

universe u

variable {ε : Type*} {α β : Type u}

theorem bind_eq_ok {x : Except ε α} {f : α → Except ε β} {b : β} :
    x >>= f = .ok b ↔ ∃ a, x = .ok a ∧ f a = .ok b := by
  cases x with
  | error e => simp [bind, Except.bind]
  | ok a => simp [bind, Except.bind]

@[simp] theorem ok_bind (a : α) (f : α → Except ε β) : (Except.ok a >>= f) = f a := rfl

@[simp] theorem bind_ok (x : Except ε α) : (x >>= .ok) = x := by
  cases x <;> rfl

@[simp] theorem error_bind (e : ε) (f : α → Except ε β) : (Except.error e >>= f) = .error e := rfl

@[simp] theorem mapError_eq_ok {ε' : Type*} {f : ε → ε'} {x : Except ε α} {a : α} :
    x.mapError f = .ok a ↔ x = .ok a := by
  cases x <;> simp [Except.mapError]

theorem toOption_eq_some {x : Except ε α} {a : α} : x.toOption = some a ↔ x = .ok a := by
  cases x <;> simp [Except.toOption]

/-- `if not condition: raise error`. -/
def require (condition : Prop) [Decidable condition] (error : ε) : Except ε Unit :=
  if condition then .ok () else .error error

@[simp] theorem require_eq_ok {c : Prop} [Decidable c] {e : ε} {u : Unit} :
    require c e = .ok u ↔ c := by
  by_cases h : c <;> simp [require, h]

@[simp] theorem require_eq_error {c : Prop} [Decidable c] {e e' : ε} :
    require c e = .error e' ↔ ¬ c ∧ e = e' := by
  by_cases h : c <;> simp [require, h]

/-- A loop of checks passes when every element passes. -/
theorem forM_eq_ok {γ : Type*} {f : γ → Except ε PUnit.{u + 1}} {l : List γ} {u : PUnit.{u + 1}} :
    l.forM f = .ok u ↔ ∀ a ∈ l, f a = .ok ⟨⟩ := by
  induction l with
  | nil => simp [pure, Except.pure]
  | cons a rest ih =>
      rw [List.forM_eq_forM] at ih ⊢
      rw [List.forM_cons, bind_eq_ok, List.forall_mem_cons]
      constructor
      · rintro ⟨_, ha, hrest⟩
        exact ⟨ha, ih.mp hrest⟩
      · rintro ⟨ha, hrest⟩
        exact ⟨_, ha, ih.mpr hrest⟩

theorem mapM_congr {γ δ : Type*} {f f' : γ → Except ε δ} {l : List γ}
    (h : ∀ a ∈ l, f a = f' a) : l.mapM f = l.mapM f' := by
  induction l with
  | nil => rfl
  | cons a rest ih =>
      rw [List.mapM_cons, List.mapM_cons, h a List.mem_cons_self,
        ih (fun b hb => h b (List.mem_cons_of_mem _ hb))]

/-- A loop that collects results returns the list of the results. -/
theorem mapM_eq_ok {γ : Type*} {f : γ → Except ε β} {l : List γ} {r : List β} :
    l.mapM f = .ok r ↔ List.Forall₂ (fun a b => f a = .ok b) l r := by
  induction l generalizing r with
  | nil => simp [pure, Except.pure, eq_comm]
  | cons a rest ih =>
      rw [List.mapM_cons, bind_eq_ok]
      constructor
      · rintro ⟨b, hb, h⟩
        obtain ⟨bs, hbs, h⟩ := bind_eq_ok.mp h
        cases h
        exact .cons hb (ih.mp hbs)
      · rintro (_ | ⟨hb, hbs⟩)
        exact ⟨_, hb, bind_eq_ok.mpr ⟨_, ih.mpr hbs, rfl⟩⟩

theorem mapM_concat {γ : Type*} {f : γ → Except ε β} {l : List γ} {a : γ} {bs : List β} {b : β}
    (hl : l.mapM f = .ok bs) (ha : f a = .ok b) : (l ++ [a]).mapM f = .ok (bs ++ [b]) := by
  rw [mapM_eq_ok] at hl ⊢
  exact List.rel_append hl (.cons ha .nil)

theorem exists_right_of_forall₂ {γ δ : Type*} {R : γ → δ → Prop} {l : List γ} {r : List δ}
    (h : List.Forall₂ R l r) {a : γ} (ha : a ∈ l) : ∃ b ∈ r, R a b := by
  induction h with
  | nil => cases ha
  | cons hb _ ih =>
      rcases List.mem_cons.mp ha with rfl | ha
      · exact ⟨_, List.mem_cons_self, hb⟩
      · obtain ⟨b, hmem, hab⟩ := ih ha
        exact ⟨b, List.mem_cons_of_mem _ hmem, hab⟩

theorem exists_left_of_forall₂ {γ δ : Type*} {R : γ → δ → Prop} {l : List γ} {r : List δ}
    (h : List.Forall₂ R l r) {b : δ} (hb : b ∈ r) : ∃ a ∈ l, R a b :=
  exists_right_of_forall₂ h.flip hb

theorem mapM_result {γ : Type*} {f : γ → Except ε β} {l : List γ} {r : List β}
    (h : l.mapM f = .ok r) {a : γ} (ha : a ∈ l) : ∃ b ∈ r, f a = .ok b :=
  exists_right_of_forall₂ (mapM_eq_ok.mp h) ha

theorem mapM_origin {γ : Type*} {f : γ → Except ε β} {l : List γ} {r : List β}
    (h : l.mapM f = .ok r) {b : β} (hb : b ∈ r) : ∃ a ∈ l, f a = .ok b :=
  exists_left_of_forall₂ (mapM_eq_ok.mp h) hb

/-- The results that are there come from the elements. -/
theorem mem_reduceOption_mapM {γ : Type*} {f : γ → Except ε (Option β)} {l : List γ}
    {options : List (Option β)} (h : l.mapM f = .ok options) {b : β} :
    b ∈ options.reduceOption ↔ ∃ a ∈ l, f a = .ok (some b) := by
  rw [List.reduceOption_mem_iff]
  constructor
  · exact mapM_origin h
  · rintro ⟨a, ha, hb⟩
    obtain ⟨o, ho, hok⟩ := mapM_result h ha
    rw [hb] at hok
    cases hok
    exact ho

theorem exists_mapM {γ : Type*} {f : γ → Except ε β} {l : List γ}
    (h : ∀ a ∈ l, ∃ b, f a = .ok b) : ∃ r, l.mapM f = .ok r := by
  induction l with
  | nil => exact ⟨[], rfl⟩
  | cons a rest ih =>
      obtain ⟨b, hb⟩ := h a List.mem_cons_self
      obtain ⟨r, hr⟩ := ih (fun x hx => h x (List.mem_cons_of_mem _ hx))
      exact ⟨b :: r, by rw [List.mapM_cons, hb, ok_bind, hr]; rfl⟩

/-- Another loop that returns the same results. -/
theorem mapM_imp {γ : Type*} {f f' : γ → Except ε β} {l : List γ} {r : List β}
    (h : l.mapM f = .ok r) (hf : ∀ a ∈ l, ∀ b, f a = .ok b → f' a = .ok b) :
    l.mapM f' = .ok r := by
  rw [mapM_eq_ok] at h ⊢
  induction h with
  | nil => exact .nil
  | cons hb _ ih =>
      refine .cons (hf _ List.mem_cons_self _ hb) (ih (fun a ha => ?_))
      exact hf a (List.mem_cons_of_mem _ ha)

/-- What the results share with the elements they come from. -/
theorem map_mapM {γ δ : Type*} {f : γ → Except ε β} {l : List γ} {r : List β} {p : β → δ}
    {q : γ → δ} (h : l.mapM f = .ok r) (hpq : ∀ {a b}, f a = .ok b → p b = q a) :
    r.map p = l.map q := by
  rw [mapM_eq_ok] at h
  induction h with
  | nil => rfl
  | cons hb _ ih => rw [List.map_cons, List.map_cons, hpq hb, ih]

/-- Collecting results in another order returns the results in another order. -/
theorem mapM_perm {γ : Type*} {f : γ → Except ε β} {l l' : List γ} (hperm : l.Perm l')
    {r : List β} (h : l.mapM f = .ok r) : ∃ r', l'.mapM f = .ok r' ∧ r.Perm r' := by
  induction hperm generalizing r with
  | nil => exact ⟨r, h, .refl r⟩
  | cons a _ ih =>
      rw [List.mapM_cons] at h
      obtain ⟨b, hb, h⟩ := bind_eq_ok.mp h
      obtain ⟨bs, hbs, h⟩ := bind_eq_ok.mp h
      cases h
      obtain ⟨bs', hbs', hperm⟩ := ih hbs
      exact ⟨b :: bs', by rw [List.mapM_cons, hb, ok_bind, hbs']; rfl, hperm.cons b⟩
  | swap a a' l =>
      rw [List.mapM_cons, List.mapM_cons] at h
      obtain ⟨b', hb', h⟩ := bind_eq_ok.mp h
      obtain ⟨_, hrest, h⟩ := bind_eq_ok.mp h
      obtain ⟨b, hb, hrest⟩ := bind_eq_ok.mp hrest
      obtain ⟨bs, hbs, hcons⟩ := bind_eq_ok.mp hrest
      cases hcons
      cases h
      refine ⟨b :: b' :: bs, ?_, .swap _ _ _⟩
      have hinner : List.mapM f (a' :: l) = .ok (b' :: bs) := by
        rw [List.mapM_cons, hb', ok_bind, hbs]
        rfl
      rw [List.mapM_cons, hb, ok_bind, hinner]
      rfl
  | trans _ _ ih ih' =>
      obtain ⟨r', h', hperm⟩ := ih h
      obtain ⟨r'', h'', hperm'⟩ := ih' h'
      exact ⟨r'', h'', hperm.trans hperm'⟩

/-- Elements whose result is `none` can be left out. -/
theorem mapM_reduceOption_filter {γ : Type*} {f : γ → Except ε (Option β)} {q : γ → Bool}
    {l : List γ} (hnone : ∀ a ∈ l, q a = false → f a = .ok none) {r : List β} :
    (∃ options, l.mapM f = .ok options ∧ options.reduceOption = r) ↔
      ∃ options, (l.filter q).mapM f = .ok options ∧ options.reduceOption = r := by
  induction l generalizing r with
  | nil => simp
  | cons a rest ih =>
      have hrest := fun b hb => hnone b (List.mem_cons_of_mem _ hb)
      cases hq : q a with
      | false =>
          have ha := hnone a List.mem_cons_self hq
          rw [List.filter_cons_of_neg (by simp [hq]), ← ih hrest]
          constructor
          · rintro ⟨options, h, rfl⟩
            rw [List.mapM_cons, ha, ok_bind] at h
            obtain ⟨tail, htail, hcons⟩ := bind_eq_ok.mp h
            cases hcons
            exact ⟨tail, htail, rfl⟩
          · rintro ⟨options, h, rfl⟩
            exact ⟨none :: options, by rw [List.mapM_cons, ha, ok_bind, h]; rfl, rfl⟩
      | true =>
          rw [List.filter_cons_of_pos hq]
          constructor
          · rintro ⟨options, h, rfl⟩
            rw [List.mapM_cons] at h
            obtain ⟨option, ha, h⟩ := bind_eq_ok.mp h
            obtain ⟨tail, htail, hcons⟩ := bind_eq_ok.mp h
            cases hcons
            obtain ⟨options', h', heq⟩ := (ih hrest).mp ⟨tail, htail, rfl⟩
            refine ⟨option :: options', by rw [List.mapM_cons, ha, ok_bind, h']; rfl, ?_⟩
            cases option <;> simp [List.reduceOption_cons_of_some, heq]
          · rintro ⟨options, h, rfl⟩
            rw [List.mapM_cons] at h
            obtain ⟨option, ha, h⟩ := bind_eq_ok.mp h
            obtain ⟨tail, htail, hcons⟩ := bind_eq_ok.mp h
            cases hcons
            obtain ⟨options', h', heq⟩ := (ih hrest).mpr ⟨tail, htail, rfl⟩
            refine ⟨option :: options', by rw [List.mapM_cons, ha, ok_bind, h']; rfl, ?_⟩
            cases option <;> simp [List.reduceOption_cons_of_some, heq]

/-! ## Which errors a computation raises -/

/-- Every error the computation raises satisfies `p`. -/
def Raises (p : ε → Prop) (x : Except ε α) : Prop := ∀ e, x = .error e → p e

variable {p : ε → Prop}

theorem raises_ok (a : α) : Raises p (.ok a : Except ε α) := by
  intro e h
  cases h

theorem raises_error {e : ε} (h : p e) : Raises p (.error e : Except ε α) := by
  intro e' h'
  cases h'
  exact h

theorem Raises.bind {x : Except ε α} {f : α → Except ε β} (hx : Raises p x)
    (hf : ∀ a, x = .ok a → Raises p (f a)) : Raises p (x >>= f) := by
  cases x with
  | error e => exact raises_error (hx e rfl)
  | ok a => exact hf a rfl

theorem raises_require {c : Prop} [Decidable c] {e : ε} (h : p e) : Raises p (require c e) := by
  intro e' h'
  obtain ⟨-, rfl⟩ := require_eq_error.mp h'
  exact h

theorem Raises.forM {γ : Type*} {f : γ → Except ε PUnit.{u + 1}} {l : List γ}
    (h : ∀ a ∈ l, Raises p (f a)) : Raises p (l.forM f) := by
  induction l with
  | nil => exact raises_ok _
  | cons a rest ih =>
      refine Raises.bind (h a List.mem_cons_self) (fun _ _ => ?_)
      exact ih (fun b hb => h b (List.mem_cons_of_mem _ hb))

theorem Raises.mapM {γ : Type*} {f : γ → Except ε β} {l : List γ}
    (h : ∀ a ∈ l, Raises p (f a)) : Raises p (l.mapM f) := by
  induction l with
  | nil => exact raises_ok _
  | cons a rest ih =>
      rw [List.mapM_cons]
      refine Raises.bind (h a List.mem_cons_self) (fun _ _ => ?_)
      refine Raises.bind (ih (fun b hb => h b (List.mem_cons_of_mem _ hb))) (fun _ _ => ?_)
      exact raises_ok _

theorem Raises.foldlM {γ : Type*} {f : β → γ → Except ε β} {l : List γ} {b : β}
    (h : ∀ b, ∀ a ∈ l, Raises p (f b a)) : Raises p (l.foldlM f b) := by
  induction l generalizing b with
  | nil => exact raises_ok _
  | cons a rest ih =>
      rw [List.foldlM_cons]
      refine Raises.bind (h b a List.mem_cons_self) (fun b' _ => ?_)
      exact ih (fun b a ha => h b a (List.mem_cons_of_mem _ ha))

/-! ## Failing with a certain error -/

/-- The computation raises an error that satisfies `p`. -/
def Fails (p : ε → Prop) (x : Except ε α) : Prop := ∃ e, x = .error e ∧ p e

@[simp] theorem not_fails_ok (a : α) : ¬ Fails p (.ok a : Except ε α) := by
  rintro ⟨e, h, -⟩
  cases h

@[simp] theorem fails_error {e : ε} : Fails p (.error e : Except ε α) ↔ p e := by
  simp [Fails]

instance [DecidablePred p] (x : Except ε α) : Decidable (Fails p x) :=
  match x with
  | .error _ => decidable_of_iff _ fails_error.symm
  | .ok a => isFalse (not_fails_ok a)

/-- A sequence fails where its first step fails, or where the rest does. -/
theorem fails_bind {x : Except ε α} {f : α → Except ε β} :
    Fails p (x >>= f) ↔ Fails p x ∨ ∃ a, x = .ok a ∧ Fails p (f a) := by
  cases x with
  | error e => simp
  | ok a => simp

theorem fails_bind_pure {x : Except ε α} {g : α → β} :
    Fails p (x >>= fun a => pure (g a)) ↔ Fails p x := by
  cases x with
  | error e => simp
  | ok a => exact iff_of_false (not_fails_ok _) (not_fails_ok _)

theorem raises_bind_pure {x : Except ε α} {g : α → β} :
    Raises p (x >>= fun a => pure (g a)) ↔ Raises p x := by
  cases x with
  | error e => exact ⟨fun h => raises_error (h e rfl), fun h => raises_error (h e rfl)⟩
  | ok a => exact iff_of_true (raises_ok _) (raises_ok _)

theorem fails_require {c : Prop} [Decidable c] {e : ε} (he : p e) :
    Fails p (require c e) ↔ ¬ c := by
  by_cases h : c <;> simp [require, h, he]

/-- If nothing else can go wrong, failing is not returning. -/
theorem Raises.fails_iff {x : Except ε α} (h : Raises p x) : Fails p x ↔ ¬ ∃ a, x = .ok a := by
  cases x with
  | error e => simp [h e rfl]
  | ok a => simp

/-- A loop fails at the first element that raises. -/
theorem fails_mapM {γ : Type*} {f : γ → Except ε β} {l : List γ} :
    Fails p (l.mapM f) ↔ ∃ before a after, l = before ++ a :: after ∧
      (∀ b ∈ before, Raises p (f b)) ∧ Fails p (f a) := by
  induction l with
  | nil =>
      refine ⟨fun h => absurd h (not_fails_ok _), ?_⟩
      rintro ⟨before, a, after, h, -⟩
      simp at h
  | cons c rest ih =>
      have htail : ∀ b, Fails p (rest.mapM f >>= fun bs => pure (b :: bs)) ↔
          Fails p (rest.mapM f) := by
        intro b
        rw [fails_bind]
        refine or_iff_left ?_
        rintro ⟨bs, -, h⟩
        exact not_fails_ok _ h
      rw [List.mapM_cons, fails_bind]
      simp only [htail, ih]
      constructor
      · rintro (h | ⟨b, hb, before, a, after, rfl, hbefore, ha⟩)
        · exact ⟨[], c, rest, rfl, by simp, h⟩
        · refine ⟨c :: before, a, after, rfl, List.forall_mem_cons.mpr ⟨?_, hbefore⟩, ha⟩
          rw [hb]
          exact raises_ok b
      · rintro ⟨before, a, after, heq, hbefore, ha⟩
        cases before with
        | nil =>
            cases heq
            exact Or.inl ha
        | cons d before =>
            cases heq
            obtain ⟨hc, hbefore⟩ := List.forall_mem_cons.mp hbefore
            -- the first element returns, or it fails as the later one does
            cases hfc : f c with
            | error e => exact Or.inl (fails_error.mpr (hc e hfc))
            | ok b => exact Or.inr ⟨b, rfl, before, a, after, rfl, hbefore, ha⟩

/-- A loop fails at the first element that raises, from what the elements before it left. -/
theorem fails_foldlM {γ : Type*} {f : β → γ → Except ε β} {l : List γ} {b : β} :
    Fails p (l.foldlM f b) ↔ ∃ before a after b', l = before ++ a :: after ∧
      before.foldlM f b = .ok b' ∧ Fails p (f b' a) := by
  induction l generalizing b with
  | nil =>
      refine iff_of_false (not_fails_ok b) ?_
      rintro ⟨before, a, after, b', h, -⟩
      simp at h
  | cons c rest ih =>
      rw [List.foldlM_cons, fails_bind]
      simp only [ih]
      constructor
      · rintro (h | ⟨b₁, hb₁, before, a, after, b', rfl, hbefore, ha⟩)
        · exact ⟨[], c, rest, b, rfl, rfl, h⟩
        · exact ⟨c :: before, a, after, b', rfl, by rw [List.foldlM_cons, hb₁, ok_bind, hbefore], ha⟩
      · rintro ⟨before, a, after, b', heq, hbefore, ha⟩
        cases before with
        | nil =>
            cases heq
            cases hbefore
            exact Or.inl ha
        | cons d before =>
            cases heq
            rw [List.foldlM_cons] at hbefore
            obtain ⟨b₁, hb₁, hbefore⟩ := bind_eq_ok.mp hbefore
            exact Or.inr ⟨b₁, hb₁, before, a, after, b', rfl, hbefore, ha⟩

/-- A loop of checks fails at the first check that raises. -/
theorem fails_forM {γ : Type*} {f : γ → Except ε PUnit.{u + 1}} {l : List γ} :
    Fails p (l.forM f) ↔ ∃ before a after, l = before ++ a :: after ∧
      (∀ b ∈ before, Raises p (f b)) ∧ Fails p (f a) := by
  rw [← fails_mapM]
  induction l with
  | nil => exact iff_of_false (not_fails_ok _) (not_fails_ok _)
  | cons a rest ih =>
      rw [List.forM_eq_forM] at ih ⊢
      rw [List.forM_cons, List.mapM_cons, fails_bind, fails_bind, ih]
      refine or_congr_right (exists_congr (fun u => and_congr_right (fun _ => ?_)))
      rw [fails_bind]
      refine (or_iff_left ?_).symm
      rintro ⟨us, -, h⟩
      exact not_fails_ok _ h

/-! ## Loops -/

/-- An invariant of a loop over a list, stated on what has been processed. -/
theorem foldlM_invariant {γ : Type*} {f : β → γ → Except ε β} (inv : List γ → β → Prop)
    (step : ∀ seen a b b', inv seen b → f b a = .ok b' → inv (seen ++ [a]) b') {l : List γ}
    {b b' : β} (hb : inv [] b) (h : l.foldlM f b = .ok b') : inv l b' := by
  have hgen : ∀ (rest seen : List γ) (b : β), inv seen b → rest.foldlM f b = .ok b' →
      inv (seen ++ rest) b' := by
    intro rest
    induction rest with
    | nil =>
        intro seen b hseen h
        cases h
        simpa using hseen
    | cons a rest ih =>
        intro seen b hseen h
        obtain ⟨b₁, h₁, h⟩ := bind_eq_ok.mp ((List.foldlM_cons ..).symm.trans h)
        simpa using ih (seen ++ [a]) b₁ (step seen a b b₁ hseen h₁) h
  exact hgen l [] b hb h

/-- A loop relates what it starts with to what it ends with, if every step does. -/
theorem foldlM_relates {γ : Type*} {f : β → γ → Except ε β} {R : β → β → Prop}
    (refl : ∀ b, R b b) (trans : ∀ {a b c}, R a b → R b c → R a c) {l : List γ}
    (step : ∀ b, ∀ a ∈ l, ∀ b', f b a = .ok b' → R b b') {b b' : β}
    (h : l.foldlM f b = .ok b') : R b b' := by
  induction l generalizing b with
  | nil =>
      cases h
      exact refl _
  | cons a l ih =>
      obtain ⟨middle, hfirst, hrest⟩ := bind_eq_ok.mp ((List.foldlM_cons ..).symm.trans h)
      have hstep := step b a List.mem_cons_self middle hfirst
      exact trans hstep (ih (fun b c hc => step b c (List.mem_cons_of_mem _ hc)) hrest)

/-- A loop whose invariant lets every step go through returns. -/
theorem exists_foldlM {γ : Type*} {f : β → γ → Except ε β} (inv : List γ → β → Prop)
    (step : ∀ a l b, inv (a :: l) b → ∃ b', f b a = .ok b' ∧ inv l b') {l : List γ} {b : β}
    (hb : inv l b) : ∃ b', l.foldlM f b = .ok b' := by
  induction l generalizing b with
  | nil => exact ⟨b, rfl⟩
  | cons a rest ih =>
      obtain ⟨b₁, h₁, hinv⟩ := step a rest b hb
      obtain ⟨b', h'⟩ := ih hinv
      exact ⟨b', by rw [List.foldlM_cons, h₁, ok_bind, h']⟩

end Except
