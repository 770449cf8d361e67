import Umcm.Data.Name
import Mathlib.Data.List.Perm.Basic
import Mathlib.Data.List.Nodup
import Mathlib.Data.Nat.Factorial.Basic
import Mathlib.Algebra.BigOperators.Group.List.Basic
import Mathlib.Tactic

/-!
# Products and permutations in lexicographic order

`product` and `permutations` enumerate in the order of the standard iterators:
the leftmost choice varies slowest.
-/

namespace Choice

variable {α β : Type*}

/-- One element of each list. -/
def product : List (List α) → List (List α)
  | [] => [[]]
  | xs :: rest => xs.flatMap (fun x => (product rest).map (fun l => x :: l))

theorem mem_product {choices : List (List α)} {l : List α} :
    l ∈ product choices ↔ List.Forall₂ (fun a xs => a ∈ xs) l choices := by
  induction choices generalizing l with
  | nil => simp [product]
  | cons xs rest ih =>
      simp only [product, List.mem_flatMap, List.mem_map]
      constructor
      · rintro ⟨x, hx, l', hl', rfl⟩
        exact .cons hx (ih.mp hl')
      · rintro (_ | ⟨hx, hrest⟩)
        exact ⟨_, hx, _, ih.mpr hrest, rfl⟩

theorem nodup_product {choices : List (List α)} (h : ∀ xs ∈ choices, xs.Nodup) :
    (product choices).Nodup := by
  induction choices with
  | nil => simp [product]
  | cons xs rest ih =>
      have hxs := h xs List.mem_cons_self
      have hrest := ih (fun ys hys => h ys (List.mem_cons_of_mem _ hys))
      rw [product, List.nodup_flatMap]
      constructor
      · intro x _
        exact hrest.map (fun _ _ heq => (List.cons.inj heq).2)
      · refine hxs.imp ?_
        intro x y hxy l hl hl'
        obtain ⟨_, -, rfl⟩ := List.mem_map.mp hl
        obtain ⟨_, -, heq⟩ := List.mem_map.mp hl'
        exact hxy (List.cons.inj heq).1.symm

theorem length_product (choices : List (List α)) :
    (product choices).length = (choices.map List.length).prod := by
  induction choices with
  | nil => rfl
  | cons xs rest ih =>
      simp only [product, List.length_flatMap, List.length_map, ih, List.map_cons, List.prod_cons]
      simp [List.map_const']

theorem map_product {f : α → β} (choices : List (List α)) :
    (product choices).map (List.map f) = product (choices.map (List.map f)) := by
  induction choices with
  | nil => rfl
  | cons xs rest ih =>
      simp only [product, List.map_cons, ← ih, List.map_flatMap, List.flatMap_map, List.map_map]
      rfl

/-- The choices are in the lexicographic order of the lists they are taken from. -/
theorem pairwise_product {r : α → α → Prop} {choices : List (List α)}
    (h : ∀ xs ∈ choices, xs.Pairwise r) : (product choices).Pairwise (List.Lex r) := by
  induction choices with
  | nil => exact List.pairwise_singleton _ _
  | cons xs rest ih =>
      have hxs := h xs List.mem_cons_self
      have hrest := ih (fun ys hys => h ys (List.mem_cons_of_mem _ hys))
      rw [product, List.pairwise_flatMap]
      constructor
      · intro x _
        exact hrest.map _ (fun _ _ hlex => .cons hlex)
      · refine hxs.imp ?_
        intro x y hxy l hl l' hl'
        rcases List.mem_map.mp hl with ⟨_, -, rfl⟩
        rcases List.mem_map.mp hl' with ⟨_, -, rfl⟩
        exact .rel hxy

/-- Choices in another order give the same selections in that order. -/
theorem exists_product_perm {choices choices' : List (List α)} (h : choices.Perm choices')
    {l : List α} (hl : l ∈ product choices) : ∃ l' ∈ product choices', l.Perm l' := by
  induction h generalizing l with
  | nil => exact ⟨l, hl, .refl l⟩
  | cons xs _ ih =>
      simp only [product, List.mem_flatMap, List.mem_map] at hl ⊢
      obtain ⟨x, hx, rest, hrest, rfl⟩ := hl
      obtain ⟨rest', hrest', hperm⟩ := ih hrest
      exact ⟨x :: rest', ⟨x, hx, rest', hrest', rfl⟩, hperm.cons x⟩
  | swap xs ys choices =>
      simp only [product, List.mem_flatMap, List.mem_map] at hl ⊢
      obtain ⟨y, hy, _, ⟨x, hx, rest, hrest, rfl⟩, rfl⟩ := hl
      exact ⟨x :: y :: rest, ⟨x, hx, y :: rest, ⟨y, hy, rest, hrest, rfl⟩, rfl⟩, .swap x y rest⟩
  | trans _ _ ih ih' =>
      obtain ⟨l', hl', hperm⟩ := ih hl
      obtain ⟨l'', hl'', hperm'⟩ := ih' hl'
      exact ⟨l'', hl'', hperm.trans hperm'⟩

/-! ## Assignments -/

section Assignments

variable {κ ν : Type*}

/-- A value for every key of a table, from the values the table lists for it. -/
def assignments (table : List (κ × List ν)) : List (List (κ × ν)) :=
  (product (table.map Prod.snd)).map (fun values => (table.map Prod.fst).zip values)

theorem mem_assignments {table : List (κ × List ν)} {l : List (κ × ν)} :
    l ∈ assignments table ↔ List.Forall₂ (fun p q => p.1 = q.1 ∧ p.2 ∈ q.2) l table := by
  induction table generalizing l with
  | nil => simp [assignments, product]
  | cons q rest ih =>
      have hcons : l ∈ assignments (q :: rest) ↔
          ∃ v ∈ q.2, ∃ l' ∈ assignments rest, l = (q.1, v) :: l' := by
        simp only [assignments, List.map_cons, product, List.mem_map, List.mem_flatMap]
        constructor
        · rintro ⟨-, ⟨v, hv, values, hvalues, rfl⟩, rfl⟩
          exact ⟨v, hv, _, ⟨values, hvalues, rfl⟩, rfl⟩
        · rintro ⟨v, hv, -, ⟨values, hvalues, rfl⟩, rfl⟩
          exact ⟨v :: values, ⟨v, hv, values, hvalues, rfl⟩, rfl⟩
      rw [hcons]
      constructor
      · rintro ⟨v, hv, l', hl', rfl⟩
        exact .cons ⟨rfl, hv⟩ (ih.mp hl')
      · rintro (_ | ⟨⟨hk, hv⟩, hl'⟩)
        rename_i p l'
        exact ⟨p.2, hv, l', ih.mpr hl', by rw [← hk]⟩

theorem mem_assignments_cons {q : κ × List ν} {table : List (κ × List ν)} {l : List (κ × ν)} :
    l ∈ assignments (q :: table) ↔ ∃ v ∈ q.2, ∃ l' ∈ assignments table, l = (q.1, v) :: l' := by
  simp only [mem_assignments]
  constructor
  · rintro (_ | ⟨⟨hk, hv⟩, hl'⟩)
    rename_i p l'
    exact ⟨p.2, hv, l', hl', by rw [← hk]⟩
  · rintro ⟨v, hv, l', hl', rfl⟩
    exact .cons ⟨rfl, hv⟩ hl'

theorem keys_of_mem_assignments {table : List (κ × List ν)} {l : List (κ × ν)}
    (h : l ∈ assignments table) : l.map Prod.fst = table.map Prod.fst := by
  rw [mem_assignments] at h
  induction h with
  | nil => rfl
  | cons hp _ ih => rw [List.map_cons, List.map_cons, hp.1, ih]

/-- Tables with the same choices in another order give the same values. -/
theorem exists_assignment_perm {table table' : List (κ × List ν)}
    (h : (table.map Prod.snd).Perm (table'.map Prod.snd)) {l : List (κ × ν)}
    (hl : l ∈ assignments table) :
    ∃ l' ∈ assignments table', (l.map Prod.snd).Perm (l'.map Prod.snd) := by
  have hzip : ∀ {table : List (κ × List ν)} {values : List ν},
      values ∈ product (table.map Prod.snd) → ((table.map Prod.fst).zip values).map Prod.snd =
        values := by
    intro table values hvalues
    have hlen := (mem_product.mp hvalues).length_eq
    refine List.map_snd_zip ?_
    rw [hlen, List.length_map, List.length_map]
  obtain ⟨values, hvalues, rfl⟩ := List.mem_map.mp hl
  obtain ⟨values', hvalues', hperm⟩ := exists_product_perm h hvalues
  refine ⟨_, List.mem_map_of_mem hvalues', ?_⟩
  rw [hzip hvalues, hzip hvalues']
  exact hperm

theorem table_of_mem {table : List (κ × List ν)} {l : List (κ × ν)} (h : l ∈ assignments table)
    {p : κ × ν} (hp : p ∈ l) : ∃ q ∈ table, p.1 = q.1 ∧ p.2 ∈ q.2 := by
  rw [mem_assignments] at h
  induction h with
  | nil => cases hp
  | cons hpq _ ih =>
      rcases List.mem_cons.mp hp with rfl | hp
      · exact ⟨_, List.mem_cons_self, hpq⟩
      · obtain ⟨q, hq, hpq⟩ := ih hp
        exact ⟨q, List.mem_cons_of_mem _ hq, hpq⟩

theorem value_of_mem {table : List (κ × List ν)} {l : List (κ × ν)} (h : l ∈ assignments table)
    {q : κ × List ν} (hq : q ∈ table) : ∃ p ∈ l, p.1 = q.1 ∧ p.2 ∈ q.2 := by
  rw [mem_assignments] at h
  induction h with
  | nil => cases hq
  | cons hpq _ ih =>
      rcases List.mem_cons.mp hq with rfl | hq
      · exact ⟨_, List.mem_cons_self, hpq⟩
      · obtain ⟨p, hp, hpq⟩ := ih hq
        exact ⟨p, List.mem_cons_of_mem _ hp, hpq⟩

theorem exists_mem_assignments {table : List (κ × List ν)} (h : ∀ q ∈ table, q.2 ≠ []) :
    ∃ l, l ∈ assignments table := by
  induction table with
  | nil => exact ⟨[], by simp [assignments, product]⟩
  | cons q rest ih =>
      obtain ⟨v, hv⟩ := List.exists_mem_of_ne_nil _ (h q List.mem_cons_self)
      obtain ⟨l, hl⟩ := ih (fun q' hq' => h q' (List.mem_cons_of_mem _ hq'))
      exact ⟨(q.1, v) :: l, mem_assignments.mpr (.cons ⟨rfl, hv⟩ (mem_assignments.mp hl))⟩

/-- Every listed value of a key is in some assignment. -/
theorem exists_assignment_through {table : List (κ × List ν)} (h : ∀ q ∈ table, q.2 ≠ [])
    {q : κ × List ν} (hq : q ∈ table) {v : ν} (hv : v ∈ q.2) :
    ∃ l ∈ assignments table, (q.1, v) ∈ l := by
  induction table with
  | nil => cases hq
  | cons q' rest ih =>
      have hrest : ∀ q ∈ rest, q.2 ≠ [] := fun q hq => h q (List.mem_cons_of_mem _ hq)
      rcases List.mem_cons.mp hq with rfl | hq
      · obtain ⟨l, hl⟩ := exists_mem_assignments hrest
        exact ⟨(q.1, v) :: l, mem_assignments_cons.mpr ⟨v, hv, l, hl, rfl⟩, List.mem_cons_self⟩
      · obtain ⟨l, hl, hmem⟩ := ih hrest hq
        obtain ⟨v', hv'⟩ := List.exists_mem_of_ne_nil _ (h q' List.mem_cons_self)
        exact ⟨(q'.1, v') :: l, mem_assignments_cons.mpr ⟨v', hv', l, hl, rfl⟩,
          List.mem_cons_of_mem _ hmem⟩

/-- Choices along distinct keys are the values of a function of the keys. -/
theorem exists_map_iff [Inhabited ν] {r : ν → κ → Prop} {keys : List κ} (hnd : keys.Nodup)
    {values : List ν} : List.Forall₂ r values keys ↔
      ∃ g : κ → ν, values = keys.map g ∧ ∀ k ∈ keys, r (g k) k := by
  classical
  constructor
  · intro h
    induction h with
    | nil => exact ⟨fun _ => default, rfl, by simp⟩
    | @cons v k values keys hvk _ ih =>
        rw [List.nodup_cons] at hnd
        obtain ⟨g, rfl, hg⟩ := ih hnd.2
        have hne : ∀ k' ∈ keys, k' ≠ k := fun k' hk' heq => hnd.1 (heq ▸ hk')
        refine ⟨Function.update g k v, ?_, ?_⟩
        · rw [List.map_cons, Function.update_self]
          congr 1
          exact List.map_congr_left (fun k' hk' => (Function.update_of_ne (hne k' hk') _ _).symm)
        · intro k' hk'
          rcases List.mem_cons.mp hk' with rfl | hk'
          · rwa [Function.update_self]
          · rw [Function.update_of_ne (hne k' hk')]
            exact hg k' hk'
  · rintro ⟨g, rfl, hg⟩
    rw [List.forall₂_map_left_iff, List.forall₂_same]
    exact hg

/-- An assignment of a table that is a function of its keys. -/
theorem exists_assignment_map [Inhabited ν] {keys : List κ} (hnd : keys.Nodup) {f : κ → List ν}
    {P : List ν → Prop} :
    (∃ l ∈ assignments (keys.map (fun k => (k, f k))), P (l.map Prod.snd)) ↔
      ∃ g : κ → ν, (∀ k ∈ keys, g k ∈ f k) ∧ P (keys.map g) := by
  constructor
  · rintro ⟨l, hl, hP⟩
    rw [mem_assignments, List.forall₂_map_right_iff] at hl
    have hvalues : List.Forall₂ (fun v k => v ∈ f k) (l.map Prod.snd) keys := by
      rw [List.forall₂_map_left_iff]
      exact hl.imp (fun p k hpk => hpk.2)
    obtain ⟨g, heq, hg⟩ := (exists_map_iff hnd).mp hvalues
    exact ⟨g, hg, heq ▸ hP⟩
  · rintro ⟨g, hg, hP⟩
    refine ⟨keys.map (fun k => (k, g k)), ?_, ?_⟩
    · rw [mem_assignments, List.forall₂_map_left_iff, List.forall₂_map_right_iff, List.forall₂_same]
      exact fun k hk => ⟨rfl, hg k hk⟩
    · rw [List.map_map]
      exact hP

variable [DecidableEq κ] [DecidableEq ν]

/-- An assignment as a set of pairs is a choice of one listed value for every key. -/
theorem exists_assignment_iff {table : List (κ × List ν)} (hnd : (table.map Prod.fst).Nodup)
    {S : Finset (κ × ν)} : (∃ l ∈ assignments table, l.toFinset = S) ↔
      (∀ p ∈ S, ∃ q ∈ table, p.1 = q.1 ∧ p.2 ∈ q.2) ∧ (∀ q ∈ table, ∃ v, (q.1, v) ∈ S) ∧
      ∀ k v v', (k, v) ∈ S → (k, v') ∈ S → v = v' := by
  constructor
  · rintro ⟨l, hl, rfl⟩
    have hkeys : (l.map Prod.fst).Nodup := by rwa [keys_of_mem_assignments hl]
    refine ⟨fun p hp => table_of_mem hl (List.mem_toFinset.mp hp), fun q hq => ?_, ?_⟩
    · obtain ⟨p, hp, hk, -⟩ := value_of_mem hl hq
      exact ⟨p.2, by rw [← hk]; exact List.mem_toFinset.mpr hp⟩
    · intro k v v' hv hv'
      have heq := List.inj_on_of_nodup_map hkeys (List.mem_toFinset.mp hv)
        (List.mem_toFinset.mp hv') rfl
      exact (Prod.mk.inj heq).2
  · rintro ⟨hlisted, htotal, hunique⟩
    rcases isEmpty_or_nonempty ν with hempty | hne
    · -- no values, so no keys
      have htable : table = [] := by
        rw [List.eq_nil_iff_forall_not_mem]
        intro q hq
        obtain ⟨v, -⟩ := htotal q hq
        exact hempty.elim v
      subst htable
      refine ⟨[], by simp [assignments, product], ?_⟩
      ext p
      exact hempty.elim p.2
    choose! value hvalue using htotal
    refine ⟨table.map (fun q => (q.1, value q)), ?_, ?_⟩
    · rw [mem_assignments, List.forall₂_map_left_iff, List.forall₂_same]
      intro q hq
      obtain ⟨q', hq', hk, hv⟩ := hlisted _ (hvalue q hq)
      have heq : q = q' := List.inj_on_of_nodup_map hnd hq hq' hk
      exact ⟨rfl, heq ▸ hv⟩
    · ext ⟨k, v⟩
      rw [List.mem_toFinset, List.mem_map]
      constructor
      · rintro ⟨q, hq, heq⟩
        rw [← heq]
        exact hvalue q hq
      · intro hkv
        obtain ⟨q, hq, hk, -⟩ := hlisted _ hkv
        simp only at hk
        subst hk
        exact ⟨q, hq, by rw [hunique q.1 _ _ (hvalue q hq) hkv]⟩

/-- Different assignments are different sets of pairs. -/
theorem assignment_unique {table : List (κ × List ν)} (hnd : (table.map Prod.fst).Nodup)
    {l l' : List (κ × ν)} (hl : l ∈ assignments table) (hl' : l' ∈ assignments table)
    (h : l.toFinset = l'.toFinset) : l = l' := by
  have hkeys := keys_of_mem_assignments hl
  have hkeys' := keys_of_mem_assignments hl'
  have hnd' : (l'.map Prod.fst).Nodup := by rwa [hkeys']
  have hlen : l.length = l'.length := by
    have := congrArg List.length (hkeys.trans hkeys'.symm)
    simpa using this
  apply List.ext_getElem hlen
  intro i hi hi'
  have hmem : l[i] ∈ l' := by
    rw [← List.mem_toFinset, ← h, List.mem_toFinset]
    exact List.getElem_mem hi
  have hfst : l[i].1 = l'[i].1 := by
    have := congrArg (fun ks => ks[i]?) (hkeys.trans hkeys'.symm)
    simpa [hi, hi'] using this
  exact List.inj_on_of_nodup_map hnd' hmem (List.getElem_mem hi') hfst

omit [DecidableEq κ] [DecidableEq ν] in
theorem nodup_assignments {table : List (κ × List ν)} (h : ∀ q ∈ table, q.2.Nodup) :
    (assignments table).Nodup := by
  have hnd : (product (table.map Prod.snd)).Nodup := by
    apply nodup_product
    intro values hvalues
    obtain ⟨q, hq, rfl⟩ := List.mem_map.mp hvalues
    exact h q hq
  refine hnd.map_on ?_
  intro x hx y hy heq
  have hx' := (mem_product.mp hx).length_eq
  have hy' := (mem_product.mp hy).length_eq
  have hsnd := congrArg (List.map Prod.snd) heq
  rwa [List.map_snd_zip, List.map_snd_zip] at hsnd
  · simpa using hy'.le
  · simpa using hx'.le

omit [DecidableEq κ] [DecidableEq ν] in
theorem length_assignments (table : List (κ × List ν)) :
    (assignments table).length = (table.map (fun q => q.2.length)).prod := by
  rw [assignments, List.length_map, length_product, List.map_map]
  rfl

end Assignments

/-! ## Permutations -/

/-- Every element with the list that is left when it is taken out. -/
def picks : List α → List (α × List α)
  | [] => []
  | a :: l => (a, l) :: (picks l).map (fun p => (p.1, a :: p.2))

def permutationsFrom : Nat → List α → List (List α)
  | 0, _ => [[]]
  | n + 1, l => (picks l).flatMap (fun p => (permutationsFrom n p.2).map (fun l' => p.1 :: l'))

def permutations (l : List α) : List (List α) := permutationsFrom l.length l

theorem picks_perm {l rest : List α} {a : α} (h : (a, rest) ∈ picks l) : (a :: rest).Perm l := by
  induction l generalizing a rest with
  | nil => cases h
  | cons b l ih =>
      rcases List.mem_cons.mp h with heq | hmem
      · cases heq
        exact List.Perm.refl _
      · obtain ⟨⟨a', rest'⟩, hp, heq⟩ := List.mem_map.mp hmem
        cases heq
        exact (List.Perm.swap _ _ _).trans ((ih hp).cons b)

theorem map_fst_picks (l : List α) : (picks l).map Prod.fst = l := by
  induction l with
  | nil => rfl
  | cons a l ih =>
      rw [picks, List.map_cons, List.map_map]
      exact congrArg (a :: ·) ih

theorem mem_permutationsFrom {n : Nat} {l l' : List α} (hn : l.length = n) :
    l' ∈ permutationsFrom n l ↔ l'.Perm l := by
  induction n generalizing l l' with
  | zero =>
      rw [List.length_eq_zero_iff] at hn
      subst hn
      simp [permutationsFrom]
  | succ n ih =>
      have hlen : ∀ {a rest}, (a, rest) ∈ picks l → rest.length = n := by
        intro a rest h
        have := (picks_perm h).length_eq
        rw [List.length_cons, hn] at this
        omega
      simp only [permutationsFrom, List.mem_flatMap, List.mem_map, Prod.exists]
      constructor
      · rintro ⟨a, rest, hp, l₀, hl₀, rfl⟩
        exact (((ih (hlen hp)).mp hl₀).cons a).trans (picks_perm hp)
      · intro hperm
        cases l' with
        | nil =>
            have := hperm.length_eq
            rw [hn] at this
            cases this
        | cons a l₀ =>
            have hmem : a ∈ (picks l).map Prod.fst := by
              rw [map_fst_picks]
              exact hperm.subset List.mem_cons_self
            obtain ⟨⟨a', rest⟩, hp, heq⟩ := List.mem_map.mp hmem
            subst heq
            refine ⟨a', rest, hp, l₀, ?_, rfl⟩
            rw [ih (hlen hp)]
            exact (hperm.trans (picks_perm hp).symm).cons_inv

theorem mem_permutations {l l' : List α} : l' ∈ permutations l ↔ l'.Perm l :=
  mem_permutationsFrom rfl

theorem nodup_permutationsFrom {n : Nat} {l : List α} (h : l.Nodup) :
    (permutationsFrom n l).Nodup := by
  induction n generalizing l with
  | zero => simp [permutationsFrom]
  | succ n ih =>
      rw [permutationsFrom, List.nodup_flatMap]
      constructor
      · rintro ⟨a, rest⟩ hp
        have hrest : rest.Nodup := ((picks_perm hp).nodup_iff.mpr h).of_cons
        exact (ih hrest).map (fun _ _ heq => (List.cons.inj heq).2)
      · have hfst : (picks l).Pairwise (fun p q => p.1 ≠ q.1) := by
          rw [← List.pairwise_map, map_fst_picks]
          exact h
        refine hfst.imp ?_
        intro p q hpq l' hl hl'
        obtain ⟨_, -, rfl⟩ := List.mem_map.mp hl
        obtain ⟨_, -, heq⟩ := List.mem_map.mp hl'
        exact hpq (List.cons.inj heq).1.symm

theorem nodup_permutations {l : List α} (h : l.Nodup) : (permutations l).Nodup :=
  nodup_permutationsFrom h

/-! ## Indexes -/

theorem mem_zipIdx_fst {γ : Type} {l : List γ} {c : γ} : (∃ q ∈ l.zipIdx, q.1 = c) ↔ c ∈ l := by
  constructor
  · rintro ⟨q, hq, rfl⟩
    exact List.fst_mem_of_mem_zipIdx hq
  · intro h
    obtain ⟨i, hi, rfl⟩ := List.mem_iff_getElem.mp h
    exact ⟨(l[i], i), List.mk_mem_zipIdx_iff_getElem?.mpr (by simp), rfl⟩

/-! ## Picking from a pool by class -/

section Picks

variable {γ δ : Type*}

theorem map_eq_of_forall₂ {f : γ → δ} {ks : List δ} {l : List γ}
    (h : List.Forall₂ (fun k a => f a = k) ks l) : l.map f = ks := by
  induction h with
  | nil => rfl
  | cons ha _ ih => rw [List.map_cons, ha, ih]

variable [DecidableEq δ]

/-- Elements of given classes can be picked from a pool, no element twice, when the pool has
enough of every class. -/
theorem exists_picks {f : γ → δ} {pool : List γ} {ks : List δ}
    (hcount : ∀ k, ks.count k ≤ (pool.map f).count k) :
    ∃ picks : List γ, picks.map f = ks ∧ picks.Subperm pool := by
  obtain ⟨l, hperm, hsub⟩ : ks.Subperm (pool.map f) :=
    List.subperm_ext_iff.mpr (fun k _ => hcount k)
  obtain ⟨l', hl', rfl⟩ := List.sublist_map_iff.mp hsub
  -- the picked elements come in the order of the pool; bring them into that of the classes
  have hsame : List.Forall₂ (fun k a => f a = k) (l'.map f) l' := by
    rw [List.forall₂_map_left_iff, List.forall₂_same]
    exact fun _ _ => rfl
  obtain ⟨picks, hpicks, hperm'⟩ := List.perm_comp_forall₂ hperm.symm hsame
  exact ⟨picks, map_eq_of_forall₂ hpicks, l', hperm'.symm, hl'⟩

/-- Likewise with a certain element among those picked. -/
theorem exists_picks_through [DecidableEq γ] {f : γ → δ} {pool : List γ} {ks : List δ} {s : γ} (hs : s ∈ pool)
    (hk : f s ∈ ks) (hcount : ∀ k, ks.count k ≤ (pool.map f).count k) :
    ∃ picks : List γ, picks.map f = ks ∧ picks.Subperm pool ∧ s ∈ picks := by
  have hpool : pool.Perm (s :: pool.erase s) := List.perm_cons_erase hs
  have hks : ks.Perm (f s :: ks.erase (f s)) := List.perm_cons_erase hk
  have hrest : ∀ k, (ks.erase (f s)).count k ≤ ((pool.erase s).map f).count k := by
    intro k
    have h := hcount k
    rw [hks.count_eq, (hpool.map f).count_eq, List.map_cons, List.count_cons, List.count_cons] at h
    omega
  obtain ⟨picks, hpicks, hsub⟩ := exists_picks hrest
  have hsame : List.Forall₂ (fun k a => f a = k) (f s :: ks.erase (f s)) (s :: picks) := by
    rw [← hpicks, ← List.map_cons, List.forall₂_map_left_iff, List.forall₂_same]
    exact fun _ _ => rfl
  obtain ⟨picks', hpicks', hperm⟩ := List.perm_comp_forall₂ hks hsame
  refine ⟨picks', map_eq_of_forall₂ hpicks', ?_, hperm.mem_iff.mpr List.mem_cons_self⟩
  exact hperm.subperm.trans ((List.subperm_cons s).mpr hsub |>.trans hpool.symm.subperm)

theorem count_le_of_picks {f : γ → δ} {pool picks : List γ} (h : picks.Subperm pool) (k : δ) :
    (picks.map f).count k ≤ (pool.map f).count k := by
  obtain ⟨l, hperm, hsub⟩ := h
  rw [← (hperm.map f).count_eq]
  exact (hsub.map f).count_le k
end Picks

end Choice
