import Umcm.Data.Name
import Mathlib.Logic.Relation
import Mathlib.Order.WellFounded
import Mathlib.Data.Finset.Card
import Mathlib.Data.Fintype.Card
import Mathlib.Data.List.Basic
import Mathlib.Data.List.Nodup
import Mathlib.Tactic

/-!
# Acyclic relations and linear extensions

General facts about acyclic relations: how acyclicity follows from a strict
order that contains the relation, why a nonempty finite set has a source, and
how a list without repetition orders its elements.
-/

namespace FinOrder

open Relation

variable {α : Type*} {r s : α → α → Prop}

/-- No element reaches itself by one or more steps of `r`. -/
def Acyclic (r : α → α → Prop) : Prop := ∀ a, ¬ TransGen r a a

theorem Acyclic.mono (hs : Acyclic s) (h : ∀ a b, r a b → s a b) : Acyclic r := by
  intro a ha
  exact hs a (TransGen.mono h a a ha)

/-- A relation inside an irreflexive transitive one has no cycle. -/
theorem acyclic_of_subrelation (h : ∀ a b, r a b → s a b)
    (hirr : ∀ a, ¬ s a a) (htrans : ∀ a b c, s a b → s b c → s a c) : Acyclic r := by
  intro a ha
  have hs : ∀ b, TransGen r a b → s a b := by
    intro b hb
    induction hb with
    | single hab => exact h _ _ hab
    | tail _ hbc ih => exact htrans _ _ _ ih (h _ _ hbc)
  exact hirr a (hs a ha)

/-- A relation along which a rank strictly grows has no cycle. -/
theorem acyclic_of_rank {β : Type*} [Preorder β] (rank : α → β)
    (h : ∀ a b, r a b → rank a < rank b) : Acyclic r :=
  acyclic_of_subrelation (s := fun a b => rank a < rank b) h
    (fun a => lt_irrefl (rank a)) (fun _ _ _ => lt_trans)

theorem Acyclic.irrefl (h : Acyclic r) (a : α) : ¬ r a a :=
  fun ha => h a (TransGen.single ha)

/-- Every nonempty finite set has an element with no predecessor inside it. -/
theorem Acyclic.exists_source (h : Acyclic r) (S : Finset α) (hS : S.Nonempty) :
    ∃ a ∈ S, ∀ b ∈ S, ¬ r b a := by
  classical
  have : IsTrans S (fun a b => TransGen r a.1 b.1) := ⟨fun _ _ _ => TransGen.trans⟩
  have : Std.Irrefl (fun a b : S => TransGen r a.1 b.1) := ⟨fun a => h a.1⟩
  have hwf : WellFounded (fun a b : S => TransGen r a.1 b.1) :=
    Finite.wellFounded_of_trans_of_irrefl _
  obtain ⟨x, hx⟩ := hS
  obtain ⟨m, -, hm⟩ := hwf.has_min Set.univ ⟨⟨x, hx⟩, trivial⟩
  refine ⟨m.1, m.2, ?_⟩
  intro b hb hrel
  exact hm ⟨b, hb⟩ trivial (TransGen.single hrel)

/-- The closed chain `a, …, a` of `r` exhibits a cycle. -/
theorem transGen_of_isChain {a b : α} {l : List α} (h : List.IsChain r (a :: (l ++ [b]))) :
    TransGen r a b := by
  induction l generalizing a with
  | nil =>
      have hab : r a b := by simpa using h
      exact TransGen.single hab
  | cons c l ih =>
      have hac : r a c := by
        have h' : List.IsChain r (a :: c :: (l ++ [b])) := by simpa using h
        exact (List.isChain_cons_cons.mp h').1
      have hcb : TransGen r c b := by
        have h' : List.IsChain r (a :: c :: (l ++ [b])) := by simpa using h
        exact ih (List.isChain_cons_cons.mp h').2
      exact TransGen.head hac hcb

/-- A relation that lives on the image of an injective map is acyclic exactly
when its preimage is. -/
theorem acyclic_preimage_iff {β : Type*} {f : β → α} (hf : Function.Injective f)
    (hedges : ∀ x y, r x y → ∃ a b, x = f a ∧ y = f b) :
    Acyclic (fun a b => r (f a) (f b)) ↔ Acyclic r := by
  constructor
  · intro h x hx
    have hlift : ∀ {a y}, TransGen r (f a) y →
        ∃ b, y = f b ∧ TransGen (fun a b => r (f a) (f b)) a b := by
      intro a y hy
      induction hy with
      | single hay =>
          obtain ⟨-, b, -, rfl⟩ := hedges _ _ hay
          exact ⟨b, rfl, TransGen.single hay⟩
      | tail _ hyz ih =>
          obtain ⟨b, rfl, hab⟩ := ih
          obtain ⟨-, c, -, rfl⟩ := hedges _ _ hyz
          exact ⟨c, rfl, TransGen.tail hab hyz⟩
    obtain ⟨y, hxy, -⟩ := TransGen.head'_iff.mp hx
    obtain ⟨a, -, rfl, -⟩ := hedges _ _ hxy
    obtain ⟨b, hb, hab⟩ := hlift hx
    rw [← hf hb] at hab
    exact h a hab
  · intro h a ha
    exact h (f a) (TransGen.lift f (fun _ _ hab => hab) _ _ ha)

/-! ## The order of a list -/

section Precedes

variable [DecidableEq α] {l : List α} {a b c : α}

/-- `a` stands before `b` in `l`, both being elements of `l`. -/
def Precedes (l : List α) (a b : α) : Prop :=
  a ∈ l ∧ b ∈ l ∧ l.idxOf a < l.idxOf b

instance (l : List α) (a b : α) : Decidable (Precedes l a b) :=
  inferInstanceAs (Decidable (_ ∧ _ ∧ _))

theorem Precedes.irrefl (l : List α) (a : α) : ¬ Precedes l a a :=
  fun h => Nat.lt_irrefl _ h.2.2

theorem Precedes.trans (hab : Precedes l a b) (hbc : Precedes l b c) : Precedes l a c :=
  ⟨hab.1, hbc.2.1, Nat.lt_trans hab.2.2 hbc.2.2⟩

theorem Precedes.asymm (hab : Precedes l a b) : ¬ Precedes l b a :=
  fun hba => Precedes.irrefl l a (hab.trans hba)

theorem precedes_total (ha : a ∈ l) (hb : b ∈ l) (hne : a ≠ b) :
    Precedes l a b ∨ Precedes l b a := by
  rcases Nat.lt_trichotomy (l.idxOf a) (l.idxOf b) with hlt | heq | hgt
  · exact Or.inl ⟨ha, hb, hlt⟩
  · exact absurd ((List.idxOf_inj ha).mp heq) hne
  · exact Or.inr ⟨hb, ha, hgt⟩

/-- An element of a prefix stands before every element outside of it. -/
theorem precedes_append {l₁ l₂ : List α} (ha : a ∈ l₁) (hb : b ∈ l₂) (hb' : b ∉ l₁) :
    Precedes (l₁ ++ l₂) a b := by
  refine ⟨List.mem_append_left _ ha, List.mem_append_right _ hb, ?_⟩
  rw [List.idxOf_append_of_mem ha, List.idxOf_append_of_notMem hb']
  have hlt := List.idxOf_lt_length_of_mem ha
  omega

/-- Appending to a list keeps the order of its elements. -/
theorem Precedes.append (h : Precedes l a b) (l₂ : List α) : Precedes (l ++ l₂) a b := by
  refine ⟨List.mem_append_left _ h.1, List.mem_append_left _ h.2.1, ?_⟩
  rw [List.idxOf_append_of_mem h.1, List.idxOf_append_of_mem h.2.1]
  exact h.2.2

/-- `l` lists the elements of `S` once each and orders them along `r`. -/
structure LinearExtension (r : α → α → Prop) (S : Finset α) (l : List α) : Prop where
  nodup : l.Nodup
  mem_iff : ∀ a, a ∈ l ↔ a ∈ S
  extends_rel : ∀ a b, r a b → Precedes l a b

/-- A relation that has a linear extension has no cycle. -/
theorem LinearExtension.acyclic {S : Finset α} (h : LinearExtension r S l) : Acyclic r :=
  acyclic_of_subrelation h.extends_rel (Precedes.irrefl l) (fun _ _ _ => Precedes.trans)

/-- Every element paired with every later one. -/
def orderedPairs : List α → List (α × α)
  | [] => []
  | a :: rest => rest.map (fun b => (a, b)) ++ orderedPairs rest

omit [DecidableEq α] in
theorem mem_of_mem_orderedPairs (h : (a, b) ∈ orderedPairs l) : a ∈ l ∧ b ∈ l := by
  induction l with
  | nil => cases h
  | cons x rest ih =>
      rcases List.mem_append.mp h with h | h
      · obtain ⟨y, hy, heq⟩ := List.mem_map.mp h
        cases heq
        exact ⟨List.mem_cons_self, List.mem_cons_of_mem _ hy⟩
      · exact ⟨List.mem_cons_of_mem _ (ih h).1, List.mem_cons_of_mem _ (ih h).2⟩

omit [DecidableEq α] in
theorem orderedPairs_total (ha : a ∈ l) (hb : b ∈ l) (hne : a ≠ b) :
    (a, b) ∈ orderedPairs l ∨ (b, a) ∈ orderedPairs l := by
  induction l with
  | nil => cases ha
  | cons x rest ih =>
      simp only [orderedPairs, List.mem_append, List.mem_map, Prod.mk.injEq]
      rcases List.mem_cons.mp ha with rfl | ha'
      · rcases List.mem_cons.mp hb with rfl | hb'
        · exact absurd rfl hne
        · exact Or.inl (Or.inl ⟨b, hb', rfl, rfl⟩)
      · rcases List.mem_cons.mp hb with rfl | hb'
        · exact Or.inr (Or.inl ⟨a, ha', rfl, rfl⟩)
        · exact (ih ha' hb').imp Or.inr Or.inr

omit [DecidableEq α] in
theorem rel_of_mem_orderedPairs (h : l.Pairwise r) (hab : (a, b) ∈ orderedPairs l) : r a b := by
  induction h with
  | nil => cases hab
  | cons hx _ ih =>
      rcases List.mem_append.mp hab with hab | hab
      · obtain ⟨y, hy, heq⟩ := List.mem_map.mp hab
        cases heq
        exact hx _ hy
      · exact ih hab

theorem mem_orderedPairs (hnd : l.Nodup) : (a, b) ∈ orderedPairs l ↔ Precedes l a b := by
  have hto : ∀ {x y}, (x, y) ∈ orderedPairs l → Precedes l x y := by
    intro x y hxy
    have hpw : l.Pairwise (Precedes l) := by
      rw [List.pairwise_iff_getElem]
      intro i j hi hj hij
      refine ⟨List.getElem_mem hi, List.getElem_mem hj, ?_⟩
      rwa [hnd.idxOf_getElem, hnd.idxOf_getElem]
    exact rel_of_mem_orderedPairs hpw hxy
  constructor
  · exact hto
  · intro h
    have hne : a ≠ b := by
      rintro rfl
      exact Precedes.irrefl l a h
    rcases orderedPairs_total h.1 h.2.1 hne with hab | hba
    · exact hab
    · exact absurd (hto hba) h.asymm

/-- A symmetric property of all pairs does not depend on the order. -/
theorem forall_orderedPairs_of_perm {l' : List α} {p : α → α → Prop} (hnd : l.Nodup)
    (hperm : l.Perm l') (hsymm : ∀ a b, p a b → p b a) (h : ∀ q ∈ orderedPairs l, p q.1 q.2) :
    ∀ q ∈ orderedPairs l', p q.1 q.2 := by
  intro ⟨a, b⟩ hq
  have hprecedes := (mem_orderedPairs (hperm.nodup_iff.mp hnd)).mp hq
  have hne : a ≠ b := by
    rintro rfl
    exact Precedes.irrefl l' a hprecedes
  have ha : a ∈ l := hperm.mem_iff.mpr hprecedes.1
  have hb : b ∈ l := hperm.mem_iff.mpr hprecedes.2.1
  rcases orderedPairs_total ha hb hne with hab | hba
  · exact h (a, b) hab
  · exact hsymm b a (h (b, a) hba)

end Precedes

end FinOrder
