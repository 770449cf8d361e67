import Umcm.Order.Acyclic

/-!
# Linear orders of disjoint blocks

A strict order that is total inside each of several disjoint blocks and has no
edges between them is the same as one listing of every block. `pairsOf` are the
edges of such a family of listings; `exists_listing` and `listing_unique` are
the two directions.
-/

namespace FinOrder

variable {α : Type*} [DecidableEq α]

/-- The edges of a family of listings. -/
def pairsOf (listings : List (List α)) : Finset (α × α) := (listings.flatMap orderedPairs).toFinset

theorem mem_pairsOf {listings : List (List α)} {a b : α} :
    (a, b) ∈ pairsOf listings ↔ ∃ l ∈ listings, (a, b) ∈ orderedPairs l := by
  simp [pairsOf]

/-- A relation that is a strict total order on the elements of a list sorts it. -/
theorem exists_sorted {r : α → α → Prop} {l : List α} (hnd : l.Nodup)
    (hirr : ∀ a ∈ l, ¬ r a a) (htrans : ∀ a ∈ l, ∀ b ∈ l, ∀ c ∈ l, r a b → r b c → r a c)
    (htotal : ∀ a ∈ l, ∀ b ∈ l, a ≠ b → r a b ∨ r b a) :
    ∃ l' : List α, l'.Perm l ∧ l'.Pairwise r := by
  classical
  -- sort by the number of elements below
  let rank : α → Nat := fun a => (l.toFinset.filter (fun b => r b a)).card
  have hrank : ∀ a ∈ l, ∀ b ∈ l, r a b → rank a < rank b := by
    intro a ha b hb hab
    apply Finset.card_lt_card
    rw [Finset.ssubset_iff_of_subset]
    · exact ⟨a, by simp [ha, hab], by simp [hirr a ha]⟩
    · intro c hc
      rw [Finset.mem_filter, List.mem_toFinset] at hc ⊢
      exact ⟨hc.1, htrans c hc.1 a ha b hb hc.2 hab⟩
  refine ⟨l.insertionSort (fun a b => rank a ≤ rank b), List.perm_insertionSort _ _, ?_⟩
  have htot : Std.Total (fun a b : α => rank a ≤ rank b) := ⟨fun a b => Nat.le_total _ _⟩
  have htr : IsTrans α (fun a b => rank a ≤ rank b) := ⟨fun _ _ _ => Nat.le_trans⟩
  have hsorted := List.pairwise_insertionSort (fun a b => rank a ≤ rank b) l
  have hnodup : (l.insertionSort (fun a b => rank a ≤ rank b)).Nodup :=
    (List.perm_insertionSort _ _).nodup_iff.mpr hnd
  refine (hsorted.and hnodup).imp_of_mem ?_
  rintro a b ha hb ⟨hle, hne⟩
  rw [List.mem_insertionSort] at ha hb
  rcases htotal a ha b hb hne with h | h
  · exact h
  · exact absurd hle (Nat.not_le.mpr (hrank b hb a ha h))

theorem pairwise_orderedPairs {l : List α} (hnd : l.Nodup) :
    l.Pairwise (fun a b => (a, b) ∈ orderedPairs l) := by
  rw [List.pairwise_iff_getElem]
  intro i j hi hj hij
  rw [mem_orderedPairs hnd]
  refine ⟨List.getElem_mem hi, List.getElem_mem hj, ?_⟩
  rwa [hnd.idxOf_getElem, hnd.idxOf_getElem]

/-- A listing is determined by its elements and its edges. -/
theorem eq_of_pairs_subset {l l' : List α} (hnd : l.Nodup) (hperm : l'.Perm l)
    (h : ∀ a b, (a, b) ∈ orderedPairs l' → (a, b) ∈ orderedPairs l) : l' = l := by
  have hnd' : l'.Nodup := hperm.nodup_iff.mpr hnd
  have hanti : ∀ a b, a ∈ l' → b ∈ l → (a, b) ∈ orderedPairs l → (b, a) ∈ orderedPairs l → a = b := by
    intro a b _ _ hab hba
    rw [mem_orderedPairs hnd] at hab hba
    exact absurd hba hab.asymm
  have hsorted' : l'.Pairwise (fun a b => (a, b) ∈ orderedPairs l) :=
    (pairwise_orderedPairs hnd').imp (fun hab => h _ _ hab)
  exact List.Perm.eq_of_pairwise hanti hsorted' (pairwise_orderedPairs hnd) hperm

/-- Blocks: duplicate-free lists without common elements. -/
structure Blocks (blocks : List (List α)) : Prop where
  nodup : ∀ l ∈ blocks, l.Nodup
  disjoint : blocks.Pairwise List.Disjoint

omit [DecidableEq α] in
theorem Blocks.tail {l : List α} {rest : List (List α)} (h : Blocks (l :: rest)) : Blocks rest :=
  ⟨fun l' hl' => h.nodup l' (List.mem_cons_of_mem _ hl'), (List.pairwise_cons.mp h.disjoint).2⟩

omit [DecidableEq α] in
/-- The listings of the other blocks have no elements of the first. -/
theorem notMem_of_disjoint {l : List α} {rest listings : List (List α)}
    (h : ∀ l' ∈ rest, List.Disjoint l l') (hperm : List.Forall₂ List.Perm listings rest) {a : α}
    (ha : a ∈ l) : ∀ l' ∈ listings, a ∉ l' := by
  induction hperm with
  | nil => simp
  | cons hp _ ih =>
      intro l' hl' hmem
      rcases List.mem_cons.mp hl' with rfl | hl'
      · exact h _ List.mem_cons_self ha (hp.subset hmem)
      · exact ih (fun l₁ hl₁ => h l₁ (List.mem_cons_of_mem _ hl₁)) l' hl' hmem

/-- Two families of listings of the same blocks with the same edges are equal. -/
theorem listing_unique {blocks listings listings' : List (List α)} (hb : Blocks blocks)
    (h : List.Forall₂ List.Perm listings blocks) (h' : List.Forall₂ List.Perm listings' blocks)
    (heq : pairsOf listings = pairsOf listings') : listings = listings' := by
  induction h generalizing listings' with
  | nil =>
      cases h'
      rfl
  | @cons l block listings blocks hp hrest ih =>
      obtain - | ⟨hp', hrest'⟩ := h'
      rename_i l' listings'
      have hdisj := (List.pairwise_cons.mp hb.disjoint).1
      have hndb := hb.nodup block List.mem_cons_self
      have hmem : ∀ a b, (a, b) ∈ pairsOf (l :: listings) ↔ (a, b) ∈ pairsOf (l' :: listings') := by
        intro a b
        rw [heq]
      simp only [mem_pairsOf, List.exists_mem_cons_iff] at hmem
      have houtside : ∀ a b, a ∈ block → ¬ ∃ l₁ ∈ listings, (a, b) ∈ orderedPairs l₁ := by
        rintro a b ha ⟨l₁, hl₁, hpair⟩
        exact notMem_of_disjoint hdisj hrest ha l₁ hl₁ (mem_of_mem_orderedPairs hpair).1
      have houtside' : ∀ a b, a ∈ block → ¬ ∃ l₁ ∈ listings', (a, b) ∈ orderedPairs l₁ := by
        rintro a b ha ⟨l₁, hl₁, hpair⟩
        exact notMem_of_disjoint hdisj hrest' ha l₁ hl₁ (mem_of_mem_orderedPairs hpair).1
      have hhead : l = l' := by
        refine eq_of_pairs_subset (hp'.nodup_iff.mpr hndb) (hp.trans hp'.symm) ?_
        intro a b hab
        have ha : a ∈ block := hp.subset (mem_of_mem_orderedPairs hab).1
        exact ((hmem a b).mp (Or.inl hab)).resolve_right (houtside' a b ha)
      subst hhead
      have htail : listings = listings' := by
        apply ih hb.tail hrest'
        ext ⟨a, b⟩
        rw [mem_pairsOf, mem_pairsOf]
        by_cases ha : a ∈ block
        · exact ⟨fun hx => absurd hx (houtside a b ha), fun hx => absurd hx (houtside' a b ha)⟩
        · have hnot : ¬ (a, b) ∈ orderedPairs l :=
            fun hab => ha (hp.subset (mem_of_mem_orderedPairs hab).1)
          have hiff := hmem a b
          simpa [hnot] using hiff
      rw [htail]

/-- A relation that is a strict total order on every block is the edges of a
family of listings, as far as the blocks go. -/
theorem exists_listing {r : α → α → Prop} {blocks : List (List α)} (hb : Blocks blocks)
    (hirr : ∀ a, ¬ r a a) (htrans : ∀ a b c, r a b → r b c → r a c)
    (htotal : ∀ l ∈ blocks, ∀ a ∈ l, ∀ b ∈ l, a ≠ b → r a b ∨ r b a) :
    ∃ listings, List.Forall₂ List.Perm listings blocks ∧ ∀ a b, (a, b) ∈ pairsOf listings ↔
      r a b ∧ ∃ l ∈ blocks, a ∈ l ∧ b ∈ l := by
  induction blocks with
  | nil => exact ⟨[], .nil, by simp [pairsOf]⟩
  | cons block rest ih =>
      obtain ⟨listings, hperm, hpairs⟩ := ih hb.tail
        (fun l hl => htotal l (List.mem_cons_of_mem _ hl))
      obtain ⟨l, hl, hsorted⟩ := exists_sorted (hb.nodup block List.mem_cons_self)
        (fun a _ => hirr a) (fun a _ b _ c _ => htrans a b c) (htotal block List.mem_cons_self)
      refine ⟨l :: listings, .cons hl hperm, ?_⟩
      intro a b
      have hhead : (a, b) ∈ orderedPairs l ↔ r a b ∧ a ∈ block ∧ b ∈ block := by
        constructor
        · intro hab
          obtain ⟨ha, hb'⟩ := mem_of_mem_orderedPairs hab
          exact ⟨rel_of_mem_orderedPairs hsorted hab, hl.subset ha, hl.subset hb'⟩
        · rintro ⟨hab, ha, hb'⟩
          have hne : a ≠ b := by
            rintro rfl
            exact hirr a hab
          rcases orderedPairs_total (hl.symm.subset ha) (hl.symm.subset hb') hne with h | h
          · exact h
          · exact absurd (htrans a b a hab (rel_of_mem_orderedPairs hsorted h)) (hirr a)
      have htail := hpairs a b
      rw [mem_pairsOf] at htail ⊢
      rw [List.exists_mem_cons_iff, hhead, htail, List.exists_mem_cons_iff, ← and_or_left]

end FinOrder
