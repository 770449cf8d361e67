import Mathlib.Data.List.Chain
import Mathlib.Tactic

/-!
# Lists with gaps

A list in which some elements have a key. The keys are sorted when each is
related to the next one, with elements without a key in between.

* `pairwise_filterMap_iff`: the keys are sorted, from the two sides of each gap.
-/

namespace Gaps

variable {α β : Type*} {r : β → β → Prop} {key : α → Option β}

/-- The two sides of every run of elements without a key are related. -/
def Related (r : β → β → Prop) (key : α → Option β) (l : List α) : Prop :=
  ∀ before a gap b after x y, l = before ++ a :: (gap ++ b :: after) →
    (∀ c ∈ gap, key c = none) → key a = some x → key b = some y → r x y

theorem related_nil : Related r key [] := by
  intro before a gap b after x y h
  simp at h

theorem related_cons {c : α} {l : List α} : Related r key (c :: l) ↔
    Related r key l ∧ ∀ x y gap b after, key c = some x → l = gap ++ b :: after →
      (∀ d ∈ gap, key d = none) → key b = some y → r x y := by
  constructor
  · intro h
    refine ⟨fun before a gap b after x y hl => ?_, fun x y gap b after hx hl hgap hy => ?_⟩
    · exact h (c :: before) a gap b after x y (by rw [hl, List.cons_append])
    · exact h [] c gap b after x y (by rw [hl, List.nil_append]) hgap hx hy
  · rintro ⟨hrest, hfirst⟩ before a gap b after x y hl hgap hx hy
    rcases before with _ | ⟨d, before⟩
    · rw [List.nil_append, List.cons.injEq] at hl
      rcases hl with ⟨rfl, hl⟩
      exact hfirst x y gap b after hx hl hgap hy
    · rw [List.cons_append, List.cons.injEq] at hl
      exact hrest before a gap b after x y hl.2 hgap hx hy

theorem isChain_filterMap_iff {l : List α} :
    (l.filterMap key).IsChain r ↔ Related r key l := by
  induction l with
  | nil => simp [related_nil]
  | cons c l ih =>
      rw [related_cons, ← ih]
      cases hc : key c with
      | none =>
          rw [List.filterMap_cons_none hc]
          simp
      | some x =>
          rw [List.filterMap_cons_some hc]
          cases hkeys : l.filterMap key with
          | nil =>
              -- nothing behind has a key
              refine ⟨fun _ => ⟨List.isChain_nil, ?_⟩, fun _ => List.isChain_singleton x⟩
              intro x' y gap b after _ hl _ hy
              rw [List.filterMap_eq_nil_iff] at hkeys
              have hnone := hkeys b (by simp [hl])
              rw [hy] at hnone
              cases hnone
          | cons y ys =>
              rw [List.isChain_cons_cons]
              obtain ⟨gap, b, after, hl, hgap, hy, -⟩ := List.filterMap_eq_cons_iff.mp hkeys
              constructor
              · rintro ⟨hxy, hchain⟩
                refine ⟨hchain, ?_⟩
                intro x' y' gap' b' after' hx' hl' hgap' hy'
                cases hx'
                -- the key found behind the gap is the first one
                have hcons : l.filterMap key = y' :: after'.filterMap key :=
                  List.filterMap_eq_cons_iff.mpr ⟨gap', b', after', hl', hgap', hy', rfl⟩
                rw [hkeys] at hcons
                obtain ⟨rfl, -⟩ := List.cons.inj hcons
                exact hxy
              · rintro ⟨hchain, hfirst⟩
                exact ⟨hfirst x y gap b after rfl hl hgap hy, hchain⟩

/-- For a transitive relation the keys are sorted. -/
theorem pairwise_filterMap_iff [IsTrans β r] {l : List α} :
    (l.filterMap key).Pairwise r ↔ Related r key l := by
  rw [← List.isChain_iff_pairwise, isChain_filterMap_iff]

end Gaps
