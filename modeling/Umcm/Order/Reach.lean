import Umcm.Order.Acyclic

/-!
# Reachability by a worklist

Collect what is reachable from a stack of nodes by popping a node, skipping it
if it was seen, and pushing its successors otherwise. `mem_reachable_iff`: from
the successors of a node it collects exactly the nodes reachable in one or more
steps.
-/

namespace Reach

open Relation

variable {α : Type*} [DecidableEq α]

/-- The worklist loop; the head of the list is the top of the stack. -/
def close (succ : α → List α) : Nat → List α → Finset α → Finset α
  | 0, _, seen => seen
  | _ + 1, [], seen => seen
  | fuel + 1, target :: stack, seen =>
    if target ∈ seen then close succ fuel stack seen
    else close succ fuel ((succ target).reverse ++ stack) (insert target seen)

/-- Every node listed in `nodes` pushes its successors at most once, after the
initial push from the root. -/
def pushes (succ : α → List α) (nodes : List α) : Nat :=
  (nodes.map (fun x => (succ x).length)).sum

/-- What is reachable from `root` in one or more steps inside `nodes`. -/
def reachable (succ : α → List α) (nodes : List α) (root : α) : Finset α :=
  close succ ((succ root).length + pushes succ nodes) (succ root).reverse ∅

/-- There is an edge from `a` to `b`. -/
def Edge (succ : α → List α) (a b : α) : Prop := b ∈ succ a

variable {succ : α → List α} {nodes : List α}

theorem pushes_split (succ : α → List α) (hnodes : nodes.Nodup) {target : α} (hmem : target ∈ nodes)
    {seen : Finset α} (hnot : target ∉ seen) :
    pushes succ (nodes.filter (fun x => x ∉ seen)) =
      (succ target).length + pushes succ (nodes.filter (fun x => x ∉ insert target seen)) := by
  have hin : target ∈ nodes.filter (fun x => x ∉ seen) := by simp [hmem, hnot]
  have hperm := List.perm_cons_erase hin
  have herase : (nodes.filter (fun x => x ∉ seen)).erase target =
      nodes.filter (fun x => x ∉ insert target seen) := by
    rw [(hnodes.filter _).erase_eq_filter, List.filter_filter]
    apply List.filter_congr
    intro x _
    by_cases hx : x = target <;> by_cases hs : x ∈ seen <;> simp [hx, hs]
  unfold pushes
  rw [(hperm.map _).sum_eq, herase]
  simp

/-- The collected set contains the stack and is closed under successors, and it
contains nothing that is not reachable from the stack or already seen. -/
theorem close_spec (hnodes : nodes.Nodup) (hclosed : ∀ x ∈ nodes, ∀ y ∈ succ x, y ∈ nodes) :
    ∀ (fuel : Nat) (stack : List α) (seen : Finset α), (∀ x ∈ stack, x ∈ nodes) →
      stack.length + pushes succ (nodes.filter (fun x => x ∉ seen)) ≤ fuel →
      (∀ x ∈ seen, ∀ y ∈ succ x, y ∈ seen ∨ y ∈ stack) →
      (∀ x ∈ seen, x ∈ close succ fuel stack seen) ∧
      (∀ x ∈ stack, x ∈ close succ fuel stack seen) ∧
      (∀ x ∈ close succ fuel stack seen, ∀ y ∈ succ x, y ∈ close succ fuel stack seen) ∧
      ∀ x ∈ close succ fuel stack seen,
        x ∈ seen ∨ ∃ y ∈ stack, ReflTransGen (Edge succ) y x := by
  intro fuel
  induction fuel with
  | zero =>
      intro stack seen _ hfuel hinv
      have hstack : stack = [] := List.length_eq_zero_iff.mp (by omega)
      subst hstack
      refine ⟨fun x hx => hx, by simp, ?_, fun x hx => Or.inl hx⟩
      intro x hx y hy
      exact (hinv x hx y hy).resolve_right (by simp)
  | succ fuel ih =>
      intro stack seen hsub hfuel hinv
      cases stack with
      | nil =>
          refine ⟨fun x hx => hx, by simp, ?_, fun x hx => Or.inl hx⟩
          intro x hx y hy
          exact (hinv x hx y hy).resolve_right (by simp)
      | cons target stack =>
          have hsub' : ∀ x ∈ stack, x ∈ nodes := fun x hx => hsub x (List.mem_cons_of_mem _ hx)
          by_cases hseen : target ∈ seen
          · have hstep : close succ (fuel + 1) (target :: stack) seen = close succ fuel stack seen := by
              simp [close, hseen]
            rw [hstep]
            obtain ⟨h1, h2, h3, h4⟩ := ih stack seen hsub'
              (by simp only [List.length_cons] at hfuel; omega) (by
              intro x hx y hy
              rcases hinv x hx y hy with h | h
              · exact Or.inl h
              · rcases List.mem_cons.mp h with rfl | h
                · exact Or.inl hseen
                · exact Or.inr h)
            refine ⟨h1, ?_, h3, ?_⟩
            · intro x hx
              rcases List.mem_cons.mp hx with rfl | hx
              · exact h1 x hseen
              · exact h2 x hx
            · intro x hx
              rcases h4 x hx with h | ⟨y, hy, hyx⟩
              · exact Or.inl h
              · exact Or.inr ⟨y, List.mem_cons_of_mem _ hy, hyx⟩
          · have hstep : close succ (fuel + 1) (target :: stack) seen =
                close succ fuel ((succ target).reverse ++ stack) (insert target seen) := by
              simp [close, hseen]
            have htarget : target ∈ nodes := hsub target List.mem_cons_self
            have hsplit := pushes_split succ hnodes htarget hseen
            rw [hstep]
            obtain ⟨h1, h2, h3, h4⟩ := ih ((succ target).reverse ++ stack) (insert target seen)
              (by
                intro x hx
                rcases List.mem_append.mp hx with hx | hx
                · exact hclosed target htarget x (List.mem_reverse.mp hx)
                · exact hsub' x hx)
              (by
                simp only [List.length_append, List.length_reverse, List.length_cons] at hfuel ⊢
                omega)
              (by
                intro x hx y hy
                rcases Finset.mem_insert.mp hx with rfl | hx
                · exact Or.inr (List.mem_append_left _ (List.mem_reverse.mpr hy))
                · rcases hinv x hx y hy with h | h
                  · exact Or.inl (Finset.mem_insert_of_mem h)
                  · rcases List.mem_cons.mp h with rfl | h
                    · exact Or.inl (Finset.mem_insert_self _ _)
                    · exact Or.inr (List.mem_append_right _ h))
            refine ⟨fun x hx => h1 x (Finset.mem_insert_of_mem hx), ?_, h3, ?_⟩
            · intro x hx
              rcases List.mem_cons.mp hx with rfl | hx
              · exact h1 x (Finset.mem_insert_self _ _)
              · exact h2 x (List.mem_append_right _ hx)
            · intro x hx
              rcases h4 x hx with h | ⟨y, hy, hyx⟩
              · rcases Finset.mem_insert.mp h with rfl | h
                · exact Or.inr ⟨x, List.mem_cons_self, ReflTransGen.refl⟩
                · exact Or.inl h
              · rcases List.mem_append.mp hy with hy | hy
                · exact Or.inr ⟨target, List.mem_cons_self,
                    ReflTransGen.head (List.mem_reverse.mp hy) hyx⟩
                · exact Or.inr ⟨y, List.mem_cons_of_mem _ hy, hyx⟩

/-- The run of the loop from a stack: it ends, and this is what it has seen then. -/
inductive Ends (succ : α → List α) : List α → Finset α → Finset α → Prop where
  | done (seen : Finset α) : Ends succ [] seen seen
  | skip {target : α} {stack : List α} {seen result : Finset α} (hseen : target ∈ seen)
    (hrest : Ends succ stack seen result) : Ends succ (target :: stack) seen result
  | visit {target : α} {stack : List α} {seen result : Finset α} (hnew : target ∉ seen)
    (hrest : Ends succ ((succ target).reverse ++ stack) (insert target seen) result) :
    Ends succ (target :: stack) seen result

/-- The loop ends: every round pops a node, and a node pushes its successors only once. -/
theorem ends_close (hnodes : nodes.Nodup) (hclosed : ∀ x ∈ nodes, ∀ y ∈ succ x, y ∈ nodes)
    {fuel : Nat} {stack : List α} {seen : Finset α} (hsub : ∀ x ∈ stack, x ∈ nodes)
    (hfuel : stack.length + pushes succ (nodes.filter (fun x => x ∉ seen)) ≤ fuel) :
    Ends succ stack seen (close succ fuel stack seen) := by
  induction fuel generalizing stack seen with
  | zero =>
      have hstack : stack = [] := List.length_eq_zero_iff.mp (by omega)
      rw [hstack]
      exact .done seen
  | succ fuel ih =>
      cases stack with
      | nil => exact .done seen
      | cons target stack =>
          rw [List.length_cons] at hfuel
          have hrest : ∀ x ∈ stack, x ∈ nodes := fun x hx => hsub x (List.mem_cons_of_mem _ hx)
          unfold close
          split_ifs with hseen
          · exact .skip hseen (ih hrest (by omega))
          · have htarget : target ∈ nodes := hsub target List.mem_cons_self
            have hsplit := pushes_split succ hnodes htarget hseen
            refine .visit hseen (ih ?_ ?_)
            · intro x hx
              rcases List.mem_append.mp hx with hx | hx
              · exact hclosed target htarget x (List.mem_reverse.mp hx)
              · exact hrest x hx
            · rw [List.length_append, List.length_reverse]
              omega

theorem ends_reachable (hnodes : nodes.Nodup) (hclosed : ∀ x ∈ nodes, ∀ y ∈ succ x, y ∈ nodes)
    {root : α} (hroot : root ∈ nodes) :
    Ends succ (succ root).reverse ∅ (reachable succ nodes root) :=
  ends_close hnodes hclosed (fun x hx => hclosed root hroot x (List.mem_reverse.mp hx)) (by simp)

/-- The worklist collects exactly what is reachable in one or more steps. -/
theorem mem_reachable_iff (hnodes : nodes.Nodup)
    (hclosed : ∀ x ∈ nodes, ∀ y ∈ succ x, y ∈ nodes) {root : α} (hroot : root ∈ nodes) (x : α) :
    x ∈ reachable succ nodes root ↔ TransGen (Edge succ) root x := by
  obtain ⟨-, h2, h3, h4⟩ := close_spec hnodes hclosed ((succ root).length + pushes succ nodes)
    (succ root).reverse ∅ (fun y hy => hclosed root hroot y (List.mem_reverse.mp hy))
    (by simp) (by simp)
  constructor
  · intro hx
    rcases h4 x hx with h | ⟨y, hy, hyx⟩
    · simp at h
    · exact TransGen.head' (List.mem_reverse.mp hy) hyx
  · intro hx
    obtain ⟨y, hy, hyx⟩ := TransGen.head'_iff.mp hx
    induction hyx with
    | refl => exact h2 y (List.mem_reverse.mpr hy)
    | tail hyz hzw ih => exact h3 _ (ih (TransGen.head' hy hyz)) _ hzw

end Reach
