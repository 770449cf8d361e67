import Umcm.Order.Acyclic

/-!
# Depth-first search for a directed cycle

A colouring depth-first search over an arbitrary adjacency function. White
nodes are unvisited, gray nodes are on the current path, black nodes are
finished. The search stops at the first edge into the current path and returns
the part of the path it closes. `findCycle_eq_none_iff`: with all nodes listed,
it returns nothing exactly on acyclic graphs, and what it returns otherwise is
a cycle without repeated nodes.
-/

namespace DepthFirst

open Relation FinOrder

inductive Color where
  | white
  | gray
  | black
deriving DecidableEq, Repr

/-- The colouring and the path from the current root. -/
structure State (α : Type*) where
  color : α → Color
  stack : List α

variable {α : Type*}

/-! ## Invariant -/

/-- There is an edge from `a` to `b`. -/
def Edge (succ : α → List α) (a b : α) : Prop := b ∈ succ a

/-- A closed walk `a, …, a` along edges whose nodes up to the last are distinct. -/
def IsCycle (succ : α → List α) (cycle : List α) : Prop :=
  ∃ a l, cycle = a :: (l ++ [a]) ∧ (a :: l).Nodup ∧ List.IsChain (Edge succ) cycle

theorem IsCycle.not_acyclic {succ : α → List α} {cycle : List α} (h : IsCycle succ cycle) :
    ¬ Acyclic (Edge succ) := by
  obtain ⟨a, l, rfl, -, hchain⟩ := h
  intro hac
  exact hac a (transGen_of_isChain hchain)

variable {succ : α → List α} {st st' : State α}

/-- The path is a chain of gray nodes; the black nodes are closed under
successors and on no cycle. -/
structure Inv (succ : α → List α) (st : State α) : Prop where
  stack_nodup : st.stack.Nodup
  mem_stack : ∀ x, x ∈ st.stack ↔ st.color x = .gray
  chain : List.IsChain (Edge succ) st.stack
  closed : ∀ x, st.color x = .black → ∀ y ∈ succ x, st.color y = .black
  acyclic : ∀ x, st.color x = .black → ¬ TransGen (Edge succ) x x

/-- What a search that found nothing leaves behind. -/
structure Finished (succ : α → List α) (st st' : State α) : Prop where
  inv : Inv succ st'
  stack_eq : st'.stack = st.stack
  black_mono : ∀ x, st.color x = .black → st'.color x = .black

theorem Finished.refl (h : Inv succ st) : Finished succ st st := ⟨h, rfl, fun _ hx => hx⟩

theorem Finished.trans {st'' : State α} (h : Finished succ st st') (h' : Finished succ st' st'') :
    Finished succ st st'' :=
  ⟨h'.inv, h'.stack_eq.trans h.stack_eq, fun x hx => h'.black_mono x (h.black_mono x hx)⟩

/-- A node that was not white before is not white afterwards. -/
theorem Finished.white (hi : Inv succ st) (h : Finished succ st st') {x : α}
    (hx : st'.color x = .white) : st.color x = .white := by
  cases hc : st.color x with
  | white => rfl
  | gray =>
      have hmem : x ∈ st'.stack := by
        rw [h.stack_eq]
        exact (hi.mem_stack x).mpr hc
      have hgray : st'.color x = .gray := (h.inv.mem_stack x).mp hmem
      rw [hx] at hgray
      cases hgray
  | black =>
      have hblack := h.black_mono x hc
      rw [hx] at hblack
      cases hblack

/-- From a black node only black nodes are reachable. -/
theorem Inv.black_of_transGen (hi : Inv succ st) {x y : α} (hx : st.color x = .black)
    (h : TransGen (Edge succ) x y) : st.color y = .black := by
  induction h with
  | single hxy => exact hi.closed x hx _ hxy
  | tail _ hyz ih => exact hi.closed _ ih _ hyz

theorem inv_init (succ : α → List α) : Inv succ { color := fun _ => .white, stack := [] } where
  stack_nodup := List.nodup_nil
  mem_stack := by simp
  chain := List.isChain_nil
  closed := by simp
  acyclic := by simp

/-- The nodes of `nodes` that are still white. -/
def whites (nodes : List α) (st : State α) : List α :=
  nodes.filter (fun x => st.color x = .white)

theorem whites_le {nodes : List α} (h : ∀ x, st'.color x = .white → st.color x = .white) :
    (whites nodes st').length ≤ (whites nodes st).length := by
  apply List.Sublist.length_le
  apply List.monotone_filter_right
  intro x hx
  simpa using h x (by simpa using hx)

/-! ## The search -/

variable [DecidableEq α]

/-- Start on `node`: it turns gray and extends the path. -/
def State.enter (st : State α) (node : α) : State α :=
  { color := Function.update st.color node .gray, stack := st.stack ++ [node] }

/-- Finish `node`: it leaves the path and turns black. -/
def State.leave (st : State α) (node : α) : State α :=
  { color := Function.update st.color node .black, stack := st.stack.dropLast }

/-- The loop over the successors of the node on top of the path. -/
def visit (explore : State α → α → State α × Option (List α)) :
    State α → List α → State α × Option (List α)
  | st, [] => (st, none)
  | st, target :: rest =>
    match st.color target with
    | .white =>
      match explore st target with
      | (st', some cycle) => (st', some cycle)
      | (st', none) => visit explore st' rest
    | .gray => (st, some (st.stack.drop (st.stack.idxOf target) ++ [target]))
    | .black => visit explore st rest

/-- The recursive search from `node`; `fuel` bounds the depth of the path. -/
def explore (succ : α → List α) : Nat → State α → α → State α × Option (List α)
  | 0, st, _ => (st, none)
  | fuel + 1, st, node =>
    match visit (explore succ fuel) (st.enter node) (succ node) with
    | (st', some cycle) => (st', some cycle)
    | (st', none) => (st'.leave node, none)

/-- The outer loop: search from every node that is still white. -/
def searchRoots (succ : α → List α) (fuel : Nat) : State α → List α → Option (List α)
  | _, [] => none
  | st, node :: rest =>
    match st.color node with
    | .white =>
      match explore succ fuel st node with
      | (_, some cycle) => some cycle
      | (st', none) => searchRoots succ fuel st' rest
    | _ => searchRoots succ fuel st rest

/-- Search the graph on `nodes`, starting from the all-white colouring. -/
def findCycle (succ : α → List α) (nodes : List α) : Option (List α) :=
  searchRoots succ nodes.length { color := fun _ => .white, stack := [] } nodes

/-! ## Correctness of the search -/

/-- Entering a white successor of the top of the path keeps the invariant. -/
theorem Inv.enter (hi : Inv succ st) {node : α} (hwhite : st.color node = .white)
    (hedge : ∀ top ∈ st.stack.getLast?, Edge succ top node) : Inv succ (st.enter node) := by
  have hnot : node ∉ st.stack := by
    intro hmem
    have hgray := (hi.mem_stack node).mp hmem
    rw [hwhite] at hgray
    cases hgray
  have hblack : ∀ x, (st.enter node).color x = .black ↔ st.color x = .black := by
    intro x
    by_cases hx : x = node
    · subst hx
      simp [State.enter, hwhite]
    · simp [State.enter, hx]
  refine ⟨?_, ?_, ?_, ?_, ?_⟩
  · exact List.nodup_append.mpr ⟨hi.stack_nodup, by simp, by
      intro a ha b hb
      have hb' : b = node := by simpa using hb
      subst hb'
      exact fun hab => hnot (hab ▸ ha)⟩
  · intro x
    by_cases hx : x = node
    · subst hx
      simp [State.enter]
    · simp [State.enter, hx, hi.mem_stack x]
  · exact List.isChain_append.mpr ⟨hi.chain, by simp, by
      intro top htop b hb
      have hb' : node = b := by simpa using hb
      exact hb' ▸ hedge top htop⟩
  · intro x hx y hy
    rw [hblack] at hx ⊢
    exact hi.closed x hx y hy
  · intro x hx
    exact hi.acyclic x ((hblack x).mp hx)

/-- Leaving the top of the path once all its successors are black. -/
theorem Inv.leave (hi : Inv succ st) {rest : List α} {node : α} (hstack : st.stack = rest ++ [node])
    (hsucc : ∀ y ∈ succ node, st.color y = .black) : Inv succ (st.leave node) := by
  have hgray : st.color node = .gray := (hi.mem_stack node).mp (by simp [hstack])
  have hrest : node ∉ rest := by
    have hnd := hi.stack_nodup
    rw [hstack, List.nodup_append] at hnd
    exact fun hmem => hnd.2.2 node hmem node (by simp) rfl
  have hleave : (st.leave node).stack = rest := by simp [State.leave, hstack]
  have hblack : ∀ x, (st.leave node).color x = .black ↔ x = node ∨ st.color x = .black := by
    intro x
    by_cases hx : x = node
    · subst hx
      simp [State.leave]
    · simp [State.leave, hx]
  refine ⟨?_, ?_, ?_, ?_, ?_⟩
  · rw [hleave]
    have hnd := hi.stack_nodup
    rw [hstack] at hnd
    exact (List.nodup_append.mp hnd).1
  · intro x
    rw [hleave]
    by_cases hx : x = node
    · subst hx
      simp [State.leave, hrest]
    · have hmem := hi.mem_stack x
      simp [hstack, hx] at hmem
      simp [State.leave, hx, hmem]
  · rw [hleave]
    have hch := hi.chain
    rw [hstack] at hch
    exact (List.isChain_append.mp hch).1
  · intro x hx y hy
    rw [hblack] at hx ⊢
    rcases hx with rfl | hx
    · exact Or.inr (hsucc y hy)
    · exact Or.inr (hi.closed x hx y hy)
  · intro x hx hcyc
    rcases (hblack x).mp hx with rfl | hx
    · -- a cycle through the node would make it black already
      obtain ⟨y, hy, hyx⟩ := TransGen.head'_iff.mp hcyc
      have hyb := hsucc y hy
      rcases ReflTransGen.cases_head hyx with heq | ⟨z, hyz, hzx⟩
      · rw [heq, hgray] at hyb
        cases hyb
      · have hxb := hi.black_of_transGen hyb (TransGen.head' hyz hzx)
        rw [hgray] at hxb
        cases hxb
    · exact hi.acyclic x hx hcyc

/-- An edge from the top of the path back into it closes a cycle. -/
theorem Inv.isCycle (hi : Inv succ st) {node target : α} (htop : st.stack.getLast? = some node)
    (hedge : Edge succ node target) (hgray : st.color target = .gray) :
    IsCycle succ (st.stack.drop (st.stack.idxOf target) ++ [target]) := by
  have hmem : target ∈ st.stack := (hi.mem_stack target).mpr hgray
  have hlt := List.idxOf_lt_length_of_mem hmem
  have hdrop : st.stack.drop (st.stack.idxOf target) =
      target :: st.stack.drop (st.stack.idxOf target + 1) := by
    rw [List.drop_eq_getElem_cons hlt, List.getElem_idxOf hlt]
  refine ⟨target, st.stack.drop (st.stack.idxOf target + 1), ?_, ?_, ?_⟩
  · rw [hdrop]
    rfl
  · rw [← hdrop]
    exact hi.stack_nodup.sublist (List.drop_sublist _ _)
  · refine List.isChain_append.mpr ⟨hi.chain.drop _, by simp, ?_⟩
    intro top htop' b hb
    have hb' : target = b := by simpa using hb
    have hlast : (st.stack.drop (st.stack.idxOf target)).getLast? = st.stack.getLast? := by
      rw [List.getLast?_drop]
      simp [Nat.not_le.mpr hlt]
    rw [hlast, htop] at htop'
    have hnode : node = top := by simpa using htop'
    rw [← hb', ← hnode]
    exact hedge

theorem whites_enter_lt {nodes : List α} {node : α} (hmem : node ∈ nodes)
    (hwhite : st.color node = .white) :
    (whites nodes (st.enter node)).length < (whites nodes st).length := by
  have hsub : whites nodes (st.enter node) = (whites nodes st).filter (fun x => x ≠ node) := by
    unfold whites
    rw [List.filter_filter]
    apply List.filter_congr
    intro x _
    by_cases hx : x = node
    · subst hx
      simp [State.enter]
    · simp [State.enter, hx]
  rw [hsub]
  apply List.length_filter_lt_length_iff_exists.mpr
  exact ⟨node, by simp [whites, hmem, hwhite], by simp⟩

/-- The result of a search from `node`: finished with `node` black, or a cycle. -/
def Explored (succ : α → List α) (st : State α) (node : α)
    (result : State α × Option (List α)) : Prop :=
  match result with
  | (st', none) => Finished succ st st' ∧ st'.color node = .black
  | (_, some cycle) => IsCycle succ cycle

/-- The loop over the successors, given that each recursive search is correct. -/
theorem visit_spec {nodes : List α} {fuel : Nat} {node : α}
    (hexplore : ∀ st target, Inv succ st → st.color target = .white → target ∈ nodes →
      (∀ top ∈ st.stack.getLast?, Edge succ top target) → (whites nodes st).length ≤ fuel →
      Explored succ st target (explore succ fuel st target)) :
    ∀ (targets : List α) (st : State α), Inv succ st → st.stack.getLast? = some node →
      (∀ t ∈ targets, t ∈ succ node ∧ t ∈ nodes) → (whites nodes st).length ≤ fuel →
      match visit (explore succ fuel) st targets with
      | (st', none) => Finished succ st st' ∧ ∀ t ∈ targets, st'.color t = .black
      | (_, some cycle) => IsCycle succ cycle := by
  intro targets
  induction targets with
  | nil =>
      intro st hi _ _ _
      exact ⟨Finished.refl hi, by simp⟩
  | cons target rest ih =>
      intro st hi htop hsub hfuel
      have hrest : ∀ t ∈ rest, t ∈ succ node ∧ t ∈ nodes :=
        fun t ht => hsub t (List.mem_cons_of_mem _ ht)
      obtain ⟨hedge, hnode⟩ := hsub target List.mem_cons_self
      cases hc : st.color target with
      | white =>
          have hspec := hexplore st target hi hc hnode (by
            intro top htop'
            rw [htop] at htop'
            have htop'' : node = top := by simpa using htop'
            exact htop'' ▸ hedge) hfuel
          rcases hres : explore succ fuel st target with ⟨st₁, _ | cycle⟩
          · rw [hres] at hspec
            obtain ⟨hfin, hblack⟩ := hspec
            have hle : (whites nodes st₁).length ≤ fuel :=
              Nat.le_trans (whites_le (fun x => hfin.white hi)) hfuel
            have hih := ih st₁ hfin.inv (by rw [hfin.stack_eq, htop]) hrest hle
            simp only [visit, hc, hres]
            rcases hres' : visit (explore succ fuel) st₁ rest with ⟨st₂, _ | cycle⟩
            · rw [hres'] at hih
              refine ⟨hfin.trans hih.1, ?_⟩
              intro t ht
              rcases List.mem_cons.mp ht with rfl | ht
              · exact hih.1.black_mono t hblack
              · exact hih.2 t ht
            · rw [hres'] at hih
              exact hih
          · rw [hres] at hspec
            simp only [visit, hc, hres]
            exact hspec
      | gray =>
          simp only [visit, hc]
          exact hi.isCycle htop hedge hc
      | black =>
          have hih := ih st hi htop hrest hfuel
          simp only [visit, hc]
          rcases hres' : visit (explore succ fuel) st rest with ⟨st₂, _ | cycle⟩
          · rw [hres'] at hih
            refine ⟨hih.1, ?_⟩
            intro t ht
            rcases List.mem_cons.mp ht with rfl | ht
            · exact hih.1.black_mono t hc
            · exact hih.2 t ht
          · rw [hres'] at hih
            exact hih

/-- A search with at least as much fuel as there are white nodes is correct. -/
theorem explore_spec {nodes : List α} (hclosed : ∀ x ∈ nodes, ∀ y ∈ succ x, y ∈ nodes) :
    ∀ (fuel : Nat) (st : State α) (node : α), Inv succ st → st.color node = .white →
      node ∈ nodes → (∀ top ∈ st.stack.getLast?, Edge succ top node) →
      (whites nodes st).length ≤ fuel → Explored succ st node (explore succ fuel st node) := by
  intro fuel
  induction fuel with
  | zero =>
      intro st node _ hwhite hmem _ hfuel
      have hin : node ∈ whites nodes st := by simp [whites, hmem, hwhite]
      have hpos := List.length_pos_of_mem hin
      omega
  | succ fuel ih =>
      intro st node hi hwhite hmem hedge hfuel
      have hlt := whites_enter_lt hmem hwhite
      have hstack : (st.enter node).stack = st.stack ++ [node] := rfl
      have hspec := visit_spec ih (succ node) (st.enter node)
        (hi.enter hwhite hedge) (by simp [hstack])
        (fun t ht => ⟨ht, hclosed node hmem t ht⟩) (by omega)
      rcases hres : visit (explore succ fuel) (st.enter node) (succ node) with ⟨st₁, _ | cycle⟩
      · rw [hres] at hspec
        obtain ⟨hfin, hblack⟩ := hspec
        have hstack₁ : st₁.stack = st.stack ++ [node] := hfin.stack_eq.trans hstack
        simp only [explore, hres, Explored]
        refine ⟨⟨hfin.inv.leave hstack₁ hblack, by simp [State.leave, hstack₁], ?_⟩,
          by simp [State.leave]⟩
        intro x hx
        have hne : x ≠ node := by
          intro heq
          rw [heq, hwhite] at hx
          cases hx
        have hx₁ := hfin.black_mono x (by simp [State.enter, hne, hx])
        simp [State.leave, hne, hx₁]
      · rw [hres] at hspec
        simp only [explore, hres, Explored]
        exact hspec

theorem searchRoots_spec {nodes : List α} (hclosed : ∀ x ∈ nodes, ∀ y ∈ succ x, y ∈ nodes)
    {fuel : Nat} :
    ∀ (roots : List α) (st : State α), Inv succ st → st.stack = [] → (∀ x ∈ roots, x ∈ nodes) →
      (whites nodes st).length ≤ fuel →
      match searchRoots succ fuel st roots with
      | none => ∃ st', Finished succ st st' ∧ ∀ x ∈ roots, st'.color x = .black
      | some cycle => IsCycle succ cycle := by
  intro roots
  induction roots with
  | nil =>
      intro st hi _ _ _
      exact ⟨st, Finished.refl hi, by simp⟩
  | cons node rest ih =>
      intro st hi hempty hsub hfuel
      have hrest : ∀ x ∈ rest, x ∈ nodes := fun x hx => hsub x (List.mem_cons_of_mem _ hx)
      cases hc : st.color node with
      | white =>
          have hspec := explore_spec hclosed fuel st node hi hc (hsub node List.mem_cons_self)
            (by simp [hempty]) hfuel
          rcases hres : explore succ fuel st node with ⟨st₁, _ | cycle⟩
          · rw [hres] at hspec
            obtain ⟨hfin, hblack⟩ := hspec
            have hih := ih st₁ hfin.inv (by rw [hfin.stack_eq, hempty]) hrest
              (Nat.le_trans (whites_le (fun x => hfin.white hi)) hfuel)
            simp only [searchRoots, hc, hres]
            rcases hres' : searchRoots succ fuel st₁ rest with _ | cycle
            · rw [hres'] at hih
              obtain ⟨st₂, hfin₂, hall⟩ := hih
              refine ⟨st₂, hfin.trans hfin₂, ?_⟩
              intro x hx
              rcases List.mem_cons.mp hx with rfl | hx
              · exact hfin₂.black_mono x hblack
              · exact hall x hx
            · rw [hres'] at hih
              exact hih
          · rw [hres] at hspec
            simp only [searchRoots, hc, hres]
            exact hspec
      | gray =>
          have hmem := (hi.mem_stack node).mpr hc
          rw [hempty] at hmem
          cases hmem
      | black =>
          have hih := ih st hi hempty hrest hfuel
          simp only [searchRoots, hc]
          rcases hres' : searchRoots succ fuel st rest with _ | cycle
          · rw [hres'] at hih
            obtain ⟨st₂, hfin₂, hall⟩ := hih
            refine ⟨st₂, hfin₂, ?_⟩
            intro x hx
            rcases List.mem_cons.mp hx with rfl | hx
            · exact hfin₂.black_mono x hc
            · exact hall x hx
          · rw [hres'] at hih
            exact hih

/-- What the search returns is a cycle. -/
theorem findCycle_isCycle {nodes : List α} (hclosed : ∀ x ∈ nodes, ∀ y ∈ succ x, y ∈ nodes)
    {cycle : List α} (h : findCycle succ nodes = some cycle) : IsCycle succ cycle := by
  have hspec := searchRoots_spec hclosed nodes _ (inv_init succ) rfl
    (fun _ hx => hx) (List.length_filter_le _ _)
  unfold findCycle at h
  rw [h] at hspec
  exact hspec

/-- The search returns nothing exactly when the graph has no cycle. -/
theorem findCycle_eq_none_iff {nodes : List α} (hclosed : ∀ x ∈ nodes, ∀ y ∈ succ x, y ∈ nodes)
    (hnodes : ∀ x y, Edge succ x y → x ∈ nodes) :
    findCycle succ nodes = none ↔ Acyclic (Edge succ) := by
  constructor
  · intro h a ha
    have hspec := searchRoots_spec hclosed nodes _ (inv_init succ) rfl
      (fun _ hx => hx) (List.length_filter_le _ _)
    unfold findCycle at h
    rw [h] at hspec
    obtain ⟨st', hfin, hall⟩ := hspec
    obtain ⟨b, hab, -⟩ := TransGen.head'_iff.mp ha
    exact hfin.inv.acyclic a (hall a (hnodes a b hab)) ha
  · intro hac
    rcases h : findCycle succ nodes with _ | cycle
    · rfl
    · exact absurd hac (findCycle_isCycle hclosed h).not_acyclic

end DepthFirst
