import Umcm.Composition.Encapsulation

/-!
# Owners

What an accepted composition is made of and who owns its state: nothing of the
modules is lost or duplicated, every cell has one module, and a rule that uses a
cell comes from the module of the cell and carries its tag. A module file can
give its rules the tag of another module, and the merge keeps it.
-/

namespace Umcm

open Except Compose

/-- The cells that a rule requires or updates. -/
def Transformation.cells (t : Transformation) : List String :=
  t.stateRequirements.map StateRequirement.state ++ t.stateUpdates.map StateUpdate.state

def LoadedModule.Declares (m : LoadedModule) (cell : String) : Prop :=
  cell ∈ m.spec.stateVariables.map StateVariable.name

/-- The completion model consists of the parts of the modules, the constraints of
the composition and a rule for every event map, under unique names. -/
structure Merges (catalog : EventCatalog) (composition : CompositionSpec)
    (result : CompositionResult) : Prop where
  slots : result.slots = result.modules.flatMap (fun m => m.spec.slots.map (annotate m))
  completionSlots : result.completion.slots =
    result.modules.flatMap (fun m => m.spec.slots.map ModuleSlot.slot)
  states : result.completion.stateVariables =
    result.modules.flatMap (fun m => m.spec.stateVariables)
  rules : ∃ generated,
    List.Forall₂ (IsConnectionRule result.modules catalog) composition.eventMaps generated ∧
    result.rules = result.modules.flatMap (fun m => m.spec.rules.map (tagRule m)) ++ generated ∧
    result.completion.transformations =
      result.modules.flatMap (fun m => m.spec.transformations) ++
        generated.map ModuleRule.transformation
  constraints : result.completion.constraints =
    result.modules.flatMap (fun m => m.spec.constraints) ++ composition.constraints
  slotIds : (result.completion.slots.map EventSlot.id).Nodup
  stateNames : (result.completion.stateVariables.map StateVariable.name).Nodup
  ruleNames : (result.completion.transformations.map Transformation.name).Nodup

/-- Every rule that uses a cell carries the tag of the module of the cell, and
no tag of another module. -/
def TaggedByOwner (result : CompositionResult) : Prop :=
  ∀ r ∈ result.rules, ∀ cell ∈ r.transformation.cells, ∀ name,
    "module:" ++ name ∈ r.tags ↔ ∃ m ∈ result.modules, m.referenceName = name ∧ m.Declares cell

/-- The rule is one of the module, with the tag of the module added to its own. -/
def IsRuleOf (m : LoadedModule) (r : ModuleRule) : Prop :=
  ∃ own ∈ m.spec.rules, r.transformation = own.transformation ∧
    ∀ tag, tag ∈ r.tags ↔ tag ∈ own.tags ∨ tag = "module:" ++ m.referenceName

/-- Every cell has one module, and the rules that use it are rules of that module. -/
structure Owned (result : CompositionResult) : Prop where
  states : ∀ cell ∈ result.completion.stateVariables,
    ∃! m, m ∈ result.modules ∧ cell ∈ m.spec.stateVariables
  rules : ∀ r ∈ result.rules, ∀ cell ∈ r.transformation.cells, ∃ m ∈ result.modules,
    IsRuleOf m r ∧ m.Declares cell ∧ ∀ m' ∈ result.modules, m'.Declares cell → m' = m

theorem isRuleOf_tagRule {m : LoadedModule} {own : ModuleRule} (h : own ∈ m.spec.rules) :
    IsRuleOf m (tagRule m own) := by
  refine ⟨own, h, rfl, ?_⟩
  intro tag
  show tag ∈ (own.tags ++ ["module:" ++ m.referenceName]).eraseDups ↔ _
  rw [List.mem_eraseDups, List.mem_append, List.mem_singleton]

/-! ## Cells of a rule -/

section Cells

variable {catalog : EventCatalog}

theorem resolveState_eq_ok {name : String} {stateVariables : List StateVariable}
    {cell : StateVariable} (h : Transformation.resolveState name stateVariables = .ok cell) :
    cell ∈ stateVariables ∧ cell.name = name := by
  rw [Transformation.resolveState] at h
  split at h
  · rename_i cell' hfind
    cases h
    have hname := List.find?_some hfind
    exact ⟨List.mem_of_find?_eq_some hfind, by simpa using hname⟩
  · cases h

theorem declared_of_validateEffect {t : Transformation} {stateVariables : List StateVariable}
    {effect state atRole : String} {value : Expr} {u : Unit}
    (h : t.validateEffect catalog stateVariables effect state atRole value = .ok u) :
    state ∈ stateVariables.map StateVariable.name := by
  obtain ⟨_, -, h⟩ := bind_eq_ok.mp h
  obtain ⟨cell, hcell, -⟩ := bind_eq_ok.mp h
  obtain ⟨hmem, hname⟩ := resolveState_eq_ok hcell
  exact List.mem_map.mpr ⟨cell, hmem, hname⟩

/-- A validated rule uses declared cells only. -/
theorem declared_of_validate {t : Transformation} {stateVariables : List StateVariable} {u : Unit}
    (h : t.validate catalog stateVariables = .ok u) {cell : String} (hcell : cell ∈ t.cells) :
    cell ∈ stateVariables.map StateVariable.name := by
  obtain ⟨_, -, h⟩ := bind_eq_ok.mp h
  obtain ⟨_, -, h⟩ := bind_eq_ok.mp h
  obtain ⟨_, -, h⟩ := bind_eq_ok.mp h
  obtain ⟨_, -, h⟩ := bind_eq_ok.mp h
  obtain ⟨_, -, h⟩ := bind_eq_ok.mp h
  obtain ⟨_, hrequirements, hupdates⟩ := bind_eq_ok.mp h
  rcases List.mem_append.mp hcell with hcell | hcell
  · obtain ⟨requirement, hmem, rfl⟩ := List.mem_map.mp hcell
    exact declared_of_validateEffect (forM_eq_ok.mp hrequirements requirement hmem)
  · obtain ⟨update, hmem, rfl⟩ := List.mem_map.mp hcell
    exact declared_of_validateEffect (forM_eq_ok.mp hupdates update hmem)

/-- A module that passes its own validation declares the cells of its rules. -/
theorem declares_of_validate {m : LoadedModule} (h : m.spec.validate catalog = .ok ())
    {own : ModuleRule} (hown : own ∈ m.spec.rules) {cell : String}
    (hcell : cell ∈ own.transformation.cells) : m.Declares cell := by
  obtain ⟨_, -, h⟩ := bind_eq_ok.mp h
  obtain ⟨_, -, h⟩ := bind_eq_ok.mp h
  obtain ⟨_, -, h⟩ := bind_eq_ok.mp h
  have hrule := forM_eq_ok.mp h own.transformation (List.mem_map_of_mem hown)
  obtain ⟨_, -, hvalidate⟩ := bind_eq_ok.mp hrule
  exact declared_of_validate hvalidate hcell

/-- The rule of an event map uses no cell. -/
theorem cells_of_isConnectionRule {modules : List LoadedModule} {connection : ConnectionSpec}
    {r : ModuleRule} (h : IsConnectionRule modules catalog connection r) :
    r.transformation.cells = [] := by
  obtain ⟨hrule, -⟩ := h
  obtain ⟨_, -, hrule⟩ := bind_eq_ok.mp hrule
  obtain ⟨_, -, hrule⟩ := bind_eq_ok.mp hrule
  obtain ⟨_, -, hrule⟩ := bind_eq_ok.mp hrule
  obtain ⟨_, -, hrule⟩ := bind_eq_ok.mp hrule
  obtain ⟨_, -, hrule⟩ := bind_eq_ok.mp hrule
  have heq := Except.ok.inj hrule
  rw [← heq]
  rfl

end Cells

/-! ## One module for every cell -/

theorem eq_of_mem_flatMap_nodup {α β : Type*} {l : List α} {f : α → List β}
    (h : (l.flatMap f).Nodup) {a b : α} (ha : a ∈ l) (hb : b ∈ l) {x : β} (hxa : x ∈ f a)
    (hxb : x ∈ f b) : a = b := by
  by_contra hne
  have hpairwise := (List.nodup_flatMap.mp h).2
  have hsymm : Std.Symm (Function.onFun List.Disjoint f) := ⟨fun _ _ hd => hd.symm⟩
  have hdisjoint := hpairwise.forall ha hb hne
  exact hdisjoint hxa hxb

section Owner

variable {catalog : EventCatalog} {composition : CompositionSpec} {result : CompositionResult}

theorem owner_unique (h : Composed catalog composition result) {m m' : LoadedModule}
    (hm : m ∈ result.modules) (hm' : m' ∈ result.modules) {cell : String} (hcell : m.Declares cell)
    (hcell' : m'.Declares cell) : m' = m := by
  have hnodup := result.completion.stateVariables_nodup
  rw [h.states, List.map_flatMap] at hnodup
  exact eq_of_mem_flatMap_nodup hnodup hm' hm hcell' hcell

theorem merges_of_composed (h : Composed catalog composition result) :
    Merges catalog composition result := by
  obtain ⟨generated, hgenerated, hrules⟩ := h.rules
  have htransformations : result.completion.transformations =
      result.modules.flatMap (fun m => m.spec.transformations) ++
        generated.map ModuleRule.transformation := by
    rw [h.completionRules, hrules, List.map_append, List.map_flatMap]
    congr 1
    exact List.flatMap_congr (fun m _ => map_transformation_tagRule)
  exact
    { slots := h.slots
      completionSlots := h.slots_eq
      states := h.states
      rules := ⟨generated, hgenerated, hrules, htransformations⟩
      constraints := h.constraints
      slotIds := result.completion.slots_nodup
      stateNames := result.completion.stateVariables_nodup
      ruleNames := result.completion.transformations_nodup }

theorem owned_of_composed (h : Composed catalog composition result) : Owned result := by
  constructor
  case states =>
    intro cell hcell
    rw [h.states] at hcell
    obtain ⟨m, hm, hmem⟩ := List.mem_flatMap.mp hcell
    refine ⟨m, ⟨hm, hmem⟩, ?_⟩
    intro m' hm'
    exact owner_unique h hm hm'.1 (List.mem_map_of_mem hmem) (List.mem_map_of_mem hm'.2)
  case rules =>
    intro r hr cell hcell
    obtain ⟨generated, hgenerated, hrules⟩ := h.rules
    rw [hrules] at hr
    rcases List.mem_append.mp hr with hr | hr
    · obtain ⟨m, hm, hr⟩ := List.mem_flatMap.mp hr
      obtain ⟨own, hown, rfl⟩ := List.mem_map.mp hr
      have hdeclares := declares_of_validate (h.valid m hm) hown hcell
      exact ⟨m, hm, isRuleOf_tagRule hown, hdeclares,
        fun m' hm' hdeclares' => owner_unique h hm hm' hdeclares hdeclares'⟩
    · -- an event map adds no use of a cell
      obtain ⟨connection, -, hrule⟩ := exists_left_of_forall₂ hgenerated hr
      rw [cells_of_isConnectionRule hrule] at hcell
      cases hcell

end Owner

/-- An accepted composition is the merge of its modules, and every cell and every
use of a cell belongs to one of them. -/
theorem merges_and_owned_of_composeModules {Context : Type} (catalog : EventCatalog)
    (resolve : Except PyError Context)
    (load : Context → ModuleReference → Except PyError ModuleFile) (composition : CompositionSpec)
    (result : CompositionResult)
    (haccepted : composeModules catalog resolve load composition = .ok result) :
    Merges catalog composition result ∧ Owned result := by
  have h := composed_of_composeModules haccepted
  exact ⟨merges_of_composed h, owned_of_composed h⟩

/-! ## A rule with the tag of another module -/

def ownedCell : StateVariable where
  name := "a.x"
  sort := .bool
  initial := .value (.bool false)
  qualified := by decide
  initial_fits := by decide

/-- The rule sets the cell of its module and is tagged with the name of another. -/
def borrowedRule : ModuleRule where
  transformation :=
    { watchRule with
      name := "set"
      stateUpdates := [⟨"a.x", "event", .literal (.bool true) .bool, by decide, watchRole_ne⟩]
      name_ne := by decide
      guard_updates := fun h => nomatch h }
  tags := ["module:b"]

def borrowedLoad (_ : Unit) (reference : ModuleReference) : Except PyError ModuleFile := do
  let spec ← ModuleSpec.create "a"
    { ports := [], internalEvents := ["A.Hidden"], slots := [], rules := [borrowedRule]
      stateVariables := [ownedCell], constraints := [] }
  return { path := reference.path, spec }

def borrowedComposition : CompositionSpec where
  name := "borrowed"
  modules := [⟨"a", "a.yaml", leakName_ne, leakPath_ne⟩]
  connections := []
  constraints := []
  horizon := 0
  metadata := .empty
  name_ne := by decide
  modules_nodup := by decide
  connections_nodup := List.nodup_nil
  constraints_bool := Expr.bool_of_mem_nil

/-- The modules, and the cells and tags of the rules. -/
def CompositionResult.overview (result : CompositionResult) :
    List String × List (List String × List String) :=
  (result.modules.map LoadedModule.referenceName,
    result.rules.map (fun r => (r.transformation.cells, r.tags)))

theorem borrowedComposition_overview :
    (composeModules leakCatalog (.ok ()) borrowedLoad borrowedComposition).toOption.map
      CompositionResult.overview = some (["a"], [(["a.x"], ["module:b", "module:a"])]) := by
  decide +kernel

theorem borrowedComposition_accepted : ∃ result,
    composeModules leakCatalog (.ok ()) borrowedLoad borrowedComposition = .ok result ∧
      result.overview = (["a"], [(["a.x"], ["module:b", "module:a"])]) := by
  have h := borrowedComposition_overview
  cases hcompose : composeModules leakCatalog (.ok ()) borrowedLoad borrowedComposition with
  | error e =>
      rw [hcompose] at h
      cases h
  | ok result =>
      rw [hcompose] at h
      exact ⟨result, rfl, Option.some.inj h⟩

theorem borrowedComposition_not_taggedByOwner : ∃ result,
    composeModules leakCatalog (.ok ()) borrowedLoad borrowedComposition = .ok result ∧
      ¬ TaggedByOwner result := by
  obtain ⟨result, hresult, hoverview⟩ := borrowedComposition_accepted
  refine ⟨result, hresult, ?_⟩
  intro htagged
  have hmodules : result.modules.map LoadedModule.referenceName = ["a"] :=
    congrArg Prod.fst hoverview
  have hrules : result.rules.map (fun r => (r.transformation.cells, r.tags)) =
      [(["a.x"], ["module:b", "module:a"])] := congrArg Prod.snd hoverview
  obtain ⟨r, hr, heq⟩ : ∃ r ∈ result.rules,
      (r.transformation.cells, r.tags) = (["a.x"], ["module:b", "module:a"]) :=
    List.mem_map.mp (hrules ▸ List.mem_singleton_self _)
  obtain ⟨hcells, htags⟩ := Prod.mk.inj heq
  have hcell : "a.x" ∈ r.transformation.cells := by rw [hcells]; exact List.mem_singleton_self _
  have htag : "module:" ++ "b" ∈ r.tags := by rw [htags]; decide
  obtain ⟨m, hm, hname, -⟩ := (htagged r hr "a.x" hcell "b").mp htag
  have hmem : "b" ∈ ["a"] := hmodules ▸ List.mem_map.mpr ⟨m, hm, hname⟩
  exact absurd hmem (by decide)

theorem borrowedComposition_merges_and_owned : ∃ result,
    composeModules leakCatalog (.ok ()) borrowedLoad borrowedComposition = .ok result ∧
      Merges leakCatalog borrowedComposition result ∧ Owned result := by
  obtain ⟨result, hresult, -⟩ := borrowedComposition_accepted
  exact ⟨result, hresult, merges_and_owned_of_composeModules leakCatalog (.ok ()) borrowedLoad
    borrowedComposition result hresult⟩

end Umcm
