import Umcm.Composition.Model
import Umcm.Ir.Constructor

/-!
# Module templates

A module file after its placeholders are filled in, as plain data. A template
repeats its slots, cells and rules for the operations that a trace names, and
loading builds the module with the checks of the constructors.

* `ModuleFields.load_eq_ok`: a loaded module has the rules, cells and slots of
  its file, and no others.
-/

namespace Umcm

open Except

/-! ## Repetition -/

/-- `repeat`: one copy for each item, with its index. -/
def repeatOver {α β : Type} (items : List α) (copy : α → Nat → List β) : List β :=
  items.zipIdx.flatMap (fun p => copy p.1 p.2)

/-- `repeat_product`: one copy for each pair of items, with the index of the pair. -/
def repeatProduct {α β γ : Type} (items : List α) (others : List β)
    (copy : α → β → Nat → List γ) : List γ :=
  repeatOver (items.product others) (fun p index => copy p.1 p.2 index)

theorem mem_repeatOver {α β : Type} {items : List α} {f : α → Nat → List β} {b : β} :
    b ∈ repeatOver items f ↔ ∃ a i, (a, i) ∈ items.zipIdx ∧ b ∈ f a i := by
  simp [repeatOver, List.mem_flatMap]

theorem exists_mem_zipIdx {α : Type} {items : List α} {a : α} (h : a ∈ items) :
    ∃ i, (a, i) ∈ items.zipIdx := by
  obtain ⟨i, hi, rfl⟩ := List.mem_iff_getElem.mp h
  exact ⟨i, List.mem_zipIdx_iff_getElem?.mpr (by simp [hi])⟩

theorem mem_of_mem_zipIdx {α : Type} {items : List α} {a : α} {i : Nat}
    (h : (a, i) ∈ items.zipIdx) : a ∈ items :=
  List.fst_mem_of_mem_zipIdx h

theorem mem_repeatProduct {α β γ : Type} {items : List α} {others : List β}
    {f : α → β → Nat → List γ} {c : γ} :
    c ∈ repeatProduct items others f ↔
      ∃ a b i, ((a, b), i) ∈ (items.product others).zipIdx ∧ c ∈ f a b i := by
  simp only [repeatProduct, mem_repeatOver, Prod.exists]

theorem exists_mem_product_zipIdx {α β : Type} {items : List α} {others : List β} {a : α} {b : β}
    (ha : a ∈ items) (hb : b ∈ others) : ∃ i, ((a, b), i) ∈ (items.product others).zipIdx :=
  exists_mem_zipIdx (List.mem_product.mpr ⟨ha, hb⟩)

theorem mem_of_mem_product_zipIdx {α β : Type} {items : List α} {others : List β} {a : α} {b : β}
    {i : Nat} (h : ((a, b), i) ∈ (items.product others).zipIdx) : a ∈ items ∧ b ∈ others :=
  List.mem_product.mp (mem_of_mem_zipIdx h)

/-- In a repetition without repeated names a name tells the copy. -/
theorem eq_of_mem_repeatOver {α β γ : Type} {items : List α} {f : α → Nat → List β} {name : β → γ}
    (h : ((repeatOver items f).map name).Nodup) {a b : α} {i j : Nat}
    (ha : (a, i) ∈ items.zipIdx) (hb : (b, j) ∈ items.zipIdx) {x y : β} (hx : x ∈ f a i)
    (hy : y ∈ f b j) (heq : name x = name y) : a = b ∧ i = j := by
  rw [repeatOver, List.map_flatMap, List.nodup_flatMap] at h
  by_contra hne
  have hpair : (a, i) ≠ (b, j) := by
    intro hpair
    exact hne (Prod.mk.inj hpair)
  have hsymm : Std.Symm (Function.onFun List.Disjoint
      (fun p : α × Nat => (f p.1 p.2).map name)) := ⟨fun _ _ hd => List.Disjoint.symm hd⟩
  have hdisjoint := h.2.forall ha hb hpair
  exact hdisjoint (List.mem_map_of_mem hx) (heq ▸ List.mem_map_of_mem hy)

/-! ## Files -/

structure ModulePort.Fields where
  name : String
  direction : PortDirection
  eventType : String
  requiredConnection : Bool := direction = .input

def ModulePort.create (port : ModulePort.Fields) : Except PyError ModulePort :=
  if name_ne : port.name = "" then .error (.schemaError "module port name must be non-empty")
  else if eventType_ne : port.eventType = "" then
    .error (.schemaError "module port event_type must be non-empty")
  else
    .ok { name := port.name, direction := port.direction, eventType := port.eventType
          requiredConnection := port.requiredConnection, name_ne, eventType_ne }

/-- A rule of a file, with its tags. -/
structure ModuleRule.Fields extends Transformation.Fields where
  tags : List String := []

def ModuleRule.create (rule : ModuleRule.Fields) : Except PyError ModuleRule := do
  let transformation ← Transformation.create rule.toFields
  return { transformation, tags := rule.tags }

/-- A module file. -/
structure ModuleFields where
  name : String
  ports : List ModulePort.Fields
  internalEvents : List String
  slots : List EventSlot.Fields
  stateVariables : List StateVariable.Fields
  rules : List ModuleRule.Fields

namespace ModuleFields

/-- `ModuleSpec.from_dict`. -/
def load (file : ModuleFields) : Except PyError ModuleSpec := do
  let ports ← file.ports.mapM ModulePort.create
  let slots ← file.slots.mapM EventSlot.create
  let stateVariables ← file.stateVariables.mapM StateVariable.create
  let rules ← file.rules.mapM ModuleRule.create
  ModuleSpec.create file.name
    { ports
      internalEvents := file.internalEvents
      slots := slots.map (fun slot => ⟨slot, .empty⟩)
      rules
      stateVariables
      constraints := [] }

end ModuleFields

theorem ModuleSpec.create_eq_ok {name : String} {sections : ModuleSpec.Sections}
    {module : ModuleSpec} (h : ModuleSpec.create name sections = .ok module) :
    module.slots = sections.slots ∧ module.rules = sections.rules ∧
      module.stateVariables = sections.stateVariables := by
  unfold ModuleSpec.create at h
  split_ifs at h <;> cases h
  exact ⟨rfl, rfl, rfl⟩

/-- The rules, cells and slots of the module are those of the file. -/
structure ModuleSpec.LoadedFrom (module : ModuleSpec) (file : ModuleFields) : Prop where
  rule_built : ∀ rule ∈ file.rules, ∃ t ∈ module.transformations, t.BuiltFrom rule.toFields
  rule_origin : ∀ t ∈ module.transformations, ∃ rule ∈ file.rules, t.BuiltFrom rule.toFields
  cell_built : ∀ f ∈ file.stateVariables, ∃ cell ∈ module.stateVariables,
    cell.name = f.name ∧ cell.initial = .value f.initial
  cell_origin : ∀ cell ∈ module.stateVariables, ∃ f ∈ file.stateVariables,
    cell.name = f.name ∧ cell.initial = .value f.initial
  slot_origin : ∀ s ∈ module.slots, ∃ f ∈ file.slots,
    s.slot.id = f.id ∧ s.slot.eventType = f.eventType ∧ s.slot.fields = .ofList f.fields

theorem ModuleRule.builtFrom_of_create {rule : ModuleRule.Fields} {r : ModuleRule}
    (h : ModuleRule.create rule = .ok r) : r.transformation.BuiltFrom rule.toFields := by
  obtain ⟨t, ht, h⟩ := bind_eq_ok.mp h
  cases h
  exact Transformation.builtFrom_of_create ht

/-- The cells of a file that loads have different names. -/
theorem ModuleFields.cells_nodup {file : ModuleFields} {module : ModuleSpec}
    (h : file.load = .ok module) :
    (file.stateVariables.map StateVariable.Fields.name).Nodup := by
  obtain ⟨ports, -, h⟩ := bind_eq_ok.mp h
  obtain ⟨slots, -, h⟩ := bind_eq_ok.mp h
  obtain ⟨cells, hcells, h⟩ := bind_eq_ok.mp h
  obtain ⟨rules, -, h⟩ := bind_eq_ok.mp h
  obtain ⟨-, -, hcells'⟩ := ModuleSpec.create_eq_ok h
  have hnames := map_mapM (p := StateVariable.name) (q := StateVariable.Fields.name) hcells
    (fun hok => (StateVariable.create_eq_ok hok).1)
  have hnodup := module.stateVariables_nodup
  rw [hcells'] at hnodup
  rw [← hnames]
  exact hnodup

theorem ModuleFields.load_eq_ok {file : ModuleFields} {module : ModuleSpec}
    (h : file.load = .ok module) : module.LoadedFrom file := by
  obtain ⟨ports, -, h⟩ := bind_eq_ok.mp h
  obtain ⟨slots, hslots, h⟩ := bind_eq_ok.mp h
  obtain ⟨cells, hcells, h⟩ := bind_eq_ok.mp h
  obtain ⟨rules, hrules, h⟩ := bind_eq_ok.mp h
  obtain ⟨hslots', hrules', hcells'⟩ := ModuleSpec.create_eq_ok h
  constructor
  case rule_built =>
    intro rule hrule
    obtain ⟨r, hr, hok⟩ := mapM_result hrules hrule
    refine ⟨r.transformation, ?_, ModuleRule.builtFrom_of_create hok⟩
    rw [ModuleSpec.transformations, hrules']
    exact List.mem_map_of_mem hr
  case rule_origin =>
    intro t ht
    rw [ModuleSpec.transformations, hrules'] at ht
    obtain ⟨r, hr, rfl⟩ := List.mem_map.mp ht
    obtain ⟨rule, hrule, hok⟩ := mapM_origin hrules hr
    exact ⟨rule, hrule, ModuleRule.builtFrom_of_create hok⟩
  case cell_built =>
    intro f hf
    obtain ⟨cell, hcell, hok⟩ := mapM_result hcells hf
    obtain ⟨hname, -, hinitial⟩ := StateVariable.create_eq_ok hok
    exact ⟨cell, hcells' ▸ hcell, hname, hinitial⟩
  case cell_origin =>
    intro cell hcell
    rw [hcells'] at hcell
    obtain ⟨f, hf, hok⟩ := mapM_origin hcells hcell
    obtain ⟨hname, -, hinitial⟩ := StateVariable.create_eq_ok hok
    exact ⟨f, hf, hname, hinitial⟩
  case slot_origin =>
    intro s hs
    rw [hslots'] at hs
    obtain ⟨slot, hslot, rfl⟩ := List.mem_map.mp hs
    obtain ⟨f, hf, hok⟩ := mapM_origin hslots hslot
    obtain ⟨hid, htype, -, hfields⟩ := EventSlot.create_eq_ok hok
    exact ⟨f, hf, hid, htype, hfields⟩

end Umcm
