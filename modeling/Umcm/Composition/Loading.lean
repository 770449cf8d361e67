import Umcm.Composition.Copies
import Umcm.Composition.Engine

/-!
# Loading a module template

Composing modules expands the directives of a template only when it has a `repeat`
entry, and renders it only when placeholders are left. The reference expands and
renders every template; both hand what they get to `ModuleSpec.from_dict`.

* `loadTemplate_iff`: the templates that are loaded as by the reference.
* `loadReference_of_composeModules`: the modules of a composition are those of the
  reference.
-/

namespace Umcm

open Except

/-! ## Reading a module -/

/-- The keys of a module. -/
def moduleKeys : List String :=
  ["schema_version", "name", "metadata", "ports", "internal_events", "slots", "state_variables",
    "transformations", "constraints"]

/-- The entries of a module that are lists. -/
def listLabels : List String :=
  ["ports", "internal_events", "slots", "state_variables", "transformations", "constraints"]

/-- `ModuleSpec.from_dict`; `construct` makes the module from the entries. -/
def moduleFromDict {α : Type} (construct : DocEntries → Except PyError α) :
    Doc → Except PyError α
  | .dict entries => do
    Except.require (keysBeyond moduleKeys entries = []) (.serializationError
      ("module spec contains unknown top-level key(s): " ++ joinKeys (keysBeyond moduleKeys entries)))
    listLabels.forM (fun label => discard
      (asList (.serializationError s!"module {label} must be a list") (sectionValue entries label)))
    construct entries
  | _ => .error (.serializationError "module spec must be a mapping")

/-! ## The steps of loading -/

/-- `expand_module_repeats`. -/
def expandModule (roles : TemplateContext) : Doc → Except PyError Doc
  | .dict raw => do
    let data ← expandModuleRepeats raw roles
    return .dict data
  | _ => .error (.compositionError "module template must be a mapping")

/-- `isinstance(raw_module, Mapping) and raw_module.get("repeat")`. -/
def declaresRepeat : Doc → Bool
  | .dict raw => ((DocEntries.get? raw "repeat").getD (.scalar .none)).truthy
  | _ => false

/-- The first step of the composer. -/
def expandTemplate (name : String) (roles : TemplateContext) (raw : Doc) : Except PyError Doc :=
  if declaresRepeat raw then do
    Except.require (roles.entries.isEmpty = false) (.compositionError
      s!"module {quoted name} declares repeat expansion but no trace roles were resolved")
    expandModule roles raw
  else .ok raw

/-- `", ".join(sorted(placeholders))`. -/
def joinPlaceholders (placeholders : List String) : String :=
  ", ".intercalate (sortedList placeholders.toFinset)

/-- The second step of the composer. -/
def renderModule (name : String) (roles : TemplateContext) (raw : Doc) : Except PyError Doc :=
  if templatePlaceholders raw = [] then .ok raw
  else do
    Except.require (roles.entries.isEmpty = false) (.compositionError
      (s!"module {quoted name} contains template parameters but no trace roles were resolved: " ++
        joinPlaceholders (templatePlaceholders raw)))
    let rendered ← renderTemplate roles raw
    Except.require (templatePlaceholders rendered = []) (.compositionError
      (s!"module {quoted name} still contains unresolved template parameters: " ++
        joinPlaceholders (templatePlaceholders rendered)))
    return rendered

/-- How `compose_modules` loads the file of a module. -/
def loadTemplate {α : Type} (construct : DocEntries → Except PyError α) (name : String)
    (roles : TemplateContext) (raw : Doc) : Except PyError α := do
  let expanded ← expandTemplate name roles raw
  let rendered ← renderModule name roles expanded
  moduleFromDict construct rendered

/-- The reference: every template is expanded and rendered. -/
def loadReference {α : Type} (construct : DocEntries → Except PyError α)
    (roles : TemplateContext) (raw : Doc) : Except PyError α := do
  let expanded ← expandModule roles raw
  let rendered ← renderTemplate roles expanded
  moduleFromDict construct rendered

/-- A template: a mapping without repeated keys. -/
structure ModuleTemplate where
  entries : DocEntries
  distinct : (Doc.dict entries).IsWellFormed

/-- The values of the roles, whose mappings have no repeated keys. -/
structure ResolvedRoles where
  context : TemplateContext
  distinct : IsWellFormedContext context

/-! ## Expansion keeps keys distinct -/

section WellFormed

variable {context : TemplateContext} {data data' : DocEntries}

/-- The step keeps the keys of every mapping distinct. -/
def KeepsDistinct (data data' : DocEntries) : Prop :=
  (Doc.dict data).IsWellFormed → (Doc.dict data').IsWellFormed

theorem keepsDistinct_of_foldlM {γ : Type} {f : DocEntries → γ → Except PyError DocEntries}
    {l : List γ} (hstep : ∀ data, ∀ a ∈ l, ∀ data', f data a = .ok data' → KeepsDistinct data data')
    (h : l.foldlM f data = .ok data') : KeepsDistinct data data' :=
  foldlM_relates (fun _ h => h) (fun h h' hdata => h' (h hdata)) hstep h

theorem IsWellFormedContext.insert (h : IsWellFormedContext context) {name : String} {value : Doc}
    (hvalue : value.IsWellFormed) : IsWellFormedContext (context.insert name value) := by
  intro name' found hfound
  rw [Dict.get?_insert] at hfound
  split_ifs at hfound
  · cases hfound
    exact hvalue
  · exact h name' found hfound

theorem isWellFormed_sectionValue (h : (Doc.dict data).IsWellFormed) (name : String) :
    (sectionValue data name).IsWellFormed := by
  unfold sectionValue
  cases hget : DocEntries.get? data name with
  | none => exact .list [] (by simp)
  | some value => exact DocEntries.isWellFormed_of_get? h hget

theorem isWellFormed_extendSection {directive : String} {entry : DocKey × Doc}
    (hdata : (Doc.dict data).IsWellFormed) (hentry : entry.2.IsWellFormed)
    (h : extendSection directive data entry = .ok data') : (Doc.dict data').IsWellFormed := by
  rcases extendSection_eq_ok.mp h with ⟨values, current, hvalues, hcurrent, rfl⟩
  refine DocEntries.isWellFormed_set hdata ?_
  have hold := isWellFormed_sectionValue hdata entry.1.pyStr
  rw [hcurrent] at hold
  rw [hvalues] at hentry
  rcases hold with _ | _ | ⟨_, hold⟩ | _
  rcases hentry with _ | _ | ⟨_, hnew⟩ | _
  refine .list _ ?_
  intro item hitem
  rcases List.mem_append.mp hitem with hitem | hitem
  · exact hold item hitem
  · exact hnew item hitem

theorem isWellFormed_appendRendered {directive : String} {sections : DocEntries}
    (hcontext : IsWellFormedContext context) (hdata : (Doc.dict data).IsWellFormed)
    (h : appendRendered directive sections data context = .ok data') :
    (Doc.dict data').IsWellFormed := by
  rcases bind_eq_ok.mp h with ⟨rendered, hrendered, hloop⟩
  have hvalues := (isWellFormed_renderEntries hcontext sections [] rendered hrendered .nil
    (by simp)).2
  refine keepsDistinct_of_foldlM ?_ hloop hdata
  intro data entry hmem data' hstep hdata
  exact isWellFormed_extendSection hdata (hvalues entry hmem) hstep

theorem isWellFormed_items {path : String} {collection : List Doc}
    (hcontext : IsWellFormedContext context)
    (h : resolveContextPath context path = .ok (.list collection)) :
    ∀ item ∈ collection, item.IsWellFormed := by
  rcases isWellFormed_resolveContextPath hcontext h with _ | _ | ⟨_, hitems⟩ | _
  exact hitems

theorem isWellFormed_expandRepeat {spec : Doc} (hcontext : IsWellFormedContext context)
    (hdata : (Doc.dict data).IsWellFormed) (h : expandRepeat context data spec = .ok data') :
    (Doc.dict data').IsWellFormed := by
  unfold expandRepeat at h
  simp only [bind_eq_ok, asList_eq_ok] at h
  rcases h with ⟨_, -, _, -, path, -, name, -, _, -, _, -, _, hresolve, collection, rfl, sections, -,
    _, -, hloop⟩
  have hcollection : resolveContextPath context path.pyStr = .ok (.list collection) := by
    unfold resolveCollection at hresolve
    split at hresolve
    · cases hresolve
    · exact hresolve
  have hitems := isWellFormed_items hcontext hcollection
  refine keepsDistinct_of_foldlM ?_ hloop hdata
  rintro data ⟨item, position⟩ hmem data' hstep hdata
  rcases bind_eq_ok.mp hstep with ⟨localContext, hbind, happend⟩
  rcases bind_eq_ok.mp hbind with ⟨entries, hentries, hlocal⟩
  cases hlocal
  rw [asMapping_eq_ok] at hentries
  have hitem := hitems item (List.mem_of_getElem? (List.mem_zipIdx_iff_getElem?.mp hmem))
  simp only at hentries
  rw [hentries] at hitem
  exact isWellFormed_appendRendered
    (hcontext.insert (DocEntries.isWellFormed_set hitem (.scalar _))) hdata happend

theorem isWellFormed_productContext {names : List String} {items : List (Doc × Nat)} {copy : Nat}
    {localContext : TemplateContext} (hcontext : IsWellFormedContext context)
    (hitems : ∀ item ∈ items, item.1.IsWellFormed)
    (h : productContext context names items copy = .ok localContext) :
    IsWellFormedContext localContext := by
  rcases bind_eq_ok.mp h with ⟨bound, hloop, h⟩
  have hbound : IsWellFormedContext bound := by
    refine foldlM_relates (R := fun c c' => IsWellFormedContext c → IsWellFormedContext c')
      (fun _ h => h) (fun h h' hc => h' (h hc)) ?_ hloop hcontext
    intro c axis hmem c' hstep hc
    rcases bindAxis_eq_ok.mp hstep with ⟨original, horiginal, rfl⟩
    have hitem := hitems axis.2 (List.of_mem_zip hmem).2
    rw [horiginal] at hitem
    exact hc.insert (DocEntries.isWellFormed_set
      (DocEntries.isWellFormed_set hitem (.scalar _)) (.scalar _))
  cases h
  refine hbound.insert (.dict _ (List.pairwise_singleton _ _) ?_)
  intro entry hentry
  rw [List.mem_singleton.mp hentry]
  exact .scalar _

theorem isWellFormed_expandProduct {spec : Doc} (hcontext : IsWellFormedContext context)
    (hdata : (Doc.dict data).IsWellFormed) (h : expandProduct context data spec = .ok data') :
    (Doc.dict data').IsWellFormed := by
  unfold expandProduct at h
  simp only [bind_eq_ok] at h
  rcases h with ⟨_, -, _, -, _, -, docs, -, sections, -, _, -, read, hread, hloop⟩
  rcases axes_of_foldlM hread with ⟨axes, rfl, -, haxes⟩
  refine keepsDistinct_of_foldlM ?_ hloop hdata
  rintro data ⟨items, copy⟩ hmem data' hstep hdata
  rcases bind_eq_ok.mp hstep with ⟨localContext, hbind, happend⟩
  have hchosen : IsChosen axes items := isChosen_of_mem (List.mem_of_getElem? (List.mem_zipIdx_iff_getElem?.mp hmem))
  refine isWellFormed_appendRendered (isWellFormed_productContext hcontext ?_ hbind) hdata happend
  intro item hitem
  rcases exists_right_of_forall₂ hchosen hitem with ⟨axis, haxis, hget⟩
  rcases exists_left_of_forall₂ haxes haxis with ⟨doc, -, _, _, _, -, -, -, -, hresolve⟩
  exact isWellFormed_items hcontext hresolve item.1 (List.mem_of_getElem? hget)

theorem isWellFormed_expandModuleRepeats {raw : DocEntries} (hcontext : IsWellFormedContext context)
    (hraw : (Doc.dict raw).IsWellFormed) (h : expandModuleRepeats raw context = .ok data) :
    (Doc.dict data).IsWellFormed := by
  have hrest : (Doc.dict (withoutDirectives raw)).IsWellFormed :=
    DocEntries.isWellFormed_remove (DocEntries.isWellFormed_remove hraw)
  unfold expandModuleRepeats at h
  dsimp only at h
  split_ifs at h
  · cases h
    exact hrest
  · simp only [bind_eq_ok] at h
    rcases h with ⟨repeats, -, products, -, repeated, hrepeats, hproducts⟩
    have hrepeated : (Doc.dict repeated).IsWellFormed :=
      keepsDistinct_of_foldlM (fun _ _ _ _ hstep hdata =>
        isWellFormed_expandRepeat hcontext hdata hstep) hrepeats hrest
    exact keepsDistinct_of_foldlM (fun _ _ _ _ hstep hdata =>
      isWellFormed_expandProduct hcontext hdata hstep) hproducts hrepeated

end WellFormed

/-! ## Directives that are not expanded -/

section Keys

variable {α : Type} {construct : DocEntries → Except PyError α} {raw : DocEntries} {spec : α}

theorem text_mem_of_get? {name : String} {value : Doc} (h : DocEntries.get? raw name = some value) :
    DocKey.text name ∈ raw.map Prod.fst := by
  rcases DocEntries.mem_of_get? h with ⟨entry, hmem, hname, -⟩
  refine List.mem_map.mpr ⟨entry, hmem, ?_⟩
  unfold DocEntries.hasName DocKey.text? at hname
  split at hname
  · rename_i s hkey
    rw [decide_eq_true_eq, Option.some.injEq] at hname
    rw [hkey, hname]
    rfl
  · cases of_decide_eq_true hname

/-- A module has only the keys of a module. -/
theorem key_of_moduleFromDict (h : moduleFromDict construct (.dict raw) = .ok spec) {key : DocKey}
    (hkey : key ∈ raw.map Prod.fst) : ∃ name ∈ moduleKeys, key = .text name := by
  rcases bind_eq_ok.mp h with ⟨_, hknown, -⟩
  rw [require_eq_ok, keysBeyond_eq_nil] at hknown
  rcases List.mem_map.mp hkey with ⟨entry, hmem, rfl⟩
  exact hknown entry hmem

/-- A directive that is left in the mapping is a key that no module has. -/
theorem not_module_of_directive {name : String}
    (hname : name = "repeat" ∨ name = "repeat_product")
    (hkey : DocKey.text name ∈ raw.map Prod.fst) :
    moduleFromDict construct (.dict raw) ≠ .ok spec := by
  intro h
  rcases key_of_moduleFromDict h hkey with ⟨known, hknown, heq⟩
  have hsame : name = known := Value.str.inj (DocKey.scalar.inj heq)
  rw [← hsame] at hknown
  rcases hname with rfl | rfl <;> exact absurd hknown (by decide)

end Keys

theorem renderModule_eq_ok {name : String} {roles : TemplateContext} {raw rendered : Doc} :
    renderModule name roles raw = .ok rendered ↔
      (templatePlaceholders raw = [] ∧ rendered = raw) ∨
      (templatePlaceholders raw ≠ [] ∧ roles.entries.isEmpty = false ∧
        renderTemplate roles raw = .ok rendered ∧ templatePlaceholders rendered = []) := by
  unfold renderModule
  split_ifs with hplain
  · constructor
    · intro h
      exact .inl ⟨hplain, (Except.ok.inj h).symm⟩
    · rintro (⟨-, rfl⟩ | ⟨hne, -⟩)
      · rfl
      · exact absurd hplain hne
  · simp only [bind_eq_ok, require_eq_ok, hplain, false_and, false_or, ne_eq, not_false_eq_true,
      true_and]
    constructor
    · rintro ⟨-, hroles, _, hrender, -, hleft, heq⟩
      cases heq
      exact ⟨hroles, hrender, hleft⟩
    · rintro ⟨hroles, hrender, hleft⟩
      exact ⟨(), hroles, rendered, hrender, (), hleft, rfl⟩

/-- A mapping is rendered to a mapping with the directives that it has. -/
theorem directive_of_renderTemplate {roles : TemplateContext} {raw : DocEntries} {rendered : Doc}
    {name : String} (hname : name = "repeat" ∨ name = "repeat_product")
    (hkey : DocKey.text name ∈ raw.map Prod.fst)
    (h : renderTemplate roles (.dict raw) = .ok rendered) :
    ∃ entries, rendered = .dict entries ∧ DocKey.text name ∈ entries.map Prod.fst := by
  rw [renderTemplate] at h
  obtain ⟨entries, hentries, heq⟩ := bind_eq_ok.mp h
  cases heq
  have hplain : keyPlaceholders (.text name) = [] := by
    rcases hname with rfl | rfl <;> decide
  exact ⟨entries, rfl, key_of_renderEntries hentries (.inl hkey) hplain⟩

/-! ## Without roles -/

section NoRoles

variable {roles : TemplateContext} (hempty : roles.entries.isEmpty = true)

include hempty

theorem not_resolved_of_empty {path : String} {value : Doc} :
    resolveContextPath roles path ≠ .ok value := by
  intro h
  have hnone : ∀ part, roles.get? part = none := by
    intro part
    rw [Dict.get?_eq_none_iff]
    unfold Dict.keys
    rw [List.isEmpty_iff.mp hempty]
    simp
  unfold resolveContextPath at h
  split at h
  · cases h
  · rw [hnone] at h
    cases h

theorem not_repeated_of_empty {data data' : DocEntries} {spec : Doc} :
    expandRepeat roles data spec ≠ .ok data' := by
  intro h
  unfold expandRepeat at h
  simp only [bind_eq_ok] at h
  rcases h with ⟨_, -, _, -, path, -, name, -, _, -, _, -, collection, hresolve, -⟩
  unfold resolveCollection at hresolve
  split at hresolve
  · cases hresolve
  · exact not_resolved_of_empty hempty hresolve

/-- A template that declares a repetition is not expanded without roles. -/
theorem not_expanded_of_empty {raw data : DocEntries} (hrepeat : declaresRepeat (.dict raw) = true) :
    expandModuleRepeats raw roles ≠ .ok data := by
  intro h
  have htruthy : (directives raw "repeat").truthy = true := by
    unfold declaresRepeat at hrepeat
    unfold directives
    cases hget : DocEntries.get? raw "repeat" with
    | none =>
        simp only [hget] at hrepeat
        cases hrepeat
    | some value =>
        simp only [hget] at hrepeat
        exact hrepeat
  unfold expandModuleRepeats at h
  simp only [htruthy, Bool.not_true, Bool.false_and, Bool.false_eq_true, if_false, bind_eq_ok,
    asList_eq_ok] at h
  rcases h with ⟨repeats, hrepeats, products, -, repeated, hloop, -⟩
  rw [hrepeats] at htruthy
  cases repeats with
  | nil => cases htruthy
  | cons spec repeats =>
      obtain ⟨middle, hfirst, -⟩ := bind_eq_ok.mp ((List.foldlM_cons ..).symm.trans hloop)
      exact not_repeated_of_empty hempty hfirst

theorem plain_of_rendered_empty {d value : Doc} (h : renderTemplate roles d = .ok value) :
    templatePlaceholders d = [] := by
  rw [List.eq_nil_iff_forall_not_mem]
  intro path hpath
  rcases resolves_of_renderTemplate d value h hpath with ⟨found, hfound⟩
  exact not_resolved_of_empty hempty hfound

end NoRoles

/-! ## The templates that are loaded as by the reference -/

/-- The composer hands the template to the expander, or there is nothing to expand. -/
def ReachesExpander (raw : DocEntries) : Prop :=
  declaresRepeat (.dict raw) = true ∨
    (DocEntries.get? raw "repeat" = none ∧ DocEntries.get? raw "repeat_product" = none)

/-- No value of a role puts a placeholder into what is rendered. -/
def LeavesNoPlaceholder (roles : TemplateContext) (raw : DocEntries) : Prop :=
  ∀ expanded rendered, expandModuleRepeats raw roles = .ok expanded →
    renderTemplate roles (.dict expanded) = .ok rendered → templatePlaceholders rendered = []

theorem expandModuleRepeats_of_none {raw : DocEntries} {roles : TemplateContext}
    (hrepeat : DocEntries.get? raw "repeat" = none)
    (hproduct : DocEntries.get? raw "repeat_product" = none) :
    expandModuleRepeats raw roles = .ok raw := by
  have hrest : DocEntries.remove (DocEntries.remove raw "repeat") "repeat_product" = raw := by
    rw [DocEntries.remove_of_get?_none hrepeat, DocEntries.remove_of_get?_none hproduct]
  unfold expandModuleRepeats directives
  simp only [hrest, hrepeat, hproduct, Option.getD_none]
  rfl

section Loading

variable {α : Type} {construct : DocEntries → Except PyError α} {name : String} {spec : α}

/-- A template that the composer expands, if it does, is expanded as by the reference. -/
theorem expandTemplate_of_reaches {roles : TemplateContext} {raw : DocEntries} {expanded : Doc}
    (hreach : ReachesExpander raw) :
    expandTemplate name roles (.dict raw) = .ok expanded ↔
      expandModule roles (.dict raw) = .ok expanded := by
  unfold expandTemplate
  split_ifs with hrepeat
  · simp only [bind_eq_ok, require_eq_ok]
    constructor
    · rintro ⟨-, -, h⟩
      exact h
    · intro h
      refine ⟨(), ?_, h⟩
      -- without roles the expander raises as well
      by_contra hempty
      rw [Bool.not_eq_false] at hempty
      obtain ⟨data, hdata, -⟩ := bind_eq_ok.mp h
      exact not_expanded_of_empty hempty hrepeat hdata
  · rcases hreach with hreach | ⟨hnone, hnone'⟩
    · exact absurd hreach hrepeat
    · simp only [expandModule, expandModuleRepeats_of_none hnone hnone', ok_bind]
      rfl

theorem loadReference_of_loadTemplate {roles : ResolvedRoles} {template : ModuleTemplate}
    (h : loadTemplate construct name roles.context (.dict template.entries) = .ok spec) :
    loadReference construct roles.context (.dict template.entries) = .ok spec ∧
      ReachesExpander template.entries ∧
      LeavesNoPlaceholder roles.context template.entries := by
  rcases bind_eq_ok.mp h with ⟨expanded, hexpand, h⟩
  rcases bind_eq_ok.mp h with ⟨rendered, hrender, hmodule⟩
  have hreach : ReachesExpander template.entries := by
    by_contra hnot
    unfold ReachesExpander at hnot
    rw [not_or, Bool.not_eq_true] at hnot
    unfold expandTemplate at hexpand
    rw [hnot.1, if_neg Bool.false_ne_true] at hexpand
    cases hexpand
    -- a directive that is not expanded stays a key of the mapping
    have hkey : ∃ directive, (directive = "repeat" ∨ directive = "repeat_product") ∧
        DocKey.text directive ∈ template.entries.map Prod.fst := by
      rcases hrepeat : DocEntries.get? template.entries "repeat" with _ | value
      · rcases hproduct : DocEntries.get? template.entries "repeat_product" with _ | value
        · exact absurd ⟨hrepeat, hproduct⟩ hnot.2
        · exact ⟨_, .inr rfl, text_mem_of_get? hproduct⟩
      · exact ⟨_, .inl rfl, text_mem_of_get? hrepeat⟩
    rcases hkey with ⟨directive, hdirective, hmem⟩
    rcases renderModule_eq_ok.mp hrender with ⟨-, rfl⟩ | ⟨-, -, hrendered, -⟩
    · exact not_module_of_directive hdirective hmem hmodule
    · rcases directive_of_renderTemplate hdirective hmem hrendered with ⟨entries, rfl, hmem'⟩
      exact not_module_of_directive hdirective hmem' hmodule
  rw [expandTemplate_of_reaches hreach] at hexpand
  rcases bind_eq_ok.mp hexpand with ⟨data, hdata, heq⟩
  cases heq
  have hrendered : renderTemplate roles.context (.dict data) = .ok rendered ∧
      templatePlaceholders rendered = [] := by
    rcases renderModule_eq_ok.mp hrender with ⟨hplain, rfl⟩ | ⟨-, -, hrendered, hleft⟩
    · have hwf := isWellFormed_expandModuleRepeats roles.distinct template.distinct hdata
      exact ⟨renderTemplate_of_plain _ hwf hplain, hplain⟩
    · exact ⟨hrendered, hleft⟩
  refine ⟨?_, hreach, ?_⟩
  · unfold loadReference
    rw [hexpand, ok_bind, hrendered.1, ok_bind, hmodule]
  · intro data' rendered' hdata' hrendered'
    rw [hdata, Except.ok.injEq] at hdata'
    rw [← hdata', hrendered.1, Except.ok.injEq] at hrendered'
    rw [← hrendered']
    exact hrendered.2

theorem loadTemplate_of_loadReference {roles : ResolvedRoles} {template : ModuleTemplate}
    (hreach : ReachesExpander template.entries)
    (hleft : LeavesNoPlaceholder roles.context template.entries)
    (h : loadReference construct roles.context (.dict template.entries) = .ok spec) :
    loadTemplate construct name roles.context (.dict template.entries) = .ok spec := by
  rcases bind_eq_ok.mp h with ⟨expanded, hexpand, h⟩
  rcases bind_eq_ok.mp h with ⟨rendered, hrendered, hmodule⟩
  rcases bind_eq_ok.mp hexpand with ⟨data, hdata, heq⟩
  cases heq
  have hrender : renderModule name roles.context (.dict data) = .ok rendered := by
    rw [renderModule_eq_ok]
    rcases eq_or_ne (templatePlaceholders (.dict data)) [] with hplain | hplaceholders
    · have hwf := isWellFormed_expandModuleRepeats roles.distinct template.distinct hdata
      rw [renderTemplate_of_plain _ hwf hplain, Except.ok.injEq] at hrendered
      exact .inl ⟨hplain, hrendered.symm⟩
    · refine .inr ⟨hplaceholders, ?_, hrendered, hleft _ _ hdata hrendered⟩
      by_contra hempty
      rw [Bool.not_eq_false] at hempty
      exact hplaceholders (plain_of_rendered_empty hempty hrendered)
  unfold loadTemplate
  rw [(expandTemplate_of_reaches hreach).mpr hexpand, ok_bind, hrender, ok_bind, hmodule]

end Loading

/-- The composer loads the same module as the reference, or both raise, exactly for the
templates that the reference rejects and for those that reach the expander, if they need it,
and have no placeholder left. -/
theorem loadTemplate_iff {α : Type} (construct : DocEntries → Except PyError α) (name : String)
    (roles : ResolvedRoles) (template : ModuleTemplate) :
    (∀ spec, loadTemplate construct name roles.context (.dict template.entries) = .ok spec ↔
      loadReference construct roles.context (.dict template.entries) = .ok spec) ↔
    (∃ error, loadReference construct roles.context (.dict template.entries) = .error error) ∨
      (ReachesExpander template.entries ∧
        LeavesNoPlaceholder roles.context template.entries) := by
  constructor
  · intro hsame
    cases href : loadReference construct roles.context (.dict template.entries) with
    | error e => exact .inl ⟨e, rfl⟩
    | ok spec => exact .inr (loadReference_of_loadTemplate ((hsame spec).mpr href)).2
  · rintro hcondition spec
    constructor
    · intro h
      exact (loadReference_of_loadTemplate h).1
    · intro h
      rcases hcondition with ⟨e, he⟩ | ⟨hreach, hleft⟩
      · rw [he] at h
        cases h
      · exact loadTemplate_of_loadReference hreach hleft h

/-- A template whose only directive is a product is rejected, whatever it expands to. -/
theorem product_not_expanded :
    loadTemplate Except.ok "pairs" equalLoads (.dict pairTemplate) =
      .error (unresolved "product.repeat_index" ["product"]) ∧
    loadReference Except.ok equalLoads (.dict pairTemplate) =
      .ok [(.text "slots", .list (["pair_0", "pair_1", "pair_2", "pair_3"].map
        (fun id => .dict [(.text "id", .text id)])))] := by
  exact ⟨rfl, rfl⟩

/-! ## Compositions of templates -/

/-- The file of a reference, loaded in the context of the roles. -/
def templateLoader (construct : DocEntries → Except PyError ModuleSpec)
    (files : ModuleReference → Except PyError (String × ModuleTemplate)) (roles : ResolvedRoles)
    (reference : ModuleReference) : Except PyError ModuleFile := do
  let file ← files reference
  let spec ← loadTemplate construct reference.name roles.context (.dict file.2.entries)
  return ⟨file.1, spec⟩

/-- The modules of a composition are those that the reference loads. -/
theorem loadReference_of_composeModules {construct : DocEntries → Except PyError ModuleSpec}
    {files : ModuleReference → Except PyError (String × ModuleTemplate)} {catalog : EventCatalog}
    {resolve : Except PyError ResolvedRoles} {composition : CompositionSpec}
    {result : CompositionResult}
    (h : composeModules catalog resolve (templateLoader construct files) composition = .ok result)
    {m : LoadedModule} (hm : m ∈ result.modules) :
    ∃ roles reference file, resolve = .ok roles ∧ reference ∈ composition.modules ∧
      files reference = .ok file ∧ m.referenceName = reference.name ∧
      loadReference construct roles.context (.dict file.2.entries) = .ok m.spec := by
  unfold composeModules at h
  simp only [bind_eq_ok] at h
  rcases h with ⟨roles, hroles, modules, hmodules, _, -, merged, -, connected, -, _, -, completion,
    -, h⟩
  cases h
  rcases mapM_origin hmodules hm with ⟨reference, hreference, hload⟩
  unfold Compose.loadModule at hload
  simp only [bind_eq_ok] at hload
  rcases hload with ⟨loaded, hloaded, _, -, _, -, hresult⟩
  cases hresult
  unfold templateLoader at hloaded
  simp only [bind_eq_ok] at hloaded
  rcases hloaded with ⟨file, hfile, spec, hspec, hresult⟩
  cases hresult
  exact ⟨roles, reference, file, hroles, hreference, hfile, rfl,
    (loadReference_of_loadTemplate hspec).1⟩

end Umcm
