import Umcm.Composition.Repeats
import Umcm.Data.Text

/-!
# The copies of a product

A directive over several axes appends one copy of its fragment for each choice of
a position on every axis, with the positions in lexicographic order. What is
appended is stated apart from the loops that append it.

* `copies_of_product`: the copies that every directive of a run appends, with what
  the names of each copy denote and that texts with the number of the copy differ.
-/

namespace Umcm

open Except

/-! ## Sections -/

/-- The value of a section; a section that is absent is empty. -/
def sectionValue (data : DocEntries) (name : String) : Doc :=
  (DocEntries.get? data name).getD (.list [])

/-- Every section is as before, or a list that was made longer. -/
def OnlyAppended (before after : DocEntries) : Prop :=
  ∀ name, DocEntries.get? after name = DocEntries.get? before name ∨
    ∃ old new, sectionValue before name = .list old ∧
      DocEntries.get? after name = some (.list (old ++ new))

namespace OnlyAppended

variable {before middle after : DocEntries}

theorem refl (data : DocEntries) : OnlyAppended data data := fun _ => .inl rfl

theorem trans (h : OnlyAppended before middle) (h' : OnlyAppended middle after) :
    OnlyAppended before after := by
  intro name
  rcases h name with heq | ⟨old, new, hold, hnew⟩
  · rcases h' name with heq' | ⟨old', new', hold', hnew'⟩
    · exact .inl (heq'.trans heq)
    · unfold sectionValue at hold'
      rw [heq] at hold'
      exact .inr ⟨old', new', hold', hnew'⟩
  · rcases h' name with heq' | ⟨old', new', hold', hnew'⟩
    · exact .inr ⟨old, new, hold, heq'.trans hnew⟩
    · -- the list in between is the one that the second stage made longer
      unfold sectionValue at hold'
      rw [hnew, Option.getD_some, Doc.list.injEq] at hold'
      rw [← hold', List.append_assoc] at hnew'
      exact .inr ⟨old, new ++ new', hold, hnew'⟩

end OnlyAppended

section Appending

variable {directive : String} {data data' : DocEntries}

theorem asList_eq_ok {error : PyError} {d : Doc} {items : List Doc} :
    asList error d = .ok items ↔ d = .list items := by
  cases d <;> simp [asList]

theorem asMapping_eq_ok {error : PyError} {d : Doc} {entries : DocEntries} :
    asMapping error d = .ok entries ↔ d = .dict entries := by
  cases d <;> simp [asMapping]

theorem extendSection_eq_ok {entry : DocKey × Doc} :
    extendSection directive data entry = .ok data' ↔
      ∃ values current, entry.2 = .list values ∧
        sectionValue data entry.1.pyStr = .list current ∧
        data' = DocEntries.set data entry.1.pyStr (.list (current ++ values)) := by
  unfold extendSection
  simp only [bind_eq_ok, asList_eq_ok]
  constructor
  · rintro ⟨values, hvalues, current, hcurrent, h⟩
    exact ⟨values, current, hvalues, hcurrent, (Except.ok.inj h).symm⟩
  · rintro ⟨values, current, hvalues, hcurrent, rfl⟩
    exact ⟨values, hvalues, current, hcurrent, rfl⟩

theorem onlyAppended_of_extendSection {entry : DocKey × Doc}
    (h : extendSection directive data entry = .ok data') : OnlyAppended data data' := by
  rcases extendSection_eq_ok.mp h with ⟨values, current, -, hcurrent, rfl⟩
  intro name
  rw [DocEntries.get?_set]
  split_ifs with heq
  · subst heq
    exact .inr ⟨current, values, hcurrent, rfl⟩
  · exact .inl rfl

theorem onlyAppended_of_foldlM {γ : Type} {f : DocEntries → γ → Except PyError DocEntries}
    {l : List γ} (hstep : ∀ data, ∀ a ∈ l, ∀ data', f data a = .ok data' → OnlyAppended data data')
    (h : l.foldlM f data = .ok data') : OnlyAppended data data' :=
  foldlM_relates .refl .trans hstep h

theorem onlyAppended_of_appendRendered {sections : DocEntries} {context : TemplateContext}
    (h : appendRendered directive sections data context = .ok data') : OnlyAppended data data' := by
  rcases bind_eq_ok.mp h with ⟨rendered, -, hfold⟩
  exact onlyAppended_of_foldlM (fun _ _ _ _ => onlyAppended_of_extendSection) hfold

end Appending

theorem onlyAppended_of_expandRepeat {context : TemplateContext} {spec : Doc}
    {data data' : DocEntries} (h : expandRepeat context data spec = .ok data') :
    OnlyAppended data data' := by
  unfold expandRepeat at h
  simp only [bind_eq_ok] at h
  rcases h with ⟨_, -, _, -, _, -, _, -, _, -, _, -, _, -, _, -, _, -, _, -, hfold⟩
  refine onlyAppended_of_foldlM ?_ hfold
  intro data item _ data' hitem
  rcases bind_eq_ok.mp hitem with ⟨_, -, happend⟩
  exact onlyAppended_of_appendRendered happend

/-! ## The contexts of the copies -/

/-- One axis of a directive: the name it binds and the collection it ranges over. -/
def IsAxis (context : TemplateContext) (axis : Doc) (bound : String × List Doc) : Prop :=
  ∃ entries path name, axis = .dict entries ∧ DocEntries.get? entries "over" = some path ∧
    DocEntries.get? entries "as" = some name ∧ bound.1 = name.pyStr ∧
    resolveContextPath context path.pyStr = .ok (.list bound.2)

/-- An item with its position in the collection and the number of the copy. -/
structure IsIndexed (original : DocEntries) (position copy : Nat) (entries : DocEntries) :
    Prop where
  repeatIndex : DocEntries.get? entries "repeat_index" = some (indexValue position)
  productIndex : DocEntries.get? entries "product_index" = some (indexValue copy)
  other : ∀ name, name ≠ "repeat_index" → name ≠ "product_index" →
    DocEntries.get? entries name = DocEntries.get? original name

/-- What the names of a copy denote: `product` its number, the other names of the axes
the items at these positions, and every other name what it denotes for the module. -/
structure IsCopyContext (context : TemplateContext) (axes : List (String × List Doc))
    (positions : List Nat) (copy : Nat) (localContext : TemplateContext) : Prop where
  item : ∀ (axis : Nat) (bound : String × List Doc), axes[axis]? = some bound → bound.1 ≠ "product" →
    ∃ position original entries, positions[axis]? = some position ∧
      bound.2[position]? = some (.dict original) ∧
      localContext.get? bound.1 = some (.dict entries) ∧ IsIndexed original position copy entries
  product : localContext.get? "product" =
    some (.dict [(.text "repeat_index", indexValue copy)])
  other : ∀ name, name ≠ "product" → name ∉ axes.map Prod.fst →
    localContext.get? name = context.get? name

theorem isIndexed_axisItem (item : DocEntries) (position copy : Nat) :
    IsIndexed item position copy (axisItem item position copy) := by
  refine ⟨?_, ?_, ?_⟩
  · unfold axisItem
    rw [DocEntries.get?_set, if_neg (by decide), DocEntries.get?_set, if_pos rfl]
  · unfold axisItem
    rw [DocEntries.get?_set, if_pos rfl]
  · intro name hrepeat hproduct
    unfold axisItem
    rw [DocEntries.get?_set, if_neg hproduct, DocEntries.get?_set, if_neg hrepeat]

theorem bindAxis_eq_ok {copy : Nat} {context localContext : TemplateContext}
    {axis : String × Doc × Nat} :
    bindAxis copy context axis = .ok localContext ↔ ∃ original, axis.2.1 = .dict original ∧
      localContext = context.insert axis.1 (.dict (axisItem original axis.2.2 copy)) := by
  unfold bindAxis
  simp only [bind_eq_ok, asMapping_eq_ok]
  constructor
  · rintro ⟨original, horiginal, h⟩
    exact ⟨original, horiginal, (Except.ok.inj h).symm⟩
  · rintro ⟨original, horiginal, rfl⟩
    exact ⟨original, horiginal, rfl⟩

/-- After the loop over the axes every alias denotes its own item. -/
theorem get?_of_bindAxes {copy : Nat} {bound : List (String × Doc × Nat)}
    {context localContext : TemplateContext} (hnodup : (bound.map Prod.fst).Nodup)
    (h : bound.foldlM (bindAxis copy) context = .ok localContext) :
    (∀ axis ∈ bound, ∃ original, axis.2.1 = .dict original ∧
      localContext.get? axis.1 = some (.dict (axisItem original axis.2.2 copy))) ∧
    ∀ name ∉ bound.map Prod.fst, localContext.get? name = context.get? name := by
  induction bound generalizing context with
  | nil =>
      cases h
      exact ⟨fun _ hmem => (by cases hmem), fun _ _ => rfl⟩
  | cons axis bound ih =>
      rw [List.map_cons, List.nodup_cons] at hnodup
      rcases bind_eq_ok.mp ((List.foldlM_cons ..).symm.trans h) with ⟨middle, hfirst, hrest⟩
      rcases bindAxis_eq_ok.mp hfirst with ⟨original, horiginal, rfl⟩
      rcases ih hnodup.2 hrest with ⟨hitems, hother⟩
      constructor
      · intro axis' hmem
        rcases List.mem_cons.mp hmem with rfl | hmem
        · -- the later axes have other names
          refine ⟨original, horiginal, ?_⟩
          rw [hother _ hnodup.1, Dict.get?_insert_self]
        · exact hitems axis' hmem
      · intro name hname
        rw [List.map_cons, List.mem_cons, not_or] at hname
        rw [hother _ hname.2, Dict.get?_insert_of_ne _ hname.1]

/-- The items of a collection at these positions, with the positions. -/
def IsChosen (axes : List (String × List Doc)) (items : List (Doc × Nat)) : Prop :=
  List.Forall₂ (fun item axis => axis.2[item.2]? = some item.1) items axes

theorem of_forall₂_getElem? {α β : Type} {R : α → β → Prop} {l : List α} {r : List β}
    (h : List.Forall₂ R l r) {i : Nat} {a : α} {b : β} (ha : l[i]? = some a)
    (hb : r[i]? = some b) : R a b := by
  induction h generalizing i with
  | nil => cases ha
  | cons hhead _ ih =>
      cases i with
      | zero =>
          cases ha
          cases hb
          exact hhead
      | succ i => exact ih ha hb

theorem isCopyContext_of_productContext {context localContext : TemplateContext}
    {axes : List (String × List Doc)} {items : List (Doc × Nat)} {copy : Nat}
    (hnodup : (axes.map Prod.fst).Nodup) (hitems : IsChosen axes items)
    (h : productContext context (axes.map Prod.fst) items copy = .ok localContext) :
    IsCopyContext context axes (items.map Prod.snd) copy localContext := by
  rcases bind_eq_ok.mp h with ⟨all, hall, h⟩
  have hlen : items.length = axes.length := hitems.length_eq
  have hfst : ((axes.map Prod.fst).zip items).map Prod.fst = axes.map Prod.fst :=
    List.map_fst_zip (by rw [List.length_map, hlen])
  rcases get?_of_bindAxes (by rw [hfst]; exact hnodup) hall with ⟨hget, hother⟩
  cases h
  refine ⟨?_, Dict.get?_insert_self .., ?_⟩
  · intro axis bound hbound hne
    have hlt := (List.getElem?_eq_some_iff.mp hbound).1
    obtain ⟨item, hitem⟩ : ∃ item, items[axis]? = some item :=
      ⟨_, List.getElem?_eq_getElem (by omega)⟩
    have hchosen : bound.2[item.2]? = some item.1 := of_forall₂_getElem? hitems hitem hbound
    have hmem : (bound.1, item) ∈ (axes.map Prod.fst).zip items := by
      refine List.mem_iff_getElem?.mpr ⟨axis, ?_⟩
      rw [List.getElem?_zip_eq_some]
      exact ⟨by rw [List.getElem?_map, hbound]; rfl, hitem⟩
    rcases hget _ hmem with ⟨original, horiginal, hlookup⟩
    refine ⟨item.2, original, _, ?_, ?_, ?_, isIndexed_axisItem ..⟩
    · rw [List.getElem?_map, hitem]
      rfl
    · rw [hchosen]
      exact congrArg some horiginal
    · rw [Dict.get?_insert_of_ne _ hne]
      exact hlookup
  · intro name hne hname
    rw [Dict.get?_insert_of_ne _ hne, hother]
    rw [hfst]
    exact hname

/-! ## Appending a rendered fragment -/

theorem keysBeyond_eq_nil {allowed : List String} {entries : DocEntries} :
    keysBeyond allowed entries = [] ↔
      ∀ entry ∈ entries, ∃ name ∈ allowed, entry.1 = .text name := by
  unfold keysBeyond
  rw [List.filter_eq_nil_iff, List.forall_mem_map]
  refine forall₂_congr ?_
  rintro ⟨key, value⟩ -
  constructor
  · intro h
    rcases htext : key.text? with _ | name
    · simp [htext] at h
    · simp only [htext, decide_not, Bool.not_eq_eq_eq_not, Bool.not_true,
        decide_eq_false_iff_not, not_not] at h
      refine ⟨name, h, ?_⟩
      unfold DocKey.text? at htext
      split at htext
      · cases htext
        rfl
      · cases htext
  · rintro ⟨name, hname, hkey⟩
    simp only at hkey
    subst hkey
    simpa [DocKey.text, DocKey.text?] using hname

theorem requireKeys_eq_ok {message : String} {allowed : List String} {entries : DocEntries}
    {u : Unit} : requireKeys message allowed entries = .ok u ↔
      ∀ entry ∈ entries, ∃ name ∈ allowed, entry.1 = .text name := by
  unfold requireKeys
  rw [require_eq_ok, List.isEmpty_iff, keysBeyond_eq_nil]

theorem keyPlaceholders_of_allowed : ∀ name ∈ allowedSections,
    keyPlaceholders (.text name) = [] := by
  decide

/-- The rendered entries of a mapping whose keys have no placeholders. -/
def IsRendered (context : TemplateContext) (entries rendered : DocEntries) : Prop :=
  List.Forall₂ (fun entry entry' => entry'.1 = entry.1 ∧
    renderTemplate context entry.2 = .ok entry'.2) entries rendered

theorem isRendered_of_renderEntries {context : TemplateContext}
    {entries seen rendered : DocEntries} (hkeys : ∀ entry ∈ entries, keyPlaceholders entry.1 = [])
    (h : renderEntries context entries seen = .ok rendered) :
    ∃ new, rendered = seen ++ new ∧ IsRendered context entries new ∧
      new.Pairwise (fun p q => q.1.pyEq p.1 = false) ∧
      ∀ q ∈ new, ∀ p ∈ seen, q.1.pyEq p.1 = false := by
  induction entries generalizing seen with
  | nil =>
      rw [renderEntries] at h
      cases h
      exact ⟨[], (List.append_nil _).symm, .nil, .nil, by simp⟩
  | cons entry entries ih =>
      obtain ⟨key, item⟩ := entry
      rw [renderEntries, renderKey_of_plain (hkeys _ List.mem_cons_self), ok_bind] at h
      obtain ⟨u, hfresh, h⟩ := bind_eq_ok.mp h
      obtain ⟨value, hvalue, h⟩ := bind_eq_ok.mp h
      rw [require_eq_ok] at hfresh
      have hfresh' : ∀ p ∈ seen, key.pyEq p.1 = false := by simpa using hfresh
      rcases ih (fun e he => hkeys e (List.mem_cons_of_mem _ he)) h with
        ⟨new, rfl, hnew, hpairs, hseen⟩
      refine ⟨(key, value) :: new, by simp, .cons ⟨rfl, hvalue⟩ hnew, ?_, ?_⟩
      · refine List.pairwise_cons.mpr ⟨?_, hpairs⟩
        intro q hq
        exact hseen q hq (key, value) (by simp)
      · intro q hq p hp
        rcases List.mem_cons.mp hq with rfl | hq
        · exact hfresh' p hp
        · exact hseen q hq p (List.mem_append_left _ hp)

theorem IsRendered.get? {context : TemplateContext} {entries rendered : DocEntries}
    (h : IsRendered context entries rendered) (name : String) :
    (∀ value, DocEntries.get? entries name = some value → ∃ value',
      DocEntries.get? rendered name = some value' ∧
        renderTemplate context value = .ok value') ∧
    (DocEntries.get? entries name = none → DocEntries.get? rendered name = none) := by
  induction h with
  | nil =>
      exact ⟨fun value hvalue => (by cases hvalue), fun _ => rfl⟩
  | cons hentry hrest ih =>
      rename_i entry entry' entries rendered
      have hname : DocEntries.hasName name entry' = DocEntries.hasName name entry := by
        unfold DocEntries.hasName
        rw [hentry.1]
      rw [DocEntries.get?_cons, DocEntries.get?_cons, hname]
      split_ifs
      · constructor
        · intro value hvalue
          cases hvalue
          exact ⟨_, rfl, hentry.2⟩
        · intro hnone
          cases hnone
      · exact ih

theorem pyEq_text {name : String} : (DocKey.text name).pyEq (.text name) = true := by
  simp [DocKey.text, DocKey.pyEq]

/-- The loop over the sections of one rendered fragment. -/
theorem get?_of_extendSections {directive : String} {rendered data data' : DocEntries}
    (hdistinct : rendered.Pairwise (fun p q => q.1.pyEq p.1 = false))
    (hnames : ∀ entry ∈ rendered, ∃ name, entry.1 = .text name)
    (h : rendered.foldlM (extendSection directive) data = .ok data') (name : String) :
    (∀ value, DocEntries.get? rendered name = some value → ∃ items old, value = .list items ∧
      sectionValue data name = .list old ∧
        DocEntries.get? data' name = some (.list (old ++ items))) ∧
    (DocEntries.get? rendered name = none →
      DocEntries.get? data' name = DocEntries.get? data name) := by
  induction rendered generalizing data with
  | nil =>
      cases h
      exact ⟨fun value hvalue => (by cases hvalue), fun _ => rfl⟩
  | cons entry rendered ih =>
      obtain ⟨key, value⟩ := entry
      rw [List.pairwise_cons] at hdistinct
      rcases hnames _ List.mem_cons_self with ⟨own, hown⟩
      simp only at hown
      subst hown
      obtain ⟨middle, hfirst, hrest⟩ := bind_eq_ok.mp ((List.foldlM_cons ..).symm.trans h)
      rcases extendSection_eq_ok.mp hfirst with ⟨values, current, hvalues, hcurrent, rfl⟩
      have hnext := ih hdistinct.2 (fun e he => hnames e (List.mem_cons_of_mem _ he)) hrest
      have hpy : (DocKey.text own).pyStr = own := rfl
      simp only [hpy] at hvalues hcurrent hnext
      rw [DocEntries.get?_cons]
      by_cases heq : own = name
      · subst heq
        rw [if_pos (DocEntries.hasName_text.mpr rfl)]
        -- no later entry is for this section
        have hlater : DocEntries.get? rendered own = none := by
          rw [DocEntries.get?_eq_none_iff]
          intro later hmem
          by_contra hhas
          rcases hnames later (List.mem_cons_of_mem _ hmem) with ⟨name, hname⟩
          have hsame : name = own := by
            rw [Bool.not_eq_false] at hhas
            unfold DocEntries.hasName at hhas
            rw [hname] at hhas
            simpa [DocKey.text, DocKey.text?] using hhas
          subst hsame
          have hne := hdistinct.1 later hmem
          rw [hname, pyEq_text] at hne
          cases hne
        constructor
        · intro v hv
          cases hv
          refine ⟨values, current, hvalues, hcurrent, ?_⟩
          rw [hnext.2 hlater, DocEntries.get?_set, if_pos rfl]
        · intro hnone
          cases hnone
      · have hother : DocEntries.get? (DocEntries.set data own (.list (current ++ values))) name =
            DocEntries.get? data name := by
          rw [DocEntries.get?_set, if_neg (fun h => heq h.symm)]
        rw [if_neg (fun h => heq (DocEntries.hasName_text.mp h))]
        unfold sectionValue at hnext ⊢
        rw [hother] at hnext
        exact hnext

/-- What the copies in these contexts append, one after the other. -/
def AppendedCopies (contexts : List TemplateContext) (sections before after : DocEntries) : Prop :=
  ∀ name, (∀ value, DocEntries.get? sections name = some value → contexts ≠ [] →
      ∃ old parts, sectionValue before name = .list old ∧
        List.Forall₂ (fun localContext part =>
          renderTemplate localContext value = .ok (.list part)) contexts parts ∧
        DocEntries.get? after name = some (.list (old ++ parts.flatten))) ∧
    (DocEntries.get? sections name = none ∨ contexts = [] →
      DocEntries.get? after name = DocEntries.get? before name)

section Copies

variable {directive : String} {sections data data' : DocEntries}

/-- The sections of a fragment, rendered. -/
theorem rendered_of_sections {localContext : TemplateContext} {rendered : DocEntries}
    (hallowed : ∀ entry ∈ sections, ∃ name ∈ allowedSections, entry.1 = .text name)
    (h : renderEntries localContext sections [] = .ok rendered) :
    IsRendered localContext sections rendered ∧
      rendered.Pairwise (fun p q => q.1.pyEq p.1 = false) ∧
      ∀ entry ∈ rendered, ∃ name, entry.1 = .text name ∧ DocEntries.get? sections name ≠ none := by
  have hkeys : ∀ entry ∈ sections, keyPlaceholders entry.1 = [] := by
    intro entry hentry
    rcases hallowed entry hentry with ⟨name, hname, hkey⟩
    rw [hkey]
    exact keyPlaceholders_of_allowed name hname
  rcases isRendered_of_renderEntries hkeys h with ⟨_, rfl, hrendered, hpairs, -⟩
  refine ⟨hrendered, hpairs, ?_⟩
  intro entry hentry
  rcases exists_left_of_forall₂ hrendered hentry with ⟨origin, horigin, hkey, -⟩
  rcases hallowed origin horigin with ⟨name, -, hname⟩
  refine ⟨name, hkey.trans hname, ?_⟩
  intro hnone
  have hmiss := DocEntries.get?_eq_none_iff.mp hnone origin horigin
  unfold DocEntries.hasName at hmiss
  rw [hname] at hmiss
  simp [DocKey.text, DocKey.text?] at hmiss

theorem appendedCopies_of_appendRendered {localContext : TemplateContext}
    (hallowed : ∀ entry ∈ sections, ∃ name ∈ allowedSections, entry.1 = .text name)
    (h : appendRendered directive sections data localContext = .ok data') :
    AppendedCopies [localContext] sections data data' := by
  rcases bind_eq_ok.mp h with ⟨rendered, hrender, hfold⟩
  rcases rendered_of_sections hallowed hrender with ⟨hrendered, hpairs, hnames⟩
  have htexts : ∀ entry ∈ rendered, ∃ name, entry.1 = .text name := by
    intro entry hentry
    rcases hnames entry hentry with ⟨name, hname, -⟩
    exact ⟨name, hname⟩
  intro name
  have hfinal := get?_of_extendSections hpairs htexts hfold name
  constructor
  · intro value hvalue _
    rcases (hrendered.get? name).1 value hvalue with ⟨value', hvalue', hvalueRender⟩
    rcases hfinal.1 value' hvalue' with ⟨items, old, rfl, hold, hget⟩
    refine ⟨old, [items], hold, .cons hvalueRender .nil, ?_⟩
    simpa using hget
  · intro hnone
    rcases hnone with hnone | hnone
    · exact hfinal.2 ((hrendered.get? name).2 hnone)
    · cases hnone

theorem AppendedCopies.cons {localContext : TemplateContext} {contexts : List TemplateContext}
    {middle : DocEntries} (hfirst : AppendedCopies [localContext] sections data middle)
    (hrest : AppendedCopies contexts sections middle data') :
    AppendedCopies (localContext :: contexts) sections data data' := by
  intro name
  constructor
  · intro value hvalue _
    rcases (hfirst name).1 value hvalue (List.cons_ne_nil _ _) with ⟨old, parts, hold, hparts, hget⟩
    rcases eq_or_ne contexts [] with rfl | hne
    · exact ⟨old, parts, hold, hparts, by rw [(hrest name).2 (.inr rfl), hget]⟩
    · -- the later copies are appended behind the first
      rcases (hrest name).1 value hvalue hne with ⟨old', parts', hold', hparts', hget'⟩
      unfold sectionValue at hold'
      rw [hget, Option.getD_some, Doc.list.injEq] at hold'
      refine ⟨old, parts ++ parts', hold, List.rel_append hparts hparts', ?_⟩
      rw [hget', ← hold', List.flatten_append, List.append_assoc]
  · intro hnone
    rcases hnone with hnone | hnone
    · rw [(hrest name).2 (.inl hnone), (hfirst name).2 (.inl hnone)]
    · cases hnone

/-- The loop over the items of a directive, each with its context. -/
theorem appendedCopies_of_foldlM {γ : Type} {bind : γ → Except PyError TemplateContext}
    {l : List γ} (hallowed : ∀ entry ∈ sections, ∃ name ∈ allowedSections, entry.1 = .text name)
    (h : l.foldlM (fun data a => do
      let localContext ← bind a
      appendRendered directive sections data localContext) data = .ok data') :
    ∃ contexts, List.Forall₂ (fun a localContext => bind a = .ok localContext) l contexts ∧
      AppendedCopies contexts sections data data' := by
  induction l generalizing data with
  | nil =>
      cases h
      exact ⟨[], .nil, fun name => ⟨fun _ _ hne => absurd rfl hne, fun _ => rfl⟩⟩
  | cons a l ih =>
      rcases bind_eq_ok.mp ((List.foldlM_cons ..).symm.trans h) with ⟨middle, hstep, hrest⟩
      rcases bind_eq_ok.mp hstep with ⟨localContext, hbind, happend⟩
      rcases ih hrest with ⟨contexts, hcontexts, hcopies⟩
      exact ⟨localContext :: contexts, .cons hbind hcontexts,
        (appendedCopies_of_appendRendered hallowed happend).cons hcopies⟩

end Copies

/-! ## The axes of a directive -/

theorem requiredEntry_eq_ok {directive name : String} {entries : DocEntries} {value : Doc} :
    requiredEntry directive entries name = .ok value ↔
      DocEntries.get? entries name = some value := by
  unfold requiredEntry
  cases DocEntries.get? entries name <;> simp

theorem addAxis_eq_ok {context : TemplateContext} {axes axes' : ProductAxes} {axis : Doc}
    (h : addAxis context axes axis = .ok axes') : ∃ bound, IsAxis context axis bound ∧
      bound.1 ∉ axes.aliases ∧
      axes' = ⟨axes.aliases ++ [bound.1], axes.collections ++ [bound.2]⟩ := by
  unfold addAxis at h
  simp only [bind_eq_ok, asMapping_eq_ok, asList_eq_ok, requiredEntry_eq_ok, require_eq_ok] at h
  rcases h with ⟨entries, rfl, -, -, path, hpath, name, hname, -, ⟨-, hfresh⟩, _, hresolve,
    collection, rfl, h⟩
  exact ⟨(name.pyStr, collection), ⟨entries, path, name, rfl, hpath, hname, rfl, hresolve⟩, hfresh,
    (Except.ok.inj h).symm⟩

/-- The loop over the axes reads their names, which are distinct, and their collections. -/
theorem axes_of_foldlM {context : TemplateContext} {docs : List Doc} {axes : ProductAxes}
    (h : docs.foldlM (addAxis context) ⟨[], []⟩ = .ok axes) :
    ∃ bound, axes = ⟨bound.map Prod.fst, bound.map Prod.snd⟩ ∧ (bound.map Prod.fst).Nodup ∧
      List.Forall₂ (IsAxis context) docs bound := by
  refine foldlM_invariant (fun seen axes => ∃ bound : List (String × List Doc),
    axes = ⟨bound.map Prod.fst, bound.map Prod.snd⟩ ∧ (bound.map Prod.fst).Nodup ∧
      List.Forall₂ (IsAxis context) seen bound) ?_ ⟨[], rfl, .nil, .nil⟩ h
  rintro seen axis _ axes' ⟨bound, rfl, hnodup, hbound⟩ hstep
  rcases addAxis_eq_ok hstep with ⟨last, hlast, hfresh, rfl⟩
  refine ⟨bound ++ [last], by simp, ?_, List.rel_append hbound (.cons hlast .nil)⟩
  rw [List.map_append, List.nodup_append]
  refine ⟨hnodup, List.nodup_singleton _, ?_⟩
  intro name hname name' hname' heq
  rw [List.map_singleton, List.mem_singleton] at hname'
  rw [heq, hname'] at hname
  exact hfresh hname

/-- A position on every axis, in lexicographic order. -/
def axisPositions (axes : List (String × List Doc)) : List (List Nat) :=
  Choice.product (axes.map (fun axis => List.range axis.2.length))

theorem mem_axisPositions {axes : List (String × List Doc)} {positions : List Nat} :
    positions ∈ axisPositions axes ↔
      List.Forall₂ (fun position axis => position < axis.2.length) positions axes := by
  unfold axisPositions
  rw [Choice.mem_product, List.forall₂_map_right_iff]
  simp only [List.mem_range]

theorem pairwise_axisPositions (axes : List (String × List Doc)) :
    (axisPositions axes).Pairwise (List.Lex (· < ·)) := by
  refine Choice.pairwise_product ?_
  intro positions hpositions
  rcases List.mem_map.mp hpositions with ⟨axis, -, rfl⟩
  exact List.pairwise_lt_range

theorem length_axisPositions (axes : List (String × List Doc)) :
    (axisPositions axes).length = (axes.map (fun axis => axis.2.length)).prod := by
  unfold axisPositions
  rw [Choice.length_product, List.map_map]
  congr 1
  refine List.map_congr_left ?_
  intro axis _
  exact List.length_range

/-- The items that the loop over the copies chooses. -/
def axisChoices (axes : List (String × List Doc)) : List (List (Doc × Nat)) :=
  Choice.product ((axes.map Prod.snd).map (fun collection => collection.zipIdx))

theorem map_axisChoices (axes : List (String × List Doc)) :
    (axisChoices axes).map (List.map Prod.snd) = axisPositions axes := by
  unfold axisChoices axisPositions
  rw [Choice.map_product, List.map_map, List.map_map]
  congr 1
  refine List.map_congr_left ?_
  intro axis _
  show (axis.2.zipIdx).map Prod.snd = _
  rw [List.zipIdx_map_snd, List.range_eq_range']

theorem isChosen_of_mem {axes : List (String × List Doc)} {items : List (Doc × Nat)}
    (h : items ∈ axisChoices axes) : IsChosen axes items := by
  unfold axisChoices at h
  rw [List.map_map, Choice.mem_product, List.forall₂_map_right_iff] at h
  refine h.imp ?_
  intro item axis hitem
  exact List.mem_zipIdx_iff_getElem?.mp hitem

/-! ## Texts with the number of the copy -/

/-- The text names the number of the copy, and nothing else that differs between copies. -/
structure IsNumbered (axes : List (String × List Doc)) (text : String) : Prop where
  numbered : ∃ path, .path path ∈ segments text ∧ pathParts path = ["product", "repeat_index"]
  other : ∀ path, .path path ∈ segments text → pathParts path = ["product", "repeat_index"] ∨
    ∃ part parts, pathParts path = part :: parts ∧ part ≠ "product" ∧ part ∉ axes.map Prod.fst

section Numbered

variable {context first second : TemplateContext} {axes : List (String × List Doc)}
variable {positions positions' : List Nat} {copy copy' : Nat}

theorem resolveContextPath_number (h : IsCopyContext context axes positions copy first)
    {path : String} (hpath : pathParts path = ["product", "repeat_index"]) :
    resolveContextPath first path = .ok (indexValue copy) := by
  unfold resolveContextPath
  rw [hpath]
  simp only [h.product, resolveParts, DocEntries.get?_cons, DocEntries.hasName_text, if_true]

theorem resolveContextPath_shared (h : IsCopyContext context axes positions copy first)
    (h' : IsCopyContext context axes positions' copy' second) {path part : String}
    {parts : List String} (hpath : pathParts path = part :: parts) (hproduct : part ≠ "product")
    (hpart : part ∉ axes.map Prod.fst) :
    resolveContextPath first path = resolveContextPath second path := by
  unfold resolveContextPath
  rw [hpath]
  simp only [h.other part hproduct hpart, h'.other part hproduct hpart]

theorem toList_indexValue (n : Nat) : (indexValue n).pyStr.toList = Nat.toDigits 10 n := by
  show (toString (n : Int)).toList = _
  have hint : toString (n : Int) = toString n := rfl
  rw [hint, Nat.toString_eq_ofList_toDigits, String.toList_ofList]

/-- The texts of the segments in two copies are one text with holes, filled with the numbers. -/
theorem fill_of_segments (h : IsCopyContext context axes positions copy first)
    (h' : IsCopyContext context axes positions' copy' second) {l : List Segment}
    (hother : ∀ path, .path path ∈ l → pathParts path = ["product", "repeat_index"] ∨
      ∃ part parts, pathParts path = part :: parts ∧ part ≠ "product" ∧ part ∉ axes.map Prod.fst)
    {texts texts' : List String} (htexts : l.mapM (renderSegment first) = .ok texts)
    (htexts' : l.mapM (renderSegment second) = .ok texts') :
    ∃ parts, texts.flatMap String.toList = fill parts (Nat.toDigits 10 copy) ∧
      texts'.flatMap String.toList = fill parts (Nat.toDigits 10 copy') ∧
      ((∃ path, .path path ∈ l ∧ pathParts path = ["product", "repeat_index"]) →
        none ∈ parts) := by
  rw [mapM_eq_ok] at htexts htexts'
  induction htexts generalizing texts' with
  | nil =>
      cases htexts'
      refine ⟨[], rfl, rfl, ?_⟩
      rintro ⟨path, hmem, -⟩
      cases hmem
  | cons hsegment hrest ih =>
      rename_i segment text l texts
      cases htexts' with
      | cons hsegment' hrest' =>
          rename_i text' texts'
          rcases ih (fun path hmem => hother path (List.mem_cons_of_mem _ hmem)) hrest' with
            ⟨parts, hparts, hparts', hnone⟩
          -- the part of this segment: a hole for the number, else the text of both copies
          have hpart : ∃ part : Option (List Char), text.toList = part.getD (Nat.toDigits 10 copy) ∧
              text'.toList = part.getD (Nat.toDigits 10 copy') ∧
              ((∃ path, segment = .path path ∧ pathParts path = ["product", "repeat_index"]) →
                part = none) := by
            cases segment with
            | char c =>
                cases hsegment
                cases hsegment'
                refine ⟨some (String.singleton c).toList, rfl, rfl, ?_⟩
                rintro ⟨path, hpath, -⟩
                cases hpath
            | path path =>
                obtain ⟨value, hvalue, htext⟩ := bind_eq_ok.mp hsegment
                obtain ⟨value', hvalue', htext'⟩ := bind_eq_ok.mp hsegment'
                cases htext
                cases htext'
                by_cases hnumber : pathParts path = ["product", "repeat_index"]
                · rw [resolveContextPath_number h hnumber, Except.ok.injEq] at hvalue
                  rw [resolveContextPath_number h' hnumber, Except.ok.injEq] at hvalue'
                  rw [← hvalue, ← hvalue']
                  exact ⟨none, toList_indexValue _, toList_indexValue _, fun _ => rfl⟩
                · rcases hother path List.mem_cons_self with hpath | ⟨part, rest, hpath, hne, hpart⟩
                  · exact absurd hpath hnumber
                  · rw [resolveContextPath_shared h h' hpath hne hpart, hvalue',
                      Except.ok.injEq] at hvalue
                    rw [hvalue]
                    refine ⟨some value.pyStr.toList, rfl, rfl, ?_⟩
                    rintro ⟨path', heq, hpath'⟩
                    cases heq
                    exact absurd hpath' hnumber
          rcases hpart with ⟨part, htext, htext', hhole⟩
          refine ⟨part :: parts, ?_, ?_, ?_⟩
          · rw [List.flatMap_cons, fill_cons, htext, hparts]
          · rw [List.flatMap_cons, fill_cons, htext', hparts']
          · rintro ⟨path, hmem, hpath⟩
            rcases List.mem_cons.mp hmem with heq | hmem
            · rw [hhole ⟨path, heq.symm, hpath⟩]
              exact List.mem_cons_self
            · exact List.mem_cons_of_mem _ (hnone ⟨path, hmem, hpath⟩)

/-- A numbered text is rendered differently in different copies. -/
theorem eq_of_numbered (h : IsCopyContext context axes positions copy first)
    (h' : IsCopyContext context axes positions' copy' second) {text : String}
    (htext : IsNumbered axes text) {value value' : Doc} (hvalue : renderText first text = .ok value)
    (hvalue' : renderText second text = .ok value') (heq : value.pyStr = value'.pyStr) :
    copy = copy' := by
  unfold renderText at hvalue hvalue'
  rcases hexact : exactPlaceholder? text with _ | path
  · rw [hexact] at hvalue hvalue'
    obtain ⟨texts, htexts, hjoin⟩ := bind_eq_ok.mp hvalue
    obtain ⟨texts', htexts', hjoin'⟩ := bind_eq_ok.mp hvalue'
    cases hjoin
    cases hjoin'
    rcases fill_of_segments h h' htext.other htexts htexts' with ⟨parts, hparts, hparts', hnone⟩
    have hlists := congrArg String.toList heq
    simp only [Doc.pyStr, Value.pyStr, toList_join] at hlists
    rw [hparts, hparts'] at hlists
    exact toDigits_injective (fill_injective (hnone htext.numbered) hlists)
  · -- the text is the placeholder of the number itself
    have hsegments : segments text = [.path path] := by
      unfold exactPlaceholder? at hexact
      split at hexact
      · rename_i path' hpath'
        cases hexact
        exact hpath'
      · cases hexact
    rcases htext.numbered with ⟨path', hmem, hnumber⟩
    rw [hsegments, List.mem_singleton] at hmem
    cases hmem
    rw [hexact] at hvalue hvalue'
    simp only [resolveContextPath_number h hnumber, resolveContextPath_number h' hnumber,
      Except.ok.injEq] at hvalue hvalue'
    rw [← hvalue, ← hvalue'] at heq
    have hlists := congrArg String.toList heq
    rw [toList_indexValue, toList_indexValue] at hlists
    exact toDigits_injective hlists

end Numbered

/-! ## The expansion of a directive -/

/-- What one directive does: the copies are those of all positions, in lexicographic order,
each rendered in its own context, and every included section is followed by its copies. -/
structure IsProductExpansion (context : TemplateContext) (spec before after : DocEntries)
    (axes : List (String × List Doc)) (sections : DocEntries) (positions : List (List Nat))
    (contexts : List TemplateContext) : Prop where
  reads : ∃ docs, DocEntries.get? spec "axes" = some (.list docs) ∧
    List.Forall₂ (IsAxis context) docs axes
  aliases : (axes.map Prod.fst).Nodup
  fragment : DocEntries.get? spec "include" = some (.dict sections)
  count : contexts.length = (axes.map (fun axis => axis.2.length)).prod
  all : ∀ choice, choice ∈ positions ↔
    List.Forall₂ (fun position axis => position < axis.2.length) choice axes
  order : positions.Pairwise (List.Lex (· < ·))
  copies : positions.length = contexts.length ∧
    ∀ (copy : Nat) choice localContext, positions[copy]? = some choice →
      contexts[copy]? = some localContext → IsCopyContext context axes choice copy localContext
  appended : AppendedCopies contexts sections before after
  distinct : ∀ text, IsNumbered axes text → ∀ (copy copy' : Nat) first second value value',
    contexts[copy]? = some first → contexts[copy']? = some second → copy ≠ copy' →
      renderText first text = .ok value → renderText second text = .ok value' →
        value.pyStr ≠ value'.pyStr

theorem isProductExpansion_of_expandProduct {context : TemplateContext} {spec : Doc}
    {before after : DocEntries} (h : expandProduct context before spec = .ok after) :
    ∃ entries axes sections positions contexts, spec = .dict entries ∧
      IsProductExpansion context entries before after axes sections positions contexts := by
  unfold expandProduct at h
  simp only [bind_eq_ok, asMapping_eq_ok, asList_eq_ok, requireKeys_eq_ok, require_eq_ok] at h
  rcases h with ⟨entries, rfl, -, -, -, htruthy, docs, hdocs, sections, hsections, -, hallowed,
    read, hread, hloop⟩
  -- an entry that is absent is neither a list nor a mapping
  have hentry : ∀ {name : String} {value : Doc}, value ≠ .scalar .none →
      (DocEntries.get? entries name).getD (.scalar .none) = value →
        DocEntries.get? entries name = some value := by
    intro name value hne hget
    cases hfound : DocEntries.get? entries name with
    | none =>
        rw [hfound] at hget
        exact absurd hget.symm hne
    | some found =>
        rw [hfound] at hget
        exact congrArg some hget
  rcases axes_of_foldlM hread with ⟨axes, rfl, hnodup, haxes⟩
  rcases appendedCopies_of_foldlM hallowed hloop with ⟨contexts, hcontexts, happended⟩
  have hcount : contexts.length = (axisPositions axes).length := by
    rw [← map_axisChoices, List.length_map, ← hcontexts.length_eq, List.length_zipIdx]
    rfl
  have hcopies : ∀ (copy : Nat) choice localContext, (axisPositions axes)[copy]? = some choice →
      contexts[copy]? = some localContext →
        IsCopyContext context axes choice copy localContext := by
    intro copy choice localContext hchoice hcontext
    rw [← map_axisChoices, List.getElem?_map, Option.map_eq_some_iff] at hchoice
    rcases hchoice with ⟨items, hitems, rfl⟩
    have hzip : (axisChoices axes).zipIdx[copy]? = some (items, copy) := by
      rw [List.getElem?_zipIdx, hitems]
      simp
    have hbind : productContext context (axes.map Prod.fst) items copy = .ok localContext :=
      of_forall₂_getElem? hcontexts hzip hcontext
    exact isCopyContext_of_productContext hnodup
      (isChosen_of_mem (List.mem_of_getElem? hitems)) hbind
  refine ⟨entries, axes, sections, axisPositions axes, contexts, rfl, ?_⟩
  exact {
    reads := ⟨docs, hentry (by simp) hdocs, haxes⟩
    aliases := hnodup
    fragment := hentry (by simp) hsections
    count := by rw [hcount, length_axisPositions]
    all := fun _ => mem_axisPositions
    order := pairwise_axisPositions axes
    copies := ⟨hcount.symm, hcopies⟩
    appended := happended
    distinct := by
      intro text htext copy copy' first second value value' hfirst hsecond hne hvalue hvalue' heq
      have hlt := (List.getElem?_eq_some_iff.mp hfirst).1
      have hlt' := (List.getElem?_eq_some_iff.mp hsecond).1
      rw [hcount] at hlt hlt'
      exact hne (eq_of_numbered
        (hcopies copy _ first (List.getElem?_eq_getElem hlt) hfirst)
        (hcopies copy' _ second (List.getElem?_eq_getElem hlt') hsecond) htext hvalue hvalue' heq) }

/-! ## A directive that is expanded -/

/-- The axes of the directive range over lists of mappings, and in every copy the fragment is
rendered to lists, for sections that are lists. -/
structure IsExpandable (context : TemplateContext) (spec before : DocEntries)
    (axes : List (String × List Doc)) (sections : DocEntries) : Prop where
  keys : ∀ entry ∈ spec, ∃ name ∈ ["axes", "include"], entry.1 = .text name
  reads : ∃ docs, DocEntries.get? spec "axes" = some (.list docs) ∧ docs ≠ [] ∧
    List.Forall₂ (IsAxis context) docs axes ∧ ∀ entries, .dict entries ∈ docs →
      ∀ entry ∈ entries, ∃ name ∈ ["over", "as"], entry.1 = .text name
  aliases : (axes.map Prod.fst).Nodup
  named : "" ∉ axes.map Prod.fst
  items : ∀ axis ∈ axes, ∀ item ∈ axis.2, ∃ entries, item = .dict entries
  fragment : DocEntries.get? spec "include" = some (.dict sections)
  allowed : ∀ entry ∈ sections, ∃ name ∈ allowedSections, entry.1 = .text name
  renders : ∀ choice ∈ axisPositions axes, ∀ copy localContext,
    IsCopyContext context axes choice copy localContext →
      ∃ rendered, renderEntries localContext sections [] = .ok rendered ∧
        ∀ entry ∈ rendered, ∃ items, entry.2 = .list items
  lists : ∀ name, DocEntries.get? sections name ≠ none → ∃ old, sectionValue before name = .list old

theorem addAxis_of_isAxis {context : TemplateContext} {axes : ProductAxes} {axis : Doc}
    {bound : String × List Doc} (h : IsAxis context axis bound)
    (hkeys : ∀ entries, axis = .dict entries →
      ∀ entry ∈ entries, ∃ name ∈ ["over", "as"], entry.1 = .text name)
    (hne : bound.1 ≠ "") (hfresh : bound.1 ∉ axes.aliases) :
    addAxis context axes axis =
      .ok ⟨axes.aliases ++ [bound.1], axes.collections ++ [bound.2]⟩ := by
  rcases h with ⟨entries, path, name, rfl, hpath, hname, hbound, hresolve⟩
  have hread : requiredEntry "module repeat_product axis" entries "over" = .ok path :=
    requiredEntry_eq_ok.mpr hpath
  have hread' : requiredEntry "module repeat_product axis" entries "as" = .ok name :=
    requiredEntry_eq_ok.mpr hname
  have hknown : ∀ message, requireKeys message ["over", "as"] entries = .ok () := fun message =>
    requireKeys_eq_ok.mpr (hkeys entries rfl)
  rw [hbound] at hne hfresh ⊢
  unfold addAxis
  simp only [asMapping, ok_bind, hknown, hread, hread', hresolve, asList, Except.require]
  rw [if_pos ⟨hne, hfresh⟩]
  rfl

/-- The loop over axes with distinct names returns them. -/
theorem foldlM_addAxis {context : TemplateContext} {docs : List Doc}
    {axes : List (String × List Doc)} (h : List.Forall₂ (IsAxis context) docs axes)
    (hkeys : ∀ entries, .dict entries ∈ docs →
      ∀ entry ∈ entries, ∃ name ∈ ["over", "as"], entry.1 = .text name)
    (hnamed : "" ∉ axes.map Prod.fst) {read : ProductAxes}
    (hnodup : (read.aliases ++ axes.map Prod.fst).Nodup) :
    docs.foldlM (addAxis context) read =
      .ok ⟨read.aliases ++ axes.map Prod.fst, read.collections ++ axes.map Prod.snd⟩ := by
  induction h generalizing read with
  | nil => simp [pure, Except.pure]
  | cons haxis hrest ih =>
      rename_i axis bound docs axes
      rw [List.map_cons, List.mem_cons, not_or] at hnamed
      have hfresh : bound.1 ∉ read.aliases := by
        intro hmem
        rw [List.map_cons] at hnodup
        exact (List.nodup_append.mp hnodup).2.2 _ hmem _ List.mem_cons_self rfl
      have hstep : addAxis context read axis =
          .ok ⟨read.aliases ++ [bound.1], read.collections ++ [bound.2]⟩ :=
        addAxis_of_isAxis haxis (fun entries heq => hkeys entries (heq ▸ List.mem_cons_self))
          (fun heq => hnamed.1 heq.symm) hfresh
      have hlater := fun entries hmem => hkeys entries (List.mem_cons_of_mem _ hmem)
      rw [List.foldlM_cons, hstep, ok_bind, ih hlater hnamed.2 (by simpa using hnodup)]
      simp

theorem exists_productContext {context : TemplateContext} {names : List String}
    {items : List (Doc × Nat)} {copy : Nat}
    (hitems : ∀ item ∈ items, ∃ entries, item.1 = .dict entries) :
    ∃ localContext, productContext context names items copy = .ok localContext := by
  have hloop : ∃ bound, (names.zip items).foldlM (bindAxis copy) context = .ok bound := by
    refine exists_foldlM (fun l _ => ∀ axis ∈ l, ∃ entries, axis.2.1 = .dict entries) ?_ ?_
    · intro axis l bound hall
      rcases hall axis List.mem_cons_self with ⟨entries, hentries⟩
      exact ⟨_, bindAxis_eq_ok.mpr ⟨entries, hentries, rfl⟩,
        fun axis' hmem => hall axis' (List.mem_cons_of_mem _ hmem)⟩
    · intro axis hmem
      exact hitems axis.2 (List.of_mem_zip hmem).2
  rcases hloop with ⟨bound, hbound⟩
  exact ⟨_, bind_eq_ok.mpr ⟨bound, hbound, rfl⟩⟩

/-- Rendered lists are appended to sections that are lists. -/
theorem exists_extendSections {directive : String} {rendered data : DocEntries}
    (hvalues : ∀ entry ∈ rendered, ∃ items, entry.2 = .list items)
    (hlists : ∀ entry ∈ rendered, ∃ old, sectionValue data entry.1.pyStr = .list old) :
    ∃ data', rendered.foldlM (extendSection directive) data = .ok data' := by
  refine exists_foldlM (fun l data => ∀ entry ∈ l, (∃ items, entry.2 = .list items) ∧
    ∃ old, sectionValue data entry.1.pyStr = .list old) ?_ ?_
  · intro entry l data hall
    rcases hall entry List.mem_cons_self with ⟨⟨items, hitems⟩, old, hold⟩
    refine ⟨_, extendSection_eq_ok.mpr ⟨items, old, hitems, hold, rfl⟩, ?_⟩
    intro later hmem
    rcases hall later (List.mem_cons_of_mem _ hmem) with ⟨hlater, hcurrent⟩
    refine ⟨hlater, ?_⟩
    unfold sectionValue
    rw [DocEntries.get?_set]
    split_ifs
    · exact ⟨_, rfl⟩
    · exact hcurrent
  · exact fun entry hmem => ⟨hvalues entry hmem, hlists entry hmem⟩

theorem exists_expandProduct {context : TemplateContext} {spec before : DocEntries}
    {axes : List (String × List Doc)} {sections : DocEntries}
    (h : IsExpandable context spec before axes sections) :
    ∃ after, expandProduct context before (.dict spec) = .ok after := by
  rcases h.reads with ⟨docs, hdocs, hne, haxes, hkeys⟩
  have hread : docs.foldlM (addAxis context) ⟨[], []⟩ =
      .ok ⟨axes.map Prod.fst, axes.map Prod.snd⟩ :=
    foldlM_addAxis haxes hkeys h.named h.aliases
  have hloop : ∃ after, (axisChoices axes).zipIdx.foldlM (fun data choice => do
      let localContext ← productContext context (axes.map Prod.fst) choice.1 choice.2
      appendRendered "repeat_product" sections data localContext) before = .ok after := by
    refine exists_foldlM (fun l data => (∀ choice ∈ l, choice.1 ∈ axisChoices axes) ∧
      ∀ name, DocEntries.get? sections name ≠ none → ∃ old, sectionValue data name = .list old)
      ?_ ⟨?_, h.lists⟩
    · rintro ⟨items, copy⟩ l data ⟨hchoices, hlists⟩
      have hmem := hchoices _ List.mem_cons_self
      have hchosen := isChosen_of_mem hmem
      have hmappings : ∀ item ∈ items, ∃ entries, item.1 = .dict entries := by
        intro item hitem
        rcases exists_right_of_forall₂ hchosen hitem with ⟨axis, haxis, hget⟩
        exact h.items axis haxis item.1 (List.mem_of_getElem? hget)
      have hposition : items.map Prod.snd ∈ axisPositions axes := by
        rw [← map_axisChoices]
        exact List.mem_map_of_mem hmem
      have hbind : ∃ localContext, productContext context (axes.map Prod.fst) items copy =
          .ok localContext := exists_productContext hmappings
      obtain ⟨localContext, hcontext⟩ := hbind
      obtain ⟨rendered, hrendered, hvalues⟩ := h.renders _ hposition copy localContext
        (isCopyContext_of_productContext h.aliases hchosen hcontext)
      have happend : ∃ data', appendRendered "repeat_product" sections data localContext =
          .ok data' := by
        have hsections : ∀ entry ∈ rendered, ∃ old, sectionValue data entry.1.pyStr = .list old := by
          intro entry hentry
          rcases (rendered_of_sections h.allowed hrendered).2.2 entry hentry with
            ⟨name, hname, hpresent⟩
          rw [hname]
          exact hlists name hpresent
        obtain ⟨data', hdata'⟩ := exists_extendSections hvalues hsections
        exact ⟨data', bind_eq_ok.mpr ⟨rendered, hrendered, hdata'⟩⟩
      obtain ⟨data', hdata'⟩ := happend
      refine ⟨data', bind_eq_ok.mpr ⟨localContext, hcontext, hdata'⟩,
        fun choice hmem => hchoices choice (List.mem_cons_of_mem _ hmem), ?_⟩
      intro name hname
      rcases onlyAppended_of_appendRendered hdata' name with heq | ⟨old, new, -, hnew⟩
      · unfold sectionValue
        rw [heq]
        exact hlists name hname
      · unfold sectionValue
        rw [hnew]
        exact ⟨_, rfl⟩
    · intro choice hmem
      exact (List.mem_zipIdx' hmem).2 ▸ List.getElem_mem _
  obtain ⟨after, hafter⟩ := hloop
  refine ⟨after, ?_⟩
  unfold expandProduct
  have hknown : ∀ message, requireKeys message ["axes", "include"] spec = .ok () := fun message =>
    requireKeys_eq_ok.mpr h.keys
  have hknown' : ∀ message, requireKeys message allowedSections sections = .ok () :=
    fun message => requireKeys_eq_ok.mpr h.allowed
  have htruthy : (Doc.list docs).truthy = true := by simpa [Doc.truthy] using hne
  simp only [asMapping, ok_bind, hknown, hknown', hdocs, h.fragment, Option.getD_some,
    Except.require, htruthy, if_true, asList, hread]
  exact hafter

/-! ## The directives of a template -/

/-- The template without its directives. -/
def withoutDirectives (raw : DocEntries) : DocEntries :=
  DocEntries.remove (DocEntries.remove raw "repeat") "repeat_product"

theorem onlyAppended_of_expandProduct {context : TemplateContext} {spec : Doc}
    {before after : DocEntries} (h : expandProduct context before spec = .ok after) :
    OnlyAppended before after := by
  rcases isProductExpansion_of_expandProduct h with
    ⟨_, _, sections, _, contexts, rfl, hexpansion⟩
  intro name
  rcases hvalue : DocEntries.get? sections name with _ | value
  · exact .inl ((hexpansion.appended name).2 (.inl hvalue))
  · rcases eq_or_ne contexts [] with hempty | hne
    · exact .inl ((hexpansion.appended name).2 (.inr hempty))
    · rcases (hexpansion.appended name).1 value hvalue hne with ⟨old, parts, hold, -, hnew⟩
      exact .inr ⟨old, parts.flatten, hold, hnew⟩

/-- Every `repeat_product` directive of a template that is expanded appends its copies to the
sections as they are at that point, and what follows only appends to them; and a directive
that can be expanded is expanded. -/
theorem copies_of_product {raw : DocEntries} {context : TemplateContext} {pre post : List Doc}
    {spec : Doc} (hproducts : directives raw "repeat_product" = .list (pre ++ spec :: post)) :
    (∀ data, expandModuleRepeats raw context = .ok data →
      ∃ entries before after axes sections positions contexts, spec = .dict entries ∧
        IsProductExpansion context entries before after axes sections positions contexts ∧
        OnlyAppended (withoutDirectives raw) before ∧ OnlyAppended after data) ∧
    (∀ entries before axes sections, spec = .dict entries →
      IsExpandable context entries before axes sections →
        ∃ after, expandProduct context before spec = .ok after) := by
  constructor
  · intro data h
    unfold expandModuleRepeats at h
    simp only [hproducts] at h
    have hsome : (Doc.list (pre ++ spec :: post)).truthy = true := by simp [Doc.truthy]
    rw [hsome, Bool.not_true, Bool.and_false, if_neg Bool.false_ne_true] at h
    simp only [bind_eq_ok, asList_eq_ok] at h
    rcases h with ⟨repeats, -, products, hlist, repeated, hrepeats, hloop⟩
    cases hlist
    rw [List.foldlM_append] at hloop
    obtain ⟨before, hbefore, hloop⟩ := bind_eq_ok.mp hloop
    obtain ⟨after, hafter, hlater⟩ := bind_eq_ok.mp ((List.foldlM_cons ..).symm.trans hloop)
    rcases isProductExpansion_of_expandProduct hafter with
      ⟨entries, axes, sections, positions, contexts, hspec, hexpansion⟩
    refine ⟨entries, before, after, axes, sections, positions, contexts, hspec, hexpansion, ?_, ?_⟩
    · have hfirst : OnlyAppended (withoutDirectives raw) repeated :=
        onlyAppended_of_foldlM (fun _ _ _ _ => onlyAppended_of_expandRepeat) hrepeats
      exact hfirst.trans (onlyAppended_of_foldlM (fun _ _ _ _ => onlyAppended_of_expandProduct)
        hbefore)
    · exact onlyAppended_of_foldlM (fun _ _ _ _ => onlyAppended_of_expandProduct) hlater
  · rintro entries before axes sections rfl hexpandable
    exact exists_expandProduct hexpandable

/-! ## A pair of equal items -/

/-- A text in a document. -/
def Doc.text (s : String) : Doc := .scalar (.str s)

/-- An axis over `loads`. -/
def loadAxis (name : String) : Doc :=
  .dict [(.text "over", .text "loads"), (.text "as", .text name)]

/-- A directive that appends one slot for each choice on its axes. -/
def slotDirective (axes : List Doc) (id : String) : Doc :=
  .dict [(.text "axes", .list axes),
    (.text "include", .dict [(.text "slots", .list [.dict [(.text "id", .text id)]])])]

def slotTemplate (axes : List Doc) (id : String) : DocEntries :=
  [(.text "slots", .list []), (.text "repeat_product", .list [slotDirective axes id])]

/-- Two loads with the same exported values. -/
def equalLoads : TemplateContext :=
  Dict.ofList [("loads", .list [.dict [(.text "op_id", .text "L")],
    .dict [(.text "op_id", .text "L")]])]

def pairTemplate : DocEntries :=
  slotTemplate [loadAxis "left", loadAxis "right"] "pair_$\x7bproduct.repeat_index\x7d"

theorem pairTemplate_expands : expandModuleRepeats pairTemplate equalLoads =
    .ok [(.text "slots", .list (["pair_0", "pair_1", "pair_2", "pair_3"].map
      (fun id => .dict [(.text "id", .text id)])))] := by
  rfl

theorem pairTemplate_copies : ∃ entries before after axes sections positions contexts,
    slotDirective [loadAxis "left", loadAxis "right"] "pair_$\x7bproduct.repeat_index\x7d" =
      .dict entries ∧
    IsProductExpansion equalLoads entries before after axes sections positions contexts := by
  have hproducts : directives pairTemplate "repeat_product" = .list ([] ++
      slotDirective [loadAxis "left", loadAxis "right"] "pair_$\x7bproduct.repeat_index\x7d" :: []) :=
    rfl
  rcases (copies_of_product hproducts).1 _ pairTemplate_expands with
    ⟨entries, before, after, axes, sections, positions, contexts, hspec, hexpansion, -, -⟩
  exact ⟨entries, before, after, axes, sections, positions, contexts, hspec, hexpansion⟩

/-- An axis named `product` loses its item: the name denotes the number of the copy. -/
theorem product_shadowed :
    expandModuleRepeats (slotTemplate [loadAxis "product"] "slot_$\x7bproduct.op_id\x7d") equalLoads =
      .error (unresolved "product.op_id" ["product", "op_id"]) ∧
    expandModuleRepeats (slotTemplate [loadAxis "load"] "slot_$\x7bload.op_id\x7d") equalLoads =
      .ok [(.text "slots", .list (["slot_L", "slot_L"].map
        (fun id => .dict [(.text "id", .text id)])))] := by
  exact ⟨rfl, rfl⟩

end Umcm
