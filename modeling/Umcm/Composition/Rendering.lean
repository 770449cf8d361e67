import Umcm.Composition.Document

/-!
# Rendering of templates

A placeholder names a path into the context. A text that is one placeholder
stands for the value it names; in a longer text the placeholders are replaced by
the texts of their values.

* `renderTemplate_of_plain`: a document without placeholders is rendered to
  itself.
-/

namespace Umcm

open Except

/-! ## Placeholders -/

/-- `[A-Za-z_]`. -/
def isNameStart (c : Char) : Bool := c.isAlpha || c = '_'

/-- `[A-Za-z0-9_.-]`. -/
def isNameChar (c : Char) : Bool := c.isAlphanum || c = '_' || c = '.' || c = '-'

/-- The placeholder at the start of a text, with its path and the text behind it. -/
def matchPlaceholder : List Char → Option (String × List Char)
  | '$' :: '\x7b' :: c :: text =>
    if isNameStart c then
      match text.dropWhile isNameChar with
      | '\x7d' :: rest => some (String.ofList (c :: text.takeWhile isNameChar), rest)
      | _ => none
    else none
  | _ => none

/-- A character of a text, or a placeholder with its path. -/
inductive Segment where
  | char (c : Char)
  | path (path : String)
deriving DecidableEq

/-- The segments of a text of at most the given length. -/
def segmentsFrom : Nat → List Char → List Segment
  | 0, _ => []
  | _, [] => []
  | n + 1, c :: text =>
    match matchPlaceholder (c :: text) with
    | some (path, rest) => .path path :: segmentsFrom n rest
    | none => .char c :: segmentsFrom n text

/-- The placeholders of a text, from left to right, and the characters around them. -/
def segments (text : String) : List Segment := segmentsFrom text.toList.length text.toList

def Segment.path? : Segment → Option String
  | path text => some text
  | char _ => none

/-- The text is one placeholder. -/
def exactPlaceholder? (text : String) : Option String :=
  match segments text with
  | [.path path] => some path
  | _ => none

/-! ## Contexts -/

/-- The named values of a template. -/
abbrev TemplateContext := Dict String Doc

/-- `text.split(".")`. -/
def splitDots : List Char → List (List Char)
  | [] => [[]]
  | c :: text =>
    if c = '.' then [] :: splitDots text
    else
      match splitDots text with
      | part :: parts => (c :: part) :: parts
      | [] => [[c]]

def pathParts (path : String) : List String := (splitDots path.toList).map String.ofList

def unresolved (path : String) (traversed : List String) : PyError :=
  .compositionError ("unresolved template parameter $\x7b" ++ path ++ "\x7d; missing " ++
    quoted (".".intercalate traversed))

/-- The parts of a path that are left, below a value. -/
def resolveParts (path : String) : List String → List String → Doc → Except PyError Doc
  | [], _, current => .ok current
  | part :: parts, traversed, .dict entries =>
    match DocEntries.get? entries part with
    | some value => resolveParts path parts (traversed ++ [part]) value
    | none => .error (unresolved path (traversed ++ [part]))
  | part :: _, traversed, _ => .error (unresolved path (traversed ++ [part]))

/-- `_resolve_context_path`. -/
def resolveContextPath (context : TemplateContext) (path : String) : Except PyError Doc :=
  match pathParts path with
  | [] => .error (unresolved path [])
  | part :: parts =>
    match context.get? part with
    | some value => resolveParts path parts [part] value
    | none => .error (unresolved path [part])

/-! ## Rendering -/

/-- The text of one segment. -/
def renderSegment (context : TemplateContext) : Segment → Except PyError String
  | .char c => .ok (String.singleton c)
  | .path path => do
    let value ← resolveContextPath context path
    return value.pyStr

def renderText (context : TemplateContext) (text : String) : Except PyError Doc :=
  match exactPlaceholder? text with
  | some path => resolveContextPath context path
  | none => do
    let texts ← (segments text).mapM (renderSegment context)
    return .scalar (.str (String.join texts))

/-- The key of a rendered mapping; a list or a mapping is not hashable. -/
def renderKey (context : TemplateContext) (key : DocKey) : Except PyError DocKey :=
  match key.text? with
  | none => .ok key
  | some text => do
    let value ← renderText context text
    match value.key? with
    | some key => return key
    | none => .error .typeError

/-- The error for a key that the mapping has already. -/
def duplicateKey (key : DocKey) : PyError :=
  .compositionError s!"template rendering produced duplicate mapping key {key.repr}"

mutual

def renderTemplate (context : TemplateContext) : Doc → Except PyError Doc
  | .scalar (.str text) => renderText context text
  | .list items => do
    let items ← renderItems context items
    return .list items
  | .dict entries => do
    let entries ← renderEntries context entries []
    return .dict entries
  | .scalar v => .ok (.scalar v)
  | .expr e => .ok (.expr e)

def renderItems (context : TemplateContext) : List Doc → Except PyError (List Doc)
  | [] => .ok []
  | item :: items => do
    let value ← renderTemplate context item
    let values ← renderItems context items
    return value :: values

/-- The entries, behind those rendered before. -/
def renderEntries (context : TemplateContext) :
    List (DocKey × Doc) → DocEntries → Except PyError DocEntries
  | [], rendered => .ok rendered
  | (key, item) :: entries, rendered => do
    let newKey ← renderKey context key
    Except.require (rendered.all (fun p => !newKey.pyEq p.1)) (duplicateKey newKey)
    let value ← renderTemplate context item
    renderEntries context entries (rendered ++ [(newKey, value)])

end

/-! ## The placeholders of a document -/

def textPlaceholders (text : String) : List String := (segments text).filterMap Segment.path?

def keyPlaceholders (key : DocKey) : List String :=
  match key.text? with
  | some text => textPlaceholders text
  | none => []

mutual

/-- `template_placeholders`, of which only the set matters. -/
def templatePlaceholders : Doc → List String
  | .scalar (.str text) => textPlaceholders text
  | .list items => itemPlaceholders items
  | .dict entries => entryPlaceholders entries
  | .scalar _ => []
  | .expr _ => []

def itemPlaceholders : List Doc → List String
  | [] => []
  | item :: items => templatePlaceholders item ++ itemPlaceholders items

def entryPlaceholders : List (DocKey × Doc) → List String
  | [] => []
  | (key, item) :: entries =>
    keyPlaceholders key ++ templatePlaceholders item ++ entryPlaceholders entries

end

/-! ## Texts without placeholders -/

theorem segmentsFrom_of_plain {n : Nat} {text : List Char} (hlen : text.length ≤ n)
    (h : (segmentsFrom n text).filterMap Segment.path? = []) :
    segmentsFrom n text = text.map Segment.char := by
  induction n generalizing text with
  | zero =>
      rw [List.length_eq_zero_iff.mp (Nat.le_zero.mp hlen)]
      rfl
  | succ n ih =>
      cases text with
      | nil => rfl
      | cons c text =>
          unfold segmentsFrom at h ⊢
          cases hmatch : matchPlaceholder (c :: text) with
          | some found =>
              rw [hmatch] at h
              simp [Segment.path?] at h
          | none =>
              rw [hmatch] at h
              simp only [Segment.path?, List.filterMap_cons] at h
              simp only [List.map_cons, List.cons.injEq, true_and]
              exact ih (Nat.le_of_succ_le_succ hlen) h

theorem segments_of_plain {text : String} (h : textPlaceholders text = []) :
    segments text = text.toList.map Segment.char :=
  segmentsFrom_of_plain (Nat.le_refl _) h

theorem mapM_renderSegment_char (context : TemplateContext) (text : List Char) :
    (text.map Segment.char).mapM (renderSegment context) = .ok (text.map String.singleton) := by
  induction text with
  | nil => rfl
  | cons c text ih =>
      rw [List.map_cons, List.mapM_cons, ih]
      rfl

theorem toList_join (texts : List String) :
    (String.join texts).toList = texts.flatMap String.toList := by
  simp [String.toList_join]

theorem join_singletons (text : String) :
    String.join (text.toList.map String.singleton) = text := by
  apply String.toList_injective
  rw [toList_join, List.flatMap_map]
  simp

/-- A text without placeholders stands for itself. -/
theorem renderText_of_plain {context : TemplateContext} {text : String}
    (h : textPlaceholders text = []) : renderText context text = .ok (.scalar (.str text)) := by
  have hexact : exactPlaceholder? text = none := by
    unfold exactPlaceholder?
    rw [segments_of_plain h]
    cases text.toList with
    | nil => rfl
    | cons c rest => rfl
  unfold renderText
  rw [hexact, segments_of_plain h, mapM_renderSegment_char]
  show Except.ok _ = _
  rw [join_singletons]

theorem renderKey_of_plain {context : TemplateContext} {key : DocKey}
    (h : keyPlaceholders key = []) : renderKey context key = .ok key := by
  unfold renderKey
  unfold keyPlaceholders at h
  cases htext : key.text? with
  | none => rfl
  | some text =>
      rw [htext] at h
      simp only at h
      simp only [renderText_of_plain h, ok_bind, Doc.key?]
      unfold DocKey.text? at htext
      split at htext
      · cases htext
        rfl
      · cases htext

/-! ## Documents without placeholders -/

theorem renderEntries_cons {context : TemplateContext} {entry : DocKey × Doc}
    {entries seen rendered : DocEntries} :
    renderEntries context (entry :: entries) seen = .ok rendered ↔
      ∃ key value, renderKey context entry.1 = .ok key ∧ (∀ p ∈ seen, key.pyEq p.1 = false) ∧
        renderTemplate context entry.2 = .ok value ∧
        renderEntries context entries (seen ++ [(key, value)]) = .ok rendered := by
  rw [renderEntries]
  simp only [bind_eq_ok, require_eq_ok, List.all_eq_true, Bool.not_eq_true']
  constructor
  · rintro ⟨key, hkey, -, hfresh, value, hvalue, h⟩
    exact ⟨key, value, hkey, hfresh, hvalue, h⟩
  · rintro ⟨key, value, hkey, hfresh, hvalue, h⟩
    exact ⟨key, hkey, (), hfresh, value, hvalue, h⟩

mutual

/-- A document without placeholders, and without repeated keys, is rendered to itself. -/
theorem renderTemplate_of_plain {context : TemplateContext} :
    ∀ d : Doc, d.IsWellFormed → templatePlaceholders d = [] → renderTemplate context d = .ok d
  | .scalar v, _, hplain => by
      cases v with
      | str text => exact renderText_of_plain hplain
      | _ => rfl
  | .expr e, _, _ => rfl
  | .list items, hwf, hplain => by
      rcases hwf with _ | _ | ⟨_, hitems⟩ | _
      rw [renderTemplate, renderItems_of_plain items hitems hplain]
      rfl
  | .dict entries, hwf, hplain => by
      rcases hwf with _ | _ | _ | ⟨_, hkeys, hvalues⟩
      rw [renderTemplate, renderEntries_of_plain entries [] hkeys hvalues hplain]
      rfl

theorem renderItems_of_plain {context : TemplateContext} :
    ∀ items : List Doc, (∀ item ∈ items, item.IsWellFormed) → itemPlaceholders items = [] →
      renderItems context items = .ok items
  | [], _, _ => rfl
  | item :: items, hwf, hplain => by
      rw [itemPlaceholders, List.append_eq_nil_iff] at hplain
      rw [renderItems, renderTemplate_of_plain item (hwf item List.mem_cons_self) hplain.1, ok_bind,
        renderItems_of_plain items (fun d hd => hwf d (List.mem_cons_of_mem _ hd)) hplain.2]
      rfl

theorem renderEntries_of_plain {context : TemplateContext} :
    ∀ (entries : List (DocKey × Doc)) (seen : DocEntries),
      DocEntries.DistinctKeys (seen ++ entries) → (∀ entry ∈ entries, entry.2.IsWellFormed) →
      entryPlaceholders entries = [] → renderEntries context entries seen = .ok (seen ++ entries)
  | [], seen, _, _, _ => by
      rw [renderEntries, List.append_nil]
  | (key, item) :: entries, seen, hkeys, hwf, hplain => by
      rw [entryPlaceholders, List.append_eq_nil_iff, List.append_eq_nil_iff] at hplain
      have hitem : renderTemplate context item = .ok item :=
        renderTemplate_of_plain item (hwf (key, item) List.mem_cons_self) hplain.1.2
      have hfresh : ∀ p ∈ seen, key.pyEq p.1 = false := fun p hp =>
        (List.pairwise_append.mp hkeys).2.2 p hp (key, item) List.mem_cons_self
      refine renderEntries_cons.mpr ⟨key, item, renderKey_of_plain hplain.1.1, hfresh, hitem, ?_⟩
      have hrest : renderEntries context entries (seen ++ [(key, item)]) =
          .ok (seen ++ [(key, item)] ++ entries) :=
        renderEntries_of_plain entries _ (by simpa using hkeys)
          (fun e he => hwf e (List.mem_cons_of_mem _ he)) hplain.2
      simpa using hrest

end

/-! ## What is rendered has no repeated keys -/

/-- The documents of a context have no repeated keys. -/
def IsWellFormedContext (context : TemplateContext) : Prop :=
  ∀ name value, context.get? name = some value → value.IsWellFormed

section WellFormed

variable {context : TemplateContext} (hcontext : IsWellFormedContext context)

theorem isWellFormed_resolveParts {path : String} {parts traversed : List String} {d value : Doc}
    (hd : d.IsWellFormed) (h : resolveParts path parts traversed d = .ok value) :
    value.IsWellFormed := by
  induction parts generalizing traversed d with
  | nil =>
      rw [resolveParts] at h
      cases h
      exact hd
  | cons part parts ih =>
      cases d with
      | dict entries =>
          rw [resolveParts] at h
          split at h
          · rename_i next hnext
            exact ih (DocEntries.isWellFormed_of_get? hd hnext) h
          · cases h
      | _ =>
          rw [resolveParts] at h
          · cases h
          · intro entries heq
            cases heq

include hcontext

theorem isWellFormed_resolveContextPath {path : String} {value : Doc}
    (h : resolveContextPath context path = .ok value) : value.IsWellFormed := by
  unfold resolveContextPath at h
  split at h
  · cases h
  · split at h
    · rename_i found hfound
      exact isWellFormed_resolveParts (hcontext _ _ hfound) h
    · cases h

theorem isWellFormed_renderText {text : String} {value : Doc}
    (h : renderText context text = .ok value) : value.IsWellFormed := by
  unfold renderText at h
  split at h
  · exact isWellFormed_resolveContextPath hcontext h
  · rcases bind_eq_ok.mp h with ⟨texts, -, h⟩
    cases h
    exact .scalar _

end WellFormed

mutual

/-- Rendering checks the keys of every mapping that it makes. -/
theorem isWellFormed_renderTemplate {context : TemplateContext}
    (hcontext : IsWellFormedContext context) :
    ∀ (d value : Doc), renderTemplate context d = .ok value → value.IsWellFormed
  | .scalar v, value, h => by
      cases v with
      | str text => exact isWellFormed_renderText hcontext h
      | _ =>
          cases h
          exact .scalar _
  | .expr e, value, h => by
      cases h
      exact .expr e
  | .list items, value, h => by
      rw [renderTemplate] at h
      obtain ⟨values, hvalues, h⟩ := bind_eq_ok.mp h
      cases h
      exact .list _ (isWellFormed_renderItems hcontext items values hvalues)
  | .dict entries, value, h => by
      rw [renderTemplate] at h
      obtain ⟨values, hvalues, h⟩ := bind_eq_ok.mp h
      cases h
      have hdict := isWellFormed_renderEntries hcontext entries [] values hvalues .nil (by simp)
      exact .dict _ hdict.1 hdict.2

theorem isWellFormed_renderItems {context : TemplateContext}
    (hcontext : IsWellFormedContext context) : ∀ (items values : List Doc),
    renderItems context items = .ok values → ∀ value ∈ values, value.IsWellFormed
  | [], values, h => by
      cases h
      simp
  | item :: items, values, h => by
      rw [renderItems] at h
      obtain ⟨first, hfirst, h⟩ := bind_eq_ok.mp h
      obtain ⟨rest, hrest, h⟩ := bind_eq_ok.mp h
      cases h
      intro value hmem
      rcases List.mem_cons.mp hmem with rfl | hmem
      · exact isWellFormed_renderTemplate hcontext item value hfirst
      · exact isWellFormed_renderItems hcontext items rest hrest value hmem

theorem isWellFormed_renderEntries {context : TemplateContext}
    (hcontext : IsWellFormedContext context) :
    ∀ (entries : List (DocKey × Doc)) (seen values : DocEntries),
    renderEntries context entries seen = .ok values → DocEntries.DistinctKeys seen →
      (∀ entry ∈ seen, entry.2.IsWellFormed) →
      DocEntries.DistinctKeys values ∧ ∀ entry ∈ values, entry.2.IsWellFormed
  | [], seen, values, h, hkeys, hwf => by
      rw [renderEntries] at h
      cases h
      exact ⟨hkeys, hwf⟩
  | (key, item) :: entries, seen, values, h, hkeys, hwf => by
      rcases renderEntries_cons.mp h with ⟨newKey, value, -, hfresh, hvalue, h⟩
      have hitem := isWellFormed_renderTemplate hcontext item value hvalue
      refine isWellFormed_renderEntries hcontext entries _ values h ?_ ?_
      · refine List.pairwise_append.mpr ⟨hkeys, List.pairwise_singleton _ _, ?_⟩
        intro p hp q hq
        rw [List.mem_singleton.mp hq]
        exact hfresh p hp
      · intro entry hmem
        rcases List.mem_append.mp hmem with hmem | hmem
        · exact hwf entry hmem
        · rw [List.mem_singleton.mp hmem]
          exact hitem

end

/-! ## What is rendered was resolved -/

theorem resolves_of_renderText {context : TemplateContext} {text path : String} {value : Doc}
    (h : renderText context text = .ok value) (hpath : path ∈ textPlaceholders text) :
    ∃ found, resolveContextPath context path = .ok found := by
  rcases List.mem_filterMap.mp hpath with ⟨segment, hmem, hsegment⟩
  have hsegment' : segment = .path path := by
    cases segment with
    | char c => cases hsegment
    | path p => exact congrArg Segment.path (Option.some.inj hsegment)
  subst hsegment'
  unfold renderText at h
  split at h
  · -- the text is the placeholder
    rename_i only honly
    have hsegments : segments text = [.path only] := by
      unfold exactPlaceholder? at honly
      split at honly
      · rename_i found hfound
        cases honly
        exact hfound
      · cases honly
    rw [hsegments, List.mem_singleton] at hmem
    cases hmem
    exact ⟨value, h⟩
  · rcases bind_eq_ok.mp h with ⟨texts, htexts, -⟩
    rcases mapM_result htexts hmem with ⟨found, -, hfound⟩
    rcases bind_eq_ok.mp hfound with ⟨resolved, hresolved, -⟩
    exact ⟨resolved, hresolved⟩

theorem resolves_of_renderKey {context : TemplateContext} {key key' : DocKey} {path : String}
    (h : renderKey context key = .ok key') (hpath : path ∈ keyPlaceholders key) :
    ∃ found, resolveContextPath context path = .ok found := by
  unfold renderKey at h
  unfold keyPlaceholders at hpath
  split at h
  · rename_i hnone
    rw [hnone] at hpath
    cases hpath
  · rename_i text htext
    rw [htext] at hpath
    rcases bind_eq_ok.mp h with ⟨value, hvalue, -⟩
    exact resolves_of_renderText hvalue hpath

mutual

/-- Every placeholder of a document that is rendered names a value of the context. -/
theorem resolves_of_renderTemplate {context : TemplateContext} {path : String} :
    ∀ (d value : Doc), renderTemplate context d = .ok value → path ∈ templatePlaceholders d →
      ∃ found, resolveContextPath context path = .ok found
  | .scalar v, value, h, hpath => by
      cases v with
      | str text => exact resolves_of_renderText h hpath
      | _ => cases hpath
  | .expr e, value, h, hpath => by cases hpath
  | .list items, value, h, hpath => by
      rw [renderTemplate] at h
      obtain ⟨values, hvalues, -⟩ := bind_eq_ok.mp h
      exact resolves_of_renderItems items values hvalues hpath
  | .dict entries, value, h, hpath => by
      rw [renderTemplate] at h
      obtain ⟨values, hvalues, -⟩ := bind_eq_ok.mp h
      exact resolves_of_renderEntries entries [] values hvalues hpath

theorem resolves_of_renderItems {context : TemplateContext} {path : String} :
    ∀ (items values : List Doc), renderItems context items = .ok values →
      path ∈ itemPlaceholders items → ∃ found, resolveContextPath context path = .ok found
  | [], values, h, hpath => by cases hpath
  | item :: items, values, h, hpath => by
      rw [renderItems] at h
      obtain ⟨first, hfirst, h⟩ := bind_eq_ok.mp h
      obtain ⟨rest, hrest, -⟩ := bind_eq_ok.mp h
      rw [itemPlaceholders, List.mem_append] at hpath
      rcases hpath with hpath | hpath
      · exact resolves_of_renderTemplate item first hfirst hpath
      · exact resolves_of_renderItems items rest hrest hpath

theorem resolves_of_renderEntries {context : TemplateContext} {path : String} :
    ∀ (entries : List (DocKey × Doc)) (seen values : DocEntries),
      renderEntries context entries seen = .ok values → path ∈ entryPlaceholders entries →
        ∃ found, resolveContextPath context path = .ok found
  | [], seen, values, h, hpath => by cases hpath
  | (key, item) :: entries, seen, values, h, hpath => by
      rcases renderEntries_cons.mp h with ⟨newKey, value, hkey, -, hvalue, h⟩
      rw [entryPlaceholders, List.mem_append, List.mem_append] at hpath
      rcases hpath with (hpath | hpath) | hpath
      · exact resolves_of_renderKey hkey hpath
      · exact resolves_of_renderTemplate item value hvalue hpath
      · exact resolves_of_renderEntries entries _ values h hpath

end

/-- The keys of a rendered mapping are those of the mapping, rendered. -/
theorem key_of_renderEntries {context : TemplateContext} {entries seen rendered : DocEntries}
    (h : renderEntries context entries seen = .ok rendered) {key : DocKey}
    (hkey : key ∈ entries.map Prod.fst ∨ key ∈ seen.map Prod.fst)
    (hplain : keyPlaceholders key = []) : key ∈ rendered.map Prod.fst := by
  induction entries generalizing seen with
  | nil =>
      rw [renderEntries] at h
      cases h
      rcases hkey with hkey | hkey
      · cases hkey
      · exact hkey
  | cons entry entries ih =>
      rcases renderEntries_cons.mp h with ⟨newKey, value, hnew, -, -, h⟩
      refine ih h ?_
      rw [List.map_append, List.mem_append]
      rcases hkey with hkey | hkey
      · rw [List.map_cons, List.mem_cons] at hkey
        rcases hkey with rfl | hkey
        · rw [renderKey_of_plain hplain, Except.ok.injEq] at hnew
          exact .inr (.inr (by simp [hnew]))
        · exact .inl hkey
      · exact .inr (.inl hkey)

end Umcm
