import Umcm.Composition.Rendering
import Umcm.Data.Choice

/-!
# Repeated fragments

A directive of a module template renders a fragment once for each item of a
collection, or once for each choice of items from several collections, and
appends what it renders to the sections of the module.
-/

namespace Umcm

open Except

/-! ## Reading a directive -/

/-- `", ".join(sorted(str(item) for item in keys))`. -/
def joinKeys (keys : List DocKey) : String :=
  ", ".intercalate ((keys.map DocKey.pyStr).insertionSort (· ≤ ·))

/-- `set(entries) - allowed`. -/
def keysBeyond (allowed : List String) (entries : DocEntries) : List DocKey :=
  (entries.map Prod.fst).filter (fun key =>
    match key.text? with
    | some name => name ∉ allowed
    | none => true)

def asMapping (error : PyError) : Doc → Except PyError DocEntries
  | .dict entries => .ok entries
  | _ => .error error

def asList (error : PyError) : Doc → Except PyError (List Doc)
  | .list items => .ok items
  | _ => .error error

/-- `entries[name]`; `directive` names the mapping in the error. -/
def requiredEntry (directive : String) (entries : DocEntries) (name : String) :
    Except PyError Doc :=
  match DocEntries.get? entries name with
  | some value => .ok value
  | none => .error (.compositionError s!"{directive} is missing {quoted name}")

/-- The keys of the mapping are among those allowed. -/
def requireKeys (message : String) (allowed : List String) (entries : DocEntries) :
    Except PyError Unit :=
  let unknown := keysBeyond allowed entries
  Except.require (unknown.isEmpty = true) (.compositionError (message ++ joinKeys unknown))

def allowedSections : List String :=
  ["ports", "slots", "state_variables", "transformations", "constraints"]

/-! ## Appending -/

/-- `data.setdefault(section, []).extend(values)`; the sections of a directive have text keys. -/
def extendSection (directive : String) (data : DocEntries) (entry : DocKey × Doc) :
    Except PyError DocEntries := do
  let name := entry.1.pyStr
  let values ← asList (.compositionError
    s!"module {directive} section {quoted name} must render to a list") entry.2
  let current ← asList (.compositionError
    s!"module section {quoted name} must be a list before {directive} expansion")
    ((DocEntries.get? data name).getD (.list []))
  return DocEntries.set data name (.list (current ++ values))

/-- Render the fragment and append its sections. -/
def appendRendered (directive : String) (sections : DocEntries) (data : DocEntries)
    (context : TemplateContext) : Except PyError DocEntries := do
  let rendered ← renderEntries context sections []
  rendered.foldlM (extendSection directive) data

/-! ## One collection -/

/-- `_resolve_context_path`, with its error replaced. -/
def resolveCollection (context : TemplateContext) (path : String) : Except PyError Doc :=
  match resolveContextPath context path with
  | .error (.compositionError _) => .error (.compositionError
      s!"module repeat over {quoted path} could not be resolved")
  | result => result

def indexValue (n : Nat) : Doc := .scalar (.int n)

/-- The context of one item of a repeated collection. -/
def repeatContext (context : TemplateContext) (path name : String) (item : Doc × Nat) :
    Except PyError TemplateContext := do
  let entries ← asMapping (.compositionError
    s!"module repeat role {quoted path} item {item.2} is not a mapping") item.1
  return context.insert name (.dict (DocEntries.set entries "repeat_index" (indexValue item.2)))

def expandRepeat (context : TemplateContext) (data : DocEntries) (spec : Doc) :
    Except PyError DocEntries := do
  let spec ← asMapping (.compositionError "module repeat item must be a mapping") spec
  requireKeys "module repeat contains unknown key(s): " ["over", "as", "include"] spec
  let path ← requiredEntry "module repeat" spec "over"
  let name ← requiredEntry "module repeat" spec "as"
  let included ← requiredEntry "module repeat" spec "include"
  let path := path.pyStr
  let name := name.pyStr
  Except.require (name ≠ "") (.compositionError "module repeat alias must be non-empty")
  let collection ← resolveCollection context path
  let collection ← asList (.compositionError
    s!"module repeat over {quoted path} requires a cardinality=many role") collection
  let sections ← asMapping (.compositionError "module repeat include must be a mapping") included
  requireKeys "module repeat include contains unsupported section(s): " allowedSections sections
  collection.zipIdx.foldlM (fun data item => do
    let localContext ← repeatContext context path name item
    appendRendered "repeat" sections data localContext) data

/-! ## A product of collections -/

/-- The aliases of the axes so far and their collections. -/
structure ProductAxes where
  aliases : List String
  collections : List (List Doc)

/-- One axis of a product. -/
def addAxis (context : TemplateContext) (axes : ProductAxes) (axis : Doc) :
    Except PyError ProductAxes := do
  let axis ← asMapping (.compositionError "module repeat_product axis must be a mapping") axis
  requireKeys "module repeat_product axis contains unknown key(s): " ["over", "as"] axis
  let path ← requiredEntry "module repeat_product axis" axis "over"
  let name ← requiredEntry "module repeat_product axis" axis "as"
  let path := path.pyStr
  let name := name.pyStr
  Except.require (name ≠ "" ∧ name ∉ axes.aliases)
    (.compositionError "module repeat_product aliases must be non-empty and unique")
  let collection ← resolveContextPath context path
  let collection ← asList (.compositionError
    s!"module repeat_product over {quoted path} requires a cardinality=many role") collection
  return ⟨axes.aliases ++ [name], axes.collections ++ [collection]⟩

/-- The item of an axis in a copy: its position in the collection and the index of the copy. -/
def axisItem (item : DocEntries) (position productIndex : Nat) : DocEntries :=
  DocEntries.set (DocEntries.set item "repeat_index" (indexValue position)) "product_index"
    (indexValue productIndex)

/-- Bind the alias of one axis. -/
def bindAxis (productIndex : Nat) (context : TemplateContext) (axis : String × Doc × Nat) :
    Except PyError TemplateContext := do
  let item ← asMapping (.compositionError
    s!"module repeat_product alias {quoted axis.1} item is not a mapping") axis.2.1
  return context.insert axis.1 (.dict (axisItem item axis.2.2 productIndex))

/-- The context of one copy; `items` are the chosen items with their positions. -/
def productContext (context : TemplateContext) (aliases : List String)
    (items : List (Doc × Nat)) (productIndex : Nat) : Except PyError TemplateContext := do
  let bound ← (aliases.zip items).foldlM (bindAxis productIndex) context
  return bound.insert "product" (.dict [(.text "repeat_index", indexValue productIndex)])

def expandProduct (context : TemplateContext) (data : DocEntries) (spec : Doc) :
    Except PyError DocEntries := do
  let spec ← asMapping (.compositionError "module repeat_product item must be a mapping") spec
  requireKeys "module repeat_product contains unknown key(s): " ["axes", "include"] spec
  let axes := (DocEntries.get? spec "axes").getD (.scalar .none)
  let included := (DocEntries.get? spec "include").getD (.scalar .none)
  Except.require (axes.truthy = true)
    (.compositionError "module repeat_product axes must be a non-empty list")
  let axes ← asList (.compositionError "module repeat_product axes must be a non-empty list") axes
  let sections ← asMapping
    (.compositionError "module repeat_product include must be a mapping") included
  requireKeys "module repeat_product include contains unsupported section(s): " allowedSections
    sections
  let axes ← axes.foldlM (addAxis context) ⟨[], []⟩
  let choices := Choice.product (axes.collections.map List.zipIdx)
  choices.zipIdx.foldlM (fun data choice => do
    let localContext ← productContext context axes.aliases choice.1 choice.2
    appendRendered "repeat_product" sections data localContext) data

/-! ## All directives -/

/-- The entry of a directive, or the empty list. -/
def directives (raw : DocEntries) (name : String) : Doc := (DocEntries.get? raw name).getD (.list [])

/-- `expand_module_repeats`, of a template that is a mapping. -/
def expandModuleRepeats (raw : DocEntries) (context : TemplateContext) :
    Except PyError DocEntries :=
  let data := DocEntries.remove (DocEntries.remove raw "repeat") "repeat_product"
  let repeats := directives raw "repeat"
  let products := directives raw "repeat_product"
  if !repeats.truthy && !products.truthy then .ok data
  else do
    let repeats ← asList (.compositionError "module repeat must be a list") repeats
    let products ← asList (.compositionError "module repeat_product must be a list") products
    let data ← repeats.foldlM (expandRepeat context) data
    products.foldlM (expandProduct context) data

end Umcm
