import Umcm.Composition.Rendering
import Umcm.Data.Sorted

/-!
# Roles of a trace

A composition names roles, and every role selects events of the trace: by type, by id and
by the values at paths. The selected events are sorted by cycle and id, thinned out and
exported, with indexes and choices that are derived from them.

* `orderFree_iff`: the order of the trace does not matter, or `CompositionError` is raised
  for every order, unless a value that cannot be a key stands where a key is asked for.
-/

namespace Umcm

open Except

/-! ## Events -/

/-- An event of a trace with its fields and annotations. -/
structure RoleEvent where
  id : String
  eventType : String
  fields : DocEntries
  cycle : EventCycle
  occurs : Occurs
  annotations : DocEntries

/-- The events of a trace, with distinct ids. -/
structure RoleTrace where
  events : List RoleEvent
  nodup : (events.map RoleEvent.id).Nodup

namespace RoleEvent

def cycleDoc (event : RoleEvent) : Doc :=
  match event.cycle with
  | .absent => .scalar .none
  | .concrete n => .scalar (.int n)
  | .symbolic e => .expr e

def occursDoc (event : RoleEvent) : Doc :=
  match event.occurs with
  | .known b => .scalar (.bool b)
  | .symbolic e => .expr e

/-- `event.cycle if isinstance(event.cycle, int) else 10**18`, and the id. -/
def sortKey (event : RoleEvent) : Nat ×ₗ String :=
  match event.cycle with
  | .concrete n => toLex (n, event.id)
  | _ => toLex (10 ^ 18, event.id)

def noPath (event : RoleEvent) (path : String) : PyError :=
  .compositionError s!"trace event {quoted event.id} has no path {quoted path}"

/-- The rest of a path, below a value. -/
def descend (event : RoleEvent) (path : String) : List String → Doc → Except PyError Doc
  | [], current => .ok current
  | part :: parts, .dict entries =>
    match DocEntries.get? entries part with
    | some value => descend event path parts value
    | none => .error (event.noPath path)
  | _ :: _, _ => .error (event.noPath path)

/-- The attribute that the first part of a path names. -/
def root? (event : RoleEvent) (head : String) : Option Doc :=
  if head = "id" then some (.scalar (.str event.id))
  else if head = "type" ∨ head = "event_type" then some (.scalar (.str event.eventType))
  else if head = "cycle" then some event.cycleDoc
  else if head = "occurs" then some event.occursDoc
  else if head = "fields" then some (.dict event.fields)
  else if head = "annotations" then some (.dict event.annotations)
  else none

/-- `_resolve_event_path`; a bare name is that of a field. -/
def resolvePath (event : RoleEvent) (path : String) : Except PyError Doc :=
  match pathParts path with
  | [] => .error (.compositionError "empty trace-event path")
  | head :: parts =>
    match event.root? head with
    | some root => event.descend path parts root
    | none => event.descend path (head :: parts) (.dict event.fields)

end RoleEvent

/-! ## Roles -/

/-- What a case of a switch exports. -/
inductive SwitchChoice where
  | value (d : Doc)
  | path (path : String)

/-- A derived export; without a default and for a case `None` a switch has no choice. -/
inductive DerivedExport where
  | constant (value : Doc)
  | queueIndex (groupBy : List String) (start capacity : Int)
  | switch (path : String) (cases : List (DocKey × Option SwitchChoice))
    (default : Option SwitchChoice)

/-- `start` lies within a queue with entries. -/
def DerivedExport.Fits : DerivedExport → Prop
  | .queueIndex _ start capacity => 0 ≤ start ∧ start < capacity
  | _ => True

/-- One name, or a list of names. -/
inductive RoleType where
  | one (name : String)
  | many (names : List String)

def RoleType.names : RoleType → List String
  | .one name => [name]
  | .many names => names

/-- `_role_type_label`. -/
def RoleType.label : RoleType → String
  | .one name => name
  | .many names => "[" ++ ", ".intercalate names ++ "]"

inductive Cardinality where
  | one
  | many
deriving DecidableEq, Repr

structure TraceRoleSpec where
  name : String
  eventType : RoleType
  whereEntries : DocEntries
  exports : Dict String String
  derived : Dict String DerivedExport
  eventId : Option String
  occurringOnly : Bool
  cardinality : Cardinality
  minMatches : Nat
  copies : Nat
  copyExports : Dict String String
  distinctBy : Option String
  name_ne : name ≠ ""
  types_ne : eventType.names ≠ [] ∧ "" ∉ eventType.names
  copies_pos : 0 < copies
  one_copy : cardinality = .one → copies = 1
  copyExports_empty : copies = 1 → copyExports.entries = []
  copyExports_known : ∀ p ∈ copyExports.entries,
    (p.1 ∈ exports.keys ∨ p.1 ∈ derived.keys) ∧ p.2 ≠ ""
  derived_apart : ∀ p ∈ derived.entries, p.1 ∉ exports.keys ∧ p.1 ≠ "" ∧ p.2.Fits
  exports_ne : ∀ p ∈ exports.entries, p.1 ≠ "" ∧ p.2 ≠ ""

namespace TraceRoleSpec

variable (role : TraceRoleSpec)

/-! ## Selected events -/

/-- The event has the type, the id and the occurrence that the role asks for. -/
def accepts (event : RoleEvent) : Bool :=
  event.eventType ∈ role.eventType.names && role.eventId.all (fun id => event.id = id) &&
    (!role.occurringOnly || match event.occurs with
      | .known b => b
      | .symbolic _ => false)

/-- The event has the values at the paths; a missing path is no match. -/
def meets (event : RoleEvent) : DocEntries → Except PyError Bool
  | [] => .ok true
  | (key, expected) :: rest =>
    match key.text? with
    | none => .error .attributeError
    | some path =>
      match event.resolvePath path with
      | .error _ => .ok false
      | .ok actual => if actual.pyEq expected then meets event rest else .ok false

/-- The events that the role accepts and that meet the filter, in the order of the trace. -/
def selectEvents (events : List RoleEvent) (expected : DocEntries) :
    Except PyError (List RoleEvent) := do
  let met ← (events.filter role.accepts).mapM (fun event => do
    let matched ← meets event expected
    return (event, matched))
  return (met.filter Prod.snd).map Prod.fst

/-- The selected events by cycle, then by id. -/
def sortedMatches (events : List RoleEvent) (expected : DocEntries) :
    Except PyError (List RoleEvent) := do
  let selected ← role.selectEvents events expected
  return selected.insertionSort (fun a b => a.sortKey ≤ b.sortKey)

/-- The class of a hashable value. -/
def className : DocKey → String
  | .scalar v => v.typeName
  | .expr e => e.typeName

def unhashable (path : String) : PyError :=
  .compositionError (s!"trace role {quoted role.name} distinct_by path " ++
    s!"{quoted path} did not resolve to a hashable value")

/-- The first event for every value at the path, behind those seen before. -/
def distinctFrom (path : String) (seen : List DocKey) :
    List RoleEvent → Except PyError (List RoleEvent)
  | [] => .ok []
  | event :: rest => do
    let value ← event.resolvePath path
    match value.key? with
    | none => .error (role.unhashable path)
    | some key =>
      if seen.any (fun k => className k = className key && k.pyEq key) then
        distinctFrom path seen rest
      else do
        let rest ← distinctFrom path (seen ++ [key]) rest
        return event :: rest

def distinctMatches (matched : List RoleEvent) : Except PyError (List RoleEvent) :=
  match role.distinctBy with
  | none => .ok matched
  | some path => role.distinctFrom path [] matched

/-! ## Derived exports -/

def noCase (exportName : String) (selector : Doc) : PyError :=
  .compositionError (s!"trace role {quoted role.name} switch {quoted exportName} has no " ++
    s!"case for {selector.repr} and no default")

/-- `cases.get(selector, default)`. -/
def choiceOf (cases : List (DocKey × Option SwitchChoice)) (default : Option SwitchChoice)
    (key : DocKey) : Option SwitchChoice :=
  match cases.find? (fun p => p.1.pyEq key) with
  | some p => p.2
  | none => default

def switchValue (exportName path : String) (cases : List (DocKey × Option SwitchChoice))
    (default : Option SwitchChoice) (event : RoleEvent) : Except PyError Doc := do
  let selector ← event.resolvePath path
  match selector.key? with
  | none => .error .typeError
  | some key =>
    match choiceOf cases default key with
    | none => .error (role.noCase exportName selector)
    | some (.path path) => event.resolvePath path
    | some (.value d) => .ok d

/-- The values that number the event within a queue; they have to be hashable. -/
def groupOf (groupBy : List String) (event : RoleEvent) : Except PyError (List DocKey) := do
  let values ← groupBy.mapM event.resolvePath
  values.mapM (fun value => match value.key? with
    | some key => .ok key
    | none => .error .typeError)

def sameGroup (a b : List DocKey) : Bool :=
  a.length = b.length && (a.zip b).all (fun p => p.1.pyEq p.2)

/-- The indexes of the events, whose groups are given. -/
def queueIndices (start capacity : Int) (groups : List (List DocKey)) : List Doc :=
  groups.zipIdx.map (fun p => .scalar (.int
    ((start + (groups.take p.2).countP (fun group => sameGroup group p.1)) % capacity)))

/-- The values of one derived export. -/
def column (exportName : String) (spec : DerivedExport) (matched : List RoleEvent) :
    Except PyError (List Doc) :=
  match spec with
  | .constant value => .ok (matched.map (fun _ => value))
  | .switch path cases default => matched.mapM (role.switchValue exportName path cases default)
  | .queueIndex groupBy start capacity => do
    let groups ← matched.mapM (groupOf groupBy)
    return queueIndices start capacity groups

/-- `_derive_role_exports`: for every event its derived values. -/
def deriveRoleExports (matched : List RoleEvent) : Except PyError (List DocEntries) := do
  let columns ← role.derived.entries.mapM (fun p => do
    let values ← role.column p.1 p.2 matched
    return (p.1, values))
  return (List.range matched.length).map (fun i =>
    columns.map (fun c => (.text c.1, c.2.getD i (.scalar .none))))

/-! ## Exported events -/

def symbolicExport (exportName path : String) : PyError :=
  .compositionError (s!"trace role {quoted role.name} export {quoted exportName} from " ++
    s!"{quoted path} is symbolic; finite template instantiation requires a " ++
    "concrete observed value")

def exportField (event : RoleEvent) (exported : DocEntries) (p : String × String) :
    Except PyError DocEntries := do
  let value ← event.resolvePath p.2
  match value with
  | .expr _ => .error (role.symbolicExport p.1 p.2)
  | value => return exported.set p.1 value

/-- `_export_role_event`. -/
def exportRoleEvent (event : RoleEvent) (derived : DocEntries) : Except PyError DocEntries := do
  let exported ← role.exports.entries.foldlM (role.exportField event)
    [(.text "event_id", .scalar (.str event.id)),
      (.text "event_type", .scalar (.str event.eventType))]
  return derived.foldl (fun exported p => exported.set p.1.pyStr p.2) exported

def copyField (copied : DocEntries) (p : String × String) : Except PyError DocEntries := do
  let value ← renderText (.ofList [("copy", .dict copied)]) p.2
  return copied.set p.1 value

/-- One copy of an exported event. -/
def copyOf (item : DocEntries) (index : Nat) : Except PyError Doc :=
  .dict <$> role.copyExports.entries.foldlM copyField
    (item.set "copy_index" (.scalar (.int index)))

def wrongCount (matched : List RoleEvent) : PyError :=
  let detail := if matched = [] then "no event matched"
    else s!"{matched.length} events matched: " ++ ", ".intercalate (matched.map RoleEvent.id)
  .compositionError (s!"trace role {quoted role.name} must resolve to exactly one " ++
    s!"{role.eventType.label} event; {detail}")

def tooFew (matched : List RoleEvent) : PyError :=
  .compositionError (s!"trace role {quoted role.name} requires at least " ++
    s!"{role.minMatches} {role.eventType.label} event(s); only {matched.length} matched")

/-- As many events as the role asks for. -/
def countError? (matched : List RoleEvent) : Option PyError :=
  match role.cardinality with
  | .one => if matched.length = 1 then none else some (role.wrongCount matched)
  | .many => if role.minMatches ≤ matched.length then none else some (role.tooFew matched)

/-- What the exported events are to the templates. -/
def collect (exported : List DocEntries) : Except PyError Doc :=
  match role.cardinality, exported with
  | .one, [item] => .ok (.dict item)
  | _, items => do
    let copies ← items.mapM (fun item => (List.range role.copies).mapM (role.copyOf item))
    return .list copies.flatten

/-- The value of a role in the context of the roles before it. -/
def resolve (events : List RoleEvent) (context : TemplateContext) : Except PyError Doc := do
  let expected ← renderEntries context role.whereEntries []
  let sorted ← role.sortedMatches events expected
  let matched ← role.distinctMatches sorted
  match role.countError? matched with
  | some e => .error e
  | none => do
    let derived ← role.deriveRoleExports matched
    let exported ← (matched.zip derived).mapM (fun p => role.exportRoleEvent p.1 p.2)
    role.collect exported

end TraceRoleSpec

/-- One role, behind the roles of the context. -/
def resolveRole (events : List RoleEvent) (context : TemplateContext) (role : TraceRoleSpec) :
    Except PyError TemplateContext := do
  Except.require (role.name ∉ context.keys) (.compositionError
    s!"duplicate trace role {quoted role.name}")
  let value ← role.resolve events context
  return context.insert role.name value

/-- `resolve_trace_roles`. -/
def resolveTraceRoles (trace : RoleTrace) (roles : List TraceRoleSpec)
    (initial : TemplateContext) : Except PyError TemplateContext :=
  roles.foldlM (resolveRole trace.events) initial

/-! ## The order of the trace -/

section Order

variable {events events' : List RoleEvent} {role : TraceRoleSpec} {expected : DocEntries}

namespace TraceRoleSpec

theorem raises_meets {event : RoleEvent} : Raises (· = .attributeError) (meets event expected) := by
  induction expected with
  | nil => exact raises_ok _
  | cons entry rest ih =>
      unfold meets
      split
      · exact raises_error rfl
      · split
        · exact raises_ok _
        · split_ifs
          · exact ih
          · exact raises_ok _

theorem raises_selectEvents :
    Raises (· = .attributeError) (role.selectEvents events expected) := by
  refine Raises.bind (Raises.mapM (fun event _ => ?_)) (fun _ _ => raises_ok _)
  exact Raises.bind raises_meets (fun _ _ => raises_ok _)

/-- In another order the same events are selected. -/
theorem selectEvents_perm (hperm : events.Perm events') {selected : List RoleEvent}
    (h : role.selectEvents events expected = .ok selected) :
    ∃ selected', role.selectEvents events' expected = .ok selected' ∧ selected.Perm selected' := by
  obtain ⟨met, hmet, h⟩ := bind_eq_ok.mp h
  cases h
  obtain ⟨met', hmet', hsame⟩ := mapM_perm (hperm.filter role.accepts) hmet
  refine ⟨(met'.filter Prod.snd).map Prod.fst, ?_, (hsame.filter Prod.snd).map Prod.fst⟩
  unfold selectEvents
  rw [hmet']
  rfl

theorem mem_of_selectEvents {selected : List RoleEvent}
    (h : role.selectEvents events expected = .ok selected) {event : RoleEvent}
    (hevent : event ∈ selected) : event ∈ events := by
  obtain ⟨met, hmet, h⟩ := bind_eq_ok.mp h
  cases h
  obtain ⟨p, hp, rfl⟩ := List.mem_map.mp hevent
  obtain ⟨event, hmem, hok⟩ := mapM_origin hmet (List.mem_of_mem_filter hp)
  obtain ⟨matched, -, hok⟩ := bind_eq_ok.mp hok
  cases hok
  exact List.mem_of_mem_filter hmem

/-- The id of an event is the last part of its key. -/
theorem id_of_sortKey {a b : RoleEvent} (h : a.sortKey = b.sortKey) : a.id = b.id := by
  have hsnd : ∀ event : RoleEvent, (ofLex event.sortKey).2 = event.id := by
    intro event
    unfold RoleEvent.sortKey
    split <;> rfl
  rw [← hsnd a, ← hsnd b, h]

/-- Sorting the selected events forgets the order of the trace. -/
theorem sortedMatches_perm (hids : (events.map RoleEvent.id).Nodup) (hperm : events.Perm events') :
    role.sortedMatches events' expected = role.sortedMatches events expected := by
  unfold sortedMatches
  cases h : role.selectEvents events expected with
  | ok selected =>
      obtain ⟨selected', h', hsame⟩ := selectEvents_perm hperm h
      rw [h', ok_bind, ok_bind]
      refine congrArg Except.ok (insertionSort_key_eq_of_perm hsame ?_).symm
      intro a ha b hb hkey
      exact List.inj_on_of_nodup_map hids (mem_of_selectEvents h ha) (mem_of_selectEvents h hb)
        (id_of_sortKey hkey)
  | error e =>
      -- the other order raises as well, and there is one error only
      have he : e = .attributeError := raises_selectEvents e h
      cases h' : role.selectEvents events' expected with
      | ok selected' =>
          obtain ⟨selected, hok, -⟩ := selectEvents_perm hperm.symm h'
          rw [h] at hok
          cases hok
      | error e' =>
          have he' : e' = .attributeError := raises_selectEvents e' h'
          rw [he, he']

theorem resolve_perm (hids : (events.map RoleEvent.id).Nodup) (hperm : events.Perm events')
    (context : TemplateContext) : role.resolve events' context = role.resolve events context := by
  unfold resolve
  simp only [sortedMatches_perm hids hperm]

end TraceRoleSpec

/-- The roles are resolved alike in every order of the trace. -/
theorem resolveTraceRoles_perm {trace trace' : RoleTrace} (hperm : trace.events.Perm trace'.events)
    (roles : List TraceRoleSpec) (initial : TemplateContext) :
    resolveTraceRoles trace' roles initial = resolveTraceRoles trace roles initial := by
  have hstep : resolveRole trace'.events = resolveRole trace.events := by
    funext context role
    unfold resolveRole
    rw [TraceRoleSpec.resolve_perm trace.nodup hperm]
  unfold resolveTraceRoles
  rw [hstep]

end Order

/-! ## Values that cannot be keys -/

/-- The exception is a `CompositionError`. -/
def PyError.IsComposition (e : PyError) : Prop := ∃ text, e = .compositionError text

/-- Another exception than `CompositionError` leaves the computation. -/
def Escapes {α : Type} (x : Except PyError α) : Prop := Fails (fun e => ¬ e.IsComposition) x

theorem escapes_bind {α β : Type} {x : Except PyError α} {f : α → Except PyError β} :
    Escapes (x >>= f) ↔ Escapes x ∨ ∃ a, x = .ok a ∧ Escapes (f a) := fails_bind

/-- Nothing escapes where only `CompositionError` is raised. -/
theorem not_escapes {α : Type} {x : Except PyError α} (h : Raises PyError.IsComposition x) :
    ¬ Escapes x := by
  rintro ⟨e, he, hescapes⟩
  exact hescapes (h e he)

theorem escapes_bind_pure {α β : Type} {x : Except PyError α} {g : α → β} :
    Escapes (x >>= fun a => pure (g a)) ↔ Escapes x := fails_bind_pure

theorem escapes_typeError {α : Type} : Escapes (.error .typeError : Except PyError α) := by
  refine fails_error.mpr ?_
  rintro ⟨text, h⟩
  cases h

theorem escapes_attributeError {α : Type} :
    Escapes (.error .attributeError : Except PyError α) := by
  refine fails_error.mpr ?_
  rintro ⟨text, h⟩
  cases h

theorem isComposition (text : String) : (PyError.compositionError text).IsComposition := ⟨text, rfl⟩

section Keys

variable (context : TemplateContext)

/-- The key is a placeholder for a list or a mapping. -/
def KeySlips (key : DocKey) : Prop :=
  ∃ text value, key.text? = some text ∧ renderText context text = .ok value ∧ value.key? = none

mutual

/-- Rendering comes to such a key before anything else is wrong. -/
def TemplateSlips : Doc → Prop
  | .list items => ItemsSlip items
  | .dict entries => EntriesSlip entries []
  | .scalar _ => False
  | .expr _ => False

def ItemsSlip : List Doc → Prop
  | [] => False
  | item :: items =>
    TemplateSlips item ∨ (∃ value, renderTemplate context item = .ok value) ∧ ItemsSlip items

def EntriesSlip : List (DocKey × Doc) → DocEntries → Prop
  | [], _ => False
  | (key, item) :: entries, rendered =>
    KeySlips context key ∨ ∃ newKey, renderKey context key = .ok newKey ∧
      (∀ p ∈ rendered, newKey.pyEq p.1 = false) ∧
      (TemplateSlips item ∨ ∃ value, renderTemplate context item = .ok value ∧
        EntriesSlip entries (rendered ++ [(newKey, value)]))

end

variable {context}

theorem raises_resolveParts {path : String} {parts traversed : List String} {d : Doc} :
    Raises PyError.IsComposition (resolveParts path parts traversed d) := by
  induction parts generalizing traversed d with
  | nil =>
      rw [resolveParts]
      exact raises_ok d
  | cons part parts ih =>
      unfold resolveParts
      split
      · rename_i h
        cases h
      · rename_i h
        cases h
        split
        · exact ih
        · exact raises_error (isComposition _)
      · exact raises_error (isComposition _)

theorem raises_resolveContextPath {path : String} :
    Raises PyError.IsComposition (resolveContextPath context path) := by
  unfold resolveContextPath
  split
  · exact raises_error (isComposition _)
  · split
    · exact raises_resolveParts
    · exact raises_error (isComposition _)

theorem raises_renderText {text : String} :
    Raises PyError.IsComposition (renderText context text) := by
  unfold renderText
  split
  · exact raises_resolveContextPath
  · refine Raises.bind (Raises.mapM (fun segment _ => ?_)) (fun _ _ => raises_ok _)
    cases segment with
    | char c => exact raises_ok _
    | path p => exact raises_resolveContextPath.bind (fun _ _ => raises_ok _)

theorem escapes_renderKey {key : DocKey} : Escapes (renderKey context key) ↔ KeySlips context key := by
  unfold renderKey KeySlips
  cases key.text? with
  | none =>
      refine iff_of_false (not_escapes (raises_ok _)) ?_
      rintro ⟨text, value, h, -⟩
      cases h
  | some text =>
      simp only [escapes_bind, Option.some.injEq]
      constructor
      · rintro (h | ⟨value, hvalue, h⟩)
        · exact absurd h (not_escapes raises_renderText)
        · refine ⟨text, value, rfl, hvalue, ?_⟩
          cases hkey : value.key? with
          | none => rfl
          | some key =>
              rw [hkey] at h
              exact absurd h (not_escapes (raises_ok _))
      · rintro ⟨_, value, rfl, hvalue, hkey⟩
        refine Or.inr ⟨value, hvalue, ?_⟩
        rw [hkey]
        exact escapes_typeError

theorem escapes_fresh {rendered : DocEntries} {key : DocKey} :
    ¬ Escapes (Except.require (rendered.all (fun p => !key.pyEq p.1)) (duplicateKey key)) :=
  not_escapes (raises_require (isComposition _))

mutual

/-- Only such a key makes rendering raise something else. -/
theorem escapes_renderTemplate :
    ∀ d : Doc, Escapes (renderTemplate context d) ↔ TemplateSlips context d
  | .scalar v => by
      refine iff_of_false (not_escapes ?_) id
      cases v with
      | str text => exact raises_renderText
      | _ => exact raises_ok _
  | .expr e => iff_of_false (not_escapes (raises_ok _)) id
  | .list items => by
      rw [renderTemplate, escapes_bind_pure, escapes_renderItems items, TemplateSlips]
  | .dict entries => by
      rw [renderTemplate, escapes_bind_pure, escapes_renderEntries entries [], TemplateSlips]

theorem escapes_renderItems :
    ∀ items : List Doc, Escapes (renderItems context items) ↔ ItemsSlip context items
  | [] => iff_of_false (not_escapes (raises_ok _)) id
  | item :: items => by
      rw [renderItems, escapes_bind, escapes_renderTemplate item, ItemsSlip]
      simp only [escapes_bind_pure, escapes_renderItems items, exists_and_right]

theorem escapes_renderEntries : ∀ (entries : List (DocKey × Doc)) (rendered : DocEntries),
    Escapes (renderEntries context entries rendered) ↔ EntriesSlip context entries rendered
  | [], rendered => by
      rw [renderEntries, EntriesSlip]
      exact iff_of_false (not_escapes (raises_ok _)) id
  | (key, item) :: entries, rendered => by
      rw [renderEntries, escapes_bind, escapes_renderKey, EntriesSlip]
      refine or_congr_right (exists_congr (fun newKey => and_congr_right (fun _ => ?_)))
      rw [escapes_bind, or_iff_right escapes_fresh]
      simp only [require_eq_ok, escapes_bind, escapes_renderTemplate item,
        escapes_renderEntries entries, List.all_eq_true, Bool.not_eq_true', exists_const]

end

end Keys

/-! ## Roles that raise something else -/

theorem RoleEvent.raises_descend {event : RoleEvent} {path : String} {parts : List String}
    {d : Doc} : Raises PyError.IsComposition (event.descend path parts d) := by
  induction parts generalizing d with
  | nil =>
      rw [descend]
      exact raises_ok d
  | cons part parts ih =>
      unfold descend
      split
      · rename_i h
        cases h
      · rename_i h
        cases h
        split
        · exact ih
        · exact raises_error (isComposition _)
      · exact raises_error (isComposition _)

theorem RoleEvent.raises_resolvePath {event : RoleEvent} {path : String} :
    Raises PyError.IsComposition (event.resolvePath path) := by
  unfold resolvePath
  split
  · exact raises_error (isComposition _)
  · split
    · exact raises_descend
    · exact raises_descend

variable {events : List RoleEvent} {role : TraceRoleSpec} {expected : DocEntries}

namespace TraceRoleSpec

/-- The event matches the filter up to a key that is no text. -/
def MeetsNonText (event : RoleEvent) : DocEntries → Prop
  | [] => False
  | (key, expected) :: rest =>
    match key.text? with
    | none => True
    | some path => ∃ actual, event.resolvePath path = .ok actual ∧
        actual.pyEq expected = true ∧ MeetsNonText event rest

/-- The path names a list or a mapping of the event. -/
def NamesUnhashable (path : String) (event : RoleEvent) : Prop :=
  ∃ value, event.resolvePath path = .ok value ∧ value.key? = none

/-- The paths name values of the event, and one of them a list or a mapping. -/
def GroupUnhashable (groupBy : List String) (event : RoleEvent) : Prop :=
  ∃ values, groupBy.mapM event.resolvePath = .ok values ∧ ∃ value ∈ values, value.key? = none

/-- No `CompositionError` is raised. -/
def IsQuiet {α : Type} (x : Except PyError α) : Prop := Raises (fun e => ¬ e.IsComposition) x

section Slips

variable (role : TraceRoleSpec)

/-- A derived export has to look up a list or a mapping, before anything else is wrong. -/
def ColumnSlips (exportName : String) (matched : List RoleEvent) : DerivedExport → Prop
  | .constant _ => False
  | .switch path cases default => ∃ before event after, matched = before ++ event :: after ∧
      (∀ earlier ∈ before, IsQuiet (role.switchValue exportName path cases default earlier)) ∧
      NamesUnhashable path event
  | .queueIndex groupBy _ _ => ∃ before event after, matched = before ++ event :: after ∧
      (∀ earlier ∈ before, IsQuiet (groupOf groupBy earlier)) ∧ GroupUnhashable groupBy event

def DerivedSlips (matched : List RoleEvent) : Prop :=
  ∃ before p after, role.derived.entries = before ++ p :: after ∧
    (∀ q ∈ before, IsQuiet (role.column q.1 q.2 matched)) ∧ role.ColumnSlips p.1 matched p.2

/-- A list or a mapping stands where a key is asked for, or a path is no text. -/
inductive Slips (events : List RoleEvent) (context : TemplateContext) : Prop
  | key (h : EntriesSlip context role.whereEntries [])
  | path {expected : DocEntries} {event : RoleEvent}
      (hexpected : renderEntries context role.whereEntries [] = .ok expected)
      (hevent : event ∈ events) (haccepts : role.accepts event = true)
      (h : MeetsNonText event expected)
  | derived {expected : DocEntries} {sorted matched : List RoleEvent}
      (hexpected : renderEntries context role.whereEntries [] = .ok expected)
      (hsorted : role.sortedMatches events expected = .ok sorted)
      (hmatched : role.distinctMatches sorted = .ok matched)
      (hcount : role.countError? matched = none) (h : role.DerivedSlips matched)

end Slips

theorem escapes_meets {event : RoleEvent} :
    Escapes (meets event expected) ↔ MeetsNonText event expected := by
  induction expected with
  | nil => exact iff_of_false (not_escapes (raises_ok _)) id
  | cons entry rest ih =>
      rcases entry with ⟨key, expected⟩
      unfold meets MeetsNonText
      cases key.text? with
      | none => exact iff_of_true escapes_attributeError trivial
      | some path =>
          simp only
          cases event.resolvePath path with
          | error e =>
              refine iff_of_false (not_escapes (raises_ok _)) ?_
              rintro ⟨actual, hok, -⟩
              cases hok
          | ok actual =>
              simp only [Except.ok.injEq, exists_eq_left']
              split_ifs with heq
              · rw [ih, and_iff_right heq]
              · exact iff_of_false (not_escapes (raises_ok _)) (fun h => heq h.1)

theorem escapes_selectEvents : Escapes (role.selectEvents events expected) ↔
    ∃ event ∈ events, role.accepts event = true ∧ MeetsNonText event expected := by
  have hone : ∀ event, Escapes (do
      let matched ← meets event expected
      return (event, matched)) ↔ MeetsNonText event expected := by
    intro event
    rw [escapes_bind_pure, escapes_meets]
  unfold selectEvents
  rw [escapes_bind_pure]
  unfold Escapes
  rw [fails_mapM]
  constructor
  · rintro ⟨before, event, after, heq, -, h⟩
    have hmem : event ∈ events.filter role.accepts := by simp [heq]
    exact ⟨event, List.mem_of_mem_filter hmem, List.of_mem_filter hmem, (hone event).mp h⟩
  · rintro ⟨event, hmem, haccepts, h⟩
    have hmem' : event ∈ events.filter role.accepts := List.mem_filter.mpr ⟨hmem, haccepts⟩
    obtain ⟨before, after, heq⟩ := List.append_of_mem hmem'
    refine ⟨before, event, after, heq, fun earlier _ => ?_, (hone event).mpr h⟩
    -- a filter raises nothing but this
    refine raises_bind_pure.mpr (fun e he => ?_)
    rw [raises_meets e he]
    rintro ⟨text, h⟩
    cases h

theorem escapes_sortedMatches : Escapes (role.sortedMatches events expected) ↔
    ∃ event ∈ events, role.accepts event = true ∧ MeetsNonText event expected := by
  unfold sortedMatches
  rw [escapes_bind_pure, escapes_selectEvents]

theorem raises_distinctFrom {path : String} {seen : List DocKey} {matched : List RoleEvent} :
    Raises PyError.IsComposition (role.distinctFrom path seen matched) := by
  induction matched generalizing seen with
  | nil => exact raises_ok _
  | cons event rest ih =>
      refine RoleEvent.raises_resolvePath.bind (fun value _ => ?_)
      split
      · exact raises_error (isComposition _)
      · split_ifs
        · exact ih
        · exact ih.bind (fun _ _ => raises_ok _)

theorem raises_distinctMatches {matched : List RoleEvent} :
    Raises PyError.IsComposition (role.distinctMatches matched) := by
  unfold distinctMatches
  split
  · exact raises_ok _
  · exact raises_distinctFrom

theorem escapes_switchValue {exportName path : String}
    {cases : List (DocKey × Option SwitchChoice)} {default : Option SwitchChoice}
    {event : RoleEvent} :
    Escapes (role.switchValue exportName path cases default event) ↔ NamesUnhashable path event := by
  unfold switchValue NamesUnhashable
  rw [escapes_bind, or_iff_right (not_escapes RoleEvent.raises_resolvePath)]
  refine exists_congr (fun selector => and_congr_right (fun _ => ?_))
  cases selector.key? with
  | none => exact iff_of_true escapes_typeError rfl
  | some key =>
      refine iff_of_false (not_escapes ?_) nofun
      show Raises _ (match choiceOf cases default key with
        | none => .error (role.noCase exportName selector)
        | some (.path path) => event.resolvePath path
        | some (.value d) => .ok d)
      split
      · exact raises_error (isComposition _)
      · exact RoleEvent.raises_resolvePath
      · exact raises_ok _

theorem escapes_groupOf {groupBy : List String} {event : RoleEvent} :
    Escapes (groupOf groupBy event) ↔ GroupUnhashable groupBy event := by
  unfold groupOf GroupUnhashable
  rw [escapes_bind, or_iff_right (not_escapes (Raises.mapM (fun path _ =>
    RoleEvent.raises_resolvePath)))]
  refine exists_congr (fun values => and_congr_right (fun _ => ?_))
  have hone : ∀ value : Doc, Fails (fun e => ¬ e.IsComposition) (match value.key? with
      | some key => .ok key
      | none => .error PyError.typeError) ↔ value.key? = none := by
    intro value
    cases value.key? with
    | none => exact iff_of_true escapes_typeError rfl
    | some key => exact iff_of_false (not_fails_ok key) nofun
  unfold Escapes
  rw [fails_mapM]
  constructor
  · rintro ⟨before, value, after, rfl, -, h⟩
    exact ⟨value, by simp, (hone value).mp h⟩
  · rintro ⟨value, hmem, h⟩
    obtain ⟨before, after, heq⟩ := List.append_of_mem hmem
    refine ⟨before, value, after, heq, fun earlier _ => ?_, (hone value).mpr h⟩
    split
    · exact raises_ok _
    · refine raises_error ?_
      rintro ⟨text, h⟩
      cases h

theorem escapes_column {exportName : String} {spec : DerivedExport} {matched : List RoleEvent} :
    Escapes (role.column exportName spec matched) ↔ role.ColumnSlips exportName matched spec := by
  cases spec with
  | constant value => exact iff_of_false (not_escapes (raises_ok _)) id
  | switch path cases default =>
      unfold column ColumnSlips Escapes
      simp only [fails_mapM]
      refine exists_congr (fun before => exists_congr (fun event => exists_congr (fun after => ?_)))
      exact and_congr_right (fun _ => and_congr_right (fun _ => escapes_switchValue))
  | queueIndex groupBy start capacity =>
      unfold column ColumnSlips
      rw [escapes_bind_pure]
      unfold Escapes
      rw [fails_mapM]
      refine exists_congr (fun before => exists_congr (fun event => exists_congr (fun after => ?_)))
      exact and_congr_right (fun _ => and_congr_right (fun _ => escapes_groupOf))

theorem escapes_deriveRoleExports {matched : List RoleEvent} :
    Escapes (role.deriveRoleExports matched) ↔ role.DerivedSlips matched := by
  unfold deriveRoleExports DerivedSlips
  rw [escapes_bind_pure]
  unfold Escapes
  rw [fails_mapM]
  refine exists_congr (fun before => exists_congr (fun p => exists_congr (fun after => ?_)))
  refine and_congr_right (fun _ => and_congr ?_ ?_)
  · exact forall₂_congr (fun q _ => raises_bind_pure)
  · exact fails_bind_pure.trans escapes_column

theorem raises_exportRoleEvent {event : RoleEvent} {derived : DocEntries} :
    Raises PyError.IsComposition (role.exportRoleEvent event derived) := by
  unfold exportRoleEvent
  refine raises_bind_pure.mpr (Raises.foldlM (fun exported p _ => ?_))
  refine RoleEvent.raises_resolvePath.bind (fun value _ => ?_)
  split
  · exact raises_error (isComposition _)
  · exact raises_ok _

theorem raises_collect {exported : List DocEntries} :
    Raises PyError.IsComposition (role.collect exported) := by
  have hcopy : ∀ item index, Raises PyError.IsComposition (role.copyOf item index) := by
    intro item index
    refine Raises.bind (Raises.foldlM (fun copied p _ => ?_)) (fun _ _ => raises_ok _)
    exact raises_bind_pure.mpr raises_renderText
  unfold collect
  split
  · exact raises_ok _
  · exact raises_bind_pure.mpr (Raises.mapM (fun item _ => Raises.mapM (fun index _ =>
      hcopy item index)))

theorem isComposition_countError {matched : List RoleEvent} {e : PyError}
    (h : role.countError? matched = some e) : e.IsComposition := by
  unfold countError? at h
  split at h
  · split_ifs at h
    cases h
    exact isComposition _
  · split_ifs at h
    cases h
    exact isComposition _

theorem escapes_resolve {context : TemplateContext} :
    Escapes (role.resolve events context) ↔ role.Slips events context := by
  have hlast : ∀ matched, Escapes (match role.countError? matched with
      | some e => .error e
      | none => do
        let derived ← role.deriveRoleExports matched
        let exported ← (matched.zip derived).mapM (fun p => role.exportRoleEvent p.1 p.2)
        role.collect exported) ↔ role.countError? matched = none ∧ role.DerivedSlips matched := by
    intro matched
    cases hcount : role.countError? matched with
    | some e =>
        exact iff_of_false (not_escapes (raises_error (isComposition_countError hcount))) nofun
    | none =>
        have hafter : ∀ derived, ¬ Escapes (do
            let exported ← (matched.zip derived).mapM (fun p => role.exportRoleEvent p.1 p.2)
            role.collect exported) := by
          intro derived
          refine not_escapes (Raises.bind (Raises.mapM (fun p _ => raises_exportRoleEvent)) ?_)
          exact fun _ _ => raises_collect
        simp only [escapes_bind, escapes_deriveRoleExports, true_and]
        refine or_iff_left ?_
        rintro ⟨derived, -, h⟩
        exact hafter derived (escapes_bind.mpr h)
  unfold resolve
  constructor
  · intro h
    rcases escapes_bind.mp h with h | ⟨expected, hexpected, h⟩
    · exact .key (escapes_renderEntries _ _ |>.mp h)
    · rcases escapes_bind.mp h with h | ⟨sorted, hsorted, h⟩
      · obtain ⟨event, hevent, haccepts, hmeets⟩ := escapes_sortedMatches.mp h
        exact .path hexpected hevent haccepts hmeets
      · rcases escapes_bind.mp h with h | ⟨matched, hmatched, h⟩
        · exact absurd h (not_escapes raises_distinctMatches)
        · obtain ⟨hcount, hderived⟩ := (hlast matched).mp h
          exact .derived hexpected hsorted hmatched hcount hderived
  · intro h
    cases h with
    | key h => exact escapes_bind.mpr (Or.inl ((escapes_renderEntries _ _).mpr h))
    | path hexpected hevent haccepts h =>
        have hsorted := escapes_sortedMatches.mpr ⟨_, hevent, haccepts, h⟩
        exact escapes_bind.mpr (Or.inr ⟨_, hexpected, escapes_bind.mpr (Or.inl hsorted)⟩)
    | derived hexpected hsorted hmatched hcount h =>
        have hderived := (hlast _).mpr ⟨hcount, h⟩
        exact escapes_bind.mpr (Or.inr ⟨_, hexpected, escapes_bind.mpr (Or.inr ⟨_, hsorted,
          escapes_bind.mpr (Or.inr ⟨_, hmatched, hderived⟩)⟩)⟩)

end TraceRoleSpec

theorem escapes_resolveRole {events : List RoleEvent} {context : TemplateContext}
    {role : TraceRoleSpec} : Escapes (resolveRole events context role) ↔
      role.name ∉ context.keys ∧ role.Slips events context := by
  have hrequire : ¬ Escapes (Except.require (role.name ∉ context.keys) (.compositionError
      s!"duplicate trace role {quoted role.name}")) := not_escapes (raises_require (isComposition _))
  unfold resolveRole
  rw [escapes_bind, or_iff_right hrequire]
  simp only [require_eq_ok, escapes_bind_pure, TraceRoleSpec.escapes_resolve, exists_const]

/-- Another exception leaves the loop over the roles at the first role that slips. -/
theorem escapes_resolveTraceRoles {trace : RoleTrace} {roles : List TraceRoleSpec}
    {initial : TemplateContext} : Escapes (resolveTraceRoles trace roles initial) ↔
      ∃ before role after context, roles = before ++ role :: after ∧
        resolveTraceRoles trace before initial = .ok context ∧
        role.name ∉ context.keys ∧ role.Slips trace.events context := by
  unfold resolveTraceRoles Escapes
  rw [fails_foldlM]
  refine exists_congr (fun before => exists_congr (fun role => exists_congr (fun after =>
    exists_congr (fun context => ?_))))
  exact and_congr_right (fun _ => and_congr_right (fun _ => escapes_resolveRole))

/-! ## Every order gives the same context -/

/-- The same context for every order of the events, or `CompositionError` for every order. -/
def OrderFree (trace : RoleTrace) (roles : List TraceRoleSpec) (initial : TemplateContext) : Prop :=
  (∃ context, ∀ trace' : RoleTrace, trace.events.Perm trace'.events →
    resolveTraceRoles trace' roles initial = .ok context) ∨
  ∀ trace' : RoleTrace, trace.events.Perm trace'.events →
    ∃ text, resolveTraceRoles trace' roles initial = .error (.compositionError text)

/-- The order of the trace does not matter, unless a role slips that is reached. -/
theorem orderFree_iff (trace : RoleTrace) (roles : List TraceRoleSpec)
    (initial : TemplateContext) : OrderFree trace roles initial ↔
      ∀ before role after context, roles = before ++ role :: after →
        resolveTraceRoles trace before initial = .ok context → role.name ∉ context.keys →
          ¬ role.Slips trace.events context := by
  have hslips : (∀ before role after context, roles = before ++ role :: after →
      resolveTraceRoles trace before initial = .ok context → role.name ∉ context.keys →
        ¬ role.Slips trace.events context) ↔ ¬ Escapes (resolveTraceRoles trace roles initial) := by
    rw [escapes_resolveTraceRoles]
    push Not
    rfl
  rw [hslips]
  constructor
  · rintro (⟨context, hall⟩ | hall)
    · rw [hall trace (.refl _)]
      exact not_escapes (raises_ok _)
    · obtain ⟨text, h⟩ := hall trace (.refl _)
      rw [h]
      exact not_escapes (raises_error (isComposition text))
  · intro h
    cases hresult : resolveTraceRoles trace roles initial with
    | ok context =>
        refine Or.inl ⟨context, fun trace' hperm => ?_⟩
        rw [resolveTraceRoles_perm hperm, hresult]
    | error e =>
        refine Or.inr (fun trace' hperm => ?_)
        rw [hresult] at h
        have hcomposition : e.IsComposition := by
          by_contra hne
          exact h (fails_error.mpr hne)
        obtain ⟨text, rfl⟩ := hcomposition
        exact ⟨text, by rw [resolveTraceRoles_perm hperm, hresult]⟩

/-! ## A queue that is indexed by a mapping -/

section Queue

/-- One load; its fields name an address. -/
def oneLoad : RoleEvent where
  id := "a"
  eventType := "Load"
  fields := [(.text "address", .scalar (.int 0))]
  cycle := .concrete 0
  occurs := .known true
  annotations := []

def oneLoadTrace : RoleTrace where
  events := [oneLoad]
  nodup := List.nodup_singleton _

theorem load_ne : "load" ≠ "" := by decide

theorem loadTypes_ne : (RoleType.one "Load").names ≠ [] ∧ "" ∉ (RoleType.one "Load").names := by
  decide

theorem index_fits : ∀ p ∈ [("index", DerivedExport.queueIndex ["fields"] 0 4)],
    p.1 ∉ ([] : List String) ∧ p.1 ≠ "" ∧ p.2.Fits := by
  intro p hp
  rw [List.mem_singleton.mp hp]
  exact ⟨List.not_mem_nil, by decide, by decide, by decide⟩

/-- The loads are numbered by all their fields. -/
def fieldsRole : TraceRoleSpec where
  name := "load"
  eventType := .one "Load"
  whereEntries := []
  exports := ⟨[], List.nodup_nil⟩
  derived := ⟨[("index", .queueIndex ["fields"] 0 4)], List.nodup_singleton _⟩
  eventId := none
  occurringOnly := true
  cardinality := .many
  minMatches := 1
  copies := 1
  copyExports := ⟨[], List.nodup_nil⟩
  distinctBy := none
  name_ne := load_ne
  types_ne := loadTypes_ne
  copies_pos := Nat.one_pos
  one_copy := fun _ => rfl
  copyExports_empty := fun _ => rfl
  copyExports_known := List.forall_mem_nil _
  derived_apart := index_fits
  exports_ne := List.forall_mem_nil _

theorem resolveTraceRoles_fieldsRole :
    resolveTraceRoles oneLoadTrace [fieldsRole] Dict.empty = .error .typeError := by
  rfl

/-- It is a `TypeError`, not a `CompositionError`, that every order raises. -/
theorem fieldsRole_not_orderFree : ¬ OrderFree oneLoadTrace [fieldsRole] Dict.empty := by
  rintro (⟨context, hall⟩ | hall)
  · have h := hall oneLoadTrace (.refl _)
    rw [resolveTraceRoles_fieldsRole] at h
    cases h
  · obtain ⟨text, h⟩ := hall oneLoadTrace (.refl _)
    rw [resolveTraceRoles_fieldsRole] at h
    cases h

end Queue

end Umcm
