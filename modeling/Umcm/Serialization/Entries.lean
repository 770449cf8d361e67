import Umcm.Composition.Document
import Umcm.Graph.Builder

/-!
# Entries of stored records

A record is stored as a mapping from field names. Fields that are absent or empty are
often left out, and a field that is missing has a default.
-/

namespace Umcm

open Except

namespace DocEntries

/-! ## Optional entries -/

/-- The entry, if there is something to store. -/
def optional (name : String) (d : Option Doc) : DocEntries :=
  match d with
  | none => []
  | some d => [(.text name, d)]

theorem get?_cons_text {name name' : String} {d : Doc} {entries : DocEntries} :
    get? ((.text name', d) :: entries) name = if name' = name then some d else get? entries name := by
  rw [get?_cons]
  simp only [hasName_text]

theorem get?_optional {name name' : String} {d : Option Doc} :
    get? (optional name' d) name = if name' = name then d else none := by
  unfold optional
  cases d with
  | none => simp [get?_nil]
  | some d => rw [get?_cons_text, get?_nil]

end DocEntries

namespace Stored

/-- The document is `None`. -/
def isNone : Doc → Bool
  | .scalar .none => true
  | _ => false

theorem isNone_iff {d : Doc} : isNone d = true ↔ d = .scalar .none := by
  unfold isNone
  split <;> simp_all

/-- `int(d)`. -/
def intOf : Doc → Except PyError Int
  | .scalar v => pyInt v
  | _ => .error .typeError

/-- A text that is stored if it is not empty. -/
def textEntry (name text : String) : DocEntries :=
  DocEntries.optional name (if text = "" then none else some (.scalar (.str text)))

def intEntry (name : String) (n : Option Int) : DocEntries :=
  DocEntries.optional name (n.map (fun n => .scalar (.int n)))

/-- `str(data.get(name, ""))`. -/
def textOf (entries : DocEntries) (name : String) : String :=
  (entries.get? name).elim "" Doc.pyStr

/-! ## Reading a mapping -/

/-- `data[name]` in a `try` that names the record. -/
def requiredOf (entries : DocEntries) (label name : String) : Except PyError Doc :=
  match entries.get? name with
  | some d => .ok d
  | none => .error (.serializationError s!"{label} is missing {quoted name}")

/-- `data.get(name, [])`, which must be a list. -/
def listOf (entries : DocEntries) (name message : String) : Except PyError (List Doc) :=
  match entries.get? name with
  | none => .ok []
  | some (.list items) => .ok items
  | some _ => .error (.serializationError message)

/-- `data.get(name, {})`, which must be a mapping. -/
def mappingOf (entries : DocEntries) (name message : String) : Except PyError DocEntries :=
  match entries.get? name with
  | none => .ok []
  | some (.dict found) => .ok found
  | some _ => .error (.serializationError message)

/-- `str(data.get(name, default))`. -/
def textOr (entries : DocEntries) (name default : String) : String :=
  (entries.get? name).elim default Doc.pyStr

/-- `bool(data.get(name, default))`. -/
def flagOr (entries : DocEntries) (name : String) (default : Bool) : Bool :=
  (entries.get? name).elim default Doc.truthy

/-- `int(data.get(name, default))`. -/
def intOr (entries : DocEntries) (name : String) (default : Int) : Except PyError Int :=
  match entries.get? name with
  | some d => intOf d
  | none => .ok default

/-- `list(texts)`. -/
def textList (texts : List String) : Doc := .list (texts.map (fun text => .scalar (.str text)))

section Reading

variable {entries : DocEntries} {name : String}

/-- What a stored text is read as. -/
theorem textOf_of_get? {text : String}
    (h : entries.get? name = if text = "" then none else some (.scalar (.str text))) :
    textOf entries name = text := by
  unfold textOf
  rw [h]
  split_ifs with hempty
  · exact hempty.symm
  · rfl

end Reading

/-- Stored values are read back exactly when each of them is. -/
theorem mapM_map_iff {α : Type} {load : Doc → Except PyError α} {store : α → Doc} {l : List α} :
    (l.map store).mapM load = .ok l ↔ ∀ a ∈ l, load (store a) = .ok a := by
  rw [mapM_eq_ok, List.forall₂_map_left_iff, List.forall₂_same]

theorem textList_map (texts : List String) :
    (texts.map (fun text => Doc.scalar (.str text))).map Doc.pyStr = texts := by
  rw [List.map_map]
  exact List.map_id texts

/-! ## Dictionaries -/

theorem mem_entries_ofList {ν : Type} {pairs : List (String × ν)} {p : String × ν}
    (h : p ∈ (Dict.ofList pairs).entries) : p ∈ pairs := by
  have hgen : ∀ (pairs : List (String × ν)) (d : Dict String ν),
      p ∈ (pairs.foldl (fun d p => d.insert p.1 p.2) d).entries → p ∈ pairs ∨ p ∈ d.entries := by
    intro pairs
    induction pairs with
    | nil => exact fun d h => .inr h
    | cons q rest ih =>
        intro d h
        rcases ih _ h with hrest | hinsert
        · exact .inl (List.mem_cons_of_mem _ hrest)
        · rcases Dict.mem_entries_insert hinsert with rfl | hd
          · exact .inl List.mem_cons_self
          · exact .inr hd
  rcases hgen pairs .empty h with hmem | hempty
  · exact hmem
  · cases hempty

theorem mem_keys_ofList {ν : Type} {pairs : List (String × ν)} {p : String × ν} (h : p ∈ pairs) :
    p.1 ∈ (Dict.ofList pairs).keys := by
  have hgen : ∀ (pairs : List (String × ν)) (d : Dict String ν), p ∈ pairs ∨ p.1 ∈ d.keys →
      p.1 ∈ (pairs.foldl (fun d p => d.insert p.1 p.2) d).keys := by
    intro pairs
    induction pairs with
    | nil => exact fun d h => h.resolve_left List.not_mem_nil
    | cons q rest ih =>
        rintro d (hmem | hkey)
        · rcases List.mem_cons.mp hmem with rfl | hrest
          · exact ih _ (.inr (Dict.keys_insert.mpr (.inl rfl)))
          · exact ih _ (.inl hrest)
        · exact ih _ (.inr (Dict.keys_insert.mpr (.inr hkey)))
  exact hgen pairs .empty (.inl h)

section Dictionaries

variable {ν : Type} {key : ν → String} {d : Dict String ν}

/-- The values of a dictionary whose values name their keys, in the order of the keys. -/
theorem map_key_values (hkey : ∀ p ∈ d.entries, p.1 = key p.2) {ids : List String}
    (hids : ∀ id ∈ ids, id ∈ d.keys) : (ids.filterMap d.get?).map key = ids := by
  induction ids with
  | nil => rfl
  | cons id ids ih =>
      obtain ⟨v, hv⟩ := Option.isSome_iff_exists.mp
        (Dict.get?_isSome_iff.mpr (hids id List.mem_cons_self))
      have hname : id = key v := hkey (id, v) (Dict.get?_eq_some_iff.mp hv)
      rw [List.filterMap_cons_some hv, List.map_cons, ← hname,
        ih (fun id hid => hids id (List.mem_cons_of_mem _ hid))]

/-- A dictionary that is rebuilt from its sorted values has the same entries. -/
theorem get?_rebuilt (hkey : ∀ p ∈ d.entries, p.1 = key p.2) (k : String) :
    (Dict.ofList (((sortedList d.keys.toFinset).filterMap d.get?).map
      (fun v => (key v, v)))).get? k = d.get? k := by
  set values := (sortedList d.keys.toFinset).filterMap d.get? with hvalues
  have hids : ∀ id ∈ sortedList d.keys.toFinset, id ∈ d.keys := by simp
  have hfst : (values.map (fun v => (key v, v))).map Prod.fst = sortedList d.keys.toFinset := by
    rw [List.map_map]
    exact map_key_values hkey hids
  have hnodup : ((values.map (fun v => (key v, v))).map Prod.fst).Nodup := by
    rw [hfst]
    exact nodup_sortedList _
  cases hget : d.get? k with
  | none =>
      rw [Dict.get?_eq_none_iff] at hget ⊢
      unfold Dict.keys
      rw [Dict.entries_ofList hnodup, hfst]
      simpa using hget
  | some v =>
      have hmem : (k, v) ∈ d.entries := Dict.get?_eq_some_iff.mp hget
      rw [Dict.get?_eq_some_iff, Dict.entries_ofList hnodup]
      have hname : k = key v := hkey (k, v) hmem
      refine List.mem_map.mpr ⟨v, ?_, by rw [← hname]⟩
      refine List.mem_filterMap.mpr ⟨k, ?_, hget⟩
      rw [mem_sortedList, List.mem_toFinset, ← Dict.get?_isSome_iff, hget]
      rfl

/-- Stored values are read back if each of them is. -/
theorem mapM_stored {store : ν → Doc} {load : Doc → Except PyError ν}
    (hload : ∀ p ∈ d.entries, load (store p.2) = .ok p.2) (ids : List String) :
    (ids.filterMap (fun id => (d.get? id).map store)).mapM load = .ok (ids.filterMap d.get?) := by
  have hmap : ids.filterMap (fun id => (d.get? id).map store) =
      (ids.filterMap d.get?).map store := by rw [List.map_filterMap]
  rw [hmap, mapM_eq_ok, List.forall₂_map_left_iff, List.forall₂_same]
  intro v hv
  obtain ⟨id, -, hget⟩ := List.mem_filterMap.mp hv
  exact hload (id, v) (Dict.get?_eq_some_iff.mp hget)

end Dictionaries

end Stored

end Umcm
