import Umcm.Ir.Event

/-!
# Documents

Values of template files and of the contexts that templates are rendered in:
scalars, expressions, lists and mappings. The keys of a mapping are hashable,
which lists and mappings are not.
-/

namespace Umcm

/-! ## Expressions as values -/

/-- `expr.op`. -/
def UnaryOp.text : UnaryOp → String
  | not => "not"
  | neg => "neg"

/-- `expr.op`. -/
def BinaryOp.text : BinaryOp → String
  | and => "and"
  | or => "or"
  | implies => "implies"
  | xor => "xor"
  | eq => "eq"
  | ne => "ne"
  | lt => "lt"
  | le => "le"
  | gt => "gt"
  | ge => "ge"
  | add => "add"
  | sub => "sub"
  | mul => "mul"
  | div => "div"
  | mod => "mod"

/-- `expr.op`. -/
def NaryOp.text : NaryOp → String
  | and => "and"
  | or => "or"
  | distinct => "distinct"

namespace Expr

mutual

/-- `a == b`: the nodes are equal, and so are the values of literals. -/
def pyEq : Expr → Expr → Bool
  | literal v s, literal v' s' => v.pyEq v' && s = s'
  | symbol name s, symbol name' s' => name = name' && s = s'
  | eventField id field s, eventField id' field' s' => id = id' && field = field' && s = s'
  | unary op e, unary op' e' => op = op' && e.pyEq e'
  | binary op l r, binary op' l' r' => op = op' && l.pyEq l' && r.pyEq r'
  | nary op es, nary op' es' => op = op' && pyEqAll es es'
  | ite c t e, ite c' t' e' => c.pyEq c' && t.pyEq t' && e.pyEq e'
  | call f es s, call f' es' s' => f = f' && pyEqAll es es' && s = s'
  | _, _ => false

def pyEqAll : List Expr → List Expr → Bool
  | [], [] => true
  | e :: es, e' :: es' => e.pyEq e' && pyEqAll es es'
  | _, _ => false

end

/-- The representation of a tuple with these entries. -/
def tupleRepr : List String → String
  | [text] => s!"({text},)"
  | texts => "(" ++ ", ".intercalate texts ++ ")"

mutual

/-- `repr(e)`, the representation of the record. -/
def repr : Expr → String
  | literal v s => s!"Literal(value={v.repr}, literal_sort={s.pyStr})"
  | symbol name s => s!"Symbol(name={quoted name}, symbol_sort={s.pyStr})"
  | eventField id field s =>
    s!"EventField(event_id={quoted id}, field={quoted field}, field_sort={s.pyStr})"
  | unary op e => s!"Unary(op={quoted op.text}, operand={e.repr})"
  | binary op l r => s!"Binary(op={quoted op.text}, left={l.repr}, right={r.repr})"
  | nary op es => s!"Nary(op={quoted op.text}, operands={tupleRepr (reprAll es)})"
  | ite c t e => s!"Ite(condition={c.repr}, then_expr={t.repr}, else_expr={e.repr})"
  | call f es s =>
    s!"Call(function={quoted f}, arguments={tupleRepr (reprAll es)}, return_sort={s.pyStr})"

def reprAll : List Expr → List String
  | [] => []
  | e :: es => e.repr :: reprAll es

end

/-- `type(e).__name__`. -/
def typeName : Expr → String
  | literal _ _ => "Literal"
  | symbol _ _ => "Symbol"
  | eventField _ _ _ => "EventField"
  | unary _ _ => "Unary"
  | binary _ _ _ => "Binary"
  | nary _ _ => "Nary"
  | ite _ _ _ => "Ite"
  | call _ _ _ => "Call"

end Expr

/-! ## Documents -/

/-- A hashable value. -/
inductive DocKey where
  | scalar (v : Value)
  | expr (e : Expr)

inductive Doc where
  | scalar (v : Value)
  | expr (e : Expr)
  | list (items : List Doc)
  | dict (entries : List (DocKey × Doc))

namespace DocKey

/-- The key with this text. -/
def text (name : String) : DocKey := .scalar (.str name)

/-- `a == b`. -/
def pyEq : DocKey → DocKey → Bool
  | scalar v, scalar v' => v.pyEq v'
  | expr e, expr e' => e.pyEq e'
  | _, _ => false

def repr : DocKey → String
  | scalar v => v.repr
  | expr e => e.repr

/-- `str(key)`. -/
def pyStr : DocKey → String
  | scalar v => v.pyStr
  | expr e => e.repr

/-- `isinstance(key, str)`, with the text. -/
def text? : DocKey → Option String
  | scalar (.str s) => some s
  | _ => none

end DocKey

namespace Doc

/-- The value as a key, if it is hashable. -/
def key? : Doc → Option DocKey
  | scalar v => some (.scalar v)
  | expr e => some (.expr e)
  | list _ | dict _ => none

mutual

/-- `a == b`; the order of the entries of a mapping does not matter. -/
def pyEq : Doc → Doc → Bool
  | scalar v, scalar v' => v.pyEq v'
  | expr e, expr e' => e.pyEq e'
  | list items, list items' => pyEqAll items items'
  | dict entries, dict entries' =>
    entries.length = entries'.length && pyEqEntries entries entries'
  | _, _ => false

def pyEqAll : List Doc → List Doc → Bool
  | [], [] => true
  | d :: ds, d' :: ds' => d.pyEq d' && pyEqAll ds ds'
  | _, _ => false

/-- The other mapping has every entry. -/
def pyEqEntries : List (DocKey × Doc) → List (DocKey × Doc) → Bool
  | [], _ => true
  | (k, d) :: rest, entries =>
    (match entries.find? (fun p => k.pyEq p.1) with
      | some p => d.pyEq p.2
      | none => false) && pyEqEntries rest entries

end

mutual

/-- `repr(d)`. -/
def repr : Doc → String
  | scalar v => v.repr
  | expr e => e.repr
  | list items => "[" ++ ", ".intercalate (reprAll items) ++ "]"
  | dict entries => "\x7b" ++ ", ".intercalate (reprEntries entries) ++ "\x7d"

def reprAll : List Doc → List String
  | [] => []
  | d :: ds => d.repr :: reprAll ds

def reprEntries : List (DocKey × Doc) → List String
  | [] => []
  | (k, d) :: rest => s!"{k.repr}: {d.repr}" :: reprEntries rest

end

/-- `str(d)`. -/
def pyStr : Doc → String
  | scalar v => v.pyStr
  | d => d.repr

/-- `bool(d)`. -/
def truthy : Doc → Bool
  | scalar v => v.truthy
  | expr _ => true
  | list items => items ≠ []
  | dict entries => entries ≠ []

end Doc

/-! ## Mappings -/

/-- The entries of a mapping. -/
abbrev DocEntries := List (DocKey × Doc)

namespace DocEntries

/-- The key is this text. -/
def hasName (name : String) (entry : DocKey × Doc) : Bool := entry.1.text? = some name

/-- `mapping.get(name)`. -/
def get? (entries : DocEntries) (name : String) : Option Doc :=
  (entries.find? (hasName name)).map Prod.snd

/-- `mapping[name] = value`. -/
def set (entries : DocEntries) (name : String) (value : Doc) : DocEntries :=
  if (entries.find? (hasName name)).isSome then
    entries.map (fun entry => if hasName name entry then (entry.1, value) else entry)
  else entries ++ [(.text name, value)]

/-- `mapping.pop(name, None)`, the mapping without the key. -/
def remove (entries : DocEntries) (name : String) : DocEntries :=
  entries.filter (fun entry => !hasName name entry)

@[simp] theorem hasName_text {name name' : String} {d : Doc} :
    hasName name (.text name', d) = true ↔ name' = name := by
  simp [hasName, DocKey.text, DocKey.text?]

theorem get?_nil (name : String) : get? [] name = none := rfl

theorem get?_cons {entry : DocKey × Doc} {entries : DocEntries} {name : String} :
    get? (entry :: entries) name = if hasName name entry then some entry.2 else get? entries name := by
  unfold get?
  rw [List.find?_cons]
  cases hasName name entry <;> rfl

theorem hasName_congr {name name' : String} {entry : DocKey × Doc} (h : hasName name entry = true) :
    hasName name' entry = true ↔ name' = name := by
  simp only [hasName, decide_eq_true_eq] at h ⊢
  rw [h, Option.some.injEq, eq_comm]

theorem get?_append {entries entries' : DocEntries} {name : String} :
    get? (entries ++ entries') name = (get? entries name).or (get? entries' name) := by
  induction entries with
  | nil => rfl
  | cons entry entries ih =>
      rw [List.cons_append, get?_cons, get?_cons, ih]
      cases hasName name entry <;> rfl

theorem get?_eq_none_iff {entries : DocEntries} {name : String} :
    get? entries name = none ↔ ∀ entry ∈ entries, hasName name entry = false := by
  simp [get?]

theorem get?_map_set {entries : DocEntries} {name name' : String} {value : Doc} :
    get? (entries.map (fun entry => if hasName name entry then (entry.1, value) else entry)) name' =
      if name' = name then (get? entries name).map (fun _ => value) else get? entries name' := by
  induction entries with
  | nil => simp [get?_nil]
  | cons entry entries ih =>
      rw [List.map_cons, get?_cons, ih]
      by_cases hname : hasName name entry = true
      · have hpair : ∀ d, hasName name' (entry.1, d) = hasName name' entry := fun d => rfl
        rw [if_pos hname, hpair]
        by_cases heq : name' = name
        · subst heq
          simp [hname, get?_cons]
        · have hother : ¬ hasName name' entry = true := fun h => heq ((hasName_congr hname).mp h)
          simp [hother, heq, get?_cons]
      · by_cases heq : name' = name
        · subst heq
          simp [hname, get?_cons]
        · simp [hname, heq, get?_cons]

theorem get?_set {entries : DocEntries} {name name' : String} {value : Doc} :
    get? (set entries name value) name' = if name' = name then some value else get? entries name' := by
  unfold set
  by_cases hsome : (entries.find? (hasName name)).isSome = true
  · rw [if_pos hsome, get?_map_set]
    obtain ⟨p, hp⟩ := Option.isSome_iff_exists.mp hsome
    have hget : get? entries name = some p.2 := by simp [get?, hp]
    rw [hget]
    rfl
  · rw [if_neg hsome, get?_append]
    by_cases heq : name' = name
    · subst heq
      have hnone : get? entries name' = none := by
        simp only [get?, Option.map_eq_none_iff]
        simpa using hsome
      simp [hnone, get?_cons]
    · have hother : get? [(DocKey.text name, value)] name' = none := by
        rw [get?_cons, if_neg, get?_nil]
        rw [hasName_text]
        exact fun h => heq h.symm
      rw [hother, Option.or_none, if_neg heq]

theorem get?_remove {entries : DocEntries} {name name' : String} :
    get? (remove entries name) name' = if name' = name then none else get? entries name' := by
  induction entries with
  | nil => simp [remove, get?_nil]
  | cons entry entries ih =>
      unfold remove at ih ⊢
      by_cases hname : hasName name entry = true
      · rw [List.filter_cons_of_neg (by simp [hname]), ih, get?_cons]
        by_cases heq : name' = name
        · rw [if_pos heq, if_pos heq]
        · have hother : ¬ hasName name' entry = true := fun h => heq ((hasName_congr hname).mp h)
          rw [if_neg heq, if_neg heq, if_neg hother]
      · rw [List.filter_cons_of_pos (by simp [hname]), get?_cons, get?_cons, ih]
        by_cases heq : name' = name
        · subst heq
          simp [hname]
        · simp [heq]

end DocEntries

/-! ## Mappings without repeated keys -/

/-- No key is equal to one before it. -/
def DocEntries.DistinctKeys (entries : DocEntries) : Prop :=
  entries.Pairwise (fun p q => q.1.pyEq p.1 = false)

/-- No mapping in the document has a key twice. -/
inductive Doc.IsWellFormed : Doc → Prop where
  | scalar (v : Value) : IsWellFormed (.scalar v)
  | expr (e : Expr) : IsWellFormed (.expr e)
  | list (items : List Doc) (hitems : ∀ item ∈ items, IsWellFormed item) :
    IsWellFormed (.list items)
  | dict (entries : DocEntries) (hkeys : entries.DistinctKeys)
    (hvalues : ∀ entry ∈ entries, IsWellFormed entry.2) : IsWellFormed (.dict entries)

theorem DocKey.text_pyEq {name : String} {key : DocKey} :
    (DocKey.text name).pyEq key = true ↔ key.text? = some name := by
  unfold DocKey.text
  cases key with
  | expr e => simp [DocKey.pyEq, DocKey.text?]
  | scalar v =>
      cases v with
      | str s =>
          simp only [DocKey.pyEq, Value.pyEq_iff, Value.key, Key.str.injEq, DocKey.text?,
            Option.some.injEq]
          exact eq_comm
      | _ => simp [DocKey.pyEq, DocKey.text?, Value.key]

namespace DocEntries

variable {entries : DocEntries} {name : String} {value : Doc}

theorem mem_of_get? (h : get? entries name = some value) :
    ∃ entry ∈ entries, hasName name entry = true ∧ entry.2 = value := by
  unfold get? at h
  rcases Option.map_eq_some_iff.mp h with ⟨entry, hfind, hvalue⟩
  exact ⟨entry, List.mem_of_find?_eq_some hfind, List.find?_some hfind, hvalue⟩

theorem isWellFormed_of_get? (h : (Doc.dict entries).IsWellFormed)
    (hget : get? entries name = some value) : value.IsWellFormed := by
  rcases h with _ | _ | _ | ⟨_, -, hvalues⟩
  rcases mem_of_get? hget with ⟨entry, hmem, -, rfl⟩
  exact hvalues entry hmem

theorem isWellFormed_set (h : (Doc.dict entries).IsWellFormed) (hvalue : value.IsWellFormed) :
    (Doc.dict (set entries name value)).IsWellFormed := by
  rcases h with _ | _ | _ | ⟨_, hkeys, hvalues⟩
  unfold set
  split_ifs with hsome
  · refine .dict _ ?_ ?_
    · refine hkeys.map _ ?_
      intro p q hpq
      split_ifs <;> exact hpq
    · intro entry hmem
      rcases List.mem_map.mp hmem with ⟨origin, horigin, rfl⟩
      split_ifs
      · exact hvalue
      · exact hvalues origin horigin
  · have hfresh : ∀ entry ∈ entries, hasName name entry = false := by simpa using hsome
    refine .dict _ ?_ ?_
    · refine List.pairwise_append.mpr ⟨hkeys, List.pairwise_singleton _ _, ?_⟩
      intro p hp q hq
      rw [List.mem_singleton.mp hq]
      -- the name is not a key so far
      by_contra heq
      rw [Bool.not_eq_false, DocKey.text_pyEq] at heq
      have hmiss := hfresh p hp
      unfold hasName at hmiss
      simp [heq] at hmiss
    · intro entry hmem
      rcases List.mem_append.mp hmem with hmem | hmem
      · exact hvalues entry hmem
      · rw [List.mem_singleton.mp hmem]
        exact hvalue

theorem isWellFormed_remove (h : (Doc.dict entries).IsWellFormed) :
    (Doc.dict (remove entries name)).IsWellFormed := by
  rcases h with _ | _ | _ | ⟨_, hkeys, hvalues⟩
  exact .dict _ (List.Pairwise.filter _ hkeys)
    (fun entry hmem => hvalues entry (List.mem_of_mem_filter hmem))

theorem remove_of_get?_none (h : get? entries name = none) : remove entries name = entries := by
  unfold remove
  rw [List.filter_eq_self]
  intro entry hmem
  simp [get?_eq_none_iff.mp h entry hmem]

end DocEntries

end Umcm
