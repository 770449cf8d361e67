import Umcm.Ir.Constructor
import Umcm.Serialization.Entries

/-!
# Stored expressions

The codecs of sorts and of expressions.

* `exprFromDict_toDict`: a well-typed expression is read back as it was stored.
* `wellTyped_of_exprFromDict`: what is read is well typed.
-/

namespace Umcm

open Except

namespace Stored

/-! ## Sorts -/

/-- `sort.to_dict()`. -/
def sortToDict (s : IrSort) : Doc :=
  .dict ((.text "name", .scalar (.str s.name)) ::
    (DocEntries.optional "width" (s.width.map (fun w => .scalar (.int w))) ++
      DocEntries.optional "signed" (s.signed.map (fun b => .scalar (.bool b)))))

/-- A width is `None` or an integer, as the constructor is annotated; a text cannot be
compared to zero. -/
def widthOf : Doc → Except PyError (Option Int)
  | .scalar .none => .ok none
  | .scalar v =>
    match v.asInt? with
    | some n => .ok (some n)
    | none => .error .typeError
  | _ => .error .typeError

/-- `signed` is `None` or a truth value, as the constructor is annotated. -/
def signedOf : Doc → Except PyError (Option Bool)
  | .scalar .none => .ok none
  | .scalar (.bool b) => .ok (some b)
  | _ => .error .typeError

/-- The checks of `__post_init__` on the width and the sign. -/
def sizedSort (name : String) (name_ne : name.toList.any (fun c => !c.isWhitespace) = true)
    (width : Option Int) (signed : Option Bool) : Except PyError IrSort :=
  if hpositive : ∀ w ∈ width, 0 < w then
    if hno : (name = "bool" ∨ name = "string") ∧ width ≠ none then
      .error (.schemaError s!"sort {quoted name} cannot have a width")
    else if hbv : name = "bv" ∧ width = none then
      .error (.schemaError "bit-vector sort requires a width")
    else if hsigned : signed ≠ none ∧ ¬ (name = "int" ∨ name = "bv") then
      .error (.schemaError "signed is only meaningful for int/bv sorts")
    else
      .ok
        { name, width := width.map Int.toNat, signed, name_ne
          width_pos := by
            cases width with
            | none => simp
            | some w =>
                have hw := hpositive w rfl
                rw [Option.map_some, ne_eq, Option.some.injEq]
                omega
          no_width := fun h => by
            rw [Option.map_eq_none_iff]
            exact not_not.mp (fun hw => hno ⟨h, hw⟩)
          bv_width := fun h => by
            rw [ne_eq, Option.map_eq_none_iff]
            exact fun hw => hbv ⟨h, hw⟩
          signed_only := fun h => not_not.mp (fun hn => hsigned ⟨h, hn⟩) }
  else .error (.schemaError "sort width must be positive")

/-- `Sort(name, width, signed)`. -/
def makeSort (name : String) (width signed : Doc) : Except PyError IrSort :=
  if name_ne : name.toList.any (fun c => !c.isWhitespace) = true then do
    let width ← widthOf width
    let signed ← signedOf signed
    sizedSort name name_ne width signed
  else .error (.schemaError "sort name must be a non-empty string")

/-- `type(d).__name__`. -/
def docTypeName : Doc → String
  | .scalar v => v.typeName
  | .expr e => e.typeName
  | .list _ => "list"
  | .dict _ => "dict"

/-- `Sort.from_dict`. -/
def sortFromDict : Doc → Except PyError IrSort
  | .scalar (.str name) => makeSort name (.scalar .none) (.scalar .none)
  | .dict entries =>
    match DocEntries.get? entries "name" with
    | some name => makeSort name.pyStr ((DocEntries.get? entries "width").getD (.scalar .none))
        ((DocEntries.get? entries "signed").getD (.scalar .none))
    | none => .error (.schemaError "sort mapping is missing 'name'")
  | d => .error (.schemaError s!"sort must be a string or mapping, got {docTypeName d}")

theorem sort_ext {s t : IrSort} (hname : s.name = t.name) (hwidth : s.width = t.width)
    (hsigned : s.signed = t.signed) : s = t := by
  cases s
  cases t
  cases hname
  cases hwidth
  cases hsigned
  rfl

theorem sizedSort_self (s : IrSort) :
    sizedSort s.name s.name_ne (s.width.map Int.ofNat) s.signed = .ok s := by
  unfold sizedSort
  rw [dif_pos, dif_neg, dif_neg, dif_neg]
  · congr 1
    refine sort_ext rfl ?_ rfl
    show (s.width.map Int.ofNat).map Int.toNat = s.width
    cases s.width <;> rfl
  · rintro ⟨hsigned, hname⟩
    exact hname (s.signed_only hsigned)
  · rintro ⟨hname, hnone⟩
    exact s.bv_width hname (Option.map_eq_none_iff.mp hnone)
  · rintro ⟨hname, hsome⟩
    rw [s.no_width hname] at hsome
    exact hsome rfl
  · intro w hw
    rcases Option.map_eq_some_iff.mp hw with ⟨n, hn, rfl⟩
    have hpos : n ≠ 0 := by
      rintro rfl
      exact s.width_pos hn
    exact Int.natCast_pos.mpr (Nat.pos_of_ne_zero hpos)

theorem sortFromDict_toDict (s : IrSort) : sortFromDict (sortToDict s) = .ok s := by
  have hwidth : widthOf ((s.width.map (fun w => Doc.scalar (.int w))).getD (.scalar .none)) =
      .ok (s.width.map Int.ofNat) := by
    cases s.width <;> rfl
  have hsigned : signedOf ((s.signed.map (fun b => Doc.scalar (.bool b))).getD (.scalar .none)) =
      .ok s.signed := by
    cases s.signed <;> rfl
  unfold sortToDict sortFromDict
  simp only [DocEntries.get?_cons_text, DocEntries.get?_append, DocEntries.get?_optional,
    String.reduceEq, if_true, if_false, Option.or_none, Option.none_or, Doc.pyStr, Value.pyStr]
  unfold makeSort
  rw [dif_pos s.name_ne, hwidth, hsigned]
  exact sizedSort_self s

/-! ## Operators -/

/-- The operator with this name, if there is one. -/
def unaryOf? (text : String) : Option UnaryOp := [UnaryOp.not, .neg].find? (fun op => op.text = text)

def binaryOf? (text : String) : Option BinaryOp :=
  [BinaryOp.and, .or, .implies, .xor, .eq, .ne, .lt, .le, .gt, .ge, .add, .sub, .mul, .div,
    .mod].find? (fun op => op.text = text)

def naryOf? (text : String) : Option NaryOp :=
  [NaryOp.and, .or, .distinct].find? (fun op => op.text = text)

theorem unaryOf?_text (op : UnaryOp) : unaryOf? op.text = some op := by
  cases op <;> rfl

theorem binaryOf?_text (op : BinaryOp) : binaryOf? op.text = some op := by
  cases op <;> rfl

theorem naryOf?_text (op : NaryOp) : naryOf? op.text = some op := by
  cases op <;> rfl

/-! ## Expressions -/

mutual

/-- `expr_to_dict`. -/
def exprToDict : Expr → Doc
  | .literal v s => .dict [(.text "node", .scalar (.str "literal")), (.text "sort", sortToDict s),
      (.text "value", .scalar v)]
  | .symbol name s => .dict [(.text "node", .scalar (.str "symbol")),
      (.text "name", .scalar (.str name)), (.text "sort", sortToDict s)]
  | .eventField id field s => .dict [(.text "node", .scalar (.str "event_field")),
      (.text "event_id", .scalar (.str id)), (.text "field", .scalar (.str field)),
      (.text "sort", sortToDict s)]
  | .unary op e => .dict [(.text "node", .scalar (.str "unary")),
      (.text "op", .scalar (.str op.text)), (.text "operand", exprToDict e)]
  | .binary op l r => .dict [(.text "node", .scalar (.str "binary")),
      (.text "op", .scalar (.str op.text)), (.text "left", exprToDict l),
      (.text "right", exprToDict r)]
  | .nary op es => .dict [(.text "node", .scalar (.str "nary")),
      (.text "op", .scalar (.str op.text)), (.text "operands", .list (exprsToDict es))]
  | .ite c t e => .dict [(.text "node", .scalar (.str "ite")), (.text "condition", exprToDict c),
      (.text "then", exprToDict t), (.text "else", exprToDict e)]
  | .call function es s => .dict [(.text "node", .scalar (.str "call")),
      (.text "function", .scalar (.str function)), (.text "arguments", .list (exprsToDict es)),
      (.text "sort", sortToDict s)]

def exprsToDict : List Expr → List Doc
  | [] => []
  | e :: es => exprToDict e :: exprsToDict es

end

/-- What a document is decoded to where an expression is expected, and where a sequence of
expressions is. -/
structure Decoded where
  expr : Except PyError Expr
  items : Except PyError (List Expr)

section Node

variable (entries : DocEntries) (decoded : String → Option Decoded)

/-- `data.get("node")`. -/
def nodeOf : Doc := (entries.get? "node").getD (.scalar .none)

/-- The error that `except KeyError` raises instead. -/
def missingPart (name : String) : PyError :=
  .serializationError s!"expression node {(nodeOf entries).repr} is missing {quoted name}"

/-- `data[name]`. -/
def part (name : String) : Except PyError Doc :=
  match entries.get? name with
  | some d => .ok d
  | none => .error (missingPart entries name)

/-- `expr_from_dict(data[name])`. -/
def exprPart (name : String) : Except PyError Expr :=
  match decoded name with
  | some d => d.expr
  | none => .error (missingPart entries name)

/-- `tuple(expr_from_dict(item) for item in data[name])`. -/
def itemsPart (name : String) : Except PyError (List Expr) :=
  match decoded name with
  | some d => d.items
  | none => .error (missingPart entries name)

/-- `Sort.from_dict(data["sort"])`. -/
def sortPart : Except PyError IrSort := do
  let d ← part entries "sort"
  sortFromDict d

/-- `isinstance(d, Sequence)`; a text is a sequence too. -/
def isSequence : Option Doc → Bool
  | some (.list _) => true
  | some (.scalar (.str _)) => true
  | _ => false

/-- `Literal(value, sort)`. -/
def makeLiteral (d : Doc) (s : IrSort) : Except PyError Expr :=
  match d with
  | .scalar v =>
    if s.acceptsLiteral v then .ok (.literal v s)
    else .error (.expressionTypeError s!"literal {v.repr} is not valid for sort {s.pyStr}")
  | d => .error (.expressionTypeError s!"literal {d.repr} is not valid for sort {s.pyStr}")

/-- The constructor of a node whose parts are well typed. -/
def built (e : Expr) (check : Except PyError Unit) : Except PyError Expr := do
  check
  return e

def makeUnary (op : String) (e : Expr) : Except PyError Expr :=
  match unaryOf? op with
  | some op => built (.unary op e) (Expr.checkUnary op e)
  | none => .error (.expressionTypeError s!"unsupported unary operator: {op}")

def makeBinary (op : String) (l r : Expr) : Except PyError Expr :=
  match binaryOf? op with
  | some op => built (.binary op l r) (Expr.checkBinary op l r)
  | none => .error (.expressionTypeError s!"unsupported binary operator: {op}")

def makeNary (op : String) (es : List Expr) : Except PyError Expr :=
  match es, naryOf? op with
  | [], _ => .error (.expressionTypeError s!"{op} requires at least one operand")
  | es, some op => built (.nary op es) (Expr.checkNary op es)
  | _, none => .error (.expressionTypeError s!"unsupported n-ary operator: {op}")

def makeIte (c t e : Expr) : Except PyError Expr := do
  c.requireBool "ite condition"
  t.requireCompatible e "ite branches"
  return .ite c t e

/-- The branch of `expr_from_dict` for the node. -/
def exprNode (node : String) : Except PyError Expr :=
  if node = "literal" then do
    let s ← sortPart entries
    makeLiteral ((entries.get? "value").getD (.scalar .none)) s
  else if node = "symbol" then do
    let name ← part entries "name"
    let s ← sortPart entries
    built (.symbol name.pyStr s) (Expr.check (.symbol name.pyStr s))
  else if node = "event_field" then do
    let id ← part entries "event_id"
    let field ← part entries "field"
    let s ← sortPart entries
    built (.eventField id.pyStr field.pyStr s) (Expr.check (.eventField id.pyStr field.pyStr s))
  else if node = "unary" then do
    let op ← part entries "op"
    let e ← exprPart entries decoded "operand"
    makeUnary op.pyStr e
  else if node = "binary" then do
    let op ← part entries "op"
    let l ← exprPart entries decoded "left"
    let r ← exprPart entries decoded "right"
    makeBinary op.pyStr l r
  else if node = "nary" then
    if isSequence (entries.get? "operands") then do
      let op ← part entries "op"
      let es ← itemsPart entries decoded "operands"
      makeNary op.pyStr es
    else .error (.serializationError "nary.operands must be a sequence")
  else if node = "ite" then do
    let c ← exprPart entries decoded "condition"
    let t ← exprPart entries decoded "then"
    let e ← exprPart entries decoded "else"
    makeIte c t e
  else if node = "call" then
    if isSequence ((entries.get? "arguments").or (some (.list []))) then do
      let function ← part entries "function"
      let es ← ((decoded "arguments").map Decoded.items).getD (.ok [])
      let s ← sortPart entries
      built (.call function.pyStr es s) (Except.require (function.pyStr ≠ "")
        (.expressionTypeError "call function name must be non-empty"))
    else .error (.serializationError "call.arguments must be a sequence")
  else .error (.serializationError s!"unknown expression node: {quoted node}")

end Node

mutual

/-- `expr_from_dict`. The parts of a node are decoded where the node reads them. -/
def exprFromDict : Doc → Except PyError Expr
  | .dict entries =>
    match nodeOf entries with
    | .scalar (.str node) => exprNode entries (decodedPart entries) node
    | d => .error (.serializationError s!"unknown expression node: {d.repr}")
  | _ => .error (.serializationError "expression must be a mapping")

/-- `tuple(expr_from_dict(item) for item in d)`, for a sequence; the members of a text are
texts. -/
def exprsFromDict : Doc → Except PyError (List Expr)
  | .list items => exprsFromList items
  | .scalar (.str "") => .ok []
  | _ => .error (.serializationError "expression must be a mapping")

def exprsFromList : List Doc → Except PyError (List Expr)
  | [] => .ok []
  | d :: ds => do
    let e ← exprFromDict d
    let es ← exprsFromList ds
    return e :: es

/-- The value under the name, decoded. -/
def decodedPart : DocEntries → String → Option Decoded
  | [], _ => none
  | (key, d) :: rest, name =>
    if key.text? = some name then some ⟨exprFromDict d, exprsFromDict d⟩ else decodedPart rest name

end

/-- A part is decoded from the value that is stored under its name. -/
theorem decodedPart_eq (entries : DocEntries) (name : String) :
    decodedPart entries name =
      (entries.get? name).map (fun d => ⟨exprFromDict d, exprsFromDict d⟩) := by
  induction entries with
  | nil => rfl
  | cons entry rest ih =>
      obtain ⟨key, d⟩ := entry
      rw [decodedPart, DocEntries.get?_cons, ih]
      unfold DocEntries.hasName
      split_ifs <;> simp_all

/-! ### Reading an expression back -/

theorem wellTyped_unary {op : UnaryOp} {e : Expr} : (Expr.unary op e).wellTyped = true ↔
    Expr.checkUnary op e = .ok () ∧ e.wellTyped = true := by
  cases op <;>
    simp only [Expr.wellTyped, Expr.checkUnary, Expr.requireBool, Expr.requireNumeric,
      require_eq_ok, Bool.and_eq_true]

theorem checkBinary_eq_ok {op : BinaryOp} {l r : Expr} :
    Expr.checkBinary op l r = .ok () ↔ Expr.binaryTyped op l r = true := by
  cases op <;>
    simp only [Expr.checkBinary, Expr.binaryTyped, Expr.requireBool, Expr.requireCompatible,
      Expr.requireOrdered, Expr.requireNumeric, bind_eq_ok, require_eq_ok, Bool.and_eq_true,
      exists_const]

theorem wellTyped_binary {op : BinaryOp} {l r : Expr} : (Expr.binary op l r).wellTyped = true ↔
    Expr.checkBinary op l r = .ok () ∧ l.wellTyped = true ∧ r.wellTyped = true := by
  rw [checkBinary_eq_ok, Expr.wellTyped, Bool.and_eq_true, Bool.and_eq_true, and_assoc]

theorem checkNary_eq_ok {op : NaryOp} {es : List Expr} :
    Expr.checkNary op es = .ok () ↔ Expr.naryTyped op es = true := by
  cases es with
  | nil => cases op <;> simp [Expr.checkNary, Expr.naryTyped]
  | cons e es =>
      cases op <;>
        simp only [Expr.checkNary, Expr.naryTyped, forM_eq_ok, Expr.requireBool,
          Expr.requireCompatible, require_eq_ok, List.all_eq_true]

theorem wellTyped_nary {op : NaryOp} {es : List Expr} : (Expr.nary op es).wellTyped = true ↔
    Expr.checkNary op es = .ok () ∧ Expr.wellTypedAll es = true := by
  rw [checkNary_eq_ok, Expr.wellTyped, Bool.and_eq_true]

section Parts

variable {entries : DocEntries} {name : String} {d : Doc}

theorem part_of_get? (h : entries.get? name = some d) : part entries name = .ok d := by
  unfold part
  rw [h]

theorem exprPart_of_get? (h : entries.get? name = some d) :
    exprPart entries (decodedPart entries) name = exprFromDict d := by
  unfold exprPart
  rw [decodedPart_eq, h]
  rfl

theorem itemsPart_of_get? (h : entries.get? name = some d) :
    itemsPart entries (decodedPart entries) name = exprsFromDict d := by
  unfold itemsPart
  rw [decodedPart_eq, h]
  rfl

theorem sortPart_of_get? {s : IrSort} (h : entries.get? "sort" = some (sortToDict s)) :
    sortPart entries = .ok s := by
  unfold sortPart
  rw [part_of_get? h, ok_bind, sortFromDict_toDict]

end Parts

theorem makeUnary_of_wellTyped {op : UnaryOp} {e : Expr} (h : (Expr.unary op e).wellTyped = true) :
    makeUnary op.text e = .ok (.unary op e) := by
  unfold makeUnary
  rw [unaryOf?_text]
  simp only [built, (wellTyped_unary.mp h).1, ok_bind]
  rfl

theorem makeBinary_of_wellTyped {op : BinaryOp} {l r : Expr}
    (h : (Expr.binary op l r).wellTyped = true) :
    makeBinary op.text l r = .ok (.binary op l r) := by
  unfold makeBinary
  rw [binaryOf?_text]
  simp only [built, (wellTyped_binary.mp h).1, ok_bind]
  rfl

theorem makeNary_of_wellTyped {op : NaryOp} {es : List Expr}
    (h : (Expr.nary op es).wellTyped = true) : makeNary op.text es = .ok (.nary op es) := by
  have hcheck := (wellTyped_nary.mp h).1
  cases es with
  | nil => cases op <;> simp [Expr.checkNary] at hcheck
  | cons e es =>
      unfold makeNary
      rw [naryOf?_text]
      simp only [built, hcheck, ok_bind]
      rfl

mutual

theorem exprFromDict_toDict : ∀ e : Expr, e.wellTyped = true → exprFromDict (exprToDict e) = .ok e
  | .literal v s, h => by
      have haccepts : s.acceptsLiteral v = true := h
      rw [exprToDict]
      show exprNode _ _ "literal" = _
      simp only [exprNode, reduceIte]
      rw [sortPart_of_get? (s := s) rfl]
      show makeLiteral (.scalar v) s = _
      exact if_pos haccepts
  | .symbol name s, h => by
      have hname : name ≠ "" := by simpa [Expr.wellTyped] using h
      rw [exprToDict]
      show exprNode _ _ "symbol" = _
      simp only [exprNode, String.reduceEq, reduceIte]
      rw [part_of_get? (d := .scalar (.str name)) rfl, sortPart_of_get? (s := s) rfl]
      show built (.symbol name s) (Expr.check (.symbol name s)) = _
      rw [built, Expr.check, (require_eq_ok (u := ())).mpr hname]
      rfl
  | .eventField id field s, h => by
      have hnames : id ≠ "" ∧ field ≠ "" := by simpa [Expr.wellTyped] using h
      rw [exprToDict]
      show exprNode _ _ "event_field" = _
      simp only [exprNode, String.reduceEq, reduceIte]
      rw [part_of_get? (d := .scalar (.str id)) rfl, part_of_get? (d := .scalar (.str field)) rfl,
        sortPart_of_get? (s := s) rfl]
      show built (.eventField id field s) (Expr.check (.eventField id field s)) = _
      rw [built, Expr.check, (require_eq_ok (u := ())).mpr hnames]
      rfl
  | .unary op e, h => by
      have he := exprFromDict_toDict e (wellTyped_unary.mp h).2
      rw [exprToDict]
      show exprNode _ _ "unary" = _
      simp only [exprNode, String.reduceEq, reduceIte]
      rw [part_of_get? (d := .scalar (.str op.text)) rfl, exprPart_of_get? (d := exprToDict e) rfl, he]
      exact makeUnary_of_wellTyped h
  | .binary op l r, h => by
      have hl := exprFromDict_toDict l (wellTyped_binary.mp h).2.1
      have hr := exprFromDict_toDict r (wellTyped_binary.mp h).2.2
      rw [exprToDict]
      show exprNode _ _ "binary" = _
      simp only [exprNode, String.reduceEq, reduceIte]
      rw [part_of_get? (d := .scalar (.str op.text)) rfl, exprPart_of_get? (d := exprToDict l) rfl,
        exprPart_of_get? (d := exprToDict r) rfl, hl, hr]
      exact makeBinary_of_wellTyped h
  | .nary op es, h => by
      have hes := exprsFromList_toDict es (wellTyped_nary.mp h).2
      rw [exprToDict]
      show exprNode _ _ "nary" = _
      simp only [exprNode, String.reduceEq, reduceIte]
      rw [if_pos (show isSequence _ = true from rfl), part_of_get? (d := .scalar (.str op.text)) rfl,
        itemsPart_of_get? (d := .list (exprsToDict es)) rfl, exprsFromDict, hes]
      exact makeNary_of_wellTyped h
  | .ite c t e, h => by
      rw [Expr.wellTyped] at h
      simp only [Bool.and_eq_true] at h
      obtain ⟨⟨⟨⟨hbool, hsorts⟩, hc⟩, ht⟩, he⟩ := h
      rw [exprToDict]
      show exprNode _ _ "ite" = _
      simp only [exprNode, String.reduceEq, reduceIte]
      rw [exprPart_of_get? (d := exprToDict c) rfl, exprPart_of_get? (d := exprToDict t) rfl,
        exprPart_of_get? (d := exprToDict e) rfl, exprFromDict_toDict c hc,
        exprFromDict_toDict t ht, exprFromDict_toDict e he]
      show makeIte c t e = _
      rw [makeIte, Expr.requireBool, Expr.requireCompatible, (require_eq_ok (u := ())).mpr hbool,
        (require_eq_ok (u := ())).mpr hsorts]
      rfl
  | .call function es s, h => by
      have hparts : function ≠ "" ∧ Expr.wellTypedAll es = true := by
        simpa [Expr.wellTyped] using h
      have hes := exprsFromList_toDict es hparts.2
      rw [exprToDict]
      show exprNode _ _ "call" = _
      simp only [exprNode, String.reduceEq, reduceIte]
      rw [if_pos (show isSequence _ = true from rfl), part_of_get? (d := .scalar (.str function)) rfl, decodedPart_eq,
        sortPart_of_get? (s := s) rfl]
      show (do
        let es ← exprsFromList (exprsToDict es)
        built (.call function es s) (Except.require (function ≠ "")
          (.expressionTypeError "call function name must be non-empty"))) = _
      rw [hes, ok_bind, built, (require_eq_ok (u := ())).mpr hparts.1]
      rfl

theorem exprsFromList_toDict : ∀ es : List Expr, Expr.wellTypedAll es = true →
    exprsFromList (exprsToDict es) = .ok es
  | [], _ => by
      rw [exprsToDict]
      rfl
  | e :: es, h => by
      rw [Expr.wellTypedAll, Bool.and_eq_true] at h
      rw [exprsToDict, exprsFromList, exprFromDict_toDict e h.1, exprsFromList_toDict es h.2]
      rfl

end

/-! ### Decoded expressions are well typed -/

theorem wellTyped_of_makeLiteral {d : Doc} {s : IrSort} {e : Expr} (h : makeLiteral d s = .ok e) :
    e.wellTyped = true := by
  unfold makeLiteral at h
  split at h
  · split_ifs at h with haccepts
    cases h
    exact haccepts
  · cases h

theorem built_eq_ok {e e' : Expr} {check : Except PyError Unit} :
    built e check = .ok e' ↔ check = .ok () ∧ e = e' := by
  unfold built
  cases check with
  | error e => simp
  | ok u => simp [pure, Except.pure]

theorem wellTyped_of_makeUnary {op : String} {e e' : Expr} (he : e.wellTyped = true)
    (h : makeUnary op e = .ok e') : e'.wellTyped = true := by
  unfold makeUnary at h
  split at h
  · obtain ⟨hcheck, rfl⟩ := built_eq_ok.mp h
    exact wellTyped_unary.mpr ⟨hcheck, he⟩
  · cases h

theorem wellTyped_of_makeBinary {op : String} {l r e' : Expr} (hl : l.wellTyped = true)
    (hr : r.wellTyped = true) (h : makeBinary op l r = .ok e') : e'.wellTyped = true := by
  unfold makeBinary at h
  split at h
  · obtain ⟨hcheck, rfl⟩ := built_eq_ok.mp h
    exact wellTyped_binary.mpr ⟨hcheck, hl, hr⟩
  · cases h

theorem wellTyped_of_makeNary {op : String} {es : List Expr} {e' : Expr}
    (hes : Expr.wellTypedAll es = true) (h : makeNary op es = .ok e') : e'.wellTyped = true := by
  unfold makeNary at h
  split at h
  · cases h
  · obtain ⟨hcheck, rfl⟩ := built_eq_ok.mp h
    exact wellTyped_nary.mpr ⟨hcheck, hes⟩
  · cases h

theorem wellTyped_of_makeIte {c t e e' : Expr} (hc : c.wellTyped = true) (ht : t.wellTyped = true)
    (he : e.wellTyped = true) (h : makeIte c t e = .ok e') : e'.wellTyped = true := by
  unfold makeIte at h
  obtain ⟨_, hbool, h⟩ := bind_eq_ok.mp h
  obtain ⟨_, hsorts, h⟩ := bind_eq_ok.mp h
  cases h
  rw [Expr.requireBool, require_eq_ok] at hbool
  rw [Expr.requireCompatible, require_eq_ok] at hsorts
  rw [Expr.wellTyped, hbool, hsorts, hc, ht, he]
  rfl

/-- The decoded part is well typed, if it is decoded. -/
structure Decoded.WellTyped (d : Decoded) : Prop where
  expr : ∀ e, d.expr = .ok e → e.wellTyped = true
  items : ∀ es, d.items = .ok es → Expr.wellTypedAll es = true

section Node

variable {entries : DocEntries} {decoded : String → Option Decoded} {name : String}

theorem wellTyped_of_exprPart (hdecoded : ∀ name d, decoded name = some d → d.WellTyped) {e : Expr}
    (h : exprPart entries decoded name = .ok e) : e.wellTyped = true := by
  unfold exprPart at h
  split at h
  · next d hd => exact (hdecoded name d hd).expr e h
  · cases h

theorem wellTyped_of_itemsPart (hdecoded : ∀ name d, decoded name = some d → d.WellTyped)
    {es : List Expr} (h : itemsPart entries decoded name = .ok es) :
    Expr.wellTypedAll es = true := by
  unfold itemsPart at h
  split at h
  · next d hd => exact (hdecoded name d hd).items es h
  · cases h

theorem wellTyped_of_exprNode (hdecoded : ∀ name d, decoded name = some d → d.WellTyped)
    {node : String} {e : Expr} (h : exprNode entries decoded node = .ok e) :
    e.wellTyped = true := by
  unfold exprNode at h
  split_ifs at h
  · obtain ⟨s, -, h⟩ := bind_eq_ok.mp h
    exact wellTyped_of_makeLiteral h
  · obtain ⟨name, -, h⟩ := bind_eq_ok.mp h
    obtain ⟨s, -, h⟩ := bind_eq_ok.mp h
    obtain ⟨hcheck, rfl⟩ := built_eq_ok.mp h
    rw [Expr.check, require_eq_ok] at hcheck
    simpa [Expr.wellTyped] using hcheck
  · obtain ⟨id, -, h⟩ := bind_eq_ok.mp h
    obtain ⟨field, -, h⟩ := bind_eq_ok.mp h
    obtain ⟨s, -, h⟩ := bind_eq_ok.mp h
    obtain ⟨hcheck, rfl⟩ := built_eq_ok.mp h
    rw [Expr.check, require_eq_ok] at hcheck
    simpa [Expr.wellTyped] using hcheck
  · obtain ⟨op, -, h⟩ := bind_eq_ok.mp h
    obtain ⟨e, he, h⟩ := bind_eq_ok.mp h
    exact wellTyped_of_makeUnary (wellTyped_of_exprPart hdecoded he) h
  · obtain ⟨op, -, h⟩ := bind_eq_ok.mp h
    obtain ⟨l, hl, h⟩ := bind_eq_ok.mp h
    obtain ⟨r, hr, h⟩ := bind_eq_ok.mp h
    exact wellTyped_of_makeBinary (wellTyped_of_exprPart hdecoded hl)
      (wellTyped_of_exprPart hdecoded hr) h
  · obtain ⟨op, -, h⟩ := bind_eq_ok.mp h
    obtain ⟨es, hes, h⟩ := bind_eq_ok.mp h
    exact wellTyped_of_makeNary (wellTyped_of_itemsPart hdecoded hes) h
  · obtain ⟨c, hc, h⟩ := bind_eq_ok.mp h
    obtain ⟨t, ht, h⟩ := bind_eq_ok.mp h
    obtain ⟨e, he, h⟩ := bind_eq_ok.mp h
    exact wellTyped_of_makeIte (wellTyped_of_exprPart hdecoded hc)
      (wellTyped_of_exprPart hdecoded ht) (wellTyped_of_exprPart hdecoded he) h
  · obtain ⟨function, -, h⟩ := bind_eq_ok.mp h
    obtain ⟨es, hes, h⟩ := bind_eq_ok.mp h
    obtain ⟨s, -, h⟩ := bind_eq_ok.mp h
    obtain ⟨hcheck, rfl⟩ := built_eq_ok.mp h
    rw [require_eq_ok] at hcheck
    have hall : Expr.wellTypedAll es = true := by
      cases hd : decoded "arguments" with
      | none =>
          rw [hd] at hes
          cases hes
          rfl
      | some d =>
          rw [hd] at hes
          exact (hdecoded _ d hd).items es hes
    rw [Expr.wellTyped, hall]
    simpa using hcheck

end Node

mutual

theorem wellTyped_of_exprFromDict : ∀ (d : Doc) {e : Expr}, exprFromDict d = .ok e →
    e.wellTyped = true
  | .dict entries, e, h => by
      rw [exprFromDict] at h
      split at h
      · exact wellTyped_of_exprNode (fun name d hd => wellTyped_of_decodedPart entries hd) h
      · cases h
  | .scalar _, _, h => by cases h
  | .expr _, _, h => by cases h
  | .list _, _, h => by cases h

theorem wellTyped_of_exprsFromDict : ∀ (d : Doc) {es : List Expr}, exprsFromDict d = .ok es →
    Expr.wellTypedAll es = true
  | .list items, es, h => wellTyped_of_exprsFromList items h
  | .scalar v, es, h => by
      unfold exprsFromDict at h
      split at h
      · next heq => cases heq
      · cases h
        rfl
      · cases h
  | .expr _, _, h => by cases h
  | .dict _, _, h => by cases h

theorem wellTyped_of_exprsFromList : ∀ (ds : List Doc) {es : List Expr}, exprsFromList ds = .ok es →
    Expr.wellTypedAll es = true
  | [], _, h => by
      cases h
      rfl
  | d :: ds, es, h => by
      rw [exprsFromList] at h
      obtain ⟨e, he, h⟩ := bind_eq_ok.mp h
      obtain ⟨es', hes, h⟩ := bind_eq_ok.mp h
      cases h
      rw [Expr.wellTypedAll, wellTyped_of_exprFromDict d he, wellTyped_of_exprsFromList ds hes]
      rfl

theorem wellTyped_of_decodedPart : ∀ (entries : DocEntries) {name : String} {d : Decoded},
    decodedPart entries name = some d → d.WellTyped
  | [], _, _, h => by cases h
  | (key, d') :: rest, name, d, h => by
      rw [decodedPart] at h
      split_ifs at h
      · cases h
        exact ⟨fun _ he => wellTyped_of_exprFromDict d' he,
          fun _ hes => wellTyped_of_exprsFromDict d' hes⟩
      · exact wellTyped_of_decodedPart rest h

end

end Stored

end Umcm
