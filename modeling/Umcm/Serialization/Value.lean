import Umcm.Serialization.Expression

/-!
# Stored values

Field values, annotations and metadata are trees of mappings, lists, scalars and
expressions. An expression is stored as a mapping with the only key `$expr`.

* `decodeValue_encodeValue`: a decoded value is read back as it was stored.
* `isDecoded_of_decodeValue`: what is read from a file is such a value.
-/

namespace Umcm

open Except

namespace Stored

/-! ## The codec -/

/-- `dict(pairs)` with texts as keys. -/
def collect (pairs : List (String × Doc)) : DocEntries :=
  (Dict.ofList pairs).entries.map (fun p => (.text p.1, p.2))

/-- The value of a mapping whose only key is the text. -/
def onlyValue? (name : String) : DocEntries → Option Doc
  | [(key, d)] => if key.text? = some name then some d else none
  | _ => none

mutual

/-- `encode_value`. -/
def encodeValue : Doc → Doc
  | .scalar v => .scalar v
  | .expr e => .dict [(.text "$expr", exprToDict e)]
  | .list items => .list (encodeItems items)
  | .dict entries => .dict (collect (encodeEntries entries))

def encodeItems : List Doc → List Doc
  | [] => []
  | d :: ds => encodeValue d :: encodeItems ds

def encodeEntries : DocEntries → List (String × Doc)
  | [] => []
  | (key, d) :: rest => (key.pyStr, encodeValue d) :: encodeEntries rest

end

/-- The expression under `$expr`. -/
def decodeExpr : Doc → Except PyError Doc
  | .dict payload => .expr <$> exprFromDict (.dict payload)
  | _ => .error (.serializationError "$expr payload must be a mapping")

mutual

/-- `decode_value`. -/
def decodeValue : Doc → Except PyError Doc
  | .scalar v => .ok (.scalar v)
  | .expr e => .ok (.expr e)
  | .list items => do
    let items ← decodeItems items
    return .list items
  | .dict entries =>
    match onlyValue? "$expr" entries with
    | some payload => decodeExpr payload
    | none => do
      let pairs ← decodeEntries entries
      return .dict (collect pairs)

def decodeItems : List Doc → Except PyError (List Doc)
  | [] => .ok []
  | d :: ds => do
    let d ← decodeValue d
    let ds ← decodeItems ds
    return d :: ds

def decodeEntries : DocEntries → Except PyError (List (String × Doc))
  | [] => .ok []
  | (key, d) :: rest => do
    let d ← decodeValue d
    let rest ← decodeEntries rest
    return (key.pyStr, d) :: rest

end

/-- `decode_value(data.get(name, {}))`, before it is checked to be a mapping. -/
def decodedOf (entries : DocEntries) (name : String) : Except PyError Doc :=
  decodeValue ((entries.get? name).getD (.dict []))

/-- A decoded value must be a mapping. -/
def asMapping (d : Doc) (message : String) : Except PyError DocEntries :=
  match d with
  | .dict entries => .ok entries
  | _ => .error (.serializationError message)

theorem encodeItems_eq (items : List Doc) : encodeItems items = items.map encodeValue := by
  induction items with
  | nil => rfl
  | cons d ds ih => rw [encodeItems, ih, List.map_cons]

theorem encodeEntries_eq (entries : DocEntries) :
    encodeEntries entries = entries.map (fun p => (p.1.pyStr, encodeValue p.2)) := by
  induction entries with
  | nil => rfl
  | cons entry rest ih => rw [encodeEntries, ih, List.map_cons]

theorem decodeItems_eq (items : List Doc) : decodeItems items = items.mapM decodeValue := by
  induction items with
  | nil => rfl
  | cons d ds ih => rw [decodeItems, ih, List.mapM_cons]

theorem decodeEntries_eq (entries : DocEntries) : decodeEntries entries =
    entries.mapM (fun p => (fun d => (p.1.pyStr, d)) <$> decodeValue p.2) := by
  induction entries with
  | nil => rfl
  | cons entry rest ih =>
      rw [decodeEntries, ih, List.mapM_cons]
      cases decodeValue entry.2 <;> rfl

theorem collect_of_nodup {pairs : List (String × Doc)} (h : (pairs.map Prod.fst).Nodup) :
    collect pairs = pairs.map (fun p => (.text p.1, p.2)) := by
  unfold collect
  rw [Dict.entries_ofList h]

/-! ## Decoded values -/

/-- A tree of scalars, well-typed expressions, lists and mappings with texts as keys, in
which `$expr` is never an only key. -/
inductive IsDecoded : Doc → Prop where
  | scalar (v : Value) : IsDecoded (.scalar v)
  | expr (e : Expr) (wellTyped : e.wellTyped = true) : IsDecoded (.expr e)
  | list (items : List Doc) (hitems : ∀ item ∈ items, IsDecoded item) : IsDecoded (.list items)
  | dict (pairs : List (String × Doc)) (nodup : (pairs.map Prod.fst).Nodup)
    (not_only : pairs.map Prod.fst ≠ ["$expr"]) (hvalues : ∀ p ∈ pairs, IsDecoded p.2) :
    IsDecoded (.dict (pairs.map (fun p => (.text p.1, p.2))))

theorem onlyValue?_map_eq_none {α : Type} {pairs : List (String × α)} {f : α → Doc} {name : String}
    (h : pairs.map Prod.fst ≠ [name]) :
    onlyValue? name (pairs.map (fun p => (.text p.1, f p.2))) = none := by
  cases pairs with
  | nil => rfl
  | cons p rest =>
      cases rest with
      | nil =>
          show (if some p.1 = some name then some (f p.2) else none) = none
          rw [if_neg]
          intro heq
          exact h (by rw [List.map_singleton, Option.some.inj heq])
      | cons q rest => rfl

/-- A decoded value is read back as it was stored. -/
theorem decodeValue_encodeValue {d : Doc} (h : IsDecoded d) :
    decodeValue (encodeValue d) = .ok d := by
  induction h with
  | scalar v => rfl
  | expr e wellTyped =>
      have hpayload : decodeExpr (exprToDict e) = .expr <$> exprFromDict (exprToDict e) := by
        cases e <;> rfl
      show decodeExpr (exprToDict e) = _
      rw [hpayload, exprFromDict_toDict e wellTyped]
      rfl
  | list items _ ih =>
      have hitems : decodeItems (encodeItems items) = .ok items := by
        rw [decodeItems_eq, encodeItems_eq, mapM_eq_ok, List.forall₂_map_left_iff]
        exact List.forall₂_same.mpr ih
      rw [encodeValue, decodeValue, hitems]
      rfl
  | dict pairs nodup not_only _ ih =>
      have hencode : encodeEntries (pairs.map (fun p => (.text p.1, p.2))) =
          pairs.map (fun p => (p.1, encodeValue p.2)) := by
        rw [encodeEntries_eq, List.map_map]
        rfl
      have hnames : (pairs.map (fun p => (p.1, encodeValue p.2))).map Prod.fst =
          pairs.map Prod.fst := by
        rw [List.map_map]
        rfl
      have hcollect : collect (pairs.map (fun p => (p.1, encodeValue p.2))) =
          pairs.map (fun p => (.text p.1, encodeValue p.2)) := by
        rw [collect_of_nodup (by rw [hnames]; exact nodup), List.map_map]
        rfl
      have hpairs : decodeEntries (pairs.map (fun p => (.text p.1, encodeValue p.2))) =
          .ok pairs := by
        rw [decodeEntries_eq, mapM_eq_ok, List.forall₂_map_left_iff, List.forall₂_same]
        intro p hp
        show (fun d => (p.1, d)) <$> decodeValue (encodeValue p.2) = .ok p
        rw [ih p hp]
        rfl
      rw [encodeValue, hencode, hcollect, decodeValue, onlyValue?_map_eq_none not_only, hpairs]
      show Except.ok (Doc.dict (collect pairs)) = _
      rw [collect_of_nodup nodup]

/-! ## Values from files -/

/-- The texts of floats that are keys are numerals. -/
def isFileKey : DocKey → Bool
  | .scalar (.float _ text) => !text.toList.contains '$'
  | .scalar _ => true
  | .expr _ => false

/-- No key is equal to one before it. -/
def distinctKeys : DocEntries → Bool
  | [] => true
  | entry :: rest => rest.all (fun p => !p.1.pyEq entry.1) && distinctKeys rest

mutual

/-- What a file can hold: scalars, lists, and mappings with distinct scalars as keys. -/
def isFileData : Doc → Bool
  | .scalar _ => true
  | .expr _ => false
  | .list items => itemsFileData items
  | .dict entries => distinctKeys entries && entriesFileData entries

def itemsFileData : List Doc → Bool
  | [] => true
  | d :: ds => isFileData d && itemsFileData ds

def entriesFileData : DocEntries → Bool
  | [] => true
  | (key, d) :: rest => isFileKey key && isFileData d && entriesFileData rest

end

theorem toString_ne_expr (n : Int) : toString n ≠ "$expr" := by
  intro h
  have hlist : (toString n).toList = ['$', 'e', 'x', 'p', 'r'] := by
    rw [h]
    rfl
  cases n with
  | ofNat m =>
      have hdigits : (toString (Int.ofNat m)).toList = Nat.toDigits 10 m := by
        show (String.ofList (Nat.toDigits 10 m)).toList = _
        rw [String.toList_ofList]
      have hdollar : '$' ∈ Nat.toDigits 10 m := by
        rw [← hdigits, hlist]
        exact List.mem_cons_self
      have hdigit := Nat.isDigit_of_mem_toDigits (by decide) (by decide) hdollar
      cases hdigit
  | negSucc m =>
      have hminus : (toString (Int.negSucc m)).toList = '-' :: Nat.toDigits 10 (m + 1) := by
        show ("-" ++ String.ofList (Nat.toDigits 10 (m + 1))).toList = _
        rw [String.toList_append, show "-".toList = ['-'] from rfl, String.toList_ofList]
        rfl
      rw [hminus] at hlist
      cases (List.cons.inj hlist).1

/-- Only the text itself prints as `$expr`. -/
theorem text?_of_pyStr_expr {key : DocKey} (hkey : isFileKey key = true)
    (h : key.pyStr = "$expr") : key.text? = some "$expr" := by
  cases key with
  | expr e => cases hkey
  | scalar v =>
      cases v with
      | none => exact absurd h (by decide)
      | bool b => cases b <;> exact absurd h (by decide)
      | int n => exact absurd h (toString_ne_expr n)
      | float q text =>
          have htext : text = "$expr" := h
          subst htext
          cases hkey
      | str s =>
          have hs : s = "$expr" := h
          rw [hs]
          rfl

theorem entriesFileData_iff {entries : DocEntries} : entriesFileData entries = true ↔
    ∀ p ∈ entries, isFileKey p.1 = true ∧ isFileData p.2 = true := by
  induction entries with
  | nil => simp [entriesFileData]
  | cons entry rest ih =>
      rw [entriesFileData, Bool.and_eq_true, Bool.and_eq_true, ih, List.forall_mem_cons]

/-- Entries that are all stored under `$expr` are one entry. -/
theorem onlyValue?_isSome {entries : DocEntries} (hdistinct : distinctKeys entries = true)
    (hne : entries ≠ []) (hall : ∀ p ∈ entries, p.1.text? = some "$expr") :
    (onlyValue? "$expr" entries).isSome = true := by
  cases entries with
  | nil => exact absurd rfl hne
  | cons p rest =>
      cases rest with
      | nil =>
          have hp := hall p List.mem_cons_self
          show (if p.1.text? = some "$expr" then some p.2 else none).isSome = true
          rw [if_pos hp]
          rfl
      | cons q rest =>
          -- two entries with this key are not distinct
          have hp := hall p List.mem_cons_self
          have hq := hall q (List.mem_cons_of_mem _ List.mem_cons_self)
          have hequal : q.1.pyEq p.1 = true := by
            have hkey : ∀ key : DocKey, key.text? = some "$expr" → key = .text "$expr" := by
              intro key hkey
              unfold DocKey.text? at hkey
              split at hkey
              · cases hkey
                rfl
              · cases hkey
            rw [hkey _ hp, hkey _ hq]
            rfl
          rw [distinctKeys, Bool.and_eq_true, List.all_cons, hequal] at hdistinct
          simp at hdistinct

/-- The names of decoded entries are the keys as texts. -/
theorem fst_of_decodeEntries {entries : DocEntries} {pairs : List (String × Doc)}
    (h : decodeEntries entries = .ok pairs) :
    pairs.map Prod.fst = entries.map (fun p => p.1.pyStr) := by
  rw [decodeEntries_eq] at h
  refine Eq.trans (map_mapM (p := Prod.fst) (q := fun p : DocKey × Doc => p.1.pyStr) h ?_) rfl
  intro entry pair hpair
  cases hd : decodeValue entry.2 with
  | error e =>
      rw [hd] at hpair
      cases hpair
  | ok d =>
      rw [hd] at hpair
      cases hpair
      rfl

/-- A mapping is decoded to a mapping in which `$expr` is not the only key. -/
theorem isDecoded_collect {entries : DocEntries} {pairs : List (String × Doc)}
    (hdistinct : distinctKeys entries = true) (hentries : entriesFileData entries = true)
    (honly : onlyValue? "$expr" entries = none) (hpairs : decodeEntries entries = .ok pairs)
    (hvalues : ∀ p ∈ pairs, IsDecoded p.2) : IsDecoded (.dict (collect pairs)) := by
  refine .dict _ (Dict.ofList pairs).nodup ?_ (fun p hp => hvalues p (mem_entries_ofList hp))
  intro hkeys
  have hnames := fst_of_decodeEntries hpairs
  have hne : entries ≠ [] := by
    rintro rfl
    rw [List.map_nil, List.map_eq_nil_iff] at hnames
    subst hnames
    cases hkeys
  have hall : ∀ p ∈ entries, p.1.text? = some "$expr" := by
    intro p hp
    have hmem : p.1.pyStr ∈ pairs.map Prod.fst := by
      rw [hnames]
      exact List.mem_map_of_mem hp
    rcases List.mem_map.mp hmem with ⟨pair, hpair, hname⟩
    have hkey := mem_keys_ofList hpair
    unfold Dict.keys at hkey
    rw [hkeys, List.mem_singleton, hname] at hkey
    exact text?_of_pyStr_expr ((entriesFileData_iff.mp hentries p hp).1) hkey
  have hsome := onlyValue?_isSome hdistinct hne hall
  rw [honly] at hsome
  cases hsome

mutual

/-- What is decoded from file data is a decoded value. -/
theorem isDecoded_of_decodeValue : ∀ (d : Doc) {r : Doc}, isFileData d = true →
    decodeValue d = .ok r → IsDecoded r
  | .scalar v, _, _, h => by
      cases h
      exact .scalar v
  | .expr _, _, hdata, _ => by cases hdata
  | .list items, _, hdata, h => by
      rw [decodeValue] at h
      obtain ⟨decoded, hdecoded, h⟩ := bind_eq_ok.mp h
      cases h
      exact .list _ (isDecoded_of_decodeItems items hdata hdecoded)
  | .dict entries, r, hdata, h => by
      rw [isFileData, Bool.and_eq_true] at hdata
      rw [decodeValue] at h
      cases honly : onlyValue? "$expr" entries with
      | some payload =>
          rw [honly] at h
          cases payload with
          | dict payload =>
              have hexpr : Doc.expr <$> exprFromDict (.dict payload) = .ok r := h
              cases he : exprFromDict (.dict payload) with
              | error e =>
                  rw [he] at hexpr
                  cases hexpr
              | ok e =>
                  rw [he] at hexpr
                  cases hexpr
                  exact .expr e (wellTyped_of_exprFromDict _ he)
          | _ => cases h
      | none =>
          rw [honly] at h
          obtain ⟨pairs, hpairs, h⟩ := bind_eq_ok.mp h
          cases h
          exact isDecoded_collect hdata.1 hdata.2 honly hpairs
            (isDecoded_of_decodeEntries entries hdata.2 hpairs)

theorem isDecoded_of_decodeItems : ∀ (ds : List Doc) {rs : List Doc}, itemsFileData ds = true →
    decodeItems ds = .ok rs → ∀ r ∈ rs, IsDecoded r
  | [], _, _, h => by
      cases h
      exact fun r hr => absurd hr List.not_mem_nil
  | d :: ds, _, hdata, h => by
      rw [itemsFileData, Bool.and_eq_true] at hdata
      rw [decodeItems] at h
      obtain ⟨r, hr, h⟩ := bind_eq_ok.mp h
      obtain ⟨rs, hrs, h⟩ := bind_eq_ok.mp h
      cases h
      rw [List.forall_mem_cons]
      exact ⟨isDecoded_of_decodeValue d hdata.1 hr, isDecoded_of_decodeItems ds hdata.2 hrs⟩

theorem isDecoded_of_decodeEntries : ∀ (entries : DocEntries) {pairs : List (String × Doc)},
    entriesFileData entries = true → decodeEntries entries = .ok pairs →
    ∀ p ∈ pairs, IsDecoded p.2
  | [], _, _, h => by
      cases h
      exact fun p hp => absurd hp List.not_mem_nil
  | (key, d) :: rest, _, hdata, h => by
      rw [entriesFileData, Bool.and_eq_true, Bool.and_eq_true] at hdata
      rw [decodeEntries] at h
      obtain ⟨r, hr, h⟩ := bind_eq_ok.mp h
      obtain ⟨pairs, hpairs, h⟩ := bind_eq_ok.mp h
      cases h
      rw [List.forall_mem_cons]
      exact ⟨isDecoded_of_decodeValue d hdata.1.2 hr,
        isDecoded_of_decodeEntries rest hdata.2 hpairs⟩

end

end Stored

end Umcm
