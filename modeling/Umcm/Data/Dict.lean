import Umcm.Data.Name
import Mathlib.Data.List.Nodup
import Mathlib.Tactic

/-!
# Insertion-ordered dictionaries

A finite map that remembers the order in which its keys were first inserted.
The keys are pairwise distinct by construction.
-/

/-- A list of key-value pairs with distinct keys. -/
structure Dict (κ ν : Type*) where
  entries : List (κ × ν)
  nodup : (entries.map Prod.fst).Nodup
deriving Repr

namespace Dict

variable {κ ν : Type*}

def empty : Dict κ ν := ⟨[], List.nodup_nil⟩

instance : Inhabited (Dict κ ν) := ⟨empty⟩

def keys (d : Dict κ ν) : List κ := d.entries.map Prod.fst

def values (d : Dict κ ν) : List ν := d.entries.map Prod.snd

@[ext] theorem ext {d e : Dict κ ν} (h : d.entries = e.entries) : d = e := by
  cases d
  cases e
  cases h
  rfl

instance [DecidableEq κ] [DecidableEq ν] : DecidableEq (Dict κ ν) := fun d e =>
  decidable_of_iff (d.entries = e.entries) ⟨Dict.ext, congrArg Dict.entries⟩

variable [DecidableEq κ]

/-- The value stored under the first entry with key `k`. -/
def lookup (k : κ) : List (κ × ν) → Option ν
  | [] => none
  | (k', v) :: rest => if k' = k then some v else lookup k rest

def get? (d : Dict κ ν) (k : κ) : Option ν := lookup k d.entries

/-- Overwrite the entry of `k` in place, or append it. -/
def put (k : κ) (v : ν) : List (κ × ν) → List (κ × ν)
  | [] => [(k, v)]
  | (k', v') :: rest => if k' = k then (k, v) :: rest else (k', v') :: put k v rest

theorem mem_map_fst_put {k x : κ} {v : ν} {l : List (κ × ν)} :
    x ∈ (put k v l).map Prod.fst ↔ x = k ∨ x ∈ l.map Prod.fst := by
  induction l with
  | nil => simp [put]
  | cons p rest ih =>
      obtain ⟨k', v'⟩ := p
      by_cases h : k' = k
      · subst h
        simp [put]
      · simp only [put, h, if_false, List.map_cons, List.mem_cons, ih]
        tauto

theorem nodup_put {k : κ} {v : ν} {l : List (κ × ν)} (h : (l.map Prod.fst).Nodup) :
    ((put k v l).map Prod.fst).Nodup := by
  induction l with
  | nil => simp [put]
  | cons p rest ih =>
      obtain ⟨k', v'⟩ := p
      rw [List.map_cons, List.nodup_cons] at h
      by_cases hk : k' = k
      · subst hk
        simpa [put] using h
      · simp only [put, hk, if_false, List.map_cons, List.nodup_cons]
        refine ⟨?_, ih h.2⟩
        rw [mem_map_fst_put]
        rintro (heq | hmem)
        · exact hk heq
        · exact h.1 hmem

/-- `d[k] = v`. -/
def insert (d : Dict κ ν) (k : κ) (v : ν) : Dict κ ν := ⟨put k v d.entries, nodup_put d.nodup⟩

/-- `d.pop(k, None)`. -/
def erase (d : Dict κ ν) (k : κ) : Dict κ ν :=
  ⟨d.entries.filter (fun p => p.1 ≠ k), d.nodup.sublist (List.Sublist.map _ List.filter_sublist)⟩

/-- `dict(pairs)`: later pairs overwrite earlier ones. -/
def ofList (pairs : List (κ × ν)) : Dict κ ν := pairs.foldl (fun d p => d.insert p.1 p.2) empty

/-- `d.update(e)`. -/
def update (d e : Dict κ ν) : Dict κ ν := e.entries.foldl (fun d p => d.insert p.1 p.2) d

theorem lookup_put (k k' : κ) (v : ν) (l : List (κ × ν)) :
    lookup k' (put k v l) = if k' = k then some v else lookup k' l := by
  induction l with
  | nil => simp [put, lookup, eq_comm]
  | cons p rest ih =>
      obtain ⟨k₀, v₀⟩ := p
      by_cases h : k₀ = k
      · subst h
        by_cases h' : k₀ = k'
        · simp [put, lookup, h']
        · simp [put, lookup, h', Ne.symm h']
      · by_cases h' : k₀ = k'
        · subst h'
          simp [put, lookup, h]
        · simp [put, lookup, h, h', ih]

@[simp] theorem get?_empty (k : κ) : (empty : Dict κ ν).get? k = none := rfl

theorem get?_insert (d : Dict κ ν) (k k' : κ) (v : ν) :
    (d.insert k v).get? k' = if k' = k then some v else d.get? k' :=
  lookup_put k k' v d.entries

@[simp] theorem get?_insert_self (d : Dict κ ν) (k : κ) (v : ν) :
    (d.insert k v).get? k = some v := by
  simp [get?_insert]

theorem get?_insert_of_ne (d : Dict κ ν) {k k' : κ} (h : k' ≠ k) (v : ν) :
    (d.insert k v).get? k' = d.get? k' := by
  simp [get?_insert, h]

theorem lookup_filter_ne (k k' : κ) (l : List (κ × ν)) :
    lookup k' (l.filter (fun p => p.1 ≠ k)) = if k' = k then none else lookup k' l := by
  induction l with
  | nil => simp [lookup]
  | cons p rest ih =>
      obtain ⟨k₀, v₀⟩ := p
      by_cases h : k₀ = k
      · subst h
        by_cases h' : k' = k₀
        · simp only [h', if_true] at ih ⊢
          simpa using ih
        · have hne : ¬ k₀ = k' := fun heq => h' heq.symm
          simp only [h', if_false] at ih
          simpa [lookup, hne, h'] using ih
      · by_cases h' : k₀ = k'
        · subst h'
          simp [lookup, h]
        · simp only [List.filter_cons, ne_eq, h, not_false_eq_true, decide_true, if_true, lookup,
            h', if_false]
          exact ih

theorem get?_erase (d : Dict κ ν) (k k' : κ) :
    (d.erase k).get? k' = if k' = k then none else d.get? k' :=
  lookup_filter_ne k k' d.entries

theorem lookup_isSome_iff {k : κ} {l : List (κ × ν)} :
    (lookup k l).isSome ↔ k ∈ l.map Prod.fst := by
  induction l with
  | nil => simp [lookup]
  | cons p rest ih =>
      obtain ⟨k', v'⟩ := p
      by_cases h : k' = k
      · simp [lookup, h]
      · simp only [lookup, h, if_false, ih, List.map_cons, List.mem_cons]
        constructor
        · exact Or.inr
        · rintro (heq | hmem)
          · exact absurd heq.symm h
          · exact hmem

theorem get?_isSome_iff {d : Dict κ ν} {k : κ} : (d.get? k).isSome ↔ k ∈ d.keys :=
  lookup_isSome_iff

theorem get?_eq_none_iff {d : Dict κ ν} {k : κ} : d.get? k = none ↔ k ∉ d.keys := by
  rw [← get?_isSome_iff, Option.not_isSome_iff_eq_none]

theorem mem_of_lookup {k : κ} {v : ν} {l : List (κ × ν)} (h : lookup k l = some v) :
    (k, v) ∈ l := by
  induction l with
  | nil => cases h
  | cons p rest ih =>
      obtain ⟨k', v'⟩ := p
      by_cases hk : k' = k
      · subst hk
        have hv : v' = v := by simpa [lookup] using h
        simp [hv]
      · have hrest : lookup k rest = some v := by simpa [lookup, hk] using h
        exact List.mem_cons_of_mem _ (ih hrest)

theorem lookup_of_mem {k : κ} {v : ν} {l : List (κ × ν)} (hnd : (l.map Prod.fst).Nodup)
    (h : (k, v) ∈ l) : lookup k l = some v := by
  induction l with
  | nil => cases h
  | cons p rest ih =>
      obtain ⟨k', v'⟩ := p
      rw [List.map_cons, List.nodup_cons] at hnd
      rcases List.mem_cons.mp h with heq | hmem
      · cases heq
        simp [lookup]
      · have hne : k' ≠ k := by
          rintro rfl
          exact hnd.1 (List.mem_map.mpr ⟨(k', v), hmem, rfl⟩)
        simpa [lookup, hne] using ih hnd.2 hmem

theorem get?_eq_some_iff {d : Dict κ ν} {k : κ} {v : ν} :
    d.get? k = some v ↔ (k, v) ∈ d.entries :=
  ⟨mem_of_lookup, lookup_of_mem d.nodup⟩

theorem keys_insert {d : Dict κ ν} {k x : κ} {v : ν} :
    x ∈ (d.insert k v).keys ↔ x = k ∨ x ∈ d.keys :=
  mem_map_fst_put

theorem mem_entries_insert {d : Dict κ ν} {k : κ} {v : ν} {p : κ × ν}
    (h : p ∈ (d.insert k v).entries) : p = (k, v) ∨ p ∈ d.entries := by
  obtain ⟨k', v'⟩ := p
  rw [← get?_eq_some_iff, get?_insert] at h
  by_cases hk : k' = k
  · rw [if_pos hk] at h
    cases h
    exact Or.inl (by rw [hk])
  · rw [if_neg hk] at h
    exact Or.inr (get?_eq_some_iff.mp h)

theorem put_of_notMem {k : κ} {v : ν} {l : List (κ × ν)} (h : k ∉ l.map Prod.fst) :
    put k v l = l ++ [(k, v)] := by
  induction l with
  | nil => rfl
  | cons p rest ih =>
      rw [List.map_cons, List.mem_cons, not_or] at h
      rw [put, if_neg (Ne.symm h.1), ih h.2, List.cons_append]

/-! ## Assigning the last key -/

theorem entries_insert_of_notMem {d : Dict κ ν} {k : κ} {v : ν} (h : k ∉ d.keys) :
    (d.insert k v).entries = d.entries ++ [(k, v)] := put_of_notMem h

/-- Overwriting the entry that was inserted last. -/
theorem entries_insert_last {d : Dict κ ν} {l : List (κ × ν)} {k : κ} {v w : ν}
    (h : d.entries = l ++ [(k, w)]) : (d.insert k v).entries = l ++ [(k, v)] := by
  have hnd := d.nodup
  change put k v d.entries = _
  rw [h] at hnd ⊢
  clear h
  induction l with
  | nil => simp [put]
  | cons p rest ih =>
      rw [List.cons_append, List.map_cons, List.nodup_cons] at hnd
      have hne : p.1 ≠ k := by
        rintro rfl
        exact hnd.1 (by simp)
      rw [List.cons_append, put, if_neg hne, ih hnd.2, List.cons_append]

/-- Removing the entry that was inserted last. -/
theorem entries_erase_last {d : Dict κ ν} {l : List (κ × ν)} {k : κ} {v : ν}
    (h : d.entries = l ++ [(k, v)]) : (d.erase k).entries = l := by
  have hnd := d.nodup
  rw [h, List.map_append, List.nodup_append] at hnd
  have hkeep : ∀ p ∈ l, p.1 ≠ k := by
    intro p hp
    exact hnd.2.2 _ (List.mem_map_of_mem hp) _ (by simp)
  change d.entries.filter _ = _
  rw [h, List.filter_append, List.filter_eq_self.mpr (by simpa using hkeep)]
  simp

/-- Removing a key that is not there. -/
theorem entries_erase_of_notMem {d : Dict κ ν} {k : κ} (h : k ∉ d.keys) :
    (d.erase k).entries = d.entries := by
  refine List.filter_eq_self.mpr (fun p hp => ?_)
  simp only [ne_eq, decide_not, Bool.not_eq_eq_eq_not, Bool.not_true, decide_eq_false_iff_not]
  rintro rfl
  exact h (List.mem_map_of_mem hp)

/-! ## Building a dictionary from pairs -/

theorem entries_foldl_insert {pairs : List (κ × ν)} {d : Dict κ ν}
    (h : ((d.entries ++ pairs).map Prod.fst).Nodup) :
    (pairs.foldl (fun d p => d.insert p.1 p.2) d).entries = d.entries ++ pairs := by
  induction pairs generalizing d with
  | nil => simp
  | cons p rest ih =>
      have hnew : p.1 ∉ d.keys := by
        rw [List.map_append, List.nodup_append] at h
        exact fun hmem => h.2.2 _ hmem _ (List.mem_map_of_mem List.mem_cons_self) rfl
      have hinsert : (d.insert p.1 p.2).entries = d.entries ++ [p] :=
        entries_insert_of_notMem hnew
      rw [List.foldl_cons, ih (by rw [hinsert]; simpa using h), hinsert, List.append_assoc]
      rfl

theorem entries_ofList {pairs : List (κ × ν)} (h : (pairs.map Prod.fst).Nodup) :
    (ofList pairs).entries = pairs := by
  have hentries : (ofList pairs).entries = (empty : Dict κ ν).entries ++ pairs :=
    entries_foldl_insert (by simpa [empty] using h)
  simpa [empty] using hentries

@[simp] theorem ofList_entries (d : Dict κ ν) : ofList d.entries = d :=
  Dict.ext (entries_ofList d.nodup)

theorem get?_foldl_insert_of_notMem {pairs : List (κ × ν)} {d : Dict κ ν} {k : κ}
    (h : ∀ p ∈ pairs, p.1 ≠ k) :
    (pairs.foldl (fun d p => d.insert p.1 p.2) d).get? k = d.get? k := by
  induction pairs generalizing d with
  | nil => rfl
  | cons p rest ih =>
      rw [List.foldl_cons, ih (fun q hq => h q (List.mem_cons_of_mem _ hq)),
        get?_insert_of_ne d (h p List.mem_cons_self).symm]

theorem get?_foldl_insert_of_mem {pairs : List (κ × ν)} {d : Dict κ ν} {k : κ} {v : ν}
    (hnd : (pairs.map Prod.fst).Nodup) (h : (k, v) ∈ pairs) :
    (pairs.foldl (fun d p => d.insert p.1 p.2) d).get? k = some v := by
  induction pairs generalizing d with
  | nil => cases h
  | cons p rest ih =>
      rw [List.map_cons, List.nodup_cons] at hnd
      rw [List.foldl_cons]
      rcases List.mem_cons.mp h with rfl | h
      · rw [get?_foldl_insert_of_notMem, get?_insert_self]
        rintro q hq heq
        exact hnd.1 (List.mem_map.mpr ⟨q, hq, heq⟩)
      · exact ih hnd.2 h

theorem get?_ofList_of_mem {pairs : List (κ × ν)} {k : κ} {v : ν}
    (hnd : (pairs.map Prod.fst).Nodup) (h : (k, v) ∈ pairs) : (ofList pairs).get? k = some v :=
  get?_foldl_insert_of_mem hnd h

end Dict
