import Umcm.Graph.Builder

/-!
# What the hints of a trace say

The evidence of the hint events themselves, and how the tables that `rfHints`
and `coHints` collect relate to it: a table is returned exactly when every
hint event can be read and no two reads-from hints of one read disagree, and
it then records all the evidence up to its semantic key.
-/

namespace Umcm

open Except

/-- A concrete event hints that a read takes its value from some write. -/
def RfHinted (trace : Trace) (spec : GraphModelSpec) (readId : String) (evidence : RfEvidence) :
    Prop :=
  ∃ p ∈ hintEvents RfHintSpec.eventType spec.projection.rfHints trace,
    concreteEvent p.2 = .ok true ∧ readRfEvidence p.1 p.2 = .ok (readId, evidence)

/-- A concrete event hints at a coherence edge. -/
def CoHinted (trace : Trace) (spec : GraphModelSpec) (evidence : CoEvidence) : Prop :=
  ∃ p ∈ hintEvents CoHintSpec.eventType spec.projection.coHints trace,
    concreteEvent p.2 = .ok true ∧ readCoEvidence p.1 p.2 = .ok evidence

/-- The ids a relation hint event names. -/
def readRelationEvidence (spec : RelationHintSpec) (event : EventInstance) :
    Except PyError (String × String) := do
  let source := (← field event spec.sourceIdField).pyStr
  let target := (← field event spec.targetIdField).pyStr
  return (source, target)

/-- Every concrete hint event has the fields it needs. -/
structure HintsReadable (trace : Trace) (spec : GraphModelSpec) : Prop where
  rf : ∀ p ∈ hintEvents RfHintSpec.eventType spec.projection.rfHints trace,
    concreteEvent p.2 = .ok true → ∃ r, readRfEvidence p.1 p.2 = .ok r
  co : ∀ p ∈ hintEvents CoHintSpec.eventType spec.projection.coHints trace,
    concreteEvent p.2 = .ok true → ∃ r, readCoEvidence p.1 p.2 = .ok r

/-- No two reads-from hints of one read disagree. -/
def RfHintsAgree (trace : Trace) (spec : GraphModelSpec) : Prop :=
  ∀ readId e e', RfHinted trace spec readId e → RfHinted trace spec readId e' →
    e.semanticKey = e'.semanticKey

/-- Every relation hint event has its fields and relates projected operations. -/
def RelationHintsKnown (trace : Trace) (spec : GraphModelSpec) (operations : List MemoryOperation) :
    Prop :=
  ∀ p ∈ hintEvents RelationHintSpec.eventType spec.projection.relationHints trace,
    concreteEvent p.2 = .ok true → ∃ source ∈ operations.map MemoryOperation.id,
      ∃ target ∈ operations.map MemoryOperation.id,
        readRelationEvidence p.1 p.2 = .ok (source, target)

/-! ## Errors of the readers -/

/-- The computation raises nothing but graph errors. -/
abbrev GraphRaises {α : Type} (x : Except PyError α) : Prop :=
  Raises (fun e => e.isGraphError = true) x

theorem concreteEvent_raises (event : EventInstance) : GraphRaises (concreteEvent event) := by
  unfold concreteEvent
  split
  · split
    · exact raises_error rfl
    · exact raises_ok _
  · exact raises_ok _

theorem field_raises (event : EventInstance) (name : String) : GraphRaises (field event name) := by
  unfold field
  split
  · exact raises_ok _
  · exact raises_error rfl

theorem readRfEvidence_raises (spec : RfHintSpec) (event : EventInstance) :
    GraphRaises (readRfEvidence spec event) := by
  refine (field_raises _ _).bind (fun _ _ => (field_raises _ _).bind (fun _ _ => ?_))
  refine (field_raises _ _).bind (fun _ _ => (field_raises _ _).bind (fun _ _ => ?_))
  exact raises_ok _

theorem readCoEvidence_raises (spec : CoHintSpec) (event : EventInstance) :
    GraphRaises (readCoEvidence spec event) := by
  refine (field_raises _ _).bind (fun _ _ => (field_raises _ _).bind (fun _ _ => ?_))
  refine (field_raises _ _).bind (fun _ _ => ?_)
  exact raises_ok _

/-! ## Reads-from hints -/

theorem addRfHint_raises (hints : Dict String RfEvidence) (p : RfHintSpec × EventInstance) :
    GraphRaises (addRfHint hints p) := by
  refine (concreteEvent_raises _).bind (fun concrete _ => ?_)
  cases concrete
  · exact raises_ok _
  · refine (readRfEvidence_raises _ _).bind (fun r _ => ?_)
    refine Raises.bind ?_ (fun _ _ => raises_ok _)
    exact raises_require rfl

theorem rfHints_raises (trace : Trace) (spec : GraphModelSpec) : GraphRaises (rfHints trace spec) :=
  Raises.foldlM (fun hints p _ => addRfHint_raises hints p)

/-- What one step of the collection does. -/
theorem addRfHint_eq_ok {hints hints' : Dict String RfEvidence} {p : RfHintSpec × EventInstance} :
    addRfHint hints p = .ok hints' ↔
      (concreteEvent p.2 = .ok false ∧ hints' = hints) ∨
      (concreteEvent p.2 = .ok true ∧ ∃ readId evidence,
        readRfEvidence p.1 p.2 = .ok (readId, evidence) ∧
        (∀ previous, hints.get? readId = some previous →
          previous.semanticKey = evidence.semanticKey) ∧
        hints' = hints.insert readId evidence) := by
  rw [addRfHint, bind_eq_ok]
  constructor
  · rintro ⟨concrete, hconcrete, h⟩
    cases concrete
    · cases h
      exact Or.inl ⟨hconcrete, rfl⟩
    · obtain ⟨⟨readId, evidence⟩, hread, h⟩ := bind_eq_ok.mp h
      obtain ⟨_, hagree, h⟩ := bind_eq_ok.mp h
      cases h
      exact Or.inr ⟨hconcrete, readId, evidence, hread, require_eq_ok.mp hagree, rfl⟩
  · rintro (⟨hconcrete, rfl⟩ | ⟨hconcrete, readId, evidence, hread, hagree, rfl⟩)
    · exact ⟨false, hconcrete, rfl⟩
    · refine ⟨true, hconcrete, ?_⟩
      rw [if_pos rfl, hread, ok_bind]
      exact bind_eq_ok.mpr ⟨(), require_eq_ok.mpr hagree, rfl⟩

/-- The table holds evidence of the events read so far, and of each of them up
to its semantic key. -/
structure RfTable (seen : List (RfHintSpec × EventInstance)) (hints : Dict String RfEvidence) :
    Prop where
  sound : ∀ readId e, hints.get? readId = some e →
    ∃ p ∈ seen, concreteEvent p.2 = .ok true ∧ readRfEvidence p.1 p.2 = .ok (readId, e)
  complete : ∀ p ∈ seen, concreteEvent p.2 = .ok true → ∃ readId e e',
    readRfEvidence p.1 p.2 = .ok (readId, e) ∧ hints.get? readId = some e' ∧
      e'.semanticKey = e.semanticKey

theorem RfTable.step {seen : List (RfHintSpec × EventInstance)} {hints hints' : Dict String RfEvidence}
    {p : RfHintSpec × EventInstance} (h : RfTable seen hints) (hstep : addRfHint hints p = .ok hints') :
    RfTable (seen ++ [p]) hints' := by
  rcases addRfHint_eq_ok.mp hstep with ⟨hfalse, rfl⟩ | ⟨htrue, readId, evidence, hread, hagree, rfl⟩
  · refine ⟨fun readId e hget => ?_, fun q hq hconcrete => ?_⟩
    · obtain ⟨q, hq, hq'⟩ := h.sound readId e hget
      exact ⟨q, List.mem_append_left _ hq, hq'⟩
    · rcases List.mem_append.mp hq with hq | hq
      · exact h.complete q hq hconcrete
      · rw [List.mem_singleton.mp hq, hfalse] at hconcrete
        cases hconcrete
  · refine ⟨fun readId' e hget => ?_, fun q hq hconcrete => ?_⟩
    · rw [Dict.get?_insert] at hget
      split at hget
      · cases hget
        subst_vars
        exact ⟨p, List.mem_append_right _ List.mem_cons_self, htrue, hread⟩
      · obtain ⟨q, hq, hq'⟩ := h.sound readId' e hget
        exact ⟨q, List.mem_append_left _ hq, hq'⟩
    · rcases List.mem_append.mp hq with hq | hq
      · obtain ⟨readId', e, e', hread', hget, hkey⟩ := h.complete q hq hconcrete
        by_cases hid : readId' = readId
        · -- the new evidence agrees with what was recorded
          subst hid
          exact ⟨readId', e, evidence, hread', Dict.get?_insert_self _ _ _,
            (hagree e' hget).symm.trans hkey⟩
        · exact ⟨readId', e, e', hread', by rw [Dict.get?_insert_of_ne _ hid, hget], hkey⟩
      · rw [List.mem_singleton.mp hq]
        exact ⟨readId, evidence, evidence, hread, Dict.get?_insert_self _ _ _, rfl⟩

theorem rfTable_empty : RfTable [] Dict.empty :=
  ⟨fun _ _ h => by simp at h, fun _ h => by simp at h⟩

theorem rfTable_of_rfHints {trace : Trace} {spec : GraphModelSpec} {hints : Dict String RfEvidence}
    (h : rfHints trace spec = .ok hints) :
    RfTable (hintEvents RfHintSpec.eventType spec.projection.rfHints trace) hints :=
  foldlM_invariant RfTable (fun _ _ _ _ hinv hstep => hinv.step hstep) rfTable_empty h

theorem rfHinted_of_get? {trace : Trace} {spec : GraphModelSpec} {hints : Dict String RfEvidence}
    (h : rfHints trace spec = .ok hints) {readId : String} {e : RfEvidence}
    (hget : hints.get? readId = some e) : RfHinted trace spec readId e :=
  (rfTable_of_rfHints h).sound readId e hget

theorem get?_of_rfHinted {trace : Trace} {spec : GraphModelSpec} {hints : Dict String RfEvidence}
    (h : rfHints trace spec = .ok hints) {readId : String} {e : RfEvidence}
    (he : RfHinted trace spec readId e) :
    ∃ e', hints.get? readId = some e' ∧ e'.semanticKey = e.semanticKey := by
  obtain ⟨p, hp, hconcrete, hread⟩ := he
  obtain ⟨readId', e₁, e', hread', hget, hkey⟩ := (rfTable_of_rfHints h).complete p hp hconcrete
  rw [hread] at hread'
  cases hread'
  exact ⟨e', hget, hkey⟩

/-- Events of a trace whose events were all read before. -/
theorem concrete_of_mem_hintEvents {Spec : Type} {eventType : Spec → String} {specs : List Spec}
    {trace : Trace} (hconcrete : ∀ event ∈ trace.events, ∃ b, concreteEvent event = .ok b)
    {p : Spec × EventInstance} (hp : p ∈ hintEvents eventType specs trace) :
    concreteEvent p.2 = .ok true ∨ concreteEvent p.2 = .ok false := by
  obtain ⟨spec, -, hp⟩ := List.mem_flatMap.mp hp
  obtain ⟨event, hevent, rfl⟩ := List.mem_map.mp hp
  obtain ⟨b, hb⟩ := hconcrete event (List.mem_filter.mp hevent).1
  cases b
  · exact Or.inr hb
  · exact Or.inl hb

/-- The table of reads-from hints is returned exactly when every hint event can
be read and the hints of each read agree. -/
theorem rfHints_isOk_iff {trace : Trace} {spec : GraphModelSpec}
    (hconcrete : ∀ event ∈ trace.events, ∃ b, concreteEvent event = .ok b) :
    (∃ hints, rfHints trace spec = .ok hints) ↔
      (∀ p ∈ hintEvents RfHintSpec.eventType spec.projection.rfHints trace,
        concreteEvent p.2 = .ok true → ∃ r, readRfEvidence p.1 p.2 = .ok r) ∧
      RfHintsAgree trace spec := by
  constructor
  · rintro ⟨hints, h⟩
    constructor
    · intro p hp htrue
      obtain ⟨readId, e, -, hread, -⟩ := (rfTable_of_rfHints h).complete p hp htrue
      exact ⟨_, hread⟩
    · intro readId e e' he he'
      obtain ⟨e₁, hget, hkey⟩ := get?_of_rfHinted h he
      obtain ⟨e₂, hget', hkey'⟩ := get?_of_rfHinted h he'
      rw [hget] at hget'
      cases hget'
      exact hkey.symm.trans hkey'
  · rintro ⟨hreadable, hagree⟩
    refine exists_foldlM (fun rest hints =>
      (∀ p ∈ rest, p ∈ hintEvents RfHintSpec.eventType spec.projection.rfHints trace) ∧
      ∀ readId e, hints.get? readId = some e → RfHinted trace spec readId e) ?_
      ⟨fun _ hp => hp, fun _ _ h => by simp at h⟩
    rintro p rest hints ⟨hsub, hhinted⟩
    have hp := hsub p List.mem_cons_self
    have hrest : ∀ q ∈ rest, q ∈ hintEvents RfHintSpec.eventType spec.projection.rfHints trace :=
      fun q hq => hsub q (List.mem_cons_of_mem _ hq)
    rcases concrete_of_mem_hintEvents hconcrete hp with htrue | hfalse
    · obtain ⟨⟨readId, e⟩, hread⟩ := hreadable p hp htrue
      have he : RfHinted trace spec readId e := ⟨p, hp, htrue, hread⟩
      refine ⟨hints.insert readId e, addRfHint_eq_ok.mpr (Or.inr ⟨htrue, readId, e, hread, ?_, rfl⟩),
        hrest, ?_⟩
      · intro previous hget
        exact hagree readId previous e (hhinted readId previous hget) he
      · intro readId' e' hget
        rw [Dict.get?_insert] at hget
        split at hget
        · subst_vars
          cases hget
          exact he
        · exact hhinted readId' e' hget
    · exact ⟨hints, addRfHint_eq_ok.mpr (Or.inl ⟨hfalse, rfl⟩), hrest, hhinted⟩

/-! ## Coherence hints -/

theorem addCoHint_raises (hints : List CoEvidence) (p : CoHintSpec × EventInstance) :
    GraphRaises (addCoHint hints p) := by
  refine (concreteEvent_raises _).bind (fun concrete _ => ?_)
  cases concrete
  · exact raises_ok _
  · refine (readCoEvidence_raises _ _).bind (fun e _ => ?_)
    split <;> exact raises_ok _

theorem coHints_raises (trace : Trace) (spec : GraphModelSpec) : GraphRaises (coHints trace spec) :=
  Raises.bind (Raises.foldlM (fun hints p _ => addCoHint_raises hints p)) (fun _ _ => raises_ok _)

theorem addCoHint_eq_ok {hints hints' : List CoEvidence} {p : CoHintSpec × EventInstance} :
    addCoHint hints p = .ok hints' ↔
      (concreteEvent p.2 = .ok false ∧ hints' = hints) ∨
      (concreteEvent p.2 = .ok true ∧ ∃ evidence, readCoEvidence p.1 p.2 = .ok evidence ∧
        hints' = if hints.any (fun e => e.semanticKey = evidence.semanticKey) then hints
          else hints ++ [evidence]) := by
  rw [addCoHint, bind_eq_ok]
  constructor
  · rintro ⟨concrete, hconcrete, h⟩
    cases concrete
    · cases h
      exact Or.inl ⟨hconcrete, rfl⟩
    · obtain ⟨evidence, hread, h⟩ := bind_eq_ok.mp h
      refine Or.inr ⟨hconcrete, evidence, hread, ?_⟩
      split at h
      · rename_i hany
        cases h
        rw [if_pos hany]
      · rename_i hany
        cases h
        rw [if_neg hany]
  · rintro (⟨hconcrete, rfl⟩ | ⟨hconcrete, evidence, hread, rfl⟩)
    · exact ⟨false, hconcrete, rfl⟩
    · refine ⟨true, hconcrete, ?_⟩
      rw [if_pos rfl, hread, ok_bind]
      split <;> rfl

/-- The list holds evidence of the events read so far, and of each of them up
to its semantic key. -/
structure CoTable (seen : List (CoHintSpec × EventInstance)) (hints : List CoEvidence) : Prop where
  sound : ∀ e ∈ hints,
    ∃ p ∈ seen, concreteEvent p.2 = .ok true ∧ readCoEvidence p.1 p.2 = .ok e
  complete : ∀ p ∈ seen, concreteEvent p.2 = .ok true → ∃ e, readCoEvidence p.1 p.2 = .ok e ∧
    ∃ e' ∈ hints, e'.semanticKey = e.semanticKey

theorem CoTable.step {seen : List (CoHintSpec × EventInstance)} {hints hints' : List CoEvidence}
    {p : CoHintSpec × EventInstance} (h : CoTable seen hints) (hstep : addCoHint hints p = .ok hints') :
    CoTable (seen ++ [p]) hints' := by
  rcases addCoHint_eq_ok.mp hstep with ⟨hfalse, rfl⟩ | ⟨htrue, evidence, hread, rfl⟩
  · refine ⟨fun e he => ?_, fun q hq hconcrete => ?_⟩
    · obtain ⟨q, hq, hq'⟩ := h.sound e he
      exact ⟨q, List.mem_append_left _ hq, hq'⟩
    · rcases List.mem_append.mp hq with hq | hq
      · exact h.complete q hq hconcrete
      · rw [List.mem_singleton.mp hq, hfalse] at hconcrete
        cases hconcrete
  · have hkept : ∀ e ∈ hints, e ∈ (if hints.any (fun e => e.semanticKey = evidence.semanticKey) then
        hints else hints ++ [evidence]) := by
      intro e he
      split
      · exact he
      · exact List.mem_append_left _ he
    refine ⟨fun e he => ?_, fun q hq hconcrete => ?_⟩
    · have hcases : e ∈ hints ∨ e = evidence := by
        split at he
        · exact Or.inl he
        · simpa using he
      rcases hcases with he | rfl
      · obtain ⟨q, hq, hq'⟩ := h.sound e he
        exact ⟨q, List.mem_append_left _ hq, hq'⟩
      · exact ⟨p, List.mem_append_right _ List.mem_cons_self, htrue, hread⟩
    · rcases List.mem_append.mp hq with hq | hq
      · obtain ⟨e, hread', e', he', hkey⟩ := h.complete q hq hconcrete
        exact ⟨e, hread', e', hkept e' he', hkey⟩
      · rw [List.mem_singleton.mp hq]
        refine ⟨evidence, hread, ?_⟩
        split
        · rename_i hany
          obtain ⟨e', he', hkey⟩ := List.any_eq_true.mp hany
          exact ⟨e', he', by simpa using hkey⟩
        · exact ⟨evidence, List.mem_append_right _ List.mem_cons_self, rfl⟩

theorem coTable_of_coHints {trace : Trace} {spec : GraphModelSpec} {hints : List CoEvidence}
    (h : coHints trace spec = .ok hints) :
    CoTable (hintEvents CoHintSpec.eventType spec.projection.coHints trace) hints := by
  obtain ⟨collected, hcollected, h⟩ := bind_eq_ok.mp h
  cases h
  have htable := foldlM_invariant CoTable (fun _ _ _ _ hinv hstep => hinv.step hstep)
    ⟨fun _ h => by simp at h, fun _ h => by simp at h⟩ hcollected
  refine ⟨fun e he => htable.sound e ((List.mem_insertionSort _).mp he), fun p hp htrue => ?_⟩
  obtain ⟨e, hread, e', he', hkey⟩ := htable.complete p hp htrue
  exact ⟨e, hread, e', (List.mem_insertionSort _).mpr he', hkey⟩

theorem coHinted_of_mem {trace : Trace} {spec : GraphModelSpec} {hints : List CoEvidence}
    (h : coHints trace spec = .ok hints) {e : CoEvidence} (he : e ∈ hints) :
    CoHinted trace spec e :=
  (coTable_of_coHints h).sound e he

theorem mem_of_coHinted {trace : Trace} {spec : GraphModelSpec} {hints : List CoEvidence}
    (h : coHints trace spec = .ok hints) {e : CoEvidence} (he : CoHinted trace spec e) :
    ∃ e' ∈ hints, e'.semanticKey = e.semanticKey := by
  obtain ⟨p, hp, hconcrete, hread⟩ := he
  obtain ⟨e₁, hread', e', he', hkey⟩ := (coTable_of_coHints h).complete p hp hconcrete
  rw [hread] at hread'
  cases hread'
  exact ⟨e', he', hkey⟩

/-- The coherence hints are returned exactly when every hint event can be read. -/
theorem coHints_isOk_iff {trace : Trace} {spec : GraphModelSpec}
    (hconcrete : ∀ event ∈ trace.events, ∃ b, concreteEvent event = .ok b) :
    (∃ hints, coHints trace spec = .ok hints) ↔
      ∀ p ∈ hintEvents CoHintSpec.eventType spec.projection.coHints trace,
        concreteEvent p.2 = .ok true → ∃ r, readCoEvidence p.1 p.2 = .ok r := by
  constructor
  · rintro ⟨hints, h⟩ p hp htrue
    obtain ⟨e, hread, -⟩ := (coTable_of_coHints h).complete p hp htrue
    exact ⟨e, hread⟩
  · intro hreadable
    obtain ⟨collected, h⟩ := exists_foldlM (f := addCoHint) (fun rest (_ : List CoEvidence) =>
      ∀ p ∈ rest, p ∈ hintEvents CoHintSpec.eventType spec.projection.coHints trace) (by
        intro p rest hints hsub
        have hp := hsub p List.mem_cons_self
        have hrest := fun q hq => hsub q (List.mem_cons_of_mem _ hq)
        rcases concrete_of_mem_hintEvents hconcrete hp with htrue | hfalse
        · obtain ⟨e, hread⟩ := hreadable p hp htrue
          exact ⟨_, addCoHint_eq_ok.mpr (Or.inr ⟨htrue, e, hread, rfl⟩), hrest⟩
        · exact ⟨hints, addCoHint_eq_ok.mpr (Or.inl ⟨hfalse, rfl⟩), hrest⟩)
      (fun p hp => hp)
    exact ⟨_, bind_eq_ok.mpr ⟨collected, h, rfl⟩⟩

/-! ## Relation hints -/

theorem addRelationHint_raises (operations : List MemoryOperation) (edges : List (String × Edge))
    (p : RelationHintSpec × EventInstance) : GraphRaises (addRelationHint operations edges p) := by
  refine (concreteEvent_raises _).bind (fun concrete _ => ?_)
  cases concrete
  · exact raises_ok _
  · refine (field_raises _ _).bind (fun _ _ => (field_raises _ _).bind (fun _ _ => ?_))
    refine Raises.bind ?_ (fun _ _ => raises_ok _)
    exact raises_require rfl

theorem relationHints_raises (trace : Trace) (spec : GraphModelSpec)
    (operations : List MemoryOperation) : GraphRaises (relationHints trace spec operations) :=
  Raises.bind (Raises.foldlM (fun edges p _ => addRelationHint_raises operations edges p))
    (fun _ _ => raises_ok _)

theorem addRelationHint_isOk_iff {operations : List MemoryOperation} {edges : List (String × Edge)}
    {p : RelationHintSpec × EventInstance} (htrue : concreteEvent p.2 = .ok true) :
    (∃ edges', addRelationHint operations edges p = .ok edges') ↔
      ∃ source ∈ operations.map MemoryOperation.id, ∃ target ∈ operations.map MemoryOperation.id,
        readRelationEvidence p.1 p.2 = .ok (source, target) := by
  rw [addRelationHint, htrue, ok_bind, if_pos rfl]
  constructor
  · rintro ⟨edges', h⟩
    obtain ⟨s, hs, h⟩ := bind_eq_ok.mp h
    obtain ⟨t, ht, h⟩ := bind_eq_ok.mp h
    obtain ⟨_, hknown, h⟩ := bind_eq_ok.mp h
    obtain ⟨hs', ht'⟩ := require_eq_ok.mp hknown
    exact ⟨s.pyStr, hs', t.pyStr, ht', by rw [readRelationEvidence, hs, ok_bind, ht]; rfl⟩
  · rintro ⟨source, hs', target, ht', h⟩
    obtain ⟨s, hs, h⟩ := bind_eq_ok.mp h
    obtain ⟨t, ht, h⟩ := bind_eq_ok.mp h
    cases h
    exact ⟨_, bind_eq_ok.mpr ⟨s, hs, bind_eq_ok.mpr ⟨t, ht, bind_eq_ok.mpr
      ⟨(), require_eq_ok.mpr ⟨hs', ht'⟩, rfl⟩⟩⟩⟩

/-- The relation hints are returned exactly when all of them are known. -/
theorem relationHints_isOk_iff {trace : Trace} {spec : GraphModelSpec}
    {operations : List MemoryOperation}
    (hconcrete : ∀ event ∈ trace.events, ∃ b, concreteEvent event = .ok b) :
    (∃ hints, relationHints trace spec operations = .ok hints) ↔
      RelationHintsKnown trace spec operations := by
  constructor
  · rintro ⟨hints, h⟩ p hp htrue
    obtain ⟨edges, hedges, -⟩ := bind_eq_ok.mp h
    have hstep := foldlM_invariant (f := addRelationHint operations)
      (fun seen _ => ∀ q ∈ seen, concreteEvent q.2 = .ok true →
        ∃ source ∈ operations.map MemoryOperation.id, ∃ target ∈ operations.map MemoryOperation.id,
          readRelationEvidence q.1 q.2 = .ok (source, target)) (by
        intro seen q edges edges' hinv hq r hr htrue
        rcases List.mem_append.mp hr with hr | hr
        · exact hinv r hr htrue
        · rw [List.mem_singleton.mp hr] at htrue ⊢
          exact (addRelationHint_isOk_iff htrue).mp ⟨edges', hq⟩) (fun q hq => by simp at hq) hedges
    exact hstep p hp htrue
  · intro hknown
    obtain ⟨edges, h⟩ := exists_foldlM (f := addRelationHint operations)
      (fun rest (_ : List (String × Edge)) =>
        ∀ p ∈ rest, p ∈ hintEvents RelationHintSpec.eventType spec.projection.relationHints trace) (by
        intro p rest edges hsub
        have hp := hsub p List.mem_cons_self
        have hrest := fun q hq => hsub q (List.mem_cons_of_mem _ hq)
        rcases concrete_of_mem_hintEvents hconcrete hp with htrue | hfalse
        · obtain ⟨edges', hedges'⟩ := (addRelationHint_isOk_iff htrue).mpr (hknown p hp htrue)
          exact ⟨edges', hedges', hrest⟩
        · refine ⟨edges, ?_, hrest⟩
          rw [addRelationHint, hfalse]
          rfl) (fun p hp => hp)
    exact ⟨_, bind_eq_ok.mpr ⟨edges, h, rfl⟩⟩

end Umcm
