import Umcm.Graph.EnumerationExact

/-!
# Traces with the same named events

A graph model names event types in its projection and in its hints. Two traces
whose events of those types are the same up to their order project to the same
operations and give the same hints.

* `projectOperations_rearranged`: the operations are the same up to their order.
* `rfHinted_iff`, `coHinted_iff`: the evidence is the same.
* `relationHints_rearranged`: the hinted relations are equal.
-/

namespace Umcm

open FinOrder Except

/-! ## Named events -/

/-- The types of the events that are projected to operations. -/
def ProjectionSpec.projects (projection : ProjectionSpec) (eventType : String) : Bool :=
  eventType = projection.initWriteEvent || eventType = projection.loadEvent ||
    eventType = projection.storeEvent || eventType = projection.loadCommitEvent ||
    projection.amoEvent = some eventType || projection.lrEvent = some eventType ||
    projection.scEvent = some eventType

/-- The types of the events that a graph model looks at. -/
def GraphModelSpec.names (spec : GraphModelSpec) (eventType : String) : Bool :=
  spec.projection.projects eventType ||
    spec.projection.rfHints.any (fun hint => hint.eventType = eventType) ||
    spec.projection.coHints.any (fun hint => hint.eventType = eventType) ||
    spec.projection.relationHints.any (fun hint => hint.eventType = eventType)

/-- Every event that occurs has concrete fields. -/
def ConcreteTrace (trace : Trace) : Prop :=
  ∀ event ∈ trace.events, ∃ b, concreteEvent event = .ok b

instance (trace : Trace) : Decidable (ConcreteTrace trace) :=
  decidable_of_iff (∀ event ∈ trace.events, (concreteEvent event).isOk = true) (by
    refine forall₂_congr (fun event _ => ?_)
    cases concreteEvent event with
    | error e => simp [Except.isOk, Except.toBool]
    | ok b => simp [Except.isOk, Except.toBool])

/-- Both traces are concrete and have the same named events, in some order. -/
structure Rearranged (spec : GraphModelSpec) (trace trace' : Trace) : Prop where
  concrete : ConcreteTrace trace
  concrete' : ConcreteTrace trace'
  named : (trace.events.filter (fun event => spec.names event.eventType)).Perm
    (trace'.events.filter (fun event => spec.names event.eventType))

section Rearranged

variable {spec : GraphModelSpec} {trace trace' : Trace}

theorem Rearranged.symm (h : Rearranged spec trace trace') : Rearranged spec trace' trace :=
  ⟨h.concrete', h.concrete, h.named.symm⟩

theorem Rearranged.mem_iff (h : Rearranged spec trace trace') {event : EventInstance}
    (hnamed : spec.names event.eventType = true) :
    event ∈ trace.events ↔ event ∈ trace'.events := by
  have hmem := h.named.mem_iff (a := event)
  rwa [List.mem_filter, List.mem_filter, and_iff_left hnamed, and_iff_left hnamed] at hmem

end Rearranged

/-! ## The concrete events -/

/-- Whether an event occurs with concrete fields. -/
def occursConcretely (event : EventInstance) : Bool :=
  match concreteEvent event with
  | .ok b => b
  | .error _ => false

theorem concreteEvents_eq_ok {events : List EventInstance}
    (h : ∀ event ∈ events, ∃ b, concreteEvent event = .ok b) :
    concreteEvents events = .ok (events.filter occursConcretely) := by
  induction events with
  | nil => rfl
  | cons event rest ih =>
      obtain ⟨⟨b, hb⟩, hrest⟩ := List.forall_mem_cons.mp h
      have hoccurs : occursConcretely event = b := by
        rw [occursConcretely, hb]
      rw [concreteEvents, hb, ok_bind, ih hrest, ok_bind, List.filter_cons, hoccurs]
      rfl

/-- The events that the projection reads. -/
def namedEvents (spec : GraphModelSpec) (trace : Trace) : List EventInstance :=
  (trace.events.filter occursConcretely).filter (fun event => spec.names event.eventType)

theorem namedEvents_perm {spec : GraphModelSpec} {trace trace' : Trace}
    (h : Rearranged spec trace trace') : (namedEvents spec trace).Perm (namedEvents spec trace') := by
  have hperm := h.named.filter occursConcretely
  rwa [List.filter_comm, List.filter_comm (l := trace'.events)] at hperm

theorem names_of_projects {spec : GraphModelSpec} {eventType : String}
    (h : spec.projection.projects eventType = true) : spec.names eventType = true := by
  simp [GraphModelSpec.names, h]

/-! ## The load commits -/

section Commits

variable {projection : ProjectionSpec}

/-- The operation a load commit belongs to. -/
def commitId (projection : ProjectionSpec) (event : EventInstance) : Except PyError String := do
  return (← field event projection.idField).pyStr

def commitEvents (projection : ProjectionSpec) (events : List EventInstance) : List EventInstance :=
  events.filter (fun event => event.eventType = projection.loadCommitEvent)

/-- One step of the collection. -/
def addCommit (projection : ProjectionSpec) (commits : Dict String EventInstance)
    (event : EventInstance) : Except PyError (Dict String EventInstance) := do
  let opId := (← field event projection.idField).pyStr
  Except.require (commits.get? opId).isNone
    (.graphError s!"multiple load commits for operation {quoted opId}")
  return commits.insert opId event

theorem addCommit_eq_ok {commits commits' : Dict String EventInstance} {event : EventInstance} :
    addCommit projection commits event = .ok commits' ↔ ∃ opId,
      commitId projection event = .ok opId ∧ commits.get? opId = none ∧
        commits' = commits.insert opId event := by
  simp only [addCommit, commitId, bind_eq_ok, require_eq_ok, Option.isNone_iff_eq_none]
  constructor
  · rintro ⟨v, hv, _, hfresh, h⟩
    cases h
    exact ⟨v.pyStr, ⟨v, hv, rfl⟩, hfresh, rfl⟩
  · rintro ⟨opId, ⟨v, hv, h⟩, hfresh, rfl⟩
    cases h
    exact ⟨v, hv, (), hfresh, rfl⟩

/-- The table collects the events read so far under their ids. -/
structure CommitTable (projection : ProjectionSpec) (seen : List EventInstance)
    (commits : Dict String EventInstance) : Prop where
  ids : ∃ ids, seen.mapM (commitId projection) = .ok ids ∧ ids.Nodup
  get : ∀ opId event, commits.get? opId = some event ↔
    event ∈ seen ∧ commitId projection event = .ok opId

theorem CommitTable.step {seen : List EventInstance} {commits commits' : Dict String EventInstance}
    {event : EventInstance} (h : CommitTable projection seen commits)
    (hstep : addCommit projection commits event = .ok commits') :
    CommitTable projection (seen ++ [event]) commits' := by
  obtain ⟨opId, hid, hfresh, rfl⟩ := addCommit_eq_ok.mp hstep
  obtain ⟨ids, hids, hnd⟩ := h.ids
  have hnew : opId ∉ ids := by
    intro hmem
    obtain ⟨e, he, heid⟩ := mapM_origin hids hmem
    rw [(h.get opId e).mpr ⟨he, heid⟩] at hfresh
    cases hfresh
  refine ⟨⟨ids ++ [opId], mapM_concat hids hid, ?_⟩, fun opId' e => ?_⟩
  · rw [List.nodup_append]
    refine ⟨hnd, List.nodup_singleton _, ?_⟩
    rintro x hx y hy rfl
    exact hnew (List.mem_singleton.mp hy ▸ hx)
  · rw [Dict.get?_insert, List.mem_append, List.mem_singleton]
    split
    · rename_i heq
      subst heq
      rw [Option.some.injEq]
      constructor
      · rintro rfl
        exact ⟨Or.inr rfl, hid⟩
      · rintro ⟨he | rfl, heid⟩
        · rw [(h.get opId' e).mpr ⟨he, heid⟩] at hfresh
          cases hfresh
        · rfl
    · rename_i hne
      rw [h.get]
      constructor
      · rintro ⟨he, heid⟩
        exact ⟨Or.inl he, heid⟩
      · rintro ⟨he | rfl, heid⟩
        · exact ⟨he, heid⟩
        · rw [hid] at heid
          cases heid
          exact absurd rfl hne

theorem commitTable_of_loadCommits {events : List EventInstance}
    {commits : Dict String EventInstance} (h : loadCommits projection events = .ok commits) :
    CommitTable projection (commitEvents projection events) commits := by
  refine foldlM_invariant (f := addCommit projection) (CommitTable projection)
    (fun _ _ _ _ hinv hstep => hinv.step hstep) ⟨⟨[], rfl, List.nodup_nil⟩, fun _ _ => ?_⟩ h
  simp

/-- Load commits are collected when each of them belongs to an operation of its own. -/
theorem exists_loadCommits {events : List EventInstance} {ids : List String}
    (hids : (commitEvents projection events).mapM (commitId projection) = .ok ids)
    (hnd : ids.Nodup) : ∃ commits, loadCommits projection events = .ok commits := by
  refine exists_foldlM (f := addCommit projection) (fun rest commits =>
    ∃ ids, rest.mapM (commitId projection) = .ok ids ∧ ids.Nodup ∧
      ∀ opId ∈ ids, commits.get? opId = none) ?_ ⟨ids, hids, hnd, fun _ _ => rfl⟩
  rintro event rest commits ⟨ids, hids, hnd, hfresh⟩
  rw [List.mapM_cons] at hids
  obtain ⟨opId, hid, hids⟩ := bind_eq_ok.mp hids
  obtain ⟨rest', hrest, hcons⟩ := bind_eq_ok.mp hids
  cases hcons
  rw [List.nodup_cons] at hnd
  refine ⟨_, addCommit_eq_ok.mpr ⟨opId, hid, hfresh opId List.mem_cons_self, rfl⟩,
    rest', hrest, hnd.2, fun x hx => ?_⟩
  have hne : x ≠ opId := by
    rintro rfl
    exact hnd.1 hx
  rw [Dict.get?_insert_of_ne _ hne]
  exact hfresh x (List.mem_cons_of_mem _ hx)

/-- The table does not depend on the order of the events. -/
theorem loadCommits_perm {events events' : List EventInstance}
    (hperm : (commitEvents projection events).Perm (commitEvents projection events'))
    {commits : Dict String EventInstance} (h : loadCommits projection events = .ok commits) :
    ∃ commits', loadCommits projection events' = .ok commits' ∧
      ∀ opId, commits'.get? opId = commits.get? opId := by
  have htable := commitTable_of_loadCommits h
  obtain ⟨ids, hids, hnd⟩ := htable.ids
  obtain ⟨ids', hids', hidsPerm⟩ := mapM_perm hperm hids
  obtain ⟨commits', h'⟩ := exists_loadCommits hids' (hidsPerm.nodup_iff.mp hnd)
  have htable' := commitTable_of_loadCommits h'
  refine ⟨commits', h', fun opId => Option.ext (fun event => ?_)⟩
  rw [htable'.get, htable.get, hperm.mem_iff]

end Commits

/-! ## The operations -/

section Projection

variable {projection : ProjectionSpec} {commits commits' : Dict String EventInstance}

theorem Operations.add_eq_ok {operations operations' : Operations} {operation : MemoryOperation} :
    operations.add operation = .ok operations' ↔
      operation.id ∉ operations.list.map MemoryOperation.id ∧
        operations'.list = operations.list ++ [operation] := by
  unfold Operations.add
  split
  · rename_i hmem
    simp [hmem]
  · rename_i hmem
    constructor
    · intro h
      cases h
      exact ⟨hmem, rfl⟩
    · rintro ⟨-, hlist⟩
      cases operations'
      cases hlist
      rfl

/-- The operations are those of the single events, in their order. -/
theorem projectEvents_eq_ok {operations operations' : Operations} {events : List EventInstance} :
    projectEvents projection commits operations events = .ok operations' ↔
      ∃ options, events.mapM (projectEvent projection commits) = .ok options ∧
        operations'.list = operations.list ++ options.reduceOption := by
  induction events generalizing operations with
  | nil =>
      simp only [projectEvents, List.mapM_nil]
      constructor
      · intro h
        cases h
        exact ⟨[], rfl, by simp⟩
      · rintro ⟨options, h, hlist⟩
        cases h
        cases operations
        cases operations'
        simp only [List.reduceOption_nil, List.append_nil] at hlist
        cases hlist
        rfl
  | cons event rest ih =>
      rw [projectEvents, List.mapM_cons, bind_eq_ok]
      constructor
      · rintro ⟨option, hevent, h⟩
        cases option with
        | none =>
            obtain ⟨options, hrest, hlist⟩ := ih.mp h
            refine ⟨none :: options, by rw [hevent, ok_bind, hrest]; rfl, ?_⟩
            rw [List.reduceOption_cons_of_none, hlist]
        | some operation =>
            obtain ⟨operations₁, hadd, h⟩ := bind_eq_ok.mp h
            obtain ⟨options, hrest, hlist⟩ := ih.mp h
            refine ⟨some operation :: options, by rw [hevent, ok_bind, hrest]; rfl, ?_⟩
            rw [List.reduceOption_cons_of_some, hlist, (Operations.add_eq_ok.mp hadd).2]
            simp
      · rintro ⟨options, h, hlist⟩
        obtain ⟨option, hevent, h⟩ := bind_eq_ok.mp h
        obtain ⟨tail, hrest, hcons⟩ := bind_eq_ok.mp h
        cases hcons
        refine ⟨option, hevent, ?_⟩
        cases option with
        | none =>
            rw [List.reduceOption_cons_of_none] at hlist
            exact ih.mpr ⟨tail, hrest, hlist⟩
        | some operation =>
            rw [List.reduceOption_cons_of_some] at hlist
            have hfresh : operation.id ∉ operations.list.map MemoryOperation.id := by
              have hnd := operations'.nodup
              rw [hlist, List.map_append, List.map_cons] at hnd
              exact fun hmem => (List.nodup_append.mp hnd).2.2 _ hmem _ List.mem_cons_self rfl
            have hadd : ∃ operations₁, operations.add operation = .ok operations₁ := by
              unfold Operations.add
              rw [dif_neg hfresh]
              exact ⟨_, rfl⟩
            obtain ⟨operations₁, hadd⟩ := hadd
            refine bind_eq_ok.mpr ⟨operations₁, hadd, ih.mpr ⟨tail, hrest, ?_⟩⟩
            rw [hlist, (Operations.add_eq_ok.mp hadd).2]
            simp

theorem commitOf_congr (h : ∀ opId, commits'.get? opId = commits.get? opId) (what opId : String) :
    commitOf projection commits' what opId = commitOf projection commits what opId := by
  unfold commitOf
  rw [h opId]

theorem projectEvent_congr (h : ∀ opId, commits'.get? opId = commits.get? opId)
    (event : EventInstance) :
    projectEvent projection commits' event = projectEvent projection commits event := by
  have hamo : projectAmo projection commits' event = projectAmo projection commits event := by
    simp only [projectAmo, commitOf_congr h]
  have hload : projectLoad projection commits' event = projectLoad projection commits event := by
    simp only [projectLoad, commitOf_congr h]
  rw [projectEvent, projectEvent, hamo, hload]

/-- Events of other types project to nothing. -/
theorem projectEvent_of_not_projects {event : EventInstance}
    (h : projection.projects event.eventType = false) :
    projectEvent projection commits event = .ok none := by
  simp only [ProjectionSpec.projects, Bool.or_eq_false_iff, decide_eq_false_iff_not] at h
  obtain ⟨⟨⟨⟨⟨⟨hinit, hload⟩, hstore⟩, -⟩, hamo⟩, hlr⟩, hsc⟩ := h
  rw [projectEvent, if_neg hinit, if_neg hamo, if_neg (not_or.mpr ⟨hstore, hsc⟩),
    if_neg (not_or.mpr ⟨hload, hlr⟩)]

/-- The operations of the named events. -/
theorem projectOperations_eq_ok {spec : GraphModelSpec} {trace : Trace} {operations : Operations}
    (hconcrete : ConcreteTrace trace) :
    projectOperations trace spec.projection = .ok operations ↔ ∃ commits,
      loadCommits spec.projection (trace.events.filter occursConcretely) = .ok commits ∧
      (∃ options, (namedEvents spec trace).mapM (projectEvent spec.projection commits) = .ok options ∧
        options.reduceOption = operations.list) ∧ operations.list ≠ [] := by
  have hnone : ∀ commits, ∀ event ∈ trace.events.filter occursConcretely,
      spec.names event.eventType = false →
      projectEvent spec.projection commits event = .ok none := by
    intro commits event _ hnot
    apply projectEvent_of_not_projects
    rw [← Bool.not_eq_true]
    intro hprojects
    rw [names_of_projects hprojects] at hnot
    cases hnot
  simp only [projectOperations, bind_eq_ok, concreteEvents_eq_ok hconcrete, projectEvents_eq_ok,
    require_eq_ok, ok.injEq, exists_eq_left', List.nil_append]
  simp only [namedEvents, ← mapM_reduceOption_filter (hnone _)]
  constructor
  · rintro ⟨commits, hcommits, operations', ⟨options, hoptions, hlist⟩, _, hne, h⟩
    cases h
    exact ⟨commits, hcommits, ⟨options, hoptions, hlist.symm⟩, hne⟩
  · rintro ⟨commits, hcommits, ⟨options, hoptions, hlist⟩, hne⟩
    exact ⟨commits, hcommits, operations, ⟨options, hoptions, hlist.symm⟩, (), hne, rfl⟩

theorem commitEvents_filter (spec : GraphModelSpec) (events : List EventInstance) :
    commitEvents spec.projection (events.filter (fun event => spec.names event.eventType)) =
      commitEvents spec.projection events := by
  rw [commitEvents, commitEvents, List.filter_filter]
  refine List.filter_congr (fun event _ => ?_)
  by_cases htype : event.eventType = spec.projection.loadCommitEvent
  · have hnamed : spec.names event.eventType = true :=
      names_of_projects (by simp [ProjectionSpec.projects, htype])
    rw [hnamed, Bool.and_true]
  · rw [decide_eq_false htype, Bool.false_and]

/-- The named events project to the same operations, whatever their order. -/
theorem projectOperations_rearranged {spec : GraphModelSpec} {trace trace' : Trace}
    (hre : Rearranged spec trace trace') {operations : Operations}
    (h : projectOperations trace spec.projection = .ok operations) :
    ∃ operations', projectOperations trace' spec.projection = .ok operations' ∧
      operations.list.Perm operations'.list := by
  obtain ⟨commits, hcommits, ⟨options, hoptions, hlist⟩, hne⟩ :=
    (projectOperations_eq_ok hre.concrete).mp h
  have hperm := namedEvents_perm hre
  have hcommitEvents : (commitEvents spec.projection (trace.events.filter occursConcretely)).Perm
      (commitEvents spec.projection (trace'.events.filter occursConcretely)) := by
    rw [← commitEvents_filter spec, ← commitEvents_filter spec (trace'.events.filter _)]
    exact hperm.filter _
  obtain ⟨commits', hcommits', hget⟩ := loadCommits_perm hcommitEvents hcommits
  obtain ⟨options', hoptions', hoptionsPerm⟩ := mapM_perm hperm hoptions
  have hlistPerm : operations.list.Perm options'.reduceOption := by
    rw [← hlist]
    exact hoptionsPerm.filterMap _
  have hnd : (options'.reduceOption.map MemoryOperation.id).Nodup :=
    (hlistPerm.map _).nodup_iff.mp operations.nodup
  refine ⟨⟨options'.reduceOption, hnd⟩, (projectOperations_eq_ok hre.concrete').mpr
    ⟨commits', hcommits', ⟨options', ?_, rfl⟩, ?_⟩, hlistPerm⟩
  · rw [← hoptions']
    exact mapM_congr (fun event _ => projectEvent_congr hget event)
  · intro hnil
    have hnil' : options'.reduceOption = [] := hnil
    rw [hnil'] at hlistPerm
    exact hne hlistPerm.eq_nil

end Projection

/-! ## The hints -/

section Hints

variable {spec : GraphModelSpec} {trace trace' : Trace}

theorem mem_hintEvents {Spec : Type} {eventType : Spec → String} {specs : List Spec}
    {p : Spec × EventInstance} : p ∈ hintEvents eventType specs trace ↔
      p.1 ∈ specs ∧ p.2 ∈ trace.events ∧ p.2.eventType = eventType p.1 := by
  simp only [hintEvents, Trace.eventsOfType, List.mem_flatMap, List.mem_map, List.mem_filter,
    decide_eq_true_eq]
  constructor
  · rintro ⟨hint, hhint, event, ⟨hevent, htype⟩, rfl⟩
    exact ⟨hhint, hevent, htype⟩
  · rintro ⟨hhint, hevent, htype⟩
    exact ⟨p.1, hhint, p.2, ⟨hevent, htype⟩, rfl⟩

/-- The hint events are named, so they are the same. -/
theorem Rearranged.mem_hintEvents_iff {Spec : Type} {eventType : Spec → String} {specs : List Spec}
    (hre : Rearranged spec trace trace')
    (hnames : ∀ hint ∈ specs, spec.names (eventType hint) = true) {p : Spec × EventInstance} :
    p ∈ hintEvents eventType specs trace ↔ p ∈ hintEvents eventType specs trace' := by
  rw [mem_hintEvents, mem_hintEvents]
  refine and_congr_right (fun hhint => and_congr_left (fun htype => ?_))
  exact hre.mem_iff (htype ▸ hnames p.1 hhint)

theorem names_rfHint : ∀ hint ∈ spec.projection.rfHints, spec.names hint.eventType = true := by
  intro hint hhint
  simp only [GraphModelSpec.names, Bool.or_eq_true, List.any_eq_true, decide_eq_true_eq]
  exact Or.inl (Or.inl (Or.inr ⟨hint, hhint, rfl⟩))

theorem names_coHint : ∀ hint ∈ spec.projection.coHints, spec.names hint.eventType = true := by
  intro hint hhint
  simp only [GraphModelSpec.names, Bool.or_eq_true, List.any_eq_true, decide_eq_true_eq]
  exact Or.inl (Or.inr ⟨hint, hhint, rfl⟩)

theorem names_relationHint :
    ∀ hint ∈ spec.projection.relationHints, spec.names hint.eventType = true := by
  intro hint hhint
  simp only [GraphModelSpec.names, Bool.or_eq_true, List.any_eq_true, decide_eq_true_eq]
  exact Or.inr ⟨hint, hhint, rfl⟩

theorem rfHinted_iff (hre : Rearranged spec trace trace') {readId : String} {e : RfEvidence} :
    RfHinted trace spec readId e ↔ RfHinted trace' spec readId e := by
  simp only [RfHinted, hre.mem_hintEvents_iff names_rfHint]

theorem coHinted_iff (hre : Rearranged spec trace trace') {e : CoEvidence} :
    CoHinted trace spec e ↔ CoHinted trace' spec e := by
  simp only [CoHinted, hre.mem_hintEvents_iff names_coHint]

/-- The reads-from hints are collected for both traces or for neither. -/
theorem rfHints_rearranged (hre : Rearranged spec trace trace') {hints : Dict String RfEvidence}
    (h : rfHints trace spec = .ok hints) : ∃ hints', rfHints trace' spec = .ok hints' := by
  obtain ⟨hreadable, hagree⟩ := (rfHints_isOk_iff hre.concrete).mp ⟨hints, h⟩
  refine (rfHints_isOk_iff hre.concrete').mpr ⟨fun p hp => ?_, fun readId e e' he he' => ?_⟩
  · exact hreadable p ((hre.mem_hintEvents_iff names_rfHint).mpr hp)
  · exact hagree readId e e' ((rfHinted_iff hre).mpr he) ((rfHinted_iff hre).mpr he')

/-- The hints say the same. -/
def SameHints (hints hints' : List CoEvidence) : Prop :=
  ∀ key, (∃ e ∈ hints, e.semanticKey = key) ↔ ∃ e ∈ hints', e.semanticKey = key

theorem SameHints.symm {hints hints' : List CoEvidence} (h : SameHints hints hints') :
    SameHints hints' hints := fun key => (h key).symm

theorem SameHints.exists_mem {hints hints' : List CoEvidence} (h : SameHints hints hints')
    {e : CoEvidence} (he : e ∈ hints) : ∃ e' ∈ hints', e'.semanticKey = e.semanticKey :=
  (h e.semanticKey).mp ⟨e, he, rfl⟩

/-- The coherence hints are collected for both traces or for neither, and say
the same. -/
theorem coHints_rearranged (hre : Rearranged spec trace trace') {hints : List CoEvidence}
    (h : coHints trace spec = .ok hints) :
    ∃ hints', coHints trace' spec = .ok hints' ∧ SameHints hints hints' := by
  have hreadable := (coHints_isOk_iff hre.concrete).mp ⟨hints, h⟩
  obtain ⟨hints', h'⟩ := (coHints_isOk_iff hre.concrete').mpr (fun p hp =>
    hreadable p ((hre.mem_hintEvents_iff names_coHint).mpr hp))
  refine ⟨hints', h', fun key => ⟨?_, ?_⟩⟩
  · rintro ⟨e, he, rfl⟩
    exact mem_of_coHinted h' ((coHinted_iff hre).mp (coHinted_of_mem h he))
  · rintro ⟨e, he, rfl⟩
    exact mem_of_coHinted h ((coHinted_iff hre).mpr (coHinted_of_mem h' he))

/-- The edges collected from the hint events read so far. -/
theorem mem_addRelationHints {operations : List MemoryOperation}
    {seen : List (RelationHintSpec × EventInstance)} {edges : List (String × Edge)}
    (h : seen.foldlM (addRelationHint operations) [] = .ok edges) (q : String × Edge) :
    q ∈ edges ↔ ∃ p ∈ seen, concreteEvent p.2 = .ok true ∧ p.1.name = q.1 ∧
      readRelationEvidence p.1 p.2 = .ok q.2 := by
  refine foldlM_invariant (f := addRelationHint operations) (fun seen edges => ∀ q, q ∈ edges ↔
    ∃ p ∈ seen, concreteEvent p.2 = .ok true ∧ p.1.name = q.1 ∧
      readRelationEvidence p.1 p.2 = .ok q.2) ?_ (by simp) h q
  intro seen p edges edges' hinv hstep q
  obtain ⟨concrete, hconcrete, hstep⟩ := bind_eq_ok.mp hstep
  cases concrete with
  | false =>
      cases hstep
      rw [hinv q]
      constructor
      · rintro ⟨p', hp', hp''⟩
        exact ⟨p', List.mem_append_left _ hp', hp''⟩
      · rintro ⟨p', hp', htrue, hread⟩
        rcases List.mem_append.mp hp' with hp' | hp'
        · exact ⟨p', hp', htrue, hread⟩
        · rw [List.mem_singleton.mp hp', hconcrete] at htrue
          cases htrue
  | true =>
      obtain ⟨s, hs, hstep⟩ := bind_eq_ok.mp hstep
      obtain ⟨t, ht, hstep⟩ := bind_eq_ok.mp hstep
      obtain ⟨_, -, hstep⟩ := bind_eq_ok.mp hstep
      cases hstep
      have hread : readRelationEvidence p.1 p.2 = .ok (s.pyStr, t.pyStr) := by
        rw [readRelationEvidence, hs, ok_bind, ht]
        rfl
      rw [List.mem_append, hinv q, List.mem_singleton]
      constructor
      · rintro (⟨p', hp', hp''⟩ | rfl)
        · exact ⟨p', List.mem_append_left _ hp', hp''⟩
        · exact ⟨p, List.mem_append_right _ List.mem_cons_self, hconcrete, rfl, hread⟩
      · rintro ⟨p', hp', htrue, hname, hread'⟩
        rcases List.mem_append.mp hp' with hp' | hp'
        · exact Or.inl ⟨p', hp', htrue, hname, hread'⟩
        · rw [List.mem_singleton.mp hp'] at hname hread'
          rw [hread, ok.injEq] at hread'
          exact Or.inr (Prod.ext hname.symm hread'.symm)

/-- The relation hints are the same relations. -/
theorem relationHints_rearranged (hre : Rearranged spec trace trace')
    {operations operations' : List MemoryOperation} (hperm : operations.Perm operations')
    {hints : List Relation} (h : relationHints trace spec operations = .ok hints) :
    relationHints trace' spec operations' = .ok hints := by
  have hknown := (relationHints_isOk_iff hre.concrete).mp ⟨hints, h⟩
  have hids : ∀ id, id ∈ operations.map MemoryOperation.id ↔
      id ∈ operations'.map MemoryOperation.id := fun id => (hperm.map _).mem_iff
  have hknown' : RelationHintsKnown trace' spec operations' := by
    intro p hp htrue
    obtain ⟨source, hs, target, ht, hread⟩ :=
      hknown p ((hre.mem_hintEvents_iff names_relationHint).mpr hp) htrue
    exact ⟨source, (hids source).mp hs, target, (hids target).mp ht, hread⟩
  obtain ⟨hints', h'⟩ := (relationHints_isOk_iff hre.concrete').mpr hknown'
  rw [h']
  obtain ⟨edges, hedges, h⟩ := bind_eq_ok.mp h
  obtain ⟨edges', hedges', h'⟩ := bind_eq_ok.mp h'
  cases h
  cases h'
  have hmem : ∀ q, q ∈ edges' ↔ q ∈ edges := by
    intro q
    simp only [mem_addRelationHints hedges q, mem_addRelationHints hedges' q,
      hre.mem_hintEvents_iff names_relationHint]
  refine congrArg _ (List.map_congr_left (fun name _ => ?_))
  rw [Relation.mk.injEq]
  refine ⟨rfl, ?_⟩
  ext e
  simp only [List.mem_toFinset, List.mem_map, List.mem_filter, hmem]

end Hints

end Umcm
