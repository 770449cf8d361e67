import Umcm.Hierarchy.Abstraction
import Umcm.Graph.Invariance

/-!
# Abstractions and the memory model

The candidate executions of a trace before and after an abstraction. An
abstraction is transparent for a graph model when every type that the model
names stays and no summary has such a type.

* `preserved_of_transparent`: transparent abstractions preserve the candidates
  and the verdict of every trace.
-/

namespace Umcm

open Except

/-! ## Signatures -/

/-- What the signature of a graph says of an operation. -/
structure OperationSignature where
  id : String
  kind : OperationKind
  address : Value
  value : Value
  hart : Option Int
  programIndex : Option Int
deriving DecidableEq

def MemoryOperation.signature (op : MemoryOperation) : OperationSignature :=
  ⟨op.id, op.kind, op.address, op.value, op.hart, op.programIndex⟩

structure GraphSignature where
  operations : List OperationSignature
  relations : List (String × List Edge)
deriving DecidableEq

/-- `_graph_signature`, before it is written as JSON. -/
def graphSignature (graph : ExecutionGraph) : GraphSignature where
  operations := (byId graph.operations).map MemoryOperation.signature
  relations := (graph.relations.entries.insertionSort (fun a b => a.1 ≤ b.1)).map
    (fun p => (p.1, sortedEdges p.2.edges))

structure MemoryModelPreservationCheck where
  preserved : Bool
  concrete : MemoryModelCheck
  abstracted : MemoryModelCheck
  concreteCandidateSignatures : List String
  abstractCandidateSignatures : List String
  reason : String

def MemoryModelStatus.text : MemoryModelStatus → String
  | allowed => "allowed"
  | forbidden => "forbidden"

section Check

variable (dumps : GraphSignature → String)

/-- `_check_signatures`; `dumps` is `json.dumps`. -/
def checkSignatures (check : MemoryModelCheck) : List String :=
  sortedList (check.candidates.map (fun c => dumps (graphSignature c.graph))).toFinset

/-- Whether the two checks agree, and the reason. -/
def compareChecks (concrete abstracted : MemoryModelCheck) : Bool × String :=
  if concrete.status ≠ abstracted.status then
    (false, s!"memory-model status changed from {concrete.status.text} to {abstracted.status.text}")
  else if checkSignatures dumps concrete ≠ checkSignatures dumps abstracted then
    (false, "architectural execution-graph candidate set changed")
  else (true, "architectural candidates and memory-model result are unchanged")

/-- `check_memory_model_preservation`. -/
def checkMemoryModelPreservation (concreteTrace abstractedTrace : Trace) (graphSpec : GraphModelSpec)
    (maxCandidates : Int) : Except PyError MemoryModelPreservationCheck := do
  let concrete ← checkTraceMemoryModel concreteTrace graphSpec maxCandidates
  let abstracted ← checkTraceMemoryModel abstractedTrace graphSpec maxCandidates
  let verdict := compareChecks dumps concrete abstracted
  return { preserved := verdict.1, concrete, abstracted
           concreteCandidateSignatures := checkSignatures dumps concrete
           abstractCandidateSignatures := checkSignatures dumps abstracted
           reason := verdict.2 }

end Check

theorem graphSignature_same {c c' : CandidateCheck} (h : SameCandidate c c') :
    graphSignature c.graph = graphSignature c'.graph := by
  have hbyId := byId_perm c.graph.nodup h.operations (fun _ => true)
  rw [List.filter_true, List.filter_true] at hbyId
  rw [graphSignature, graphSignature, hbyId, h.relations]

/-- Checks with the same candidates have the same signatures. -/
theorem checkSignatures_same {dumps : GraphSignature → String} {check check' : MemoryModelCheck}
    (h : SameCheck check check') : checkSignatures dumps check = checkSignatures dumps check' := by
  refine congrArg sortedList (Finset.ext (fun text => ?_))
  simp only [List.mem_toFinset, List.mem_map]
  constructor
  · rintro ⟨c, hc, rfl⟩
    obtain ⟨c', hc', hsame⟩ := h.forward c hc
    exact ⟨c', hc', by rw [graphSignature_same hsame]⟩
  · rintro ⟨c', hc', rfl⟩
    obtain ⟨c, hc, hsame⟩ := h.backward c' hc'
    exact ⟨c, hc, by rw [graphSignature_same hsame]⟩

theorem preserved_of_sameCheck (dumps : GraphSignature → String) {trace trace' : Trace}
    {graphSpec : GraphModelSpec} {maxCandidates : Int} {check check' : MemoryModelCheck}
    (h : checkTraceMemoryModel trace graphSpec maxCandidates = .ok check)
    (h' : checkTraceMemoryModel trace' graphSpec maxCandidates = .ok check')
    (hsame : SameCheck check check') :
    ∃ result, checkMemoryModelPreservation dumps trace trace' graphSpec maxCandidates = .ok result ∧
      result.preserved = true := by
  refine ⟨_, bind_eq_ok.mpr ⟨check, h, bind_eq_ok.mpr ⟨check', h', rfl⟩⟩, ?_⟩
  show (compareChecks dumps check check').1 = true
  rw [compareChecks, if_neg (not_not_intro hsame.status),
    if_neg (not_not_intro (checkSignatures_same hsame))]

/-! ## Events that do not occur -/

section Occurring

theorem foldlM_filter {ε β γ : Type} {f : β → γ → Except ε β} {p : γ → Bool} {l : List γ}
    (h : ∀ b, ∀ a ∈ l, p a = false → f b a = .ok b) (b : β) :
    (l.filter p).foldlM f b = l.foldlM f b := by
  induction l generalizing b with
  | nil => rfl
  | cons a rest ih =>
      obtain ⟨ha, hrest⟩ : (∀ b, p a = false → f b a = .ok b) ∧
          ∀ b, ∀ a ∈ rest, p a = false → f b a = .ok b :=
        ⟨fun b => h b a List.mem_cons_self, fun b a' ha' => h b a' (List.mem_cons_of_mem _ ha')⟩
      cases hp : p a with
      | true =>
          rw [List.filter_cons_of_pos hp, List.foldlM_cons, List.foldlM_cons]
          exact congrArg (f b a >>= ·) (funext (fun b' => ih hrest b'))
      | false =>
          rw [List.filter_cons_of_neg (by simp [hp]), List.foldlM_cons, ha b hp, ok_bind, ih hrest]

theorem concreteEvent_of_not_occurring {event : EventInstance} (h : event.isOccurring = false) :
    concreteEvent event = .ok false := by
  unfold EventInstance.isOccurring at h
  unfold concreteEvent
  cases hoccurs : event.occurs with
  | known b =>
      rw [hoccurs] at h
      cases h
      rfl
  | symbolic e => rfl

theorem concreteEvents_filter (events : List EventInstance) :
    concreteEvents (events.filter EventInstance.isOccurring) = concreteEvents events := by
  induction events with
  | nil => rfl
  | cons event rest ih =>
      cases hoccurring : event.isOccurring with
      | true => rw [List.filter_cons_of_pos hoccurring, concreteEvents, concreteEvents, ih]
      | false =>
          rw [List.filter_cons_of_neg (by simp [hoccurring]), concreteEvents, ih,
            concreteEvent_of_not_occurring hoccurring, ok_bind]
          cases concreteEvents rest <;> rfl

/-- The events of a trace that occur. -/
def Trace.occurring (trace : Trace) : Trace where
  events := trace.events.filter EventInstance.isOccurring
  constraints := trace.constraints
  isPartial := trace.isPartial
  nodup := trace.nodup.sublist (List.filter_sublist.map _)
  bool_constraints := trace.bool_constraints

theorem hintEvents_occurring {Spec : Type} (eventType : Spec → String) (specs : List Spec)
    (trace : Trace) : hintEvents eventType specs trace.occurring =
      (hintEvents eventType specs trace).filter (fun p => p.2.isOccurring) := by
  unfold hintEvents
  rw [List.filter_flatMap]
  refine List.flatMap_congr (fun spec _ => ?_)
  rw [List.filter_map, Trace.eventsOfType, Trace.eventsOfType, Trace.occurring, List.filter_filter,
    List.filter_filter]
  simp only [Function.comp_def, Bool.and_comm]

variable {trace : Trace} {spec : GraphModelSpec}

theorem rfHints_occurring : rfHints trace.occurring spec = rfHints trace spec := by
  rw [rfHints, hintEvents_occurring]
  refine foldlM_filter (fun hints p _ hp => ?_) _
  rw [addRfHint, concreteEvent_of_not_occurring hp]
  rfl

theorem coHints_occurring : coHints trace.occurring spec = coHints trace spec := by
  rw [coHints, coHints, hintEvents_occurring, foldlM_filter (fun hints p _ hp => ?_)]
  rw [addCoHint, concreteEvent_of_not_occurring hp]
  rfl

theorem relationHints_occurring (operations : List MemoryOperation) :
    relationHints trace.occurring spec operations = relationHints trace spec operations := by
  rw [relationHints, relationHints, hintEvents_occurring, foldlM_filter (fun edges p _ hp => ?_)]
  rw [addRelationHint, concreteEvent_of_not_occurring hp]
  rfl

/-- The check does not look at events that do not occur. -/
theorem checkTraceMemoryModel_occurring (maxCandidates : Int) :
    checkTraceMemoryModel trace.occurring spec maxCandidates =
      checkTraceMemoryModel trace spec maxCandidates := by
  have hoperations : projectOperations trace.occurring spec.projection =
      projectOperations trace spec.projection := by
    rw [projectOperations, projectOperations, Trace.occurring, concreteEvents_filter]
  have hspace : buildCandidateSpace trace.occurring spec = buildCandidateSpace trace spec := by
    simp only [buildCandidateSpace, hoperations, rfHints_occurring, coHints_occurring,
      relationHints_occurring]
  simp only [checkTraceMemoryModel, forExecutionGraphs, hspace]

end Occurring

/-! ## Transparent abstractions -/

/-- Every event of the type stays: its type or its visibility is retained, or it stays by
default and no rule that hides its sources has a role for it. -/
def AbstractionSpec.KeepsType (spec : AbstractionSpec) (catalog : VisibleCatalog)
    (eventType : String) : Prop :=
  eventType ∈ spec.retain.eventTypes ∨
    (catalog.visibility eventType).value ∈ spec.retain.visibilities ∨
    (spec.defaultAction = .keep ∧ ∀ rule ∈ spec.summaries, rule.hideSources = true →
      ∀ role ∈ rule.roles, role.eventType ≠ eventType)

def OutputValue.IsConcrete : OutputValue → Prop
  | .literal (.expr _) => False
  | _ => True

/-- The graph model sees neither what the abstraction hides nor what it adds. -/
structure AbstractionSpec.Transparent (spec : AbstractionSpec) (catalog : VisibleCatalog)
    (graphSpec : GraphModelSpec) : Prop where
  kept : ∀ eventType, graphSpec.names eventType = true → spec.KeepsType catalog eventType
  unnamed : ∀ rule ∈ spec.summaries, graphSpec.names rule.output.eventType = false
  concrete : ∀ rule ∈ spec.summaries, ∀ v ∈ rule.output.fields.values, v.IsConcrete

namespace Abstraction

section Summary

variable {specName : String} {rule : SummaryRuleSpec} {m : RuleMatch} {eventId : String}

theorem field_concrete (event : ConcreteEvent) {name : String} {t : Term}
    (h : event.fields.get? name = some t) : ∃ v, t = .value v := by
  have hconcrete := event.concrete_fields
  rw [EventInstance.hasSymbolicFields, List.any_eq_false] at hconcrete
  have hmem : t ∈ event.fields.values :=
    List.mem_map.mpr ⟨(name, t), Dict.get?_eq_some_iff.mp h, rfl⟩
  cases t with
  | value v => exact ⟨v, rfl⟩
  | expr e => exact absurd rfl (hconcrete _ hmem)

theorem cycleTerm_concrete (event : ConcreteEvent) : ∃ v, event.cycleTerm = .value v := by
  have hconcrete := event.concrete_cycle
  unfold EventInstance.hasSymbolicCycle at hconcrete
  unfold EventInstance.cycleTerm
  cases hcycle : event.cycle with
  | absent => exact ⟨_, rfl⟩
  | concrete n => exact ⟨_, rfl⟩
  | symbolic e =>
      rw [hcycle] at hconcrete
      cases hconcrete

/-- What the roles and the variables give is concrete. -/
theorem resolveOutputValue_concrete {v : OutputValue} {t : Term}
    (h : resolveOutputValue m v = .ok t) (hconcrete : v.IsConcrete) : ∃ w, t = .value w := by
  cases v with
  | literal t' =>
      cases h
      cases t with
      | value w => exact ⟨w, rfl⟩
      | expr e => exact hconcrete.elim
  | var name name_ne =>
      rw [resolveOutputValue] at h
      split at h
      · cases h
        exact ⟨_, rfl⟩
      · cases h
  | field reference reference_ne =>
      rw [resolveOutputValue] at h
      split_ifs at h
      simp only at h
      split at h
      · cases h
      · rename_i event _
        split_ifs at h
        · cases h
          exact cycleTerm_concrete event
        · cases h
          exact ⟨_, rfl⟩
        · split at h
          · rename_i hfield
            cases h
            exact field_concrete event hfield
          · cases h

/-- A summary occurs, has the type of the rule's output and concrete fields. -/
theorem summaryEvent_concrete {summary : AnnotatedEvent}
    (h : summaryEvent specName rule m eventId = .ok summary)
    (hconcrete : ∀ v ∈ rule.output.fields.values, v.IsConcrete) :
    summary.eventType = rule.output.eventType ∧ summary.hasSymbolicFields = false := by
  obtain ⟨fields, hfields, h⟩ := bind_eq_ok.mp h
  obtain ⟨cycle, -, h⟩ := bind_eq_ok.mp h
  obtain ⟨event, hevent, h⟩ := bind_eq_ok.mp h
  cases h
  obtain ⟨-, htype, hevents⟩ := EventInstance.create_eq_ok hevent
  refine ⟨htype, ?_⟩
  have hkeys : fields.map Prod.fst = rule.output.fields.keys := by
    refine map_mapM (p := Prod.fst) (q := Prod.fst) hfields (fun {p r} hp => ?_)
    obtain ⟨t, -, hp⟩ := bind_eq_ok.mp hp
    cases hp
    rfl
  show event.hasSymbolicFields = false
  rw [EventInstance.hasSymbolicFields, hevents, Dict.values,
    Dict.entries_ofList (hkeys ▸ rule.output.fields.nodup), List.any_eq_false]
  intro t ht
  obtain ⟨p, hp, rfl⟩ := List.mem_map.mp ht
  obtain ⟨entry, hentry, hentryOk⟩ := mapM_origin hfields hp
  obtain ⟨t', hresolved, hentryOk⟩ := bind_eq_ok.mp hentryOk
  cases hentryOk
  obtain ⟨w, rfl⟩ := resolveOutputValue_concrete hresolved
    (hconcrete entry.2 (List.mem_map.mpr ⟨entry, hentry, rfl⟩))
  exact Bool.false_ne_true

end Summary

/-- The summaries are unnamed events with concrete fields. -/
def Unnoticed (graphSpec : GraphModelSpec) (progress : Progress) : Prop :=
  ∀ event ∈ progress.generated,
    graphSpec.names event.eventType = false ∧ event.hasSymbolicFields = false

section Rules

variable {format : String → Dict String String → Except FormatError String}
  {catalog : EventCatalog} {specName : String} {rule : SummaryRuleSpec}
  {graphSpec : GraphModelSpec}

theorem generated_applyMatch {progress progress' : RuleProgress} {m : RuleMatch}
    (h : applyMatch format catalog specName rule progress m = .ok progress') :
    progress'.generated = progress.generated ∨ ∃ eventId summary,
      summaryEvent specName rule m eventId = .ok summary ∧
        progress'.generated = progress.generated ++ [summary] := by
  unfold applyMatch at h
  by_cases hseen : m.sourceIds ∈ progress.seenSources
  · rw [if_pos hseen] at h
    cases h
    exact .inl rfl
  · rw [if_neg hseen] at h
    obtain ⟨_, -, h⟩ := bind_eq_ok.mp h
    obtain ⟨eventId, -, h⟩ := bind_eq_ok.mp h
    obtain ⟨_, -, h⟩ := bind_eq_ok.mp h
    obtain ⟨summary, hsummary, h⟩ := bind_eq_ok.mp h
    obtain ⟨_, -, h⟩ := bind_eq_ok.mp h
    obtain ⟨_, -, h⟩ := bind_eq_ok.mp h
    cases h
    exact .inr ⟨eventId, summary, hsummary, rfl⟩

theorem unnoticed_applyRule {events : List ConcreteEvent} {progress progress' : Progress}
    (hunnamed : graphSpec.names rule.output.eventType = false)
    (hconcrete : ∀ v ∈ rule.output.fields.values, v.IsConcrete)
    (hprogress : Unnoticed graphSpec progress)
    (h : applyRule format catalog specName events progress rule = .ok progress') :
    Unnoticed graphSpec progress' := by
  obtain ⟨ruleProgress, hfold, h⟩ := bind_eq_ok.mp h
  obtain ⟨_, -, h⟩ := bind_eq_ok.mp h
  cases h
  refine foldlM_invariant (fun _ st => Unnoticed graphSpec st.toProgress)
    (fun _ m st st' ih hstep => ?_) hprogress hfold
  rcases generated_applyMatch hstep with hsame | ⟨eventId, summary, hsummary, hnew⟩
  · rwa [Unnoticed, hsame]
  · intro event hevent
    rw [hnew] at hevent
    rcases List.mem_append.mp hevent with hevent | hevent
    · exact ih event hevent
    · rw [List.mem_singleton] at hevent
      subst hevent
      obtain ⟨htype, hfields⟩ := summaryEvent_concrete hsummary hconcrete
      exact ⟨htype ▸ hunnamed, hfields⟩

theorem unnoticed_summaries {events : List ConcreteEvent} {spec : AbstractionSpec}
    {visible : VisibleCatalog} (htransparent : spec.Transparent visible graphSpec)
    {progress : Progress}
    (h : spec.summaries.foldlM (applyRule format catalog spec.name events) .start = .ok progress) :
    Unnoticed graphSpec progress := by
  have hrun := foldlM_invariant (fun done st => (∀ rule ∈ done, rule ∈ spec.summaries) →
      Unnoticed graphSpec st)
    (fun done rule st st' ih hstep hlisted => by
      have hrule : rule ∈ spec.summaries := hlisted rule (by simp)
      exact unnoticed_applyRule (htransparent.unnamed rule hrule) (htransparent.concrete rule hrule)
        (ih (fun rule' h' => hlisted rule' (List.mem_append_left _ h'))) hstep)
    (fun _ => by simp [Unnoticed, Progress.start]) h
  exact hrun (fun _ h => h)

end Rules

theorem concreteEvent_of_concrete {event : EventInstance} (h : event.hasSymbolicFields = false) :
    ∃ b, Umcm.concreteEvent event = .ok b := by
  unfold Umcm.concreteEvent
  unfold EventInstance.hasSymbolicFields at h
  split
  · exact ⟨true, if_neg (Bool.not_eq_true _ ▸ h)⟩
  · exact ⟨false, rfl⟩

end Abstraction

/-! ## Preservation -/

section Result

variable {catalog : VisibleCatalog}
  {format : String → Dict String String → Except FormatError String}
  {digest : AnnotatedTrace → String} {trace : AnnotatedTrace} {spec : AbstractionSpec}
  {graphSpec : GraphModelSpec} {result : AbstractionResult} {events : List ConcreteEvent}

/-- The type of a hidden source is the type of a role. -/
theorem exists_role_of_hidden {event : ConcreteEvent}
    (hnodup : (events.map (fun event => event.id)).Nodup) (hevent : event ∈ events)
    (h : IsHiddenSource spec events event.id) : ∃ rule ∈ spec.summaries, rule.hideSources = true ∧
      ∃ role ∈ rule.roles, role.eventType = event.eventType := by
  obtain ⟨rule, hrule, hhide, m, hm, hid⟩ := h
  obtain ⟨-, hcontinues, -⟩ := mem_iterRuleMatches.mp hm
  obtain ⟨source, hsource, heq⟩ := List.mem_map.mp hid
  obtain ⟨role, hrole, hlisted, htype⟩ := exists_left_of_forall₂ hcontinues.listed hsource
  obtain rfl : source = event := List.inj_on_of_nodup_map hnodup hlisted hevent heq
  exact ⟨rule, hrule, hhide, role, hrole, htype.symm⟩

theorem isKept_of_keepsType {event : ConcreteEvent}
    (hnodup : (events.map (fun event => event.id)).Nodup) (hevent : event ∈ events)
    (h : spec.KeepsType catalog event.eventType) : IsKept catalog spec events event := by
  rcases h with htype | hvisibility | ⟨hdefault, hroles⟩
  · exact .inl (by simp [Abstraction.explicitlyRetained, htype])
  · exact .inl (by simp [Abstraction.explicitlyRetained, hvisibility])
  · refine .inr ⟨hdefault, fun hhidden => ?_⟩
    obtain ⟨rule, hrule, hhide, role, hrole, htype⟩ := exists_role_of_hidden hnodup hevent hhidden
    exact hroles rule hrule hhide role hrole htype

/-- The graph model sees the same events in the source and in the output. -/
theorem rearranged_of_transparent (htransparent : spec.Transparent catalog graphSpec)
    (h : abstractTrace catalog format digest trace spec = .ok result) :
    Rearranged graphSpec trace.toTrace.occurring result.trace.toTrace := by
  obtain ⟨_, -, h⟩ := bind_eq_ok.mp h
  obtain ⟨events, hevents, h⟩ := bind_eq_ok.mp h
  obtain ⟨progress, hprogress, h⟩ := bind_eq_ok.mp h
  obtain ⟨retention, hretention, h⟩ := bind_eq_ok.mp h
  obtain ⟨output, houtput, h⟩ := bind_eq_ok.mp h
  obtain ⟨_, -, h⟩ := bind_eq_ok.mp h
  cases h
  have hnodup := Abstraction.nodup_concreteEvents hevents
  have hunnoticed := Abstraction.unnoticed_summaries htransparent hprogress
  have hhidden := (Abstraction.emitted_summaries hnodup hprogress).hidden
  have hretained := (Abstraction.retained_foldlM hretention).1.retained
  have hsource : trace.toTrace.occurring.events = events.map (fun event => event.toEventInstance) := by
    show (trace.events.map AnnotatedEvent.toEventInstance).filter EventInstance.isOccurring = _
    rw [List.filter_map]
    have hoccurring := congrArg (List.map AnnotatedEvent.toEventInstance)
      (Abstraction.concreteEvents_eq_ok hevents)
    rw [List.map_map] at hoccurring
    exact hoccurring.symm
  have hperm : output.toTrace.events.Perm
      ((Abstraction.kept catalog spec progress.sourceIdsToHide events).map
        (fun event => event.toEventInstance) ++
      progress.generated.map (fun event => event.toEventInstance)) := by
    show (output.events.map AnnotatedEvent.toEventInstance).Perm _
    rw [(Abstraction.make_eq_ok houtput).1, hretained]
    refine ((Abstraction.sortEvents_perm _).map _).trans (List.Perm.of_eq ?_)
    rw [List.map_append, List.map_map]
    rfl
  have hconcrete : ∀ event : ConcreteEvent, ∃ b, concreteEvent event.toEventInstance = .ok b :=
    fun event => Abstraction.concreteEvent_of_concrete event.concrete_fields
  refine ⟨fun event hevent => ?_, fun event hevent => ?_, ?_⟩
  · rw [hsource] at hevent
    obtain ⟨c, -, rfl⟩ := List.mem_map.mp hevent
    exact hconcrete c
  · rcases List.mem_append.mp (hperm.mem_iff.mp hevent) with hevent | hevent
    · obtain ⟨c, -, rfl⟩ := List.mem_map.mp hevent
      exact hconcrete c
    · obtain ⟨summary, hsummary, rfl⟩ := List.mem_map.mp hevent
      exact Abstraction.concreteEvent_of_concrete (hunnoticed summary hsummary).2
  · -- every named event is kept, and no summary is named
    refine List.Perm.trans (List.Perm.of_eq ?_) (hperm.filter _).symm
    have hgenerated : (progress.generated.map (fun event => event.toEventInstance)).filter
        (fun event => graphSpec.names event.eventType) = [] := by
      rw [List.filter_eq_nil_iff]
      intro event hevent
      obtain ⟨summary, hsummary, rfl⟩ := List.mem_map.mp hevent
      simp [(hunnoticed summary hsummary).1]
    rw [List.filter_append, hgenerated, List.append_nil, hsource, List.filter_map, List.filter_map,
      Abstraction.kept, List.filter_filter]
    refine congrArg (List.map _) (List.filter_congr (fun event hevent => ?_))
    cases hnamed : graphSpec.names event.eventType with
    | false => simp [hnamed]
    | true =>
        have hkeeps := (Abstraction.keeps_iff (hhidden event.id)).mpr
          (isKept_of_keepsType hnodup hevent (htransparent.kept _ hnamed))
        simp only [Function.comp_apply, hnamed, hkeeps, Bool.true_and]

end Result

/-! ## A hidden issue -/

theorem opIdName_ne : "op_id" ≠ "" := by decide

theorem addressName_ne : "address" ≠ "" := by decide

theorem valueName_ne : "value" ≠ "" := by decide

theorem hartName_ne : "hart" ≠ "" := by decide

theorem indexName_ne : "program_index" ≠ "" := by decide

/-- A type whose fields are `op_id` and the given numbers. -/
def operationType (name : String) (numbers : List FieldSpec) (qualified : '.' ∈ name.toList)
    (nodup : ((⟨"op_id", stringSort, true, opIdName_ne⟩ :: numbers).map FieldSpec.name).Nodup) :
    EventType :=
  ⟨name, ⟨"op_id", stringSort, true, opIdName_ne⟩ :: numbers, qualified, nodup⟩

def addressNumber : FieldSpec := ⟨"address", .int, true, addressName_ne⟩

def valueNumber : FieldSpec := ⟨"value", .int, true, valueName_ne⟩

def hartNumber : FieldSpec := ⟨"hart", .int, true, hartName_ne⟩

def indexNumber : FieldSpec := ⟨"program_index", .int, true, indexName_ne⟩

theorem initWrite_qualified : '.' ∈ "Arch.InitWrite".toList := by decide

theorem archStore_qualified : '.' ∈ "Arch.Store".toList := by decide

def issueCatalog : VisibleCatalog where
  eventTypes := ⟨[("Arch.InitWrite", operationType "Arch.InitWrite" [addressNumber, valueNumber]
        initWrite_qualified (by decide)),
      ("Core.Issue", operationType "Core.Issue" [] (by decide) (by decide)),
      ("Arch.Store", operationType "Arch.Store"
        [addressNumber, valueNumber, hartNumber, indexNumber] archStore_qualified (by decide)),
      ("Core.Dispatch", operationType "Core.Dispatch" [] (by decide) (by decide))], by decide⟩
  named := by decide
  visibility := fun _ => .internal

theorem dispatch_ne : "Core.Dispatch" ≠ "" := by decide

theorem variable_ne : "op" ≠ "" := by decide

theorem issueRole_ne : "issue" ≠ "" := by decide

theorem coreIssue_ne : "Core.Issue" ≠ "" := by decide

theorem dispatchId_ne : "dispatch" ≠ "" := by decide

theorem coreLevel_ne : "core" ≠ "" := by decide

theorem archLevel_ne : "arch" ≠ "" := by decide

/-- An issue is summarised by a dispatch of the same operation. -/
def issueAbstraction : AbstractionSpec where
  name := "dispatches"
  sourceLevel := "core"
  targetLevel := "arch"
  retain := ⟨[], [], []⟩
  summaries :=
    [{ name := "dispatch"
       roles := [⟨"issue", "Core.Issue", .ofList [("op_id", .var "op" variable_ne)],
         issueRole_ne, coreIssue_ne⟩]
       output := ⟨"Core.Dispatch", "dispatch", .ofList [("op_id", .var "op" variable_ne)], "last",
         .empty, dispatch_ne, dispatchId_ne, lastCycle_ne⟩
       ordered := true
       strictOrder := false
       distinctEvents := true
       hideSources := true
       minMatches := 0
       maxMatches := 10000
       name_ne := dispatchId_ne
       roles_ne := by simp
       roles_nodup := by decide
       maxMatches_pos := matchBound_pos
       minMatches_le := matchBound_le }]
  defaultAction := .keep
  name_ne := by decide
  sourceLevel_ne := coreLevel_ne
  targetLevel_ne := archLevel_ne
  summaries_nodup := by simp

def issuedAnnotated : AnnotatedTrace where
  events := [⟨initialEvent, .empty⟩, ⟨issueEvent, .empty⟩, ⟨storeEvent, .empty⟩]
  constraints := []
  isPartial := false
  nodup := by decide
  bool_constraints := Expr.bool_of_mem_nil

theorem issueAbstraction_transparent : issueAbstraction.Transparent issueCatalog amoSpec where
  kept eventType hnamed := by
    refine .inr (.inr ⟨rfl, fun rule hrule _ role hrole heq => ?_⟩)
    obtain rfl := List.mem_singleton.mp hrule
    obtain rfl := List.mem_singleton.mp hrole
    rw [← heq] at hnamed
    exact absurd hnamed (by decide)
  unnamed rule hrule := by
    obtain rfl := List.mem_singleton.mp hrule
    decide
  concrete rule hrule v hv := by
    obtain rfl := List.mem_singleton.mp hrule
    obtain rfl : v = .var "op" variable_ne := List.mem_singleton.mp hv
    trivial

end Umcm
