import Umcm.Graph.Rvwmo
import Umcm.Ir.Trace

/-!
# Graph models

Which events a trace projects to memory operations, which events hint at
reads-from and coherence edges or contribute relation edges, which relations
are derived and which axioms are checked. The constructors' checks are fields.
-/

namespace Umcm

structure RfHintSpec where
  eventType : String
  readIdField : String
  writeIdField : String
  addressField : String
  valueField : String

structure CoHintSpec where
  eventType : String
  beforeWriteIdField : String
  afterWriteIdField : String
  addressField : String

/-- Relations that a hint may not override. -/
def reservedRelation (name : String) : Bool :=
  name ∈ ["po", "rf", "rfi", "rfe", "co", "fr", "fri", "fre", "ppo", "gmo"] ||
    "ppo_rule".toList.isPrefixOf name.toList

structure RelationHintSpec where
  name : String
  eventType : String
  sourceIdField : String
  targetIdField : String
  name_ne : name ≠ ""
  not_reserved : reservedRelation name = false

structure ProjectionSpec where
  initWriteEvent : String
  loadEvent : String
  storeEvent : String
  loadCommitEvent : String
  idField : String
  addressField : String
  valueField : String
  hartField : String
  programIndexField : String
  requireCommittedLoads : Bool
  amoEvent : Option String
  lrEvent : Option String
  scEvent : Option String
  writeValueField : String
  metadataFields : Dict String String
  rfHints : List RfHintSpec
  coHints : List CoHintSpec
  relationHints : List RelationHintSpec

inductive DerivedOp where
  | union
  | intersection
  | difference
  | inverse
  | compose
  | transitiveClosure
deriving DecidableEq, Repr

/-- How many operands an operation takes. -/
def DerivedOp.arityOk : DerivedOp → Nat → Bool
  | .inverse, n | .transitiveClosure, n => n = 1
  | .intersection, n | .difference, n | .compose, n => n = 2
  | .union, n => 1 ≤ n

structure DerivedRelationSpec where
  name : String
  op : DerivedOp
  relations : List String
  name_ne : name ≠ ""
  arity : op.arityOk relations.length = true

inductive AxiomKind where
  | acyclic
  | irreflexive
  | empty
deriving DecidableEq, Repr

structure AxiomSpec where
  name : String
  kind : AxiomKind
  relations : List String
  name_ne : name ≠ ""
  relations_ne : relations ≠ []

inductive BuiltinModel where
  | rvwmo
deriving DecidableEq, Repr

inductive PpoRule where
  | loadLoadDifferentWrite
deriving DecidableEq, Repr

structure GraphModelSpec where
  model : String
  projection : ProjectionSpec
  derivedRelations : List DerivedRelationSpec
  axioms : List AxiomSpec
  builtinModel : Option BuiltinModel
  ppoRules : List PpoRule
  model_ne : model ≠ ""
  derived_nodup : (derivedRelations.map DerivedRelationSpec.name).Nodup
  axioms_nodup : (axioms.map AxiomSpec.name).Nodup

end Umcm
