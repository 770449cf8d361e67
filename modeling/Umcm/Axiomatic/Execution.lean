import Umcm.Order.Acyclic

/-!
# Axiomatic executions with store forwarding

Candidate executions over an arbitrary type of memory events: program order,
preserved program order, reads-from and coherence order. A read may take its
value from a write of its own hart that is not yet globally visible, so the
reads-from edges inside a hart are not part of the global order.

* `Execution.settledAt_iff_loadValueAt`, `Execution.settled_iff_loadValue`: on
  every global order that contains `ppo`, `rfe`, `co` and `fr`, the load-value
  axiom is one fixed condition on `po`, `rf` and `co`; no such order decides it
  differently from another.
* `Execution.order_sub_gmo`: conversely every global order that satisfies the
  load-value axiom contains `rfe` and `fr`.
* `Execution.sc_per_location`: an execution with such a global order is
  coherent at every location.
-/

namespace Axiomatic

open Relation FinOrder

structure Execution (α Loc Hart : Type*) where
  isRead : α → Prop
  isWrite : α → Prop
  loc : α → Loc
  hart : α → Hart
  po : α → α → Prop
  ppo : α → α → Prop
  rf : α → α → Prop
  co : α → α → Prop

namespace Execution

variable {α Loc Hart : Type*} (E : Execution α Loc Hart)

/-- Reads-from between different harts. -/
def rfe (w r : α) : Prop := E.rf w r ∧ E.hart w ≠ E.hart r

/-- From-reads: `w'` is coherence-after the source of `r`. -/
def fr (r w' : α) : Prop := ∃ w, E.rf w r ∧ E.co w w' ∧ w' ≠ r

/-- The edges every global memory order has to respect. -/
def order (a b : α) : Prop := E.ppo a b ∨ E.rfe a b ∨ E.co a b ∨ E.fr a b

/-- Program order between accesses to one location. -/
def poLoc (a b : α) : Prop := E.po a b ∧ E.loc a = E.loc b

/-- The structural conditions on a candidate execution. -/
structure WellFormed : Prop where
  read_or_write : ∀ a, E.isRead a ∨ E.isWrite a
  po_irrefl : ∀ a, ¬ E.po a a
  po_trans : ∀ {a b c}, E.po a b → E.po b c → E.po a c
  po_hart : ∀ {a b}, E.po a b → E.hart a = E.hart b
  po_total : ∀ {a r}, E.hart a = E.hart r → E.isRead r → a ≠ r → E.po a r ∨ E.po r a
  ppo_store : ∀ {a b}, E.po a b → E.loc a = E.loc b → E.isWrite b → E.ppo a b
  rf_write : ∀ {w r}, E.rf w r → E.isWrite w
  rf_read : ∀ {w r}, E.rf w r → E.isRead r
  rf_ne : ∀ {w r}, E.rf w r → w ≠ r
  rf_loc : ∀ {w r}, E.rf w r → E.loc w = E.loc r
  rf_unique : ∀ {w w' r}, E.rf w r → E.rf w' r → w = w'
  rf_exists : ∀ {r}, E.isRead r → ∃ w, E.rf w r
  co_source : ∀ {a b}, E.co a b → E.isWrite a
  co_target : ∀ {a b}, E.co a b → E.isWrite b
  co_loc : ∀ {a b}, E.co a b → E.loc a = E.loc b
  co_total : ∀ {a b}, E.isWrite a → E.isWrite b → E.loc a = E.loc b → a ≠ b →
    E.co a b ∨ E.co b a
  co_acyclic : Acyclic E.co

/-- A global memory order: a strict total order of all events. -/
structure StrictTotal (gmo : α → α → Prop) : Prop where
  irrefl : ∀ a, ¬ gmo a a
  trans : ∀ {a b c}, gmo a b → gmo b c → gmo a c
  total : ∀ {a b}, a ≠ b → gmo a b ∨ gmo b a

/-- A write `r` may take its value from: gmo-before or program-order-before `r`. -/
def Visible (gmo : α → α → Prop) (w r : α) : Prop :=
  E.isWrite w ∧ w ≠ r ∧ E.loc w = E.loc r ∧ (gmo w r ∨ E.po w r)

/-- The load-value axiom: every read takes its value from the gmo-latest write
visible to it. -/
def LoadValue (gmo : α → α → Prop) : Prop :=
  ∀ w r, E.rf w r → E.Visible gmo w r ∧ ∀ w', E.Visible gmo w' r → w' ≠ w → gmo w' w

/-- The part of the load-value axiom that does not mention a global order: no
read takes its value from a later write of its hart, nor from one that an older
store of its hart overwrites. -/
def Settled : Prop :=
  ∀ w r, E.rf w r → ¬ E.po r w ∧ ∀ w', E.co w w' → w' ≠ r → ¬ E.po w' r

/-- The load-value axiom at one read and its source. -/
def LoadValueAt (gmo : α → α → Prop) (w r : α) : Prop :=
  E.Visible gmo w r ∧ ∀ w', E.Visible gmo w' r → w' ≠ w → gmo w' w

/-- The order-free condition at one read and its source. -/
def SettledAt (w r : α) : Prop :=
  ¬ E.po r w ∧ ∀ w', E.co w w' → w' ≠ r → ¬ E.po w' r

variable {E} {gmo : α → α → Prop}

theorem StrictTotal.asymm (hg : StrictTotal gmo) {a b : α} (h : gmo a b) : ¬ gmo b a :=
  fun h' => hg.irrefl a (hg.trans h h')

namespace WellFormed

variable (hE : E.WellFormed)
include hE

theorem co_irrefl (a : α) : ¬ E.co a a := hE.co_acyclic.irrefl a

theorem co_asymm {a b : α} (h : E.co a b) : ¬ E.co b a :=
  fun h' => hE.co_acyclic a (TransGen.head h (TransGen.single h'))

theorem co_trans {a b c : α} (hab : E.co a b) (hbc : E.co b c) : E.co a c := by
  have hne : a ≠ c := by
    rintro rfl
    exact hE.co_asymm hab hbc
  rcases hE.co_total (hE.co_source hab) (hE.co_target hbc)
    ((hE.co_loc hab).trans (hE.co_loc hbc)) hne with h | h
  · exact h
  · exact absurd (TransGen.head hab (TransGen.head hbc (TransGen.single h))) (hE.co_acyclic a)

/-- Inside a hart a read and its source are related by program order. -/
theorem rf_external_or_po {w r : α} (h : E.rf w r) : E.rfe w r ∨ E.po w r ∨ E.po r w := by
  by_cases hh : E.hart w = E.hart r
  · exact Or.inr (hE.po_total hh (hE.rf_read h) (hE.rf_ne h))
  · exact Or.inl ⟨h, hh⟩

end WellFormed

/-- On one location a global order that contains `co` is `co`. -/
theorem co_of_gmo (hE : E.WellFormed) (hg : StrictTotal gmo)
    (hco : ∀ a b, E.co a b → gmo a b) {a b : α} (ha : E.isWrite a) (hb : E.isWrite b)
    (hloc : E.loc a = E.loc b) (h : gmo a b) : E.co a b := by
  have hne : a ≠ b := by
    rintro rfl
    exact hg.irrefl a h
  rcases hE.co_total ha hb hloc hne with hab | hba
  · exact hab
  · exact absurd (hco b a hba) (hg.asymm h)

/-- At every read the load-value axiom forces the order-free condition. -/
theorem LoadValueAt.settledAt (hE : E.WellFormed) (hg : StrictTotal gmo)
    (hppo : ∀ a b, E.ppo a b → gmo a b) (hco : ∀ a b, E.co a b → gmo a b) {w r : α}
    (hrf : E.rf w r) (h : E.LoadValueAt gmo w r) : E.SettledAt w r := by
  obtain ⟨⟨-, -, -, hvis⟩, hlatest⟩ := h
  refine ⟨?_, ?_⟩
  · -- reading from a later write of the hart contradicts rule 1 of `ppo`
    intro hpo
    have hgmo := hppo r w (hE.ppo_store hpo (hE.rf_loc hrf).symm (hE.rf_write hrf))
    rcases hvis with hvis | hvis
    · exact hg.asymm hvis hgmo
    · exact hE.po_irrefl r (hE.po_trans hpo hvis)
  · intro w' hww' hne hpo
    have hvis' : E.Visible gmo w' r :=
      ⟨hE.co_target hww', hne, (hE.co_loc hww').symm.trans (hE.rf_loc hrf), Or.inr hpo⟩
    have hne' : w' ≠ w := by
      rintro rfl
      exact hE.co_irrefl w' hww'
    exact hg.asymm (hlatest w' hvis' hne') (hco w w' hww')

/-- The load-value axiom forces the order-free condition. -/
theorem LoadValue.settled (hE : E.WellFormed) (hg : StrictTotal gmo)
    (hppo : ∀ a b, E.ppo a b → gmo a b) (hco : ∀ a b, E.co a b → gmo a b)
    (h : E.LoadValue gmo) : E.Settled :=
  fun w r hrf => LoadValueAt.settledAt hE hg hppo hco hrf (h w r hrf)

/-- A global order that satisfies the load-value axiom contains `rfe` and `fr`. -/
theorem order_sub_gmo (hE : E.WellFormed) (hg : StrictTotal gmo)
    (hppo : ∀ a b, E.ppo a b → gmo a b) (hco : ∀ a b, E.co a b → gmo a b)
    (h : E.LoadValue gmo) : ∀ a b, E.order a b → gmo a b := by
  rintro a b (hab | ⟨hrf, hhart⟩ | hab | ⟨w, hrf, hwb, hne⟩)
  · exact hppo a b hab
  · obtain ⟨⟨-, -, -, hvis⟩, -⟩ := h a b hrf
    rcases hvis with hvis | hvis
    · exact hvis
    · exact absurd (hE.po_hart hvis) hhart
  · exact hco a b hab
  · -- a later write that is gmo-before the read would be the latest one
    rcases hg.total hne with hba | hab
    · have hvis : E.Visible gmo b a :=
        ⟨hE.co_target hwb, hne, (hE.co_loc hwb).symm.trans (hE.rf_loc hrf), Or.inl hba⟩
      have hne' : b ≠ w := by
        rintro rfl
        exact hE.co_irrefl b hwb
      exact absurd (hco w b hwb) (hg.asymm ((h w a hrf).2 b hvis hne'))
    · exact hab

/-- On a global order that contains `ppo`, `rfe`, `co` and `fr` the load-value
axiom is at every read the order-free condition. -/
theorem settledAt_iff_loadValueAt (hE : E.WellFormed) (hg : StrictTotal gmo)
    (hord : ∀ a b, E.order a b → gmo a b) {w r : α} (hrf : E.rf w r) :
    E.SettledAt w r ↔ E.LoadValueAt gmo w r := by
  have hppo : ∀ a b, E.ppo a b → gmo a b := fun a b h => hord a b (Or.inl h)
  have hco : ∀ a b, E.co a b → gmo a b := fun a b h => hord a b (Or.inr (Or.inr (Or.inl h)))
  constructor
  · rintro ⟨hnopo, hnewer⟩
    refine ⟨⟨hE.rf_write hrf, hE.rf_ne hrf, hE.rf_loc hrf, ?_⟩, ?_⟩
    · rcases hE.rf_external_or_po hrf with hrfe | hpo | hpo
      · exact Or.inl (hord w r (Or.inr (Or.inl hrfe)))
      · exact Or.inr hpo
      · exact absurd hpo hnopo
    · rintro w' ⟨hw', hne, hloc, hvis⟩ hne'
      rcases hE.co_total hw' (hE.rf_write hrf) (hloc.trans (hE.rf_loc hrf).symm) hne' with hco' | hco'
      · exact hco w' w hco'
      · -- a newer visible write would have to be program-order-before the read
        have hfr : gmo r w' := hord r w' (Or.inr (Or.inr (Or.inr ⟨w, hrf, hco', hne⟩)))
        rcases hvis with hvis | hvis
        · exact absurd hvis (hg.asymm hfr)
        · exact absurd hvis (hnewer w' hco' hne)
  · exact fun h => h.settledAt hE hg hppo hco hrf

/-- On a global order that contains `ppo`, `rfe`, `co` and `fr` the load-value
axiom is the order-free condition. -/
theorem settled_iff_loadValue (hE : E.WellFormed) (hg : StrictTotal gmo)
    (hord : ∀ a b, E.order a b → gmo a b) : E.Settled ↔ E.LoadValue gmo := by
  constructor
  · exact fun hset w r hrf => (settledAt_iff_loadValueAt hE hg hord hrf).mp (hset w r hrf)
  · exact fun h w r hrf => (settledAt_iff_loadValueAt hE hg hord hrf).mpr (h w r hrf)

/-! ## Coherence -/

/-- Program order of two same-location loads with different sources and no
same-location write between them is preserved. -/
def LoadLoadPreserved (E : Execution α Loc Hart) : Prop :=
  ∀ a b w w', E.po a b → E.loc a = E.loc b → E.rf w a → E.rf w' b → w ≠ w' →
    (∀ m, E.isWrite m → E.loc m = E.loc a → E.po a m → ¬ E.po m b) → E.ppo a b

section Coherence

variable (hE : E.WellFormed) (hg : StrictTotal gmo) (hppo : ∀ a b, E.ppo a b → gmo a b)
  (hco : ∀ a b, E.co a b → gmo a b) (hlv : E.LoadValue gmo)
include hE hg hppo hco hlv

omit hppo in
/-- A store that is program-order-before a read of its location is the source
of the read or coherence-before it. -/
theorem source_of_po {x r w : α} (hx : E.isWrite x) (hpo : E.po x r) (hloc : E.loc x = E.loc r)
    (hrf : E.rf w r) : x = w ∨ E.co x w := by
  by_cases hne : x = w
  · exact Or.inl hne
  · have hxr : x ≠ r := by
      rintro rfl
      exact hE.po_irrefl x hpo
    have hgmo := (hlv w r hrf).2 x ⟨hx, hxr, hloc, Or.inr hpo⟩ hne
    exact Or.inr (co_of_gmo hE hg hco hx (hE.rf_write hrf) (hloc.trans (hE.rf_loc hrf).symm) hgmo)

/-- The source of a read is coherence-before every later store of the hart to
the location. -/
theorem source_co_of_po {r y w : α} (hy : E.isWrite y) (hpo : E.po r y) (hloc : E.loc r = E.loc y)
    (hrf : E.rf w r) : E.co w y := by
  have hset := hlv.settled hE hg hppo hco
  have hgmo : gmo r y := hppo r y (hE.ppo_store hpo hloc hy)
  have hwloc : E.loc w = E.loc y := (hE.rf_loc hrf).trans hloc
  have hne : w ≠ y := by
    rintro rfl
    exact (hset w r hrf).1 hpo
  rcases hE.co_total (hE.rf_write hrf) hy hwloc hne with h | h
  · exact h
  · -- then the source is neither gmo-before nor program-order-before the read
    obtain ⟨⟨-, -, -, hvis⟩, -⟩ := hlv w r hrf
    have hyw := hco y w h
    rcases hvis with hvis | hvis
    · exact absurd (hg.trans hgmo (hg.trans hyw hvis)) (hg.irrefl r)
    · have hwy := hppo w y (hE.ppo_store (hE.po_trans hvis hpo) hwloc hy)
      exact absurd hwy (hg.asymm hyw)

/-- Two same-location loads in program order read coherence-ordered writes. -/
theorem source_mono_of_po (hll : E.LoadLoadPreserved) {a b w w' : α} (hpo : E.po a b)
    (hloc : E.loc a = E.loc b) (hrf : E.rf w a) (hrf' : E.rf w' b) : w = w' ∨ E.co w w' := by
  by_cases hne : w = w'
  · exact Or.inl hne
  · right
    have hwloc : E.loc w = E.loc w' :=
      (hE.rf_loc hrf).trans (hloc.trans (hE.rf_loc hrf').symm)
    rcases hE.co_total (hE.rf_write hrf) (hE.rf_write hrf') hwloc hne with h | h
    · exact h
    · exfalso
      have hgw := hco w' w h
      have hwb : w ≠ b := by
        rintro rfl
        exact (hlv.settled hE hg hppo hco w a hrf).1 hpo
      obtain ⟨⟨-, -, -, hvis⟩, -⟩ := hlv w a hrf
      -- the older source is visible to the younger load
      have hnot : ¬ E.Visible gmo w b := by
        intro hv
        exact hg.asymm ((hlv w' b hrf').2 w hv hne) hgw
      have hvisible : (gmo w b ∨ E.po w b) → E.Visible gmo w b :=
        fun hv => ⟨hE.rf_write hrf, hwb, (hE.rf_loc hrf).trans hloc, hv⟩
      rcases hvis with hvis | hvis
      · by_cases hbetween : ∃ m, E.isWrite m ∧ E.loc m = E.loc a ∧ E.po a m ∧ E.po m b
        · obtain ⟨m, hm, hmloc, ham, hmb⟩ := hbetween
          have hgam := hppo a m (hE.ppo_store ham hmloc.symm hm)
          rcases source_of_po hE hg hco hlv hm hmb (hmloc.trans hloc) hrf' with rfl | hmw
          · exact hg.asymm hgw (hg.trans hvis hgam)
          · exact hg.asymm hgw (hg.trans hvis (hg.trans hgam (hco m w' hmw)))
        · push Not at hbetween
          have hab : gmo a b := hppo a b
            (hll a b w w' hpo hloc hrf hrf' hne (fun m hm hml ham hmb => hbetween m hm hml ham hmb))
          exact hnot (hvisible (Or.inl (hg.trans hvis hab)))
      · exact hnot (hvisible (Or.inr (hE.po_trans hvis hpo)))

end Coherence

/-- The write whose place in the coherence order an event has: itself, or the
write it reads from. -/
def HeadOf (E : Execution α Loc Hart) (a w : α) : Prop :=
  (E.isWrite a ∧ w = a) ∨ (¬ E.isWrite a ∧ E.rf w a)

/-- The order of events at a location: by place in the coherence order, a write
before the loads that read it, those loads in program order. -/
def CohBefore (E : Execution α Loc Hart) (a b : α) : Prop :=
  ∃ w w', E.HeadOf a w ∧ E.HeadOf b w' ∧
    (E.co w w' ∨ (w = w' ∧ ¬ E.isWrite b ∧ (E.isWrite a ∨ E.po a b)))

theorem HeadOf.unique (hE : E.WellFormed) {a w w' : α} (h : E.HeadOf a w) (h' : E.HeadOf a w') :
    w = w' := by
  rcases h with ⟨hw, rfl⟩ | ⟨hn, hrf⟩
  · rcases h' with ⟨-, rfl⟩ | ⟨hn, -⟩
    · rfl
    · exact absurd hw hn
  · rcases h' with ⟨hw, -⟩ | ⟨-, hrf'⟩
    · exact absurd hw hn
    · exact hE.rf_unique hrf hrf'

theorem headOf_exists (hE : E.WellFormed) (a : α) : ∃ w, E.HeadOf a w := by
  by_cases hw : E.isWrite a
  · exact ⟨a, Or.inl ⟨hw, rfl⟩⟩
  · have hr : E.isRead a := (hE.read_or_write a).resolve_right hw
    obtain ⟨w, hrf⟩ := hE.rf_exists hr
    exact ⟨w, Or.inr ⟨hw, hrf⟩⟩

theorem CohBefore.irrefl (hE : E.WellFormed) (a : α) : ¬ E.CohBefore a a := by
  rintro ⟨w, w', h, h', hco | ⟨-, hn, hw | hpo⟩⟩
  · rw [h.unique hE h'] at hco
    exact hE.co_irrefl w' hco
  · exact hn hw
  · exact hE.po_irrefl a hpo

theorem CohBefore.trans (hE : E.WellFormed) {a b c : α} (hab : E.CohBefore a b)
    (hbc : E.CohBefore b c) : E.CohBefore a c := by
  obtain ⟨w₁, w₂, ha, hb, hab⟩ := hab
  obtain ⟨w₂', w₃, hb', hc, hbc⟩ := hbc
  have heq := hb.unique hE hb'
  subst heq
  refine ⟨w₁, w₃, ha, hc, ?_⟩
  rcases hab with hab | ⟨rfl, hnb, hab⟩
  · rcases hbc with hbc | ⟨rfl, -, -⟩
    · exact Or.inl (hE.co_trans hab hbc)
    · exact Or.inl hab
  · rcases hbc with hbc | ⟨rfl, hnc, hbc⟩
    · exact Or.inl hbc
    · refine Or.inr ⟨rfl, hnc, ?_⟩
      rcases hab with hw | hpo
      · exact Or.inl hw
      · rcases hbc with hw | hpo'
        · exact absurd hw hnb
        · exact Or.inr (hE.po_trans hpo hpo')

/-- An execution with a global order that contains `ppo` and `co` and satisfies
the load-value axiom is coherent: `po` at one location, `rf`, `co` and `fr`
together have no cycle. -/
theorem sc_per_location (hE : E.WellFormed) (hg : StrictTotal gmo)
    (hppo : ∀ a b, E.ppo a b → gmo a b) (hco : ∀ a b, E.co a b → gmo a b)
    (hlv : E.LoadValue gmo) (hll : E.LoadLoadPreserved) :
    Acyclic (fun a b => E.poLoc a b ∨ E.rf a b ∨ E.co a b ∨ E.fr a b) := by
  have hord := order_sub_gmo hE hg hppo hco hlv
  have hset := hlv.settled hE hg hppo hco
  refine acyclic_of_subrelation (s := E.CohBefore) ?_ (CohBefore.irrefl hE)
    (fun _ _ _ => CohBefore.trans hE)
  rintro a b (⟨hpo, hloc⟩ | hrf | hab | ⟨w, hrf, hwb, hne⟩)
  · by_cases hb : E.isWrite b
    · by_cases ha : E.isWrite a
      · -- store then store
        have hgab := hppo a b (hE.ppo_store hpo hloc hb)
        exact ⟨a, b, Or.inl ⟨ha, rfl⟩, Or.inl ⟨hb, rfl⟩,
          Or.inl (co_of_gmo hE hg hco ha hb hloc hgab)⟩
      · -- load then store
        obtain ⟨w, hrf⟩ := hE.rf_exists ((hE.read_or_write a).resolve_right ha)
        exact ⟨w, b, Or.inr ⟨ha, hrf⟩, Or.inl ⟨hb, rfl⟩,
          Or.inl (source_co_of_po hE hg hppo hco hlv hb hpo hloc hrf)⟩
    · obtain ⟨w', hrf'⟩ := hE.rf_exists ((hE.read_or_write b).resolve_right hb)
      by_cases ha : E.isWrite a
      · -- store then load
        refine ⟨a, w', Or.inl ⟨ha, rfl⟩, Or.inr ⟨hb, hrf'⟩, ?_⟩
        rcases source_of_po hE hg hco hlv ha hpo hloc hrf' with rfl | h
        · exact Or.inr ⟨rfl, hb, Or.inl ha⟩
        · exact Or.inl h
      · -- load then load
        obtain ⟨w, hrf⟩ := hE.rf_exists ((hE.read_or_write a).resolve_right ha)
        refine ⟨w, w', Or.inr ⟨ha, hrf⟩, Or.inr ⟨hb, hrf'⟩, ?_⟩
        rcases source_mono_of_po hE hg hppo hco hlv hll hpo hloc hrf hrf' with rfl | h
        · exact Or.inr ⟨rfl, hb, Or.inr hpo⟩
        · exact Or.inl h
  · have ha := hE.rf_write hrf
    by_cases hb : E.isWrite b
    · -- a read that is also a write is coherence-after its source
      refine ⟨a, b, Or.inl ⟨ha, rfl⟩, Or.inl ⟨hb, rfl⟩, Or.inl ?_⟩
      have hgab : gmo a b := by
        rcases hE.rf_external_or_po hrf with hrfe | hpo | hpo
        · exact hord a b (Or.inr (Or.inl hrfe))
        · exact hppo a b (hE.ppo_store hpo (hE.rf_loc hrf) hb)
        · exact absurd hpo (hset a b hrf).1
      exact co_of_gmo hE hg hco ha hb (hE.rf_loc hrf) hgab
    · exact ⟨a, a, Or.inl ⟨ha, rfl⟩, Or.inr ⟨hb, hrf⟩, Or.inr ⟨rfl, hb, Or.inl ha⟩⟩
  · exact ⟨a, b, Or.inl ⟨hE.co_source hab, rfl⟩, Or.inl ⟨hE.co_target hab, rfl⟩, Or.inl hab⟩
  · have hb := hE.co_target hwb
    by_cases ha : E.isWrite a
    · refine ⟨a, b, Or.inl ⟨ha, rfl⟩, Or.inl ⟨hb, rfl⟩, Or.inl ?_⟩
      have hloc : E.loc a = E.loc b := (hE.rf_loc hrf).symm.trans (hE.co_loc hwb)
      exact co_of_gmo hE hg hco ha hb hloc (hord a b (Or.inr (Or.inr (Or.inr ⟨w, hrf, hwb, hne⟩))))
    · exact ⟨w, b, Or.inr ⟨ha, hrf⟩, Or.inl ⟨hb, rfl⟩, Or.inl hwb⟩

/-- An event that reads and writes comes right after its source in coherence order:
a write between the two would be from-read by the event and coherence-before it. -/
theorem immediate_of_loadValueAt (hE : E.WellFormed) (hg : StrictTotal gmo)
    (hsub : ∀ a b, E.order a b → gmo a b) {w a : α} (hrf : E.rf w a) (hwrite : E.isWrite a)
    (hload : E.LoadValueAt gmo w a) : E.co w a ∧ ∀ m, ¬ (E.co w m ∧ E.co m a) := by
  obtain ⟨⟨hsource, -, hloc, hvisible⟩, -⟩ := hload
  have hgmo : gmo w a := by
    rcases hvisible with hgmo | hpo
    · exact hgmo
    · exact hsub w a (Or.inl (hE.ppo_store hpo hloc hwrite))
  refine ⟨co_of_gmo hE hg (fun a b h => hsub a b (Or.inr (Or.inr (Or.inl h)))) hsource hwrite
    hloc hgmo, ?_⟩
  rintro m ⟨hwm, hma⟩
  have hne : m ≠ a := by
    rintro rfl
    exact hE.co_irrefl m hma
  have hfr : gmo a m := hsub a m (Or.inr (Or.inr (Or.inr ⟨w, hrf, hwm, hne⟩)))
  exact hg.asymm hfr (hsub m a (Or.inr (Or.inr (Or.inl hma))))

end Execution

end Axiomatic
