import Umcm.Graph.Candidates

/-!
# The coherence orders of an address

What the hints of an address do to the orders of its writes. A hint that names
a write which is not permuted makes `order.index` raise, so an order is kept,
dropped or *stuck*; `coChoice` fails with a graph error or gets stuck
accordingly.

* `respectsHints_eq_ok_true`, `respectsHints_eq_ok_false`, `respectsHints_eq_error`:
  the three outcomes of testing an order.
* `coChoice_eq_ok`, `coChoice_eq_valueError`, `coChoice_eq_graphError`: when the
  choices of an address are returned, get stuck and are rejected.
-/

namespace Umcm

open FinOrder Except

/-! ## Testing an order -/

/-- The order lists the writes of every hint as the hint says. -/
def Respects (order : List String) (hints : List CoEvidence) : Prop :=
  ∀ hint ∈ hints, Precedes order hint.beforeWriteId hint.afterWriteId

/-- Some hint is broken by the order, and the hints before it are not. -/
def Breaks (order : List String) (hints : List CoEvidence) : Prop :=
  ∃ tested hint rest, hints = tested ++ hint :: rest ∧ Respects order tested ∧
    hint.beforeWriteId ∈ order ∧ hint.afterWriteId ∈ order ∧
    ¬ Precedes order hint.beforeWriteId hint.afterWriteId

/-- Some hint names a write that the order does not list, and the hints before
it hold. -/
def Stuck (order : List String) (hints : List CoEvidence) : Prop :=
  ∃ tested hint rest, hints = tested ++ hint :: rest ∧ Respects order tested ∧
    (hint.beforeWriteId ∉ order ∨ hint.afterWriteId ∉ order)

instance (order : List String) (hints : List CoEvidence) : Decidable (Respects order hints) :=
  inferInstanceAs (Decidable (∀ hint ∈ hints, _ ∧ _ ∧ _))

theorem respects_cons {order : List String} {hint : CoEvidence} {hints : List CoEvidence} :
    Respects order (hint :: hints) ↔
      Precedes order hint.beforeWriteId hint.afterWriteId ∧ Respects order hints :=
  List.forall_mem_cons

/-- A property of the first hint that does not hold, read off the list. -/
theorem exists_split_cons {hint : CoEvidence} {hints : List CoEvidence} {order : List String}
    {p : CoEvidence → Prop} :
    (∃ tested h rest, hint :: hints = tested ++ h :: rest ∧ Respects order tested ∧ p h) ↔
      p hint ∨ (Precedes order hint.beforeWriteId hint.afterWriteId ∧
        ∃ tested h rest, hints = tested ++ h :: rest ∧ Respects order tested ∧ p h) := by
  constructor
  · rintro ⟨tested, h, rest, heq, htested, hh⟩
    cases tested with
    | nil =>
        cases heq
        exact Or.inl hh
    | cons first tested =>
        cases heq
        rw [respects_cons] at htested
        exact Or.inr ⟨htested.1, tested, h, rest, rfl, htested.2, hh⟩
  · rintro (hh | ⟨hfirst, tested, h, rest, rfl, htested, hh⟩)
    · exact ⟨[], hint, hints, rfl, by simp [Respects], hh⟩
    · exact ⟨hint :: tested, h, rest, rfl, respects_cons.mpr ⟨hfirst, htested⟩, hh⟩

theorem breaks_cons {order : List String} {hint : CoEvidence} {hints : List CoEvidence} :
    Breaks order (hint :: hints) ↔
      (hint.beforeWriteId ∈ order ∧ hint.afterWriteId ∈ order ∧
        ¬ Precedes order hint.beforeWriteId hint.afterWriteId) ∨
      (Precedes order hint.beforeWriteId hint.afterWriteId ∧ Breaks order hints) :=
  exists_split_cons (p := fun h => h.beforeWriteId ∈ order ∧ h.afterWriteId ∈ order ∧
    ¬ Precedes order h.beforeWriteId h.afterWriteId)

theorem stuck_cons {order : List String} {hint : CoEvidence} {hints : List CoEvidence} :
    Stuck order (hint :: hints) ↔
      (hint.beforeWriteId ∉ order ∨ hint.afterWriteId ∉ order) ∨
      (Precedes order hint.beforeWriteId hint.afterWriteId ∧ Stuck order hints) :=
  exists_split_cons (p := fun h => h.beforeWriteId ∉ order ∨ h.afterWriteId ∉ order)

/-- One test of an order: stuck, broken, or on to the next hint. -/
theorem respectsHints_cons (order : List String) (hint : CoEvidence) (hints : List CoEvidence) :
    (¬ (hint.beforeWriteId ∈ order ∧ hint.afterWriteId ∈ order) ∧
      respectsHints order (hint :: hints) = .error .valueError) ∨
    ((hint.beforeWriteId ∈ order ∧ hint.afterWriteId ∈ order ∧
        ¬ Precedes order hint.beforeWriteId hint.afterWriteId) ∧
      respectsHints order (hint :: hints) = .ok false) ∨
    (Precedes order hint.beforeWriteId hint.afterWriteId ∧
      respectsHints order (hint :: hints) = respectsHints order hints) := by
  rw [respectsHints]
  by_cases hmissing : hint.beforeWriteId ∉ order ∨ hint.afterWriteId ∉ order
  · rw [if_pos hmissing]
    exact Or.inl ⟨by tauto, rfl⟩
  · rw [if_neg hmissing]
    have hlisted : hint.beforeWriteId ∈ order ∧ hint.afterWriteId ∈ order := by tauto
    by_cases hlt : order.idxOf hint.beforeWriteId < order.idxOf hint.afterWriteId
    · rw [if_pos hlt]
      exact Or.inr (Or.inr ⟨⟨hlisted.1, hlisted.2, hlt⟩, rfl⟩)
    · rw [if_neg hlt]
      exact Or.inr (Or.inl ⟨⟨hlisted.1, hlisted.2, fun h => hlt h.2.2⟩, rfl⟩)

theorem respectsHints_eq_ok_true {order : List String} {hints : List CoEvidence} :
    respectsHints order hints = .ok true ↔ Respects order hints := by
  induction hints with
  | nil => simp [respectsHints, Respects]
  | cons hint hints ih =>
      rw [respects_cons]
      rcases respectsHints_cons order hint hints with ⟨h, heq⟩ | ⟨h, heq⟩ | ⟨h, heq⟩
      · simp only [heq, reduceCtorEq, false_iff]
        exact fun hrespects => h ⟨hrespects.1.1, hrespects.1.2.1⟩
      · simp only [heq, ok.injEq, Bool.false_eq_true, false_iff]
        exact fun hrespects => h.2.2 hrespects.1
      · rw [heq, ih]
        simp [h]

theorem respectsHints_eq_ok_false {order : List String} {hints : List CoEvidence} :
    respectsHints order hints = .ok false ↔ Breaks order hints := by
  induction hints with
  | nil => simp [respectsHints, Breaks]
  | cons hint hints ih =>
      rw [breaks_cons]
      rcases respectsHints_cons order hint hints with ⟨h, heq⟩ | ⟨h, heq⟩ | ⟨h, heq⟩
      · simp only [heq, reduceCtorEq, false_iff]
        rintro (⟨hb, ha, -⟩ | ⟨hprecedes, -⟩)
        · exact h ⟨hb, ha⟩
        · exact h ⟨hprecedes.1, hprecedes.2.1⟩
      · simp only [heq, true_iff]
        exact Or.inl h
      · rw [heq, ih]
        simp [h]

theorem respectsHints_eq_error {order : List String} {hints : List CoEvidence} {e : PyError} :
    respectsHints order hints = .error e ↔ e = .valueError ∧ Stuck order hints := by
  induction hints with
  | nil => simp [respectsHints, Stuck]
  | cons hint hints ih =>
      rw [stuck_cons]
      rcases respectsHints_cons order hint hints with ⟨h, heq⟩ | ⟨h, heq⟩ | ⟨h, heq⟩
      · rw [heq, error.injEq, eq_comm]
        exact ⟨fun he => ⟨he, Or.inl (by tauto)⟩, fun he => he.1⟩
      · simp only [heq, reduceCtorEq, false_iff]
        rintro ⟨-, hstuck | ⟨hprecedes, -⟩⟩
        · exact hstuck.elim (fun hb => hb h.1) (fun ha => ha h.2.1)
        · exact h.2.2 hprecedes
      · rw [heq, ih]
        have hb := h.1
        have ha := h.2.1
        simp [h, hb, ha]

/-- Hints that only name listed writes never get an order stuck. -/
theorem not_stuck_of_listed {order : List String} {hints : List CoEvidence}
    (h : ∀ hint ∈ hints, hint.beforeWriteId ∈ order ∧ hint.afterWriteId ∈ order) :
    ¬ Stuck order hints := by
  rintro ⟨tested, hint, rest, rfl, -, hmissing⟩
  have hlisted := h hint (List.mem_append_right _ List.mem_cons_self)
  exact hmissing.elim (fun hb => hb hlisted.1) (fun ha => ha hlisted.2)

/-- An order that is not stuck respects the hints or breaks one. -/
theorem respects_or_breaks {order : List String} {hints : List CoEvidence}
    (h : ¬ Stuck order hints) : Respects order hints ∨ Breaks order hints := by
  cases hresult : respectsHints order hints with
  | error e => exact absurd (respectsHints_eq_error.mp hresult).2 h
  | ok keep =>
      cases keep
      · exact Or.inr (respectsHints_eq_ok_false.mp hresult)
      · exact Or.inl (respectsHints_eq_ok_true.mp hresult)

theorem not_respects_of_breaks {order : List String} {hints : List CoEvidence}
    (h : Breaks order hints) : ¬ Respects order hints := by
  obtain ⟨tested, hint, rest, rfl, -, -, -, hbroken⟩ := h
  exact fun hrespects => hbroken (hrespects hint (List.mem_append_right _ List.mem_cons_self))

/-! ## Filtering the orders -/

theorem filterOrders_eq_ok {hints : List CoEvidence} {orders kept : List (List String)} :
    filterOrders hints orders = .ok kept ↔
      (∀ order ∈ orders, ¬ Stuck order hints) ∧ kept = orders.filter (Respects · hints) := by
  induction orders generalizing kept with
  | nil => simp [filterOrders, eq_comm]
  | cons order rest ih =>
      rw [filterOrders, bind_eq_ok, List.forall_mem_cons]
      constructor
      · rintro ⟨keep, hkeep, h⟩
        obtain ⟨orders, horders, h⟩ := bind_eq_ok.mp h
        obtain ⟨hrest, rfl⟩ := ih.mp horders
        cases h
        have hstuck : ¬ Stuck order hints := by
          intro hstuck
          rw [respectsHints_eq_error.mpr ⟨rfl, hstuck⟩] at hkeep
          cases hkeep
        refine ⟨⟨hstuck, hrest⟩, ?_⟩
        cases keep
        · have hnot := not_respects_of_breaks (respectsHints_eq_ok_false.mp hkeep)
          simp [hnot]
        · simp [respectsHints_eq_ok_true.mp hkeep]
      · rintro ⟨⟨hstuck, hrest⟩, rfl⟩
        have horders := ih.mpr ⟨hrest, rfl⟩
        rcases respects_or_breaks hstuck with hrespects | hbreaks
        · refine ⟨true, respectsHints_eq_ok_true.mpr hrespects, ?_⟩
          rw [horders, ok_bind]
          simp [hrespects, pure, Except.pure]
        · refine ⟨false, respectsHints_eq_ok_false.mpr hbreaks, ?_⟩
          rw [horders, ok_bind]
          simp [not_respects_of_breaks hbreaks, pure, Except.pure]

theorem filterOrders_raises (hints : List CoEvidence) (orders : List (List String)) :
    Raises (fun e => e = .valueError) (filterOrders hints orders) := by
  induction orders with
  | nil => exact raises_ok _
  | cons order rest ih =>
      refine Raises.bind (fun e he => (respectsHints_eq_error.mp he).1) (fun _ _ => ?_)
      exact ih.bind (fun _ _ => raises_ok _)

theorem filterOrders_eq_error {hints : List CoEvidence} {orders : List (List String)} {e : PyError} :
    filterOrders hints orders = .error e ↔
      e = .valueError ∧ ∃ order ∈ orders, Stuck order hints := by
  constructor
  · intro h
    refine ⟨filterOrders_raises hints orders e h, ?_⟩
    by_contra hno
    push Not at hno
    rw [filterOrders_eq_ok.mpr ⟨hno, rfl⟩] at h
    cases h
  · rintro ⟨rfl, order, horder, hstuck⟩
    cases hresult : filterOrders hints orders with
    | ok kept => exact absurd hstuck ((filterOrders_eq_ok.mp hresult).1 order horder)
    | error e => rw [filterOrders_raises hints orders e hresult]

/-! ## The choices of an address -/

section Choices

variable {operations : List MemoryOperation} {hints : List CoEvidence} {address : Value}
  (hnd : (operations.map MemoryOperation.id).Nodup)

include hnd in
theorem validateHintedWrite_eq_ok {hint : CoEvidence} {id : String} {u : Unit} :
    validateHintedWrite operations address hint id = .ok u ↔
      ∃ w ∈ operations, w.id = id ∧ w.isWrite = true ∧ w.address.key = address.key := by
  unfold validateHintedWrite
  cases hfind : (findOp operations id).filter MemoryOperation.isWrite with
  | none =>
      simp only [reduceCtorEq, false_iff]
      rintro ⟨w, hw, hid, hwrite, -⟩
      have hsome := (findOp_filter_write hnd).mpr ⟨hw, hid, hwrite⟩
      rw [hfind] at hsome
      cases hsome
  | some w =>
      obtain ⟨hw, hid, hwrite⟩ := (findOp_filter_write hnd).mp hfind
      simp only [require_eq_ok, Value.pyEq_iff]
      constructor
      · intro haddress
        exact ⟨w, hw, hid, hwrite, haddress⟩
      · rintro ⟨w', hw', hid', -, haddress⟩
        rwa [List.inj_on_of_nodup_map hnd hw hw' (hid.trans hid'.symm)]

include hnd in
theorem validateCoHint_eq_ok {hint : CoEvidence} {u : Unit}
    (haddress : hint.address.key = address.key) :
    validateCoHint operations address hint = .ok u ↔ CoHintValid operations hint := by
  simp only [validateCoHint, bind_eq_ok, validateHintedWrite_eq_ok hnd, require_eq_ok]
  constructor
  · rintro ⟨_, ⟨a, ha, hida, hwritea, haddra⟩, _, ⟨b, hb, hidb, hwriteb, haddrb⟩, hne⟩
    refine ⟨a, ha, b, hb, hida, hidb, ⟨hwritea, hwriteb, haddra.trans haddrb.symm, ?_⟩,
      haddra.trans haddress.symm⟩
    rintro rfl
    exact hne (hida.symm.trans hidb)
  · rintro ⟨a, ha, b, hb, hida, hidb, hsame, haddra⟩
    have haddra' := haddra.trans haddress
    refine ⟨(), ⟨a, ha, hida, hsame.left, haddra'⟩, (),
      ⟨b, hb, hidb, hsame.right, hsame.address.symm.trans haddra'⟩, ?_⟩
    rw [← hida, ← hidb]
    exact (id_ne_iff hnd ha hb).mpr hsame.ne

theorem mem_hintsAt {hint : CoEvidence} :
    hint ∈ hintsAt hints address ↔ hint ∈ hints ∧ hint.address.key = address.key := by
  rw [hintsAt, List.mem_filter, Value.pyEq_iff]

/-- The hints of the address name two different writes of it. -/
def HintsValidAt (operations : List MemoryOperation) (hints : List CoEvidence) (address : Value) :
    Prop :=
  ∀ hint ∈ hintsAt hints address, CoHintValid operations hint

/-- The choices of an address get stuck on a hint. -/
def StuckAt (operations : List MemoryOperation) (hints : List CoEvidence) (address : Value) : Prop :=
  HintsValidAt operations hints address ∧
    ∃ order ∈ orderCandidates operations address, Stuck order (hintsAt hints address)

/-- The choices of an address: the orders of the permuted writes that respect
its hints. -/
def coherentOrders (operations : List MemoryOperation) (hints : List CoEvidence) (address : Value) :
    List (List String) :=
  (orderCandidates operations address).filter (Respects · (hintsAt hints address))

theorem mem_coherentOrders {order : List String} :
    order ∈ coherentOrders operations hints address ↔
      order ∈ orderCandidates operations address ∧ Respects order (hintsAt hints address) := by
  rw [coherentOrders, List.mem_filter, decide_eq_true_eq]

/-- The choices of an address fail with a graph error: a hint is no good, or
every order breaks one. -/
def RejectedAt (operations : List MemoryOperation) (hints : List CoEvidence) (address : Value) :
    Prop :=
  ¬ HintsValidAt operations hints address ∨
    ∀ order ∈ orderCandidates operations address, Breaks order (hintsAt hints address)

include hnd in
theorem forM_validateCoHint_eq_ok {u : PUnit} :
    (hintsAt hints address).forM (validateCoHint operations address) = .ok u ↔
      HintsValidAt operations hints address := by
  rw [forM_eq_ok]
  constructor
  · intro h hint hmem
    exact (validateCoHint_eq_ok hnd (mem_hintsAt.mp hmem).2).mp (h hint hmem)
  · intro h hint hmem
    exact (validateCoHint_eq_ok hnd (mem_hintsAt.mp hmem).2).mpr (h hint hmem)

include hnd in
theorem coChoice_eq_ok (hinit : (initWritesAt operations address).length ≤ 1)
    {p : Value × List (List String)} :
    coChoice operations hints address = .ok p ↔ HintsValidAt operations hints address ∧
      (∀ order ∈ orderCandidates operations address, ¬ Stuck order (hintsAt hints address)) ∧
      coherentOrders operations hints address ≠ [] ∧
      p = (address, coherentOrders operations hints address) := by
  simp only [coChoice, bind_eq_ok, require_eq_ok, forM_validateCoHint_eq_ok hnd, filterOrders_eq_ok]
  constructor
  · rintro ⟨_, -, _, hvalid, orders, ⟨hstuck, rfl⟩, _, hne, h⟩
    cases h
    exact ⟨hvalid, hstuck, hne, rfl⟩
  · rintro ⟨hvalid, hstuck, hne, rfl⟩
    exact ⟨(), hinit, ⟨⟩, hvalid, _, ⟨hstuck, rfl⟩, (), hne, rfl⟩

theorem validateHintedWrite_raises (hint : CoEvidence) (id : String) :
    GraphRaises (validateHintedWrite operations address hint id) := by
  unfold validateHintedWrite
  split
  · exact raises_error rfl
  · exact raises_require rfl

theorem validateCoHint_raises (hint : CoEvidence) :
    GraphRaises (validateCoHint operations address hint) := by
  refine (validateHintedWrite_raises _ _).bind (fun _ _ => ?_)
  refine (validateHintedWrite_raises _ _).bind (fun _ _ => ?_)
  exact raises_require rfl

include hnd in
/-- The choices of an address end in a value error exactly when they get stuck. -/
theorem coChoice_eq_valueError (hinit : (initWritesAt operations address).length ≤ 1) :
    coChoice operations hints address = .error .valueError ↔ StuckAt operations hints address := by
  rw [coChoice, require, if_pos hinit, ok_bind]
  have hvalidates : Raises (fun e => e.isGraphError = true)
      ((hintsAt hints address).forM (validateCoHint operations address)) :=
    Raises.forM (fun hint _ => validateCoHint_raises hint)
  cases hforM : (hintsAt hints address).forM (validateCoHint operations address) with
  | error e =>
      have hinvalid : ¬ HintsValidAt operations hints address := by
        intro hvalid
        rw [(forM_validateCoHint_eq_ok hnd (u := ⟨⟩)).mpr hvalid] at hforM
        cases hforM
      have he := hvalidates e hforM
      rw [error_bind, error.injEq]
      constructor
      · rintro rfl
        cases he
      · exact fun hstuck => absurd hstuck.1 hinvalid
  | ok u =>
      have hvalid := (forM_validateCoHint_eq_ok hnd).mp hforM
      rw [ok_bind]
      cases hfilter : filterOrders (hintsAt hints address) (orderCandidates operations address) with
      | error e =>
          obtain ⟨rfl, hstuck⟩ := filterOrders_eq_error.mp hfilter
          simp only [error_bind, true_iff]
          exact ⟨hvalid, hstuck⟩
      | ok orders =>
          have hnot := (filterOrders_eq_ok.mp hfilter).1
          rw [ok_bind]
          constructor
          · intro h
            rw [require] at h
            split at h <;> cases h
          · rintro ⟨-, order, horder, hstuck⟩
            exact absurd hstuck (hnot order horder)

theorem coChoice_raises :
    Raises (fun e => e.isGraphError = true ∨ e = .valueError)
      (coChoice operations hints address) := by
  refine Raises.bind ?_ (fun _ _ => Raises.bind ?_ (fun _ _ => Raises.bind ?_ (fun _ _ => ?_)))
  · exact raises_require (Or.inl rfl)
  · exact Raises.forM (fun hint _ e he => Or.inl (validateCoHint_raises hint e he))
  · exact fun e he => Or.inr (filterOrders_raises _ _ e he)
  · refine Raises.bind ?_ (fun _ _ => raises_ok _)
    exact raises_require (Or.inl rfl)

include hnd in
/-- The choices of an address end in a graph error exactly when it is rejected. -/
theorem coChoice_eq_graphError (hinit : (initWritesAt operations address).length ≤ 1) :
    (∃ m, coChoice operations hints address = .error (.graphError m)) ↔
      RejectedAt operations hints address := by
  constructor
  · rintro ⟨m, h⟩
    by_contra hnot
    rw [RejectedAt, not_or, not_not] at hnot
    obtain ⟨hvalid, horders⟩ := hnot
    push Not at horders
    by_cases hstuck : StuckAt operations hints address
    · rw [(coChoice_eq_valueError hnd hinit).mpr hstuck] at h
      cases h
    · have hnone : ∀ order ∈ orderCandidates operations address,
          ¬ Stuck order (hintsAt hints address) := fun order horder hs =>
        hstuck ⟨hvalid, order, horder, hs⟩
      obtain ⟨order, horder, hbreaks⟩ := horders
      have hrespects := (respects_or_breaks (hnone order horder)).resolve_right hbreaks
      have hne : coherentOrders operations hints address ≠ [] :=
        List.ne_nil_of_mem (mem_coherentOrders.mpr ⟨horder, hrespects⟩)
      rw [(coChoice_eq_ok hnd hinit).mpr ⟨hvalid, hnone, hne, rfl⟩] at h
      cases h
  · intro hrejected
    have hnotValid_or : ∀ {order}, order ∈ orderCandidates operations address →
        Respects order (hintsAt hints address) ∨ Stuck order (hintsAt hints address) →
        ¬ HintsValidAt operations hints address := by
      rintro order horder hcases hvalid
      have hbreaks := (hrejected.resolve_left (not_not_intro hvalid)) order horder
      have hfalse := respectsHints_eq_ok_false.mpr hbreaks
      rcases hcases with hrespects | hstuck
      · exact not_respects_of_breaks hbreaks hrespects
      · rw [respectsHints_eq_error.mpr ⟨rfl, hstuck⟩] at hfalse
        cases hfalse
    cases h : coChoice operations hints address with
    | ok p =>
        obtain ⟨hvalid, -, hne, -⟩ := (coChoice_eq_ok hnd hinit).mp h
        obtain ⟨order, horder⟩ := List.exists_mem_of_ne_nil _ hne
        obtain ⟨horder, hrespects⟩ := mem_coherentOrders.mp horder
        exact absurd hvalid (hnotValid_or horder (Or.inl hrespects))
    | error e =>
        rcases coChoice_raises e h with he | rfl
        · obtain ⟨message, rfl⟩ := PyError.isGraphError_iff.mp he
          exact ⟨message, rfl⟩
        · obtain ⟨hvalid, order, horder, hstuck⟩ := (coChoice_eq_valueError hnd hinit).mp h
          exact absurd hvalid (hnotValid_or horder (Or.inr hstuck))

end Choices

end Umcm
