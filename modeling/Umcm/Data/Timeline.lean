import Mathlib.Order.Basic
import Mathlib.Data.Nat.Find
import Mathlib.Tactic.Push

/-!
# Timelines

A predicate over the instants of discrete time: where it rises and where it
falls, a flag that is set and cleared, and a lock that owners acquire and release.

* `Flag.on_iff`: a flag is on when it was set and neither set nor cleared since.
* `Lock.window`: owners that never acquire in the same instant and release in
  one instant only hold the lock one after the other.
-/

namespace Timeline

variable {held : ℕ → Prop}

/-- A predicate that becomes true rises in between. -/
theorem exists_rise {a b : ℕ} (hab : a ≤ b) (ha : ¬ held a) (hb : held b) :
    ∃ c, a ≤ c ∧ c < b ∧ ¬ held c ∧ held (c + 1) := by
  induction b, hab using Nat.le_induction with
  | base => exact absurd hb ha
  | succ b hab ih =>
      by_cases hheld : held b
      · obtain ⟨c, hac, hcb, hc⟩ := ih hheld
        exact ⟨c, hac, by omega, hc⟩
      · exact ⟨b, hab, by omega, hheld, hb⟩

/-- A predicate that becomes false holds until it first falls. -/
theorem exists_first_fall {a b : ℕ} (hab : a ≤ b) (ha : held a) (hb : ¬ held b) :
    ∃ c, a ≤ c ∧ c < b ∧ (∀ d, a ≤ d → d ≤ c → held d) ∧ ¬ held (c + 1) := by
  classical
  have hexists : ∃ d, a ≤ d ∧ ¬ held d := ⟨b, hab, hb⟩
  have hfirst := Nat.find_spec hexists
  have hbefore : ∀ d, a ≤ d → d < Nat.find hexists → held d := by
    intro d had hlt
    by_contra hd
    exact Nat.find_min hexists hlt ⟨had, hd⟩
  have hle : Nat.find hexists ≤ b := Nat.find_le ⟨hab, hb⟩
  have hne : a ≠ Nat.find hexists := by
    intro heq
    rw [← heq] at hfirst
    exact hfirst.2 ha
  obtain ⟨c, hc⟩ : ∃ c, Nat.find hexists = c + 1 := ⟨Nat.find hexists - 1, by omega⟩
  rw [hc] at hfirst hbefore hle
  exact ⟨c, by omega, by omega, fun d had hdc => hbefore d had (by omega), hfirst.2⟩

/-- A flag that starts off and changes only when it is set or cleared. -/
structure Flag (horizon : ℕ) (on Set Clear : ℕ → Prop) : Prop where
  start : ¬ on 0
  set : ∀ c, Set c → on (c + 1)
  clear : ∀ c, Clear c → ¬ on (c + 1)
  kept : ∀ c ≤ horizon, ¬ Set c → ¬ Clear c → (on (c + 1) ↔ on c)

namespace Flag

variable {horizon : ℕ} {on Set Clear : ℕ → Prop}

/-- A flag is not set and cleared in the same instant. -/
theorem not_clear_of_set (h : Flag horizon on Set Clear) {c : ℕ} (hset : Set c) : ¬ Clear c :=
  fun hclear => h.clear c hclear (h.set c hset)

/-- A flag is on when the last instant at which it was set or cleared set it. -/
theorem on_iff (h : Flag horizon on Set Clear) {c : ℕ} (hc : c ≤ horizon + 1) :
    on c ↔ ∃ d < c, Set d ∧ ∀ e, d < e → e < c → ¬ Set e ∧ ¬ Clear e := by
  induction c with
  | zero =>
      refine iff_of_false h.start ?_
      rintro ⟨d, hd, -⟩
      omega
  | succ c ih =>
      by_cases hset : Set c
      · refine iff_of_true (h.set c hset) ⟨c, by omega, hset, fun e hce hec => ?_⟩
        omega
      by_cases hclear : Clear c
      · refine iff_of_false (h.clear c hclear) ?_
        rintro ⟨d, hd, hsetd, hlast⟩
        rcases Nat.lt_succ_iff_lt_or_eq.mp hd with hd | rfl
        · exact (hlast c hd (by omega)).2 hclear
        · exact hset hsetd
      · -- nothing happens at `c`
        rw [h.kept c (by omega) hset hclear, ih (by omega)]
        constructor
        · rintro ⟨d, hd, hsetd, hlast⟩
          refine ⟨d, by omega, hsetd, fun e hde hec => ?_⟩
          rcases Nat.lt_succ_iff_lt_or_eq.mp hec with hec | rfl
          · exact hlast e hde hec
          · exact ⟨hset, hclear⟩
        · rintro ⟨d, hd, hsetd, hlast⟩
          rcases Nat.lt_succ_iff_lt_or_eq.mp hd with hd | rfl
          · exact ⟨d, hd, hsetd, fun e hde hec => hlast e hde (by omega)⟩
          · exact absurd hsetd hset

/-- A flag that is never cleared is on when it was set before. -/
theorem on_iff_exists (h : Flag horizon on Set (fun _ => False)) {c : ℕ} (hc : c ≤ horizon + 1) :
    on c ↔ ∃ d < c, Set d := by
  induction c with
  | zero => exact iff_of_false h.start (by rintro ⟨d, hd, -⟩; omega)
  | succ c ih =>
      by_cases hset : Set c
      · exact iff_of_true (h.set c hset) ⟨c, by omega, hset⟩
      · rw [h.kept c (by omega) hset id, ih (by omega)]
        constructor
        · rintro ⟨d, hd, hsetd⟩
          exact ⟨d, by omega, hsetd⟩
        · rintro ⟨d, hd, hsetd⟩
          rcases Nat.lt_succ_iff_lt_or_eq.mp hd with hd | rfl
          · exact ⟨d, hd, hsetd⟩
          · exact absurd hsetd hset

end Flag

/-- A lock that several owners acquire and release. It is free when it is
acquired, it is released by owners that have acquired it, and it falls only
because of a release. -/
structure Lock {Owner : Type*} (horizon : ℕ) (held : ℕ → Prop) (Acquire Release : Owner → ℕ → Prop) :
    Prop where
  acquire : ∀ o c, Acquire o c → c ≤ horizon ∧ ¬ held c ∧ held (c + 1)
  fall : ∀ c ≤ horizon, held c → ¬ held (c + 1) → ∃ o, Release o c
  justified : ∀ o c, Release o c → ∃ c' < c, Acquire o c'

namespace Lock

variable {Owner : Type*} {horizon : ℕ} {Acquire Release : Owner → ℕ → Prop}

/-- Different owners do not acquire in the same instant. -/
def Apart (Acquire : Owner → ℕ → Prop) : Prop :=
  ∀ o o' c, Acquire o c → Acquire o' c → o = o'

/-- An owner releases in one instant only. -/
def Once (Release : Owner → ℕ → Prop) : Prop :=
  ∀ o c c', Release o c → Release o c' → c = c'

/-- An owner releases before the next owner acquires. -/
theorem window (h : Lock horizon held Acquire Release) (hapart : Apart Acquire)
    (honce : Once Release) {o o' : Owner} {r r' : ℕ} (hr : Acquire o r) (hr' : Acquire o' r')
    (hlt : r < r') : ∃ e, Release o e ∧ r < e ∧ e < r' := by
  induction r using Nat.strong_induction_on generalizing o o' r' with
  | _ r ih =>
      obtain ⟨-, -, hheld⟩ := h.acquire o r hr
      obtain ⟨hhorizon, hfree, -⟩ := h.acquire o' r' hr'
      obtain ⟨d, hrd, hdr', hall, hfall⟩ := exists_first_fall (by omega) hheld hfree
      obtain ⟨p, hp⟩ := h.fall d (by omega) (hall d hrd le_rfl) hfall
      obtain ⟨s, hsd, hs⟩ := h.justified p d hp
      -- the lock is held after `r` up to `d`, so `p` has acquired it by `r`
      have hsr : s ≤ r := by
        by_contra hnot
        exact (h.acquire p s hs).2.1 (hall s (by omega) (by omega))
      rcases Nat.lt_or_eq_of_le hsr with hlt' | rfl
      · -- then it has released it before `r`, and not again at `d`
        obtain ⟨e, he, -, her⟩ := ih s hlt' hs hr hlt'
        have heq := honce p e d he hp
        omega
      · have heq : o = p := hapart o p s hr hs
        subst heq
        exact ⟨d, hp, by omega, by omega⟩

/-- Of two owners, one has released when the other acquires. -/
theorem exclusive (h : Lock horizon held Acquire Release) (hapart : Apart Acquire)
    (honce : Once Release) {o o' : Owner} {r r' : ℕ} (hne : o ≠ o') (hr : Acquire o r)
    (hr' : Acquire o' r') :
    (∃ e, Release o e ∧ r < e ∧ e < r') ∨ ∃ e, Release o' e ∧ r' < e ∧ e < r := by
  rcases Nat.lt_trichotomy r r' with hlt | rfl | hlt
  · exact Or.inl (h.window hapart honce hr hr' hlt)
  · exact absurd (hapart o o' r hr hr') hne
  · exact Or.inr (h.window hapart honce hr' hr hlt)

end Lock

end Timeline
