import Umcm.Data.Name
import Mathlib.Data.List.MinMax
import Mathlib.Data.List.Sort
import Mathlib.Data.Finset.Sort
import Mathlib.Data.Finset.Image
import Mathlib.Tactic

/-!
# Sorted listing of a finite set

`sortedList s` lists the elements of `s` in increasing order. It reduces on
closed sets, unlike a listing by merge sort.
-/

variable {α : Type*} [LinearOrder α]

/-- The elements of a finite set in increasing order. -/
def sortedList (s : Finset α) : List α :=
  Quot.liftOn s.val (fun l => l.insertionSort (· ≤ ·)) (by
    intro l l' h
    exact List.Perm.eq_of_pairwise (fun a b _ _ => le_antisymm) (List.pairwise_insertionSort _ l)
      (List.pairwise_insertionSort _ l')
      ((List.perm_insertionSort _ l).trans (h.trans (List.perm_insertionSort _ l').symm)))

theorem coe_sortedList (s : Finset α) : (sortedList s : Multiset α) = s.val := by
  obtain ⟨m, hm⟩ := s
  induction m using Quot.inductionOn with
  | h l => exact Quot.sound (List.perm_insertionSort _ l)

@[simp] theorem mem_sortedList {s : Finset α} {a : α} : a ∈ sortedList s ↔ a ∈ s := by
  rw [← Multiset.mem_coe, coe_sortedList]
  rfl

theorem nodup_sortedList (s : Finset α) : (sortedList s).Nodup := by
  rw [← Multiset.coe_nodup, coe_sortedList]
  exact s.nodup

/-- Sorting forgets the order of the list. -/
theorem insertionSort_eq_of_perm {l l' : List α} (h : l.Perm l') :
    l.insertionSort (· ≤ ·) = l'.insertionSort (· ≤ ·) :=
  List.Perm.eq_of_pairwise (fun _ _ _ _ => le_antisymm) (List.pairwise_insertionSort _ l)
    (List.pairwise_insertionSort _ l')
    ((List.perm_insertionSort _ l).trans (h.trans (List.perm_insertionSort _ l').symm))

/-- Sorting by a key that tells the elements apart forgets the order of the list. -/
theorem insertionSort_key_eq_of_perm {β : Type*} {key : β → α} {l l' : List β} (h : l.Perm l')
    (hinj : ∀ a ∈ l, ∀ b ∈ l, key a = key b → a = b) :
    l.insertionSort (fun a b => key a ≤ key b) = l'.insertionSort (fun a b => key a ≤ key b) := by
  have htotal : Std.Total (fun a b : β => key a ≤ key b) := ⟨fun a b => le_total (key a) (key b)⟩
  have htrans : IsTrans β (fun a b => key a ≤ key b) := ⟨fun _ _ _ => le_trans⟩
  refine List.Perm.eq_of_pairwise (fun a b ha hb hab hba => ?_)
    (List.pairwise_insertionSort _ l) (List.pairwise_insertionSort _ l')
    ((List.perm_insertionSort _ l).trans (h.trans (List.perm_insertionSort _ l').symm))
  rw [List.mem_insertionSort] at ha hb
  exact hinj a ha b (h.mem_iff.mpr hb) (le_antisymm hab hba)

/-- Where the maximum is attained once, it does not depend on the order of the list. -/
theorem argmax_eq_of_perm {β : Type*} {f : β → α} {l l' : List β} (hperm : l.Perm l')
    (hinj : ∀ a ∈ l, ∀ b ∈ l, f a = f b → a = b) : l.argmax f = l'.argmax f := by
  classical
  have hiff : ∀ {l : List β}, (∀ a ∈ l, ∀ b ∈ l, f a = f b → a = b) → ∀ m,
      l.argmax f = some m ↔ m ∈ l ∧ ∀ a ∈ l, f a ≤ f m := by
    intro l hinj m
    rw [List.argmax_eq_some_iff]
    constructor
    · exact fun h => ⟨h.1, h.2.1⟩
    · rintro ⟨hm, hmax⟩
      refine ⟨hm, hmax, fun a ha hle => ?_⟩
      rw [hinj a ha m hm (le_antisymm (hmax a ha) hle)]
  have hinj' : ∀ a ∈ l', ∀ b ∈ l', f a = f b → a = b :=
    fun a ha b hb => hinj a (hperm.mem_iff.mpr ha) b (hperm.mem_iff.mpr hb)
  refine Option.ext (fun m => ?_)
  rw [hiff hinj, hiff hinj', hperm.mem_iff]
  simp only [hperm.mem_iff]
