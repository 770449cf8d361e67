import Mathlib.Data.String.Basic
import Mathlib.Tactic

/-!
# Names

Texts are compared by the numbers that their bytes spell. The kernel compares
numbers at once, and spells a name only the first time it meets it.

* `decidableEqName`: the comparison, and `linearOrderName`: the order with it.
-/

namespace Name

/-- The number with the bytes as its digits, the first byte lowest, below a one. -/
def spelled : List UInt8 → Nat
  | [] => 1
  | b :: bs => b.toNat + 256 * spelled bs

theorem spelled_pos (bs : List UInt8) : 0 < spelled bs := by
  induction bs with
  | nil => exact Nat.one_pos
  | cons b bs ih =>
      unfold spelled
      omega

theorem spelled_injective {bs cs : List UInt8} (h : spelled bs = spelled cs) : bs = cs := by
  induction bs generalizing cs with
  | nil =>
      rcases cs with _ | ⟨c, cs⟩
      · rfl
      · -- one digit more is at least the base
        have hpos := spelled_pos cs
        unfold spelled at h
        omega
  | cons b bs ih =>
      rcases cs with _ | ⟨c, cs⟩
      · have hpos := spelled_pos bs
        unfold spelled at h
        omega
      · have hb : b.toNat < 256 := b.toNat_lt
        have hc : c.toNat < 256 := c.toNat_lt
        unfold spelled at h
        have hdigit : b.toNat = c.toNat := by omega
        have htail : spelled bs = spelled cs := by omega
        rw [UInt8.toNat_inj.mp hdigit, ih htail]

/-- The number that the bytes of the text spell. -/
def code (s : String) : Nat := spelled s.toByteArray.data.toList

theorem code_inj {s t : String} : code s = code t ↔ s = t := by
  constructor
  · intro h
    have hbytes := spelled_injective h
    rcases s with ⟨⟨⟨bs⟩⟩, hs⟩
    rcases t with ⟨⟨⟨cs⟩⟩, ht⟩
    change bs = cs at hbytes
    subst hbytes
    rfl
  · rintro rfl
    rfl

end Name

/-- Texts are equal when they spell the same number. -/
instance (priority := high) decidableEqName : DecidableEq String :=
  fun _ _ => decidable_of_iff _ Name.code_inj

/-- The test of equality decides equality. -/
instance (priority := high) lawfulBEqName : LawfulBEq String := inferInstance

/-- The order of texts, with this comparison. -/
instance (priority := high) linearOrderName : LinearOrder String :=
  { (inferInstance : LinearOrder String) with
    toDecidableEq := decidableEqName
    compare_eq_compareOfLessAndEq := fun a b => by
      rw [LinearOrder.compare_eq_compareOfLessAndEq]
      congr 1 }
