import Mathlib.Data.BitVec
import Mathlib.Tactic

/-!
# Masks

A mask takes some bits of a word; a mask of the lowest bits takes the remainder of a
division by a power of two, and its complement takes the rest.
-/

namespace Ipxe.Library

open BitVec

variable {w : ℕ}

/-- The bits of a mask and the others add up to the word. -/
theorem and_add_and_not (x m : BitVec w) : (x &&& m) + (x &&& ~~~m) = x := by
  have hapart : (x &&& m) &&& (x &&& ~~~m) = 0#w :=
    eq_of_getLsbD_eq fun i hi => by cases hm : m[i] <;> simp [hi, hm]
  have hboth : (x &&& m) ||| (x &&& ~~~m) = x :=
    eq_of_getLsbD_eq fun i hi => by simp [hi, ← Bool.and_or_distrib_left]
  rw [add_eq_or_of_and_eq_zero _ _ hapart, hboth]

/-- Subtracting the bits of a mask clears them. -/
theorem sub_and_eq (x m : BitVec w) : x - (x &&& m) = x &&& ~~~m := by
  nth_rewrite 1 [← and_add_and_not x m]
  rw [add_sub_cancel_left]

/-- What is cleared meets no bit of the mask. -/
theorem sub_and_and (x m : BitVec w) : (x - (x &&& m)) &&& m = 0#w := by
  rw [sub_and_eq]
  exact eq_of_getLsbD_eq fun i hi => by simp [hi]

/-- Clear of both masks is clear of one. -/
theorem and_eq_zero_of_or {x m n : BitVec w} (h : x &&& (m ||| n) = 0#w) : x &&& m = 0#w := by
  have hand : x &&& m = (x &&& (m ||| n)) &&& m :=
    eq_of_getLsbD_eq fun i hi => by
      cases hm : m.getLsbD i <;> simp [hm]
  rw [hand, h, zero_and]

section

variable {s : ℕ}

/-- The mask of the lowest `s` bits. -/
theorem toNat_twoPow_sub_one (hs : s < w) : (BitVec.twoPow w s - 1).toNat = 2 ^ s - 1 := by
  have hone : (1 : BitVec w).toNat = 1 := by
    have hlt : 1 < 2 ^ w := Nat.one_lt_two_pow (by omega)
    exact Nat.mod_eq_of_lt hlt
  rw [toNat_sub_of_le, toNat_twoPow_of_lt hs, hone]
  rw [le_def, toNat_twoPow_of_lt hs, hone]
  exact Nat.one_le_two_pow

/-- The lowest bits are the remainder. -/
theorem toNat_and_low (x : BitVec w) (hs : s < w) :
    (x &&& (BitVec.twoPow w s - 1)).toNat = x.toNat % 2 ^ s := by
  rw [toNat_and, toNat_twoPow_sub_one hs, Nat.and_two_pow_sub_one_eq_mod]

/-- The other bits are the quotient. -/
theorem toNat_and_not_low (x : BitVec w) (hs : s < w) :
    (x &&& ~~~(BitVec.twoPow w s - 1)).toNat = x.toNat / 2 ^ s * 2 ^ s := by
  rw [← sub_and_eq, toNat_sub_of_le, toNat_and_low x hs]
  · have hdiv := Nat.div_add_mod' x.toNat (2 ^ s)
    omega
  · rw [le_def, toNat_and_low x hs]
    exact Nat.mod_le _ _

end

end Ipxe.Library
