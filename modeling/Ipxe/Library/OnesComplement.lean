import Mathlib.Tactic

/-!
# One's complement sums of 16-bit words

Adding with end-around carry is adding modulo `0xffff`, where zero is represented by 0 only if
nothing else has been added.  So a sum is determined by the plain total (`onesRep`).
-/

namespace Ipxe.Library

/-- Addition with end-around carry. -/
def onesAdd (a b : ℕ) : ℕ := if a + b > 0xffff then a + b - 0xffff else a + b

variable (total : ℕ)

/-- The one's complement sum that stands for a total. -/
def onesRep : ℕ := if total = 0 then 0 else (total - 1) % 0xffff + 1

/-- A sum has 16 bits. -/
theorem onesRep_le : onesRep total ≤ 0xffff := by
  unfold onesRep
  split <;> omega

/-- What stands for a total. -/
theorem eq_onesRep {a total : ℕ} (hle : a ≤ 0xffff) (hmod : a % 0xffff = total % 0xffff)
    (hzero : a = 0 ↔ total = 0) : a = onesRep total := by
  unfold onesRep
  split <;> omega

/-- A word stands for itself. -/
theorem onesRep_of_le {a : ℕ} (h : a ≤ 0xffff) : onesRep a = a := (eq_onesRep h rfl Iff.rfl).symm

/-- Adding a word adds to the total. -/
theorem onesAdd_onesRep {b : ℕ} (total : ℕ) (hb : b ≤ 0xffff) :
    onesAdd (onesRep total) b = onesRep (total + b) := by
  unfold onesAdd onesRep
  split_ifs <;> omega

/-- A sum may be taken for its total. -/
theorem onesRep_add_onesRep (a b : ℕ) : onesRep (onesRep a + b) = onesRep (a + b) := by
  unfold onesRep
  split_ifs <;> omega

/-- With the complement filled in, all bits are set. -/
theorem onesRep_add_compl : onesRep (total + (0xffff - onesRep total)) = 0xffff := by
  unfold onesRep
  split_ifs <;> omega

end Ipxe.Library
