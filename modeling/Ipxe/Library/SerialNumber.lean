import Mathlib.Data.BitVec
import Mathlib.Tactic

/-!
# Serial number arithmetic

Sequence numbers that wrap around, compared through the sign of their difference.
As long as two numbers are at most half the range apart, the comparison is that of
the unwrapped offsets from any common base.
-/

namespace Ipxe.Library

variable {w : ℕ}

variable (base : BitVec w) {n : ℕ} (a : BitVec w)

/-- The signed difference of two serial numbers. -/
def serialCmp (a b : BitVec w) : ℤ := (a - b).toInt

/-- The serial number at a given offset from a base. -/
def serialAt (base : BitVec w) (offset : ℕ) : BitVec w := base + BitVec.ofNat w offset

/-- Going on from a number. -/
theorem serialAt_add (m n : ℕ) : serialAt base m + BitVec.ofNat w n = serialAt base (m + n) := by
  rw [serialAt, serialAt, BitVec.add_assoc, BitVec.ofNat_add]

/-- The difference of two numbers is their distance. -/
theorem serialAt_sub (m n : ℕ) : serialAt base m - serialAt base n = BitVec.ofInt w (m - n) := by
  have hsum : BitVec.ofInt w ((m : ℤ) - n) + BitVec.ofNat w n = BitVec.ofNat w m := by
    rw [← BitVec.ofInt_natCast, ← BitVec.ofInt_add, sub_add_cancel, BitVec.ofInt_natCast]
  rw [serialAt, serialAt, add_sub_add_left_eq_sub, ← hsum, add_sub_cancel_right]

variable {m : ℕ}

/-- **Comparison of serial numbers is exact** within half the range. -/
theorem serialCmp_serialAt (hback : ((n : ℤ) - m) * 2 ≤ 2 ^ w)
    (hforth : ((m : ℤ) - n) * 2 < 2 ^ w) :
    serialCmp (serialAt base m) (serialAt base n) = m - n := by
  rw [serialCmp, serialAt_sub, BitVec.toInt_ofInt]
  apply Int.bmod_eq_of_le_mul_two <;> push_cast <;> linarith

/-- Near numbers have their distance with its sign. -/
theorem toInt_ofNat_sub (hback : ((n : ℤ) - m) * 2 ≤ 2 ^ w)
    (hforth : ((m : ℤ) - n) * 2 < 2 ^ w) : (BitVec.ofNat w m - BitVec.ofNat w n).toInt = m - n := by
  have h := serialCmp_serialAt (0#w) hback hforth
  rwa [serialCmp, serialAt, serialAt, BitVec.zero_add, BitVec.zero_add] at h

/-- A distance forwards. -/
theorem toNat_serialAt_sub (h : m ≤ n) (hlt : n - m < 2 ^ w) :
    (serialAt base n - serialAt base m).toNat = n - m := by
  rw [serialAt_sub, ← Int.ofNat_sub h, BitVec.ofInt_natCast, BitVec.toNat_ofNat,
    Nat.mod_eq_of_lt hlt]

/-- Less than one round is unambiguous. -/
theorem serialAt_inj (hm : m < 2 ^ w) (hn : n < 2 ^ w) :
    serialAt base m = serialAt base n ↔ m = n := by
  constructor
  · intro h
    have hof : BitVec.ofNat w m = BitVec.ofNat w n := add_left_cancel h
    have hnat := congrArg BitVec.toNat hof
    rwa [BitVec.toNat_ofNat, BitVec.toNat_ofNat, Nat.mod_eq_of_lt hm, Nat.mod_eq_of_lt hn] at hnat
  · rintro rfl
    rfl

/-! Any number can be the base from which two others are compared. -/

/-- A difference by the distances from a base. -/
theorem sub_eq_ofInt (b : BitVec w) :
    a - b = BitVec.ofInt w (serialCmp a base - serialCmp b base) := by
  rw [← sub_sub_sub_cancel_right a b base]
  apply BitVec.eq_of_toInt_eq
  rw [BitVec.toInt_sub, BitVec.toInt_ofInt, serialCmp, serialCmp]

/-- A number near zero is represented. -/
theorem toInt_ofInt_near {v : ℤ} (hback : -v * 2 ≤ 2 ^ w) (hforth : v * 2 < 2 ^ w) :
    (BitVec.ofInt w v).toInt = v := by
  rw [BitVec.toInt_ofInt]
  apply Int.bmod_eq_of_le_mul_two <;> push_cast <;> linarith

/-- Comparison by the distances from a base. -/
theorem serialCmp_eq_sub (b : BitVec w) (hback : (serialCmp b base - serialCmp a base) * 2 ≤ 2 ^ w)
    (hforth : (serialCmp a base - serialCmp b base) * 2 < 2 ^ w) :
    serialCmp a b = serialCmp a base - serialCmp b base := by
  rw [serialCmp, sub_eq_ofInt base a b, toInt_ofInt_near (by linarith) (by linarith)]

/-- Moving a number moves its distance. -/
theorem serialCmp_add (n : ℕ) (hback : -(serialCmp a base + n) * 2 ≤ 2 ^ w)
    (hforth : (serialCmp a base + n) * 2 < 2 ^ w) :
    serialCmp (a + BitVec.ofNat w n) base = serialCmp a base + n := by
  have hsum : a + BitVec.ofNat w n - base = BitVec.ofInt w (serialCmp a base + n) := by
    rw [BitVec.ofInt_add, BitVec.ofInt_natCast, serialCmp, BitVec.ofInt_toInt, add_sub_right_comm]
  rw [serialCmp, hsum, toInt_ofInt_near hback hforth]

/-- Moving the base moves it back. -/
theorem serialCmp_advance (n : ℕ) (hback : -(serialCmp a base - n) * 2 ≤ 2 ^ w)
    (hforth : (serialCmp a base - n) * 2 < 2 ^ w) :
    serialCmp a (base + BitVec.ofNat w n) = serialCmp a base - n := by
  have hbase : serialCmp a (base + BitVec.ofNat w n) =
      (BitVec.ofInt w (serialCmp a base - n)).toInt := by
    have hsum : BitVec.ofInt w (serialCmp a base - n) + BitVec.ofNat w n = a - base := by
      rw [← BitVec.ofInt_natCast, ← BitVec.ofInt_add, sub_add_cancel, serialCmp, BitVec.ofInt_toInt]
    rw [serialCmp, ← sub_sub, ← hsum, add_sub_cancel_right]
  rw [hbase, toInt_ofInt_near hback hforth]

/-- A distance forwards, from a base. -/
theorem toNat_sub_eq {a b : BitVec w} (h : serialCmp b base ≤ serialCmp a base)
    (hlt : serialCmp a base - serialCmp b base < 2 ^ w) :
    ((a - b).toNat : ℤ) = serialCmp a base - serialCmp b base := by
  rw [sub_eq_ofInt base a b, BitVec.toNat_ofInt, Int.emod_eq_of_lt (by omega) (by exact_mod_cast hlt),
    Int.toNat_of_nonneg (by omega)]

/-- A number lies in a window. -/
theorem toNat_sub_lt_iff (x a : BitVec w) (hback : -serialCmp a base * 4 ≤ 2 ^ w)
    (hforth : (serialCmp a base + n) * 4 ≤ 2 ^ w) :
    (x - a).toNat < n ↔
      serialCmp a base ≤ serialCmp x base ∧ serialCmp x base < serialCmp a base + n := by
  have hlo : -2 ^ w ≤ 2 * serialCmp x base := BitVec.le_two_mul_toInt
  have hhi : 2 * serialCmp x base < 2 ^ w := BitVec.two_mul_toInt_lt
  have hpos : (0 : ℤ) < 2 ^ w := by positivity
  rw [sub_eq_ofInt base x a, BitVec.toNat_ofInt]
  push_cast
  generalize serialCmp x base = x at hlo hhi ⊢
  generalize serialCmp a base = a at hback hforth ⊢
  generalize (2 : ℤ) ^ w = m at hlo hhi hback hforth hpos ⊢
  by_cases hle : a ≤ x
  · rw [Int.emod_eq_of_lt (by omega) (by omega)]
    omega
  · rw [← Int.add_emod_right, Int.emod_eq_of_lt (by omega) (by omega)]
    omega

end Ipxe.Library
