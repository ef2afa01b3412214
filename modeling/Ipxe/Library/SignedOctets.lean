import Ipxe.Library.MultiWord

/-!
# Signed numbers as octets

The number that octets stand for in two's complement, the most significant one first, and words of
fixed width that octets are shifted into.
-/

namespace Ipxe.Library

open List
open BitVec hiding cons_append

variable (octets : Bytes)

/-- Further octets are the lower ones. -/
theorem octetsValue_append (more : Bytes) :
    octetsValue (octets ++ more) = octetsValue octets * 256 ^ more.length + octetsValue more := by
  induction octets with
  | nil => simp [octetsValue]
  | cons octet octets ih =>
    rw [cons_append, octetsValue_cons, octetsValue_cons, ih, length_append, pow_add]
    ring

/-- Whether the first octet has its highest bit set. -/
def octetsNegative (octets : Bytes) : Bool := 0x80 ≤ octets.headD 0

/-- The number that octets stand for in two's complement. -/
def signedOctets (octets : Bytes) : ℤ :=
  octetsValue octets - if octetsNegative octets then 256 ^ octets.length else 0

/-- The first octet has the sign. -/
theorem octetsNegative_append {octets : Bytes} (h : octets ≠ []) (more : Bytes) :
    octetsNegative (octets ++ more) = octetsNegative octets := by
  cases octets with
  | nil => exact absurd rfl h
  | cons octet octets => rfl

/-- Octets that follow the first ones are of lower weight. -/
theorem signedOctets_append {octets : Bytes} (h : octets ≠ []) (more : Bytes) :
    signedOctets (octets ++ more) = signedOctets octets * 256 ^ more.length + octetsValue more := by
  unfold signedOctets
  rw [octetsNegative_append h, octetsValue_append, length_append, pow_add]
  push_cast
  split_ifs <;> ring

/-- If the number is no greater than the weight of the later octets, the first ones are sign octets. -/
theorem signedOctets_sign {octets : Bytes} (h : octets ≠ []) {more : Bytes} {bound : ℤ}
    (hbound : bound ≤ 256 ^ more.length) (hlow : -bound ≤ signedOctets (octets ++ more))
    (hhigh : signedOctets (octets ++ more) < bound) :
    signedOctets octets = 0 ∧ 0 ≤ signedOctets (octets ++ more) ∨
      signedOctets octets = -1 ∧ signedOctets (octets ++ more) < 0 := by
  have hlt : (octetsValue more : ℤ) < 256 ^ more.length := by exact_mod_cast octetsValue_lt more
  rw [signedOctets_append h] at hlow hhigh ⊢
  generalize (256 : ℤ) ^ more.length = weight at *
  have hless : signedOctets octets < 1 := by nlinarith
  have hmore : -2 < signedOctets octets := by nlinarith
  obtain hzero | hone : signedOctets octets = 0 ∨ signedOctets octets = -1 := by omega
  · rw [hzero]
    omega
  · rw [hone]
    omega

/-- One octet more. -/
theorem signedOctets_concat {octets : Bytes} (h : octets ≠ []) (octet : UInt8) :
    signedOctets (octets ++ [octet]) = signedOctets octets * 256 + octet.toNat := by
  have hone : octetsValue [octet] = octet.toNat := by simp [octetsValue]
  rw [signedOctets_append h, length_singleton, pow_one, hone]

/-- The range of two's complement. -/
theorem signedOctets_bounds :
    -(256 ^ octets.length) ≤ 2 * signedOctets octets ∧
      2 * signedOctets octets < 256 ^ octets.length := by
  cases octets with
  | nil => decide
  | cons octet octets =>
    have hlt := octetsValue_lt octets
    have hoctet := octet.toNat_lt
    have hhigh : octetsNegative (octet :: octets) = decide (128 ≤ octet.toNat) :=
      decide_eq_decide.2 UInt8.le_iff_toNat_le
    unfold signedOctets
    rw [octetsValue_cons, hhigh, length_cons, pow_succ]
    push_cast
    by_cases hnegative : 128 ≤ octet.toNat
    · rw [decide_eq_true hnegative, if_pos rfl]
      constructor <;> nlinarith
    · rw [decide_eq_false hnegative, if_neg Bool.false_ne_true]
      constructor <;> nlinarith

/-- The octets are the value modulo their range. -/
theorem signedOctets_emod : signedOctets octets % 256 ^ octets.length = octetsValue octets := by
  have hlt : (octetsValue octets : ℤ) < 256 ^ octets.length := by exact_mod_cast octetsValue_lt octets
  have hself : (octetsValue octets : ℤ) % 256 ^ octets.length = octetsValue octets :=
    Int.emod_eq_of_lt (Int.natCast_nonneg _) hlt
  unfold signedOctets
  split_ifs
  · rw [Int.sub_emod_right, hself]
  · rw [Int.sub_zero, hself]

section

variable {w : ℕ}

/-- A word with one more octet shifted in. -/
def pushOctet (word : BitVec w) (octet : UInt8) : BitVec w :=
  word <<< 8 ||| octet.toBitVec.setWidth w

/-- Pushing multiplies by 256. -/
theorem pushOctet_ofInt (value : ℤ) (octet : UInt8) :
    pushOctet (BitVec.ofInt w value) octet = BitVec.ofInt w (value * 256 + octet.toNat) := by
  have hapart : BitVec.ofInt w value <<< 8 &&& octet.toBitVec.setWidth w = 0#w := by
    ext i hi
    simp
    grind
  have hshift : BitVec.twoPow w 8 = BitVec.ofInt w 256 := by
    apply eq_of_toNat_eq
    rw [toNat_twoPow, show (256 : ℤ) = ((2 ^ 8 : ℕ) : ℤ) from rfl, ofInt_natCast, toNat_ofNat]
  have hoctet : octet.toBitVec.setWidth w = BitVec.ofInt w octet.toNat := by
    apply eq_of_toNat_eq
    rw [ofInt_natCast, toNat_setWidth, toNat_ofNat, UInt8.toNat_toBitVec]
  rw [pushOctet, ← add_eq_or_of_and_eq_zero _ _ hapart, shiftLeft_eq_mul_twoPow,
    hshift, hoctet, ofInt_add, ofInt_mul]

/-- The last octet is the lowest. -/
theorem pushOctet_mod (hw : 8 ≤ w) (word : BitVec w) (octet : UInt8) :
    (pushOctet word octet).toNat % 256 = octet.toNat := by
  have hdvd : (256 : ℤ) ∣ ((2 ^ w : ℕ) : ℤ) := by
    have hpow : 2 ^ 8 ∣ 2 ^ w := pow_dvd_pow 2 hw
    exact_mod_cast hpow
  have hoctet := octet.toNat_lt
  have hpos : (0 : ℤ) < ((2 ^ w : ℕ) : ℤ) := by positivity
  have hword : word = BitVec.ofInt w word.toInt := (ofInt_toInt).symm
  rw [hword, pushOctet_ofInt, toNat_ofInt]
  have hmod := Int.emod_emod_of_dvd (word.toInt * 256 + octet.toNat) hdvd
  have hnonneg := Int.emod_nonneg (word.toInt * 256 + octet.toNat) hpos.ne'
  generalize (word.toInt * 256 + octet.toNat) % ((2 ^ w : ℕ) : ℤ) = value at hmod hnonneg ⊢
  omega

/-- **Octets shifted into a word** are there modulo its width. -/
theorem foldl_pushOctet_ofInt (value : ℤ) :
    octets.foldl pushOctet (BitVec.ofInt w value) =
      BitVec.ofInt w (value * 256 ^ octets.length + octetsValue octets) := by
  induction octets generalizing value with
  | nil => simp [octetsValue]
  | cons octet octets ih =>
    rw [foldl_cons, pushOctet_ofInt, ih, octetsValue_cons, length_cons, pow_succ]
    congr 1
    push_cast
    ring

end

end Ipxe.Library
