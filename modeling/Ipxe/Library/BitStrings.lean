import Ipxe.Library.Bytes
import Mathlib.Tactic

/-!
# Bit strings

A string of bits stands for a number in two ways: with its first bit the lowest one (`lsbValue`) or
the highest one (`msbValue`).  `bitsOf n v` is the string of the `n` lowest bits of `v`.
-/

namespace Ipxe.Library

open List Bool

variable (n : ℕ) (bits : List Bool) (byte : UInt8) (bytes : Bytes)

def lsbValue : List Bool → ℕ
  | [] => 0
  | b :: bits => b.toNat + 2 * lsbValue bits

def msbValue (bits : List Bool) : ℕ := lsbValue bits.reverse

/-- No bits are zero. -/
@[simp] theorem lsbValue_nil : lsbValue [] = 0 := rfl

/-- No bits are zero, highest first. -/
@[simp] theorem msbValue_nil : msbValue [] = 0 := rfl

/-- As many bits as there are bound the value. -/
theorem lsbValue_lt : lsbValue bits < 2 ^ bits.length := by
  induction bits with
  | nil => simp
  | cons b bits ih =>
    have hb := toNat_le b
    rw [lsbValue, length_cons, pow_succ]
    omega

/-- The same bound, highest first. -/
theorem msbValue_lt : msbValue bits < 2 ^ bits.length := by
  simpa [msbValue] using lsbValue_lt bits.reverse

/-- Further bits are the higher ones. -/
theorem lsbValue_append (front back : List Bool) :
    lsbValue (front ++ back) = lsbValue front + 2 ^ front.length * lsbValue back := by
  induction front with
  | nil => simp
  | cons b front ih =>
    rw [cons_append, lsbValue, ih, lsbValue, length_cons, pow_succ]
    ring

/-- Further bits are the lower ones. -/
theorem msbValue_append (front back : List Bool) :
    msbValue (front ++ back) = 2 ^ back.length * msbValue front + msbValue back := by
  rw [msbValue, reverse_append, lsbValue_append, length_reverse, add_comm]
  rfl

/-- Quotient and remainder are the two parts of the string. -/
theorem lsbValue_split :
    lsbValue bits / 2 ^ n = lsbValue (bits.drop n) ∧
      lsbValue bits % 2 ^ n = lsbValue (bits.take n) := by
  rw [Nat.div_mod_unique (Nat.two_pow_pos n)]
  rcases le_total n bits.length with hn | hn
  · have hsplit := lsbValue_append (bits.take n) (bits.drop n)
    have hlt := lsbValue_lt (bits.take n)
    rw [take_append_drop, length_take, min_eq_left hn] at hsplit
    rw [length_take, min_eq_left hn] at hlt
    exact ⟨hsplit.symm, hlt⟩
  · rw [take_of_length_le hn, drop_of_length_le hn, lsbValue_nil, mul_zero, add_zero]
    exact ⟨rfl, (lsbValue_lt bits).trans_le (Nat.pow_le_pow_right (by norm_num) hn)⟩

/-- The first bits are the remainder. -/
theorem lsbValue_take : lsbValue (bits.take n) = lsbValue bits % 2 ^ n :=
  (lsbValue_split n bits).2.symm

/-- The bits behind them are the quotient. -/
theorem lsbValue_drop : lsbValue (bits.drop n) = lsbValue bits / 2 ^ n :=
  (lsbValue_split n bits).1.symm

/-- The first bits are the quotient, highest first. -/
theorem msbValue_take : msbValue (bits.take n) = msbValue bits / 2 ^ (bits.length - n) := by
  rw [msbValue, msbValue, ← lsbValue_drop, reverse_take]

/-- The bits behind them are the remainder. -/
theorem msbValue_drop : msbValue (bits.drop n) = msbValue bits % 2 ^ (bits.length - n) := by
  rw [msbValue, msbValue, ← lsbValue_take, reverse_drop]

def bitsOf : ℕ → ℕ → List Bool
  | 0, _ => []
  | n + 1, v => v.testBit 0 :: bitsOf n (v / 2)

/-- There are `n` of them. -/
@[simp] theorem length_bitsOf (v : ℕ) : (bitsOf n v).length = n := by
  induction n generalizing v with
  | zero => rfl
  | succ n ih => rw [bitsOf, length_cons, ih]

/-- They have the value modulo `2 ^ n`. -/
theorem lsbValue_bitsOf (v : ℕ) : lsbValue (bitsOf n v) = v % 2 ^ n := by
  induction n generalizing v with
  | zero => rw [bitsOf, lsbValue_nil, pow_zero, Nat.mod_one]
  | succ n ih =>
    have hbit : (v.testBit 0).toNat = v % 2 := by
      rcases Nat.mod_two_eq_zero_or_one v with h | h <;> simp [h]
    rw [bitsOf, lsbValue, ih, hbit, pow_succ', Nat.mod_mul]

/-- They have the value, if it fits. -/
theorem lsbValue_bitsOf_of_lt {n v : ℕ} (h : v < 2 ^ n) : lsbValue (bitsOf n v) = v := by
  rw [lsbValue_bitsOf, Nat.mod_eq_of_lt h]

/-- The same in reverse, highest first. -/
theorem msbValue_bitsOf_reverse {n v : ℕ} (h : v < 2 ^ n) : msbValue (bitsOf n v).reverse = v := by
  rw [msbValue, reverse_reverse, lsbValue_bitsOf_of_lt h]

/-- The bits of the value of a string are the string. -/
theorem bitsOf_lsbValue : bitsOf bits.length (lsbValue bits) = bits := by
  induction bits with
  | nil => rfl
  | cons b bits ih =>
    have hlow : (b.toNat + 2 * lsbValue bits).testBit 0 = b := by
      cases b <;> simp [Nat.add_mod]
    have hhigh : (b.toNat + 2 * lsbValue bits) / 2 = lsbValue bits := by
      have hb := toNat_le b
      omega
    rw [length_cons, lsbValue, bitsOf, hlow, hhigh, ih]

/-- A string is known by its length and its value. -/
theorem bitsOf_eq_iff {bits : List Bool} {n v : ℕ} (hlen : bits.length = n) (hv : v < 2 ^ n) :
    bitsOf n v = bits ↔ v = lsbValue bits := by
  subst hlen
  constructor
  · rintro h
    rw [← h, lsbValue_bitsOf_of_lt hv]
  · rintro rfl
    exact bitsOf_lsbValue bits

/-- Low and high bits together fit. -/
theorem add_two_pow_mul_lt {n m a b : ℕ} (ha : a < 2 ^ n) (hb : b < 2 ^ m) :
    a + 2 ^ n * b < 2 ^ (n + m) := by
  rw [pow_add]
  exact Nat.add_mul_lt_mul_of_lt_of_lt ha hb

/-- The low bits, then the high bits. -/
theorem bitsOf_add {n m a b : ℕ} (ha : a < 2 ^ n) (hb : b < 2 ^ m) :
    bitsOf (n + m) (a + 2 ^ n * b) = bitsOf n a ++ bitsOf m b := by
  rw [bitsOf_eq_iff (by simp) (add_two_pow_mul_lt ha hb), lsbValue_append,
    lsbValue_bitsOf_of_lt ha, lsbValue_bitsOf_of_lt hb, length_bitsOf]

/-- Dropping low bits divides. -/
theorem drop_bitsOf {n v : ℕ} (h : v < 2 ^ n) {k : ℕ} (hk : k ≤ n) :
    (bitsOf n v).drop k = bitsOf (n - k) (v / 2 ^ k) := by
  have hlt : v / 2 ^ k < 2 ^ (n - k) := by
    rw [Nat.div_lt_iff_lt_mul (Nat.two_pow_pos k), ← pow_add, Nat.sub_add_cancel hk]
    exact h
  symm
  rw [bitsOf_eq_iff (by simp) hlt, lsbValue_drop, lsbValue_bitsOf_of_lt h]

def byteBits (byte : UInt8) : List Bool := bitsOf 8 byte.toNat

def bytesBits (bytes : Bytes) : List Bool := bytes.flatMap byteBits

def byteOf (bits : List Bool) : UInt8 := UInt8.ofNat (lsbValue bits)

/-- A byte has eight bits. -/
@[simp] theorem length_byteBits : (byteBits byte).length = 8 := length_bitsOf _ _

/-- No bytes have no bits. -/
@[simp] theorem bytesBits_nil : bytesBits [] = [] := rfl

/-- The bits of the first byte come first. -/
@[simp] theorem bytesBits_cons : bytesBits (byte :: bytes) = byteBits byte ++ bytesBits bytes := rfl

/-- The bits of more bytes follow. -/
@[simp] theorem bytesBits_append (front back : Bytes) :
    bytesBits (front ++ back) = bytesBits front ++ bytesBits back :=
  flatMap_append

/-- Eight bits a byte. -/
@[simp] theorem length_bytesBits : (bytesBits bytes).length = 8 * bytes.length := by
  induction bytes with
  | nil => rfl
  | cons byte bytes ih =>
    rw [bytesBits_cons, length_append, length_byteBits, ih, length_cons]
    ring

/-- The bits of a byte have its value. -/
theorem lsbValue_byteBits : lsbValue (byteBits byte) = byte.toNat :=
  lsbValue_bitsOf_of_lt byte.toNat_lt

/-- A byte is made from its bits again. -/
@[simp] theorem byteOf_byteBits : byteOf (byteBits byte) = byte := by
  rw [byteOf, lsbValue_byteBits, UInt8.ofNat_toNat]

/-- Up to `n` whole bytes from the front of a string, and the rest of it. -/
def takeBytes : ℕ → List Bool → Bytes × List Bool
  | 0, bits => ([], bits)
  | n + 1, bits =>
    if 8 ≤ bits.length then
      (byteOf (bits.take 8) :: (takeBytes n (bits.drop 8)).1, (takeBytes n (bits.drop 8)).2)
    else ([], bits)

/-- No bit gets lost. -/
theorem length_takeBytes :
    bits.length = 8 * (takeBytes n bits).1.length + (takeBytes n bits).2.length := by
  induction n generalizing bits with
  | zero => simp [takeBytes]
  | succ n ih =>
    rw [takeBytes]
    split_ifs with h
    · have hrest := ih (bits.drop 8)
      rw [length_drop] at hrest
      simp only [length_cons]
      omega
    · simp

/-- A longer string is taken in two goes. -/
theorem takeBytes_append (more : List Bool) :
    takeBytes n (bits ++ more) =
      ((takeBytes n bits).1 ++
          (takeBytes (n - (takeBytes n bits).1.length) ((takeBytes n bits).2 ++ more)).1,
        (takeBytes (n - (takeBytes n bits).1.length) ((takeBytes n bits).2 ++ more)).2) := by
  induction n generalizing bits with
  | zero => simp [takeBytes]
  | succ n ih =>
    by_cases h : 8 ≤ bits.length
    · have hlonger : 8 ≤ (bits ++ more).length := by rw [length_append]; omega
      have htake : (bits ++ more).take 8 = bits.take 8 := take_append_of_le_length h
      have hdrop : (bits ++ more).drop 8 = bits.drop 8 ++ more := drop_append_of_le_length h
      simp only [takeBytes, if_pos h, if_pos hlonger, htake, hdrop, ih, length_cons,
        Nat.succ_sub_succ, cons_append]
    · simp [takeBytes, h]

/-- Taking bytes gives the bytes. -/
theorem takeBytes_bytesBits :
    takeBytes n (bytesBits bytes) = (bytes.take n, bytesBits (bytes.drop n)) := by
  induction n generalizing bytes with
  | zero => rfl
  | succ n ih =>
    cases bytes with
    | nil => rfl
    | cons byte bytes =>
      have hlong : 8 ≤ (bytesBits (byte :: bytes)).length := by simp
      have htake : (bytesBits (byte :: bytes)).take 8 = byteBits byte :=
        take_left' (length_byteBits byte)
      have hdrop : (bytesBits (byte :: bytes)).drop 8 = bytesBits bytes :=
        drop_left' (length_byteBits byte)
      rw [takeBytes, if_pos hlong, htake, hdrop, ih, byteOf_byteBits]
      rfl

end Ipxe.Library
