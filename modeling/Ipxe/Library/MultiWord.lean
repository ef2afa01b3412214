import Ipxe.Library.Bytes
import Mathlib.Tactic

/-!
# Numbers of several words

A list of words of a fixed width stands for a number, the least significant word first; octets are
also read the other way round.
-/

namespace Ipxe.Library

open List

variable {w : ℕ} (words : List (BitVec w))

def wordsValue : ℕ := Nat.ofDigits (2 ^ w) (words.map BitVec.toNat)

/-- No words are zero. -/
@[simp] theorem wordsValue_nil : wordsValue ([] : List (BitVec w)) = 0 := rfl

/-- The first word is the lowest. -/
@[simp] theorem wordsValue_cons (word : BitVec w) (words : List (BitVec w)) :
    wordsValue (word :: words) = word.toNat + 2 ^ w * wordsValue words :=
  Nat.ofDigits_cons

/-- Further words are the higher ones. -/
theorem wordsValue_append (low high : List (BitVec w)) :
    wordsValue (low ++ high) = wordsValue low + 2 ^ (w * low.length) * wordsValue high := by
  rw [wordsValue, map_append, Nat.ofDigits_append, length_map, ← pow_mul]
  rfl

/-- Zeros are zero. -/
theorem wordsValue_replicate_zero (n : ℕ) : wordsValue (replicate n (0 : BitVec w)) = 0 := by
  induction n with
  | zero => rfl
  | succ n ih => rw [replicate_succ, wordsValue_cons, ih]; simp

/-- The words bound the value. -/
theorem wordsValue_lt : wordsValue words < 2 ^ (w * words.length) := by
  induction words with
  | nil => simp
  | cons word words ih =>
    rw [wordsValue_cons, length_cons, Nat.mul_succ, add_comm (w * _), pow_add]
    exact Nat.add_mul_lt_mul_of_lt_of_lt word.isLt ih

/-- The first words are the remainder. -/
theorem wordsValue_take {n : ℕ} (h : n ≤ words.length) :
    wordsValue (words.take n) = wordsValue words % 2 ^ (w * n) := by
  have hlen : (words.take n).length = n := length_take_of_le h
  have happend := wordsValue_append (words.take n) (words.drop n)
  have hlt := wordsValue_lt (words.take n)
  rw [take_append_drop, hlen] at happend
  rw [hlen] at hlt
  rw [happend, Nat.add_mul_mod_self_left, Nat.mod_eq_of_lt hlt]

/-- Zero has only zeros. -/
theorem wordsValue_eq_zero {words : List (BitVec w)} :
    wordsValue words = 0 ↔ ∀ word ∈ words, word = 0 := by
  induction words with
  | nil => simp
  | cons word words ih =>
    rw [wordsValue_cons, forall_mem_cons, ← ih, Nat.add_eq_zero_iff, Nat.mul_eq_zero]
    simp [BitVec.toNat_eq]

variable (octets : Bytes)

/-- The number that octets stand for, the most significant one first. -/
def octetsValue : ℕ := Nat.ofDigits 256 (octets.reverse.map UInt8.toNat)

/-- Octets are digits to base 256. -/
theorem octets_lt : ∀ digit ∈ octets.map UInt8.toNat, digit < 256 := by
  intro digit hdigit
  obtain ⟨octet, -, rfl⟩ := mem_map.1 hdigit
  exact octet.toNat_lt

/-- The octets bound the value. -/
theorem octetsValue_lt : octetsValue octets < 256 ^ octets.length := by
  have h := Nat.ofDigits_lt_base_pow_length (by norm_num) (octets_lt octets.reverse)
  rwa [length_map, length_reverse] at h

/-- The first octet is the highest. -/
theorem octetsValue_cons (octet : UInt8) (octets : Bytes) :
    octetsValue (octet :: octets) = octet.toNat * 256 ^ octets.length + octetsValue octets := by
  rw [octetsValue, reverse_cons, map_append, Nat.ofDigits_append, length_map,
    length_reverse, map_singleton, Nat.ofDigits_singleton, add_comm, mul_comm]
  rfl

/-- As many octets with the same value are the same. -/
theorem octetsValue_injective {octets octets' : Bytes}
    (hlen : octets.length = octets'.length) (h : octetsValue octets = octetsValue octets') :
    octets = octets' := by
  have hdigits := Nat.ofDigits_inj_of_len_eq (by norm_num) (by simpa using hlen)
    (octets_lt _) (octets_lt _) h
  have hreversed := map_injective_iff.2 (fun _ _ => UInt8.toNat_inj.1) hdigits
  exact reverse_injective hreversed

/-- A number in so many bytes, the most significant first. -/
def bigEndian : ℕ → ℕ → Bytes
  | 0, _ => []
  | bytes + 1, value => bigEndian bytes (value / 256) ++ [UInt8.ofNat value]

/-- The value of bytes, the most significant first. -/
def bigEndianValue (bytes : Bytes) : ℕ :=
  bytes.foldl (fun value byte => value * 256 + byte.toNat) 0

/-- There are as many as asked for. -/
@[simp] theorem length_bigEndian (bytes value : ℕ) : (bigEndian bytes value).length = bytes := by
  induction bytes generalizing value with
  | zero => rfl
  | succ bytes ih => rw [bigEndian, length_append, ih, length_singleton]

/-- **A number is read back**, as far as there are bytes for it. -/
theorem bigEndianValue_bigEndian (bytes value : ℕ) :
    bigEndianValue (bigEndian bytes value) = value % 256 ^ bytes := by
  induction bytes generalizing value with
  | zero => rw [pow_zero, Nat.mod_one, bigEndian, bigEndianValue, foldl_nil]
  | succ bytes ih =>
    unfold bigEndianValue at ih ⊢
    rw [bigEndian, foldl_append, ih, foldl_cons, foldl_nil, UInt8.toNat_ofNat',
      pow_succ' 256 bytes, Nat.mod_mul]
    ring

end Ipxe.Library
