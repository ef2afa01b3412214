import Mathlib.Tactic

/-!
# Numerals

The digits of a number as they are written, the most significant first, with one digit for zero.
-/

namespace Ipxe.Library

open List

variable {base : ℕ}

def numeral (base number : ℕ) : List ℕ :=
  if number = 0 then [0] else (Nat.digits base number).reverse

def numeralValue (base : ℕ) (digits : List ℕ) : ℕ :=
  digits.foldl (fun value digit => value * base + digit) 0

variable {number : ℕ}

/-- One digit. -/
theorem numeral_of_lt (h : number < base) : numeral base number = [number] := by
  rw [numeral]
  split_ifs with hzero
  · rw [hzero]
  · rw [Nat.digits_of_lt base number hzero h, reverse_singleton]

/-- The last digit is the remainder. -/
theorem numeral_of_le (hbase : 1 < base) (h : base ≤ number) :
    numeral base number = numeral base (number / base) ++ [number % base] := by
  have hnumber : number ≠ 0 := by omega
  have hquotient : number / base ≠ 0 := (Nat.div_pos h (by omega)).ne'
  rw [numeral, numeral, if_neg hnumber, if_neg hquotient,
    Nat.digits_def' hbase (Nat.pos_of_ne_zero hnumber), reverse_cons]

/-- Induction on the digits from the left. -/
theorem numeral_induction (hbase : 1 < base) {motive : ℕ → Prop}
    (hdigit : ∀ number < base, motive number)
    (hmore : ∀ number, base ≤ number → motive (number / base) → motive number) (number : ℕ) :
    motive number := by
  induction number using Nat.strong_induction_on with
  | _ number ih =>
    by_cases h : number < base
    · exact hdigit number h
    · exact hmore number (Nat.le_of_not_lt h) (ih _ (Nat.div_lt_self (by omega) hbase))

/-- One more digit. -/
theorem numeralValue_concat (digits : List ℕ) (digit : ℕ) :
    numeralValue base (digits ++ [digit]) = numeralValue base digits * base + digit := by
  rw [numeralValue, numeralValue, foldl_append]
  rfl

/-- A numeral has the value of its number. -/
theorem numeralValue_numeral (hbase : 1 < base) (number : ℕ) :
    numeralValue base (numeral base number) = number := by
  induction number using numeral_induction hbase with
  | hdigit number h =>
    rw [numeral_of_lt h, numeralValue, foldl_cons, zero_mul, zero_add]
    rfl
  | hmore number h ih =>
    rw [numeral_of_le hbase h, numeralValue_concat, ih]
    exact Nat.div_add_mod' number base

/-- Digits are less than the base. -/
theorem numeral_lt (hbase : 1 < base) (number : ℕ) : ∀ digit ∈ numeral base number, digit < base := by
  induction number using numeral_induction hbase with
  | hdigit number h =>
    rw [numeral_of_lt h]
    intro digit hdigit
    rwa [mem_singleton.1 hdigit]
  | hmore number h ih =>
    rw [numeral_of_le hbase h]
    intro digit hdigit
    rcases mem_append.1 hdigit with hold | hlast
    · exact ih digit hold
    · rw [mem_singleton.1 hlast]
      exact Nat.mod_lt _ (by omega)

/-- A bounded number has few digits. -/
theorem length_numeral_le (hbase : 1 < base) {count : ℕ} (hcount : 0 < count)
    (h : number < base ^ count) : (numeral base number).length ≤ count := by
  rw [numeral]
  split_ifs with hzero
  · exact hcount
  · rw [length_reverse]
    exact (Nat.digits_length_le_iff hbase number).2 h

/-- There is a digit. -/
theorem numeral_ne_nil (base number : ℕ) : numeral base number ≠ [] := by
  rw [numeral]
  split_ifs with hzero
  · exact cons_ne_nil 0 []
  · rw [ne_eq, reverse_eq_nil_iff]
    exact Nat.digits_ne_nil_iff_ne_zero.2 hzero

/-- A positive number has no leading zero. -/
theorem numeral_eq_cons (hbase : 1 < base) (h : number ≠ 0) :
    ∃ first rest, numeral base number = first :: rest ∧ first ≠ 0 := by
  induction number using numeral_induction hbase with
  | hdigit number hlt => exact ⟨number, [], numeral_of_lt hlt, h⟩
  | hmore number hle ih =>
    obtain ⟨first, rest, hfirst, hzero⟩ := ih (Nat.div_pos hle (by omega)).ne'
    exact ⟨first, rest ++ [number % base],
      by rw [numeral_of_le hbase hle, hfirst, cons_append], hzero⟩

/-- A greater start gives a greater value. -/
theorem numeralValue_foldl_mono (digits : List ℕ) {start start' : ℕ} (h : start ≤ start') :
    digits.foldl (fun value digit => value * base + digit) start ≤
      digits.foldl (fun value digit => value * base + digit) start' := by
  induction digits generalizing start start' with
  | nil => exact h
  | cons digit digits ih => exact ih (Nat.add_le_add_right (Nat.mul_le_mul_right base h) digit)

/-- Leading zeros do not count. -/
theorem numeralValue_replicate_zero (count : ℕ) (digits : List ℕ) :
    numeralValue base (replicate count 0 ++ digits) = numeralValue base digits := by
  induction count with
  | zero => rfl
  | succ count ih =>
    rw [replicate_succ, cons_append, numeralValue, foldl_cons, zero_mul]
    exact ih

end Ipxe.Library
