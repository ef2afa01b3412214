import Mathlib.Data.Nat.Size
import Ipxe.Library.MultiWord
import Ipxe.Model.Bigint

/-!
# Operations on big integers

What each operation does to the number that a big integer stands for.  Carries and borrows
that leave the last element are lost, so that sums, differences and rotations are those
modulo `2 ^ (w * size)`.
-/

namespace Ipxe.Analysis

open Library Model List BitVec Bool

variable {w : ℕ}

theorem toNat_subtract (v s : BitVec w) (borrow : Bool) :
    (BitVec.ofInt w (v.toNat - s.toNat - borrow.toNat)).toNat + s.toNat + borrow.toNat =
      v.toNat + 2 ^ w * (decide (v.toNat < s.toNat + borrow.toNat)).toNat := by
  have hv := v.isLt
  have hs := s.isLt
  have hborrow := borrow.toNat_le
  rw [toNat_ofInt]
  push_cast
  by_cases hless : v.toNat < s.toNat + borrow.toNat
  · have hmod : ((v.toNat : ℤ) - s.toNat - borrow.toNat) % 2 ^ w =
        v.toNat - s.toNat - borrow.toNat + 2 ^ w := by
      rw [← Int.add_emod_right]
      exact Int.emod_eq_of_lt (by zify at *; omega) (by omega)
    rw [hmod, decide_eq_true hless, toNat_true, mul_one]
    zify at *
    omega
  · rw [Int.emod_eq_of_lt (by omega) (by zify at *; omega), decide_eq_false hless, toNat_false]
    omega

theorem length_bigintSubtractFrom (borrow : Bool) (subtrahend value : Bigint w) :
    (bigintSubtractFrom borrow subtrahend value).length = value.length := by
  induction value generalizing borrow subtrahend with
  | nil => cases subtrahend <;> rfl
  | cons v value ih =>
    cases subtrahend with
    | nil => rfl
    | cons s subtrahend => simp [bigintSubtractFrom, ih]

/-- A borrow that leaves the last element stands for `2 ^ (w * size)`. -/
theorem wordsValue_bigintSubtractFrom {subtrahend value : Bigint w}
    (hlen : subtrahend.length = value.length) (borrow : Bool) :
    ∃ out : Bool, wordsValue (bigintSubtractFrom borrow subtrahend value) + wordsValue subtrahend +
      borrow.toNat = wordsValue value + out.toNat * 2 ^ (w * value.length) := by
  induction value generalizing borrow subtrahend with
  | nil =>
    cases subtrahend with
    | nil => exact ⟨borrow, by simp [bigintSubtractFrom]⟩
    | cons _ _ => cases hlen
  | cons v value ih =>
    cases subtrahend with
    | nil => cases hlen
    | cons s subtrahend =>
      obtain ⟨out, hout⟩ := ih (Nat.succ.inj hlen)
        (decide (v.toNat < s.toNat + borrow.toNat))
      refine ⟨out, ?_⟩
      have hword := toNat_subtract v s borrow
      rw [bigintSubtractFrom, wordsValue_cons, wordsValue_cons, wordsValue_cons,
        length_cons, Nat.mul_succ, Nat.pow_add]
      have hscaled := congrArg (2 ^ w * ·) hout
      linarith

/-- **Subtracting a number that is not greater.** -/
theorem wordsValue_bigintSubtract {subtrahend value : Bigint w}
    (hlen : subtrahend.length = value.length) (hle : wordsValue subtrahend ≤ wordsValue value) :
    wordsValue (bigintSubtract subtrahend value) = wordsValue value - wordsValue subtrahend := by
  obtain ⟨out, hout⟩ := wordsValue_bigintSubtractFrom hlen false
  have hlt := wordsValue_lt (bigintSubtractFrom false subtrahend value)
  rw [length_bigintSubtractFrom] at hlt
  cases out with
  | false =>
    rw [bigintSubtract]
    simp only [toNat_false, Nat.add_zero] at hout
    omega
  | true =>
    simp only [toNat_false, toNat_true, Nat.one_mul] at hout
    omega

theorem mod_add_carry {n : ℕ} (h : n < 2 * 2 ^ w) :
    n % 2 ^ w + 2 ^ w * (decide (2 ^ w ≤ n)).toNat = n := by
  by_cases hout : 2 ^ w ≤ n
  · rw [decide_eq_true hout, toNat_true, Nat.mod_eq_sub_mod hout, Nat.mod_eq_of_lt (by omega)]
    omega
  · rw [decide_eq_false hout, toNat_false, Nat.mod_eq_of_lt (by omega)]
    omega

theorem toNat_rotate_left (hw : 0 < w) (v : BitVec w) (carry : Bool) :
    (BitVec.ofNat w (2 * v.toNat + carry.toNat)).toNat + 2 ^ w * v.msb.toNat =
      2 * v.toNat + carry.toNat := by
  have hcarry := carry.toNat_le
  have hpow := Nat.two_pow_pred_mul_two hw
  have hmsb : 2 ^ (w - 1) ≤ v.toNat ↔ 2 ^ w ≤ 2 * v.toNat + carry.toNat := by omega
  rw [toNat_ofNat, msb_eq_decide, decide_eq_decide.2 hmsb]
  exact mod_add_carry (by omega)

theorem toNat_rotate_right (hw : 0 < w) (v : BitVec w) (carry : Bool) :
    2 * (BitVec.ofNat w (v.toNat / 2 + carry.toNat * 2 ^ (w - 1))).toNat + (v.getLsbD 0).toNat =
      v.toNat + 2 ^ w * carry.toNat := by
  have hpow := Nat.two_pow_pred_mul_two hw
  have hlsb : (v.getLsbD 0).toNat = v.toNat % 2 := by
    rw [BitVec.getLsbD]
    rcases Nat.mod_two_eq_zero_or_one v.toNat with h | h <;> simp [h]
  have hcarry : carry.toNat = 0 ∨ carry.toNat = 1 := by cases carry <;> decide
  rcases hcarry with hcarry | hcarry <;> rw [toNat_ofNat, hcarry, Nat.mod_eq_of_lt (by omega)] <;> omega

theorem length_bigintRolFrom (carry : Bool) (value : Bigint w) :
    (bigintRolFrom carry value).length = value.length := by
  induction value generalizing carry with
  | nil => rfl
  | cons v value ih => simp [bigintRolFrom, ih]

/-- A carry that leaves the last element stands for `2 ^ (w * size)`. -/
theorem wordsValue_bigintRolFrom (hw : 0 < w) (carry : Bool) (value : Bigint w) :
    ∃ out : ℕ, wordsValue (bigintRolFrom carry value) + out * 2 ^ (w * value.length) =
      2 * wordsValue value + carry.toNat := by
  induction value generalizing carry with
  | nil => exact ⟨carry.toNat, by simp [bigintRolFrom]⟩
  | cons v value ih =>
    obtain ⟨out, hout⟩ := ih v.msb
    refine ⟨out, ?_⟩
    have hword := toNat_rotate_left hw v carry
    rw [bigintRolFrom, wordsValue_cons, wordsValue_cons, length_cons, Nat.mul_succ, Nat.pow_add]
    have hscaled := congrArg (2 ^ w * ·) hout
    linarith

/-- **Rotating left a number with room for it.** -/
theorem wordsValue_bigintRol (hw : 0 < w) {value : Bigint w}
    (hroom : 2 * wordsValue value < 2 ^ (w * value.length)) :
    wordsValue (bigintRol value) = 2 * wordsValue value := by
  obtain ⟨out, hout⟩ := wordsValue_bigintRolFrom hw false value
  cases out with
  | zero => simpa [bigintRol] using hout
  | succ out =>
    simp only [toNat_false, Nat.succ_mul] at hout
    omega

variable (value : Bigint w)

theorem length_bigintRorFrom : (bigintRorFrom value).1.length = value.length := by
  induction value with
  | nil => rfl
  | cons v value ih => simp [bigintRorFrom, ih]

/-- **Rotating right.**  The carry afterwards is the lowest bit. -/
theorem wordsValue_bigintRorFrom (hw : 0 < w) (value : Bigint w) :
    2 * wordsValue (bigintRorFrom value).1 + (bigintRorFrom value).2.toNat = wordsValue value := by
  induction value with
  | nil => rfl
  | cons v value ih =>
    have hword := toNat_rotate_right hw v (bigintRorFrom value).2
    have hscaled := congrArg (2 ^ w * ·) ih
    simp only [bigintRorFrom, wordsValue_cons]
    linarith

theorem wordsValue_bigintRor (hw : 0 < w) (value : Bigint w) :
    wordsValue (bigintRor value) = wordsValue value / 2 := by
  have h := wordsValue_bigintRorFrom hw value
  have hcarry := (bigintRorFrom value).2.toNat_le
  rw [bigintRor]
  omega

theorem wordsValue_reverse_cons (v : BitVec w) (value : Bigint w) :
    wordsValue (v :: value).reverse =
      wordsValue value.reverse + 2 ^ (w * value.length) * v.toNat := by
  rw [reverse_cons, wordsValue_append, length_reverse, wordsValue_cons, wordsValue_nil,
    Nat.mul_zero, Nat.add_zero]

theorem bigintIsGeqDown_iff {value reference : Bigint w} (hlen : value.length = reference.length) :
    bigintIsGeqDown value reference = true ↔
      wordsValue reference.reverse ≤ wordsValue value.reverse := by
  induction value generalizing reference with
  | nil =>
    cases reference with
    | nil => simp [bigintIsGeqDown]
    | cons _ _ => cases hlen
  | cons v value ih =>
    cases reference with
    | nil => cases hlen
    | cons r reference =>
      have hlen' : value.length = reference.length := Nat.succ.inj hlen
      have hv := wordsValue_lt value.reverse
      have hr := wordsValue_lt reference.reverse
      rw [length_reverse] at hv hr
      rw [bigintIsGeqDown, wordsValue_reverse_cons, wordsValue_reverse_cons, ← hlen']
      rw [← hlen'] at hr
      split_ifs with hequal
      · rw [ih hlen', hequal, Nat.add_le_add_iff_right]
      · rw [decide_eq_true_iff]
        have hne : r.toNat ≠ v.toNat := fun h => hequal (eq_of_toNat_eq h.symm)
        constructor
        · intro hle
          have hless := Nat.add_mul_lt_mul_of_lt_of_lt hr (lt_of_le_of_ne hle hne)
          omega
        · intro hle
          by_contra hless
          have hmore := Nat.add_mul_lt_mul_of_lt_of_lt hv (not_le.1 hless)
          omega

theorem bigintIsGeq_iff {value reference : Bigint w} (hlen : value.length = reference.length) :
    bigintIsGeq value reference = true ↔ wordsValue reference ≤ wordsValue value := by
  rw [bigintIsGeq, bigintIsGeqDown_iff (by simpa using hlen), reverse_reverse, reverse_reverse]

theorem bigintIsZero_iff : bigintIsZero value = true ↔ wordsValue value = 0 := by
  rw [bigintIsZero, wordsValue_eq_zero]
  simp

theorem bigintBitIsSet_zero (hw : 0 < w) (value : Bigint w) :
    (bigintBitIsSet value 0).toNat = wordsValue value % 2 := by
  rw [bigintBitIsSet, Nat.zero_div, Nat.zero_mod]
  cases value with
  | nil => simp
  | cons v value =>
    have heven : 2 ^ w * wordsValue value % 2 = 0 := by
      rw [Nat.mul_mod, Nat.pow_mod, Nat.mod_self, Nat.zero_pow hw, Nat.zero_mod, Nat.zero_mul]
    rw [wordsValue_cons, Nat.add_mod, heven, Nat.add_zero, Nat.mod_mod, getD_cons_zero,
      BitVec.getLsbD, Nat.testBit_zero]
    rcases Nat.mod_two_eq_zero_or_one v.toNat with h | h <;> simp [h]

theorem size_eq_succ {n k : ℕ} (hlow : 2 ^ k ≤ n) (hhigh : n < 2 ^ (k + 1)) : n.size = k + 1 :=
  le_antisymm (Nat.size_le.2 hhigh) (Nat.lt_size.2 hlow)

theorem bigintMaxSetBitDown_eq : bigintMaxSetBitDown value = (wordsValue value.reverse).size := by
  induction value with
  | nil => rfl
  | cons v value ih =>
    rw [bigintMaxSetBitDown, wordsValue_reverse_cons]
    split_ifs with hzero
    · rw [ih, hzero]
      simp
    · have hv : v.toNat ≠ 0 := fun h => hzero (eq_of_toNat_eq (by simpa using h))
      have hlow := Nat.log2_self_le hv
      have hhigh := @Nat.lt_log2_self v.toNat
      have hvalue := wordsValue_lt value.reverse
      rw [length_reverse] at hvalue
      refine (size_eq_succ ?_ ?_).symm
      · rw [Nat.pow_add]
        exact (Nat.mul_le_mul_left _ hlow).trans (Nat.le_add_left _ _)
      · rw [Nat.add_assoc, Nat.pow_add]
        exact Nat.add_mul_lt_mul_of_lt_of_lt hvalue hhigh

/-- **The highest bit** is that of the number. -/
theorem bigintMaxSetBit_eq : bigintMaxSetBit value = (wordsValue value).size := by
  rw [bigintMaxSetBit, bigintMaxSetBitDown_eq, reverse_reverse]

/-- Bit numbers are limited by the number of bits. -/
theorem bigintMaxSetBit_le : bigintMaxSetBit value ≤ w * value.length := by
  rw [bigintMaxSetBit_eq, Nat.size_le]
  exact wordsValue_lt value

theorem wordsValue_bigintGrow (source : Bigint w) (destSize : ℕ) :
    wordsValue (bigintGrow source destSize) = wordsValue source := by
  rw [bigintGrow, wordsValue_append, wordsValue_replicate_zero, Nat.mul_zero, Nat.add_zero]

/-! ## Multiplication -/

theorem length_bigintCarry (carry : Bool) (value : Bigint w) :
    (bigintCarry carry value).length = value.length := by
  induction value generalizing carry with
  | nil => rfl
  | cons v value ih =>
    rw [bigintCarry, length_cons, length_cons]
    split_ifs
    · rw [ih]
    · rfl

theorem wordsValue_bigintCarry (carry : Bool) (value : Bigint w) :
    wordsValue (bigintCarry carry value) ≡ wordsValue value + carry.toNat
      [MOD 2 ^ (w * value.length)] := by
  induction value generalizing carry with
  | nil =>
    exact Nat.modEq_one
  | cons v value ih =>
    have hcarry := carry.toNat_le
    rw [bigintCarry, wordsValue_cons, wordsValue_cons, length_cons, Nat.mul_succ,
      add_comm (w * _), Nat.pow_add, toNat_ofNat]
    split_ifs with hout
    · have hmod : (v.toNat + carry.toNat) % 2 ^ w = v.toNat + carry.toNat - 2 ^ w := by
        rw [Nat.mod_eq_sub_mod hout, Nat.mod_eq_of_lt (by omega)]
      have hrest := (ih true).mul_left' (2 ^ w)
      rw [toNat_true, Nat.mul_succ] at hrest
      have hsum := hrest.add_left (v.toNat + carry.toNat - 2 ^ w)
      have hcarried : v.toNat + carry.toNat - 2 ^ w + (2 ^ w * wordsValue value + 2 ^ w) =
          v.toNat + 2 ^ w * wordsValue value + carry.toNat := by omega
      rw [hmod]
      rwa [hcarried] at hsum
    · rw [Nat.mod_eq_of_lt (by omega), add_right_comm]

theorem length_bigintAddProduct (multiplicand multiplier : BitVec w) (value : Bigint w) :
    (bigintAddProduct multiplicand multiplier value).length = value.length := by
  match value with
  | [] => rfl
  | [_] => rfl
  | low :: high :: value => simp [bigintAddProduct, length_bigintCarry]

theorem wordsValue_bigintAddProduct (multiplicand multiplier : BitVec w) {value : Bigint w}
    (hlen : 2 ≤ value.length) :
    wordsValue (bigintAddProduct multiplicand multiplier value) ≡
      wordsValue value + multiplicand.toNat * multiplier.toNat [MOD 2 ^ (w * value.length)] := by
  match value, hlen with
  | low :: high :: value, _ =>
    obtain ⟨product, hproduct⟩ : ∃ product, product = multiplicand.toNat * multiplier.toNat :=
      ⟨_, rfl⟩
    have hdivided := Nat.div_add_mod product (2 ^ w)
    -- the product of two elements leaves room for a carry
    have hhighPart : product / 2 ^ w + 1 < 2 ^ w + 1 := by
      rw [Nat.add_lt_add_iff_right, hproduct, Nat.div_lt_iff_lt_mul (by positivity)]
      exact Nat.mul_lt_mul'' multiplicand.isLt multiplier.isLt
    rw [bigintAddProduct, ← hproduct]
    obtain ⟨lowSum, hlowSum⟩ : ∃ lowSum, lowSum = low.toNat + product % 2 ^ w := ⟨_, rfl⟩
    obtain ⟨highSum, hhighSum⟩ : ∃ highSum,
      highSum = high.toNat + product / 2 ^ w + lowSum / 2 ^ w := ⟨_, rfl⟩
    have hlowDivided := Nat.div_add_mod lowSum (2 ^ w)
    have hlowCarry : lowSum / 2 ^ w ≤ 1 := by
      rw [← Nat.lt_succ_iff, Nat.div_lt_iff_lt_mul (by positivity)]
      omega
    have hhighMod := @mod_add_carry w highSum (by omega)
    have hcarried := wordsValue_bigintCarry (decide (2 ^ w ≤ highSum)) value
    rw [← hlowSum, ← hhighSum, wordsValue_cons, wordsValue_cons, wordsValue_cons,
      wordsValue_cons, toNat_ofNat, toNat_ofNat]
    have hpow : 2 ^ (w * (low :: high :: value).length) =
        2 ^ w * (2 ^ w * 2 ^ (w * value.length)) := by
      rw [length_cons, length_cons, ← Nat.pow_add, ← Nat.pow_add]
      congr 1
      ring
    rw [hpow]
    have hscaled := ((hcarried.mul_left' (2 ^ w)).add_left (highSum % 2 ^ w)).mul_left' (2 ^ w)
    have hsum := hscaled.add_left (lowSum % 2 ^ w)
    refine hsum.trans ?_
    have hvalue : lowSum % 2 ^ w + 2 ^ w * (highSum % 2 ^ w +
        2 ^ w * (wordsValue value + (decide (2 ^ w ≤ highSum)).toNat)) =
        low.toNat + 2 ^ w * (high.toNat + 2 ^ w * wordsValue value) + product := by
      have hhighScaled := congrArg (2 ^ w * ·) hhighMod
      nlinarith [hhighScaled, hlowDivided, hdivided]
    rw [hvalue]

theorem wordsValue_splice {result tail : Bigint w} {index change : ℕ} (hindex : index ≤ result.length)
    (htail : wordsValue tail ≡ wordsValue (result.drop index) + change
      [MOD 2 ^ (w * (result.length - index))]) :
    wordsValue (result.take index ++ tail) ≡ wordsValue result + 2 ^ (w * index) * change
      [MOD 2 ^ (w * result.length)] := by
  have hlen : (result.take index).length = index := length_take_of_le hindex
  have hsplit := wordsValue_append (result.take index) (result.drop index)
  rw [take_append_drop, hlen] at hsplit
  rw [wordsValue_append, hlen, hsplit]
  have hpow : 2 ^ (w * result.length) = 2 ^ (w * index) * 2 ^ (w * (result.length - index)) := by
    rw [← Nat.pow_add, ← Nat.mul_add, Nat.add_sub_cancel' hindex]
  rw [hpow, Nat.add_assoc, ← Nat.mul_add]
  exact (htail.mul_left' _).add_left _

theorem shifted_cons (index factor : ℕ) (m : BitVec w) (words : Bigint w) :
    2 ^ (w * index) * (factor * m.toNat) + 2 ^ (w * (index + 1)) * (factor * wordsValue words) =
      2 ^ (w * index) * (factor * wordsValue (m :: words)) := by
  rw [wordsValue_cons, Nat.mul_succ, Nat.pow_add]
  ring

theorem length_bigintMultiplyRow (multiplicand : BitVec w) (index : ℕ) (multiplier result : Bigint w) :
    (bigintMultiplyRow multiplicand index multiplier result).length = result.length := by
  induction multiplier generalizing index result with
  | nil => rfl
  | cons m multiplier ih =>
    rw [bigintMultiplyRow, ih, length_append, length_bigintAddProduct, ← length_append,
      take_append_drop]

theorem wordsValue_bigintMultiplyRow (multiplicand : BitVec w) {multiplier : Bigint w} {index : ℕ}
    {result : Bigint w} (hroom : index + multiplier.length < result.length) :
    wordsValue (bigintMultiplyRow multiplicand index multiplier result) ≡
      wordsValue result + 2 ^ (w * index) * (multiplicand.toNat * wordsValue multiplier)
      [MOD 2 ^ (w * result.length)] := by
  induction multiplier generalizing index result with
  | nil =>
    rw [bigintMultiplyRow, wordsValue_nil, Nat.mul_zero, Nat.mul_zero, Nat.add_zero]
  | cons m multiplier ih =>
    rw [length_cons] at hroom
    have hadd := @wordsValue_bigintAddProduct w multiplicand m (result.drop index)
      (by rw [length_drop]; omega)
    rw [length_drop] at hadd
    have hspliced := wordsValue_splice (by omega) hadd
    have hlen : (result.take index ++
        bigintAddProduct multiplicand m (result.drop index)).length = result.length := by
      rw [length_append, length_bigintAddProduct, ← length_append, take_append_drop]
    have hothers := @ih (index + 1)
      (result.take index ++ bigintAddProduct multiplicand m (result.drop index))
      (by rw [hlen]; omega)
    rw [hlen] at hothers
    refine hothers.trans ((hspliced.add_right _).trans ?_)
    rw [Nat.add_assoc, shifted_cons]

theorem length_bigintMultiplyRows (multiplier : Bigint w) (index : ℕ) (multiplicand result : Bigint w) :
    (bigintMultiplyRows multiplier index multiplicand result).length = result.length := by
  induction multiplicand generalizing index result with
  | nil => rfl
  | cons m multiplicand ih => rw [bigintMultiplyRows, ih, length_bigintMultiplyRow]

theorem wordsValue_bigintMultiplyRows (multiplier : Bigint w) {multiplicand : Bigint w} {index : ℕ}
    {result : Bigint w} (hroom : index + multiplicand.length + multiplier.length ≤ result.length) :
    wordsValue (bigintMultiplyRows multiplier index multiplicand result) ≡
      wordsValue result + 2 ^ (w * index) * (wordsValue multiplicand * wordsValue multiplier)
      [MOD 2 ^ (w * result.length)] := by
  induction multiplicand generalizing index result with
  | nil => rw [bigintMultiplyRows, wordsValue_nil, Nat.zero_mul, Nat.mul_zero, Nat.add_zero]
  | cons m multiplicand ih =>
    rw [length_cons] at hroom
    have hrow := @wordsValue_bigintMultiplyRow w m multiplier index result (by omega)
    have hlen := length_bigintMultiplyRow m index multiplier result
    have hothers := @ih (index + 1) (bigintMultiplyRow m index multiplier result)
      (by rw [hlen]; omega)
    rw [hlen] at hothers
    refine hothers.trans ((hrow.add_right _).trans ?_)
    have hvalue := shifted_cons index (wordsValue multiplier) m multiplicand
    rw [Nat.add_assoc, mul_comm m.toNat, mul_comm (wordsValue multiplicand), hvalue,
      mul_comm (wordsValue multiplier)]

theorem length_bigintMultiply (multiplicand multiplier : Bigint w) :
    (bigintMultiply multiplicand multiplier).length = 2 * multiplicand.length := by
  rw [bigintMultiply, length_bigintMultiplyRows, length_replicate]

theorem wordsValue_bigintMultiply {multiplicand multiplier : Bigint w}
    (hlen : multiplier.length = multiplicand.length) :
    wordsValue (bigintMultiply multiplicand multiplier) =
      wordsValue multiplicand * wordsValue multiplier := by
  have hrows := @wordsValue_bigintMultiplyRows w multiplier multiplicand 0
    (replicate (2 * multiplicand.length) 0) (by rw [length_replicate]; omega)
  have hlt := wordsValue_lt (bigintMultiply multiplicand multiplier)
  have hproduct : wordsValue multiplicand * wordsValue multiplier <
      2 ^ (w * (2 * multiplicand.length)) := by
    have hlt' := wordsValue_lt multiplier
    rw [hlen] at hlt'
    rw [mul_left_comm, Nat.two_mul, Nat.pow_add]
    exact Nat.mul_lt_mul'' (wordsValue_lt multiplicand) hlt'
  rw [length_bigintMultiply] at hlt
  rw [length_replicate, wordsValue_replicate_zero, Nat.mul_zero, Nat.pow_zero, Nat.one_mul,
    Nat.zero_add] at hrows
  exact Nat.ModEq.eq_of_lt_of_lt hrows hlt hproduct

end Ipxe.Analysis
