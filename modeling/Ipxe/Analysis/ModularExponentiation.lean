import Ipxe.Analysis.BigintArithmetic

/-!
# Modular multiplication and exponentiation

The product is reduced by a modulus that is shifted up to it and then back; the rest is below
twice the shifted modulus.  The exponentiation keeps `result * base ^ exponent`.
-/

namespace Ipxe.Analysis

open Library Model List

variable {w : ℕ}

variable {result modulus multiplicand multiplier : Bigint w}

theorem length_bigintRol_iterate (k : ℕ) (value : Bigint w) :
    (bigintRol^[k] value).length = value.length := by
  induction k with
  | zero => rfl
  | succ k ih => rw [Function.iterate_succ_apply', bigintRol, length_bigintRolFrom, ih]

theorem wordsValue_bigintRol_iterate (hw : 0 < w) {value : Bigint w} {k : ℕ}
    (hroom : wordsValue value * 2 ^ k < 2 ^ (w * value.length)) :
    wordsValue (bigintRol^[k] value) = wordsValue value * 2 ^ k := by
  induction k with
  | zero => simp
  | succ k ih =>
    rw [Nat.pow_succ, ← Nat.mul_assoc] at hroom
    have hbefore := ih (by omega)
    rw [Function.iterate_succ_apply', wordsValue_bigintRol hw, hbefore]
    · ring
    · rw [length_bigintRol_iterate]
      omega

theorem length_bigintReduce :
    (bigintReduce result modulus).1.length = result.length ∧
      (bigintReduce result modulus).2.length = modulus.length := by
  refine ⟨?_, length_bigintRorFrom modulus⟩
  rw [bigintReduce]
  split_ifs
  · exact length_bigintSubtractFrom _ _ _
  · rfl

/-- One turn: the rest is below the modulus of this turn, and differs by a multiple of it.  By no
modulus it is not reduced. -/
theorem wordsValue_bigintReduce (hlen : result.length = modulus.length)
    (hrest : wordsValue modulus ≠ 0 → wordsValue result < 2 * wordsValue modulus) :
    wordsValue (bigintReduce result modulus).1 = wordsValue result % wordsValue modulus := by
  rw [bigintReduce]
  split_ifs with hgeq
  · rw [bigintIsGeq_iff hlen] at hgeq
    rw [wordsValue_bigintSubtract hlen.symm hgeq]
    by_cases hzero : wordsValue modulus = 0
    · rw [hzero, Nat.sub_zero, Nat.mod_zero]
    · have hless := hrest hzero
      rw [Nat.mod_eq_sub_mod hgeq, Nat.mod_eq_of_lt (by omega)]
  · rw [bigintIsGeq_iff hlen] at hgeq
    rw [Nat.mod_eq_of_lt (not_le.1 hgeq)]

theorem wordsValue_bigintReduce_iterate (hw : 0 < w) {m : ℕ} (k : ℕ) :
    ∀ {result modulus : Bigint w}, result.length = modulus.length →
      wordsValue modulus = m * 2 ^ k →
      (wordsValue modulus ≠ 0 → wordsValue result < 2 * wordsValue modulus) →
      wordsValue ((fun (state : Bigint w × Bigint w) =>
        bigintReduce state.1 state.2)^[k + 1] (result, modulus)).1 = wordsValue result % m := by
  induction k with
  | zero =>
    intro result modulus hlen hmodulus hrest
    rw [Nat.pow_zero, Nat.mul_one] at hmodulus
    rw [Function.iterate_one, wordsValue_bigintReduce hlen hrest, hmodulus]
  | succ k ih =>
    intro result modulus hlen hmodulus hrest
    rw [Nat.pow_succ, ← Nat.mul_assoc] at hmodulus
    have hreduced := wordsValue_bigintReduce hlen hrest
    have hshifted : wordsValue (bigintReduce result modulus).2 = m * 2 ^ k := by
      rw [bigintReduce, wordsValue_bigintRor hw, hmodulus, Nat.mul_div_cancel _ (by norm_num)]
    obtain ⟨hlength₁, hlength₂⟩ := @length_bigintReduce w result modulus
    rw [Function.iterate_succ_apply, ih (hlength₁.trans (hlen.trans hlength₂.symm)) hshifted]
    · rw [hreduced, hmodulus, Nat.mul_assoc]
      exact Nat.mod_mul_right_mod _ _ _
    · rw [hreduced, hshifted]
      intro hne
      have hbelow := Nat.mod_lt (wordsValue result) (show 0 < wordsValue modulus by omega)
      omega

theorem length_bigintReduce_iterate (k : ℕ) (result modulus : Bigint w) :
    ((fun (state : Bigint w × Bigint w) =>
      bigintReduce state.1 state.2)^[k] (result, modulus)).1.length = result.length := by
  induction k with
  | zero => rfl
  | succ k ih => rw [Function.iterate_succ_apply', length_bigintReduce.1, ih]

theorem length_bigintModMultiply :
    (bigintModMultiply multiplicand multiplier modulus).length = multiplicand.length := by
  refine length_take_of_le ?_
  rw [length_bigintReduce_iterate, length_bigintMultiply]
  omega

/-- **Modular multiplication is exact**, for all factors; without a modulus the lowest
elements of the product are left. -/
theorem wordsValue_bigintModMultiply (hw : 0 < w)
    (hmultiplier : multiplier.length = multiplicand.length)
    (hmodulus : modulus.length = multiplicand.length) :
    wordsValue (bigintModMultiply multiplicand multiplier modulus) =
      wordsValue multiplicand * wordsValue multiplier % wordsValue modulus %
        2 ^ (w * modulus.length) := by
  obtain ⟨product, hproduct⟩ : ∃ product, product = bigintMultiply multiplicand multiplier :=
    ⟨_, rfl⟩
  have hvalue : wordsValue product = wordsValue multiplicand * wordsValue multiplier := by
    rw [hproduct, wordsValue_bigintMultiply hmultiplier]
  have hlen : product.length = 2 * multiplicand.length := by
    rw [hproduct, length_bigintMultiply]
  obtain ⟨grown, hgrown⟩ : ∃ grown, grown = bigintGrow modulus (2 * multiplicand.length) := ⟨_, rfl⟩
  have hgrownValue : wordsValue grown = wordsValue modulus := by
    rw [hgrown, wordsValue_bigintGrow]
  have hgrownLength : grown.length = product.length := by
    rw [hgrown, bigintGrow, length_append, length_replicate]
    omega
  -- what is left in the lowest elements
  have hshrunk : ∀ rest : Bigint w, rest.length = product.length →
      wordsValue rest = wordsValue product % wordsValue modulus →
      wordsValue (bigintShrink rest multiplicand.length) =
        wordsValue multiplicand * wordsValue multiplier % wordsValue modulus %
          2 ^ (w * modulus.length) := by
    intro rest hrestLength hrest
    rw [bigintShrink, wordsValue_take _ (by omega), hrest, hvalue, hmodulus]
  rw [bigintModMultiply, ← hproduct, ← hgrown]
  simp only [bigintMaxSetBit_eq, hgrownValue]
  have hmodulusSize (hpos : 0 < (wordsValue modulus).size) :
      2 ^ ((wordsValue modulus).size - 1) ≤ wordsValue modulus := Nat.lt_size.1 (by omega)
  have hproductSize := Nat.lt_size_self (wordsValue product)
  rcases Nat.lt_or_ge (wordsValue product).size (wordsValue modulus).size with hless | hgeq
  · -- the product has fewer bits than the modulus, and the loops make no turn
    have hturns : (((wordsValue product).size : ℤ) - (wordsValue modulus).size + 1).toNat = 0 := by
      omega
    rw [hturns, Function.iterate_zero]
    refine hshrunk product rfl (Nat.mod_eq_of_lt ?_).symm
    calc wordsValue product < 2 ^ (wordsValue product).size := hproductSize
      _ ≤ 2 ^ ((wordsValue modulus).size - 1) := Nat.pow_le_pow_right (by norm_num) (by omega)
      _ ≤ wordsValue modulus := hmodulusSize (by omega)
  · obtain ⟨k, hk⟩ := Nat.exists_eq_add_of_le hgeq
    have hrotation : (((wordsValue product).size : ℤ) - (wordsValue modulus).size).toNat = k := by
      omega
    have hturns : (((wordsValue product).size : ℤ) - (wordsValue modulus).size + 1).toNat = k + 1 := by
      omega
    have hfits : wordsValue modulus * 2 ^ k < 2 ^ (wordsValue product).size := by
      rw [hk, Nat.pow_add]
      exact Nat.mul_lt_mul_of_pos_right (Nat.lt_size_self _) (by positivity)
    have hroom : wordsValue grown * 2 ^ k < 2 ^ (w * grown.length) := by
      rw [hgrownValue, hgrownLength]
      refine hfits.trans_le (Nat.pow_le_pow_right (by norm_num) ?_)
      exact Nat.size_le.2 (wordsValue_lt product)
    have hrotated := wordsValue_bigintRol_iterate hw hroom
    rw [hgrownValue] at hrotated
    have hbits : wordsValue (bigintRol^[k] grown) ≠ 0 →
        wordsValue product < 2 * wordsValue (bigintRol^[k] grown) := by
      intro hne
      have hpos : 0 < (wordsValue modulus).size := by
        refine Nat.size_pos.2 (Nat.pos_of_ne_zero fun hzero => hne ?_)
        rw [hrotated, hzero, Nat.zero_mul]
      have haligned : 2 ^ (wordsValue product).size =
          2 * (2 ^ ((wordsValue modulus).size - 1) * 2 ^ k) := by
        rw [hk, ← Nat.pow_add, ← Nat.pow_succ']
        congr 1
        omega
      have hscaled := Nat.mul_le_mul_right (2 ^ k) (hmodulusSize hpos)
      omega
    rw [hrotation, hturns]
    refine hshrunk _ (length_bigintReduce_iterate _ _ _) ?_
    exact wordsValue_bigintReduce_iterate hw k
      (by rw [length_bigintRol_iterate, hgrownLength]) hrotated hbits

/-- What products are reduced by. -/
def reducer (modulus : Bigint w) : ℕ :=
  if wordsValue modulus = 0 then 2 ^ (w * modulus.length) else wordsValue modulus

theorem wordsValue_bigintModMultiply_reducer (hw : 0 < w)
    (hmultiplicand : multiplicand.length = modulus.length)
    (hmultiplier : multiplier.length = modulus.length) :
    wordsValue (bigintModMultiply multiplicand multiplier modulus) =
      wordsValue multiplicand * wordsValue multiplier % reducer modulus := by
  rw [wordsValue_bigintModMultiply hw (hmultiplier.trans hmultiplicand.symm) hmultiplicand.symm,
    reducer]
  split_ifs with hzero
  · rw [hzero, Nat.mod_zero]
  · refine Nat.mod_eq_of_lt (lt_trans ?_ (wordsValue_lt modulus))
    exact Nat.mod_lt _ (Nat.pos_of_ne_zero hzero)

/-! ## Exponentiation -/

/-- **The loop over the exponent.**  It ends, and leaves the result multiplied by a
power of the base; a result that is never multiplied is not reduced. -/
theorem bigintModExpLoop_eq (hw : 0 < w) (turns : ℕ) :
    ∀ {base exponent result : Bigint w}, base.length = modulus.length →
      result.length = modulus.length → wordsValue exponent < 2 ^ turns →
      ∃ power, bigintModExpLoop modulus (turns + 1) base exponent result = some power ∧
        power.length = modulus.length ∧
        wordsValue power = if wordsValue exponent = 0 then wordsValue result
          else wordsValue result * wordsValue base ^ wordsValue exponent % reducer modulus := by
  induction turns with
  | zero =>
    intro base exponent result hbase hresult hexponent
    have hzero : wordsValue exponent = 0 := by omega
    refine ⟨result, ?_, hresult, (if_pos hzero).symm⟩
    rw [bigintModExpLoop, if_pos ((bigintIsZero_iff exponent).2 hzero)]
  | succ turns ih =>
    intro base exponent result hbase hresult hexponent
    by_cases hzero : wordsValue exponent = 0
    · refine ⟨result, ?_, hresult, (if_pos hzero).symm⟩
      rw [bigintModExpLoop, if_pos ((bigintIsZero_iff exponent).2 hzero)]
    · obtain ⟨next, hnext⟩ : ∃ next,
        next = if bigintBitIsSet exponent 0 then bigintModMultiply result base modulus
          else result := ⟨_, rfl⟩
      have hnextLength : next.length = modulus.length := by
        rw [hnext]
        split_ifs
        · rw [length_bigintModMultiply, hresult]
        · exact hresult
      have hbit := bigintBitIsSet_zero hw exponent
      have hnextValue : wordsValue next ≡
          wordsValue result * wordsValue base ^ (wordsValue exponent % 2)
          [MOD reducer modulus] := by
        rw [hnext, ← hbit]
        cases bigintBitIsSet exponent 0 with
        | false =>
          rw [if_neg Bool.false_ne_true, Bool.toNat_false, Nat.pow_zero, Nat.mul_one]
        | true =>
          rw [if_pos rfl, wordsValue_bigintModMultiply_reducer hw hresult hbase,
            Bool.toNat_true, Nat.pow_one]
          exact Nat.mod_modEq _ _
      have hhalf := wordsValue_bigintRor hw exponent
      have hsquare : wordsValue (bigintModMultiply base base modulus) ≡ wordsValue base ^ 2
          [MOD reducer modulus] := by
        rw [wordsValue_bigintModMultiply_reducer hw hbase hbase, Nat.pow_two]
        exact Nat.mod_modEq _ _
      obtain ⟨power, hpower, hlen, hvalue⟩ := @ih (bigintModMultiply base base modulus)
        (bigintRor exponent) next (length_bigintModMultiply.trans hbase) hnextLength
        (by rw [hhalf]; rw [Nat.pow_succ] at hexponent; omega)
      refine ⟨power, ?_, hlen, ?_⟩
      · rw [bigintModExpLoop, if_neg (by rw [bigintIsZero_iff]; exact hzero)]
        simp only [← hnext]
        exact hpower
      · rw [hvalue, hhalf, if_neg hzero]
        by_cases hlast : wordsValue exponent / 2 = 0
        · -- the highest bit, whose product is the last
          have hone : wordsValue exponent = 1 := by omega
          rw [if_pos hlast, hnext]
          cases hset : bigintBitIsSet exponent 0 with
          | false =>
            rw [hset, Bool.toNat_false] at hbit
            omega
          | true =>
            rw [if_pos rfl, wordsValue_bigintModMultiply_reducer hw hresult hbase, hone,
              Nat.pow_one]
        · rw [if_neg hlast]
          have hboth := hnextValue.mul (hsquare.pow (wordsValue exponent / 2))
          rw [← Nat.pow_mul, Nat.mul_assoc, ← Nat.pow_add, Nat.mod_add_div] at hboth
          exact hboth

theorem wordsValue_one (hw : 0 < w) (n : ℕ) : wordsValue ((1 : BitVec w) :: replicate n 0) = 1 := by
  have hone : (1 : BitVec w).toNat = 1 := BitVec.toNat_one hw
  rw [wordsValue_cons, wordsValue_replicate_zero, hone, Nat.mul_zero]

theorem bigintModExp_eq (hw : 0 < w) {base exponent : Bigint w}
    (hsize : base.length = modulus.length) (hpos : 0 < modulus.length) :
    ∃ result, bigintModExp base modulus exponent = some result ∧
      result.length = modulus.length ∧
      wordsValue result = if wordsValue exponent = 0 then 1
        else wordsValue base ^ wordsValue exponent % reducer modulus := by
  have hone := wordsValue_one hw (base.length - 1)
  obtain ⟨result, hresult, hlen, hvalue⟩ := @bigintModExpLoop_eq w modulus hw
    (w * exponent.length) base exponent (1 :: replicate (base.length - 1) 0) hsize
    (by rw [length_cons, length_replicate]; omega) (wordsValue_lt exponent)
  rw [hone, Nat.one_mul] at hvalue
  exact ⟨result, hresult, hlen, hvalue⟩

/-- **Modular exponentiation is exact**, and so is every multiplication it is made of.  The bit numbers
of a product, and so the rotation, fit an `int` unless the operands have 2^30 bits or more. -/
theorem bigint_mod_exp_exact (hw : 0 < w) (base modulus exponent : Bigint w)
    (hsize : base.length = modulus.length) (hmodulus : 1 < wordsValue modulus) :
    (∃ result, bigintModExp base modulus exponent = some result ∧
      result.length = modulus.length ∧
      wordsValue result = wordsValue base ^ wordsValue exponent % wordsValue modulus) ∧
    (∀ multiplicand multiplier : Bigint w, multiplicand.length = modulus.length →
      multiplier.length = modulus.length →
      wordsValue (bigintModMultiply multiplicand multiplier modulus) =
        wordsValue multiplicand * wordsValue multiplier % wordsValue modulus) ∧
    (w * modulus.length < 2 ^ 30 → ∀ value : Bigint w, value.length = 2 * modulus.length →
      bigintMaxSetBit value < 2 ^ 31) := by
  have hreducer : reducer modulus = wordsValue modulus := if_neg (by omega)
  rw [← hreducer]
  refine ⟨?_, fun multiplicand multiplier hmultiplicand hmultiplier =>
    wordsValue_bigintModMultiply_reducer hw hmultiplicand hmultiplier, fun hbits value hlen => ?_⟩
  swap
  · have hle := bigintMaxSetBit_le value
    rw [hlen, Nat.mul_left_comm] at hle
    omega
  have hpos : 0 < modulus.length := by
    refine length_pos_iff.mpr fun hnil => ?_
    rw [hnil, wordsValue_nil] at hmodulus
    omega
  obtain ⟨result, hresult, hlen, hvalue⟩ := @bigintModExp_eq w modulus hw base exponent hsize hpos
  refine ⟨result, hresult, hlen, ?_⟩
  rw [hvalue]
  split_ifs with hzero
  · rw [hzero, Nat.pow_zero, hreducer, Nat.mod_eq_of_lt hmodulus]
  · rfl

/-- A base that is not reduced, in elements of 32 bits. -/
theorem bigint_mod_exp_exact_seven :
    (∃ result, bigintModExp [10#32] [7#32] [3#32] = some result ∧ result.length = 1 ∧
      wordsValue result = 10 ^ 3 % 7) ∧
    ∀ multiplicand multiplier : Bigint 32, multiplicand.length = 1 → multiplier.length = 1 →
      wordsValue (bigintModMultiply multiplicand multiplier [7#32]) =
        wordsValue multiplicand * wordsValue multiplier % 7 := by
  obtain ⟨hpower, hproducts, -⟩ :=
    bigint_mod_exp_exact (by norm_num) [10#32] [7#32] [3#32] rfl (by decide)
  exact ⟨hpower, hproducts⟩

end Ipxe.Analysis
