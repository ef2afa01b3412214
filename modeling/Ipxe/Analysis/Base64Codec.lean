import Ipxe.Interface.Base64Text
import Ipxe.Library.TextBuffers
import Ipxe.Library.WordBits

/-!
# Base64: the text, the data and the counter of bits

Digits and bytes have the same bits (`digitBit`, `byteBit`): the encoder takes them out six at a
time, and the decoder puts them back.  Both count bits in an `unsigned int`.
-/

namespace Ipxe.Analysis

open Library Model Interface List

variable {bit : ℕ} {text raw : Bytes} {values : List ℕ} {out : Bytes}

/-- A digit is found in the alphabet, and is neither the end, padding nor space. -/
theorem base64Char_spec : ∀ value < 64, base64Char value ≠ 0 ∧ base64Char value ≠ 0x3d ∧
    isspace (base64Char value) = false ∧ base64.idxOf? (base64Char value) = some value := by
  decide +kernel

variable {value : ℕ}

/-- What is found in the alphabet is a digit. -/
theorem base64_idxOf {char : UInt8} (h : base64.idxOf? char = some value) :
    value < 64 ∧ char = base64Char value := by
  obtain ⟨hlt, hget, -⟩ := idxOf?_eq_some_iff.1 h
  rw [base64Char, getD_eq_getElem _ _ hlt]
  exact ⟨hlt, hget.symm⟩

/-- Digits have six bits. -/
theorem base64Values_lt (raw : Bytes) : ∀ value ∈ base64Values raw, value < 64 := by
  fun_induction base64Values raw with
  | case1 a b c raw ih =>
    have ha := a.toNat_lt
    have hb := b.toNat_lt
    have hc := c.toNat_lt
    simp only [forall_mem_cons]
    exact ⟨by omega, by omega, by omega, by omega, ih⟩
  | case2 a b =>
    have ha := a.toNat_lt
    have hb := b.toNat_lt
    simp only [forall_mem_cons]
    exact ⟨by omega, by omega, by omega, by simp⟩
  | case3 a =>
    have ha := a.toNat_lt
    simp only [forall_mem_cons]
    exact ⟨by omega, by omega, by simp⟩
  | case4 => simp

/-- One digit for each six bits, the last one filled up. -/
theorem length_base64Values (raw : Bytes) :
    (base64Values raw).length = (8 * raw.length + 5) / 6 := by
  fun_induction base64Values raw with
  | case1 a b c raw ih =>
    simp only [length_cons]
    omega
  | case2 a b => simp
  | case3 a => simp
  | case4 => rfl

/-- One byte for each eight bits of the digits. -/
theorem length_base64Data (values : List ℕ) :
    (base64Data values).length = 6 * values.length / 8 := by
  fun_induction base64Data values with
  | case1 w x y z values ih =>
    simp only [length_cons]
    omega
  | case2 w x y => simp
  | case3 w x => simp
  | case4 values hfour hthree htwo =>
    match values, hfour, hthree, htwo with
    | [], _, _, _ => rfl
    | [w], _, _, _ => simp
    | [w, x], _, _, htwo => exact absurd rfl (htwo w x)
    | [w, x, y], _, hthree, _ => exact absurd rfl (hthree w x y)
    | w :: x :: y :: z :: values, hfour, _, _ => exact absurd rfl (hfour w x y z values)

/-- The number of padding characters, as the encoder counts them and as the text has them. -/
theorem base64Padding_eq (length : ℕ) : base64Padding length = 6 * ((8 * length + 5) / 6) % 8 / 2 := by
  rw [base64Padding]
  have hmod : length % 3 = 0 ∨ length % 3 = 1 ∨ length % 3 = 2 := by omega
  rcases hmod with h | h | h <;> rw [h] <;> omega

/-- The text of some data says its digits. -/
theorem isBase64_base64Text (raw : Bytes) :
    IsBase64 (base64Text raw) (base64Values raw) (base64Padding raw.length) := by
  refine ⟨rfl, base64Values_lt raw, Nat.mod_lt _ (by decide), ?_⟩
  rw [length_base64Values, base64Padding_eq]
  omega

/-- A text has no NUL. -/
theorem base64Text_ne (raw : Bytes) : ∀ char ∈ base64Text raw, char ≠ 0 := by
  intro char hchar
  rcases mem_append.1 hchar with hdigit | hpad
  · obtain ⟨value, hvalue, rfl⟩ := mem_map.1 hdigit
    exact (base64Char_spec value (base64Values_lt raw value hvalue)).1
  · rw [eq_of_mem_replicate hpad]
    decide

/-- The digits and the padding. -/
theorem length_base64Text (raw : Bytes) :
    (base64Text raw).length = (8 * raw.length + 5) / 6 + base64Padding raw.length := by
  simp only [base64Text, length_append, length_map, length_replicate, length_base64Values]

variable (bytes : Bytes)

/-- A bit of some bytes, counted from the highest one of the first byte on. -/
def byteBit (i : ℕ) : Bool := (bytes.getD (i / 8) 0).toNat.testBit (7 - i % 8)

/-- A bit of some digits, in the same order. -/
def digitBit (values : List ℕ) (i : ℕ) : Bool := (values.getD (i / 6) 0).testBit (5 - i % 6)

/-- A group on, four digits on. -/
theorem digitBit_add (values : List ℕ) (i : ℕ) :
    digitBit values (i + 24) = (values.getD (i / 6 + 4) 0).testBit (5 - i % 6) := by
  rw [digitBit, show (i + 24) / 6 = i / 6 + 4 by omega, show (i + 24) % 6 = i % 6 by omega]

/-- A group on, three bytes on. -/
theorem byteBit_add (i : ℕ) :
    byteBit bytes (i + 24) = (bytes.getD (i / 8 + 3) 0).toNat.testBit (7 - i % 8) := by
  rw [byteBit, show (i + 24) / 8 = i / 8 + 3 by omega, show (i + 24) % 8 = i % 8 by omega]

/-- Bytes are known by their bits. -/
theorem eq_of_byteBit {first second : Bytes} (hlength : first.length = second.length)
    (h : ∀ i < 8 * first.length, byteBit first i = byteBit second i) : first = second := by
  refine ext_getElem hlength fun j hfirst hsecond => UInt8.eq_of_toBitVec_eq ?_
  refine BitVec.eq_of_getLsbD_eq fun k hk => ?_
  have hbit := h (8 * j + (7 - k)) (by omega)
  rwa [byteBit, byteBit, show (8 * j + (7 - k)) / 8 = j by omega,
    show 7 - (8 * j + (7 - k)) % 8 = k by omega, getD_eq_getElem _ _ hfirst,
    getD_eq_getElem _ _ hsecond] at hbit

variable {i : ℕ}

/-- The first bytes have the first bits. -/
theorem byteBit_take {len : ℕ} (hi : i < 8 * len) :
    byteBit (bytes.take len) i = byteBit bytes i := by
  rw [byteBit, byteBit, getD_eq_getElem?_getD, getElem?_take_of_lt (by omega),
    ← getD_eq_getElem?_getD]

/-- **The digits have the bits of the data**, and zeros behind them. -/
theorem digitBit_base64Values (raw : Bytes) (i : ℕ) :
    digitBit (base64Values raw) i = byteBit raw i := by
  rcases Nat.lt_or_ge i 24 with hi | hi
  · fun_cases base64Values raw with
    | case1 a b c raw =>
      have hb := b.toNat_lt
      have hc := c.toNat_lt
      interval_cases i <;> simp [digitBit, byteBit, Nat.testBit_eq_decide_div_mod_eq] <;> omega
    | case2 a b =>
      have hb := b.toNat_lt
      interval_cases i <;> simp [digitBit, byteBit, Nat.testBit_eq_decide_div_mod_eq] <;> omega
    | case3 a =>
      interval_cases i <;> simp [digitBit, byteBit, Nat.testBit_eq_decide_div_mod_eq] <;> omega
    | case4 => simp [digitBit, byteBit]
  · obtain ⟨i, rfl⟩ := Nat.exists_eq_add_of_le' hi
    rw [digitBit_add, byteBit_add]
    match raw with
    | [] => simp [base64Values]
    | [a] => simp [base64Values]
    | [a, b] => simp [base64Values]
    | a :: b :: c :: raw => exact digitBit_base64Values raw i

/-- Digits and their data have the same bits. -/
theorem byteBit_base64Data (hvalues : ∀ value ∈ values, value < 64)
    (hi : i < 8 * (base64Data values).length) :
    byteBit (base64Data values) i = digitBit values i := by
  fun_induction base64Data values generalizing i with
  | case1 w x y z values ih =>
    simp only [forall_mem_cons] at hvalues
    obtain ⟨hw, hx, hy, hz, hrest⟩ := hvalues
    rcases Nat.lt_or_ge i 24 with hfirst | hlater
    · interval_cases i <;> simp [digitBit, byteBit, Nat.testBit_eq_decide_div_mod_eq] <;> omega
    · obtain ⟨i, rfl⟩ := Nat.exists_eq_add_of_le' hlater
      simp only [length_cons] at hi
      rw [digitBit_add, byteBit_add]
      exact ih hrest (by omega)
  | case2 w x y =>
    simp only [forall_mem_cons] at hvalues
    simp at hi
    interval_cases i <;> simp [digitBit, byteBit, Nat.testBit_eq_decide_div_mod_eq] <;> omega
  | case3 w x =>
    simp only [forall_mem_cons] at hvalues
    simp at hi
    interval_cases i <;> simp [digitBit, byteBit, Nat.testBit_eq_decide_div_mod_eq] <;> omega
  | case4 => simp at hi

section

variable (raw : Bytes)

/-- The digits of some data stand for it. -/
theorem base64Data_base64Values : base64Data (base64Values raw) = raw := by
  have hlength : (base64Data (base64Values raw)).length = raw.length := by
    rw [length_base64Data, length_base64Values]
    omega
  refine eq_of_byteBit hlength fun i hi => ?_
  rw [byteBit_base64Data (base64Values_lt raw) hi, digitBit_base64Values]

/-- The bits of the digit at a position. [core/base64.c:62-67] -/
theorem testBit_base64EncodeBits (bit k : ℕ) :
    (base64EncodeBits raw bit).testBit k = (decide (k < 6) && byteBit raw (bit + (5 - k))) := by
  have htmp : (if bit / 8 + 1 < raw.length then (raw.getD (bit / 8) 0).toNat <<< (bit % 8) |||
        (raw.getD (bit / 8 + 1) 0).toNat >>> (8 - bit % 8)
      else (raw.getD (bit / 8) 0).toNat <<< (bit % 8)) =
      (raw.getD (bit / 8) 0).toNat <<< (bit % 8) |||
        (raw.getD (bit / 8 + 1) 0).toNat >>> (8 - bit % 8) := by
    split_ifs with hnext
    · rfl
    · rw [getD_eq_default _ _ (by omega : raw.length ≤ bit / 8 + 1)]
      simp
  simp only [base64EncodeBits, htmp]
  rw [show (0x3f : ℕ) = 2 ^ 6 - 1 from rfl, Nat.testBit_and, Nat.testBit_two_pow_sub_one,
    Nat.testBit_shiftRight, Nat.testBit_or, Nat.testBit_shiftLeft, Nat.testBit_shiftRight,
    Bool.and_comm]
  rcases Nat.lt_or_ge k 6 with hk | hk
  · rw [decide_eq_true hk, Bool.true_and, Bool.true_and, byteBit]
    rcases Nat.lt_or_ge (2 + k) (bit % 8) with hsecond | hfirst
    · rw [decide_eq_false (by omega), Bool.false_and, Bool.false_or,
        show (bit + (5 - k)) / 8 = bit / 8 + 1 by omega,
        show 7 - (bit + (5 - k)) % 8 = 8 - bit % 8 + (2 + k) by omega]
    · rw [decide_eq_true hfirst, Bool.true_and,
        show (bit + (5 - k)) / 8 = bit / 8 by omega,
        show 7 - (bit + (5 - k)) % 8 = 2 + k - bit % 8 by omega,
        Nat.testBit_lt_two_pow ((UInt8.toNat_lt _).trans_le (Nat.pow_le_pow_right
          (show 0 < 2 by decide) (show 8 ≤ 8 - bit % 8 + (2 + k) by omega))), Bool.or_false]
  · rw [decide_eq_false (by omega), Bool.false_and, Bool.false_and]

/-- **The encoder's digits are the digits of the text.** -/
theorem map_base64EncodeBits :
    (range ((8 * raw.length + 5) / 6)).map (fun index => base64EncodeBits raw (6 * index)) =
      base64Values raw := by
  have hlength := length_base64Values raw
  refine ext_getElem (by simp [hlength]) fun j _ hj => Nat.eq_of_testBit_eq fun k => ?_
  rw [getElem_map, getElem_range, testBit_base64EncodeBits, ← digitBit_base64Values]
  rcases Nat.lt_or_ge k 6 with hk | hk
  · rw [digitBit, show (6 * j + (5 - k)) / 6 = j by omega,
      show 5 - (6 * j + (5 - k)) % 6 = k by omega, getD_eq_getElem _ _ hj, decide_eq_true hk,
      Bool.true_and]
  · rw [Nat.testBit_lt_two_pow ((base64Values_lt raw _ (getElem_mem hj)).trans_le
      (Nat.pow_le_pow_right (show 0 < 2 by decide) hk)), decide_eq_false (by omega),
      Bool.false_and]

/-! ## The encoder's loops -/

/-- The loop over the digits. [core/base64.c:61-70] -/
theorem base64EncodeDigits_eq {rawBitLen count : ℕ} (hlen : rawBitLen + 6 ≤ 2 ^ 32)
    (hcount : count = (rawBitLen + 5) / 6) (turns index : ℕ) (data : Bytes)
    (hindex : index ≤ count) :
    base64EncodeDigits raw rawBitLen turns (6 * index) index data =
      if count - index < turns then
        some (6 * count, count, setFrom data index ((range' index (count - index)).map
          fun i => base64Char (base64EncodeBits raw (6 * i))))
      else none := by
  induction turns generalizing index data with
  | zero =>
    rfl
  | succ turns ih =>
    rw [base64EncodeDigits]
    split_ifs with hmore hturns hturns
    · have hbit : (6 * index + 6) % 2 ^ 32 = 6 * (index + 1) := by
        omega
      have hleft : count - index = count - (index + 1) + 1 := by omega
      rw [hbit, ih (index + 1) _ (by omega), if_pos (by omega), hleft, range'_succ, map_cons]
      rfl
    · have hbit : (6 * index + 6) % 2 ^ 32 = 6 * (index + 1) := by
        omega
      rw [hbit, ih (index + 1) _ (by omega), if_neg (by omega)]
    · have hdone : index = count := by omega
      rw [← hdone, Nat.sub_self]
      rfl
    · omega

/-- **The loop over the bits never ends, if there are more bits than the counter can count.** -/
theorem base64EncodeDigits_endless {rawBitLen : ℕ} (hlen : 2 ^ 32 ≤ rawBitLen) (turns used : ℕ)
    (data : Bytes) (hbit : bit < 2 ^ 32) :
    base64EncodeDigits raw rawBitLen turns bit used data = none := by
  induction turns generalizing bit used data with
  | zero => rfl
  | succ turns ih =>
    rw [base64EncodeDigits, if_pos (hbit.trans_le hlen)]
    exact ih _ _ (Nat.mod_lt _ (by decide))

end

/-- The loop over the padding. [core/base64.c:71-74] -/
theorem base64EncodePads_eq (turns bit used : ℕ) (data : Bytes) (heven : bit % 2 = 0) :
    base64EncodePads turns bit used data =
      if bit % 8 / 2 < turns then
        some (used + bit % 8 / 2, setFrom data used (replicate (bit % 8 / 2) 0x3d))
      else none := by
  induction turns generalizing bit used data with
  | zero =>
    rfl
  | succ turns ih =>
    rw [base64EncodePads]
    have hnext : (bit + 6) % 2 ^ 32 % 8 = (bit + 6) % 8 := by omega
    by_cases hpad : bit % 8 = 0
    · rw [hpad, if_pos (Nat.succ_pos turns)]
      rfl
    · have hleft : bit % 8 / 2 = (bit + 6) % 8 / 2 + 1 := by omega
      rw [if_pos hpad, ih _ _ _ (by omega), hnext, hleft]
      split_ifs with hturns hmore hmore
      · congr 2
        omega
      · omega
      · omega
      · rfl

variable (arch : Platform)

/-- What the encoder leaves in its buffer. -/
theorem base64Encode_eq (turns : ℕ) (raw data : Bytes)
    {rawBitLen count : ℕ} (hbits : rawBitLen = 8 * raw.length % 2 ^ arch.sizeBits)
    (hlen : rawBitLen + 6 ≤ 2 ^ 32) (hcount : count = (rawBitLen + 5) / 6) :
    base64Encode arch turns raw data =
      if count < turns ∧ 6 * count % 8 / 2 < turns then
        some (count + 6 * count % 8 / 2,
          ((setFrom data 0 ((range count).map
              (fun i => base64Char (base64EncodeBits raw (6 * i))) ++
            replicate (6 * count % 8 / 2) 0x3d)).set (count + 6 * count % 8 / 2) 0).set
              (data.length - 1) 0)
      else none := by
  have hdigits := base64EncodeDigits_eq raw hlen hcount turns 0 data (Nat.zero_le _)
  rw [Nat.sub_zero, ← range_eq_range'] at hdigits
  simp only [base64Encode, ← hbits]
  rw [hdigits]
  by_cases hturns : count < turns
  · rw [if_pos hturns]
    simp only [Option.bind_eq_bind, Option.bind_some]
    rw [base64EncodePads_eq _ _ _ _ (by omega)]
    by_cases hpads : 6 * count % 8 / 2 < turns
    · rw [if_pos hpads, if_pos ⟨hturns, hpads⟩]
      simp only [Option.bind_some, length_set, length_setFrom]
      rw [setFrom_append, length_map, length_range, Nat.zero_add]
    · rw [if_neg hpads, if_neg fun h => hpads h.2]
      rfl
  · rw [if_neg hturns, if_neg fun h => hturns h.1]
    rfl

/-- The string in a buffer to which a text and its terminator have been written, with another
terminator at its end. -/
theorem storedString_setFrom (htext : ∀ char ∈ text, char ≠ 0) (data : Bytes) :
    storedString (((setFrom data 0 text).set text.length 0).set (data.length - 1) 0) =
      text.take (data.length - 1) := by
  apply storedString_eq htext
  · intro i hi
    rw [lt_min_iff] at hi
    have hread := getElem?_setFrom data text 0 i hi.2 (by omega)
    rw [Nat.zero_add] at hread
    rw [getElem?_set_ne (by omega), getElem?_set_ne (by omega), hread]
  · intro char hchar
    by_cases hroom : data.length - 1 ≤ text.length
    · rw [min_eq_left hroom, getElem?_set] at hchar
      simp only [if_true] at hchar
      split_ifs at hchar
      exact (Option.some.inj hchar).symm
    · rw [min_eq_right (by omega), getElem?_set_ne (by omega), getElem?_set_self
        (by rw [length_setFrom]; omega)] at hchar
      exact (Option.some.inj hchar).symm

/-- **The encoder writes the text of data with fewer bits than it can count.** -/
theorem base64Encode_text (hlen : raw.length < 2 ^ 29) (data : Bytes) :
    ∃ turns buffer, base64Encode arch turns raw data = some ((base64Text raw).length, buffer) ∧
      storedString buffer = (base64Text raw).take (data.length - 1) := by
  have hbits : 8 * raw.length = 8 * raw.length % 2 ^ arch.sizeBits := by
    cases arch <;> simp only [Platform.sizeBits] <;> omega
  have htext : (range ((8 * raw.length + 5) / 6)).map
        (fun i => base64Char (base64EncodeBits raw (6 * i))) ++
      replicate (6 * ((8 * raw.length + 5) / 6) % 8 / 2) 0x3d = base64Text raw := by
    rw [base64Text, ← map_base64EncodeBits, map_map, base64Padding_eq]
    rfl
  have hlength : (8 * raw.length + 5) / 6 + 6 * ((8 * raw.length + 5) / 6) % 8 / 2 =
      (base64Text raw).length := by
    rw [length_base64Text, base64Padding_eq]
  have hencode := base64Encode_eq arch ((8 * raw.length + 5) / 6 + 4) raw data hbits (by omega)
    rfl
  rw [if_pos (by omega), htext, hlength] at hencode
  exact ⟨_, _, hencode, storedString_setFrom (base64Text_ne raw) data⟩

/-- **With more bits the encoder returns another length, if it returns at all.** -/
theorem base64Encode_other (hlen : 2 ^ 29 ≤ raw.length) (turns : ℕ) (data buffer : Bytes) :
    base64Encode arch turns raw data ≠ some ((base64Text raw).length, buffer) := by
  intro hencode
  obtain ⟨rawBitLen, hbits⟩ : ∃ n, n = 8 * raw.length % 2 ^ arch.sizeBits := ⟨_, rfl⟩
  have hmod : rawBitLen % 8 = 0 := by
    cases arch <;> simp only [Platform.sizeBits] at hbits <;> omega
  by_cases hcount : 2 ^ 32 ≤ rawBitLen
  · simp only [base64Encode, ← hbits, base64EncodeDigits_endless raw hcount turns 0 data
      (Nat.two_pow_pos 32)] at hencode
    cases hencode
  · have hless : rawBitLen + 2 ^ 32 ≤ 8 * raw.length := by
      cases arch <;> simp only [Platform.sizeBits] at hbits <;> omega
    rw [base64Encode_eq arch turns raw data hbits (by omega) rfl] at hencode
    split_ifs at hencode
    have hlength := congrArg Prod.fst (Option.some.inj hencode)
    simp only [length_base64Text] at hlength
    omega

/-- Spaces are skipped. [core/base64.c:108-109] -/
theorem base64DecodeLoop_withoutSpaces (out : Bytes) (bit padCount : ℕ) (encoded : Bytes) :
    base64DecodeLoop out bit padCount encoded =
      base64DecodeLoop out bit padCount (withoutSpaces encoded) := by
  induction encoded generalizing out bit padCount with
  | nil => rfl
  | cons char encoded ih =>
    rw [withoutSpaces, filter_cons]
    cases hspace : isspace char with
    | true =>
      simp only [base64DecodeLoop, hspace, if_true, Bool.not_true]
      exact ih out bit padCount
    | false =>
      simp only [base64DecodeLoop, hspace, Bool.not_false, if_true]
      simp only [withoutSpaces] at ih
      simp only [ih]

/-- The buffer after the bits of some digits have been put in, from a bit on. -/
def orValues (out : Bytes) (bit : ℕ) : List ℕ → Bytes
  | [] => out
  | value :: values =>
    orValues (orByte (orByte out (bit / 8) (value <<< 2 >>> (bit % 8)))
      (bit / 8 + 1) (value <<< 2 <<< (8 - bit % 8))) ((bit + 6) % 2 ^ 32) values

/-- Digits are put behind those before. -/
theorem base64DecodeLoop_values (out : Bytes) (bit : ℕ)
    (hvalues : ∀ value ∈ values, value < 64) (encoded : Bytes) :
    base64DecodeLoop out (bit % 2 ^ 32) 0 (values.map base64Char ++ encoded) =
      base64DecodeLoop (orValues out (bit % 2 ^ 32) values)
        ((bit + 6 * values.length) % 2 ^ 32) 0 encoded := by
  induction values generalizing out bit with
  | nil => rfl
  | cons value values ih =>
    obtain ⟨hvalue, hrest⟩ := forall_mem_cons.1 hvalues
    obtain ⟨-, hpad, hspace, hindex⟩ := base64Char_spec value hvalue
    have hnext : (bit % 2 ^ 32 + 6) % 2 ^ 32 = (bit + 6) % 2 ^ 32 := Nat.mod_add_mod _ _ _
    rw [map_cons, cons_append, base64DecodeLoop]
    simp only [hspace, Bool.false_eq_true, if_false, hpad, ne_eq, not_true_eq_false, hindex, hnext]
    rw [ih _ _ hrest, orValues, hnext, length_cons]
    congr 2
    omega

/-- Padding takes two bits away for each character. [core/base64.c:112-121] -/
theorem base64DecodeLoop_padding (out : Bytes) (bit : ℕ) {padding padCount : ℕ}
    (hpadding : padCount + padding < 3) :
    base64DecodeLoop out (bit % 2 ^ 32) padCount (replicate padding 0x3d) =
      .ok (out, (bit + (2 ^ 32 - 2) * padding) % 2 ^ 32) := by
  induction padding generalizing bit padCount with
  | zero => rfl
  | succ padding ih =>
    have hnext : (bit % 2 ^ 32 + 2 ^ 32 - 2) % 2 ^ 32 = (bit + (2 ^ 32 - 2)) % 2 ^ 32 := by omega
    have htotal : bit + (2 ^ 32 - 2) + (2 ^ 32 - 2) * padding =
        bit + (2 ^ 32 - 2) * (padding + 1) := by omega
    rw [replicate_succ, base64DecodeLoop, if_neg (by decide), if_pos rfl, if_neg (by omega),
      hnext, ih (bit + (2 ^ 32 - 2)) (by omega), htotal]

/-- Digits and then padding. -/
theorem base64DecodeLoop_text (out : Bytes) {padding : ℕ}
    (hvalues : ∀ value ∈ values, value < 64) (hpadding : padding < 3) :
    base64DecodeLoop out 0 0 (values.map base64Char ++ replicate padding 0x3d) =
      .ok (orValues out 0 values, (6 * values.length + (2 ^ 32 - 2) * padding) % 2 ^ 32) := by
  have hdigits := base64DecodeLoop_values out 0 hvalues (replicate padding 0x3d)
  rw [Nat.zero_mod, Nat.zero_add] at hdigits
  rw [hdigits, base64DecodeLoop_padding _ _ (by omega)]

/-- Behind padding there is only padding. [core/base64.c:122-126] -/
theorem base64DecodeLoop_padded {padCount : ℕ} (hspaces : ∀ char ∈ text, isspace char = false)
    (hpadded : padCount ≠ 0) :
    base64DecodeLoop out bit padCount text = .error .einval ∨
      ∃ padding, text = replicate padding 0x3d ∧ (padding = 0 ∨ padCount + padding < 3) := by
  induction text generalizing bit padCount with
  | nil => exact .inr ⟨0, rfl, .inl rfl⟩
  | cons char text ih =>
    obtain ⟨hspace, hrest⟩ := forall_mem_cons.1 hspaces
    rw [base64DecodeLoop, if_neg (by rw [hspace]; decide)]
    split_ifs with hpad hcount
    · exact .inl rfl
    · refine (ih hrest (Nat.succ_ne_zero padCount)).imp_right ?_
      rintro ⟨padding, htext, hless⟩
      refine ⟨padding + 1, ?_, .inr (by omega)⟩
      rw [hpad, htext, replicate_succ]
    · exact .inl rfl

/-- **What is not rejected** is digits with padding behind them. -/
theorem base64DecodeLoop_cases (hspaces : ∀ char ∈ text, isspace char = false) :
    base64DecodeLoop out bit 0 text = .error .einval ∨
      ∃ (values : List ℕ) (padding : ℕ),
        text = values.map base64Char ++ replicate padding 0x3d ∧
          (∀ value ∈ values, value < 64) ∧ padding < 3 := by
  induction text generalizing out bit with
  | nil => exact .inr ⟨[], 0, rfl, by simp, by decide⟩
  | cons char text ih =>
    obtain ⟨hspace, hrest⟩ := forall_mem_cons.1 hspaces
    rw [base64DecodeLoop, if_neg (by rw [hspace]; decide)]
    by_cases hpad : char = 0x3d
    · rw [if_pos hpad, if_neg (by decide)]
      refine (base64DecodeLoop_padded hrest (Nat.succ_ne_zero 0)).imp_right ?_
      rintro ⟨padding, htext, hless⟩
      refine ⟨[], padding + 1, ?_, by simp, by omega⟩
      rw [hpad, htext, map_nil, nil_append, replicate_succ]
    · rw [if_neg hpad, if_neg (by decide)]
      cases hindex : base64.idxOf? char with
      | none => exact .inl rfl
      | some value =>
        obtain ⟨hvalue, hchar⟩ := base64_idxOf hindex
        refine (ih hrest).imp_right ?_
        rintro ⟨values, padding, htext, hvalues, hpadding⟩
        refine ⟨value :: values, padding, ?_, forall_mem_cons.2 ⟨hvalue, hvalues⟩, hpadding⟩
        rw [hchar, htext, map_cons, cons_append]

/-- No byte is added. -/
theorem length_orValues (out : Bytes) (bit : ℕ) (values : List ℕ) :
    (orValues out bit values).length = out.length := by
  induction values generalizing out bit with
  | nil => rfl
  | cons value values ih => simp [orValues, ih, orByte]

/-- Which bits are put into a byte. -/
theorem byteBit_orByte {out : Bytes} (hi : i < 8 * out.length) (offset bits : ℕ) :
    byteBit (orByte out offset bits) i =
      (byteBit out i || decide (offset = i / 8) && bits.testBit (7 - i % 8)) := by
  have hin : i / 8 < out.length := by omega
  rw [byteBit, byteBit, orByte, getD_eq_getElem?_getD, getD_eq_getElem?_getD, getElem?_modify,
    getElem?_eq_getElem hin]
  by_cases hoffset : offset = i / 8
  · have hlow : 7 - i % 8 < 8 := by omega
    simp [hoffset, Nat.testBit_mod_two_pow _ 8, hlow]
  · simp [hoffset]

/-- A digit has six bits. -/
theorem digitBit_singleton (h : 6 ≤ i) : digitBit [value] i = false := by
  rw [digitBit, getD_eq_default _ _ (by simp; omega), Nat.zero_testBit]

/-- A digit goes into two bytes. [core/base64.c:138-144] -/
theorem byteBit_orDigit (hi : i < 8 * out.length) (hvalue : value < 64) (bit : ℕ) :
    byteBit (orByte (orByte out (bit / 8) (value <<< 2 >>> (bit % 8)))
      (bit / 8 + 1) (value <<< 2 <<< (8 - bit % 8))) i =
        (byteBit out i || decide (bit ≤ i) && digitBit [value] (i - bit)) := by
  rw [byteBit_orByte (by rwa [orByte, length_modify]), byteBit_orByte hi, Bool.or_assoc,
    Nat.testBit_shiftRight, Nat.testBit_shiftLeft, Nat.testBit_shiftLeft, Nat.testBit_shiftLeft]
  congr 1
  have hhigh : ∀ k, 6 ≤ k → value.testBit k = false := fun k hk =>
    Nat.testBit_lt_two_pow (hvalue.trans_le (Nat.pow_le_pow_right (show 0 < 2 by decide) hk))
  rcases Nat.lt_or_ge i (bit + 6) with hless | hlater
  · have hdigit : bit ≤ i → digitBit [value] (i - bit) = value.testBit (5 - (i - bit)) := by
      intro hfrom
      rw [digitBit, Nat.div_eq_of_lt (by omega), Nat.mod_eq_of_lt (by omega)]
      rfl
    grind
  · rw [digitBit_singleton (by omega)]
    grind

/-- The bits of digits go where they belong. -/
theorem byteBit_orValues (hi : i < 8 * out.length)
    (hvalues : ∀ value ∈ values, value < 64) (hless : bit + 6 * values.length < 2 ^ 32) :
    byteBit (orValues out bit values) i =
      (byteBit out i || decide (bit ≤ i) && digitBit values (i - bit)) := by
  induction values generalizing out bit with
  | nil => simp [orValues, digitBit]
  | cons value values ih =>
    obtain ⟨hvalue, hrest⟩ := forall_mem_cons.1 hvalues
    rw [length_cons] at hless
    rw [orValues, Nat.mod_eq_of_lt (show bit + 6 < 2 ^ 32 by omega),
      ih (by simpa [orByte] using hi) hrest (by omega), byteBit_orDigit hi hvalue, Bool.or_assoc]
    congr 1
    rcases Nat.lt_or_ge i (bit + 6) with hfirst | hlater
    · rw [decide_eq_false (show ¬bit + 6 ≤ i by omega), Bool.false_and, Bool.or_false, digitBit,
        digitBit, Nat.div_eq_of_lt (by omega)]
      rfl
    · rw [digitBit_singleton (by omega), decide_eq_true hlater, decide_eq_true (by omega), digitBit,
        digitBit, show (i - bit) / 6 = (i - (bit + 6)) / 6 + 1 by omega,
        show (i - bit) % 6 = (i - (bit + 6)) % 6 by omega]
      rfl

/-- **The length returned for a well-formed string**, as far as bits can be counted. -/
theorem base64Decode_eq {encoded : Bytes} {padding : ℕ}
    (h : IsBase64 (withoutSpaces encoded) values padding) (len : ℕ) :
    base64Decode encoded len =
      .ok ((base64Data values).length % 2 ^ 29, orValues (replicate len 0) 0 values) := by
  obtain ⟨htext, hvalues, hpadding, hwhole⟩ := h
  have hbits : (6 * values.length + (2 ^ 32 - 2) * padding) % 2 ^ 32 % 8 = 0 := by omega
  have hbytes : (6 * values.length + (2 ^ 32 - 2) * padding) % 2 ^ 32 / 8 =
      6 * values.length / 8 % 2 ^ 29 := by
    have hcases : padding = 0 ∨ padding = 1 ∨ padding = 2 := by omega
    rcases hcases with rfl | rfl | rfl <;> omega
  rw [base64Decode, base64DecodeLoop_withoutSpaces, htext, base64DecodeLoop_text _ hvalues hpadding]
  simp only [bind, Except.bind, hbits, hbytes, length_base64Data, ne_eq, not_true_eq_false, if_false]

/-- **Only well-formed strings are decoded.** -/
theorem base64Decode_reject {encoded : Bytes}
    (h : ¬∃ values padding, IsBase64 (withoutSpaces encoded) values padding) (len : ℕ) :
    base64Decode encoded len = .error .einval := by
  rw [base64Decode, base64DecodeLoop_withoutSpaces]
  have hspaces : ∀ char ∈ withoutSpaces encoded, isspace char = false := by
    intro char hchar
    simpa using (mem_filter.1 hchar).2
  rcases base64DecodeLoop_cases hspaces with herror | ⟨values, padding, htext, hvalues, hpadding⟩
  · rw [herror]
    rfl
  · have hwhole : (6 * values.length + (2 ^ 32 - 2) * padding) % 2 ^ 32 % 8 ≠ 0 := by
      intro hbits
      exact h ⟨values, padding, htext, hvalues, hpadding, by omega⟩
    rw [htext, base64DecodeLoop_text _ hvalues hpadding]
    simp only [bind, Except.bind, if_pos hwhole]

/-- In a cleared buffer only the digits have bits. -/
theorem byteBit_orValues_zero (hvalues : ∀ value ∈ values, value < 64)
    (hless : (base64Data values).length < 2 ^ 29) {len : ℕ} (hi : i < 8 * len) :
    byteBit (orValues (replicate len 0) 0 values) i = digitBit values i := by
  rw [length_base64Data] at hless
  have hzero : byteBit (replicate len 0) i = false := by
    rw [byteBit, ← nil_append (replicate len 0), getD_append_replicate]
    simp
  rw [byteBit_orValues (by rwa [length_replicate]) hvalues (by omega), hzero]
  simp

/-- The buffer holds the data. -/
theorem take_orValues (hvalues : ∀ value ∈ values, value < 64)
    (hless : (base64Data values).length < 2 ^ 29) (len : ℕ) :
    (orValues (replicate len 0) 0 values).take (base64Data values).length =
      (base64Data values).take len := by
  apply eq_of_byteBit
  · rw [length_take, length_take, length_orValues, length_replicate, min_comm]
  · intro i hi
    rw [length_take, length_orValues, length_replicate] at hi
    rw [byteBit_take _ (by omega), byteBit_take _ (by omega),
      byteBit_orValues_zero hvalues hless (by omega), byteBit_base64Data hvalues (by omega)]

/-- The buffer holds the raw data, then zeros. -/
theorem orValues_base64Values (hless : raw.length < 2 ^ 29) (len : ℕ) :
    orValues (replicate len 0) 0 (base64Values raw) =
      raw.take len ++ replicate (len - raw.length) 0 := by
  apply eq_of_byteBit
  · rw [length_orValues, length_append, length_take, length_replicate, length_replicate]
    omega
  · intro i hi
    rw [length_orValues, length_replicate] at hi
    rw [byteBit_orValues_zero (base64Values_lt raw) (by rwa [base64Data_base64Values]) hi,
      digitBit_base64Values, ← byteBit_take raw hi, byteBit, byteBit, getD_append_replicate]

/-- A text has no spaces. -/
theorem withoutSpaces_base64Text (raw : Bytes) :
    withoutSpaces (base64Text raw) = base64Text raw := by
  rw [withoutSpaces, filter_eq_self]
  intro char hchar
  rcases mem_append.1 hchar with hdigit | hpad
  · obtain ⟨value, hvalue, rfl⟩ := mem_map.1 hdigit
    rw [(base64Char_spec value (base64Values_lt raw value hvalue)).2.2.1]
    rfl
  · rw [eq_of_mem_replicate hpad]
    rfl

/-- Decoding a text gives the raw data back. -/
theorem base64Decode_base64Text (hless : raw.length < 2 ^ 29) (len : ℕ) :
    base64Decode (base64Text raw) len =
      .ok (raw.length, raw.take len ++ replicate (len - raw.length) 0) := by
  have htext : IsBase64 (withoutSpaces (base64Text raw)) (base64Values raw)
      (base64Padding raw.length) := by
    rw [withoutSpaces_base64Text]
    exact isBase64_base64Text raw
  rw [base64Decode_eq htext, base64Data_base64Values, Nat.mod_eq_of_lt hless,
    orValues_base64Values hless]

/-- Encoding gives the text of the data, as much of it as the buffer can hold, and decoding the text
gives back the data, as much of it as the other buffer can hold. -/
def Base64RoundTrip (raw data : Bytes) : Prop :=
  ∃ turns buffer, base64Encode arch turns raw data = some ((base64Text raw).length, buffer) ∧
    storedString buffer = (base64Text raw).take (data.length - 1) ∧
    ((base64Text raw).length < data.length → ∀ len,
      base64Decode (storedString buffer) len =
        .ok (raw.length, raw.take len ++ List.replicate (len - raw.length) 0))

/-- Decoding succeeds exactly for digits with correct padding, and returns the length of the data
and its bytes. -/
def Base64Decodes (encoded : Bytes) (len : ℕ) : Prop :=
  (∀ values padding, IsBase64 (withoutSpaces encoded) values padding →
    ∃ out, base64Decode encoded len = .ok ((base64Data values).length, out) ∧
      out.take (base64Data values).length = (base64Data values).take len) ∧
  ((¬∃ values padding, IsBase64 (withoutSpaces encoded) values padding) →
    base64Decode encoded len = .error .einval)

/-- **Data comes back from its text, and exactly the well-formed strings are decoded, as
long as the data is shorter than 512 megabytes.**
[core/base64.c:51-157] -/
theorem base64_codec (arch : Platform) (raw data encoded : Bytes) (len : ℕ) :
    (Base64RoundTrip arch raw data ↔ raw.length < 2 ^ 29) ∧
      (Base64Decodes encoded len ↔
        ∀ values padding, IsBase64 (withoutSpaces encoded) values padding →
          (base64Data values).length < 2 ^ 29) := by
  refine ⟨⟨?_, ?_⟩, ?_, ?_⟩
  · rintro ⟨turns, buffer, hencode, -⟩
    by_contra hlen
    exact base64Encode_other arch (Nat.le_of_not_lt hlen) turns data buffer hencode
  · intro hless
    obtain ⟨turns, buffer, hencode, hstored⟩ := base64Encode_text arch hless data
    refine ⟨turns, buffer, hencode, hstored, fun hroom len => ?_⟩
    rw [hstored, take_of_length_le (by omega), base64Decode_base64Text hless]
  · rintro ⟨hdecodes, -⟩ values padding htext
    obtain ⟨out, hout, -⟩ := hdecodes values padding htext
    rw [base64Decode_eq htext] at hout
    have hlength : (base64Data values).length % 2 ^ 29 = (base64Data values).length :=
      congrArg Prod.fst (Except.ok.inj hout)
    have hmod : (base64Data values).length % 2 ^ 29 < 2 ^ 29 := Nat.mod_lt _ (by decide)
    rwa [hlength] at hmod
  · intro hless
    refine ⟨fun values padding htext => ?_, fun hnone => base64Decode_reject hnone len⟩
    have hshort := hless values padding htext
    refine ⟨_, ?_, take_orValues htext.digits hshort len⟩
    rw [base64Decode_eq htext, Nat.mod_eq_of_lt hshort]

/-- Half a gigabyte of zeros is never encoded: the counter of bits goes round. -/
theorem base64_codec_endless :
    (∀ turns data, base64Encode .x64 turns (List.replicate (2 ^ 29) 0) data = none) ∧
      ¬Base64RoundTrip .x64 (List.replicate (2 ^ 29) 0) [] := by
  have hendless : ∀ turns data,
      base64Encode .x64 turns (List.replicate (2 ^ 29) 0) data = none := by
    intro turns data
    have hbits : 8 * (List.replicate (2 ^ 29) (0 : UInt8)).length % 2 ^ Platform.x64.sizeBits =
        2 ^ 32 := by
      rw [length_replicate]
      rfl
    simp only [base64Encode, hbits, base64EncodeDigits_endless _ (le_refl (2 ^ 32)) turns 0 data
      (Nat.two_pow_pos 32)]
    rfl
  refine ⟨hendless, ?_⟩
  rintro ⟨turns, buffer, hencode, -⟩
  rw [hendless] at hencode
  cases hencode

end Ipxe.Analysis
