import Mathlib.Data.List.TakeWhile
import Ipxe.Interface.PrintfText

/-!
# Integer formatting

The digits come out right, and so does padding.  But the signed format is given a `long`, negates
it, and writes the sign over the first character of a number padded with zeros.
-/

namespace Ipxe.Analysis

open Library Model Interface List

variable {value num : ℤ} {text : Bytes} {conversion : UInt8}

/-- A loop that puts digits in front of a text, the last one first. -/
theorem digitLoop_eq {base : ℕ} (hbase : 1 < base) {loop : ℕ → Bytes → Bytes}
    (char : ℕ → UInt8) (hloop : ∀ num text, loop num text =
      if num / base = 0 then char (num % base) :: text
      else loop (num / base) (char (num % base) :: text)) (upper : Bool)
    (hchar : ∀ digit < base, char digit = digitChar upper digit) (num : ℕ) (text : Bytes) :
    loop num text = digitsText base upper num ++ text := by
  have hmod : num % base < base := Nat.mod_lt _ (by omega)
  induction num using numeral_induction hbase generalizing text with
  | hdigit num h =>
    rw [hloop, if_pos (Nat.div_eq_of_lt h), hchar _ hmod, Nat.mod_eq_of_lt h, digitsText,
      numeral_of_lt h]
    rfl
  | hmore num h ih =>
    rw [hloop, if_neg (Nat.div_pos h (by omega)).ne', ih _ (Nat.mod_lt _ (by omega)), hchar _ hmod,
      digitsText, digitsText, numeral_of_le hbase h, map_append, append_assoc]
    rfl

theorem hexLoop_eq (upper : Bool) (num : ℕ) (text : Bytes) :
    hexLoop (if upper then 0 else 0x20) num text = digitsText 16 upper num ++ text := by
  have hchar : ∀ upper : Bool, ∀ digit < 16, (ascii "0123456789ABCDEF").getD digit 0 |||
      (if upper then 0 else 0x20) = digitChar upper digit := by decide +kernel
  exact digitLoop_eq (by decide) _ (fun num text => by rw [hexLoop]; rfl) upper (hchar upper) num text

theorem unsignedDecimalLoop_eq (num : ℕ) (text : Bytes) :
    unsignedDecimalLoop num text = digitsText 10 false num ++ text :=
  digitLoop_eq (by decide) (fun digit => UInt8.ofNat (0x30 + digit))
    (fun num text => by rw [unsignedDecimalLoop]; rfl) false (fun _ h => (if_pos h).symm) num text

theorem decimalLoop_natCast (num : ℕ) (text : Bytes) :
    decimalLoop num text = digitsText 10 false num ++ text := by
  have hloop : ∀ (num : ℕ) (text : Bytes), decimalLoop num text =
      if num / 10 = 0 then UInt8.ofInt (0x30 + (num % 10 : ℕ)) :: text
      else decimalLoop (num / 10 : ℕ) (UInt8.ofInt (0x30 + (num % 10 : ℕ)) :: text) := by
    intro num text
    have hdone : (num : ℤ).tdiv 10 = 0 ↔ num / 10 = 0 := Int.natCast_eq_zero
    rw [decimalLoop, dite_eq_ite, if_congr hdone rfl rfl]
    rfl
  exact digitLoop_eq (by decide) (fun digit => UInt8.ofInt (0x30 + digit)) hloop false (by decide)
    num text

variable (zero : Bool)

/-- The flags that a zero flag sets. -/
def zeroFlag : UInt8 := if zero then ZPAD else 0

variable (width : ℕ)

theorem padToWidth_digits (digits : Bytes) :
    padToWidth width (padCharacter (zeroFlag zero)) digits = paddedText zero width [] digits := by
  cases zero <;> rfl

theorem vtoyFormatUnsignedDecimal_eq (num width : ℕ) (zero : Bool) :
    vtoyFormatUnsignedDecimal num width (zeroFlag zero) = unsignedText zero width num := by
  rw [vtoyFormatUnsignedDecimal, unsignedDecimalLoop_eq, append_nil, padToWidth_digits,
    unsignedText]

theorem formatHex_eq (num width : ℕ) (upper zero : Bool) :
    Vsprintf.formatHex num width (zeroFlag zero ||| if upper then 0 else 0x20) =
      hexText upper zero width num := by
  have hcase : ∀ upper zero : Bool, (zeroFlag zero ||| if upper then 0 else 0x20) &&& LCASE =
      if upper then 0 else 0x20 := by decide
  have halt : ∀ upper zero : Bool, (zeroFlag zero ||| if upper then 0 else 0x20) &&& ALTFORM = 0 := by
    decide
  have hpad : ∀ upper zero : Bool, padCharacter (zeroFlag zero ||| if upper then 0 else 0x20) =
      padCharacter (zeroFlag zero) := by decide
  simp only [Vsprintf.formatHex, hcase, halt, hpad, hexLoop_eq, append_nil]
  rw [if_neg (not_not_intro rfl), padToWidth_digits, hexText]

theorem bmod_neg {bits : ℕ} (hvalue : value < 0) (hless : value.natAbs < 2 ^ (bits - 1))
    (hbits : 0 < bits) : (-value).bmod (2 ^ bits) = value.natAbs := by
  obtain ⟨half, rfl⟩ : ∃ n, bits = n + 1 := ⟨bits - 1, by omega⟩
  rw [Nat.add_sub_cancel] at hless
  have hwide : ((2 ^ (half + 1) : ℕ) : ℤ) = 2 ^ half * 2 := by
    rfl
  rw [Int.bmod_eq_of_le_mul_two (by rw [hwide]; omega) (by rw [hwide]; omega)]
  omega

theorem length_paddedText (sign digits : Bytes) :
    (paddedText zero width sign digits).length = max width (sign.length + digits.length) := by
  rw [paddedText]
  cases zero <;>
    simp only [Bool.false_eq_true, if_false, if_true, length_append, length_replicate] <;>
    omega

theorem paddedText_ne_zero {sign digits : Bytes}
    (hsign : ∀ char ∈ sign, char ≠ 0) (hdigits : ∀ char ∈ digits, char ≠ 0) :
    ∀ char ∈ paddedText zero width sign digits, char ≠ 0 := by
  have hpad : ∀ (count : ℕ) (pad : UInt8), pad ≠ 0 → ∀ char ∈ replicate count pad, char ≠ 0 :=
    fun count pad hpad char hchar => by rwa [eq_of_mem_replicate hchar]
  rw [paddedText]
  split_ifs with hzero
  · rw [forall_mem_append, forall_mem_append]
    exact ⟨hsign, hpad _ _ (by decide), hdigits⟩
  · rw [forall_mem_append, forall_mem_append]
    exact ⟨hpad _ _ (by decide), hsign, hdigits⟩

variable (arch : Platform)

/-- The number whose digits the signed format writes. -/
def negated (num : ℤ) : ℤ :=
  if num < 0 then (-num).bmod (2 ^ arch.sizeBits) else num

/-- **What the signed format writes**: the digits, padded; with a sign before padding with spaces, or
over the first character after padding with zeros. -/
theorem formatDecimal_cases (num : ℤ) (width : ℕ) (zero : Bool) :
    (0 ≤ num ∧ formatDecimal arch num width (zeroFlag zero) =
      paddedText zero width [] (decimalLoop (negated arch num) [])) ∨
    (num < 0 ∧ zero = false ∧ formatDecimal arch num width (zeroFlag zero) =
      paddedText false width [0x2d] (decimalLoop (negated arch num) [])) ∨
    (num < 0 ∧ zero = true ∧ formatDecimal arch num width (zeroFlag zero) =
      0x2d :: (paddedText true width [] (decimalLoop (negated arch num) [])).tail) := by
  simp only [formatDecimal, negated, padToWidth_digits]
  by_cases hnegative : num < 0
  · cases zero with
    | false => exact .inr (.inl ⟨hnegative, rfl, by simp [hnegative, zeroFlag, paddedText]⟩)
    | true => exact .inr (.inr ⟨hnegative, rfl, by simp [hnegative, zeroFlag, ZPAD]⟩)
  · exact .inl ⟨Int.not_lt.1 hnegative, by simp [hnegative]⟩

/-- **Signed numbers get their text**, if the number without its sign is a `long` and the sign is not
written over a digit. -/
theorem formatDecimal_eq {arch : Platform} {width : ℕ} {zero : Bool}
    (hless : value.natAbs < 2 ^ (arch.sizeBits - 1))
    (hsign : ¬(value < 0 ∧ zero = true ∧ width ≤ (numeral 10 value.natAbs).length)) :
    formatDecimal arch value width (zeroFlag zero) = signedText zero width value := by
  have hnum : negated arch value = (value.natAbs : ℤ) := by
    rw [negated]
    split_ifs with hnegative
    · exact bmod_neg hnegative hless (sizeBits_pos arch)
    · omega
  have hdigits : decimalLoop (negated arch value) [] = digitsText 10 false value.natAbs := by
    rw [hnum, decimalLoop_natCast, append_nil]
  rw [signedText]
  rcases formatDecimal_cases arch value width zero with
    ⟨hpositive, h⟩ | ⟨hnegative, rfl, h⟩ | ⟨hnegative, rfl, h⟩
  · rw [h, hdigits, if_neg (Int.not_lt.2 hpositive)]
  · rw [h, hdigits, if_pos hnegative]
  · have hroom : (numeral 10 value.natAbs).length < width := by
      by_contra hfull
      exact hsign ⟨hnegative, rfl, Nat.le_of_not_lt hfull⟩
    have hlen : (digitsText 10 false value.natAbs).length =
        (numeral 10 value.natAbs).length := length_map _
    rw [h, hdigits, if_pos hnegative, paddedText, paddedText, if_pos rfl, if_pos rfl, nil_append,
      nil_append, hlen, show width - (numeral 10 value.natAbs).length =
        width - ((numeral 10 value.natAbs).length + 1) + 1 by omega,
      length_append, hlen, length_singleton,
      add_comm 1 (numeral 10 value.natAbs).length]
    rfl

def shownDigits (text : Bytes) : List ℕ :=
  (text.filter isdigit).map fun char : UInt8 => char.toNat - 0x30

/-- The number that the digits in a text stand for. -/
def shownValue (text : Bytes) : ℕ := numeralValue 10 (shownDigits text)

theorem shownDigits_append (text more : Bytes) :
    shownDigits (text ++ more) = shownDigits text ++ shownDigits more := by
  rw [shownDigits, filter_append, map_append]
  rfl

theorem digitChar_decimal : ∀ digit < 10, isdigit (digitChar false digit) = true ∧
    (digitChar false digit).toNat - 0x30 = digit := by decide

theorem shownDigits_digitsText (number : ℕ) :
    shownDigits (digitsText 10 false number) = numeral 10 number := by
  rw [shownDigits, digitsText, filter_eq_self.2, map_map]
  · refine (map_congr_left fun digit hmem => ?_).trans (map_id _)
    exact (digitChar_decimal digit (numeral_lt (by decide) number digit hmem)).2
  · intro char hchar
    obtain ⟨digit, hmem, rfl⟩ := mem_map.1 hchar
    exact (digitChar_decimal digit (numeral_lt (by decide) number digit hmem)).1

theorem shownValue_paddedText {sign : Bytes} (hsign : shownDigits sign = []) (digits : Bytes) :
    shownValue (paddedText zero width sign digits) = shownValue digits := by
  rw [paddedText, shownValue]
  cases zero with
  | false =>
    rw [if_neg (by decide), shownDigits_append, shownDigits_append, hsign, shownDigits,
      filter_replicate]
    rfl
  | true =>
    rw [if_pos rfl, shownDigits_append, shownDigits_append, hsign, shownDigits, filter_replicate,
      if_pos (by decide), map_replicate]
    exact numeralValue_replicate_zero _ _

theorem shownValue_tail (text : Bytes) : shownValue text.tail ≤ shownValue text := by
  cases text with
  | nil => exact le_rfl
  | cons char text =>
    rw [shownValue, shownValue, shownDigits, shownDigits, filter_cons]
    split_ifs with hdigit
    · exact numeralValue_foldl_mono _ (Nat.zero_le _)
    · exact le_rfl

theorem shownValue_signedText (value : ℤ) :
    shownValue (signedText zero width value) = value.natAbs := by
  rw [signedText, shownValue_paddedText _ _ (by split_ifs <;> rfl), shownValue,
    shownDigits_digitsText, numeralValue_numeral (by decide)]

theorem digit_negative (hnum : num ≤ 0) :
    (UInt8.ofInt (0x30 + num.tmod 10)).toNat ≤ 0x30 ∧ num.tdiv 10 ≤ 0 := by
  obtain ⟨n, rfl⟩ : ∃ n : ℕ, num = -n := ⟨num.natAbs, by omega⟩
  have hmod : (-(n : ℤ)).tmod 10 = -((n % 10 : ℕ) : ℤ) := Int.neg_tmod n 10
  have hdiv : (-(n : ℤ)).tdiv 10 = -((n / 10 : ℕ) : ℤ) := Int.neg_tdiv n 10
  rw [hdiv, UInt8.ofInt, UInt8.toNat_ofNat']
  omega

theorem decimalLoop_negative (hnum : num ≤ 0) (text : Bytes) :
    ∀ char ∈ decimalLoop num text, char ∈ text ∨ char.toNat ≤ 0x30 := by
  fun_induction decimalLoop num text with
  | case1 num text text' hdone =>
    intro char hchar
    rcases mem_cons.1 hchar with rfl | hchar
    · exact .inr (digit_negative hnum).1
    · exact .inl hchar
  | case2 num text text' hmore ih =>
    intro char hchar
    rcases ih (digit_negative hnum).2 char hchar with hold | hlow
    · rcases mem_cons.1 hold with rfl | hold
      · exact .inr (digit_negative hnum).1
      · exact .inl hold
    · exact .inr hlow

theorem shownValue_low (h : ∀ char ∈ text, char.toNat ≤ 0x30) : shownValue text = 0 := by
  have hzero : shownDigits text = replicate (shownDigits text).length 0 := by
    rw [eq_replicate_iff]
    refine ⟨rfl, fun digit hdigit => ?_⟩
    obtain ⟨char, hchar, rfl⟩ := mem_map.1 hdigit
    exact Nat.sub_eq_zero_of_le (h char (mem_of_mem_filter hchar))
  rw [shownValue, hzero, ← append_nil (replicate _ 0), numeralValue_replicate_zero]
  rfl

theorem shownValue_decimalLoop {bound : ℕ} (hbound : 0 < bound) (h : num < bound) :
    shownValue (decimalLoop num []) < bound := by
  by_cases hnegative : num < 0
  · have hlow : ∀ char ∈ decimalLoop num [], char.toNat ≤ 0x30 := by
      intro char hchar
      exact (decimalLoop_negative hnegative.le [] char hchar).resolve_left not_mem_nil
    rwa [shownValue_low hlow]
  · obtain ⟨n, rfl⟩ : ∃ n : ℕ, num = n := ⟨num.natAbs, by omega⟩
    rw [decimalLoop_natCast, append_nil, shownValue,
      shownDigits_digitsText, numeralValue_numeral (by decide)]
    exact_mod_cast h

/-- **The signed format only shows numbers of a `long` without its sign.** -/
theorem shownValue_formatDecimal {arch : Platform} (width : ℕ) (zero : Bool)
    (hhigh : num < 2 ^ (arch.sizeBits - 1)) :
    shownValue (formatDecimal arch num width (zeroFlag zero)) < 2 ^ (arch.sizeBits - 1) := by
  have hnum : negated arch num < ((2 ^ (arch.sizeBits - 1) : ℕ) : ℤ) := by
    rw [negated]
    split_ifs with hnegative
    · refine (Int.bmod_lt (Nat.two_pow_pos _)).trans_le ?_
      cases arch <;> decide
    · exact_mod_cast hhigh
  refine lt_of_le_of_lt ?_ (shownValue_decimalLoop (Nat.two_pow_pos _) hnum)
  -- signs and padding show nothing, and the sign can only hide a digit
  rcases formatDecimal_cases arch num width zero with ⟨-, h⟩ | ⟨-, -, h⟩ | ⟨-, -, h⟩
  · rw [h, shownValue_paddedText _ _ rfl]
  · rw [h, shownValue_paddedText _ _ rfl]
  · rw [h]
    exact (shownValue_tail _).trans (shownValue_paddedText _ _ rfl _).le

theorem natAbs_tdiv_ten (num : ℤ) : (num.tdiv 10).natAbs = num.natAbs / 10 := Int.natAbs_tdiv num 10

theorem digit_ne_zero (num : ℤ) : UInt8.ofInt (0x30 + num.tmod 10) ≠ 0 := by
  have hlow : -10 < num.tmod 10 := Int.lt_tmod_of_pos num (by decide)
  have hhigh : num.tmod 10 < 10 := Int.tmod_lt_of_pos num (by decide)
  intro hzero
  have hnat := congrArg UInt8.toNat hzero
  rw [UInt8.ofInt, UInt8.toNat_ofNat', UInt8.toNat_zero] at hnat
  omega

theorem decimalLoop_ne_zero (num : ℤ) (htext : ∀ char ∈ text, char ≠ 0) :
    ∀ char ∈ decimalLoop num text, char ≠ 0 := by
  fun_induction decimalLoop num text with
  | case1 num text text' hdone => exact forall_mem_cons.2 ⟨digit_ne_zero num, htext⟩
  | case2 num text text' hmore ih => exact ih (forall_mem_cons.2 ⟨digit_ne_zero num, htext⟩)

theorem length_decimalLoop (num : ℤ) (text : Bytes) :
    (decimalLoop num text).length = (numeral 10 num.natAbs).length + text.length := by
  fun_induction decimalLoop num text with
  | case1 num text text' hdone =>
    have hdiv := natAbs_tdiv_ten num
    rw [numeral_of_lt (by omega : num.natAbs < 10), length_singleton, length_cons, add_comm]
  | case2 num text text' hmore ih =>
    have hdiv := natAbs_tdiv_ten num
    rw [ih, hdiv, numeral_of_le (by decide : 1 < 10) (by omega : 10 ≤ num.natAbs),
      length_append, length_singleton, length_cons]
    omega

theorem formatDecimal_ne_zero (num : ℤ) (width : ℕ) (zero : Bool) :
    ∀ char ∈ formatDecimal arch num width (zeroFlag zero), char ≠ 0 := by
  have hdigits : ∀ char ∈ decimalLoop (negated arch num) [], char ≠ 0 :=
    decimalLoop_ne_zero _ (forall_mem_nil _)
  rcases formatDecimal_cases arch num width zero with ⟨-, h⟩ | ⟨-, -, h⟩ | ⟨-, -, h⟩ <;> rw [h]
  · exact paddedText_ne_zero zero width (forall_mem_nil _) hdigits
  · exact paddedText_ne_zero false width (forall_mem_singleton.2 (by decide)) hdigits
  · exact forall_mem_cons.2 ⟨by decide, fun char hchar => paddedText_ne_zero true width
      (forall_mem_nil _) hdigits char (mem_of_mem_tail hchar)⟩

/-- **A number with a width up to 31 fits the buffer.** -/
theorem length_formatDecimal {arch : Platform} {width : ℕ} (zero : Bool) (hwidth : width ≤ 31)
    (hnum : (negated arch num).natAbs < 10 ^ 20) :
    (formatDecimal arch num width (zeroFlag zero)).length ≤ 31 := by
  have hdigits := length_numeral_le (by decide : 1 < 10) (by decide) hnum
  rcases formatDecimal_cases arch num width zero with ⟨-, h⟩ | ⟨-, -, h⟩ | ⟨-, -, h⟩
  · rw [h, length_paddedText, length_decimalLoop, length_nil]
    omega
  · rw [h, length_paddedText, length_decimalLoop, length_singleton, length_nil]
    omega
  · rw [h, length_cons, length_tail, length_paddedText, length_decimalLoop, length_nil]
    omega

/-- The entry of the table of sizes that a modifier leads to. -/
def modifierLength : LengthModifier → ℤ
  | .hh => 0
  | .h => 1
  | .int => 2
  | .l => 3
  | .ll => 4
  | .z => 5

def integerConversions : Bytes := [0x64, 0x69, 0x75, 0x55, 0x78, 0x58]

variable (modifier : LengthModifier)

theorem modifier_head (hconversion : conversion ∈ integerConversions) :
    ∃ char rest, modifier.text ++ [conversion] = char :: rest ∧ isdigit char = false ∧
      char ≠ 0x23 ∧ char ≠ 0x30 := by
  have hchar : ∀ conversion ∈ integerConversions, isdigit conversion = false ∧ conversion ≠ 0x23 ∧
      conversion ≠ 0x30 := by decide +kernel
  cases modifier with
  | int => exact ⟨conversion, [], rfl, hchar conversion hconversion⟩
  | hh => exact ⟨0x68, _, rfl, by decide⟩
  | h => exact ⟨0x68, _, rfl, by decide⟩
  | l => exact ⟨0x6c, _, rfl, by decide⟩
  | ll => exact ⟨0x6c, _, rfl, by decide⟩
  | z => exact ⟨0x7a, _, rfl, by decide⟩

theorem printfLength_modifier
    (hconversion : conversion ∈ integerConversions) :
    printfLength 2 (modifier.text ++ [conversion]) = (modifierLength modifier, [conversion]) := by
  have hchar : ∀ conversion ∈ integerConversions, conversion ≠ 0x68 ∧ conversion ≠ 0x6c ∧
      conversion ≠ 0x7a := by decide +kernel
  obtain ⟨hh, hl, hz⟩ := hchar conversion hconversion
  have hend : ∀ length, printfLength length [conversion] = (length, [conversion]) := by
    intro length
    rw [printfLength, if_neg hh, if_neg hl, if_neg hz]
  cases modifier <;> exact hend _

theorem printfWidth_digits {digits : List ℕ} (hdigits : ∀ digit ∈ digits, digit < 10) (start : ℕ)
    {char : UInt8} (hchar : isdigit char = false) (rest : Bytes) :
    printfWidth start (digits.map (digitChar false) ++ char :: rest) =
      (digits.foldl (fun value digit => value * 10 + digit) start, char :: rest) := by
  induction digits generalizing start with
  | nil =>
    rw [map_nil, nil_append, printfWidth, hchar]
    rfl
  | cons digit digits ih =>
    obtain ⟨hfirst, hrest⟩ := forall_mem_cons.1 hdigits
    obtain ⟨hdigit, hvalue⟩ := digitChar_decimal digit hfirst
    rw [map_cons, cons_append, printfWidth, hdigit, hvalue, ih hrest]
    rfl

theorem printfFlags_zero {char : UInt8} (halt : char ≠ 0x23) (hzero : char ≠ 0x30) (rest : Bytes) :
    printfFlags 0 ((if zero then [0x30] else []) ++ char :: rest) =
      (zeroFlag zero, char :: rest) := by
  have hend : ∀ flags, printfFlags flags (char :: rest) = (flags, char :: rest) := by
    intro flags
    rw [printfFlags, if_neg halt, if_neg hzero]
  cases zero with
  | false => exact hend 0
  | true => exact hend _

theorem vcprintf_directive (env : PrintfEnv) (zero : Bool) (width : ℕ) (modifier : LengthModifier)
    (hconversion : conversion ∈ integerConversions) (args : List ℕ) :
    vcprintf env (directive zero width modifier conversion) args =
      (printfConversion env (zeroFlag zero) width (modifierLength modifier) conversion args).map
        Prod.fst := by
  obtain ⟨char, rest, hrest, hdigit, halt, hzero⟩ := modifier_head modifier hconversion
  have hwidth : ∃ char' rest',
      (if width = 0 then [] else digitsText 10 false width) ++ char :: rest = char' :: rest' ∧
      char' ≠ 0x23 ∧ char' ≠ 0x30 ∧ printfWidth 0 (char' :: rest') = (width, char :: rest) := by
    split_ifs with hnone
    · refine ⟨char, rest, rfl, halt, hzero, ?_⟩
      rw [hnone, printfWidth, hdigit, if_neg Bool.false_ne_true]
    · obtain ⟨first, more, hnumeral, hfirst⟩ := numeral_eq_cons (by decide : 1 < 10) hnone
      have hless := numeral_lt (by decide : 1 < 10) width
      have hflag : ∀ digit < 10, digit ≠ 0 → digitChar false digit ≠ 0x23 ∧
          digitChar false digit ≠ 0x30 := by decide
      obtain ⟨hnoAlt, hnoZero⟩ := hflag first (hless first (by rw [hnumeral]; simp)) hfirst
      have hread := printfWidth_digits hless 0 hdigit rest
      rw [← numeralValue, numeralValue_numeral (by decide), hnumeral] at hread
      rw [digitsText, hnumeral]
      exact ⟨_, _, rfl, hnoAlt, hnoZero, hread⟩
  obtain ⟨char', rest', hjoin, halt', hzero', hread⟩ := hwidth
  have hfmt : directive zero width modifier conversion =
      0x25 :: ((if zero then [0x30] else []) ++ char' :: rest') := by
    rw [directive, append_assoc, append_assoc, append_assoc, hrest, hjoin]
    rfl
  rw [vcprintf, hfmt, length_cons, vcprintfLoop]
  simp only [printfFlags_zero zero halt' hzero', hread, ← hrest, printfLength_modifier modifier hconversion]
  cases printfConversion env (zeroFlag zero) width (modifierLength modifier) conversion args with
  | none => rfl
  | some result =>
    simp only [Option.bind_eq_bind, Option.bind_some, vcprintfLoop, append_nil]
    rfl

theorem digitsText_ne_zero {base : ℕ} (hbase : 1 < base) (hlow : base ≤ 16) (upper : Bool)
    (number : ℕ) : ∀ char ∈ digitsText base upper number, char ≠ 0 := by
  have hdigit : ∀ upper : Bool, ∀ digit < 16, digitChar upper digit ≠ 0 := by decide
  intro char hchar
  obtain ⟨digit, hmem, rfl⟩ := mem_map.1 hchar
  exact hdigit upper digit ((numeral_lt hbase number digit hmem).trans_le hlow)

section

variable (arch : Platform) (modifier : LengthModifier)

/-- The bits of a passed argument. -/
def passedBits : ℕ := max (modifier.bits arch) 32

theorem typeSize_modifier : ∃ size, typeSize arch (modifierLength modifier) = some size ∧
    unsignedArgBits arch size = passedBits arch modifier ∧
    (if arch.sizeBits / 8 ≤ size then arch.sizeBits else 32) =
      min (passedBits arch modifier) arch.sizeBits := by
  cases arch <;> cases modifier <;> exact ⟨_, rfl, by decide, by decide⟩

theorem unsigned_arg {value : ℕ} (hvalue : value < 2 ^ modifier.bits arch) :
    ∃ size, typeSize arch (modifierLength modifier) = some size ∧
      vaArg arch (unsignedArgBits arch size)
        (passed arch (modifier.bits arch) value) = some (value, []) := by
  obtain ⟨size, hsize, hbits, -⟩ := typeSize_modifier arch modifier
  refine ⟨size, hsize, ?_⟩
  have hlt : value < 2 ^ passedBits arch modifier :=
    hvalue.trans_le (Nat.pow_le_pow_right (by decide) (le_max_left _ _))
  rw [hbits, passed, ← passedBits,
    Int.emod_eq_of_lt (Int.natCast_nonneg value) (by exact_mod_cast hlt), Int.toNat_natCast]
  split_ifs with hone
  · rw [vaArg, if_pos hone, Nat.mod_eq_of_lt hlt]
  · rw [vaArg, if_neg hone, Nat.mod_mod, Nat.mod_add_div, Nat.mod_eq_of_lt hlt]

theorem unsigned_lt {value : ℕ} (hvalue : value < 2 ^ modifier.bits arch) : value < 10 ^ 20 := by
  refine hvalue.trans_le ?_
  cases arch <;> cases modifier <;> decide

theorem vaArg_passed_signed (value : ℤ) : ∃ rest,
    vaArg arch (min (passedBits arch modifier) arch.sizeBits)
        (passed arch (modifier.bits arch) value) =
      some ((value % 2 ^ min (passedBits arch modifier) arch.sizeBits).toNat, rest) := by
  rw [passed, ← passedBits]
  have hbits : min (passedBits arch modifier) arch.sizeBits ≤ arch.sizeBits := min_le_right _ _
  have hread : ∀ bits, (value % 2 ^ passedBits arch modifier).toNat % 2 ^
      min (passedBits arch modifier) bits =
      (value % 2 ^ min (passedBits arch modifier) bits).toNat := by
    intro bits
    zify
    rw [Int.toNat_of_nonneg (Int.emod_nonneg _ (by positivity)),
      Int.toNat_of_nonneg (Int.emod_nonneg _ (by positivity))]
    exact Int.emod_emod_of_dvd value (pow_dvd_pow 2 (min_le_left _ _))
  split_ifs with hone
  · refine ⟨[], ?_⟩
    rw [vaArg, if_pos hbits, hread]
  · refine ⟨[(value % 2 ^ passedBits arch modifier).toNat / 2 ^ arch.sizeBits], ?_⟩
    rw [vaArg, if_pos hbits, Nat.mod_mod_of_dvd _ (pow_dvd_pow 2 hbits), hread]

end

theorem signedOf_emod (value : ℤ) (bits : ℕ) :
    signedOf bits (value % 2 ^ bits).toNat = value.bmod (2 ^ bits) := by
  rw [signedOf, Int.toNat_of_nonneg (Int.emod_nonneg _ (by positivity))]
  have hpower : ((2 : ℤ) ^ bits) = ((2 ^ bits : ℕ) : ℤ) := by push_cast; rfl
  rw [hpower, Int.emod_bmod]

theorem prints_iff {env : PrintfEnv} {fmt out : Bytes} {args : List ℕ}
    (hout : vcprintf env fmt args = some out) (hchars : ∀ char ∈ out, char ≠ 0) :
    Prints env fmt args text ↔ out = text := by
  have hbuffer : ∀ buf : Bytes, vsnprintf env buf fmt args =
      some (out.length, (setFrom buf 0 out).set (min (buf.length - 1) out.length) 0) := by
    intro buf
    rw [vsnprintf, hout]
    rfl
  have hstored : ∀ buf : Bytes,
      storedString ((setFrom buf 0 out).set (min (buf.length - 1) out.length) 0) =
        out.take (buf.length - 1) := by
    intro buf
    apply storedString_eq hchars
    · intro i hi
      have hread := getElem?_setFrom buf out 0 i (by omega) (by omega)
      rw [zero_add] at hread
      rw [getElem?_set_ne (by omega), hread]
    · intro char hchar
      rw [getElem?_set] at hchar
      simp only [if_true] at hchar
      split_ifs at hchar
      exact (Option.some.inj hchar).symm
  constructor
  · intro hprints
    -- a buffer that is long enough for both
    have hlong : (replicate (out.length + text.length + 1) (0 : UInt8)).length - 1 =
        out.length + text.length := by
      rw [length_replicate, Nat.add_sub_cancel]
    obtain ⟨buffer, hprinted, htext⟩ := hprints (replicate (out.length + text.length + 1) 0)
    rw [hbuffer] at hprinted
    obtain ⟨-, rfl⟩ := Prod.mk.inj (Option.some.inj hprinted)
    rw [hstored, take_of_length_le (by omega), take_of_length_le (by omega)] at htext
    exact htext
  · rintro rfl buf
    exact ⟨_, hbuffer buf, hstored buf⟩

/-! ## The conversions -/

section

variable {env : PrintfEnv} {width : ℕ} (zero : Bool) (modifier : LengthModifier)

/-- **A number that fits its buffer is printed as its text.** -/
theorem vcprintf_text {args : List ℕ} (rest : List ℕ)
    (hconversion : conversion ∈ integerConversions) (hlen : text.length ≤ 31)
    (htext : ∀ char ∈ text, char ≠ 0)
    (hput : printfConversion env (zeroFlag zero) width (modifierLength modifier) conversion args =
      (inTmpBuf text).bind fun text => some (text.takeWhile (· ≠ 0), rest)) :
    vcprintf env (directive zero width modifier conversion) args = some text := by
  have hall : text.takeWhile (· ≠ 0) = text := by
    rw [takeWhile_eq_self_iff]
    exact fun char hchar => decide_eq_true (htext char hchar)
  rw [vcprintf_directive env zero width modifier hconversion, hput, inTmpBuf, if_pos hlen,
    Option.bind_some, hall]
  rfl

/-- **The digits of an unsigned number are printed**, if that is what the conversion puts. -/
theorem prints_digits {base value : ℕ} {args : List ℕ} (hten : 10 ≤ base) (hlow : base ≤ 16)
    (upper : Bool) (hconversion : conversion ∈ integerConversions) (hwidth : width ≤ 31)
    (hvalue : value < 10 ^ 20)
    (hput : printfConversion env (zeroFlag zero) width (modifierLength modifier) conversion args =
      (inTmpBuf (paddedText zero width [] (digitsText base upper value))).bind fun text =>
        some (text.takeWhile (· ≠ 0), [])) :
    Prints env (directive zero width modifier conversion) args
      (paddedText zero width [] (digitsText base upper value)) := by
  have hbase : 1 < base := by omega
  have hdigits := length_numeral_le hbase (by decide)
    (hvalue.trans_le (Nat.pow_le_pow_left hten 20))
  have hlen : (paddedText zero width [] (digitsText base upper value)).length ≤ 31 := by
    rw [length_paddedText, digitsText, length_map, length_nil]
    omega
  have htext := paddedText_ne_zero zero width (forall_mem_nil _)
    (digitsText_ne_zero hbase hlow upper value)
  exact (prints_iff (vcprintf_text zero modifier [] hconversion hlen htext hput) htext).2 rfl

theorem prints_unsigned (hconversion : conversion = 0x75 ∨ conversion = 0x55)
    (hwidth : width ≤ 31) {value : ℕ} (hvalue : value < 2 ^ modifier.bits env.arch) :
    Prints env (directive zero width modifier conversion)
      (passed env.arch (modifier.bits env.arch) value) (unsignedText zero width value) := by
  obtain ⟨size, hsize, harg⟩ := unsigned_arg env.arch modifier hvalue
  apply prints_digits zero modifier (by decide) (by decide) false _ hwidth
    (unsigned_lt env.arch modifier hvalue)
  · rw [← unsignedText, ← vtoyFormatUnsignedDecimal_eq]
    rcases hconversion with rfl | rfl <;>
      simp only [printfConversion, hsize, Option.bind_eq_bind, Option.bind_some, harg] <;> rfl
  · rcases hconversion with rfl | rfl <;> decide

theorem prints_hex (upper : Bool) (hwidth : width ≤ 31) {value : ℕ}
    (hvalue : value < 2 ^ modifier.bits env.arch) :
    Prints env (directive zero width modifier (if upper then 0x58 else 0x78))
      (passed env.arch (modifier.bits env.arch) value)
      (hexText upper zero width value) := by
  obtain ⟨size, hsize, harg⟩ := unsigned_arg env.arch modifier hvalue
  apply prints_digits zero modifier (by decide) (by decide) upper _ hwidth
    (unsigned_lt env.arch modifier hvalue)
  · rw [← hexText, ← formatHex_eq]
    cases upper <;>
      simp only [printfConversion, hsize, Option.bind_eq_bind, Option.bind_some, harg] <;> rfl
  · cases upper <;> decide

variable (arch : Platform)

/-- The number that the signed format is given. -/
def givenLong (modifier : LengthModifier) (value : ℤ) : ℤ :=
  value.bmod (2 ^ min (passedBits arch modifier) arch.sizeBits)

theorem givenLong_lt (modifier : LengthModifier) (value : ℤ) :
    givenLong arch modifier value < 2 ^ (arch.sizeBits - 1) := by
  refine (Int.bmod_lt (Nat.two_pow_pos _)).trans_le ?_
  cases arch <;> cases modifier <;> decide

theorem natAbs_negated_lt (modifier : LengthModifier) (value : ℤ) :
    (negated arch (givenLong arch modifier value)).natAbs < 10 ^ 20 := by
  have hbound : ∀ (x : ℤ) (bits : ℕ), bits ≤ 64 → (x.bmod (2 ^ bits)).natAbs < 10 ^ 20 := by
    intro x bits hbits
    have hlow : _ ≤ x.bmod (2 ^ bits) := Int.le_bmod (Nat.two_pow_pos bits)
    have hhigh : x.bmod (2 ^ bits) < _ := Int.bmod_lt (Nat.two_pow_pos bits)
    have hpower : 2 ^ bits ≤ 2 ^ 64 := Nat.pow_le_pow_right (by decide) hbits
    zify at hpower
    push_cast at hlow hhigh
    omega
  have hsize : arch.sizeBits ≤ 64 := by cases arch <;> decide
  rw [negated]
  split_ifs
  · exact hbound _ _ hsize
  · exact hbound _ _ ((min_le_right _ _).trans hsize)

theorem vcprintf_signed {conversion : UInt8} (hconversion : conversion = 0x64 ∨ conversion = 0x69)
    (hwidth : width ≤ 31) (value : ℤ) :
    vcprintf env (directive zero width modifier conversion)
        (passed env.arch (modifier.bits env.arch) value) =
      some (formatDecimal env.arch (givenLong env.arch modifier value) width
        (zeroFlag zero)) := by
  obtain ⟨size, hsize, -, hbits⟩ := typeSize_modifier env.arch modifier
  have hmem : conversion ∈ integerConversions := by
    rcases hconversion with rfl | rfl <;> decide
  obtain ⟨rest, harg⟩ := vaArg_passed_signed env.arch modifier value
  apply vcprintf_text zero modifier rest hmem
    (length_formatDecimal zero hwidth (natAbs_negated_lt env.arch modifier value))
    (formatDecimal_ne_zero env.arch _ width zero)
  rcases hconversion with rfl | rfl <;>
    simp only [printfConversion, hsize, Option.bind_eq_bind, Option.bind_some, hbits, harg,
      signedOf_emod] <;> rfl

theorem givenLong_eq (hlow : -2 ^ (modifier.bits arch - 1) ≤ value)
    (hhigh : value < 2 ^ (modifier.bits arch - 1))
    (hless : value.natAbs < 2 ^ (arch.sizeBits - 1)) :
    givenLong arch modifier value = value := by
  rw [givenLong]
  cases arch <;> cases modifier <;>
    simp only [passedBits, LengthModifier.bits, Platform.sizeBits] at * <;>
    (norm_num at *; apply Int.bmod_eq_of_le_mul_two <;> omega)

/-- **The signed format prints the text exactly if the number without its sign is a `long` and the
sign is not written over a digit.** -/
theorem formatDecimal_eq_iff
    (hlow : -2 ^ (modifier.bits arch - 1) ≤ value)
    (hhigh : value < 2 ^ (modifier.bits arch - 1)) :
    formatDecimal arch (givenLong arch modifier value) width (zeroFlag zero) =
        signedText zero width value ↔
      value.natAbs < 2 ^ (arch.sizeBits - 1) ∧
        ¬(value < 0 ∧ zero = true ∧ width ≤ (numeral 10 value.natAbs).length) := by
  constructor
  · intro htext
    have hless : value.natAbs < 2 ^ (arch.sizeBits - 1) := by
      rw [← shownValue_signedText zero width value, ← htext]
      exact shownValue_formatDecimal width zero (givenLong_lt arch modifier value)
    refine ⟨hless, ?_⟩
    rintro ⟨hnegative, rfl, hfull⟩
    -- the sign takes the place of a digit, so a character is missing
    rw [givenLong_eq modifier arch hlow hhigh hless] at htext
    have hlen := congrArg List.length htext
    have hnum : (negated arch value).natAbs = value.natAbs := by
      rw [negated, if_pos hnegative, bmod_neg hnegative hless (sizeBits_pos arch),
        Int.natAbs_natCast]
    rcases formatDecimal_cases arch value width true with
      ⟨hpositive, -⟩ | ⟨-, hzero, -⟩ | ⟨-, -, h⟩
    · omega
    · cases hzero
    · rw [h, length_cons, length_tail, length_paddedText, length_decimalLoop, hnum,
        signedText, length_paddedText, if_pos hnegative,
        length_singleton, digitsText, length_map] at hlen
      have hdigits : (numeral 10 value.natAbs).length ≠ 0 := by
        rw [ne_eq, length_eq_zero_iff]
        exact numeral_ne_nil 10 _
      omega
  · rintro ⟨hless, hsign⟩
    rw [givenLong_eq modifier arch hlow hhigh hless]
    exact formatDecimal_eq hless hsign

end

/-- **Unsigned and hexadecimal numbers are printed as the C standard says; signed numbers
are exactly if the number without its sign is a `long` and zero padding leaves room for the sign.**
[core/vsprintf.c:94-164, core/vsprintf.c:189-325, core/vtoy.c:83-99] -/
theorem integer_formatting (env : PrintfEnv) (zero : Bool) (width : ℕ) (hwidth : width ≤ 31)
    (modifier : LengthModifier) :
    (∀ conversion : UInt8, conversion = 0x64 ∨ conversion = 0x69 → ∀ value : ℤ,
      -2 ^ (modifier.bits env.arch - 1) ≤ value →
      value < 2 ^ (modifier.bits env.arch - 1) →
      (Prints env (directive zero width modifier conversion)
          (passed env.arch (modifier.bits env.arch) value) (signedText zero width value) ↔
        value.natAbs < 2 ^ (env.arch.sizeBits - 1) ∧
          ¬(value < 0 ∧ zero = true ∧ width ≤ (numeral 10 value.natAbs).length))) ∧
    (∀ conversion : UInt8, conversion = 0x75 ∨ conversion = 0x55 → ∀ value : ℕ,
      value < 2 ^ modifier.bits env.arch →
      Prints env (directive zero width modifier conversion)
        (passed env.arch (modifier.bits env.arch) value) (unsignedText zero width value)) ∧
    (∀ (upper : Bool) (value : ℕ), value < 2 ^ modifier.bits env.arch →
      Prints env (directive zero width modifier (if upper then 0x58 else 0x78))
        (passed env.arch (modifier.bits env.arch) value)
        (hexText upper zero width value)) := by
  refine ⟨?_, ?_, ?_⟩
  · intro conversion hconversion value hlow hhigh
    rw [prints_iff (vcprintf_signed zero modifier hconversion hwidth value)
      (formatDecimal_ne_zero env.arch _ width zero)]
    exact formatDecimal_eq_iff zero modifier env.arch hlow hhigh
  · intro conversion hconversion value hvalue
    exact prints_unsigned zero modifier hconversion hwidth hvalue
  · intro upper value hvalue
    exact prints_hex zero modifier upper hwidth hvalue

/-- Where pointers lead does not matter for numbers. -/
def plainEnv : PrintfEnv := ⟨arch, fun _ => [], fun _ => []⟩

/-- `%06d` of -1234. -/
theorem integer_formatting_room :
    Prints (plainEnv .x64) (directive true 6 .int 0x64) (passed .x64 32 (-1234))
      (signedText true 6 (-1234)) ∧ signedText true 6 (-1234) = ascii "-01234" := by
  refine ⟨?_, by decide +kernel⟩
  refine ((integer_formatting (plainEnv .x64) true 6 (by decide) .int).1 0x64 (Or.inl rfl) (-1234)
    (by decide) (by decide)).2 ⟨by decide, ?_⟩
  decide +kernel

/-- `%05d` of -12345 loses its first digit. -/
theorem integer_formatting_overwritten :
    vcprintf (plainEnv .x64) (directive true 5 .int 0x64) (passed .x64 32 (-12345)) =
        some (ascii "-2345") ∧
      signedText true 5 (-12345) = ascii "-12345" ∧
      ¬Prints (plainEnv .x64) (directive true 5 .int 0x64) (passed .x64 32 (-12345))
        (signedText true 5 (-12345)) := by
  have hout : vcprintf (plainEnv .x64) (directive true 5 .int 0x64) (passed .x64 32 (-12345)) =
      some (ascii "-2345") := by
    refine (@vcprintf_signed (plainEnv .x64) 5 true .int 0x64 (Or.inl rfl) (by decide)
      (-12345)).trans ?_
    have hdigits : decimalLoop (negated .x64 (-12345)) [] = digitsText 10 false 12345 := by
      rw [show negated .x64 (-12345) = (12345 : ℕ) by decide, decimalLoop_natCast, append_nil]
    have hgiven : givenLong .x64 .int (-12345) = -12345 := by decide
    rcases formatDecimal_cases .x64 (-12345) 5 true with
      ⟨hpositive, -⟩ | ⟨-, hzero, -⟩ | ⟨-, -, htext⟩
    · exact absurd hpositive (by decide)
    · cases hzero
    · rw [plainEnv, hgiven, htext, hdigits]
      decide +kernel
  refine ⟨hout, by decide +kernel, ?_⟩
  rw [prints_iff hout (by decide +kernel)]
  decide +kernel

end Ipxe.Analysis
