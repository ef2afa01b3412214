import Ipxe.Analysis.Asn1Objects
import Ipxe.Library.SignedOctets
import Mathlib.Data.List.GetD

/-!
# ASN.1 integers

`asn1_integer` looks at the highest byte of an `int` before each shift.  That byte is what the
shift loses, but not the sign of what is left.
-/

namespace Ipxe.Analysis

open Library Model List

/-- An octet that the loop lets pass. -/
def IsFiller (octet : UInt8) : Prop := octet = 0x00 ∨ octet = 0xff

instance (octet : UInt8) : Decidable (IsFiller octet) :=
  inferInstanceAs (Decidable (octet = 0x00 ∨ octet = 0xff))

theorem highByte_eq {value : BitVec 32} {n : ℕ} (hn : n < 256) :
    value >>> 24 = BitVec.ofNat 32 n ↔ value.toNat / 2 ^ 24 = n := by
  rw [← BitVec.toNat_inj, BitVec.toNat_ushiftRight, BitVec.toNat_ofNat, Nat.shiftRight_eq_div_pow,
    Nat.mod_eq_of_lt (by omega)]

/-- Fewer than four octets leave the sign in the high byte. -/
theorem highByte_of_short {octets : Bytes} (hlen : octets.length < 4) :
    (BitVec.ofInt 32 (signedOctets octets)).toNat / 2 ^ 24 = 0 ∨
      (BitVec.ofInt 32 (signedOctets octets)).toNat / 2 ^ 24 = 255 := by
  obtain ⟨hlow, hhigh⟩ := signedOctets_bounds octets
  have hpow : (256 : ℤ) ^ octets.length ≤ 256 ^ 3 := pow_le_pow_right₀ (by norm_num) (by omega)
  norm_num at hpow ⊢
  omega

/-- The fourth octet from the end is the high byte. -/
theorem highByte_of_long (before : Bytes) (octet : UInt8) {last : Bytes} (hlast : last.length = 3) :
    (BitVec.ofInt 32 (signedOctets (before ++ octet :: last))).toNat / 2 ^ 24 = octet.toNat := by
  have hword : ((2 ^ 32 : ℕ) : ℤ) ∣ 256 ^ (before ++ octet :: last).length := by
    rw [length_append, length_cons, hlast, pow_add]
    exact Dvd.intro_left _ rfl
  have hvalue : signedOctets (before ++ octet :: last) % ((2 ^ 32 : ℕ) : ℤ) =
      (octetsValue (octet :: last) : ℤ) := by
    have hlt := octetsValue_lt (octet :: last)
    rw [← Int.emod_emod_of_dvd _ hword, signedOctets_emod, octetsValue_append, length_cons, hlast]
    rw [length_cons, hlast] at hlt
    omega
  have hlt := octetsValue_lt last
  rw [hlast] at hlt
  rw [BitVec.toNat_ofInt, hvalue, octetsValue_cons, hlast]
  omega

/-- **What the check of the loop sees**: the octet that the next shift loses, if there is
one. -/
theorem highByte_filler (octets : Bytes) :
    (BitVec.ofInt 32 (signedOctets octets) >>> 24 = 0x00 ∨
        BitVec.ofInt 32 (signedOctets octets) >>> 24 = 0xff) ↔
      ∀ i, i + 4 = octets.length → IsFiller (octets.getD i 0) := by
  have hzero := @highByte_eq (BitVec.ofInt 32 (signedOctets octets)) 0 (by decide)
  have hones := @highByte_eq (BitVec.ofInt 32 (signedOctets octets)) 255 (by decide)
  rw [show (0x00 : BitVec 32) = BitVec.ofNat 32 0 from rfl,
    show (0xff : BitVec 32) = BitVec.ofNat 32 255 from rfl, hzero, hones]
  rcases lt_or_ge octets.length 4 with hshort | hlong
  · exact iff_of_true (highByte_of_short hshort) fun i hi => by omega
  · obtain ⟨n, hn⟩ := Nat.exists_eq_add_of_le' hlong
    have hlt : n < octets.length := by omega
    have hsplit : octets = octets.take n ++ octets[n] :: octets.drop (n + 1) := by
      rw [getElem_cons_drop, take_append_drop]
    have hhigh := highByte_of_long (octets.take n) octets[n]
      (show (octets.drop (n + 1)).length = 3 by rw [length_drop]; omega)
    rw [← hsplit] at hhigh
    have hget : octets.getD n 0 = octets[n] := by
      rw [getD_eq_getElem?_getD, getElem?_eq_getElem hlt, Option.getD_some]
    rw [hhigh]
    constructor
    · intro hbyte i hi
      obtain rfl : i = n := by omega
      rw [hget, IsFiller, ← UInt8.toNat_inj, ← UInt8.toNat_inj]
      exact hbyte
    · intro hfiller
      have hbyte := hfiller n hn.symm
      rw [hget, IsFiller, ← UInt8.toNat_inj, ← UInt8.toNat_inj] at hbyte
      exact hbyte

/-- **The loop over the content**: it goes through if every octet that a shift loses is a
filler, and has the value modulo the width of an `int`. -/
theorem asn1IntegerLoop_eq_ok {before : Bytes} (hbefore : before ≠ []) (contents : Bytes)
    (value : ℤ) :
    asn1IntegerLoop (BitVec.ofInt 32 (signedOctets before)) contents = .ok value ↔
      (∀ i, before.length ≤ i + 4 → i + 4 < (before ++ contents).length →
        IsFiller ((before ++ contents).getD i 0)) ∧
      value = (signedOctets (before ++ contents)).bmod (2 ^ 32) := by
  induction contents generalizing before with
  | nil =>
    rw [append_nil, asn1IntegerLoop, BitVec.toInt_ofInt]
    constructor
    · intro h
      exact ⟨fun i hfrom hto => by omega, (Except.ok.inj h).symm⟩
    · rintro ⟨-, rfl⟩
      rfl
  | cons octet contents ih =>
    have hnext := @ih (before ++ [octet]) (by simp)
    have hpush : BitVec.ofInt 32 (signedOctets before) <<< 8 ||| octet.toBitVec.setWidth 32 =
        BitVec.ofInt 32 (signedOctets (before ++ [octet])) := by
      rw [signedOctets_concat hbefore]
      exact pushOctet_ofInt _ _
    rw [append_assoc] at hnext
    have hhigh := highByte_filler before
    have hbegins : ∀ i, i + 4 = before.length →
        (before ++ octet :: contents).getD i 0 = before.getD i 0 := by
      intro i hi
      rw [getD_append _ _ _ _ (by omega)]
    unfold asn1IntegerLoop
    simp only [hpush]
    split_ifs with hfiller
    · rw [hhigh] at hfiller
      rw [hnext, length_append]
      refine and_congr_left fun _ => ⟨fun h i hfrom hto => ?_, fun h i hfrom => h i (by omega)⟩
      rcases Nat.lt_or_eq_of_le hfrom with hlater | hnow
      · exact h i hlater hto
      · rw [hbegins i hnow.symm]
        exact hfiller i hnow.symm
    · rw [hhigh] at hfiller
      refine iff_of_false nofun fun h => hfiller fun i hi => ?_
      rw [← hbegins i hi]
      apply h.1 i hi.ge
      rw [length_append, length_cons]
      omega

theorem signExtend_eq (first : UInt8) :
    first.toBitVec.signExtend 32 = BitVec.ofInt 32 (signedOctets [first]) := by
  have hvalue : octetsValue [first] = first.toNat := by simp [octetsValue]
  have hsign : octetsNegative [first] = decide (128 ≤ first.toNat) :=
    decide_eq_decide.2 UInt8.le_iff_toNat_le
  unfold BitVec.signExtend signedOctets
  rw [hsign, BitVec.toInt_eq_toNat_cond, UInt8.toNat_toBitVec]
  congr 1
  simp only [length_singleton, decide_eq_true_eq]
  split_ifs <;> omega

theorem forall_take_iff {contents : Bytes} {n : ℕ} :
    (∀ octet ∈ contents.take n, IsFiller octet) ↔
      ∀ i, i < n → i < contents.length → IsFiller (contents.getD i 0) := by
  rw [forall_mem_iff_forall_getElem]
  constructor
  · intro h i hn hi
    have hi' : i < (contents.take n).length := by
      rw [length_take]
      omega
    have hfiller := h i hi'
    rw [getElem_take] at hfiller
    rw [getD_eq_getElem _ _ hi]
    exact hfiller
  · intro h i hi
    have hlen := length_take ▸ hi
    have hfiller := h i (by omega) (by omega)
    rw [getD_eq_getElem _ _ (by omega)] at hfiller
    rw [getElem_take]
    exact hfiller

/-- What is returned, and when. [crypto/asn1.c:316-347] -/
theorem asn1Integer_eq_ok {cursor : Asn1Cursor} {value : ℤ} :
    asn1Integer cursor = .ok value ↔
      (asn1Enter cursor asn1TagInteger).1 = .ok () ∧ (asn1Enter cursor asn1TagInteger).2 ≠ [] ∧
      (∀ octet ∈ (asn1Enter cursor asn1TagInteger).2.take
        ((asn1Enter cursor asn1TagInteger).2.length - 4), IsFiller octet) ∧
      value = (signedOctets (asn1Enter cursor asn1TagInteger).2).bmod (2 ^ 32) := by
  unfold asn1Integer
  match asn1Enter cursor asn1TagInteger with
  | (.error rc, contents) => simp
  | (.ok (), []) => simp
  | (.ok (), first :: contents) =>
    have hloop := @asn1IntegerLoop_eq_ok [first] (cons_ne_nil _ _) contents value
    dsimp only
    rw [signExtend_eq, hloop, forall_take_iff, singleton_append, length_singleton]
    constructor
    · rintro ⟨hfiller, hvalue⟩
      exact ⟨rfl, cons_ne_nil _ _, fun i hi _ => hfiller i (by omega) (by omega), hvalue⟩
    · rintro ⟨-, -, hfiller, hvalue⟩
      exact ⟨fun i _ hi => hfiller i (by omega) (by omega), hvalue⟩

/-- The content octets that are read: their number is kept in an `unsigned int`.
[crypto/asn1.c:101,127-131] -/
def octetsRead (content : Bytes) : Bytes := content.take (content.length % 2 ^ 32)

/-- The content of an integer for which an error is returned: too long for an `int`, empty, or with
an octet before the last four that is no filler. -/
def Refused (content : Bytes) : Prop :=
  2 ^ 31 ≤ content.length % 2 ^ 32 ∨ content.length % 2 ^ 32 = 0 ∨
    ∃ octet ∈ (octetsRead content).take (content.length % 2 ^ 32 - 4), octet ≠ 0x00 ∧ octet ≠ 0xff

section

variable {cursor : Asn1Cursor} {content rest : Bytes} {tag : UInt8}

/-- An object of any length is entered with the octets that are read, or not at all. -/
theorem asn1Enter_octetsRead (h : tlvObject tlvLength cursor = some (tag, content, rest)) :
    ∃ rc, asn1Enter cursor tag =
      if content.length % 2 ^ 32 < 2 ^ 31 then (.ok (), octetsRead content) else (.error rc, []) := by
  obtain ⟨octets, body, hheader, hle, rfl, rfl⟩ := tlvObject_eq_some h
  have hlen : (body.take (tlvLength octets)).length = tlvLength octets := by
    rw [length_take, min_eq_left hle]
  have hmod := Nat.mod_le (tlvLength octets) (2 ^ 32)
  have hstart := asn1Start_of_tlvHeader hheader (.inr rfl)
  rw [asn1Len_eq, if_neg (by omega)] at hstart
  refine ⟨.raw ((tlvLength octets % 2 ^ 32 : ℕ) - 2 ^ 32), ?_⟩
  rw [asn1Enter, hstart, octetsRead, hlen, take_take, min_eq_left hmod]
  split_ifs <;> rfl

/-- **When an integer object is read**, and as which value. -/
theorem asn1Integer_of_tlvObject
    (h : tlvObject tlvLength cursor = some (asn1TagInteger, content, rest)) {value : ℤ} :
    asn1Integer cursor = .ok value ↔
      ¬ Refused content ∧ value = (signedOctets (octetsRead content)).bmod (2 ^ 32) := by
  obtain ⟨rc, henter⟩ := asn1Enter_octetsRead h
  have hlen : (octetsRead content).length = content.length % 2 ^ 32 := by
    rw [octetsRead, length_take, min_eq_left (Nat.mod_le _ _)]
  rw [asn1Integer_eq_ok, henter, Refused]
  by_cases hfits : content.length % 2 ^ 32 < 2 ^ 31
  · rw [if_pos hfits, ← length_pos_iff, hlen, Nat.pos_iff_ne_zero]
    simp only [not_or, not_le, not_exists, not_and, true_and, hfits, and_assoc, IsFiller,
      Decidable.not_not]
    refine and_congr_right fun _ => and_congr_left fun _ => forall₂_congr fun octet _ => ?_
    exact Decidable.or_iff_not_imp_left
  · rw [if_neg hfits]
    exact iff_of_false (fun h => absurd h.1 (by simp)) fun h => h.1 (.inl (not_lt.1 hfits))

/-- **ASN.1 integers.**  Every value that is returned is that of all content octets exactly if the
content is refused, or there are fewer than 2^32 octets and their value fits an `int`, or all are
sign octets.
[crypto/asn1.c:98-170,316-347] -/
theorem asn1_integer_exact (cursor : Asn1Cursor) (content rest : Bytes)
    (hobject : tlvObject tlvLength cursor = some (asn1TagInteger, content, rest)) :
    (∀ value, asn1Integer cursor = .ok value → value = signedOctets content) ↔
      Refused content ∨
      (content.length < 2 ^ 32 ∧ -2 ^ 31 ≤ signedOctets content ∧ signedOctets content < 2 ^ 31) ∨
      signedOctets content = 0 ∨ signedOctets content = -1 := by
  have hread : (∀ value, asn1Integer cursor = .ok value → value = signedOctets content) ↔
      Refused content ∨ (signedOctets (octetsRead content)).bmod (2 ^ 32) = signedOctets content := by
    simp only [asn1Integer_of_tlvObject hobject]
    constructor
    · intro h
      exact or_iff_not_imp_left.2 fun hnot => h _ ⟨hnot, rfl⟩
    · rintro (hrefused | hvalue) value ⟨hnot, rfl⟩
      · exact absurd hrefused hnot
      · exact hvalue
  rw [hread]
  by_cases hrefused : Refused content
  · exact iff_of_true (.inl hrefused) (.inl hrefused)
  rw [or_iff_right hrefused, or_iff_right hrefused]
  have hlow := @Int.le_bmod (signedOctets (octetsRead content)) (2 ^ 32) (by norm_num)
  have hhigh := @Int.bmod_lt (signedOctets (octetsRead content)) (2 ^ 32) (by norm_num)
  have hsmall : -2 ^ 31 ≤ signedOctets (octetsRead content) →
      signedOctets (octetsRead content) < 2 ^ 31 →
      (signedOctets (octetsRead content)).bmod (2 ^ 32) = signedOctets (octetsRead content) :=
    fun hle hlt => Int.bmod_eq_of_le (by norm_num; omega) (by norm_num; omega)
  by_cases hshort : content.length < 2 ^ 32
  · -- all octets are read
    have hall : octetsRead content = content := by
      rw [octetsRead, Nat.mod_eq_of_lt hshort, take_length]
    rw [hall] at hlow hhigh hsmall ⊢
    norm_num at hlow hhigh hsmall ⊢
    omega
  · -- what is read is a beginning of the content, before octets of much lower weight
    have hnonempty : octetsRead content ≠ [] := by
      intro hnil
      have hlen := congrArg List.length hnil
      rw [octetsRead, length_take, min_eq_left (Nat.mod_le _ _)] at hlen
      exact hrefused (.inr (.inl hlen))
    have hsplit : octetsRead content ++ content.drop (content.length % 2 ^ 32) = content :=
      take_append_drop _ _
    have hweight : (2 ^ 31 : ℤ) ≤ 256 ^ (content.drop (content.length % 2 ^ 32)).length := by
      have hpow : (256 : ℤ) ^ 4 ≤ 256 ^ (content.drop (content.length % 2 ^ 32)).length :=
        pow_le_pow_right₀ (by norm_num) (by rw [length_drop]; omega)
      exact le_trans (by norm_num) hpow
    have hsign := signedOctets_sign hnonempty hweight
    rw [hsplit] at hsign
    norm_num at hlow hhigh hsmall hsign ⊢
    constructor
    · intro hvalue
      have := hsign (by omega) (by omega)
      omega
    · intro hvalue
      have := hsign (by omega) (by omega)
      omega

end

theorem asn1_integer_exact_short :
    tlvObject tlvLength [0x02, 0x02, 0xfe, 0x0c] = some (asn1TagInteger, [0xfe, 0x0c], []) ∧
    ∀ value, asn1Integer [0x02, 0x02, 0xfe, 0x0c] = .ok value → value = signedOctets [0xfe, 0x0c] :=
  ⟨by decide, (asn1_integer_exact _ [0xfe, 0x0c] [] (by decide)).2 (.inr (.inl (by decide)))⟩

/-- The content `00 80 00 00 00` is read as the least `int`. -/
theorem asn1_integer_exact_sign :
    tlvObject tlvLength [0x02, 0x05, 0x00, 0x80, 0x00, 0x00, 0x00] =
      some (asn1TagInteger, [0x00, 0x80, 0x00, 0x00, 0x00], []) ∧
    asn1Integer [0x02, 0x05, 0x00, 0x80, 0x00, 0x00, 0x00] = .ok (-2 ^ 31) ∧
    signedOctets [0x00, 0x80, 0x00, 0x00, 0x00] = 2 ^ 31 := by
  decide

end Ipxe.Analysis
