import Ipxe.Interface.UriText
import Mathlib.Data.FinEnum

/-!
# Encoding and decoding URI fields

Every character is encoded by itself.  Where `char` has a sign, a byte of 0x80 or more is printed
with eight digits, of which the decoder reads two.
-/

namespace Ipxe.Analysis

open Model Interface List

variable {arch : Platform} {field : UriField} {c : UInt8}

/-- A byte that is printed as a negative number. -/
def IsNegative (arch : Platform) (c : UInt8) : Prop := arch.charSigned = true ∧ 0x80 ≤ c

instance (arch : Platform) (c : UInt8) : Decidable (IsNegative arch c) :=
  inferInstanceAs (Decidable (_ ∧ _))

def highDigit (c : UInt8) : UInt8 := upperHexDigit (c.toNat / 16)

def lowDigit (c : UInt8) : UInt8 := upperHexDigit (c.toNat % 16)

theorem formatHex_byte : ∀ c : UInt8, formatHex c.toNat 2 = [highDigit c, lowDigit c] := by
  decide +kernel

theorem formatHex_negative : ∀ c : UInt8, 0x80 ≤ c →
    formatHex (c.toNat + (2 ^ 32 - 256)) 2 =
      [0x46, 0x46, 0x46, 0x46, 0x46, 0x46, highDigit c, lowDigit c] := by
  decide +kernel

theorem isUpperHexDigit_digits : ∀ c : UInt8,
    IsUpperHexDigit (highDigit c) ∧ IsUpperHexDigit (lowDigit c) := by
  decide +kernel

theorem strtoul_digits (arch : Platform) : ∀ c : UInt8,
    strtoul arch.sizeBits [highDigit c, lowDigit c] 16 = (c.toNat, []) := by
  cases arch <;> decide +kernel

theorem uriEncodeChar_plain (h : uriCharacterEscaped c field = false) :
    uriEncodeChar arch field c = [c] := by
  rw [uriEncodeChar, h, if_neg Bool.false_ne_true]

theorem uriEncodeChar_escaped (h : uriCharacterEscaped c field = true) (hc : ¬IsNegative arch c) :
    uriEncodeChar arch field c = [0x25, highDigit c, lowDigit c] := by
  rw [uriEncodeChar, h, if_pos rfl, Platform.charToUnsigned,
    if_neg (show ¬(arch.charSigned = true ∧ 0x80 ≤ c) from hc), formatHex_byte]

theorem uriCharacterEscaped_high (field : UriField) : ∀ c : UInt8, 0x80 ≤ c →
    uriCharacterEscaped c field = true := by
  intro c hc
  have hprint : isprint c = false := by
    revert c
    decide +kernel
  rw [uriCharacterEscaped, hprint, if_pos (.inl rfl)]

theorem uriEncodeChar_negative (hc : IsNegative arch c) :
    uriEncodeChar arch field c =
      [0x25, 0x46, 0x46, 0x46, 0x46, 0x46, 0x46, highDigit c, lowDigit c] := by
  rw [uriEncodeChar, uriCharacterEscaped_high field c hc.2, if_pos rfl, Platform.charToUnsigned,
    if_pos (show arch.charSigned = true ∧ 0x80 ≤ c from hc), formatHex_negative c hc.2]

theorem uriDecodeBytes_plain (hc : c ≠ 0x25) (rest : Bytes) :
    uriDecodeBytes arch (c :: rest) = c :: uriDecodeBytes arch rest := by
  rw [uriDecodeBytes, if_neg hc]

theorem uriDecodeBytes_escape (c : UInt8) (rest : Bytes) :
    uriDecodeBytes arch (0x25 :: highDigit c :: lowDigit c :: rest) =
      c :: uriDecodeBytes arch rest := by
  rw [uriDecodeBytes]
  simp only [take_succ_cons, take_zero, strtoul_digits]
  simp

theorem uriCharacterEscaped_percent (hfield : field.isEncoded = false) :
    uriCharacterEscaped 0x25 field = true := by
  cases field <;> first | rfl | cases hfield

def encodeText (arch : Platform) (field : UriField) (raw : Bytes) : Bytes :=
  raw.flatMap (uriEncodeChar arch field)

theorem encodeText_cons (c : UInt8) (raw : Bytes) :
    encodeText arch field (c :: raw) =
      uriEncodeChar arch field c ++ encodeText arch field raw := rfl

/-- What a byte is decoded to after it has been encoded. -/
def readBack (arch : Platform) (c : UInt8) : Bytes :=
  if IsNegative arch c then [0xff, 0x46, 0x46, 0x46, 0x46, highDigit c, lowDigit c] else [c]

/-- **A byte is decoded in front of any rest.** -/
theorem uriDecodeBytes_encodeChar (hfield : field.isEncoded = false) (c : UInt8) (rest : Bytes) :
    uriDecodeBytes arch (uriEncodeChar arch field c ++ rest) =
      readBack arch c ++ uriDecodeBytes arch rest := by
  have hdigit : ∀ c : UInt8, highDigit c ≠ 0x25 ∧ lowDigit c ≠ 0x25 := by decide +kernel
  by_cases hc : IsNegative arch c
  · rw [uriEncodeChar_negative hc, readBack, if_pos hc]
    show uriDecodeBytes arch (0x25 :: highDigit 0xff :: lowDigit 0xff :: 0x46 :: 0x46 :: 0x46 ::
      0x46 :: highDigit c :: lowDigit c :: rest) = _
    rw [uriDecodeBytes_escape, uriDecodeBytes_plain (by decide), uriDecodeBytes_plain (by decide),
      uriDecodeBytes_plain (by decide), uriDecodeBytes_plain (by decide),
      uriDecodeBytes_plain (hdigit c).1, uriDecodeBytes_plain (hdigit c).2]
    rfl
  · rw [readBack, if_neg hc]
    cases hescaped : uriCharacterEscaped c field with
    | true =>
      rw [uriEncodeChar_escaped hescaped hc]
      exact uriDecodeBytes_escape c rest
    | false =>
      rw [uriEncodeChar_plain hescaped]
      refine uriDecodeBytes_plain (fun hpercent => ?_) rest
      rw [hpercent, uriCharacterEscaped_percent hfield] at hescaped
      cases hescaped

theorem uriDecodeBytes_encodeText (hfield : field.isEncoded = false) (raw rest : Bytes) :
    uriDecodeBytes arch (encodeText arch field raw ++ rest) =
      raw.flatMap (readBack arch) ++ uriDecodeBytes arch rest := by
  induction raw with
  | nil => rfl
  | cons c raw ih =>
    rw [encodeText_cons, append_assoc, uriDecodeBytes_encodeChar hfield, ih,
      flatMap_cons, append_assoc]

/-- No byte is printed as a negative number. -/
def Plain (arch : Platform) (raw : Bytes) : Prop := ∀ c ∈ raw, ¬IsNegative arch c

variable {raw : Bytes}

theorem flatMap_readBack (hraw : Plain arch raw) : raw.flatMap (readBack arch) = raw := by
  induction raw with
  | nil => rfl
  | cons c raw ih =>
    obtain ⟨hc, hrest⟩ := forall_mem_cons.1 hraw
    rw [flatMap_cons, ih hrest, readBack, if_neg hc]
    rfl

theorem length_flatMap_readBack (raw : Bytes) :
    raw.length ≤ (raw.flatMap (readBack arch)).length := by
  induction raw with
  | nil => rfl
  | cons c raw ih =>
    have hc : 1 ≤ (readBack arch c).length := by
      rw [readBack]
      split_ifs <;> simp
    rw [flatMap_cons, length_append, length_cons]
    omega

theorem flatMap_readBack_eq_iff : raw.flatMap (readBack arch) = raw ↔ Plain arch raw := by
  refine ⟨fun h c hc hnegative => ?_, flatMap_readBack⟩
  obtain ⟨before, after, rfl⟩ := append_of_mem hc
  have hlen := congrArg List.length h
  have hbefore := @length_flatMap_readBack arch before
  have hafter := @length_flatMap_readBack arch after
  rw [flatMap_append, flatMap_cons, readBack, if_pos hnegative] at hlen
  simp only [length_append, length_cons] at hlen
  omega

/-- **The text of a field without negative bytes.** -/
theorem escapedAs_encodeText (hfield : field.isEncoded = false)
    (hraw : Plain arch raw) : EscapedAs field raw (encodeText arch field raw) := by
  induction raw with
  | nil => exact .nil
  | cons c raw ih =>
    obtain ⟨hc, hrest⟩ := forall_mem_cons.1 hraw
    rw [encodeText_cons]
    cases hescaped : uriCharacterEscaped c field with
    | true =>
      rw [uriEncodeChar_escaped hescaped hc]
      obtain ⟨hhigh, hlow⟩ := isUpperHexDigit_digits c
      exact .escape hhigh hlow (ih hrest)
    | false =>
      rw [uriEncodeChar_plain hescaped]
      simp only [uriCharacterEscaped, hfield, Bool.false_eq_true, if_false] at hescaped
      split_ifs at hescaped with hprint
      simp only [not_or, decide_eq_false_iff_not, Bool.not_eq_true', Bool.not_eq_false]
        at hprint hescaped
      exact .plain hprint.1 hprint.2 hescaped.1 hescaped.2 (ih hrest)

section

variable (buf : Bytes)

theorem printed_of_lt {text : Bytes} (hroom : text.length < buf.length) :
    printed buf text = text ++ 0 :: buf.drop (text.length + 1) := by
  rw [printed, if_neg (by omega), take_of_length_le (by omega), min_eq_left (by omega)]

theorem printed_nil : printed buf [] = if (0 : ℤ) < buf.length then buf.set 0 0 else buf := by
  cases buf with
  | nil => rfl
  | cons c buf =>
    rw [printed_of_lt _ (by simp)]
    simp

theorem printed_append_of_le {text : Bytes} (hfull : buf.length ≤ text.length)
    (more : Bytes) : printed buf (text ++ more) = printed buf text := by
  rw [printed, printed]
  split_ifs with hempty
  · rfl
  · rw [take_append_of_le_length (by omega), length_append, min_eq_right (by omega),
      min_eq_right (by omega)]

/-- **Printing behind a text prints the longer text.** -/
theorem ssnprintf_printed (text more : Bytes) :
    ssnprintf (printed buf text) text.length (buf.length - text.length) more =
      printed buf (text ++ more) := by
  have hsize : ((buf.length : ℤ) - text.length).toNat = buf.length - text.length := by omega
  simp only [ssnprintf, hsize]
  rcases lt_or_ge text.length buf.length with hroom | hfull
  · rw [if_neg (by omega), printed_of_lt buf hroom, take_left]
    have hwritten : (more.take (buf.length - text.length - 1) ++ [0]).length =
        min more.length (buf.length - text.length - 1) + 1 := by
      rw [length_append, length_take, length_singleton, Nat.min_comm]
    have hbehind : (text ++ 0 :: buf.drop (text.length + 1)).drop
        (text.length + (min more.length (buf.length - text.length - 1) + 1)) =
        buf.drop (min (text ++ more).length (buf.length - 1) + 1) := by
      rw [drop_append, drop_of_length_le (by omega), nil_append,
        Nat.add_sub_cancel_left, drop_succ_cons, drop_drop, length_append]
      congr 1
      omega
    have htext : text.take (buf.length - 1) = text := take_of_length_le (by omega)
    rw [hwritten, hbehind, printed, if_neg (by omega), take_append, htext, append_assoc,
      append_assoc, Nat.sub_right_comm]
    rfl
  · rw [if_pos (by omega), printed_append_of_le buf hfull]

theorem set_printed (text : Bytes) :
    (if (0 : ℤ) < buf.length - text.length then (printed buf text).set text.length 0
      else printed buf text) = printed buf text := by
  split_ifs with hroom
  · rw [printed_of_lt buf (by omega), set_append_right _ _ le_rfl, Nat.sub_self, set_cons_zero]
  · rfl

theorem uriEncodeLoop_printed (raw text : Bytes) :
    uriEncodeLoop arch field raw (printed buf text) text.length (buf.length - text.length) =
      (printed buf (text ++ encodeText arch field raw),
        (buf.length : ℤ) - (text ++ encodeText arch field raw).length) := by
  induction raw generalizing text with
  | nil => rw [uriEncodeLoop, encodeText, flatMap_nil, append_nil]
  | cons c raw ih =>
    rw [uriEncodeLoop]
    simp only [ssnprintf_printed]
    have hrest := ih (text ++ uriEncodeChar arch field c)
    rw [append_assoc, ← encodeText_cons, length_append] at hrest
    rw [← hrest]
    push_cast
    ring_nf

/-- **Encoding behind a text prints the text of the field.** -/
theorem uriEncode_printed (raw text : Bytes) :
    uriEncode arch field raw (printed buf text) text.length (buf.length - text.length) =
      (printed buf (text ++ encodeText arch field raw), (encodeText arch field raw).length) := by
  rw [uriEncode, set_printed, uriEncodeLoop_printed]
  simp only [Prod.mk.injEq, true_and]
  rw [length_append]
  omega

end

/-- **A field is decoded to what was encoded** exactly if no byte is printed as a negative
number; the text has one printable character or one escape of two digits for each byte. -/
theorem uri_encode_decode (arch : Platform) (field : UriField)
    (hfield : field.isEncoded = false) (raw : Bytes) :
    ∃ text, (∀ buf : Bytes, text.length < buf.length →
        uriEncode arch field raw buf 0 buf.length =
          (text ++ 0 :: buf.drop (text.length + 1), text.length)) ∧
      ((uriDecode arch text raw.length = (raw.length, raw) ∧ EscapedAs field raw text) ↔
        (arch.charSigned = true → ∀ c ∈ raw, c < 0x80)) := by
  have hplain : Plain arch raw ↔ (arch.charSigned = true → ∀ c ∈ raw, c < 0x80) := by
    refine ⟨fun h hsigned c hc => ?_, fun h c hc hnegative => ?_⟩
    · exact UInt8.not_le.mp fun hhigh => h c hc ⟨hsigned, hhigh⟩
    · exact absurd hnegative.2 (UInt8.not_le.mpr (h hnegative.1 c hc))
  refine ⟨encodeText arch field raw, fun buf hroom => ?_, ?_⟩
  · have hprinted := @uriEncode_printed arch field buf raw []
    rw [nil_append, printed_of_lt buf hroom, uriEncode, set_printed, printed_nil,
      length_nil, Nat.cast_zero] at hprinted
    exact hprinted
  · have hdecode : uriDecodeBytes arch (encodeText arch field raw) =
        raw.flatMap (readBack arch) := by
      have h := @uriDecodeBytes_encodeText arch field hfield raw []
      rwa [append_nil, uriDecodeBytes, append_nil] at h
    rw [← hplain, uriDecode, hdecode]
    constructor
    · rintro ⟨hread, -⟩
      have hlen := congrArg Prod.fst hread
      have hbytes := congrArg Prod.snd hread
      rw [take_of_length_le hlen.le] at hbytes
      exact flatMap_readBack_eq_iff.mp hbytes
    · intro h
      rw [flatMap_readBack h, take_length]
      exact ⟨rfl, escapedAs_encodeText hfield h⟩

/-- A user name with a colon, where `char` has a sign. -/
theorem uri_encode_decode_user :
    ∃ text, (∀ buf : Bytes, text.length < buf.length →
        uriEncode .x64 .user [0x61, 0x3a] buf 0 buf.length =
          (text ++ 0 :: buf.drop (text.length + 1), text.length)) ∧
      uriDecode .x64 text 2 = (2, [0x61, 0x3a]) ∧ EscapedAs .user [0x61, 0x3a] text := by
  obtain ⟨text, htext, hiff⟩ := uri_encode_decode .x64 .user rfl [0x61, 0x3a]
  exact ⟨text, htext, hiff.mpr fun _ => by decide +kernel⟩

/-- **The byte 0x80 is encoded as `%FFFFFF80`**, which is seven bytes. -/
theorem uri_encode_negative :
    uriEncode .x64 .user [0x80] (List.replicate 10 0x2e) 0 10 =
      ([0x25, 0x46, 0x46, 0x46, 0x46, 0x46, 0x46, 0x38, 0x30, 0], 9) ∧
    uriDecode .x64 [0x25, 0x46, 0x46, 0x46, 0x46, 0x46, 0x46, 0x38, 0x30] 9 =
      (7, [0xff, 0x46, 0x46, 0x46, 0x46, 0x38, 0x30]) := by
  decide +kernel

end Ipxe.Analysis
