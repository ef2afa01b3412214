import Ipxe.Model.Platform
import Ipxe.Model.Strings

/-!
# Text encodings

`core/base64.c`.  Base16 and Base64, and the bytes of text constants and of numbers.  A decoder is
given a buffer that is as long as its input, which is never too short.
-/

namespace Ipxe.Model

/-- The bytes of a text constant. -/
def ascii (text : String) : Bytes := text.toList.map fun char => UInt8.ofNat char.toNat

def decimal (number : ℕ) : Bytes := (Nat.toDigits 10 number).map fun char => UInt8.ofNat char.toNat

def isupper (character : UInt8) : Bool := 0x41 ≤ character ∧ character ≤ 0x5a

/-- See include/ctype.h:97-101 -/
def tolower (character : UInt8) : UInt8 := if isupper character then character + 0x20 else character

def hexDigit (value : UInt8) : UInt8 := if value < 10 then 0x30 + value else 0x57 + value

/-- `base16_encode`.
[core/base16.c:51-67, include/ipxe/base16.h:24-46] -/
def base16Encode (raw : Bytes) : Bytes :=
  raw.flatMap fun (byte : UInt8) => [hexDigit (byte >>> 4), hexDigit (byte &&& 0x0f)]

/-- `base16_decode`.  A digit that is missing is read as NUL, which is no digit.
[core/base16.c:78-112] -/
def base16Decode : Bytes → Except Errno Bytes
  | [] => .ok []
  | [_] => .error .einval
  | sixteens :: units :: encoded =>
    if digitValue sixteens ≥ 16 then .error .einval
    else if digitValue units ≥ 16 then .error .einval
    else do
      let raw ← base16Decode encoded
      .ok (UInt8.ofNat (digitValue sixteens * 16 + digitValue units) :: raw)

example : base16Decode (base16Encode [0x00, 0x9f, 0xa5]) = .ok [0x00, 0x9f, 0xa5] := by decide

/-! ## Base64 -/

def base64 : Bytes := ascii "ABCDEFGHIJKLMNOPQRSTUVWXYZabcdefghijklmnopqrstuvwxyz0123456789+/"

/-- `out[offset] |= bits`, if there is such a byte. -/
def orByte (out : Bytes) (offset bits : ℕ) : Bytes := out.modify offset (· ||| UInt8.ofNat bits)

/-- The loop over the characters; `bit` is an `unsigned int`. -/
def base64DecodeLoop (out : Bytes) (bit padCount : ℕ) : Bytes → Except Errno (Bytes × ℕ)
  | [] => .ok (out, bit)
  | inChar :: encoded =>
    if isspace inChar then base64DecodeLoop out bit padCount encoded
    else if inChar = 0x3d then
      if padCount ≥ 2 then .error .einval
      else base64DecodeLoop out ((bit + 2 ^ 32 - 2) % 2 ^ 32) (padCount + 1) encoded
    else if padCount ≠ 0 then .error .einval
    else
      match base64.idxOf? inChar with
      | none => .error .einval
      | some value =>
        let inBits := value <<< 2
        let out := orByte out (bit / 8) (inBits >>> (bit % 8))
        let out := orByte out (bit / 8 + 1) (inBits <<< (8 - bit % 8))
        base64DecodeLoop out ((bit + 6) % 2 ^ 32) padCount encoded

/-- Base64-decode string, to a buffer of some length: the length of the data, and the buffer.
[91-157] -/
def base64Decode (encoded : Bytes) (len : ℕ) : Except Errno (ℕ × Bytes) := do
  let (out, bit) ← base64DecodeLoop (List.replicate len 0) 0 0 encoded
  -- check that we decoded a whole number of bytes
  if bit % 8 ≠ 0 then .error .einval
  else .ok (bit / 8, out)

example : base64Decode (ascii "AJ8=") 3 = .ok (2, [0x00, 0x9f, 0]) := by decide

/-- The six bits from bit number `bit` on, as the first loop of `base64_encode` puts them together. -/
def base64EncodeBits (raw : Bytes) (bit : ℕ) : ℕ :=
  let byte := bit / 8
  let shift := bit % 8
  let tmp := (raw.getD byte 0).toNat <<< shift
  let tmp := if byte + 1 < raw.length then tmp ||| (raw.getD (byte + 1) 0).toNat >>> (8 - shift)
    else tmp
  tmp >>> 2 &&& 0x3f

/-- The loop over the bits, for at most so many turns; `bit` is an `unsigned int`, and what does not
fit the buffer is not written. -/
def base64EncodeDigits (raw : Bytes) (rawBitLen : ℕ) :
    (turns bit used : ℕ) → (data : Bytes) → Option (ℕ × ℕ × Bytes)
  | 0, _, _, _ => none
  | turns + 1, bit, used, data =>
    if bit < rawBitLen then
      base64EncodeDigits raw rawBitLen turns ((bit + 6) % 2 ^ 32) (used + 1)
        (data.set used (base64.getD (base64EncodeBits raw bit) 0))
    else some (bit, used, data)

/-- The loop that pads to a whole number of bytes, for at most so many turns. -/
def base64EncodePads : (turns bit used : ℕ) → (data : Bytes) → Option (ℕ × Bytes)
  | 0, _, _, _ => none
  | turns + 1, bit, used, data =>
    if bit % 8 ≠ 0 then
      base64EncodePads turns ((bit + 6) % 2 ^ 32) (used + 1) (data.set used 0x3d)
    else some (used, data)

/-- Base64-encode data, to a buffer: the encoded length, and the buffer.  There is none as long as
the given turns are not enough for a loop.
[51-81] -/
def base64Encode (arch : Platform) (turns : ℕ) (raw data : Bytes) : Option (ℕ × Bytes) := do
  let rawBitLen := 8 * raw.length % 2 ^ arch.sizeBits
  let (bit, used, data) ← base64EncodeDigits raw rawBitLen turns 0 0 data
  let (used, data) ← base64EncodePads turns bit used data
  let data := data.set used 0
  -- ensure terminator exists
  some (used, data.set (data.length - 1) 0)

example : base64Encode .x64 8 [0x00, 0x9f] (List.replicate 6 0xff) =
    some (4, ascii "AJ8=" ++ [0, 0]) := by decide

end Ipxe.Model
