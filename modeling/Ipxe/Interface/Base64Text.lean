import Ipxe.Model.Encodings

/-!
# Base64 text

What a string of Base64 says: its digits are numbers below 64, four of them stand for three bytes,
and a shorter last group is filled up with padding.  The text of some data has the digits with no
bits to spare.
-/

namespace Ipxe.Interface

open Model

def base64Char (value : ℕ) : UInt8 := base64.getD value 0

/-- The numbers of the digits, three bytes at a time. -/
def base64Values : Bytes → List ℕ
  | a :: b :: c :: raw =>
    a.toNat / 4 :: (a.toNat % 4 * 16 + b.toNat / 16) :: (b.toNat % 16 * 4 + c.toNat / 64) ::
      c.toNat % 64 :: base64Values raw
  | [a, b] => [a.toNat / 4, a.toNat % 4 * 16 + b.toNat / 16, b.toNat % 16 * 4]
  | [a] => [a.toNat / 4, a.toNat % 4 * 16]
  | [] => []

/-- How many padding characters follow the digits of so many bytes. -/
def base64Padding (length : ℕ) : ℕ := (3 - length % 3) % 3

def base64Text (raw : Bytes) : Bytes :=
  (base64Values raw).map base64Char ++ List.replicate (base64Padding raw.length) 0x3d

/-- The bytes that the numbers stand for; bits that do not fill a byte are dropped. -/
def base64Data : List ℕ → Bytes
  | w :: x :: y :: z :: values =>
    UInt8.ofNat (w * 4 + x / 16) :: UInt8.ofNat (x * 16 + y / 4) :: UInt8.ofNat (y * 64 + z) ::
      base64Data values
  | [w, x, y] => [UInt8.ofNat (w * 4 + x / 16), UInt8.ofNat (x * 16 + y / 4)]
  | [w, x] => [UInt8.ofNat (w * 4 + x / 16)]
  | _ => []

/-- A sequence of Base64 digits with correct trailing padding. -/
structure IsBase64 (text : Bytes) (values : List ℕ) (padding : ℕ) : Prop where
  text_eq : text = values.map base64Char ++ List.replicate padding 0x3d
  digits : ∀ value ∈ values, value < 64
  padding_lt : padding < 3
  whole : (values.length + padding) % 4 = 0

def withoutSpaces (encoded : Bytes) : Bytes := encoded.filter fun char => !isspace char

example : base64Text [0x00, 0x9f] = ascii "AJ8=" := by decide

example : base64Data [0, 9, 62, 37] = [0x00, 0x9f, 0xa5] := by decide

end Ipxe.Interface
