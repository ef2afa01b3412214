import Ipxe.Model.Uri

/-!
# URI text

What the text of an encoded field is, and what a buffer gets of a text.
-/

namespace Ipxe.Interface

open Model

def IsUpperHexDigit (c : UInt8) : Prop := 0x30 ≤ c ∧ c ≤ 0x39 ∨ 0x41 ≤ c ∧ c ≤ 0x46

instance (c : UInt8) : Decidable (IsUpperHexDigit c) := inferInstanceAs (Decidable (_ ∨ _))

/-- A text with one character for each byte, printable and not one that the field escapes, or
with `%` and two hexadecimal digits for it. -/
inductive EscapedAs (field : UriField) : Bytes → Bytes → Prop
  | nil : EscapedAs field [] []
  | plain {c : UInt8} {raw text : Bytes} :
      isprint c → c ≠ 0x20 → c ≠ 0x25 → c ∉ field.escaped →
      EscapedAs field raw text → EscapedAs field (c :: raw) (c :: text)
  | escape {c high low : UInt8} {raw text : Bytes} :
      IsUpperHexDigit high → IsUpperHexDigit low →
      EscapedAs field raw text → EscapedAs field (c :: raw) (0x25 :: high :: low :: text)

/-- What a buffer is left with when a text is printed to it: as much of the text as fits, and a
zero byte behind it. -/
def printed (buf text : Bytes) : Bytes :=
  if buf.length = 0 then buf
  else text.take (buf.length - 1) ++ 0 :: buf.drop (min text.length (buf.length - 1) + 1)

end Ipxe.Interface
