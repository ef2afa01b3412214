import Ipxe.Library.Numerals
import Ipxe.Model.Vsprintf

/-!
# The text of a number

What the C standard prints for an integer: a sign if it is negative, all its digits, and padding on
the left up to the field width, with spaces before the sign or with zeros after it.
-/

namespace Ipxe.Interface

open Library Model

def digitChar (upper : Bool) (digit : ℕ) : UInt8 :=
  if digit < 10 then UInt8.ofNat (0x30 + digit)
  else UInt8.ofNat ((if upper then 0x37 else 0x57) + digit)

def digitsText (base : ℕ) (upper : Bool) (number : ℕ) : Bytes :=
  (numeral base number).map (digitChar upper)

variable (zero : Bool) (width : ℕ)

/-- A sign and digits, padded on the left to at least the width. -/
def paddedText (sign digits : Bytes) : Bytes :=
  if zero then sign ++ (List.replicate (width - (sign ++ digits).length) 0x30 ++ digits)
  else List.replicate (width - (sign ++ digits).length) 0x20 ++ (sign ++ digits)

def signedText (value : ℤ) : Bytes :=
  paddedText zero width (if value < 0 then [0x2d] else []) (digitsText 10 false value.natAbs)

def unsignedText (value : ℕ) : Bytes :=
  paddedText zero width [] (digitsText 10 false value)

def hexText (upper zero : Bool) (width : ℕ) (value : ℕ) : Bytes :=
  paddedText zero width [] (digitsText 16 upper value)

/-- The length modifiers. -/
inductive LengthModifier where
  | hh
  | h
  | int
  | l
  | ll
  | z
  deriving DecidableEq

def LengthModifier.text : LengthModifier → Bytes
  | .hh => ascii "hh"
  | .h => ascii "h"
  | .int => []
  | .l => ascii "l"
  | .ll => ascii "ll"
  | .z => ascii "z"

/-- The bits of the type that a modifier stands for. -/
def LengthModifier.bits (arch : Platform) : LengthModifier → ℕ
  | .hh => 8
  | .h => 16
  | .int => 32
  | .l => arch.sizeBits
  | .ll => 64
  | .z => arch.sizeBits

/-- The directive with a zero flag or without, a field width if it is not zero, a length modifier
and a conversion. -/
def directive (modifier : LengthModifier) (conversion : UInt8) : Bytes :=
  [0x25] ++ (if zero then [0x30] else []) ++
    (if width = 0 then [] else digitsText 10 false width) ++ modifier.text ++ [conversion]

/-- An argument of a type with so many bits, as the caller passes it: types shorter than an `int` are
promoted to it, and what a slot cannot hold goes to a second slot. -/
def passed (arch : Platform) (bits : ℕ) (value : ℤ) : List ℕ :=
  let number := (value % 2 ^ max bits 32).toNat
  if max bits 32 ≤ arch.sizeBits then [number]
  else [number % 2 ^ arch.sizeBits, number / 2 ^ arch.sizeBits]

/-- Whatever the buffer, the formatted string is the text, cut off where the buffer ends. -/
def Prints (env : PrintfEnv) (fmt : Bytes) (args : List ℕ) (text : Bytes) : Prop :=
  ∀ buf : Bytes, ∃ buffer, vsnprintf env buf fmt args = some (text.length, buffer) ∧
    storedString buffer = text.take (buf.length - 1)

example : signedText true 6 (-123) = ascii "-00123" := by decide +kernel

example : directive true 12 .ll 0x64 = ascii "%012lld" := by decide +kernel

end Ipxe.Interface
