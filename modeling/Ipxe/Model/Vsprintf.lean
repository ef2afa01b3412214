import Ipxe.Library.TextBuffers
import Ipxe.Model.Encodings

/-!
# Formatted output

`core/vsprintf.c` with the unsigned decimal format of `core/vtoy.c`.  The 32-byte buffer of a number
is the text written so far.  There is no result where the source leaves its buffers: a number does
not fit, a length modifier leaves the table, or a format ends inside a directive.
-/

namespace Ipxe.Model

open Library

/-- What the arguments of a call are read from: the build decides the size of a slot, and pointers
lead to strings. -/
structure PrintfEnv where
  arch : Platform
  /-- the string at an address -/
  string : ℕ → Bytes
  /-- the string of wide characters at an address -/
  wideString : ℕ → List ℕ

variable (arch : Platform)

/-- `va_arg` of a type with so many bits: an argument takes one slot of the size of a `long`, or two
if it is longer, the low half first. -/
def vaArg (bits : ℕ) : List ℕ → Option (ℕ × List ℕ)
  | slot :: args =>
    if bits ≤ arch.sizeBits then some (slot % 2 ^ bits, args)
    else
      match args with
      | high :: args =>
        some ((slot % 2 ^ arch.sizeBits + 2 ^ arch.sizeBits * high) % 2 ^ bits, args)
      | [] => none
  | [] => none

/-- The number of a signed type with so many bits. -/
def signedOf (bits value : ℕ) : ℤ := (value : ℤ).bmod (2 ^ bits)

/-! ## Numbers -/

def LCASE : UInt8 := 0x20
def ALTFORM : UInt8 := 0x02
def ZPAD : UInt8 := 0x10

/-- `pad`: the zero or the space that a number is filled up with. -/
def padCharacter (flags : UInt8) : UInt8 := flags &&& ZPAD ||| 0x20

/-- `while ( ( end - ptr ) < width ) *(--ptr) = pad;` -/
def padToWidth (width : ℕ) (pad : UInt8) (text : Bytes) : Bytes :=
  List.replicate (width - text.length) pad ++ text

/-- The loop over the digits of a hexadecimal number. -/
def hexLoop (caseMod : UInt8) (num : ℕ) (text : Bytes) : Bytes :=
  let text := ((ascii "0123456789ABCDEF").getD (num % 16) 0 ||| caseMod) :: text
  if h : num / 16 = 0 then text else hexLoop caseMod (num / 16) text
termination_by num
decreasing_by exact Nat.div_lt_self (by omega) (by decide)

/-- Format a hexadecimal number.
[94-117] -/
def Vsprintf.formatHex (num width : ℕ) (flags : UInt8) : Bytes :=
  let caseMod := flags &&& LCASE
  let text := padToWidth width (padCharacter flags) (hexLoop caseMod num [])
  if flags &&& ALTFORM ≠ 0 then 0x30 :: (0x58 ||| caseMod) :: text else text

/-- The loop over the digits of a decimal number, with the division of signed numbers in C. -/
def decimalLoop (num : ℤ) (text : Bytes) : Bytes :=
  let text := UInt8.ofInt (0x30 + num.tmod 10) :: text
  if _h : num.tdiv 10 = 0 then text else decimalLoop (num.tdiv 10) text
termination_by num.natAbs
decreasing_by
  rw [Int.natAbs_tdiv]
  refine Nat.div_lt_self (Int.natAbs_pos.2 ?_) (by decide)
  rintro rfl
  exact _h (Int.zero_tdiv 10)

/-- Format a decimal number, a `signed long`; its negation goes round like that of the machine.
[134-164] -/
def formatDecimal (num : ℤ) (width : ℕ) (flags : UInt8) : Bytes :=
  let negative := num < 0
  let zpad := flags &&& ZPAD ≠ 0
  let num := if negative then (-num).bmod (2 ^ arch.sizeBits) else num
  let text := decimalLoop num []
  let text := if negative ∧ ¬zpad then 0x2d :: text else text
  let text := padToWidth width (padCharacter flags) text
  -- the sign is written over the first character
  if negative ∧ zpad then 0x2d :: text.tail else text

/-- The loop over the digits of an unsigned decimal number. -/
def unsignedDecimalLoop (num : ℕ) (text : Bytes) : Bytes :=
  let text := UInt8.ofNat (0x30 + num % 10) :: text
  if h : num / 10 = 0 then text else unsignedDecimalLoop (num / 10) text
termination_by num
decreasing_by exact Nat.div_lt_self (by omega) (by decide)

/-- See core/vtoy.c:83-99 -/
def vtoyFormatUnsignedDecimal (num width : ℕ) (flags : UInt8) : Bytes :=
  padToWidth width (padCharacter flags) (unsignedDecimalLoop num [])

/-- A text in `tmp_buf`, which has room for 31 characters and the terminator. -/
def inTmpBuf (text : Bytes) : Option Bytes := if text.length ≤ 31 then some text else none

/-! ## Directives -/

/-- Process flag characters.
[207-216] -/
def printfFlags (flags : UInt8) : Bytes → UInt8 × Bytes
  | [] => (flags, [])
  | char :: fmt =>
    if char = 0x23 then printfFlags (flags ||| ALTFORM) fmt
    else if char = 0x30 then printfFlags (flags ||| ZPAD) fmt
    else (flags, char :: fmt)

/-- Process field width.
[218-225] -/
def printfWidth (width : ℕ) : Bytes → ℕ × Bytes
  | [] => (width, [])
  | char :: fmt =>
    if isdigit char then printfWidth (width * 10 + (char.toNat - 0x30)) fmt
    else (width, char :: fmt)

def LONGLEN : ℤ := 3

/-- Process length modifier; a length is the index of an entry of the table of sizes.
[228-238] -/
def printfLength (length : ℤ) : Bytes → ℤ × Bytes
  | [] => (length, [])
  | char :: fmt =>
    if char = 0x68 then printfLength (length - 1) fmt
    else if char = 0x6c then printfLength (length + 1) fmt
    else if char = 0x7a then printfLength 5 fmt
    else (length, char :: fmt)

/-- `type_sizes`
[43-50] -/
def typeSizes : List ℕ := [1, 2, 4, arch.sizeBits / 8, 8, arch.sizeBits / 8]

def typeSize (length : ℤ) : Option ℕ :=
  if length < 0 then none else (typeSizes arch)[length.toNat]?

/-- The bits of the unsigned type that an argument of such a size is read as.
[282-288, 302-308] -/
def unsignedArgBits (size : ℕ) : ℕ :=
  if 8 ≤ size then 64 else if arch.sizeBits / 8 ≤ size then arch.sizeBits else 32

variable (env : PrintfEnv)

/-- Process conversion specifier: what is put out, and the arguments that are left.
[239-320] -/
def printfConversion (flags : UInt8) (width : ℕ) (length : ℤ) (char : UInt8)
    (args : List ℕ) : Option (Bytes × List ℕ) := do
  let pointerBits := env.arch.sizeBits
  if char = 0x63 then
    let (value, args) ← vaArg env.arch 32 args
    if length < LONGLEN then some ([UInt8.ofNat value], args)
    else some ([UInt8.ofNat value].takeWhile (· ≠ 0), args)
  else if char = 0x73 then
    let (ptr, args) ← vaArg env.arch pointerBits args
    if ptr = 0 then some (ascii "<NULL>", args)
    else if length < LONGLEN then some ((env.string ptr).takeWhile (· ≠ 0), args)
    else some (((env.wideString ptr).takeWhile (· ≠ 0)).map UInt8.ofNat, args)
  else if char = 0x70 then
    let (ptr, args) ← vaArg env.arch pointerBits args
    let text ← inTmpBuf (Vsprintf.formatHex (signedOf pointerBits ptr % 2 ^ 64).toNat width
      (ALTFORM ||| LCASE))
    some (text.takeWhile (· ≠ 0), args)
  else if char &&& ~~~0x20 = 0x58 then
    let size ← typeSize env.arch length
    let (hex, args) ← vaArg env.arch (unsignedArgBits env.arch size) args
    let text ← inTmpBuf (Vsprintf.formatHex hex width (flags ||| char &&& 0x20))
    some (text.takeWhile (· ≠ 0), args)
  else if char = 0x64 ∨ char = 0x69 then
    let size ← typeSize env.arch length
    let bits := if env.arch.sizeBits / 8 ≤ size then env.arch.sizeBits else 32
    let (decimal, args) ← vaArg env.arch bits args
    let text ← inTmpBuf (formatDecimal env.arch (signedOf bits decimal) width flags)
    some (text.takeWhile (· ≠ 0), args)
  else if char = 0x75 ∨ char = 0x55 then
    let size ← typeSize env.arch length
    let (decimal, args) ← vaArg env.arch (unsignedArgBits env.arch size) args
    let text ← inTmpBuf (vtoyFormatUnsignedDecimal decimal width flags)
    some (text.takeWhile (· ≠ 0), args)
  else some ([char], args)

/-- The loop over the format string, each turn of which takes at least one of its characters: what
is put out. -/
def vcprintfLoop (env : PrintfEnv) : ℕ → Bytes → List ℕ → Option Bytes
  | _, [], _ => some []
  | 0, _ :: _, _ => none
  | turns + 1, char :: fmt, args =>
    if char ≠ 0x25 then do
      let text ← vcprintfLoop env turns fmt args
      some (char :: text)
    else
      let (flags, fmt) := printfFlags 0 fmt
      let (width, fmt) := printfWidth 0 fmt
      let (length, fmt) := printfLength 2 fmt
      match fmt with
      | [] => none
      | char :: fmt => do
        let (text, args) ← printfConversion env flags width length char args
        let more ← vcprintfLoop env turns fmt args
        some (text ++ more)

/-- Write a formatted string to a printf context.
[189-325] -/
def vcprintf (fmt : Bytes) (args : List ℕ) : Option Bytes :=
  vcprintfLoop env fmt.length fmt args

/-- Write a formatted string to a buffer: the length of the formatted string, and the buffer.
[342-386] -/
def vsnprintf (buf : Bytes) (fmt : Bytes) (args : List ℕ) :
    Option (ℕ × Bytes) := do
  let text ← vcprintf env fmt args
  -- every character is written where there is room for it
  let written := setFrom buf 0 text
  -- add trailing NUL
  some (text.length, written.set (min (buf.length - 1) text.length) 0)

end Ipxe.Model
