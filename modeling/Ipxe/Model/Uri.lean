import Ipxe.Model.Encodings

/-!
# URIs

`core/uri.c`.  The fields of a URI are C strings, or absent; the encoded path, query and fragment
are kept as they stand in the string.  A string is the list of its bytes, without the byte that ends
it.  A buffer has a position and what is left of its size, which is negative once more has been
formatted than there is room for; buffers are below 2 GiB.

Left out: reference counts, allocation failures, debugging output, and the parameter list that
a `##params` fragment names.
-/

namespace Ipxe.Model

/-! ## Decoding
[53-97] -/

/-- The bytes that an encoded string is decoded to. -/
def uriDecodeBytes (arch : Platform) (encoded : Bytes) : Bytes :=
  match encoded with
  | [] => []
  | c :: encoded =>
    if c = 0x25 then
      let hexbuf := encoded.take 2
      let number := strtoul arch.sizeBits hexbuf 16
      let skip := hexbuf.length - number.2.length
      (if skip ≠ 0 then UInt8.ofNat number.1 else c) ::
        uriDecodeBytes arch (encoded.drop skip)
    else c :: uriDecodeBytes arch encoded
termination_by encoded.length
decreasing_by
  · simp only [List.length_drop, List.length_cons]
    omega
  · simp

variable (arch : Platform)

/-- Decode URI field: the length of the data, and what a buffer of `len` bytes gets of it. -/
def uriDecode (encoded : Bytes) (len : ℕ) : ℕ × Bytes :=
  ((uriDecodeBytes arch encoded).length, (uriDecodeBytes arch encoded).take len)

/-! ## Fields -/

inductive UriField where
  | scheme
  | opaquePart
  | user
  | password
  | host
  | port
  | path
  | epath
  | equery
  | efragment
  deriving DecidableEq

/-- Whether a field is `URI_EPATH` or one behind it, which hold encoded text. -/
def UriField.isEncoded : UriField → Bool
  | .epath | .equery | .efragment => true
  | _ => false

def UriField.escaped : UriField → Bytes
  -- "/#:@?=&"
  | .scheme => [0x2f, 0x23, 0x3a, 0x40, 0x3f, 0x3d, 0x26]
  -- "#"
  | .opaquePart => [0x23]
  -- "/#:@?"
  | .user => [0x2f, 0x23, 0x3a, 0x40, 0x3f]
  | .password => [0x2f, 0x23, 0x3a, 0x40, 0x3f]
  -- "/#@?"
  | .host => [0x2f, 0x23, 0x40, 0x3f]
  -- "/#:@?"
  | .port => [0x2f, 0x23, 0x3a, 0x40, 0x3f]
  -- "#:@?"
  | .path => [0x23, 0x3a, 0x40, 0x3f]
  | .epath | .equery | .efragment => []

/-! ## Encoding
[core/uri.c:106-224, core/vsprintf.c:84-108, include/ctype.h:86-89] -/

def isprint (character : UInt8) : Bool := 0x20 ≤ character ∧ character ≤ 0x7e

/-- Check if character should be escaped within a URI field. -/
def uriCharacterEscaped (c : UInt8) (field : UriField) : Bool :=
  -- always escape non-printing characters and whitespace
  if !isprint c ∨ c = 0x20 then true
  -- escape nothing else in already-escaped fields
  else if field.isEncoded then false
  -- escape '%' and any field-specific characters
  else c = 0x25 ∨ c ∈ field.escaped

def upperHexDigit (value : ℕ) : UInt8 :=
  if value < 10 then UInt8.ofNat (0x30 + value) else UInt8.ofNat (0x37 + value)

/-- The digits of a number, the last of them first; a number has at most sixteen. -/
def formatHexDigits : ℕ → ℕ → Bytes → Bytes
  | 0, _, ptr => ptr
  | more + 1, num, ptr =>
    let ptr := upperHexDigit (num % 16) :: ptr
    if num / 16 = 0 then ptr else formatHexDigits more (num / 16) ptr

/-- Format a hexadecimal number, zero-padded to the specified width. -/
def formatHex (num width : ℕ) : Bytes :=
  let digits := formatHexDigits 16 num []
  List.replicate (width - digits.length) 0x30 ++ digits

/-- What is formatted for a character: `%%%02X` if it is escaped, and `%c` if not. -/
def uriEncodeChar (field : UriField) (c : UInt8) : Bytes :=
  if uriCharacterEscaped c field then 0x25 :: formatHex (arch.charToUnsigned c) 2 else [c]

/-- What `ssnprintf` leaves in a buffer: as much of the text as fits, and a zero byte behind it.
[core/vsprintf.c:354-427] -/
def ssnprintf (buf : Bytes) (pos : ℕ) (ssize : ℤ) (text : Bytes) : Bytes :=
  let size := ssize.toNat
  if size = 0 then buf
  else
    let written := text.take (size - 1) ++ [0]
    buf.take pos ++ (written ++ buf.drop (pos + written.length))

/-- Copy string, escaping as necessary: the buffer, and what remains of its size. -/
def uriEncodeLoop (arch : Platform) (field : UriField) :
    Bytes → (buf : Bytes) → (pos : ℕ) → (remaining : ℤ) → Bytes × ℤ
  | [], buf, _, remaining => (buf, remaining)
  | c :: raw, buf, pos, remaining =>
    let text := uriEncodeChar arch field c
    uriEncodeLoop arch field raw (ssnprintf buf pos remaining text) (pos + text.length)
      (remaining - text.length)

/-- Encode URI field, from a position in a buffer on: the buffer, and the length of the encoded
string. -/
def uriEncode (field : UriField) (raw buf : Bytes) (pos : ℕ) (len : ℤ) : Bytes × ℕ :=
  let encoded := uriEncodeLoop arch field raw (if 0 < len then buf.set pos 0 else buf) pos len
  (encoded.1, (len - encoded.2).toNat)

end Ipxe.Model
