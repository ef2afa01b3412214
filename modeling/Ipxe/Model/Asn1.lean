import Ipxe.Model.Crypto
import Ipxe.Model.Strings
import Ipxe.Model.Time

/-!
# ASN.1 encoding

`crypto/asn1.c`.  A cursor is the list of the bytes it covers: no modelled function looks outside
them.  Functions that move a cursor return their status together with the cursor they leave behind,
since most callers ignore the status and go on with the cursor.
-/

namespace Ipxe.Model

/-! ## Cursors -/

abbrev Asn1Cursor := Bytes

/-- An expected type; `none` is `ASN1_ANY`. -/
abbrev Asn1Type := Option UInt8

def asn1Any : Asn1Type := none
def asn1TagBoolean : UInt8 := 0x01
def asn1TagInteger : UInt8 := 0x02
def asn1TagBitString : UInt8 := 0x03
def asn1TagOctetString : UInt8 := 0x04
def asn1TagNull : UInt8 := 0x05
def asn1TagOid : UInt8 := 0x06
def asn1TagEnumerated : UInt8 := 0x0a
def asn1TagUtcTime : UInt8 := 0x17
def asn1TagGeneralizedTime : UInt8 := 0x18
def asn1TagSequence : UInt8 := 0x30
def asn1TagSet : UInt8 := 0x31
def asn1TagImplicit (number : UInt8) : UInt8 := 0x80 ||| number
def asn1TagExplicit (number : UInt8) : UInt8 := 0xa0 ||| number

variable (cursor : Asn1Cursor)

/-- The type byte, or `ASN1_END` for an empty cursor.
[include/ipxe/asn1.h:407-412] -/
def asn1Type : UInt8 := cursor.headD 0

/-- The number of bytes that carry the length, and the cursor at the first of them. -/
def asn1LenLen : Asn1Cursor → ℕ × Asn1Cursor
  | first :: rest =>
    if first &&& 0x80 ≠ 0 then ((first &&& 0x7f).toNat, rest) else (1, first :: rest)
  | [] => (1, [])

/-- The loop that extracts the length, in an `unsigned int`. -/
def asn1Len (octets : Bytes) : ℕ :=
  octets.foldl (fun len octet => (len * 256 + octet.toNat) % 2 ^ 32) 0

variable (type : Asn1Type)

/-- Start parsing ASN.1 object.  A length that does not fit an `int` is returned as
a negative one, which callers take for an error.
[98-143] -/
def asn1Start (extra : ℕ) : Except Errno ℕ × Asn1Cursor :=
  if cursor.length < 2 then (.error .einvalAsn1Empty, cursor)
  else if type ≠ asn1Any ∧ type ≠ some (asn1Type cursor) then (.error .enxio, cursor)
  else
    let lenLen := (asn1LenLen cursor.tail).1
    let field := (asn1LenLen cursor.tail).2
    if field.length < lenLen then (.error .einvalAsn1LenLen, field)
    else
      let len := asn1Len (field.take lenLen)
      let body := field.drop lenLen
      if body.length + extra < len then (.error .einvalAsn1Len, body)
      else if len < 2 ^ 31 then (.ok len, body)
      else (.error (.raw (len - 2 ^ 32)), body)

/-- Enter ASN.1 object.
[156-170] -/
def asn1Enter : Except Errno Unit × Asn1Cursor :=
  match asn1Start cursor type 0 with
  | (.error rc, _) => (.error rc, [])
  | (.ok len, body) => (.ok (), body.take len)

/-- Skip ASN.1 object if present.
[183-201] -/
def asn1SkipIfExists : Except Errno Unit × Asn1Cursor :=
  match asn1Start cursor type 0 with
  | (.error rc, body) => (.error rc, body)
  | (.ok len, body) =>
    if body.drop len = [] then (.error .enoent, []) else (.ok (), body.drop len)

/-- Skip ASN.1 object.
[214-223] -/
def asn1Skip : Except Errno Unit × Asn1Cursor :=
  match asn1SkipIfExists cursor type with
  | (.error rc, _) => (.error rc, [])
  | (.ok (), next) => (.ok (), next)

/-- Shrink ASN.1 cursor to fit object.
[236-255] -/
def asn1Shrink : Except Errno Unit × Asn1Cursor :=
  match asn1Start cursor type 0 with
  | (.error rc, _) => (.error rc, [])
  | (.ok len, body) => (.ok (), cursor.take (cursor.length - body.length + len))

def asn1EnterAny : Except Errno Unit × Asn1Cursor := asn1Enter cursor asn1Any

def asn1SkipAny : Except Errno Unit × Asn1Cursor := asn1Skip cursor asn1Any

def asn1ShrinkAny : Except Errno Unit × Asn1Cursor :=
  asn1Shrink cursor asn1Any

/-- Compare two ASN.1 objects: whether the difference is zero.
[443-450] -/
def asn1Compare (cursor1 cursor2 : Asn1Cursor) : Bool := cursor1 = cursor2

/-- The values that the cursor of a loop
`for ( ; cursor.len ; asn1_skip_any ( &cursor ) )` goes through, for at most so many
turns. -/
def asn1WalkUpTo : ℕ → Asn1Cursor → List Asn1Cursor
  | 0, _ => []
  | turns + 1, cursor =>
    if cursor = [] then [] else cursor :: asn1WalkUpTo turns (asn1SkipAny cursor).2

/-- The values that the cursor of such a loop goes through: every turn takes at least
one byte away (`asn1Walk_cons`). -/
def asn1Walk : List Asn1Cursor := asn1WalkUpTo cursor.length cursor

/-- Parse value of ASN.1 boolean.
[292-307] -/
def asn1Boolean : Except Errno UInt8 :=
  match (asn1Enter cursor asn1TagBoolean).2 with
  | [value] => .ok value
  | _ => .error .einvalAsn1Boolean

/-- The loop over the content bytes of an integer, in a 32-bit `int`. -/
def asn1IntegerLoop : BitVec 32 → Bytes → Except Errno ℤ
  | value, [] => .ok value.toInt
  | value, byte :: contents =>
    let highByte := value >>> 24
    if highByte = 0x00 ∨ highByte = 0xff then
      asn1IntegerLoop (value <<< 8 ||| byte.toBitVec.setWidth 32) contents
    else .error .einvalAsn1Integer

/-- Parse value of ASN.1 integer.
[316-347] -/
def asn1Integer : Except Errno ℤ :=
  match asn1Enter cursor asn1TagInteger with
  | (.error rc, _) => .error rc
  | (.ok (), []) => .error .einvalAsn1Integer
  | (.ok (), first :: contents) =>
    asn1IntegerLoop (first.toBitVec.signExtend 32) contents

/-- An ASN.1 bit string.
[include/ipxe/asn1.h:369-376] -/
structure Asn1BitString where
  data : Bytes
  unused : ℕ
  deriving DecidableEq, Repr

/-- Parse ASN.1 bit string.  In a string without data the byte before it, the number
of unused bits, is taken for the last one; that number is zero there.
[356-401] -/
def asn1BitString : Except Errno Asn1BitString :=
  match asn1Enter cursor asn1TagBitString with
  | (.error rc, _) => .error rc
  | (.ok (), []) => .error .einvalBitString
  | (.ok (), unused :: data) =>
    let unusedMask : ℕ := 0xff >>> (8 - unused.toNat)
    let last := (unused :: data).getLastD 0
    if unused.toNat ≥ 8 ∨ (unused.toNat > 0 ∧ data = []) ∨ last.toNat &&& unusedMask ≠ 0 then
      .error .einvalBitString
    else .ok ⟨data, unused.toNat⟩

/-- Parse ASN.1 bit string that must be an integral number of bytes.
[410-431] -/
def asn1IntegralBitString : Except Errno Asn1BitString := do
  let bits ← asn1BitString cursor
  if bits.unused ≠ 0 then .error .einvalBitString
  else .ok bits

/-! ## Algorithms -/

/-- An OID-identified algorithm.
[include/ipxe/asn1.h:336-346] -/
structure Asn1Algorithm where
  name : String
  oid : Bytes
  pubkey : Option PubkeyAlgorithm := none
  digest : Option DigestAlgorithm := none
  deriving DecidableEq, Repr

-- 1.2.840.113549.1.1
def oidPkcs1 : Bytes := [0x2a, 0x86, 0x48, 0x86, 0xf7, 0x0d, 0x01, 0x01]

-- 2.16.840.1.101.3.4.2
def oidNistHash : Bytes := [0x60, 0x86, 0x48, 0x01, 0x65, 0x03, 0x04, 0x02]

/-- `ASN1_ALGORITHMS` in the default configuration.
[crypto/mishmash, config/config_crypto.c:37-120, config/crypto.h] -/
def asn1Algorithms : List Asn1Algorithm :=
  [{ name := "rsaEncryption", oid := oidPkcs1 ++ [1], pubkey := some .rsa },
   { name := "sha1", oid := [0x2b, 0x0e, 0x03, 0x02, 0x1a], digest := some .sha1 },
   { name := "sha224", oid := oidNistHash ++ [4], digest := some .sha224 },
   { name := "sha256", oid := oidNistHash ++ [1], digest := some .sha256 },
   { name := "sha384", oid := oidNistHash ++ [2], digest := some .sha384 },
   { name := "sha512", oid := oidNistHash ++ [3], digest := some .sha512 },
   { name := "sha1WithRSAEncryption", oid := oidPkcs1 ++ [5],
     pubkey := some .rsa, digest := some .sha1 },
   { name := "sha224WithRSAEncryption", oid := oidPkcs1 ++ [14],
     pubkey := some .rsa, digest := some .sha224 },
   { name := "sha256WithRSAEncryption", oid := oidPkcs1 ++ [11],
     pubkey := some .rsa, digest := some .sha256 },
   { name := "sha384WithRSAEncryption", oid := oidPkcs1 ++ [12],
     pubkey := some .rsa, digest := some .sha384 },
   { name := "sha512WithRSAEncryption", oid := oidPkcs1 ++ [13],
     pubkey := some .rsa, digest := some .sha512 }]

/-- Identify ASN.1 algorithm by OID.
[459-469] -/
def asn1FindAlgorithm : Option Asn1Algorithm :=
  asn1Algorithms.find? fun algorithm => asn1Compare algorithm.oid cursor

/-- Parse ASN.1 OID-identified algorithm.
[478-505] -/
def asn1Algorithm : Except Errno Asn1Algorithm :=
  match asn1Enter (asn1Enter cursor asn1TagSequence).2 asn1TagOid with
  | (.error _, _) => .error .einvalAsn1Algorithm
  | (.ok (), oid) =>
    match asn1FindAlgorithm oid with
    | none => .error .enotsupAlgorithm
    | some algorithm => .ok algorithm

/-- Parse ASN.1 OID-identified public-key algorithm.
[514-531] -/
def asn1PubkeyAlgorithm : Except Errno Asn1Algorithm := do
  let algorithm ← asn1Algorithm cursor
  if algorithm.pubkey = none then .error .enottyAlgorithm
  else .ok algorithm

/-- Parse ASN.1 OID-identified signature algorithm.
[566-591] -/
def asn1SignatureAlgorithm : Except Errno Asn1Algorithm := do
  let algorithm ← asn1Algorithm cursor
  if algorithm.pubkey = none then .error .enottyAlgorithm
  else if algorithm.digest = none then .error .enottyAlgorithm
  else .ok algorithm

/-! ## Times -/

/-- The loop over the digit pairs of a time, of which so many are expected.  Only the
last pair, the seconds, may be missing. -/
def asn1TimePairs : ℕ → Bytes → Except Errno (List ℤ × Bytes)
  | 0, data => .ok ([], data)
  | missing + 1, tens :: units :: data =>
    if isdigit tens && isdigit units then do
      let (pairs, rest) ← asn1TimePairs missing data
      .ok ((10 * (tens.toNat - 0x30) + (units.toNat - 0x30) : ℤ) :: pairs, rest)
    else .error .einvalAsn1Time
  | missing + 1, data => if missing = 0 then .ok ([], data) else .error .einvalAsn1Time

/-- The broken-down time of seven digit pairs, century first. -/
def asn1TimeFields (pairs : List ℤ) : Tm where
  tmYear := (pairs.getD 0 0 - 19) * 100 + pairs.getD 1 0
  tmMon := pairs.getD 2 0 - 1
  tmMday := pairs.getD 3 0
  tmHour := pairs.getD 4 0
  tmMin := pairs.getD 5 0
  tmSec := pairs.getD 6 0

/-- Parse ASN.1 GeneralizedTime.
[604-704] -/
def asn1GeneralizedTime (memory : MonthMemory) (cursor : Asn1Cursor) : Except Errno ℤ :=
  let type := asn1Type cursor
  if type ≠ asn1TagUtcTime ∧ type ≠ asn1TagGeneralizedTime then .error .einvalAsn1Time
  else
    let haveCentury : Bool := type = asn1TagGeneralizedTime
    match asn1Enter cursor type with
    | (.error rc, _) => .error rc
    | (.ok (), contents) => do
      let (pairs, rest) ← asn1TimePairs (if haveCentury then 7 else 6) contents
      let century : ℤ := if pairs.getD 0 0 ≥ 50 then 19 else 20
      let pairs := if haveCentury then pairs else century :: pairs
      if rest ≠ [0x5a] then .error .einvalAsn1Time
      else .ok (mktime memory (asn1TimeFields pairs)).1

/-! ## Building objects

An object is built from its end: everything is prepended.  Every operation may fail to allocate, and
its caller may go on with the builder nevertheless, so operations take whether their allocation
succeeds and return the builder they leave behind. -/

/-- `data = none` is a null pointer.
[include/ipxe/asn1.h:34-43] -/
structure Asn1Builder where
  data : Option Bytes := none
  len : ℕ := 0
  deriving DecidableEq, Repr

/-- The bytes of a length, most significant first, of which a `size_t` has at most so
many. -/
def asn1LengthOctets : ℕ → ℕ → Bytes
  | 0, _ => []
  | more + 1, len =>
    if len = 0 then [] else asn1LengthOctets more (len / 256) ++ [UInt8.ofNat (len % 256)]

/-- Construct ASN.1 header.
[714-735] -/
def asn1Header (type : UInt8) (len : ℕ) : Bytes :=
  if len < 0x80 then [type, UInt8.ofNat len]
  else
    let octets := asn1LengthOctets 8 len
    type :: (0x80 ||| UInt8.ofNat octets.length) :: octets

variable (builder : Asn1Builder)

/-- Grow ASN.1 builder and fill in the space that was prepended.
[744-769] -/
def asn1Grow (bytes : Bytes) (alloc : Bool) : Except Errno Unit × Asn1Builder :=
  if builder.len ≠ 0 ∧ builder.data = none then (.error .enomem, builder)
  else if !alloc then (.error .enomem, { builder with data := none })
  else (.ok (), ⟨some (bytes ++ builder.data.getD []), builder.len + bytes.length⟩)

/-- See 779-791 -/
def asn1PrependRaw (data : Bytes) (alloc : Bool) : Except Errno Unit × Asn1Builder :=
  asn1Grow builder data alloc

/-- See 802-820 -/
def asn1Prepend (type : UInt8) (data : Bytes) (alloc : Bool) : Except Errno Unit × Asn1Builder :=
  asn1Grow builder (asn1Header type data.length ++ data) alloc

/-- See 829-846 -/
def asn1Wrap (type : UInt8) (alloc : Bool) : Except Errno Unit × Asn1Builder :=
  asn1Grow builder (asn1Header type builder.len) alloc

def Asn1Builder.bytes : Bytes := builder.data.getD []

example : (asn1Wrap (asn1Prepend {} 0x04 [1, 2] true).2 0x30 true).2.bytes =
    [0x30, 4, 0x04, 2, 1, 2] := by decide

end Ipxe.Model
