import Ipxe.Model.Encodings

/-!
# DNS names

`net/udp/dns.c`.  The functions that write and read names in the encoding of RFC 1035, at an offset
in a buffer.  A string is the list of its bytes, without the byte that ends it.  Lengths and offsets
are natural numbers: the limits of `int` are left out.
-/

namespace Ipxe.Model

/-- `struct dns_name`; the length is that of the data. -/
structure DnsName where
  data : Bytes
  offset : ℕ
  deriving DecidableEq

def dnsMaxLabelLen : ℕ := 0x3f

def dot : UInt8 := 0x2e

/-! ## Encoding
[100-153] -/

def dnsPut (data : Bytes) (dst : ℕ) (c : UInt8) (len : ℕ) : Bytes :=
  if dst < data.length then (data.set dst c).set (dst - len) (UInt8.ofNat len) else data

/-- The loop over the string: where it ends, and the length of the last label. -/
def dnsEncodeLoop (start : ℕ) : Bytes → (dst len : ℕ) → (data : Bytes) →
    Except Errno (ℕ × ℕ) × Bytes
  | [], dst, len, data => (.ok (dst, len), data)
  | c :: string, dst, len, data =>
    if c = dot then
      -- reject consecutive '.'
      if len = 0 ∧ dst ≠ start then (.error .einval, data)
      -- terminate if this is the trailing '.'
      else if string = [] then (.ok (dst, len), data)
      -- reject initial non-terminating '.'
      else if len = 0 then (.error .einval, data)
      else dnsEncodeLoop start string (dst + 1) 0 (dnsPut data (dst + 1) c 0)
    else if dnsMaxLabelLen < len + 1 then (.error .einval, data)
    else dnsEncodeLoop start string (dst + 1) (len + 1) (dnsPut data (dst + 1) c (len + 1))

/-- Encode a DNS name using RFC1035 encoding: the length of the name, and the buffer. -/
def dnsEncode (string : Bytes) (name : DnsName) : Except Errno ℕ × Bytes :=
  match dnsEncodeLoop name.offset string name.offset 0 name.data with
  | (.error rc, data) => (.error rc, data)
  | (.ok (dst, len), data) =>
    let dst := if len ≠ 0 then dst + 1 else dst
    (.ok (dst + 1 - name.offset), data.set dst 0)

/-! ## Labels
[include/ipxe/dns.h:28-42, net/udp/dns.c:162-202] -/

def dnsIsCompressed (byte : UInt8) : Prop := byte &&& 0xc0 ≠ 0

instance (byte : UInt8) : Decidable (dnsIsCompressed byte) := inferInstanceAs (Decidable (_ ≠ _))

/-- `DNS_COMPRESSED_OFFSET` of a word in network byte order. -/
def dnsCompressedOffset (high low : UInt8) : ℕ := (high &&& 0x3f).toNat * 256 + low.toNat

/-- Find start of valid label within an RFC1035-encoded DNS name. -/
def dnsLabel (data : Bytes) (offset : ℕ) : Except Errno ℕ :=
  if data.length < offset + 1 then .error .einval
  else
    let byte := data.getD offset 0
    if dnsIsCompressed byte then
      if data.length < offset + 2 then .error .einval
      else
        let ptr := dnsCompressedOffset byte (data.getD (offset + 1) 0)
        -- fail if pointer does not point backwards
        if offset ≤ ptr then .error .einval
        else dnsLabel data ptr
    else if data.length < offset + 1 + byte.toNat then .error .einval
    else .ok offset
termination_by offset
decreasing_by
  rename_i hbackwards
  exact Nat.lt_of_not_le hbackwards

/-! ## Decoding
[213-258] -/

/-- The loop of `dns_decode`: the length of the decoded name, and the bytes that are written
to the output buffer, which has `len` bytes. -/
def dnsDecodeLoop (data : Bytes) (len : ℕ) : (recursionLimit offset decodedLen : ℕ) →
    (output : Bytes) → Except Errno ℕ × Bytes
  | 0, _, _, output => (.error .einval, output)
  | recursionLimit + 1, offset, decodedLen, output =>
    match dnsLabel data offset with
    | .error rc => (.error rc, output)
    | .ok offset =>
      let labelLen := (data.getD offset 0).toNat
      -- terminate if we have reached the root
      if labelLen = 0 then
        (.ok decodedLen, if decodedLen < len then output ++ [0] else output)
      else
        -- prepend '.' if applicable
        let output := if decodedLen ≠ 0 ∧ decodedLen < len then output ++ [dot] else output
        let decodedLen := if decodedLen ≠ 0 then decodedLen + 1 else decodedLen
        let copyLen := min (if decodedLen < len then len - decodedLen else 0) labelLen
        dnsDecodeLoop data len recursionLimit (offset + (1 + labelLen))
          (decodedLen + labelLen) (output ++ (data.drop (offset + 1)).take copyLen)

def dnsDecode (name : DnsName) (len : ℕ) : Except Errno ℕ × Bytes :=
  dnsDecodeLoop name.data len name.data.length name.offset 0 []

/-! ## Comparison
[267-312] -/

def dnsCompareLoop (first second : Bytes) : (recursionLimit firstOffset secondOffset : ℕ) →
    Except Errno Unit
  | 0, _, _ => .error .einval
  | recursionLimit + 1, firstOffset, secondOffset =>
    match dnsLabel first firstOffset with
    | .error rc => .error rc
    | .ok firstOffset =>
      match dnsLabel second secondOffset with
      | .error rc => .error rc
      | .ok secondOffset =>
        let labelLen := (first.getD firstOffset 0).toNat
        if labelLen ≠ (second.getD secondOffset 0).toNat then .error .enoent
        else if labelLen = 0 then .ok ()
        -- compare label contents (case-insensitively)
        else if ((first.drop (firstOffset + 1)).take labelLen).map tolower ≠
            ((second.drop (secondOffset + 1)).take labelLen).map tolower then
          .error .enoent
        else
          dnsCompareLoop first second recursionLimit (firstOffset + (1 + labelLen))
            (secondOffset + (1 + labelLen))

def dnsCompare (first second : DnsName) : Except Errno Unit :=
  dnsCompareLoop first.data second.data first.data.length first.offset second.offset

/-! ## Copying
[321-356] -/

/-- `memcpy` of as many bytes as there is room for. -/
def dnsCopyBytes (data : Bytes) (offset : ℕ) (bytes : Bytes) : Bytes :=
  let copyLen := min (if offset < data.length then data.length - offset else 0) bytes.length
  data.take offset ++ bytes.take copyLen ++ data.drop (offset + copyLen)

/-- The loop of `dns_copy`: the offset behind the copy, and the destination. -/
def dnsCopyLoop (src : Bytes) : (recursionLimit srcOffset dstOffset : ℕ) →
    (dst : Bytes) → Except Errno ℕ × Bytes
  | 0, _, _, dst => (.error .einval, dst)
  | recursionLimit + 1, srcOffset, dstOffset, dst =>
    match dnsLabel src srcOffset with
    | .error rc => (.error rc, dst)
    | .ok srcOffset =>
      -- copy as an uncompressed label
      let labelLen := (src.getD srcOffset 0).toNat
      let len := 1 + labelLen
      let dst := dnsCopyBytes dst dstOffset ((src.drop srcOffset).take len)
      -- terminate if we have reached the root
      if labelLen = 0 then (.ok (dstOffset + len), dst)
      else dnsCopyLoop src recursionLimit (srcOffset + len) (dstOffset + len) dst

/-- Copy a DNS name: the length of the copied name, and the destination. -/
def dnsCopy (src dst : DnsName) : Except Errno ℕ × Bytes :=
  match dnsCopyLoop src.data src.data.length src.offset dst.offset dst.data with
  | (.error rc, data) => (.error rc, data)
  | (.ok dstOffset, data) => (.ok (dstOffset - dst.offset), data)

/-! ## Skipping
[364-395] -/

def dnsSkipLoop (data : Bytes) : (recursionLimit offset : ℕ) → Except Errno ℕ
  | 0, _ => .error .einval
  | recursionLimit + 1, prevOffset =>
    match dnsLabel data prevOffset with
    | .error rc => .error rc
    | .ok offset =>
      -- terminate if we have reached a compression pointer
      if offset ≠ prevOffset then .ok (prevOffset + 2)
      else
        let labelLen := (data.getD offset 0).toNat
        if labelLen = 0 then .ok (offset + (1 + labelLen))
        else dnsSkipLoop data recursionLimit (offset + (1 + labelLen))

def dnsSkip (name : DnsName) : Except Errno ℕ := dnsSkipLoop name.data name.data.length name.offset

end Ipxe.Model
