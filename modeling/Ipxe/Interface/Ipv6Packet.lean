import Ipxe.Library.Bytes
import Mathlib.Tactic

/-!
# IPv6 packets with extension headers, as RFC 2460 lays them out

A packet is a chain of hop-by-hop, routing and destination options headers in front of an
upper-layer payload.  A header fills the `8 * (length field + 1)` bytes that it occupies, and the
options of an options header may all be ignored.
-/

namespace Ipxe.Interface

open List

/-- The extension headers with a length field. -/
inductive ExtensionType where
  | hopbyhop
  | routing
  | destination
  deriving DecidableEq, Repr

/-- The next-header value that announces an extension header. -/
def ExtensionType.number : ExtensionType → UInt8
  | hopbyhop => 0
  | routing => 43
  | destination => 60

/-- A sequence of type-length-value options, all of which a receiver that does not
know them skips: the two highest-order bits of the type are zero. -/
inductive IgnorableOptions : Bytes → Prop
  | nil : IgnorableOptions []
  | pad1 {rest : Bytes} (h : IgnorableOptions rest) : IgnorableOptions (0 :: rest)
  | option {type len : UInt8} {data rest : Bytes} (hne : type ≠ 0)
      (hact : type &&& 0xc0 = 0) (hlen : data.length = len.toNat) (h : IgnorableOptions rest) :
      IgnorableOptions (type :: len :: (data ++ rest))

/-- A well-formed extension header, behind its next-header value. -/
structure ExtensionHeader where
  type : ExtensionType
  /-- the length field: the number of 8-byte units after the first -/
  len : UInt8
  /-- what follows the length field -/
  body : Bytes
  /-- the header occupies `8 * (len + 1)` bytes -/
  length_body : body.length + 2 = 8 * (len.toNat + 1)
  /-- an options header holds options, and they may be ignored -/
  ignorable : type ≠ .routing → IgnorableOptions body

variable (protocol : UInt8)

/-- The next-header value in front of a chain of headers. -/
def firstHeader : List ExtensionHeader → UInt8
  | [] => protocol
  | header :: _ => header.type.number

def encodeHeaders (protocol : UInt8) : List ExtensionHeader → Bytes
  | [] => []
  | header :: headers =>
    firstHeader protocol headers :: header.len :: (header.body ++ encodeHeaders protocol headers)

/-- Next-header values of an upper-layer payload: neither one of the headers above
nor a fragment header. -/
def upperProtocol : Prop :=
  protocol ≠ 0 ∧ protocol ≠ 43 ∧ protocol ≠ 44 ∧ protocol ≠ 60

structure Ipv6Packet where
  /-- traffic class and flow label: the four bits behind the version, and three bytes -/
  trafficClass : Fin 16
  flow : Bytes
  hopLimit : UInt8
  src : Bytes
  dest : Bytes
  headers : List ExtensionHeader
  protocol : UInt8
  payload : Bytes
  length_flow : flow.length = 3
  length_src : src.length = 16
  length_dest : dest.length = 16
  upper : upperProtocol protocol
  fits : (encodeHeaders protocol headers).length + payload.length ≤ 65535

variable (packet : Ipv6Packet)

/-- What follows the fixed header. -/
def Ipv6Packet.content : Bytes :=
  encodeHeaders packet.protocol packet.headers ++ packet.payload

def Ipv6Packet.encode : Bytes :=
  UInt8.ofNat (0x60 + packet.trafficClass) :: (packet.flow ++
    UInt8.ofNat (packet.content.length / 256) :: UInt8.ofNat (packet.content.length % 256) ::
    firstHeader packet.protocol packet.headers :: packet.hopLimit ::
    (packet.src ++ packet.dest ++ packet.content))

/-- The types and length fields of a packet's extension headers. -/
def Ipv6Packet.shape : List (ExtensionType × UInt8) :=
  packet.headers.map fun header => (header.type, header.len)

/-- The bytes taken by a chain of headers with the given types and length fields. -/
def shapeLength (shape : List (ExtensionType × UInt8)) : ℕ :=
  (shape.map fun header => 8 * (header.2.toNat + 1)).sum

theorem length_encodeHeaders (headers : List ExtensionHeader) :
    (encodeHeaders protocol headers).length =
      shapeLength (headers.map fun header => (header.type, header.len)) := by
  induction headers with
  | nil => rfl
  | cons header headers ih =>
    have hbody := header.length_body
    simp only [encodeHeaders, length_cons, length_append, ih, shapeLength, map_cons, sum_cons]
    omega

theorem Ipv6Packet.length_encode : packet.encode.length = 40 + packet.content.length := by
  have h₁ := packet.length_flow
  have h₂ := packet.length_src
  have h₃ := packet.length_dest
  simp only [Ipv6Packet.encode, length_cons, length_append]
  omega

end Ipxe.Interface
