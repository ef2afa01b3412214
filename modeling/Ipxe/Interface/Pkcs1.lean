import Ipxe.Library.MultiWord
import Ipxe.Model.Asn1

/-!
# Signatures of PKCS #1

What a signature of version 1.5 is: the power of the signature, modulo the modulus, is the
number of a block that holds the digest.  Digests are those a build has an identifier for.
-/

namespace Ipxe.Interface

open Library Model

def shortObject (tag : UInt8) (content : Bytes) : Bytes :=
  tag :: UInt8.ofNat content.length :: content

def digestIdentifier : DigestAlgorithm → Option Bytes
  | .sha1 => some [0x2b, 0x0e, 0x03, 0x02, 0x1a]
  | .sha256 => some [0x60, 0x86, 0x48, 0x01, 0x65, 0x03, 0x04, 0x02, 0x01]
  | .sha384 => some [0x60, 0x86, 0x48, 0x01, 0x65, 0x03, 0x04, 0x02, 0x02]
  | .sha512 => some [0x60, 0x86, 0x48, 0x01, 0x65, 0x03, 0x04, 0x02, 0x03]
  | .sha224 => some [0x60, 0x86, 0x48, 0x01, 0x65, 0x03, 0x04, 0x02, 0x04]
  | _ => none

def digestInfo (digest : DigestAlgorithm) (value : Bytes) : Option Bytes :=
  (digestIdentifier digest).map fun oid =>
    shortObject asn1TagSequence
      (shortObject asn1TagSequence (shortObject asn1TagOid oid ++ shortObject asn1TagNull []) ++
        shortObject asn1TagOctetString value)

/-- The block `00 01 FF .. FF 00 DigestInfo` of `k` octets, with at least eight octets `FF`. -/
def pkcs1Block (k : ℕ) (digest : DigestAlgorithm) (value : Bytes) : Option Bytes :=
  (digestInfo digest value).bind fun info =>
    if info.length + 11 ≤ k then
      some (0x00 :: 0x01 :: (List.replicate (k - info.length - 3) 0xff ++ 0x00 :: info))
    else none

/-- A signature over a digest value, under a public key of two numbers. -/
def Signs (modulus exponent : Bytes) (digest : DigestAlgorithm) (value signature : Bytes) : Prop :=
  signature.length = modulus.length ∧ 0 < octetsValue modulus ∧
    ∃ block, pkcs1Block modulus.length digest value = some block ∧
      octetsValue signature ^ octetsValue exponent % octetsValue modulus = octetsValue block

end Ipxe.Interface
