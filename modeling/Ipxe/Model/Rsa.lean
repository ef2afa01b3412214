import Ipxe.Model.Asn1
import Ipxe.Model.Bigint

/-!
# RSA

`crypto/rsa.c`.  An encoder writes its message into a buffer of `max_len` bytes and computes the
length of the padding in a `size_t`; what happens behind the end of a buffer is not modelled.

Left out: debugging output, allocation failures and signing.
-/

namespace Ipxe.Model

/-! ## Keys
[79-264] -/

def rsaParseInteger (raw : Asn1Cursor) : Except Errno Asn1Cursor :=
  let integer := (asn1Enter raw asn1TagInteger).2
  let integer := if 1 < integer.length ∧ integer.head? = some 0 then integer.tail else integer
  if integer = [] then .error .einval else .ok integer

def rsaParseModExp (raw : Asn1Cursor) : Except Errno (Asn1Cursor × Asn1Cursor) := do
  let cursor := (asn1Enter raw asn1TagSequence).2
  if asn1Type cursor = asn1TagInteger then
    let cursor := (asn1SkipAny cursor).2
    let modulus ← rsaParseInteger cursor
    let exponent ← rsaParseInteger (asn1Skip (asn1SkipAny cursor).2 asn1TagInteger).2
    return (modulus, exponent)
  else
    let bits ← asn1IntegralBitString (asn1Skip cursor asn1TagSequence).2
    let cursor := (asn1Enter bits.data asn1TagSequence).2
    let modulus ← rsaParseInteger cursor
    let exponent ← rsaParseInteger (asn1SkipAny cursor).2
    return (modulus, exponent)

structure RsaContext (b : ℕ) where
  modulus : Bigint (8 * b)
  size : ℕ
  maxLen : ℕ
  exponent : Bigint (8 * b)

def bigintRequiredSize (b len : ℕ) : ℕ := (len + b - 1) / b

def rsaInit (b : ℕ) (key : Asn1Cursor) : Except Errno (RsaContext b) := do
  let (modulus, exponent) ← rsaParseModExp key
  return {
    modulus := bigintInit b (bigintRequiredSize b modulus.length) modulus
    size := bigintRequiredSize b modulus.length
    maxLen := modulus.length
    exponent := bigintInit b (bigintRequiredSize b exponent.length) exponent }

/-! ## Digests
[include/ipxe/rsa.h:16-58, crypto/mishmash/rsa_*.c] -/

def rsaDigestinfoPrefix (digestSize : ℕ) (oid : Bytes) : Bytes :=
  let contents := asn1TagOid :: UInt8.ofNat oid.length :: oid ++ [asn1TagNull, 0]
  let algorithm := asn1TagSequence :: UInt8.ofNat contents.length :: contents
  let digest := [asn1TagOctetString, UInt8.ofNat digestSize]
  asn1TagSequence :: UInt8.ofNat (algorithm.length + digest.length + digestSize) ::
    algorithm ++ digest

/-- `RSA_DIGESTINFO_PREFIXES` in the default configuration. -/
def rsaFindPrefix (digest : DigestAlgorithm) : Option Bytes :=
  match digest with
  | .sha1 => some (rsaDigestinfoPrefix digest.digestsize [0x2b, 0x0e, 0x03, 0x02, 0x1a])
  | .sha224 => some (rsaDigestinfoPrefix digest.digestsize (oidNistHash ++ [4]))
  | .sha256 => some (rsaDigestinfoPrefix digest.digestsize (oidNistHash ++ [1]))
  | .sha384 => some (rsaDigestinfoPrefix digest.digestsize (oidNistHash ++ [2]))
  | .sha512 => some (rsaDigestinfoPrefix digest.digestsize (oidNistHash ++ [3]))
  | _ => none

/-! ## Verification
[273-301,422-561] -/

variable {b : ℕ} (context : RsaContext b)

/-- Perform RSA cipher operation; nothing if it does not return. -/
def rsaCipher (input : Bytes) : Option Bytes :=
  (bigintModExp (bigintInit b context.size input) context.modulus context.exponent).map
    fun output => bigintDone output context.maxLen

variable (arch : Platform)

def Platform.toSize (value : ℤ) : ℕ := (value % (2 ^ arch.sizeBits : ℕ)).toNat

/-- What an operation on the buffers of a context comes to. -/
inductive RsaOutcome (α : Type) where
  | returned (result : α)
  | overrun
  | hangs
  deriving DecidableEq

/-- Get random non-zero bytes, from a generator that fails with `rc` behind `random`.
[crypto/random_nz.c:60-79] -/
def getRandomNz (rc : Errno) : ℕ → Bytes → Except Errno Bytes
  | 0, _ => .ok []
  | _ + 1, [] => .error rc
  | len + 1, byte :: random =>
    if byte ≠ 0 then (byte :: ·) <$> getRandomNz rc len random
    else getRandomNz rc (len + 1) random

/-- Encrypt using RSA.
[312-350] -/
def rsaEncrypt (context : RsaContext b) (plaintext : Bytes)
    (rc : Errno) (random : Bytes) : RsaOutcome (Except Errno Bytes) :=
  let maxLen := arch.toSize (context.maxLen - 11)
  let randomNzLen := arch.toSize (maxLen - plaintext.length + 8)
  if maxLen < plaintext.length then .returned (.error .erange)
  else if context.maxLen < 2 + randomNzLen + 1 + plaintext.length then .overrun
  else
    match getRandomNz rc randomNzLen random with
    | .error rc => .returned (.error rc)
    | .ok randomNz =>
      match rsaCipher context ([0x00, 0x02] ++ randomNz ++ [0x00] ++ plaintext) with
      | none => .hangs
      | some ciphertext => .returned (.ok ciphertext)

/-- Decrypt using RSA.  A message of one byte is read behind its end.
[361-411] -/
def rsaDecrypt (ciphertext : Bytes) : RsaOutcome (Except Errno Bytes) :=
  if ciphertext.length ≠ context.maxLen then .returned (.error .erange)
  else
    match rsaCipher context ciphertext with
    | none => .hangs
    | some (first :: second :: encoded) =>
      if first ≠ 0x00 ∨ second ≠ 0x02 then .returned (.error .einval)
      else
        match encoded.dropWhile (· ≠ 0) with
        | [] => .returned (.error .einval)
        | _ :: plaintext => .returned (.ok plaintext)
    | some _ => .overrun

def rsaEncodeDigest (maxLen : ℕ) (digest : DigestAlgorithm)
    (value : Bytes) : RsaOutcome (Except Errno Bytes) :=
  match rsaFindPrefix digest with
  | none => .returned (.error .enotsup)
  | some digestinfo =>
    let digestinfoLen := digestinfo.length + digest.digestsize
    let available := arch.toSize (maxLen - 11)
    if available < digestinfoLen then .returned (.error .erange)
    else
      let padLen := arch.toSize (available - digestinfoLen + 8)
      if maxLen < 2 + padLen + 1 + digestinfoLen then .overrun
      else
        .returned (.ok
          ([0x00, 0x01] ++ List.replicate padLen 0xff ++ [0x00] ++ digestinfo ++ value))

def rsaVerify (context : RsaContext b) (digest : DigestAlgorithm)
    (value signature : Bytes) : RsaOutcome (Except Errno Unit) :=
  if signature.length ≠ context.maxLen then .returned (.error .erange)
  else
    match rsaCipher context signature with
    | none => .hangs
    | some expected =>
      match rsaEncodeDigest arch context.maxLen digest value with
      | .hangs => .hangs
      | .overrun => .overrun
      | .returned (.error rc) => .returned (.error rc)
      | .returned (.ok actual) =>
        if actual = expected then .returned (.ok ()) else .returned (.error .eaccesVerify)

end Ipxe.Model
