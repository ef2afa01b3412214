import Ipxe.Model.Platform

/-!
# Cryptographic algorithms

The tables of algorithms are those of the source; the algorithms themselves are arguments.  Feeding
a digest in pieces is the same as feeding it at once.
-/

namespace Ipxe.Model

/-- The digest algorithms that can be built in.
[crypto/mishmash/oid_md4.c … oid_sha512_256.c] -/
inductive DigestAlgorithm where
  | md4 | md5 | sha1 | sha224 | sha256 | sha384 | sha512 | sha512x224 | sha512x256
  deriving DecidableEq, Repr

/-- See include/ipxe/md4.h:72, md5.h:72, sha1.h:72, sha256.h:77-80, sha512.h:79-88 -/
def DigestAlgorithm.digestsize : DigestAlgorithm → ℕ
  | md4 => 16
  | md5 => 16
  | sha1 => 20
  | sha224 => 28
  | sha256 => 32
  | sha384 => 48
  | sha512 => 64
  | sha512x224 => 28
  | sha512x256 => 32

/-- The public-key algorithms that can be built in.
[crypto/rsa.c:632-644] -/
inductive PubkeyAlgorithm where
  | rsa
  deriving DecidableEq, Repr

/-- The functions of a digest algorithm.
[include/ipxe/crypto.h:21-53] -/
structure DigestOps where
  Ctx : Type
  init : Ctx
  update : Ctx → Bytes → Ctx
  final : Ctx → Bytes
  blocksize : ℕ
  blocksize_pos : 0 < blocksize
  update_nil : ∀ ctx, update ctx [] = ctx
  update_append : ∀ ctx first second,
    update (update ctx first) second = update ctx (first ++ second)

def DigestOps.hash (ops : DigestOps) (data : Bytes) : Bytes := ops.final (ops.update ops.init data)

/-- The algorithms a build has, as arbitrary functions. -/
structure Crypto where
  digest : DigestAlgorithm → DigestOps
  digest_length : ∀ algorithm ctx, ((digest algorithm).final ctx).length = algorithm.digestsize
  /-- `pubkey_init`: accept a public key -/
  pubkeyInit : PubkeyAlgorithm → Bytes → Except Errno Unit
  /-- `pubkey_verify`: check a signature over a digest value under an accepted key -/
  pubkeyVerify : PubkeyAlgorithm → Bytes → DigestAlgorithm → Bytes → Bytes → Except Errno Unit

/-- The digest, key and signature part that the checks of certificates, OCSP responses
and CMS messages share: a public key must be accepted, and then the signature over a
digest value must verify under it. -/
def Crypto.verify (crypto : Crypto) (pubkey : PubkeyAlgorithm) (key : Bytes)
    (digest : DigestAlgorithm) (value signature : Bytes) : Except Errno Unit := do
  crypto.pubkeyInit pubkey key
  crypto.pubkeyVerify pubkey key digest value signature

/-- A digest that is the data itself, cut or padded to its size. -/
def paddingDigest (size : ℕ) : DigestOps where
  Ctx := Bytes
  init := []
  update := List.append
  final ctx := (ctx ++ List.replicate size 0).take size
  blocksize := 64
  blocksize_pos := by decide
  update_nil := List.append_nil
  update_append := List.append_assoc

theorem length_paddingDigest (algorithm : DigestAlgorithm) (ctx : Bytes) :
    ((paddingDigest algorithm.digestsize).final ctx).length = algorithm.digestsize := by
  simp [paddingDigest]

/-- Algorithms that accept every key and every signature. -/
def acceptingCrypto : Crypto where
  digest algorithm := paddingDigest algorithm.digestsize
  digest_length := length_paddingDigest
  pubkeyInit _ _ := .ok ()
  pubkeyVerify _ _ _ _ _ := .ok ()

/-- The key, or its digest, filled up to a block.
[crypto/hmac.c:60-68] -/
def hmacPad (hash : Bytes → Bytes) (blocksize : ℕ) (key : Bytes) : Bytes :=
  let pad := if key.length ≤ blocksize then key else hash key
  pad ++ List.replicate (blocksize - pad.length) 0

/-- `hmac_init`, `hmac_update` with the data, and `hmac_final`.
[crypto/hmac.c:56-105] -/
def hmac (hash : Bytes → Bytes) (blocksize : ℕ) (key data : Bytes) : Bytes :=
  let pad := (hmacPad hash blocksize key).map (· ^^^ 0x36)
  hash (pad.map (· ^^^ 0x6a) ++ hash (pad ++ data))

end Ipxe.Model
