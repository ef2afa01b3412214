import Ipxe.Model.Encodings
import Ipxe.Model.Crypto

/-!
# TLS cipher suites and key derivation

`net/tls.c`.  The algorithms themselves are arguments: a cipher works on the bytes of its context,
and a public-key algorithm on the key that its context was initialised with, if it was.
-/

namespace Ipxe.Model

/-- The digests that TLS uses: `digest_null`, the hybrid `md5_sha1_algorithm`, and those
that are built in.
[crypto/crypto_null.c:47-55, net/tls.c:319-328] -/
inductive TlsDigest where
  | null
  | md5Sha1
  | single (digest : DigestAlgorithm)
  deriving DecidableEq, Repr

def TlsDigest.digestsize : TlsDigest → ℕ
  | null => 0
  | md5Sha1 => DigestAlgorithm.md5.digestsize + DigestAlgorithm.sha1.digestsize
  | single digest => digest.digestsize

def TlsDigest.blocksize (crypto : Crypto) : TlsDigest → ℕ
  | null => 1
  | md5Sha1 => 0
  | single digest => (crypto.digest digest).blocksize

/-- See crypto/crypto_null.c:33-45, net/tls.c:283-316 -/
def TlsDigest.hash (crypto : Crypto) : TlsDigest → Bytes → Bytes
  | null, _ => []
  | md5Sha1, data => (crypto.digest .md5).hash data ++ (crypto.digest .sha1).hash data
  | single digest, data => (crypto.digest digest).hash data

def TlsDigest.hmac (crypto : Crypto) (digest : TlsDigest) (key data : Bytes) : Bytes :=
  Model.hmac (digest.hash crypto) (digest.blocksize crypto) key data

inductive CipherAlgorithm where
  | null | aesCbc | aesGcm
  deriving DecidableEq, Repr

/-- See crypto/crypto_null.c:86-97, include/ipxe/cbc.h:94-105, include/ipxe/gcm.h:120-131 -/
def CipherAlgorithm.blocksize : CipherAlgorithm → ℕ
  | null => 1
  | aesCbc => 16
  | aesGcm => 1

def CipherAlgorithm.authsize : CipherAlgorithm → ℕ
  | null => 0
  | aesCbc => 0
  | aesGcm => 16

/-- The functions of a cipher on the bytes of a context.
[include/ipxe/crypto.h:53-119] -/
structure CipherOps where
  ctxsize : ℕ
  setkey : Bytes → Bytes → Except Errno Bytes
  setiv : Bytes → Bytes → Bytes
  /-- the context and the ciphertext -/
  encrypt : Bytes → Bytes → Bytes × Bytes
  decrypt : Bytes → Bytes → Bytes × Bytes
  /-- `encrypt` and `decrypt` without a destination: additional data -/
  encryptAdditional : Bytes → Bytes → Bytes
  decryptAdditional : Bytes → Bytes → Bytes
  auth : Bytes → Bytes

/-- See crypto/crypto_null.c:57-97 -/
def cipherNull : CipherOps where
  ctxsize := 0
  setkey ctx _ := .ok ctx
  setiv ctx _ := ctx
  encrypt ctx data := (ctx, data)
  decrypt ctx data := (ctx, data)
  encryptAdditional ctx _ := ctx
  decryptAdditional ctx _ := ctx
  auth _ := []

/-- The algorithms that only TLS uses.  A public key is `none` in a context that was never
initialised. -/
structure TlsCrypto where
  aesCbc : CipherOps
  aesGcm : CipherOps
  pubkeyEncrypt : PubkeyAlgorithm → Option Bytes → Bytes → Except Errno Bytes
  pubkeySign : PubkeyAlgorithm → Bytes → TlsDigest → Bytes → Except Errno Bytes
  pubkeyVerify : PubkeyAlgorithm → Option Bytes → TlsDigest → Bytes → Bytes → Except Errno Unit
  /-- the public value and the shared secret for a modulus, a generator, the partner's public
  value and a private key -/
  dheKey : Bytes → Bytes → Bytes → Bytes → Except Errno (Bytes × Bytes)

def TlsCrypto.cipher (crypto : TlsCrypto) : CipherAlgorithm → CipherOps
  | .null => cipherNull
  | .aesCbc => crypto.aesCbc
  | .aesGcm => crypto.aesGcm

/-! ## Cipher suites -/

inductive TlsKeyExchange where
  | pubkey | dhe
  deriving DecidableEq, Repr

/-- A cipher suite.  `pubkey` is `none` for `pubkey_null`.
[include/ipxe/tls.h:179-201] -/
structure TlsCipherSuite where
  exchange : TlsKeyExchange
  pubkey : Option PubkeyAlgorithm
  cipher : CipherAlgorithm
  digest : TlsDigest
  handshake : TlsDigest
  code : ℕ
  keyLen : ℕ
  fixedIvLen : ℕ
  recordIvLen : ℕ
  macLen : ℕ
  deriving DecidableEq, Repr

/-- See 818-823 -/
def tlsCipherSuiteNull : TlsCipherSuite := ⟨.pubkey, none, .null, .null, .null, 0, 0, 0, 0, 0⟩

variable (exchange : TlsKeyExchange) (digest : DigestAlgorithm)

/-- A suite of the build: with RSA, and with an AES cipher. -/
def tlsAesCbcSuite (code keyBits : ℕ) :
    TlsCipherSuite where
  exchange := exchange
  pubkey := some .rsa
  cipher := .aesCbc
  digest := .single digest
  handshake := .single .sha256
  code := code
  keyLen := keyBits / 8
  fixedIvLen := 0
  recordIvLen := 16
  macLen := digest.digestsize

def tlsAesGcmSuite (code keyBits : ℕ) :
    TlsCipherSuite where
  exchange := exchange
  pubkey := some .rsa
  cipher := .aesGcm
  digest := .single digest
  handshake := .single digest
  code := code
  keyLen := keyBits / 8
  fixedIvLen := 4
  recordIvLen := 8
  macLen := 0

/-- `TLS_CIPHER_SUITES`, by preference.
[crypto/mishmash/rsa_aes_cbc_sha1.c, rsa_aes_cbc_sha256.c, rsa_aes_gcm_sha256.c,
rsa_aes_gcm_sha384.c] -/
def tlsCipherSuites : List TlsCipherSuite :=
  [tlsAesGcmSuite .dhe .sha256 0x009e 128,
   tlsAesGcmSuite .dhe .sha384 0x009f 256,
   tlsAesCbcSuite .dhe .sha256 0x0067 128,
   tlsAesCbcSuite .dhe .sha256 0x006b 256,
   tlsAesCbcSuite .dhe .sha1 0x0033 128,
   tlsAesCbcSuite .dhe .sha1 0x0039 256,
   tlsAesGcmSuite .pubkey .sha256 0x009c 128,
   tlsAesGcmSuite .pubkey .sha384 0x009d 256,
   tlsAesCbcSuite .pubkey .sha256 0x003c 128,
   tlsAesCbcSuite .pubkey .sha256 0x003d 256,
   tlsAesCbcSuite .pubkey .sha1 0x002f 128,
   tlsAesCbcSuite .pubkey .sha1 0x0035 256]

/-- Identify cipher suite.
[835-845] -/
def tlsFindCipherSuite (cipherSuite : ℕ) : Option TlsCipherSuite :=
  tlsCipherSuites.find? fun suite => suite.code = cipherSuite

/-- A signature and hash algorithm with its code.
[include/ipxe/tls.h:226-241] -/
structure TlsSignatureHashAlgorithm where
  digest : DigestAlgorithm
  pubkey : PubkeyAlgorithm
  hash : UInt8
  signature : UInt8
  deriving DecidableEq, Repr

/-- `TLS_SIG_HASH_ALGORITHMS`.  Their order is the linker's; it shows in the Client Hello
only.
[crypto/mishmash/rsa_sha1.c, rsa_sha224.c, rsa_sha256.c, rsa_sha384.c, rsa_sha512.c] -/
def tlsSigHashAlgorithms : List TlsSignatureHashAlgorithm :=
  [⟨.sha1, .rsa, 2, 1⟩, ⟨.sha224, .rsa, 3, 1⟩, ⟨.sha256, .rsa, 4, 1⟩, ⟨.sha384, .rsa, 5, 1⟩,
   ⟨.sha512, .rsa, 6, 1⟩]

/-- See 992-1005 -/
def tlsSignatureHashAlgorithm (pubkey : PubkeyAlgorithm) (digest : TlsDigest) :
    Option TlsSignatureHashAlgorithm :=
  tlsSigHashAlgorithms.find? fun sigHash => sigHash.pubkey = pubkey ∧ .single sigHash.digest = digest

/-- See 1014-1024 -/
def tlsSignatureHashPubkey (signature : UInt8) : Option PubkeyAlgorithm :=
  (tlsSigHashAlgorithms.find? fun sigHash => sigHash.signature = signature).map (·.pubkey)

/-- See 1033-1043 -/
def tlsSignatureHashDigest (hash : UInt8) : Option DigestAlgorithm :=
  (tlsSigHashAlgorithms.find? fun sigHash => sigHash.hash = hash).map (·.digest)

/-- The loop of `tls_p_hash_va`, for at most so many turns. -/
def tlsPHashUpTo (mac : Bytes → Bytes) (seeds : Bytes) : ℕ → Bytes → ℕ → Bytes
  | 0, _, _ => []
  | turns + 1, a, outLen =>
    if outLen = 0 then []
    else
      let out := (mac (a ++ seeds)).take outLen
      out ++ tlsPHashUpTo mac seeds turns (mac a) (outLen - out.length)

/-- Generate secure pseudo-random data using a single hash function.  With the null digest
no turn of the loop yields anything, and it does not end.
[494-544] -/
def tlsPHash (crypto : Crypto) (digest : TlsDigest) (secret : Bytes) (outLen : ℕ)
    (seeds : Bytes) : Option Bytes :=
  let mac := digest.hmac crypto secret
  if digest.digestsize = 0 ∧ outLen ≠ 0 then none
  else some (tlsPHashUpTo mac seeds outLen (mac seeds) outLen)

/-- `TLS_VERSION_MIN` and `TLS_VERSION_MAX`.
[include/ipxe/tls.h:41-48, config/crypto.h:13] -/
def tlsVersionMin : ℕ := 0x0302

def tlsVersionMax : ℕ := 0x0303

/-- Generate secure pseudo-random data.
[556-600] -/
def tlsPrf (crypto : Crypto) (version : ℕ) (handshakeDigest : TlsDigest) (secret : Bytes)
    (outLen : ℕ) (seeds : Bytes) : Option Bytes :=
  if version ≥ 0x0303 then tlsPHash crypto handshakeDigest secret outLen seeds
  else do
    let subsecretLen := (secret.length + 1) / 2
    let md5 ← tlsPHash crypto (.single .md5) (secret.take subsecretLen) outLen seeds
    let sha1 ← tlsPHash crypto (.single .sha1) (secret.drop (secret.length - subsecretLen)) outLen
      seeds
    some (List.zipWith (· ^^^ ·) md5 sha1)

end Ipxe.Model
