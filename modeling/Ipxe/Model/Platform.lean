import Ipxe.Library.Bytes
import Mathlib.Tactic

/-!
# Builds and status codes

What differs between the builds in the sizes and the signs of the types of C (`build.sh:7-75`), and
the *names* of the error numbers: two failures are the same only where the source returns the same
macro.  `raw` is for integers that are not error numbers of the source.
-/

namespace Ipxe.Model

inductive Platform where
  | ia32
  | x64
  | arm64
  deriving DecidableEq

def Platform.elementBytes : Platform → ℕ
  | .ia32 => 4
  | .x64 => 4
  | .arm64 => 8

/-- The bits of a `size_t`, and of an `unsigned long`. -/
def Platform.sizeBits : Platform → ℕ
  | .ia32 => 32
  | .x64 => 64
  | .arm64 => 64

variable (arch : Platform)

theorem le_sizeBits : 32 ≤ arch.sizeBits := by
  cases arch <;> decide

theorem sizeBits_pos : 0 < arch.sizeBits :=
  lt_of_lt_of_le (by decide) (le_sizeBits arch)

/-- Whether a `char` has a sign. -/
def Platform.charSigned : Platform → Bool
  | .ia32 => true
  | .x64 => true
  | .arm64 => false

def Platform.charToUnsigned (c : UInt8) : ℕ :=
  if arch.charSigned ∧ 0x80 ≤ c then c.toNat + (2 ^ 32 - 256) else c.toNat

/-! ## Status codes -/

/-- The error numbers returned by the functions that are modelled. -/
inductive Errno where
  | einval
  | enomem
  | enoent
  | enospc
  | enotty
  | enotsup
  | enxio
  | epipe
  | eproto
  | erange
  | eacces
  | econnreset
  | enotconn
  | eio
  | enodev
  | eopnotsupp
  | eoverflow
  | etimedout
  | eaddrinuse
  -- net/ipv6.c, net/tcpip.c
  | einvalLen
  | enotsupVer
  | enotsupOpt
  -- crypto/asn1.c
  | einvalAsn1Empty
  | einvalAsn1LenLen
  | einvalAsn1Len
  | einvalAsn1Boolean
  | einvalAsn1Integer
  | einvalAsn1Time
  | einvalAsn1Algorithm
  | einvalBitString
  | enotsupAlgorithm
  | enottyAlgorithm
  -- crypto/x509.c
  | enotsupExtension
  | einvalAlgorithmMismatch
  | einvalVersion
  | eaccesWrongIssuer
  | eaccesNotCa
  | eaccesKeyUsage
  | eaccesExpired
  | eaccesPathLen
  | eaccesUntrusted
  | eaccesOutOfOrder
  | eaccesEmpty
  | eaccesOcspRequired
  | eaccesWrongName
  | eaccesUseless
  -- crypto/ocsp.c
  | eprotoStatus (status : UInt8)
  | enotsupResponseType
  | enotsupResponderId
  | eaccesCertMismatch
  | eaccesCertStatus
  | eaccesNonOcspSigning
  | eaccesNoResponder
  | eaccesStale
  -- crypto/cms.c, where `EACCES_WRONG_NAME` is another error than that of crypto/x509.c
  | eaccesNonSigning
  | eaccesNonCodeSigning
  | eaccesSignerName
  | eaccesNoSignatures
  -- net/tcp/iscsi.c
  | eaccesIncorrectTargetUsername
  | eaccesIncorrectTargetPassword
  | einvalBadCredentialMix
  | einvalMaxburstlength
  | eioTargetUnavailable
  | eioTargetNoResources
  | enotsupInitiatorStatus
  | enotsupTargetStatus
  | epermInitiatorAuthentication
  | epermInitiatorAuthorisation
  | eprotoInvalidChapAlgorithm
  | eprotoInvalidChapIdentifier
  | eprotoInvalidLargeBinary
  | eprotoInvalidChapResponse
  | eprotoInvalidKeyValuePair
  | eprotoValueRejected
  -- net/tls.c
  | einvalChangeCipher
  | einvalAlert
  | einvalHello
  | einvalCertificate
  | einvalCertificates
  | einvalHelloDone
  | einvalFinished
  | einvalIv
  | einvalMac
  | einvalTicket
  | einvalKeyExchange
  | eioAlert
  | enomemContext
  | enomemCertificate
  | enomemChain
  | enomemTxPlaintext
  | enomemTxCiphertext
  | enomemRxConcat
  | enomemRxData
  | enotsupCipher
  | enotsupNull
  | enotsupSigHash
  | enotsupVersion
  | epermAlert
  | epermVerify
  | epermClientCert
  | epermRenegInsecure
  | epermRenegVerify
  | epermKeyExchange
  | eprotoVersion
  | eaccesVerify
  -- net/udp/tftp.c
  | einvalBlksize
  | einvalTsize
  /-- a status that is not one of the named error numbers -/
  | raw (rc : Int)
  deriving DecidableEq, Repr

end Ipxe.Model
