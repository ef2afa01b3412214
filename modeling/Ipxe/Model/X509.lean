import Ipxe.Model.Asn1
import Ipxe.Model.Socket

/-!
# X.509 certificates

`crypto/x509.c`.  Every parsing function returns the part of the certificate that its source fills
in.  The parts that later code changes (validation results, OCSP status) are not in it.
-/

namespace Ipxe.Model

/-! ## Certificates -/

/-- See include/ipxe/x509.h:38-44 -/
structure X509Validity where
  notBefore : ℤ
  notAfter : ℤ
  deriving DecidableEq, Repr

/-- See include/ipxe/x509.h:46-54 -/
structure X509PublicKey where
  raw : Asn1Cursor
  algorithm : Asn1Algorithm
  rawBits : Asn1BitString
  deriving DecidableEq, Repr

/-- See include/ipxe/x509.h:56-64 -/
structure X509Subject where
  raw : Asn1Cursor
  commonName : Asn1Cursor
  publicKey : X509PublicKey
  deriving DecidableEq, Repr

/-- See include/ipxe/x509.h:66-72 -/
structure X509Signature where
  algorithm : Asn1Algorithm
  value : Asn1BitString
  deriving DecidableEq, Repr

def x509PathLenUnlimited : ℕ := 2 ^ 32 - 2

/-- See include/ipxe/x509.h:74-80 -/
structure X509BasicConstraints where
  ca : Bool := false
  pathLen : ℕ := 0
  deriving DecidableEq, Repr

/-- See include/ipxe/x509.h:89-95 -/
structure X509KeyUsage where
  present : Bool := false
  bits : ℕ := 0
  deriving DecidableEq, Repr

def x509DigitalSignature : ℕ := 0x0080
def x509KeyCertSign : ℕ := 0x0004
def x509CodeSigning : ℕ := 0x0001
def x509OcspSigning : ℕ := 0x0002

/-- The extensions; `ocspUri` is `auth_info.ocsp.uri` and `altNames` is `alt_name.names`.
[include/ipxe/x509.h:157-169] -/
structure X509Extensions where
  basic : X509BasicConstraints := {}
  usage : X509KeyUsage := {}
  extUsage : ℕ := 0
  ocspUri : Asn1Cursor := []
  altNames : Asn1Cursor := []
  deriving DecidableEq, Repr

structure X509TbsCertificate where
  tbs : Asn1Cursor
  version : ℤ
  serial : Asn1Cursor
  signatureAlgorithm : Asn1Algorithm
  issuer : Asn1Cursor
  validity : X509Validity
  subject : X509Subject
  extensions : X509Extensions
  deriving DecidableEq, Repr

/-- See include/ipxe/x509.h:187-224 -/
structure X509Certificate extends X509TbsCertificate where
  raw : Asn1Cursor
  signature : X509Signature
  deriving DecidableEq, Repr

def oidCommonName : Bytes := [0x55, 0x04, 0x03]

variable (raw : Asn1Cursor)

/-- See 181-213 -/
def x509ParseVersion : Except Errno ℤ := do
  let version ← asn1Integer (asn1Enter raw (asn1TagExplicit 0)).2
  if version < 0 then .error .einvalVersion
  else .ok version

/-- See 222-238 -/
def x509ParseSerial : Except Errno Asn1Cursor := do
  (asn1Shrink raw asn1TagInteger).1
  .ok (asn1Shrink raw asn1TagInteger).2

/-- See 247-263 -/
def x509ParseIssuer : Except Errno Asn1Cursor := do
  (asn1Shrink raw asn1TagSequence).1
  .ok (asn1Shrink raw asn1TagSequence).2

/-- See 272-308 -/
def x509ParseValidity (memory : MonthMemory) (raw : Asn1Cursor) : Except Errno X509Validity := do
  let cursor := (asn1Enter raw asn1TagSequence).2
  let notBefore ← asn1GeneralizedTime memory cursor
  let cursor := (asn1SkipAny cursor).2
  let notAfter ← asn1GeneralizedTime memory cursor
  .ok ⟨notBefore, notAfter⟩

variable (cursor : Asn1Cursor)

/-- The contents of one element of a name list: the sequence of an OID and a name. -/
def x509NameElement : Asn1Cursor :=
  (asn1Enter (asn1Enter cursor asn1TagSet).2 asn1TagSequence).2

/-- The first element with the "commonName" OID decides; a name may have none.
[317-357] -/
def x509ParseCommonName : Except Errno Asn1Cursor :=
  let names := asn1Walk (asn1Enter raw asn1TagSequence).2
  let isCommonName cursor :=
    asn1Compare oidCommonName (asn1Enter (x509NameElement cursor) asn1TagOid).2
  match names.find? isCommonName with
  | none => .ok []
  | some cursor =>
    match asn1EnterAny (asn1SkipAny (x509NameElement cursor)).2 with
    | (.error rc, _) => .error rc
    | (.ok (), name) => .ok name

/-- See 390-430 -/
def x509ParsePublicKey : Except Errno X509PublicKey := do
  let info := (asn1ShrinkAny raw).2
  let cursor := (asn1Enter info asn1TagSequence).2
  let algorithm ← asn1PubkeyAlgorithm cursor
  let cursor := (asn1SkipAny cursor).2
  let rawBits ← asn1BitString cursor
  .ok ⟨info, algorithm, rawBits⟩

/-! ## Extensions -/

/-- A boolean that may be left out, as basic constraints and extensions have one.
[450-462,865-877] -/
def x509OptionalBoolean : Except Errno (Bool × Asn1Cursor) :=
  if asn1Type cursor = asn1TagBoolean then do
    let value ← asn1Boolean cursor
    .ok (decide (value ≠ 0), (asn1SkipAny cursor).2)
  else .ok (false, cursor)

variable (extensions : X509Extensions)

/-- See 439-491 -/
def x509ParseBasicConstraints (raw : Asn1Cursor) :
    Except Errno X509Extensions := do
  let (ca, cursor) ← x509OptionalBoolean (asn1Enter raw asn1TagSequence).2
  if !ca then .ok { extensions with basic := { extensions.basic with ca := false } }
  else if asn1Type cursor = asn1TagInteger then do
    let pathLen ← asn1Integer cursor
    if pathLen < 0 then .error .einval
    else .ok { extensions with basic := ⟨true, pathLen.toNat⟩ }
  else .ok { extensions with basic := ⟨true, x509PathLenUnlimited⟩ }

/-- The bits of a key usage bit string, at most four bytes of them.
[520-527] -/
def x509UsageBits (bits : ℕ) (bytes : Bytes) : ℕ :=
  ((bytes.take 4).zipIdx).foldl (fun bits (byte, i) => bits ||| (byte.toNat <<< (8 * i))) bits

/-- See 500-532 -/
def x509ParseKeyUsage (raw : Asn1Cursor) :
    Except Errno X509Extensions := do
  let bitString ← asn1BitString raw
  let bits := x509UsageBits extensions.usage.bits bitString.data
  .ok { extensions with usage := ⟨true, bits⟩ }

/-- `x509_key_purposes`: code signing and OCSP signing.
[534-552] -/
def x509KeyPurposes : List (Bytes × ℕ) :=
  [([0x2b, 0x06, 0x01, 0x05, 0x05, 0x07, 0x03, 0x03], x509CodeSigning),
   ([0x2b, 0x06, 0x01, 0x05, 0x05, 0x07, 0x03, 0x09], x509OcspSigning)]

/-- See 561-591 -/
def x509ParseKeyPurpose (raw : Asn1Cursor) :
    Except Errno X509Extensions := do
  (asn1Enter raw asn1TagOid).1
  let oid := (asn1Enter raw asn1TagOid).2
  match x509KeyPurposes.find? fun purpose => asn1Compare oid purpose.1 with
  | some purpose => .ok { extensions with extUsage := extensions.extUsage ||| purpose.2 }
  | none => .ok extensions

/-- See 600-617 -/
def x509ParseExtendedKeyUsage (raw : Asn1Cursor) : Except Errno X509Extensions :=
  (asn1Walk (asn1Enter raw asn1TagSequence).2).foldlM x509ParseKeyPurpose extensions

/-- See 626-645 -/
def x509ParseOcsp (raw : Asn1Cursor) :
    Except Errno X509Extensions := do
  (asn1Enter raw (asn1TagImplicit 6)).1
  .ok { extensions with ocspUri := (asn1Enter raw (asn1TagImplicit 6)).2 }

def oidAdOcsp : Bytes := [0x2b, 0x06, 0x01, 0x05, 0x05, 0x07, 0x30, 0x01]

/-- The only access method in `x509_access_methods` is OCSP.
[647-708] -/
def x509ParseAccessDescription (raw : Asn1Cursor) : Except Errno X509Extensions :=
  let cursor := (asn1Enter raw asn1TagSequence).2
  if asn1Compare oidAdOcsp (asn1Enter cursor asn1TagOid).2 then
    x509ParseOcsp extensions (asn1SkipAny cursor).2
  else .ok extensions

/-- See 717-735 -/
def x509ParseAuthorityInfoAccess (raw : Asn1Cursor) : Except Errno X509Extensions :=
  (asn1Walk (asn1Enter raw asn1TagSequence).2).foldlM x509ParseAccessDescription extensions

/-- See 744-763 -/
def x509ParseSubjectAltName (raw : Asn1Cursor) :
    Except Errno X509Extensions := do
  (asn1Enter raw asn1TagSequence).1
  .ok { extensions with altNames := (asn1Enter raw asn1TagSequence).2 }

/-- `x509_extensions`: object identifiers and parsers.
[765-813] -/
def x509Extensions : List (Bytes × (X509Extensions → Asn1Cursor → Except Errno X509Extensions)) :=
  [([0x55, 0x1d, 0x13], x509ParseBasicConstraints),
   ([0x55, 0x1d, 0x0f], x509ParseKeyUsage),
   ([0x55, 0x1d, 0x25], x509ParseExtendedKeyUsage),
   ([0x2b, 0x06, 0x01, 0x05, 0x05, 0x07, 0x01, 0x01], x509ParseAuthorityInfoAccess),
   ([0x55, 0x1d, 0x11], x509ParseSubjectAltName)]

/-- See 844-898 -/
def x509ParseExtension (raw : Asn1Cursor) :
    Except Errno X509Extensions := do
  let cursor := (asn1Enter raw asn1TagSequence).2
  let oid := (asn1Enter cursor asn1TagOid).2
  let extension := x509Extensions.find? fun extension => asn1Compare extension.1 oid
  let (isCritical, cursor) ← x509OptionalBoolean (asn1SkipAny cursor).2
  match extension with
  | none => if isCritical then .error .enotsupExtension else .ok extensions
  | some extension => do
    (asn1Enter cursor asn1TagOctetString).1
    extension.2 extensions (asn1Enter cursor asn1TagOctetString).2

/-- See 907-926 -/
def x509ParseExtensions : Except Errno X509Extensions :=
  (asn1Walk (asn1Enter (asn1Enter raw (asn1TagExplicit 3)).2 asn1TagSequence).2).foldlM
    x509ParseExtension {}

/-- The version, which may be left out.
[947-952] -/
def x509OptionalVersion : Except Errno (ℤ × Asn1Cursor) :=
  if asn1Type cursor = asn1TagExplicit 0 then do
    let version ← x509ParseVersion cursor
    .ok (version, (asn1SkipAny cursor).2)
  else .ok (0, cursor)

/-- See 933-994 -/
def x509ParseTbscertificate (memory : MonthMemory) (raw : Asn1Cursor) :
    Except Errno X509TbsCertificate := do
  let tbs := (asn1ShrinkAny raw).2
  let (version, cursor) ← x509OptionalVersion (asn1Enter tbs asn1TagSequence).2
  let serial ← x509ParseSerial cursor
  let cursor := (asn1SkipAny cursor).2
  let signatureAlgorithm ← asn1SignatureAlgorithm cursor
  let cursor := (asn1SkipAny cursor).2
  let issuer ← x509ParseIssuer cursor
  let cursor := (asn1SkipAny cursor).2
  let validity ← x509ParseValidity memory cursor
  let cursor := (asn1SkipAny cursor).2
  let commonName ← x509ParseCommonName cursor
  let subject := (asn1ShrinkAny cursor).2
  let cursor := (asn1SkipAny cursor).2
  let publicKey ← x509ParsePublicKey cursor
  let cursor := (asn1SkipAny cursor).2
  let extensions ← x509ParseExtensions cursor
  .ok { tbs, version, serial, signatureAlgorithm, issuer, validity,
        subject := ⟨subject, commonName, publicKey⟩, extensions }

/-- Parse X.509 certificate from ASN.1 data.
[1003-1056] -/
def x509Parse (memory : MonthMemory) (raw : Asn1Cursor) : Except Errno X509Certificate := do
  let cursor := (asn1Enter raw asn1TagSequence).2
  let tbs ← x509ParseTbscertificate memory cursor
  let cursor := (asn1SkipAny cursor).2
  -- `signature_algorithm` points to the algorithm of `signature`, so that the
  -- comparison below is between this algorithm and itself
  let signatureAlgorithm ← asn1SignatureAlgorithm cursor
  let cursor := (asn1SkipAny cursor).2
  let signatureValue ← asn1IntegralBitString cursor
  let signature : X509Signature := ⟨signatureAlgorithm, signatureValue⟩
  if signature.algorithm ≠ signatureAlgorithm then .error .einvalAlgorithmMismatch
  else .ok { tbs with raw, signature }

def x509GeneralNameDns : UInt8 := asn1TagImplicit 2
def x509GeneralNameIp : UInt8 := asn1TagImplicit 7

/-- The comparison of length-delimited text with a string. -/
def x509CompareNames (dnsname : Asn1Cursor) (name : Bytes) : Except Errno Unit :=
  if name.length = dnsname.length ∧ strncasecmp name dnsname dnsname.length then .ok ()
  else .error .enoent

/-- See 1445-1474 -/
def x509CheckDnsname (name : Bytes) : Except Errno Unit :=
  if raw.take 2 = [0x2a, 0x2e] then
    match strchr name 0x2e with
    | none => .error .enoent
    | some dot => x509CompareNames (raw.drop 2) dot.tail
  else x509CompareNames raw name

variable (env : SocketEnv)

/-- See 1484-1527 -/
def x509CheckIpaddress (raw : Asn1Cursor) (name : Bytes) : Except Errno Unit :=
  if raw.length = 4 ∨ raw.length = 16 then
    let family : SaFamily := if raw.length = 4 then .inet else .inet6
    match sockAton env name with
    | none => .error .einval
    | some sa =>
      if sa.family ≠ family then .error .enoent
      else if sa.address ≠ raw then .error .enoent
      else .ok ()
  else .error .einval

/-- See 1537-1560 -/
def x509CheckAltName (raw : Asn1Cursor) (name : Bytes) : Except Errno Unit :=
  let altName := (asn1EnterAny raw).2
  if asn1Type raw = x509GeneralNameDns then x509CheckDnsname altName name
  else if asn1Type raw = x509GeneralNameIp then x509CheckIpaddress env altName name
  else .error .enotsup

/-- Check X.509 certificate name.
[1569-1596] -/
def x509CheckName (cert : X509Certificate) (name : CString) : Except Errno Unit :=
  if x509CheckDnsname cert.subject.commonName name.chars = .ok () then .ok ()
  else if (asn1Walk cert.extensions.altNames).any fun altName =>
      decide (x509CheckAltName env altName name.chars = .ok ()) then .ok ()
  else .error .eaccesWrongName

end Ipxe.Model
