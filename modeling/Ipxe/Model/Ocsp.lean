import Ipxe.Model.X509Validate

/-!
# Online Certificate Status Protocol

`crypto/ocsp.c`.  An OCSP check is made for a certificate and its issuer; a response is parsed
against it and then validated.  Not modelled is what only serves to send the request (the URI
string).
-/

namespace Ipxe.Model

/-- What a check depends on besides its arguments: the certificate objects, and the
clock (`time ( NULL )`). -/
structure OcspEnv (world : X509World) extends X509Objects world where
  now : ℤ

/-- An OCSP check; `certIdTail` is `request.cert_id_tail`.
[include/ipxe/ocsp.h:80-94] -/
structure OcspCheck where
  cert : CertId
  issuer : CertId
  certIdTail : Asn1Cursor
  deriving DecidableEq, Repr

-- the OID "sha1" and a null
def ocspAlgorithmId : Bytes := [asn1TagOid, 5, 0x2b, 0x0e, 0x03, 0x02, 0x1a, asn1TagNull, 0]

variable (crypto : Crypto)

/-- The request, from the serial number on outwards.  Only the status of the last
operation is looked at.
[161-180] -/
def ocspBuild (cert issuer : X509Certificate) (alloc : ℕ → Bool) :
    Except Errno Unit × Asn1Builder :=
  let nameDigest := (crypto.digest .sha1).hash cert.issuer
  let pubkeyDigest := (crypto.digest .sha1).hash issuer.subject.publicKey.rawBits.data
  let builder := (asn1PrependRaw {} cert.serial (alloc 0)).2
  let builder := (asn1Prepend builder asn1TagOctetString pubkeyDigest (alloc 1)).2
  let builder := (asn1Prepend builder asn1TagOctetString nameDigest (alloc 2)).2
  let builder := (asn1Prepend builder asn1TagSequence ocspAlgorithmId (alloc 3)).2
  let builder := (asn1Wrap builder asn1TagSequence (alloc 4)).2
  let builder := (asn1Wrap builder asn1TagSequence (alloc 5)).2
  let builder := (asn1Wrap builder asn1TagSequence (alloc 6)).2
  let builder := (asn1Wrap builder asn1TagSequence (alloc 7)).2
  asn1Wrap builder asn1TagSequence (alloc 8)

/-- Enter so many nested sequences. -/
def asn1EnterSequences : ℕ → Asn1Cursor → Asn1Cursor
  | 0, cursor => cursor
  | more + 1, cursor => asn1EnterSequences more (asn1Enter cursor asn1TagSequence).2

/-- Build OCSP request: the part of the certificate ID that responses are compared with.
[145-206] -/
def ocspRequest (cert issuer : X509Certificate) (alloc : ℕ → Bool) :
    Except Errno Asn1Cursor := do
  let built := ocspBuild crypto cert issuer alloc
  built.1
  let certIdTail := asn1Skip (asn1EnterSequences 5 built.2.bytes) asn1TagSequence
  certIdTail.1
  .ok certIdTail.2

/-- Create OCSP check.
[279-315] -/
def ocspCheck (world : X509World) (cert issuer : CertId) (alloc : ℕ → Bool) :
    Except Errno OcspCheck := do
  let certIdTail ← ocspRequest world.crypto (world.cert cert) (world.cert issuer) alloc
  if (world.cert cert).extensions.ocspUri = [] then .error .enotty
  else .ok ⟨cert, issuer, certIdTail⟩

/-! ## Responses -/

/-- How a responder is identified: by name or by the hash of its key.
[include/ipxe/ocsp.h:47-60] -/
inductive OcspResponder where
  | name (id : Asn1Cursor)
  | keyHash (id : Asn1Cursor)
  deriving DecidableEq, Repr

/-- See include/ipxe/ocsp.h:62-78 -/
structure OcspResponse where
  tbs : Asn1Cursor
  responder : OcspResponder
  thisUpdate : ℤ
  nextUpdate : ℤ
  algorithm : Asn1Algorithm
  signature : Asn1BitString
  signer : Option CertId
  deriving DecidableEq, Repr

variable (raw : Asn1Cursor)

/-- See 324-356 -/
def ocspParseResponseStatus : Except Errno Unit := do
  (asn1Enter raw asn1TagEnumerated).1
  match (asn1Enter raw asn1TagEnumerated).2 with
  | [status] => if status ≠ 0 then .error (.eprotoStatus status) else .ok ()
  | _ => .error .einval

def oidBasicResponseType : Bytes := [0x2b, 0x06, 0x01, 0x05, 0x05, 0x07, 0x30, 0x01, 0x01]

/-- See 364-382 -/
def ocspParseResponseType : Except Errno Unit :=
  if asn1Compare oidBasicResponseType (asn1Enter raw asn1TagOid).2 then .ok ()
  else .error .enotsupResponseType

/-- Whether a certificate is the responder's.
[390-431] -/
def OcspResponder.compare (responder : OcspResponder) (cert : X509Certificate) : Bool :=
  match responder with
  | .name id => asn1Compare id cert.subject.raw
  | .keyHash id =>
    (crypto.digest .sha1).hash cert.subject.publicKey.rawBits.data =
      (asn1Enter id asn1TagOctetString).2

/-- See 440-469 -/
def ocspParseResponderId : Except Errno OcspResponder :=
  let id := (asn1EnterAny raw).2
  if asn1Type raw = asn1TagExplicit 1 then .ok (.name id)
  else if asn1Type raw = asn1TagExplicit 2 then .ok (.keyHash id)
  else .error .enotsupResponderId

/-- See 477-521 -/
def ocspParseCertId (check : OcspCheck) (raw : Asn1Cursor) : Except Errno Unit :=
  let certId := (asn1Enter raw asn1TagSequence).2
  let cursor := asn1Shrink (asn1Enter certId asn1TagSequence).2 asn1TagOid
  let algorithm := asn1Shrink ocspAlgorithmId asn1TagOid
  if algorithm.1 ≠ .ok () then .error .eaccesCertMismatch
  else if !asn1Compare cursor.2 algorithm.2 then .error .eaccesCertMismatch
  else if !asn1Compare (asn1Skip certId asn1TagSequence).2 check.certIdTail then
    .error .eaccesCertMismatch
  else .ok ()

variable {world : X509World} (env : OcspEnv world)

/-- The first single response: its thisUpdate and nextUpdate.
[529-594] -/
def ocspParseResponses (check : OcspCheck)
    (raw : Asn1Cursor) : Except Errno (ℤ × ℤ) := do
  let cursor := (asn1Enter (asn1Enter raw asn1TagSequence).2 asn1TagSequence).2
  ocspParseCertId check cursor
  let status := (asn1SkipAny cursor).2
  if asn1Type status ≠ asn1TagImplicit 0 then .error .eaccesCertStatus
  else
    let cursor := (asn1SkipAny status).2
    let thisUpdate ← asn1GeneralizedTime env.memory cursor
    let cursor := (asn1SkipAny cursor).2
    if asn1Type cursor = asn1TagExplicit 0 then
      let nextUpdate ← asn1GeneralizedTime env.memory (asn1Enter cursor (asn1TagExplicit 0)).2
      .ok (thisUpdate, nextUpdate)
    else .ok (thisUpdate, env.now)

/-- What `ocsp_parse_tbs_response_data` fills in. -/
structure OcspTbsResponse where
  tbs : Asn1Cursor
  responder : OcspResponder
  thisUpdate : ℤ
  nextUpdate : ℤ

/-- The cursor behind the version, which may be left out. -/
def ocspBehindVersion (tbs : Asn1Cursor) : Asn1Cursor :=
  (asn1SkipIfExists (asn1Enter tbs asn1TagSequence).2 (asn1TagExplicit 0)).2

/-- See 602-632 -/
def ocspParseTbsResponseData (check : OcspCheck)
    (raw : Asn1Cursor) : Except Errno OcspTbsResponse := do
  let tbs := (asn1ShrinkAny raw).2
  let cursor := ocspBehindVersion tbs
  let responder ← ocspParseResponderId cursor
  let cursor := (asn1SkipAny (asn1SkipAny cursor).2).2
  let updates ← ocspParseResponses env check cursor
  .ok ⟨tbs, responder, updates.1, updates.2⟩

/-- The first of the certificates that is the responder's.
[641-692] -/
def ocspFindSigner {world : X509World} (env : OcspEnv world) (responder : OcspResponder) :
    List Asn1Cursor → Except Errno CertId
  | [] => .error .eaccesNoResponder
  | cursor :: certs => do
    let cert ← env.certificate cursor
    if responder.compare world.crypto (world.cert cert) then .ok cert
    else ocspFindSigner env responder certs

/-- See 641-692 -/
def ocspParseCerts (responder : OcspResponder) (raw : Asn1Cursor) : Except Errno CertId :=
  ocspFindSigner env responder
    (asn1Walk (asn1Enter (asn1Enter raw (asn1TagExplicit 0)).2 asn1TagSequence).2)

/-- The certificates, which may be left out. -/
def ocspOptionalSigner (responder : OcspResponder)
    (cursor : Asn1Cursor) : Except Errno (Option CertId) :=
  if asn1Type cursor = asn1TagExplicit 0 then (ocspParseCerts env responder cursor).map some
  else .ok none

/-- See 700-743 -/
def ocspParseBasicResponse (check : OcspCheck)
    (raw : Asn1Cursor) : Except Errno OcspResponse := do
  let cursor := (asn1Enter raw asn1TagSequence).2
  let data ← ocspParseTbsResponseData env check cursor
  let cursor := (asn1SkipAny cursor).2
  let algorithm ← asn1SignatureAlgorithm cursor
  let cursor := (asn1SkipAny cursor).2
  let signature ← asn1IntegralBitString cursor
  let cursor := (asn1SkipAny cursor).2
  let signer ← ocspOptionalSigner env data.responder cursor
  .ok { data with algorithm, signature, signer }

/-- See 751-774 -/
def ocspParseResponseBytes (check : OcspCheck)
    (raw : Asn1Cursor) : Except Errno OcspResponse := do
  let cursor := (asn1Enter (asn1Enter raw (asn1TagExplicit 0)).2 asn1TagSequence).2
  ocspParseResponseType cursor
  let cursor := (asn1SkipAny cursor).2
  ocspParseBasicResponse env check (asn1Enter cursor asn1TagOctetString).2

/-- Receive OCSP response.
[783-837] -/
def ocspResponse (check : OcspCheck)
    (data : Bytes) : Except Errno OcspResponse := do
  let cursor := (asn1Enter data asn1TagSequence).2
  ocspParseResponseStatus cursor
  ocspParseResponseBytes env check (asn1SkipAny cursor).2

/-- Check OCSP response signature.  The last case is not reached for a parsed response.
[842-884] -/
def ocspCheckSignature (response : OcspResponse) (signer : X509Certificate) : Except Errno Unit :=
  match response.algorithm.digest, response.algorithm.pubkey with
  | some digest, some pubkey =>
    crypto.verify pubkey signer.subject.publicKey.raw digest
      ((crypto.digest digest).hash response.tbs) response.signature.data
  | _, _ => .error .enottyAlgorithm

/-- Validate a signer that is not the issuer.
[909-937] -/
def ocspValidateSigner (world : X509World) (state : X509State) (issuer signer : CertId)
    (time : ℤ) : Except Errno Unit × X509State :=
  let state := x509Invalidate state signer
  match x509Validate world state signer (some issuer) time (state.marks issuer).root with
  | (.error rc, state) => (.error rc, state)
  | (.ok (), state) =>
    if (world.cert signer).extensions.extUsage &&& x509OcspSigning = 0 then
      (.error .eaccesNonOcspSigning, state)
    else (.ok (), state)

/-- The checks of the response, before the certificate is marked.
[892-958] -/
def ocspAccept (world : X509World) (state : X509State) (check : OcspCheck)
    (response : OcspResponse) (time : ℤ) : Except Errno Unit × X509State :=
  let signer := response.signer.getD check.issuer
  let signed :=
    if signer ≠ check.issuer then ocspValidateSigner world state check.issuer signer time
    else (.ok (), state)
  match signed with
  | (.error rc, state) => (.error rc, state)
  | (.ok (), state) =>
    match ocspCheckSignature world.crypto response (world.cert signer) with
    | .error rc => (.error rc, state)
    | .ok () =>
      if response.thisUpdate > time + timestampErrorMargin then (.error .eaccesStale, state)
      else if response.nextUpdate < time - timestampErrorMargin then
        (.error .eaccesStale, state)
      else (.ok (), state)

/-- Validate OCSP response.
[892-974] -/
def ocspValidate (world : X509World) (state : X509State) (check : OcspCheck)
    (response : OcspResponse) (time : ℤ) : Except Errno Unit × X509State :=
  match ocspAccept world state check response time with
  | (.error rc, state) => (.error rc, state)
  | (.ok (), state) =>
    let state := state.setMark check.cert { state.marks check.cert with ocspGood := true }
    x509Validate world state check.cert (some check.issuer) time (state.marks check.issuer).root

end Ipxe.Model
