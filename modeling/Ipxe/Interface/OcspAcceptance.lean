import Ipxe.Model.Ocsp

/-!
# When an OCSP response vouches for a certificate

The response must say "good" for a certificate identifier that is that of the
certificate and its issuer, it must be timely, and it must be signed by the issuer or
by an OCSP signer that the issuer has signed.
-/

namespace Ipxe.Interface

open Model

def sha1OctetString (crypto : Crypto) (data : Bytes) : Bytes :=
  [0x04, 20] ++ (crypto.digest .sha1).hash data

/-- The certificate identifier of a certificate and its issuer, behind the algorithm: the
hashes of the issuer's name and key, and the serial number. -/
def certIdentifier (crypto : Crypto) (cert issuer : X509Certificate) : Bytes :=
  sha1OctetString crypto cert.issuer ++
    sha1OctetString crypto issuer.subject.publicKey.rawBits.data ++ cert.serial

/-- The contents of the first single response of an OCSP response, from the certificate
identifier on.  They are part of what is signed. -/
def singleResponse (data : Bytes) : Asn1Cursor :=
  let responseBytes := (asn1SkipAny (asn1Enter data asn1TagSequence).2).2
  let response := (asn1Enter (asn1Enter responseBytes (asn1TagExplicit 0)).2 asn1TagSequence).2
  let basic := (asn1Enter (asn1SkipAny response).2 asn1TagOctetString).2
  let tbs := (asn1ShrinkAny (asn1Enter basic asn1TagSequence).2).2
  let responses := (asn1SkipAny (asn1SkipAny (ocspBehindVersion tbs)).2).2
  (asn1Enter (asn1Enter responses asn1TagSequence).2 asn1TagSequence).2

/-- The first single response says "good" for the certificate. -/
structure SaysGood (world : X509World) (cert issuer : CertId) (data : Bytes) : Prop where
  algorithm : (asn1Shrink (asn1Enter (asn1Enter (singleResponse data) asn1TagSequence).2
    asn1TagSequence).2 asn1TagOid).2 = [0x06, 5, 0x2b, 0x0e, 0x03, 0x02, 0x1a]
  identifier : (asn1Skip (asn1Enter (singleResponse data) asn1TagSequence).2 asn1TagSequence).2 =
    certIdentifier world.crypto (world.cert cert) (world.cert issuer)
  status : asn1Type (asn1SkipAny (singleResponse data)).2 = 0x80

/-- The response is timely, within the margin of error. -/
def Timely (response : OcspResponse) (time : ℤ) : Prop :=
  response.thisUpdate ≤ time + timestampErrorMargin ∧
    time - timestampErrorMargin ≤ response.nextUpdate

/-- The response is signed by the issuer, or by an OCSP signer that the issuer has signed. -/
def AuthorisedSignature (world : X509World) (issuer : CertId) (response : OcspResponse) : Prop :=
  ocspCheckSignature world.crypto response (world.cert issuer) = .ok () ∨
  ∃ signer, (world.cert signer).extensions.extUsage &&& x509OcspSigning ≠ 0 ∧
    x509CheckSignature world (world.cert signer) (world.cert issuer).subject.publicKey = .ok () ∧
    ocspCheckSignature world.crypto response (world.cert signer) = .ok ()

/-- What it takes to mark the certificate as good. -/
structure VouchedFor (world : X509World) (cert issuer : CertId) (data : Bytes)
    (response : OcspResponse) (time : ℤ) : Prop where
  good : SaysGood world cert issuer data
  timely : Timely response time
  signed : AuthorisedSignature world issuer response

end Ipxe.Interface
