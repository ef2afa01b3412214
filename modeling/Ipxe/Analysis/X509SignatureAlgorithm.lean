import Ipxe.Library.Procedure
import Ipxe.Model.X509

/-!
# The signature algorithm of a certificate

A certificate names its signature algorithm in the signed part and behind it.  The check of
`x509_parse` that the two agree compares the outer algorithm with itself.
-/

namespace Ipxe.Analysis

open Library Model

/-- The certificate from a field on: the tbsCertificate, the algorithm, the signature. -/
def certField (raw : Asn1Cursor) : ℕ → Asn1Cursor
  | 0 => (asn1Enter raw asn1TagSequence).2
  | field + 1 => (asn1SkipAny (certField raw field)).2

/-- The fields of the tbsCertificate. -/
def tbsFields (raw : Asn1Cursor) : Asn1Cursor :=
  (asn1Enter (asn1ShrinkAny (certField raw 0)).2 asn1TagSequence).2

/-- The tbsCertificate from a field on, where the version, which may be left out, is not counted: the
serial number, the algorithm, the issuer, the validity, the subject, the key and the extensions. -/
def tbsField (raw : Asn1Cursor) : ℕ → Asn1Cursor
  | 0 =>
    if asn1Type (tbsFields raw) = asn1TagExplicit 0 then (asn1SkipAny (tbsFields raw)).2
    else tbsFields raw
  | field + 1 => (asn1SkipAny (tbsField raw field)).2

/-- Everything but the two algorithms can be parsed. -/
structure RestParses (memory : MonthMemory) (raw : Asn1Cursor) : Prop where
  version : (x509OptionalVersion (tbsFields raw)).isOk
  serial : (x509ParseSerial (tbsField raw 0)).isOk
  issuer : (x509ParseIssuer (tbsField raw 2)).isOk
  validity : (x509ParseValidity memory (tbsField raw 3)).isOk
  subject : (x509ParseCommonName (tbsField raw 4)).isOk
  publicKey : (x509ParsePublicKey (tbsField raw 5)).isOk
  extensions : (x509ParseExtensions (tbsField raw 6)).isOk
  signature : (asn1IntegralBitString (certField raw 2)).isOk

/-- What succeeds has a value. -/
theorem isOk_iff {α : Type} {result : Except Errno α} :
    result.isOk = true ↔ ∃ value, result = .ok value := by
  cases result <;> simp [Except.isOk, Except.toBool]

/-- The fields behind the version begin where `x509_parse_tbscertificate` goes on.
[crypto/x509.c:947-952] -/
theorem x509OptionalVersion_cursor {raw next : Asn1Cursor} {version : ℤ}
    (h : x509OptionalVersion (tbsFields raw) = .ok (version, next)) : next = tbsField raw 0 := by
  unfold x509OptionalVersion at h
  unfold tbsField
  split_ifs at h ⊢
  · obtain ⟨_, -, h⟩ := bind_succeeds_iff.1 h
    cases h
    rfl
  · cases h
    rfl

/-- A field is skipped to the next one. -/
theorem tbsField_succ (raw : Asn1Cursor) (field : ℕ) :
    (asn1SkipAny (tbsField raw field)).2 = tbsField raw (field + 1) := rfl

/-- **Accepted certificates**, by the algorithms that are recorded: no two of them are compared.
[crypto/x509.c:1003-1056] -/
theorem x509Parse_accepts {memory : MonthMemory} {raw : Asn1Cursor} {inner outer : Asn1Algorithm} :
    (∃ cert, x509Parse memory raw = .ok cert ∧ cert.signatureAlgorithm = inner ∧
        cert.signature.algorithm = outer) ↔
      RestParses memory raw ∧ asn1SignatureAlgorithm (tbsField raw 1) = .ok inner ∧
        asn1SignatureAlgorithm (certField raw 1) = .ok outer := by
  constructor
  · rintro ⟨cert, h, rfl, rfl⟩
    simp only [x509Parse, x509ParseTbscertificate, bind_succeeds_iff] at h
    obtain ⟨tbs, ⟨⟨version, cursor⟩, hversion, serial, hserial, inner, hinner, issuer, hissuer,
      validity, hvalidity, name, hname, key, hkey, extensions, hextensions, htbs⟩, outer, houter,
      signature, hsignature, hcert⟩ := h
    obtain rfl := x509OptionalVersion_cursor hversion
    simp only [tbsField_succ, Nat.reduceAdd] at hinner hissuer hvalidity hname hkey hextensions
    -- the comparison of the algorithm with itself always passes
    rw [if_neg (fun hne => hne rfl)] at hcert
    cases hcert
    cases htbs
    exact ⟨⟨isOk_iff.2 ⟨_, hversion⟩, isOk_iff.2 ⟨_, hserial⟩, isOk_iff.2 ⟨_, hissuer⟩,
      isOk_iff.2 ⟨_, hvalidity⟩, isOk_iff.2 ⟨_, hname⟩, isOk_iff.2 ⟨_, hkey⟩,
      isOk_iff.2 ⟨_, hextensions⟩, isOk_iff.2 ⟨_, hsignature⟩⟩, hinner, houter⟩
  · rintro ⟨h, hinner, houter⟩
    obtain ⟨⟨version, cursor⟩, hversion⟩ := isOk_iff.1 h.version
    obtain ⟨serial, hserial⟩ := isOk_iff.1 h.serial
    obtain ⟨issuer, hissuer⟩ := isOk_iff.1 h.issuer
    obtain ⟨validity, hvalidity⟩ := isOk_iff.1 h.validity
    obtain ⟨name, hname⟩ := isOk_iff.1 h.subject
    obtain ⟨key, hkey⟩ := isOk_iff.1 h.publicKey
    obtain ⟨extensions, hextensions⟩ := isOk_iff.1 h.extensions
    obtain ⟨signature, hsignature⟩ := isOk_iff.1 h.signature
    obtain rfl := x509OptionalVersion_cursor hversion
    obtain ⟨tbs, htbs, rfl⟩ : ∃ tbs, x509ParseTbscertificate memory (certField raw 0) = .ok tbs ∧
        tbs.signatureAlgorithm = inner := by
      simp only [x509ParseTbscertificate, bind_succeeds_iff, Prod.exists]
      exact ⟨_, ⟨_, _, hversion, _, hserial, _, hinner, _, hissuer, _, hvalidity, _, hname, _, hkey, _,
        hextensions, rfl⟩, rfl⟩
    simp only [x509Parse, bind_succeeds_iff]
    exact ⟨_, ⟨tbs, htbs, outer, houter, signature, hsignature, if_neg (fun hne => hne rfl)⟩, rfl, rfl⟩

/-- **Agreement of the signature algorithms.**  An accepted byte string has the same algorithm in both
places, unless these name two supported algorithms that differ and all the rest can be parsed.
[crypto/x509.c:933-1056] -/
theorem x509Parse_algorithms_agree_iff (memory : MonthMemory) (raw : Asn1Cursor) :
    (∀ cert, x509Parse memory raw = .ok cert → cert.signatureAlgorithm = cert.signature.algorithm) ↔
      ¬ (RestParses memory raw ∧ ∃ inner outer, inner ≠ outer ∧
        asn1SignatureAlgorithm (tbsField raw 1) = .ok inner ∧
        asn1SignatureAlgorithm (certField raw 1) = .ok outer) := by
  constructor
  · rintro h ⟨hrest, inner, outer, hne, hinner, houter⟩
    obtain ⟨cert, hcert, rfl, rfl⟩ := x509Parse_accepts.2 ⟨hrest, hinner, houter⟩
    exact hne (h cert hcert)
  · intro h cert hcert
    by_contra hne
    obtain ⟨hrest, hinner, houter⟩ := x509Parse_accepts.1 ⟨cert, hcert, rfl, rfl⟩
    exact h ⟨hrest, _, _, hne, hinner, houter⟩

/-- A certificate with empty names and key and no version, whose tbsCertificate names
the PKCS #1 algorithm with the given number while sha256WithRSAEncryption (11) stands
behind it. -/
def pkcs1Certificate (algorithm : UInt8) : Bytes :=
  [0x30, 94, 0x30, 74, 0x02, 1, 1,
   0x30, 13, 0x06, 9] ++ oidPkcs1 ++ [algorithm, 0x05, 0,
   0x30, 0, 0x30, 30,
   0x17, 13, 0x37, 0x30, 0x30, 0x31, 0x30, 0x31, 0x30, 0x30, 0x30, 0x30, 0x30, 0x30, 0x5a,
   0x17, 13, 0x37, 0x30, 0x30, 0x31, 0x30, 0x31, 0x30, 0x30, 0x30, 0x30, 0x30, 0x30, 0x5a,
   0x30, 0, 0x30, 18, 0x30, 13, 0x06, 9] ++ oidPkcs1 ++ [1, 0x05, 0, 0x03, 1, 0,
   0x30, 13, 0x06, 9] ++ oidPkcs1 ++ [11, 0x05, 0, 0x03, 1, 0]

def clearMemory : MonthMemory := ⟨fun _ => 0, fun _ => 0⟩

/-- A certificate that is signed as sha256WithRSAEncryption but names
sha1WithRSAEncryption in what is signed is accepted. -/
theorem pkcs1Certificate_disagrees : ∃ cert : X509Certificate,
    x509Parse clearMemory (pkcs1Certificate 5) = .ok cert ∧
    cert.signatureAlgorithm ≠ cert.signature.algorithm := by
  refine ⟨_, rfl, ?_⟩
  decide

end Ipxe.Analysis
