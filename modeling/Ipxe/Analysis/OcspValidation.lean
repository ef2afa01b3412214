import Ipxe.Analysis.Asn1Building
import Ipxe.Analysis.X509PathValidation
import Ipxe.Analysis.X509SignatureAlgorithm
import Ipxe.Interface.OcspAcceptance

/-!
# OCSP responses

The signer of a response is validated with the general path validator, which accepts a certificate
from the root list whoever has signed it.
-/

namespace Ipxe.Analysis

open Library Model Interface List Option

variable {check : OcspCheck} {response : OcspResponse} {state : X509State}

/-! ## The request -/

def builderOf (bytes : Bytes) : Asn1Builder := ⟨some bytes, bytes.length⟩

theorem asn1Grow_empty (bytes : Bytes) : asn1Grow {} bytes true = (.ok (), builderOf bytes) := by
  simp [asn1Grow, builderOf]

theorem asn1Grow_builderOf (bytes more : Bytes) :
    asn1Grow (builderOf bytes) more true = (.ok (), builderOf (more ++ bytes)) := by
  simp [asn1Grow, builderOf, add_comm]

variable (content : Bytes)

def wrapSequence : Bytes := asn1Header asn1TagSequence content.length ++ content

theorem asn1Wrap_builderOf :
    asn1Wrap (builderOf content) asn1TagSequence true = (.ok (), builderOf (wrapSequence content)) :=
  asn1Grow_builderOf content (asn1Header asn1TagSequence content.length)

theorem asn1Header_sha1 (crypto : Crypto) (data : Bytes) :
    asn1Header asn1TagOctetString ((crypto.digest .sha1).hash data).length ++
      (crypto.digest .sha1).hash data = sha1OctetString crypto data := by
  rw [DigestOps.hash, crypto.digest_length]
  rfl

theorem asn1EnterSequences_nil (more : ℕ) : asn1EnterSequences more [] = [] := by
  induction more with
  | zero => rfl
  | succ more ih => exact ih

theorem length_wrapSequence : (wrapSequence content).length ≤ content.length + 10 := by
  have hoctets := length_asn1LengthOctets 8 content.length
  unfold wrapSequence asn1Header
  split_ifs
  · simp
  · simp only [length_append, length_cons]
    omega

/-- Sequences that were wrapped are entered again. -/
theorem asn1EnterSequences_wrapSequence (more : ℕ) (content : Bytes)
    (hlen : content.length + 10 * more < 2 ^ 32) :
    asn1EnterSequences more (wrapSequence^[more] content) = content ∨
      asn1EnterSequences more (wrapSequence^[more] content) = [] := by
  have hlength : ∀ n, (wrapSequence^[n] content).length ≤ content.length + 10 * n := by
    intro n
    induction n with
    | zero => simp
    | succ n ih =>
      have := length_wrapSequence (wrapSequence^[n] content)
      rw [Function.iterate_succ_apply']
      omega
  induction more with
  | zero => exact .inl rfl
  | succ more ih =>
    have hbound := hlength more
    rw [Function.iterate_succ_apply', asn1EnterSequences]
    rcases asn1Enter_asn1Header asn1TagSequence
      (show (wrapSequence^[more] content).length < 2 ^ 32 by omega) with henter | henter
    · rw [wrapSequence, henter]
      exact ih (by omega)
    · rw [wrapSequence, henter]
      exact .inr (asn1EnterSequences_nil more)

/-- What is left of the identifier if so many allocations fail before one succeeds. -/
def identifierFrom (crypto : Crypto) (cert issuer : X509Certificate) : ℕ → Bytes
  | 0 => certIdentifier crypto cert issuer
  | 1 => sha1OctetString crypto cert.issuer ++
      sha1OctetString crypto issuer.subject.publicKey.rawBits.data
  | _ => sha1OctetString crypto cert.issuer

section

variable {crypto : Crypto} {cert issuer : X509Certificate} {alloc : ℕ → Bool}

/-- Without memory the first octets are refused. -/
theorem asn1Grow_empty_fails (bytes : Bytes) : asn1Grow {} bytes false = (.error .enomem, {}) := rfl

/-- The request when the first allocations fail and all others succeed: what could not be allocated
is missing.
[crypto/ocsp.c:161-180] -/
theorem ocspBuild_eq {first : ℕ} (hfirst : first ≤ 2) (halloc : ∀ i ≤ 8, alloc i = decide (first ≤ i)) :
    ocspBuild crypto cert issuer alloc =
      (.ok (), builderOf (wrapSequence^[5] (asn1Header asn1TagSequence ocspAlgorithmId.length ++
        ocspAlgorithmId ++ identifierFrom crypto cert issuer first))) := by
  unfold ocspBuild
  interval_cases first
  all_goals
    simp (disch := decide) only [halloc, Nat.zero_le, Nat.reduceLeDiff, decide_true, decide_false,
      asn1PrependRaw, asn1Prepend, asn1Grow_empty_fails, asn1Grow_empty, asn1Grow_builderOf,
      asn1Wrap_builderOf, asn1Header_sha1, identifierFrom, certIdentifier, append_assoc]
    rfl

/-- How much is left. -/
theorem length_identifierFrom (crypto : Crypto) (cert issuer : X509Certificate) (first : ℕ) :
    (identifierFrom crypto cert issuer first).length =
      if first = 0 then 44 + cert.serial.length else if first = 1 then 44 else 22 := by
  have hsha1 (data : Bytes) : ((crypto.digest .sha1).hash data).length = 20 :=
    crypto.digest_length .sha1 _
  match first with
  | 0 => simp [identifierFrom, certIdentifier, sha1OctetString, hsha1]; omega
  | 1 => simp [identifierFrom, sha1OctetString, hsha1]
  | first + 2 => simp [identifierFrom, sha1OctetString, hsha1]

variable {certIdTail : Asn1Cursor}

/-- If the request is built, at most the first two allocations have failed.
[crypto/ocsp.c:161-206] -/
theorem alloc_of_ocspRequest (hserial : cert.serial ≠ [])
    (h : ocspRequest crypto cert issuer alloc = .ok certIdTail) :
    ∃ first ≤ 2, ∀ i ≤ 8, alloc i = decide (first ≤ i) := by
  have hok : (ocspBuild crypto cert issuer alloc).1 = .ok () := by
    obtain ⟨_, hbuilt, -⟩ := bind_succeeds_iff.1 h
    exact hbuilt
  obtain ⟨first, hle, hmap⟩ := @alloc_eq_of_succeeds
    [.prependRaw cert.serial (alloc 0),
      .prepend asn1TagOctetString ((crypto.digest .sha1).hash issuer.subject.publicKey.rawBits.data)
        (alloc 1),
      .prepend asn1TagOctetString ((crypto.digest .sha1).hash cert.issuer) (alloc 2),
      .prepend asn1TagSequence ocspAlgorithmId (alloc 3), .wrap asn1TagSequence (alloc 4),
      .wrap asn1TagSequence (alloc 5), .wrap asn1TagSequence (alloc 6), .wrap asn1TagSequence (alloc 7)]
    (.wrap asn1TagSequence (alloc 8)) (by simp [BuilderCall.Adds, hserial])
    (fun hfails => hfails hok)
  change first ≤ 8 at hle
  have halloc : ∀ i ≤ 8, alloc i = decide (first ≤ i) := by
    intro i hi
    have hleft : [alloc 0, alloc 1, alloc 2, alloc 3, alloc 4, alloc 5, alloc 6, alloc 7, alloc 8][i]? =
        some (alloc i) := by
      interval_cases i <;> rfl
    have hright : (replicate first false ++ replicate (9 - first) true)[i]? =
        some (decide (first ≤ i)) := by
      rw [getElem?_append, length_replicate, getElem?_replicate, getElem?_replicate]
      split_ifs with hlost hin
      · rw [decide_eq_false (by omega)]
      · rw [decide_eq_true (by omega)]
      · omega
    exact Option.some.inj (hleft.symm.trans ((congrArg (·[i]?) hmap).trans hright))
  refine ⟨first, ?_, halloc⟩
  by_contra hmore
  -- nothing is left behind the algorithm, or not even that
  rw [ocspRequest, ocspBuild] at h
  interval_cases first
  all_goals
    simp (disch := decide) only [halloc, Nat.reduceLeDiff, decide_true, decide_false,
      asn1PrependRaw, asn1Prepend, asn1Wrap, asn1Grow_empty_fails] at h
    cases h

/-- **Responses are compared with the identifier of the certificate** exactly if the allocation for
the serial number succeeds. -/
theorem ocspRequest_certIdentifier (hserial : cert.serial ≠ [])
    (hlength : cert.serial.length < 2 ^ 31 + 2 ^ 8)
    (h : ocspRequest crypto cert issuer alloc = .ok certIdTail) :
    certIdTail = certIdentifier crypto cert issuer ↔ alloc 0 = true := by
  obtain ⟨first, hfirst, halloc⟩ := alloc_of_ocspRequest hserial h
  have hidentifier := length_identifierFrom crypto cert issuer
  have halgorithm : (asn1Header asn1TagSequence ocspAlgorithmId.length ++ ocspAlgorithmId).length =
      11 := rfl
  have hentered := asn1EnterSequences_wrapSequence 5
    (asn1Header asn1TagSequence ocspAlgorithmId.length ++ ocspAlgorithmId ++
      identifierFrom crypto cert issuer first)
    (by rw [length_append, halgorithm, hidentifier]; split_ifs <;> omega)
  have htail : certIdTail = identifierFrom crypto cert issuer first := by
    simp only [ocspRequest, ocspBuild_eq hfirst halloc, bind_succeeds_iff] at h
    obtain ⟨_, -, _, hskip, htail⟩ := h
    rw [← Except.ok.inj htail]
    simp only [Asn1Builder.bytes, builderOf, getD_some] at hskip ⊢
    rcases hentered with hentered | hentered
    · have hrest : identifierFrom crypto cert issuer first ≠ [] :=
        length_pos_iff.1 (by rw [hidentifier]; split_ifs <;> omega)
      rw [hentered, asn1Skip_asn1Header asn1TagSequence (by decide) hrest]
    · rw [hentered] at hskip
      cases hskip
  have hpos := length_pos_iff.2 hserial
  rw [htail, halloc 0 (by omega), decide_eq_true_eq, Nat.le_zero]
  constructor
  · intro hsame
    have hlengths := congrArg List.length (hsame.trans (rfl : _ = identifierFrom crypto cert issuer 0))
    rw [hidentifier, hidentifier] at hlengths
    split_ifs at hlengths <;> omega
  · rintro rfl
    rfl

end

variable {raw : Asn1Cursor}

/-- The serial number of a certificate that was parsed is not too long for the request. -/
theorem x509Parse_serial_length {memory : MonthMemory} {cert : X509Certificate}
    (h : x509Parse memory raw = .ok cert) :
    2 ≤ cert.serial.length ∧ cert.serial.length < 2 ^ 31 + 2 ^ 8 := by
  simp only [x509Parse, x509ParseTbscertificate, x509ParseSerial, bind_succeeds_iff] at h
  obtain ⟨tbs, ⟨⟨version, cursor⟩, -, serial, ⟨_, hshrink, hserial⟩, tbsAlgorithm, -, issuer, -,
    validity, -, commonName, -, publicKey, -, extensions, -, htbs⟩, algorithm, -, value, -, hcert⟩ := h
  split_ifs at hcert
  cases hcert
  cases htbs
  cases hserial
  exact length_asn1Shrink hshrink

/-- The certificate identifier of a response that is accepted. -/
theorem ocspParseCertId_ok (h : ocspParseCertId check raw = .ok ()) :
    (asn1Shrink (asn1Enter (asn1Enter raw asn1TagSequence).2 asn1TagSequence).2 asn1TagOid).2 =
        [0x06, 5, 0x2b, 0x0e, 0x03, 0x02, 0x1a] ∧
      (asn1Skip (asn1Enter raw asn1TagSequence).2 asn1TagSequence).2 = check.certIdTail := by
  simp only [ocspParseCertId] at h
  split_ifs at h with halgorithm hoid htail
  · refine ⟨Eq.trans (b := (asn1Shrink ocspAlgorithmId asn1TagOid).2) ?_ rfl, ?_⟩
    · simpa [asn1Compare] using hoid
    · simpa [asn1Compare] using htail

/-- The first single response of a response that is accepted. -/
theorem ocspParseResponses_ok {world : X509World} {env : OcspEnv world}
    {updates : ℤ × ℤ} (h : ocspParseResponses env check raw = .ok updates) :
    let single := (asn1Enter (asn1Enter raw asn1TagSequence).2 asn1TagSequence).2
    ocspParseCertId check single = .ok () ∧ asn1Type (asn1SkipAny single).2 = 0x80 := by
  simp only [ocspParseResponses, bind_succeeds_iff] at h
  obtain ⟨_, hcertId, h⟩ := h
  refine ⟨hcertId, ?_⟩
  split at h
  · cases h
  · next hstatus => exact not_not.1 hstatus

/-- **A response that is accepted says "good" for the certificate** exactly if it is compared with the
identifier of the certificate. -/
theorem ocspResponse_saysGood {world : X509World} {env : OcspEnv world} {cert issuer : CertId}
    {data : Bytes} (h : ocspResponse env check data = .ok response) :
    SaysGood world cert issuer data ↔
      check.certIdTail = certIdentifier world.crypto (world.cert cert) (world.cert issuer) := by
  simp only [ocspResponse, ocspParseResponseBytes, ocspParseBasicResponse,
    ocspParseTbsResponseData, bind_succeeds_iff] at h
  obtain ⟨_, -, _, -, _, ⟨_, -, updates, hresponses, -⟩, -⟩ := h
  obtain ⟨hcertId, hstatus⟩ := ocspParseResponses_ok hresponses
  obtain ⟨halgorithm, hidentifier⟩ := ocspParseCertId_ok hcertId
  exact ⟨fun hgood => hidentifier.symm.trans hgood.identifier,
    fun htail => ⟨halgorithm, hidentifier.trans htail, hstatus⟩⟩

variable {world : X509World}

section

variable (state : X509State)

@[simp] theorem ocspGood_x509SetValid (cert other : CertId) (issuer : Option CertId) (time : ℤ)
    (root : RootId) :
    ((x509SetValid world state cert issuer time root).marks other).ocspGood =
      (state.marks other).ocspGood := by
  by_cases hother : other = cert
  · subst hother
    simp only [x509SetValid, X509State.setMark, Function.update_self]
  · simp only [x509SetValid, X509State.setMark, Function.update_of_ne hother]

theorem marks_x509Invalidate {cert other : CertId} (hother : other ≠ cert) :
    (x509Invalidate state cert).marks other = state.marks other := by
  simp [x509Invalidate, X509State.setMark, hother]

@[simp] theorem ocspGood_x509Invalidate (cert other : CertId) :
    ((x509Invalidate state cert).marks other).ocspGood = (state.marks other).ocspGood := by
  by_cases hother : other = cert
  · subst hother
    simp [x509Invalidate, X509State.setMark]
  · rw [marks_x509Invalidate state hother]

/-- The general path validator does not touch the OCSP status. -/
@[simp] theorem ocspGood_x509Validate (cert other : CertId) (issuer : Option CertId) (time : ℤ)
    (root : Option RootId) :
    ((x509Validate world state cert issuer time root).2.marks other).ocspGood =
      (state.marks other).ocspGood := by
  match hvalidate : x509Validate world state cert issuer time root with
  | (.error rc, state') => rw [x509Validate_error hvalidate]
  | (.ok (), state') =>
    rcases x509Validate_ok hvalidate with ⟨-, rfl⟩ | ⟨-, -, rfl⟩ | ⟨issuer, -, -, -, -, -, rfl⟩
    · rfl
    · exact ocspGood_x509SetValid state cert other none time _
    · exact ocspGood_x509SetValid state cert other (some issuer) time _

/-- A signer that is not the issuer must be valid, and an OCSP signer. -/
theorem ocspValidateSigner_eq (issuer signer : CertId) (time : ℤ) :
    let validated := x509Validate world (x509Invalidate state signer) signer (some issuer) time
      ((x509Invalidate state signer).marks issuer).root
    (ocspValidateSigner world state issuer signer time).2 = validated.2 ∧
      ((ocspValidateSigner world state issuer signer time).1 = .ok () ↔
        validated.1 = .ok () ∧ (world.cert signer).extensions.extUsage &&& x509OcspSigning ≠ 0) := by
  intro validated
  unfold ocspValidateSigner
  match hvalidated : validated with
  | (.error rc, state') => simp [validated, hvalidated]
  | (.ok (), state') =>
    simp only [validated, hvalidated]
    split_ifs with husage <;> simp [husage]

/-- **The checks before a certificate is marked.** -/
theorem ocspAccept_eq (check : OcspCheck) (response : OcspResponse) (time : ℤ) :
    let signer := response.signer.getD check.issuer
    let signed := if signer ≠ check.issuer then
      ocspValidateSigner world state check.issuer signer time else (.ok (), state)
    (ocspAccept world state check response time).2 = signed.2 ∧
      ((ocspAccept world state check response time).1 = .ok () ↔
        signed.1 = .ok () ∧
          ocspCheckSignature world.crypto response (world.cert signer) = .ok () ∧
          Timely response time) := by
  intro signer signed
  unfold ocspAccept
  match hsigned : signed with
  | (.error rc, state') => simp [signed, signer, hsigned]
  | (.ok (), state') =>
    simp only [signed, signer, hsigned]
    match ocspCheckSignature world.crypto response
      (world.cert (response.signer.getD check.issuer)) with
    | .error rc => simp
    | .ok () =>
      have htimely : Timely response time ↔
          ¬ response.thisUpdate > time + timestampErrorMargin ∧
            ¬ response.nextUpdate < time - timestampErrorMargin := by
        simp only [Timely, not_lt, gt_iff_lt]
      simp only [htimely]
      split_ifs with hearly hlate
      · simp [hearly]
      · simp [hlate]
      · simp [hearly, hlate]

/-- Checking a response marks nothing as good. -/
theorem ocspGood_ocspAccept (check : OcspCheck) (response : OcspResponse) (time : ℤ)
    (other : CertId) :
    ((ocspAccept world state check response time).2.marks other).ocspGood =
      (state.marks other).ocspGood := by
  rw [(ocspAccept_eq state check response time).1]
  split_ifs
  · rw [(ocspValidateSigner_eq state check.issuer _ time).1]
    simp
  · rfl

end

/-- The certificate is marked when the checks have been passed, and not
otherwise. -/
theorem ocspGood_ocspValidate {time : ℤ} (hbefore : (state.marks check.cert).ocspGood = false) :
    ((ocspValidate world state check response time).2.marks check.cert).ocspGood = true ↔
      (ocspAccept world state check response time).1 = .ok () := by
  have hkept : ((ocspAccept world state check response time).2.marks check.cert).ocspGood = false := by
    rw [ocspGood_ocspAccept, hbefore]
  unfold ocspValidate
  match haccept : ocspAccept world state check response time with
  | (.error rc, state') =>
    rw [haccept] at hkept
    simpa using hkept
  | (.ok (), state') => simp [X509State.setMark]

/-- A listed root certificate is accepted whoever has signed it. -/
theorem x509Validate_root {cert : CertId} {time : ℤ} {root : RootId} (issuer : Option CertId)
    (htime : x509CheckTime (world.cert cert) time = .ok ())
    (hroot : x509CheckRoot world (world.cert cert) (world.root root) = .ok ()) :
    (x509Validate world state cert issuer time (some root)).1 = .ok () := by
  simp only [x509Validate, getD_some, htime, hroot]
  split_ifs <;> rfl

/-- The response that is accepted although it should not be: its signer is an OCSP signer in time
from the issuer's root list which has signed it; but neither has the issuer signed it, nor is any
certificate whose key has signed it an OCSP signer that the issuer has signed. -/
structure UnsignedRootResponder (world : X509World) (issuer : CertId) (root : RootId)
    (response : OcspResponse) (time : ℤ) (signer : CertId) : Prop where
  signer_eq : response.signer = some signer
  signer_ne : signer ≠ issuer
  inTime : x509CheckTime (world.cert signer) time = .ok ()
  listed : x509CheckRoot world (world.cert signer) (world.root root) = .ok ()
  usage : (world.cert signer).extensions.extUsage &&& x509OcspSigning ≠ 0
  signed : ocspCheckSignature world.crypto response (world.cert signer) = .ok ()
  timely : Timely response time
  unauthorised : ¬ AuthorisedSignature world issuer response

theorem ocspAccept_unsignedRootResponder {time : ℤ} {root : RootId} {signer : CertId}
    (hissuer : (state.marks check.issuer).root = some root)
    (h : UnsignedRootResponder world check.issuer root response time signer) :
    (ocspAccept world state check response time).1 = .ok () := by
  rw [(ocspAccept_eq state check response time).2, h.signer_eq, getD_some,
    if_pos h.signer_ne, (ocspValidateSigner_eq state check.issuer signer time).2,
    marks_x509Invalidate state h.signer_ne.symm, hissuer]
  exact ⟨⟨x509Validate_root (some check.issuer) h.inTime h.listed, h.usage⟩, h.signed, h.timely⟩

/-- Every other response that is accepted has an authorised signature. -/
theorem authorisedSignature_ocspAccept {time : ℤ} {root : RootId}
    (hissuer : (state.marks check.issuer).root = some root)
    (hno : ¬ ∃ signer, UnsignedRootResponder world check.issuer root response time signer)
    (h : (ocspAccept world state check response time).1 = .ok ()) :
    AuthorisedSignature world check.issuer response := by
  rw [(ocspAccept_eq state check response time).2] at h
  obtain ⟨hsigner, hsignature, htimely⟩ := h
  by_cases hself : response.signer.getD check.issuer = check.issuer
  · rw [hself] at hsignature
    exact .inl hsignature
  -- the issuer stands in for a signer that is missing, so there is one
  obtain ⟨signer, hsome⟩ : ∃ signer, response.signer = some signer := by
    cases hnone : response.signer with
    | none => exact absurd (by rw [hnone]; rfl) hself
    | some signer => exact ⟨signer, rfl⟩
  rw [hsome, getD_some] at hself hsignature hsigner
  rw [if_pos hself, (ocspValidateSigner_eq state check.issuer signer time).2,
    marks_x509Invalidate state (Ne.symm hself), hissuer] at hsigner
  obtain ⟨hvalid, husage⟩ := hsigner
  rcases x509Validate_ok (Prod.ext hvalid rfl) with
    ⟨hmarked, -⟩ | ⟨hinTime, hlisted, -⟩ | ⟨issuer, hsome', -, -, hchecked, -, -⟩
  · -- the signer has just been invalidated
    simp [x509IsValid, x509Invalidate, X509State.setMark] at hmarked
  · by_contra hunauthorised
    exact hno ⟨signer, hsome, hself, hinTime, hlisted, husage, hsignature, htimely, hunauthorised⟩
  · cases hsome'
    exact .inr ⟨signer, husage, (x509CheckIssuer_ok hchecked).signed, hsignature⟩

/-- Algorithms for which the only valid signature is the last byte of the key. -/
def lastByteCrypto : Crypto where
  digest algorithm := paddingDigest algorithm.digestsize
  digest_length := length_paddingDigest
  pubkeyInit _ _ := .ok ()
  pubkeyVerify _ key _ _ signature :=
    if key.getLast? = signature.head? then .ok () else .error .eaccesUntrusted

def derObject (type : UInt8) (content : Bytes) : Bytes := asn1Header type content.length ++ content

def derAlgorithm (pkcs1 : UInt8) : Bytes :=
  derObject 0x30 (derObject 0x06 (oidPkcs1 ++ [pkcs1]) ++ [0x05, 0])

def derExtension (oid value : Bytes) : Bytes :=
  derObject 0x30 (derObject 0x06 oid ++ derObject 0x04 value)

/-- A certificate that is valid on 1 January 1970; `key` is its key, and `signature` the
signature on it. -/
def derCertificate (serial key signature : UInt8) (extension : Bytes) : Bytes :=
  let epoch := [0x17, 13, 0x37, 0x30, 0x30, 0x31, 0x30, 0x31, 0x30, 0x30, 0x30, 0x30, 0x30, 0x30, 0x5a]
  derObject 0x30 (
    derObject 0x30 (
      [0x02, 1, serial] ++ derAlgorithm 11 ++ [0x30, 0] ++ derObject 0x30 (epoch ++ epoch) ++
      [0x30, 0] ++ derObject 0x30 (derAlgorithm 1 ++ [0x03, 2, 0, key]) ++
      derObject 0xa3 (derObject 0x30 extension)) ++
    derAlgorithm 11 ++ [0x03, 2, 0, signature])

/-- The certificate whose status is asked for: it has an OCSP URI. -/
def derSubject : Bytes :=
  derCertificate 1 1 2 (derExtension [0x2b, 0x06, 0x01, 0x05, 0x05, 0x07, 0x01, 0x01]
    (derObject 0x30 (derObject 0x30 (derObject 0x06 oidAdOcsp ++ [0x86, 1, 0x61]))))

def derIssuer : Bytes :=
  derCertificate 2 2 2 (derExtension [0x55, 0x1d, 0x13] (derObject 0x30 [0x01, 1, 0xff]))

/-- An OCSP signer that has signed itself. -/
def derResponder : Bytes :=
  derCertificate 3 3 3 (derExtension [0x55, 0x1d, 0x25]
    (derObject 0x30 (derObject 0x06 [0x2b, 0x06, 0x01, 0x05, 0x05, 0x07, 0x03, 0x09])))

@[irreducible] def certificateOf (raw : Bytes) : X509Certificate :=
  match x509Parse clearMemory raw with
  | .ok cert => cert
  | .error _ => caCertificate raw [] [] 0

theorem certificateOf_parsed {raw : Bytes} (h : (x509Parse clearMemory raw).isOk = true) :
    x509Parse clearMemory raw = .ok (certificateOf raw) := by
  unfold certificateOf
  match hparse : x509Parse clearMemory raw with
  | .ok cert => rfl
  | .error rc =>
    rw [hparse] at h
    cases h

theorem x509Parse_derSubject : x509Parse clearMemory derSubject = .ok (certificateOf derSubject) :=
  certificateOf_parsed (by decide +kernel)

/-- The subject, its issuer and the responder, with the responder as a root certificate. -/
def responderWorld : X509World where
  crypto := lastByteCrypto
  cert
    | 0 => certificateOf derSubject
    | 1 => certificateOf derIssuer
    | _ => certificateOf derResponder
  root _ := ⟨.sha256, [(lastByteCrypto.digest .sha256).hash derResponder]⟩

def responderEnv : OcspEnv responderWorld where
  memory := clearMemory
  now := 0
  certificate cursor := if (asn1ShrinkAny cursor).2 = derResponder then .ok 2 else .error .enomem
  certificate_parsed cursor cert h := by
    split_ifs at h with hraw
    cases h
    rw [hraw]
    exact certificateOf_parsed (by decide +kernel)

def responderCheck : OcspCheck :=
  ⟨0, 1, certIdentifier lastByteCrypto (responderWorld.cert 0) (responderWorld.cert 1)⟩

/-- What is signed of a response that says "good" for the subject on 1 January 1970. -/
def derTbsResponse : Bytes :=
  let epoch := [0x18, 15, 0x31, 0x39, 0x37, 0x30, 0x30, 0x31, 0x30, 0x31, 0x30, 0x30, 0x30, 0x30,
    0x30, 0x30, 0x5a]
  let identifier := derObject 0x30 (derObject 0x30 ocspAlgorithmId ++ responderCheck.certIdTail)
  let single := derObject 0x30 (identifier ++ [0x80, 0] ++ epoch)
  derObject 0x30 ([0xa1, 2, 0x30, 0] ++ epoch ++ derObject 0x30 single)

def derResponse (signature : UInt8) (certs : Bytes) : Bytes :=
  let basic := derObject 0x30 (
    derTbsResponse ++ derAlgorithm 11 ++ [0x03, 2, 0, signature] ++ certs)
  derObject 0x30 ([0x0a, 1, 0] ++ derObject 0xa0 (derObject 0x30 (
    derObject 0x06 oidBasicResponseType ++ derObject 0x04 basic)))

def parsedResponse (signature : UInt8) (signer : Option CertId) : OcspResponse where
  tbs := derTbsResponse
  responder := .name [0x30, 0]
  thisUpdate := 0
  nextUpdate := 0
  algorithm := (certificateOf derSubject).signature.algorithm
  signature := ⟨[signature], 0⟩
  signer := signer

/-- The issuer has been validated. -/
def responderState : X509State where
  marks
    | 1 => { root := some 0, pathRemaining := 1 }
    | _ => {}

/-- The same response with the responder's certificate and signature. -/
def derUnsigned : Bytes := derResponse 3 (derObject 0xa0 (derObject 0x30 derResponder))

end Ipxe.Analysis
