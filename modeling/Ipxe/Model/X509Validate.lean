import Ipxe.Model.X509

/-!
# Validation of X.509 certificates

`crypto/x509.c`.  Certificates are objects with an identity.  Those that exist and the root lists,
with the contents they were made with, are a `X509World`; validation results and OCSP status are a
`X509State`.
-/

namespace Ipxe.Model

abbrev CertId := ℕ
abbrev RootId := ℕ

/-- A root certificate list.
[include/ipxe/x509.h:370-379] -/
structure X509Root where
  digest : DigestAlgorithm
  fingerprints : List Bytes

/-- The objects that exist.  Root list number zero is `root_certificates`, the one used
where none is specified. -/
structure X509World where
  crypto : Crypto
  cert : CertId → X509Certificate
  root : RootId → X509Root

/-- What validation and OCSP checks record in a certificate.
[include/ipxe/x509.h:196-200,131-137] -/
structure X509Mark where
  root : Option RootId := none
  pathRemaining : ℕ := 0
  ocspGood : Bool := false
  deriving DecidableEq, Repr

/-- The marks in all certificates.  `log` remembers which certificate was marked valid
for which root list at what time; no function reads it. -/
structure X509State where
  marks : CertId → X509Mark := fun _ => {}
  log : List (CertId × RootId × ℤ) := []

def X509State.setMark (state : X509State) (cert : CertId) (mark : X509Mark) : X509State :=
  { state with marks := Function.update state.marks cert mark }

/-- Where certificate objects come from.  `certificate` is `x509_certificate`, which
finds a certificate in the store or parses it into a new object, and may run out of
memory; `memory` is what parsing depends on. -/
structure X509Objects (world : X509World) where
  memory : MonthMemory
  certificate : Asn1Cursor → Except Errno CertId
  certificate_parsed : ∀ cursor cert, certificate cursor = .ok cert →
    x509Parse memory (asn1ShrinkAny cursor).2 = .ok (world.cert cert)

section

variable (world : X509World) (cert : X509Certificate)

/-- Check X.509 certificate signature.  The last case is not reached for a parsed
certificate, whose signature algorithm has both parts.
[1119-1173] -/
def x509CheckSignature (publicKey : X509PublicKey) : Except Errno Unit :=
  match cert.signature.algorithm.digest, cert.signature.algorithm.pubkey with
  | some digest, some pubkey =>
    let digestOut := (world.crypto.digest digest).hash cert.tbs
    if publicKey.algorithm.pubkey ≠ some pubkey then .error .einvalAlgorithmMismatch
    else world.crypto.verify pubkey publicKey.raw digest digestOut cert.signature.value.data
  | _, _ => .error .enottyAlgorithm

/-- Check X.509 certificate against issuer certificate.
[1182-1230] -/
def x509CheckIssuer (issuer : X509Certificate) : Except Errno Unit :=
  if !asn1Compare cert.issuer issuer.subject.raw then .error .eaccesWrongIssuer
  else if !issuer.extensions.basic.ca then .error .eaccesNotCa
  else if issuer.extensions.usage.present ∧ issuer.extensions.usage.bits &&& x509KeyCertSign = 0 then
    .error .eaccesKeyUsage
  else x509CheckSignature world cert issuer.subject.publicKey

/-- See 1239-1248 -/
def x509Fingerprint (digest : DigestAlgorithm) : Bytes :=
  (world.crypto.digest digest).hash cert.raw

/-- Check X.509 root certificate.
[1257-1283] -/
def x509CheckRoot (root : X509Root) : Except Errno Unit :=
  if x509Fingerprint world cert root.digest ∈ root.fingerprints then .ok () else .error .enoent

/-- `TIMESTAMP_ERROR_MARGIN`.
[config/crypto.h] -/
def timestampErrorMargin : ℤ := (12 * 60 + 30) * 60

/-- Check X.509 certificate validity period.
[1292-1312] -/
def x509CheckTime (time : ℤ) : Except Errno Unit :=
  if cert.validity.notBefore > time + timestampErrorMargin then .error .eaccesExpired
  else if cert.validity.notAfter < time - timestampErrorMargin then .error .eaccesExpired
  else .ok ()

variable (state : X509State)

/-- See 1320-1327 -/
def x509IsValid (cert : CertId) (root : RootId) : Bool :=
  (state.marks cert).root = some root

/-- Set X.509 certificate as validated.
[1336-1358] -/
def x509SetValid (cert : CertId) (issuer : Option CertId) (time : ℤ) (root : RootId) : X509State :=
  let own := ((world.cert cert).extensions.basic.pathLen + 1) % 2 ^ 32
  let pathRemaining :=
    match issuer with
    | none => own
    | some issuer => min own (((state.marks issuer).pathRemaining + 2 ^ 32 - 1) % 2 ^ 32)
  let state := state.setMark cert { state.marks cert with root := some root, pathRemaining }
  { state with log := state.log ++ [(cert, root, time)] }

/-- Check if X.509 certificate requires an OCSP check.
[include/ipxe/ocsp.h:121-133] -/
def ocspRequired (cert : CertId) : Bool :=
  (world.cert cert).extensions.ocspUri ≠ [] ∧ ¬ (state.marks cert).ocspGood

/-- Validate X.509 certificate.
[1371-1435] -/
def x509Validate (cert : CertId) (issuer : Option CertId) (time : ℤ)
    (root : Option RootId) : Except Errno Unit × X509State :=
  let root := root.getD 0
  if x509IsValid state cert root then (.ok (), state)
  else
    match x509CheckTime (world.cert cert) time with
    | .error rc => (.error rc, state)
    | .ok () =>
      if x509CheckRoot world (world.cert cert) (world.root root) = .ok () then
        (.ok (), x509SetValid world state cert none time root)
      else
        match issuer with
        | none => (.error .eaccesUntrusted, state)
        | some issuer =>
          if !x509IsValid state issuer root then (.error .eaccesOutOfOrder, state)
          else
            match x509CheckIssuer world (world.cert cert) (world.cert issuer) with
            | .error rc => (.error rc, state)
            | .ok () =>
              if (state.marks issuer).pathRemaining = 0 then (.error .eaccesPathLen, state)
              else if ocspRequired world state cert then (.error .eaccesOcspRequired, state)
              else (.ok (), x509SetValid world state cert (some issuer) time root)

/-- See include/ipxe/x509.h:443-447 -/
def x509Invalidate (cert : CertId) : X509State :=
  state.setMark cert { state.marks cert with root := none, pathRemaining := 0 }

/-! ## Chains -/

/-- Identify X.509 certificate by subject.
[1707-1722] -/
def x509FindSubject (certs : List CertId) (subject : Asn1Cursor) : Option CertId :=
  certs.find? fun cert => asn1Compare subject (world.cert cert).subject.raw

/-- The loop of `x509_auto_append` behind certificate `cert`: what it appends while
`memory` more links can be allocated. -/
def x509AutoAppendLoop (certs : List CertId) : ℕ → CertId → Except Errno Unit × List CertId
  | memory, cert =>
    match x509FindSubject world certs (world.cert cert).issuer with
    | none => (.ok (), [])
    | some next =>
      if next = cert then (.ok (), [])
      else
        match memory with
        | 0 => (.error .enomem, [])
        | memory + 1 =>
          let rest := x509AutoAppendLoop certs memory next
          (rest.1, next :: rest.2)

variable (chain : List CertId)

/-- Append X.509 certificates to X.509 certificate chain.
[1734-1762] -/
def x509AutoAppend (certs : List CertId) (memory : ℕ) : Except Errno Unit × List CertId :=
  match chain.getLast? with
  | none => (.error .eaccesEmpty, chain)
  | some cert =>
    let appended := x509AutoAppendLoop world certs memory cert
    (appended.1, chain ++ appended.2)

theorem x509AutoAppend_extends (certs : List CertId) (memory : ℕ) :
    chain <+: (x509AutoAppend world chain certs memory).2 := by
  unfold x509AutoAppend
  split
  · exact List.prefix_rfl
  · exact List.prefix_append chain _

/-- Pairwise validation from an issuer up to the start of a chain; the certificates
before the issuer come nearest first. -/
def x509ValidateUp (time : ℤ) (root : Option RootId) (state : X509State) (issuer : CertId) :
    List CertId → Except Errno Unit × X509State
  | [] => (.ok (), state)
  | cert :: before =>
    match x509Validate world state cert (some issuer) time root with
    | (.error rc, state) => (.error rc, state)
    | (.ok (), state) => x509ValidateUp time root state cert before

/-- The search for the first certificate that can be validated as a standalone. -/
def x509ValidateLinks (time : ℤ) (root : Option RootId) (state : X509State)
    (before : List CertId) : List CertId → Except Errno Unit × X509State
  | [] => (.error .eaccesUseless, state)
  | cert :: after =>
    match x509Validate world state cert none time root with
    | (.error _, state) => x509ValidateLinks time root state (cert :: before) after
    | (.ok (), state) => x509ValidateUp world time root state cert before

/-- Validate X.509 certificate chain; the chain that it leaves behind is returned too.
[1774-1818] -/
def x509ValidateChain (time : ℤ) (store : List CertId)
    (root : Option RootId) (memory : ℕ) : (Except Errno Unit × X509State) × List CertId :=
  match x509AutoAppend world chain store memory with
  | (.error rc, chain) => ((.error rc, state), chain)
  | (.ok (), chain) => (x509ValidateLinks world time root state [] chain, chain)

theorem x509ValidateChain_extends (time : ℤ)
    (store : List CertId) (root : Option RootId) (memory : ℕ) :
    chain <+: (x509ValidateChain world state chain time store root memory).2 := by
  have hbegins := x509AutoAppend_extends world chain store memory
  unfold x509ValidateChain
  split <;> simp_all

inductive X509Event where
  | validate (cert : CertId) (issuer : Option CertId) (time : ℤ) (root : Option RootId)
  | validateChain (chain : List CertId) (time : ℤ) (store : List CertId) (root : Option RootId)
      (memory : ℕ)
  /-- an OCSP check has been passed, see `ocsp_validate` -/
  | ocspGood (cert : CertId)
  | invalidate (cert : CertId)
  | invalidateChain (chain : List CertId)

def x509Step : X509Event → X509State
  | .validate cert issuer time root => (x509Validate world state cert issuer time root).2
  | .validateChain chain time store root memory =>
    (x509ValidateChain world state chain time store root memory).1.2
  | .ocspGood cert => state.setMark cert { state.marks cert with ocspGood := true }
  | .invalidate cert => x509Invalidate state cert
  | .invalidateChain chain => chain.foldl x509Invalidate state

end

end Ipxe.Model
