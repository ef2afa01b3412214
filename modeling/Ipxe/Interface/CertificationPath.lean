import Ipxe.Model.X509Validate

/-!
# Certification paths

What it takes for a certificate to be trusted by way of a root list: a path of
certificates from it to one whose fingerprint is in the list, each signed by the next.
A path is the list of its certificates, the trusted one last.
-/

namespace Ipxe.Interface

open Model

/-- One link of a path: the second certificate was entitled to issue the first one, and
has signed it. -/
structure Issues (world : X509World) (cert issuer : CertId) : Prop where
  named : (world.cert cert).issuer = (world.cert issuer).subject.raw
  isCa : (world.cert issuer).extensions.basic.ca = true
  maySign : (world.cert issuer).extensions.usage.present = true →
    (world.cert issuer).extensions.usage.bits &&& x509KeyCertSign ≠ 0
  signed : x509CheckSignature world (world.cert cert) (world.cert issuer).subject.publicKey = .ok ()

variable (world : X509World)

/-- The certificate was marked valid for the root list at a time in its validity period,
give or take a margin. -/
def MarkedInTime (log : List (CertId × RootId × ℤ)) (root : RootId)
    (margin : ℤ) (cert : CertId) : Prop :=
  ∃ time, (cert, root, time) ∈ log ∧
    (world.cert cert).validity.notBefore - margin ≤ time ∧
    time ≤ (world.cert cert).validity.notAfter + margin

/-- A path to the root list. -/
structure TrustedPath (world : X509World) (log : List (CertId × RootId × ℤ)) (root : RootId)
    (margin : ℤ) (path : List CertId) : Prop where
  linked : path.IsChain (Issues world)
  anchored : ∃ anchor, path.getLast? = some anchor ∧
    x509Fingerprint world (world.cert anchor) (world.root root).digest ∈
      (world.root root).fingerprints
  inTime : ∀ cert ∈ path, MarkedInTime world log root margin cert

/-- Path length constraints as RFC 5280 counts them: those between a certificate and the
last one of the path, which is not itself counted. -/
def IntermediatesAllowed (path : List CertId) : Prop :=
  ∀ between ca, path[between + 1]? = some ca → between ≤ (world.cert ca).extensions.basic.pathLen

/-- Path length constraints that count every CA certificate below. -/
def CasBelowAllowed (path : List CertId) : Prop :=
  ∀ place ca, path[place]? = some ca → (world.cert ca).extensions.basic.ca = true →
    (path.take place).countP (fun cert => (world.cert cert).extensions.basic.ca) ≤
      (world.cert ca).extensions.basic.pathLen

end Ipxe.Interface
