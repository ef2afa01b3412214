import Ipxe.Interface.CertificationPath
import Ipxe.Library.Runs

/-!
# Path validation is sound

Marks are cached and set one certificate at a time, so the path is an invariant of all marks
(`MarksBacked`).
-/

namespace Ipxe.Analysis

open Library Model Interface List

variable {time : ℤ} {cert : CertId} {state : X509State} {issuer : Option CertId}
  {log : List (CertId × RootId × ℤ)} {root : RootId}

section

variable {world : X509World}

theorem x509CheckTime_ok {cert : X509Certificate} (h : x509CheckTime cert time = .ok ()) :
    cert.validity.notBefore - timestampErrorMargin ≤ time ∧
      time ≤ cert.validity.notAfter + timestampErrorMargin := by
  unfold x509CheckTime at h
  split_ifs at h
  omega

theorem x509CheckIssuer_ok {issuer : CertId}
    (h : x509CheckIssuer world (world.cert cert) (world.cert issuer) = .ok ()) :
    Issues world cert issuer := by
  unfold x509CheckIssuer at h
  split_ifs at h with hname hca husage
  refine ⟨?_, ?_, ?_, h⟩
  · simpa [asn1Compare] using hname
  · simpa using hca
  · intro hpresent hbits
    exact husage ⟨hpresent, hbits⟩

theorem x509CheckRoot_ok {cert : X509Certificate} {root : X509Root} :
    x509CheckRoot world cert root = .ok () ↔
      x509Fingerprint world cert root.digest ∈ root.fingerprints := by
  unfold x509CheckRoot
  split_ifs with h <;> simp [h]

/-- **How a validation succeeds**: the certificate is valid already, or it is
a root certificate, or its issuer is valid and has issued it. -/
theorem x509Validate_ok {state' : X509State} {root : Option RootId}
    (h : x509Validate world state cert issuer time root = (.ok (), state')) :
    (x509IsValid state cert (root.getD 0) = true ∧ state' = state) ∨
    (x509CheckTime (world.cert cert) time = .ok () ∧
      x509CheckRoot world (world.cert cert) (world.root (root.getD 0)) = .ok () ∧
      state' = x509SetValid world state cert none time (root.getD 0)) ∨
    (∃ from', issuer = some from' ∧ x509CheckTime (world.cert cert) time = .ok () ∧
      x509IsValid state from' (root.getD 0) = true ∧
      x509CheckIssuer world (world.cert cert) (world.cert from') = .ok () ∧
      (state.marks from').pathRemaining ≠ 0 ∧
      state' = x509SetValid world state cert (some from') time (root.getD 0)) := by
  simp only [x509Validate] at h
  repeat' split at h
  all_goals cases h
  · next hvalid => exact .inl ⟨hvalid, rfl⟩
  · next htime hroot => exact .inr (.inl ⟨htime, hroot, rfl⟩)
  · next htime _ _ from' hvalid _ hissuer hpath _ =>
      exact .inr (.inr ⟨from', rfl, htime, by simpa using hvalid, hissuer, hpath, rfl⟩)

theorem x509Validate_error {state' : X509State} {root : Option RootId} {rc : Errno}
    (h : x509Validate world state cert issuer time root = (.error rc, state')) :
    state' = state := by
  simp only [x509Validate] at h
  repeat' split at h
  all_goals cases h
  all_goals rfl

/-- A mark with so much path length left has a path that allows it. -/
def Backed (world : X509World) (log : List (CertId × RootId × ℤ)) (root : RootId)
    (pathRemaining : ℕ) (cert : CertId) : Prop :=
  ∃ issuers, TrustedPath world log root timestampErrorMargin (cert :: issuers) ∧
    IntermediatesAllowed world (cert :: issuers) ∧
    ∀ place ca, (cert :: issuers)[place]? = some ca →
      pathRemaining + place ≤ (world.cert ca).extensions.basic.pathLen + 1

/-- Every mark is backed by a path. -/
def MarksBacked (world : X509World) (state : X509State) : Prop :=
  ∀ cert root, (state.marks cert).root = some root →
    Backed world state.log root (state.marks cert).pathRemaining cert

variable {pathRemaining : ℕ}

theorem Backed.mono {log' : List (CertId × RootId × ℤ)} (hlog : log ⊆ log')
    (h : Backed world log root pathRemaining cert) : Backed world log' root pathRemaining cert := by
  obtain ⟨issuers, htrusted, hallowed, hleft⟩ := h
  refine ⟨issuers, ⟨htrusted.linked, htrusted.anchored, ?_⟩, hallowed, hleft⟩
  intro cert hcert
  obtain ⟨time, hmarked, htime⟩ := htrusted.inTime cert hcert
  exact ⟨time, hlog hmarked, htime⟩

theorem backed_root (hlogged : (cert, root, time) ∈ log)
    (htime : x509CheckTime (world.cert cert) time = .ok ())
    (hroot : x509CheckRoot world (world.cert cert) (world.root root) = .ok ())
    (hleft : pathRemaining ≤ (world.cert cert).extensions.basic.pathLen + 1) :
    Backed world log root pathRemaining cert := by
  refine ⟨[], ⟨?_, ⟨cert, rfl, x509CheckRoot_ok.1 hroot⟩, ?_⟩, ?_, ?_⟩
  · exact isChain_singleton cert
  · intro other hother
    rw [mem_singleton.1 hother]
    exact ⟨time, hlogged, x509CheckTime_ok htime⟩
  · intro between ca hca
    simp at hca
  · intro place ca hca
    cases place with
    | zero =>
      cases hca
      exact hleft
    | succ place => simp at hca

/-- A certificate extends the path of its issuer, which must have some path
length left. -/
theorem backed_issued {issuerRemaining : ℕ} {issuer : CertId}
    (hlogged : (cert, root, time) ∈ log) (htime : x509CheckTime (world.cert cert) time = .ok ())
    (hissued : Issues world cert issuer) (hissuer : Backed world log root issuerRemaining issuer)
    (hless : pathRemaining + 1 ≤ issuerRemaining)
    (hleft : pathRemaining ≤ (world.cert cert).extensions.basic.pathLen + 1) :
    Backed world log root pathRemaining cert := by
  obtain ⟨issuers, htrusted, hallowed, hissuerLeft⟩ := hissuer
  refine ⟨issuer :: issuers, ⟨?_, ?_, ?_⟩, ?_, ?_⟩
  · exact isChain_cons_cons.2 ⟨hissued, htrusted.linked⟩
  · obtain ⟨anchor, hlast, hanchor⟩ := htrusted.anchored
    exact ⟨anchor, by rw [getLast?_cons_cons]; exact hlast, hanchor⟩
  · intro other hother
    rcases mem_cons.1 hother with rfl | hother
    · exact ⟨time, hlogged, x509CheckTime_ok htime⟩
    · exact htrusted.inTime other hother
  · intro between ca hca
    have := hissuerLeft between ca (by simpa using hca)
    omega
  · intro place ca hca
    cases place with
    | zero =>
      cases hca
      exact hleft
    | succ place =>
      have := hissuerLeft place ca (by simpa using hca)
      omega

theorem marksBacked_setMark {state : X509State} {cert : CertId} {mark : X509Mark}
    (hinv : MarksBacked world state)
    (hmark : ∀ root, mark.root = some root → Backed world state.log root mark.pathRemaining cert) :
    MarksBacked world (state.setMark cert mark) := by
  intro other root hroot
  by_cases hcert : other = cert
  · rw [hcert] at hroot ⊢
    simp only [X509State.setMark, Function.update_self] at hroot ⊢
    exact hmark root hroot
  · simp only [X509State.setMark, Function.update_of_ne hcert] at hroot ⊢
    exact hinv other root hroot

theorem marksBacked_log (hlog : state.log ⊆ log) (hinv : MarksBacked world state) :
    MarksBacked world { state with log := log } :=
  fun cert root hroot => (hinv cert root hroot).mono hlog

theorem marksBacked_x509SetValid (hinv : MarksBacked world state)
    (hnew : Backed world (state.log ++ [(cert, root, time)]) root
      ((x509SetValid world state cert issuer time root).marks cert).pathRemaining cert) :
    MarksBacked world (x509SetValid world state cert issuer time root) := by
  have hlog : state.log ⊆ state.log ++ [(cert, root, time)] := subset_append_left _ _
  refine @marksBacked_setMark world { state with log := state.log ++ [(cert, root, time)] } cert _
    (marksBacked_log hlog hinv) ?_
  intro root' hroot'
  cases hroot'
  simpa only [x509SetValid, X509State.setMark, Function.update_self] using hnew

theorem pathRemaining_x509SetValid :
    ((x509SetValid world state cert issuer time root).marks cert).pathRemaining ≤
      (world.cert cert).extensions.basic.pathLen + 1 := by
  simp only [x509SetValid, X509State.setMark, Function.update_self]
  have hmod := Nat.mod_le ((world.cert cert).extensions.basic.pathLen + 1) (2 ^ 32)
  cases issuer with
  | none => exact hmod
  | some issuer => exact (min_le_left _ _).trans hmod

theorem pathRemaining_x509SetValid_issuer {issuer : CertId}
    (hpath : (state.marks issuer).pathRemaining ≠ 0) :
    ((x509SetValid world state cert (some issuer) time root).marks cert).pathRemaining + 1 ≤
      (state.marks issuer).pathRemaining := by
  simp only [x509SetValid, X509State.setMark, Function.update_self]
  omega

/-- **One validation keeps all marks backed.** -/
theorem marksBacked_x509Validate (hinv : MarksBacked world state) (cert : CertId)
    (issuer : Option CertId) (time : ℤ) (root : Option RootId) :
    MarksBacked world (x509Validate world state cert issuer time root).2 := by
  have hlogged : (cert, root.getD 0, time) ∈ state.log ++ [(cert, root.getD 0, time)] := by simp
  match hvalidate : x509Validate world state cert issuer time root with
  | (.error rc, state') =>
    rw [x509Validate_error hvalidate]
    exact hinv
  | (.ok (), state') =>
    rcases x509Validate_ok hvalidate with ⟨-, rfl⟩ | ⟨htime, hroot, rfl⟩ |
      ⟨from', -, htime, hvalid, hissuer, hpath, rfl⟩
    · exact hinv
    · dsimp only
      apply marksBacked_x509SetValid hinv
      exact backed_root hlogged htime hroot pathRemaining_x509SetValid
    · have hfrom := hinv from' (root.getD 0) (by simpa [x509IsValid] using hvalid)
      dsimp only
      apply marksBacked_x509SetValid hinv
      exact backed_issued hlogged htime (x509CheckIssuer_ok hissuer)
        (hfrom.mono (subset_append_left _ _))
        (pathRemaining_x509SetValid_issuer hpath) pathRemaining_x509SetValid

/-- What every single validation keeps, the validation of a chain keeps. -/
theorem x509ValidateChain_invariant {inv : X509State → Prop}
    (hvalidate : ∀ state cert issuer time root, inv state →
      inv (x509Validate world state cert issuer time root).2) (hinv : inv state)
    (chain : List CertId) (time : ℤ) (store : List CertId) (root : Option RootId) (memory : ℕ) :
    inv (x509ValidateChain world state chain time store root memory).1.2 := by
  have hup : ∀ (before : List CertId) (state : X509State) (issuer : CertId), inv state →
      inv (x509ValidateUp world time root state issuer before).2 := by
    intro before
    induction before with
    | nil => exact fun _ _ hinv => hinv
    | cons cert before ih =>
      intro state issuer hinv
      have hnext := hvalidate state cert (some issuer) time root hinv
      rw [x509ValidateUp]
      split
      · next hresult => rwa [hresult] at hnext
      · next hresult => exact ih _ cert (by rwa [hresult] at hnext)
  have hlinks : ∀ (after before : List CertId) (state : X509State), inv state →
      inv (x509ValidateLinks world time root state before after).2 := by
    intro after
    induction after with
    | nil => exact fun _ _ hinv => hinv
    | cons cert after ih =>
      intro before state hinv
      have hnext := hvalidate state cert none time root hinv
      rw [x509ValidateLinks]
      split
      · next hresult => exact ih _ _ (by rwa [hresult] at hnext)
      · next hresult => exact hup before _ cert (by rwa [hresult] at hnext)
  unfold x509ValidateChain
  split
  · exact hinv
  · exact hlinks _ _ state hinv

theorem marksBacked_x509Invalidate (hinv : MarksBacked world state) (cert : CertId) :
    MarksBacked world (x509Invalidate state cert) :=
  marksBacked_setMark hinv (fun root hroot => by cases hroot)

theorem marksBacked_x509Step (state : X509State) (event : X509Event)
    (hinv : MarksBacked world state) : MarksBacked world (x509Step world state event) := by
  cases event with
  | validate cert issuer time root => exact marksBacked_x509Validate hinv cert issuer time root
  | validateChain chain time store root memory =>
    refine x509ValidateChain_invariant (fun _ _ _ _ _ hinv => ?_) hinv chain time store root memory
    exact marksBacked_x509Validate hinv _ _ _ _
  | ocspGood cert => exact marksBacked_setMark hinv (hinv cert)
  | invalidate cert => exact marksBacked_x509Invalidate hinv cert
  | invalidateChain chain =>
    induction chain generalizing state with
    | nil => exact hinv
    | cons cert chain ih => exact ih _ (marksBacked_x509Invalidate hinv cert)

end

/-- **Path validation soundness.**  Whatever has been validated, checked by OCSP and
invalidated before: a certificate that is marked valid for a root list has a path to
it.  Times are compared with a margin of error, and path length constraints do not
count the marked certificate itself. -/
theorem x509_marked_trusted (world : X509World) (events : List X509Event) (cert : CertId)
    (root : RootId) :
    let state := run (x509Step world) {} events
    (state.marks cert).root = some root →
      ∃ issuers, TrustedPath world state.log root timestampErrorMargin (cert :: issuers) ∧
        IntermediatesAllowed world (cert :: issuers) := by
  intro state hmarked
  have hempty : MarksBacked world {} := fun cert root hroot => by cases hroot
  have hinv : MarksBacked world state := run_keeps marksBacked_x509Step hempty events
  obtain ⟨issuers, htrusted, hallowed, -⟩ := hinv cert root hmarked
  exact ⟨issuers, htrusted, hallowed⟩

/-- A CA certificate that is valid at time zero only. -/
def caCertificate (raw issuer subject : Bytes) (pathLen : ℕ) : X509Certificate where
  tbs := []
  version := 2
  serial := []
  signatureAlgorithm := { name := "", oid := [], pubkey := some .rsa, digest := some .sha256 }
  issuer := issuer
  validity := ⟨0, 0⟩
  subject := ⟨subject, [], ⟨[], { name := "", oid := [], pubkey := some .rsa }, ⟨[], 0⟩⟩⟩
  extensions := { basic := ⟨true, pathLen⟩ }
  raw := raw
  signature := ⟨{ name := "", oid := [], pubkey := some .rsa, digest := some .sha256 }, ⟨[], 0⟩⟩

/-- Certificate 0 is a root certificate that allows no intermediate certificates, and
has issued all others. -/
def delegationWorld : X509World where
  crypto := acceptingCrypto
  cert
    | 0 => caCertificate [1] [7] [7] 0
    | _ => caCertificate [2] [7] [8] x509PathLenUnlimited
  root _ := ⟨.sha256, [1 :: List.replicate 31 0]⟩

def delegationEvents : List X509Event :=
  [.validate 0 none 0 none, .validateChain [1, 0] 0 [] none 0]

theorem x509_marked_trusted_delegation :
    ∃ issuers, TrustedPath delegationWorld
      (run (x509Step delegationWorld) {} delegationEvents).log 0 timestampErrorMargin (1 :: issuers) ∧
        IntermediatesAllowed delegationWorld (1 :: issuers) :=
  x509_marked_trusted delegationWorld delegationEvents 1 0 (by decide)

/-- Without the margin, and counting the marked certificate too, a marked certificate
may have no path.  A root certificate is marked one second after it has expired; and
the CA certificate issued by one that allows no intermediate certificates is marked. -/
theorem delegation_not_strict :
    (((run (x509Step delegationWorld) {} [.validate 0 none 1 none]).marks 0).root = some 0 ∧
      ¬ ∃ issuers, TrustedPath delegationWorld
        (run (x509Step delegationWorld) {} [.validate 0 none 1 none]).log 0 0 (0 :: issuers)) ∧
    (((run (x509Step delegationWorld) {} delegationEvents).marks 1).root = some 0 ∧
      ¬ ∃ issuers, TrustedPath delegationWorld
        (run (x509Step delegationWorld) {} delegationEvents).log 0 timestampErrorMargin
          (1 :: issuers) ∧ CasBelowAllowed delegationWorld (1 :: issuers)) := by
  refine ⟨⟨by decide, ?_⟩, ⟨by decide, ?_⟩⟩
  · rintro ⟨issuers, htrusted⟩
    obtain ⟨time, hmarked, -, hlate⟩ := htrusted.inTime 0 mem_cons_self
    have hlog : (run (x509Step delegationWorld) {} [.validate 0 none 1 none]).log = [(0, 0, 1)] := by
      decide
    rw [hlog] at hmarked
    simp only [mem_singleton, Prod.mk.injEq, true_and] at hmarked
    simp [hmarked, delegationWorld, caCertificate] at hlate
  · rintro ⟨issuers, htrusted, hallowed⟩
    cases issuers with
    | nil =>
      obtain ⟨anchor, hlast, hanchor⟩ := htrusted.anchored
      cases hlast
      exact absurd hanchor (by decide)
    | cons issuer issuers =>
      -- only the root certificate has the subject that is named as the issuer
      have hnamed := (isChain_cons_cons.1 htrusted.linked).1.named
      cases issuer with
      | zero => exact absurd (hallowed 1 0 rfl rfl) (Nat.not_succ_le_zero 0)
      | succ issuer => simp [delegationWorld, caCertificate] at hnamed

end Ipxe.Analysis
