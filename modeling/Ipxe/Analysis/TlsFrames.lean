import Ipxe.Model.Tls

/-!
# What the functions of TLS leave alone

Whether a connection trusts its server depends on a few fields of its state (`TlsTrust`).  Most
functions have nothing to do with them.
-/

namespace Ipxe.Analysis

open Library Model Procedure

/-- The part of the state that trust in the server depends on, and by which the connection
is known. -/
structure TlsTrust where
  self : ℕ
  session : ℕ
  name : CString
  closed : Option (Except Errno Unit)
  clientNegotiation : ℕ
  finished : Bool
  chain : Option (List CertId)
  plugged : Option (List CertId)
  orphans : List (List CertId)
  evidence : TlsEvidence
  offered : Option TlsEvidence
  resuming : Bool
  sessionId : Bytes
  sessionEvidence : TlsEvidence

def trust (ctx : TlsContext) : TlsTrust where
  self := ctx.self
  session := ctx.tls.session
  name := ctx.session.name
  closed := ctx.tls.closed
  clientNegotiation := ctx.tls.clientNegotiation
  finished := ctx.tls.txPending.finished
  chain := ctx.tls.chain
  plugged := ctx.tls.plugged
  orphans := ctx.tls.orphans
  evidence := ctx.tls.evidence
  offered := ctx.tls.offered
  resuming := ctx.tls.resuming
  sessionId := ctx.session.id
  sessionEvidence := ctx.session.evidence

theorem getTls_frame : Frame trust getTls := fun _ => rfl

theorem getSession_frame : Frame trust getSession := fun _ => rfl

theorem setTls_frame {f : TlsConnection → TlsConnection}
    (h : ∀ ctx : TlsContext, trust { ctx with tls := f ctx.tls } = trust ctx) :
    Frame trust (setTls f) := Frame.modify h

theorem tlsReturns_frame {α : Type} (result : Except Errno α) : Frame trust (tlsReturns result) :=
  Frame.result _

theorem tlsRefuse_frame (c : Prop) [Decidable c] (rc : Errno) : Frame trust (tlsRefuse c rc) :=
  Frame.refuse c _

section

variable {world : X509World} (env : TlsEnv world)

theorem tlsAsk_frame : Frame trust (tlsAsk env) := fun _ => rfl

theorem tlsAlloc_frame (rc : Errno) : Frame trust (tlsAlloc env rc) :=
  (tlsAsk_frame env).bind fun _ => tlsRefuse_frame _ rc

theorem tlsGenerateRandom_frame (len : ℕ) : Frame trust (tlsGenerateRandom env len) :=
  (tlsAsk_frame env).bind fun _ => (tlsReturns_frame _).bind fun _ => Frame.pure _

variable (crypto : Crypto)

theorem tlsPrfLabel_frame (secret : Bytes) (outLen : ℕ) (label : String)
    (seeds : Bytes) : Frame trust (tlsPrfLabel crypto secret outLen label seeds) := by
  refine getTls_frame.bind fun tls => ?_
  split
  · exact Frame.fail _
  · exact Frame.pure _

theorem tlsGenerateMasterSecret_frame (preMasterSecret : Bytes) :
    Frame trust (tlsGenerateMasterSecret crypto preMasterSecret) :=
  getTls_frame.bind fun _ => (tlsPrfLabel_frame _ _ _ _ _).bind fun _ =>
    setTls_frame fun _ => rfl

theorem tlsGenerateKeys_frame : Frame trust (tlsGenerateKeys env) := by
  refine getTls_frame.bind fun tls => (tlsPrfLabel_frame _ _ _ _ _).bind fun block => ?_
  refine (Frame.refuse _ _).bind fun _ => ?_
  refine (tlsReturns_frame _).bind fun txCtx => (tlsReturns_frame _).bind fun rxCtx => ?_
  exact (Frame.refuse _ _).bind fun _ => setTls_frame fun _ => rfl

theorem tlsSelectHandshake_frame (digest : TlsDigest) :
    Frame trust (tlsSelectHandshake env digest) :=
  (setTls_frame fun _ => rfl).bind fun _ => (tlsAlloc_frame env _).bind fun _ =>
    setTls_frame fun _ => rfl

variable (data : Bytes)

theorem tlsAddHandshake_frame : Frame trust (tlsAddHandshake data) :=
  setTls_frame fun _ => rfl

theorem tlsSetCipher_frame {store : TlsCipherspec → TlsConnection → TlsConnection}
    (h : ∀ spec (ctx : TlsContext), trust { ctx with tls := store spec ctx.tls } = trust ctx)
    (suite : TlsCipherSuite) : Frame trust (tlsSetCipher env store suite) :=
  (setTls_frame (h _)).bind fun _ => (tlsAlloc_frame env _).bind fun _ => setTls_frame (h _)

theorem tlsSelectCipher_frame (cipherSuite : ℕ) : Frame trust (tlsSelectCipher env cipherSuite) := by
  unfold tlsSelectCipher
  split
  · exact Frame.fail _
  · refine getTls_frame.bind fun tls => (tlsSelectHandshake_frame env _).bind fun _ => ?_
    exact (tlsSetCipher_frame env (fun _ _ => rfl) _).bind fun _ =>
      tlsSetCipher_frame env (fun _ _ => rfl) _

theorem tlsChangeTxCipher_frame : Frame trust tlsChangeTxCipher :=
  getTls_frame.bind fun _ => (tlsRefuse_frame _ _).bind fun _ => setTls_frame fun _ => rfl

theorem tlsChangeRxCipher_frame : Frame trust tlsChangeRxCipher :=
  getTls_frame.bind fun _ => (tlsRefuse_frame _ _).bind fun _ => setTls_frame fun _ => rfl

theorem tlsSendPlaintext_frame (type : UInt8) (data : Bytes) :
    Frame trust (tlsSendPlaintext env type data) := by
  refine getTls_frame.bind fun tls => (tlsAsk_frame env).bind fun random => ?_
  refine (tlsAlloc_frame env _).bind fun _ => (setTls_frame fun _ => rfl).bind fun _ => ?_
  refine (tlsAlloc_frame env _).bind fun _ => (setTls_frame fun _ => rfl).bind fun _ => ?_
  exact (tlsAsk_frame env).bind fun _ => (tlsReturns_frame _).bind fun _ =>
    setTls_frame fun _ => rfl

theorem tlsSendHandshake_frame : Frame trust (tlsSendHandshake env data) :=
  (tlsAddHandshake_frame data).bind fun _ => tlsSendPlaintext_frame env 22 data

theorem tlsSendClientHello_frame : Frame trust (tlsSendClientHello env) :=
  getTls_frame.bind fun _ => getSession_frame.bind fun _ => tlsSendHandshake_frame env _

theorem tlsSendCertificate_frame : Frame trust (tlsSendCertificate env) :=
  getTls_frame.bind fun _ => (tlsAlloc_frame env _).bind fun _ => tlsSendHandshake_frame env _

theorem tlsSendClientKeyExchange_frame : Frame trust (tlsSendClientKeyExchange env) := by
  refine getTls_frame.bind fun tls => ?_
  split
  · refine (tlsGenerateRandom_frame env _).bind fun random => ?_
    refine (tlsGenerateMasterSecret_frame _ _).bind fun _ => (tlsGenerateKeys_frame env).bind fun _ => ?_
    exact getTls_frame.bind fun _ => (tlsReturns_frame _).bind fun _ => tlsSendHandshake_frame env _
  · refine getTls_frame.bind fun tls => (tlsReturns_frame _).bind fun serverKey => ?_
    refine (tlsReturns_frame _).bind fun algorithms => (tlsRefuse_frame _ _).bind fun _ => ?_
    refine (tlsGenerateRandom_frame env _).bind fun _ => (tlsAlloc_frame env _).bind fun _ => ?_
    refine (tlsReturns_frame _).bind fun keys => (tlsGenerateMasterSecret_frame _ _).bind fun _ => ?_
    exact (tlsGenerateKeys_frame env).bind fun _ => tlsSendHandshake_frame env _

theorem tlsSendCertificateVerify_frame : Frame trust (tlsSendCertificateVerify env) := by
  refine getTls_frame.bind fun tls => ?_
  split
  · exact Frame.fail _
  · refine (tlsReturns_frame _).bind fun _ => (tlsReturns_frame _).bind fun sigHash => ?_
    exact (tlsReturns_frame _).bind fun _ => tlsSendHandshake_frame env _

section

variable (data : Bytes)

theorem tlsNewChangeCipher_frame : Frame trust (tlsNewChangeCipher data) :=
  (tlsRefuse_frame _ _).bind fun _ => tlsChangeRxCipher_frame.bind fun _ =>
    setTls_frame fun _ => rfl

theorem tlsNewAlert_frame : Frame trust (tlsNewAlert data) :=
  (tlsRefuse_frame _ _).bind fun _ => (tlsRefuse_frame _ _).bind fun _ => tlsRefuse_frame _ _

theorem tlsNewSessionTicket_frame : Frame trust (tlsNewSessionTicket env data) :=
  (tlsRefuse_frame _ _).bind fun _ => (tlsRefuse_frame _ _).bind fun _ =>
    (setTls_frame fun _ => rfl).bind fun _ => (tlsAlloc_frame env _).bind fun _ =>
      setTls_frame fun _ => rfl

theorem tlsNewServerKeyExchange_frame : Frame trust (tlsNewServerKeyExchange env data) :=
  (setTls_frame fun _ => rfl).bind fun _ => (tlsAlloc_frame env _).bind fun _ =>
    setTls_frame fun _ => rfl

end

theorem tlsNewCertificateRequest_frame : Frame trust (tlsNewCertificateRequest env) := by
  refine (setTls_frame fun _ => rfl).bind fun _ => getTls_frame.bind fun tls => ?_
  split
  · exact Frame.fail _
  · refine (tlsAlloc_frame env _).bind fun _ => (tlsAlloc_frame env _).bind fun _ => ?_
    exact (tlsAsk_frame env).bind fun _ => (tlsReturns_frame _).bind fun _ =>
      setTls_frame fun _ => rfl

theorem tlsCheckRenegotiation_frame (reneg : Option Bytes) :
    Frame trust (tlsCheckRenegotiation reneg) := by
  refine getTls_frame.bind fun tls => ?_
  split
  · exact tlsRefuse_frame _ _
  · exact Frame.whenever ((tlsRefuse_frame _ _).bind fun _ => setTls_frame fun _ => rfl)

theorem tlsAppendCertificatesUpTo_frame (turns : ℕ) (data : Bytes) (chain : List CertId) :
    Frame trust (tlsAppendCertificatesUpTo env turns data chain) := by
  induction turns generalizing data chain with
  | zero => exact Frame.pure _
  | succ turns ih =>
    unfold tlsAppendCertificatesUpTo
    split
    · exact Frame.pure _
    · refine (tlsRefuse_frame _ _).bind fun _ => (tlsRefuse_frame _ _).bind fun _ => ?_
      exact (tlsReturns_frame _).bind fun _ => (tlsAlloc_frame env _).bind fun _ => ih _ _

section

variable (rxData : List Bytes)

theorem tlsNewData_frame : Frame trust (tlsNewData env rxData) := by
  induction rxData with
  | nil => exact Frame.pure _
  | cons data rxData ih =>
    exact (tlsAsk_frame env).bind fun _ => (tlsReturns_frame _).bind fun _ =>
      (setTls_frame fun _ => rfl).bind fun _ => ih

theorem tlsConcatenate_frame (fragment : Bytes) :
    Frame trust (tlsConcatenate env fragment rxData) :=
  (Frame.whenever (tlsAlloc_frame env _)).bind fun _ => Frame.pure _

theorem tlsNewRecord_frame {type : UInt8} (htype : type ≠ 22) :
    Frame trust (tlsNewRecord env type rxData) := by
  refine getTls_frame.bind fun tls => ?_
  split
  · exact (tlsRefuse_frame _ _).bind fun _ => tlsNewData_frame env rxData
  · exact (tlsConcatenate_frame env _ _).bind fun data => tlsNewChangeCipher_frame data
  · exact (tlsConcatenate_frame env _ _).bind fun data => tlsNewAlert_frame data
  · exact absurd rfl htype
  · exact (tlsConcatenate_frame env _ _).bind fun _ => Frame.pure ()

theorem tlsDecryptBuffers_frame (cipher : CipherAlgorithm) (ctx : Bytes) :
    Frame trust (tlsDecryptBuffers env cipher ctx rxData) := by
  induction rxData generalizing ctx with
  | nil => exact Frame.pure _
  | cons data rxData ih =>
    exact (Frame.refuse _ _).bind fun _ => (ih _).bind fun _ => Frame.pure _

theorem tlsDecrypt_frame (type : UInt8) (version : ℕ) :
    Frame trust (tlsDecrypt env type version rxData) := by
  refine getTls_frame.bind fun tls => (tlsRefuse_frame _ _).bind fun _ => ?_
  refine (tlsRefuse_frame _ _).bind fun _ => (tlsDecryptBuffers_frame env _ _ _).bind fun rxData => ?_
  refine (setTls_frame fun _ => rfl).bind fun _ => (tlsRefuse_frame _ _).bind fun _ => ?_
  exact (tlsRefuse_frame _ _).bind fun _ => (tlsRefuse_frame _ _).bind fun _ => Frame.pure _

end

theorem tlsInitPubkey_frame (key : Bytes) : Frame trust (tlsInitPubkey crypto key) :=
  getTls_frame.bind fun _ => (tlsReturns_frame _).bind fun _ => setTls_frame fun _ => rfl

theorem tlsPlainstreamDeliver_frame : Frame trust (tlsPlainstreamDeliver env data) :=
  getTls_frame.bind fun _ => (tlsRefuse_frame _ _).bind fun _ => tlsSendPlaintext_frame env 23 data

end

end Ipxe.Analysis
